/-
# Blueth.Utils.Simd — `find_char_256_avx2` and `find_char_128_sse4_2` (`utils/simd.hpp`).

A vector register is a vector of bytes. Of the intrinsics the code uses only what is documented:
`set1` repeats a byte, `cmpeq` compares lane by lane and answers `0xFF` or `0x00`, `movemask` collects the
top bits of the lanes into an `int`, `__builtin_ctz` is the number of the lowest set bit. The `int` is a
32-bit word here, so the mask of a 256-bit register uses its sign bit like any other.

A pointer is an address. Both functions search block by block, the wide one while a WHOLE block is left
(`<=`), the narrow one while MORE than a block is left (`<`), and then byte by byte. `findChar_eq_plain` is
the statement that none of this can be seen from outside: both give the address a byte-by-byte search
gives, and every block they load lies inside the range.
-/
import Blueth.Scan.Memory

set_option autoImplicit false

namespace Blueth.Simd

open Blueth.Scan

/-! ## Registers -/

/-- `char_vector_128` (`n = 16`) and `char_vector_256` (`n = 32`). -/
abbrev CharVector (n : ℕ) := Vector UInt8 n

/-- `bool_vector_128` and `bool_vector_256`: lanes of `0xFF` or `0x00`. -/
abbrev BoolVector (n : ℕ) := Vector UInt8 n

/-- `_mm_set1_epi8`, `_mm256_set1_epi8`. -/
def set1 (n : ℕ) (c : UInt8) : CharVector n := Vector.replicate n c

/-- `operator==`, i.e. `_mm_cmpeq_epi8`, `_mm256_cmpeq_epi8`. -/
def CharVector.eq {n : ℕ} (x y : CharVector n) : BoolVector n :=
  Vector.ofFn fun i => if x[i] = y[i] then 0xFF else 0x00

/-- `mask()`, i.e. `_mm_movemask_epi8`, `_mm256_movemask_epi8`: bit `i` is the top bit of lane `i`. -/
def BoolVector.mask {n : ℕ} (v : BoolVector n) : BitVec 32 :=
  (BitVec.ofBoolListLE (v.toList.map fun lane => lane.toBitVec.msb)).setWidth 32

/-- `get_first_true_in_mask()`, i.e. `__builtin_ctz` of the mask. -/
def BoolVector.getFirstTrueInMask {n : ℕ} (v : BoolVector n) : ℕ := v.mask.ctz.toNat

/-! ## The two searches -/

section Search

variable (m : Memory UInt8) (bufferEnd : ℕ) (findChar : UInt8)

/-- The last loop of both functions: byte by byte. -/
def findCharBytewise (bufferStart : ℕ) : Option ℕ :=
  if bufferStart < bufferEnd then
    (m bufferStart).bind fun c =>
      if c = findChar then some bufferStart else findCharBytewise (bufferStart + 1)
  else some bufferEnd
termination_by bufferEnd - bufferStart

/-- The body of the block loops: load `n` bytes, compare them all, look for a hit. -/
def findCharInBlock (n : ℕ) (bufferStart : ℕ) : Option (Option ℕ) :=
  (m.load bufferStart n).map fun bufferPack =>
    let bufferEqFindChar := CharVector.eq bufferPack (set1 n findChar)
    if bufferEqFindChar.mask ≠ 0 then some (bufferStart + bufferEqFindChar.getFirstTrueInMask) else none

/-- `find_char_256_avx2`. -/
def findChar256Avx2 (bufferStart : ℕ) : Option ℕ :=
  if bufferStart + 32 ≤ bufferEnd then
    (findCharInBlock m findChar 32 bufferStart).bind fun hit =>
      match hit with
      | some p => some p
      | none => findChar256Avx2 (bufferStart + 32)
  else findCharBytewise m bufferEnd findChar bufferStart
termination_by bufferEnd - bufferStart

/-- `find_char_128_sse4_2`. -/
def findChar128Sse4_2 (bufferStart : ℕ) : Option ℕ :=
  if bufferStart + 16 < bufferEnd then
    (findCharInBlock m findChar 16 bufferStart).bind fun hit =>
      match hit with
      | some p => some p
      | none => findChar128Sse4_2 (bufferStart + 16)
  else findCharBytewise m bufferEnd findChar bufferStart
termination_by bufferEnd - bufferStart

end Search

/-! ## The mask -/

section Mask

variable {n : ℕ} {x : CharVector n} {c : UInt8}

/-- Bit `i` of the mask of a comparison: is lane `i` the byte looked for? -/
theorem getLsbD_mask (hn : n ≤ 32) (x : CharVector n) (c : UInt8) {i : ℕ} (hi : i < n) :
    (CharVector.eq x (set1 n c)).mask.getLsbD i = decide (x[i] = c) := by
  have h32 : i < 32 := by omega
  rw [BoolVector.mask, BitVec.getLsbD_setWidth, BitVec.getLsbD_ofBoolListLE]
  have htrue : (255#8).msb = true := by decide
  by_cases hc : x[i] = c <;> simp [CharVector.eq, set1, h32, hi, hc, htrue]

theorem getLsbD_mask_of_le (x : CharVector n) (c : UInt8) {i : ℕ} (hi : n ≤ i) :
    (CharVector.eq x (set1 n c)).mask.getLsbD i = false := by
  rw [BoolVector.mask, BitVec.getLsbD_setWidth, BitVec.getLsbD_ofBoolListLE]
  simp [hi]

/-- An empty mask: no lane is the byte looked for. -/
theorem mask_eq_zero_iff (hn : n ≤ 32) :
    (CharVector.eq x (set1 n c)).mask = 0 ↔ ∀ i (hi : i < n), x[i] ≠ c := by
  constructor
  · intro h i hi
    have hbit := getLsbD_mask hn x c hi
    rw [h, BitVec.ofNat_eq_ofNat, BitVec.getLsbD_zero] at hbit
    simpa using hbit.symm
  · intro h
    apply BitVec.eq_of_getLsbD_eq
    intro i _
    rw [BitVec.ofNat_eq_ofNat, BitVec.getLsbD_zero]
    by_cases hi : i < n
    · rw [getLsbD_mask hn x c hi]
      simpa using h i hi
    · exact getLsbD_mask_of_le x c (by omega)

/-- **The lowest set bit is the first hit.** -/
theorem getFirstTrueInMask_spec (hn : n ≤ 32) (h : (CharVector.eq x (set1 n c)).mask ≠ 0) :
    ∃ hi : (CharVector.eq x (set1 n c)).getFirstTrueInMask < n,
      x[(CharVector.eq x (set1 n c)).getFirstTrueInMask] = c ∧
      ∀ i (hi' : i < (CharVector.eq x (set1 n c)).getFirstTrueInMask), x[i] ≠ c := by
  have hbit := BitVec.getLsbD_true_ctz_of_ne_zero h
  have hi : (CharVector.eq x (set1 n c)).getFirstTrueInMask < n := by
    by_contra hge
    have hfalse := getLsbD_mask_of_le x c (Nat.not_lt.mp hge)
    unfold BoolVector.getFirstTrueInMask at hfalse
    rw [hfalse] at hbit
    cases hbit
  refine ⟨hi, ?_, ?_⟩
  · have heq := getLsbD_mask hn x c hi
    exact of_decide_eq_true (heq.symm.trans hbit)
  · intro i hlt
    have hfalse := BitVec.getLsbD_false_of_lt_ctz hlt
    rw [getLsbD_mask hn x c (by omega)] at hfalse
    simpa using hfalse

end Mask

/-! ## What a search is to find -/

/-- `r` is the address of the first `c` from `start` on, or `stop` when there is none. -/
def IsFirst (m : Memory UInt8) (start stop : ℕ) (c : UInt8) (r : ℕ) : Prop :=
  (start ≤ r ∧ r < stop ∧ m r = some c ∧ ∀ p, start ≤ p → p < r → m p ≠ some c) ∨
    (r = stop ∧ ∀ p, start ≤ p → p < stop → m p ≠ some c)

section First

variable {m : Memory UInt8} {start stop mid r : ℕ} {c : UInt8}

/-- Bytes that are not looked for can be skipped. -/
theorem IsFirst.skip (h : IsFirst m mid stop c r) (hle : start ≤ mid)
    (hmiss : ∀ p, start ≤ p → p < mid → m p ≠ some c) : IsFirst m start stop c r := by
  rcases h with ⟨hs, hr, hc, hbefore⟩ | ⟨hr, hnone⟩
  · refine .inl ⟨by omega, hr, hc, ?_⟩
    intro p hp hlt
    by_cases hmid : p < mid
    · exact hmiss p hp hmid
    · exact hbefore p (by omega) hlt
  · refine .inr ⟨hr, ?_⟩
    intro p hp hlt
    by_cases hmid : p < mid
    · exact hmiss p hp hmid
    · exact hnone p (by omega) hlt

/-- There is only one. -/
theorem IsFirst.unique {r' : ℕ} (h : IsFirst m start stop c r) (h' : IsFirst m start stop c r') :
    r = r' := by
  rcases h with ⟨hs, hr, hc, hbefore⟩ | ⟨hr, hnone⟩
  · rcases h' with ⟨hs', hr', hc', hbefore'⟩ | ⟨hr', hnone'⟩
    · by_contra hne
      rcases Nat.lt_or_gt_of_ne hne with hlt | hlt
      · exact hbefore' r hs hlt hc
      · exact hbefore r' hs' hlt hc'
    · exact absurd hc (hnone' r hs hr)
  · rcases h' with ⟨hs', hr', hc', -⟩ | ⟨hr', -⟩
    · exact absurd hc' (hnone r' hs' hr')
    · rw [hr, hr']

variable {x w : List UInt8}

/-- A word without the byte looked for. -/
theorem isFirst_of_notMem (h : m.Holds start w) (hc : c ∉ w) :
    IsFirst m start (start + w.length) c (start + w.length) := by
  refine .inr ⟨rfl, ?_⟩
  intro p hs hp hread
  have hbyte := h (p - start) (by omega)
  rw [Nat.add_sub_cancel' hs, hread, Option.some.injEq] at hbyte
  exact hc (hbyte ▸ List.getElem_mem _)

/-- A word cut at the byte looked for. -/
theorem isFirst_of_append (h : m.Holds start (x ++ c :: w)) (hc : c ∉ x) :
    IsFirst m start (start + (x ++ c :: w).length) c (start + x.length) := by
  obtain ⟨hx, hw⟩ := Memory.holds_append.mp h
  have hhit := (Memory.holds_cons.mp hw).1
  refine .inl ⟨Nat.le_add_right _ _, ?_, hhit, ?_⟩
  · simp only [List.length_append, List.length_cons]
    omega
  · intro p hs hp hread
    have hbyte := hx (p - start) (by omega)
    rw [Nat.add_sub_cancel' hs, hread, Option.some.injEq] at hbyte
    exact hc (hbyte ▸ List.getElem_mem _)

end First

/-! ## The searches find it -/

section Readable

variable {m : Memory UInt8} {start stop : ℕ}

/-- A byte-by-byte search of a readable range. -/
theorem findCharBytewise_spec (h : m.Readable start stop) (c : UInt8) :
    ∃ r, findCharBytewise m stop c start = some r ∧ IsFirst m start stop c r := by
  induction hk : stop - start generalizing start with
  | zero =>
      refine ⟨stop, ?_, .inr ⟨rfl, ?_⟩⟩
      · rw [findCharBytewise, if_neg (by omega)]
      · intro p hs hp
        omega
  | succ k ih =>
      have hlt : start < stop := by omega
      obtain ⟨d, hd⟩ := h start (Nat.le_refl _) hlt
      rw [findCharBytewise, if_pos hlt, hd, Option.bind_some]
      by_cases hdc : d = c
      · subst hdc
        refine ⟨start, if_pos rfl, .inl ⟨Nat.le_refl _, hlt, hd, ?_⟩⟩
        intro p hs hp
        omega
      · rw [if_neg hdc]
        have hrest : m.Readable (start + 1) stop := fun p hs hp => h p (by omega) hp
        obtain ⟨r, hr, hfirst⟩ := ih hrest (by omega)
        refine ⟨r, hr, hfirst.skip (Nat.le_succ _) ?_⟩
        intro p hs hp
        obtain rfl : p = start := by omega
        rw [hd, ne_eq, Option.some.injEq]
        exact hdc

/-- A block inside the range: the first hit in it, or no hit. -/
theorem findCharInBlock_spec {n : ℕ} (hn : n ≤ 32) (h : m.Readable start stop) (hfit : start + n ≤ stop)
    (c : UInt8) :
    (∃ r, findCharInBlock m c n start = some (some r) ∧ IsFirst m start stop c r) ∨
      (findCharInBlock m c n start = some none ∧ ∀ p, start ≤ p → p < start + n → m p ≠ some c) := by
  obtain ⟨v, hv⟩ := h.load (Nat.le_refl _) hfit
  have hread := Memory.load_eq_some.mp hv
  by_cases hmask : (CharVector.eq v (set1 n c)).mask = 0
  · refine .inr ⟨?_, ?_⟩
    · simp only [findCharInBlock, hv, Option.map_some, hmask, ne_eq, not_true, if_false]
    · intro p hs hp
      have hlane := (mask_eq_zero_iff hn).mp hmask (p - start) (by omega)
      have hp' := hread (p - start) (by omega)
      rw [Nat.add_sub_cancel' hs] at hp'
      rw [hp', ne_eq, Option.some.injEq]
      exact hlane
  · obtain ⟨hi, hhit, hbefore⟩ := getFirstTrueInMask_spec hn hmask
    refine .inl ⟨start + (CharVector.eq v (set1 n c)).getFirstTrueInMask, ?_, .inl ?_⟩
    · simp only [findCharInBlock, hv, Option.map_some, hmask, ne_eq, not_false_eq_true, if_true]
    · refine ⟨Nat.le_add_right _ _, by omega, ?_, ?_⟩
      · rw [hread _ hi, hhit]
      · intro p hs hp
        have hp' := hread (p - start) (by omega)
        rw [Nat.add_sub_cancel' hs] at hp'
        rw [hp', ne_eq, Option.some.injEq]
        exact hbefore (p - start) (by omega)

/-- The wide search of a readable range. -/
theorem findChar256Avx2_spec (h : m.Readable start stop) (c : UInt8) :
    ∃ r, findChar256Avx2 m stop c start = some r ∧ IsFirst m start stop c r := by
  induction hk : stop - start using Nat.strongRecOn generalizing start with
  | ind k ih =>
    rw [findChar256Avx2]
    by_cases hfit : start + 32 ≤ stop
    · rw [if_pos hfit]
      rcases findCharInBlock_spec (Nat.le_refl 32) h hfit c with ⟨r, hr, hfirst⟩ | ⟨hnone, hmiss⟩
      · rw [hr]
        exact ⟨r, rfl, hfirst⟩
      · rw [hnone]
        have hrest : m.Readable (start + 32) stop := fun p hs hp => h p (by omega) hp
        obtain ⟨r, hr, hfirst⟩ := ih (stop - (start + 32)) (by omega) hrest rfl
        exact ⟨r, hr, hfirst.skip (Nat.le_add_right _ _) hmiss⟩
    · rw [if_neg hfit]
      exact findCharBytewise_spec h c

/-- The narrow search of a readable range. Its last full block is searched byte by byte. -/
theorem findChar128Sse4_2_spec (h : m.Readable start stop) (c : UInt8) :
    ∃ r, findChar128Sse4_2 m stop c start = some r ∧ IsFirst m start stop c r := by
  induction hk : stop - start using Nat.strongRecOn generalizing start with
  | ind k ih =>
    rw [findChar128Sse4_2]
    by_cases hmore : start + 16 < stop
    · rw [if_pos hmore]
      rcases findCharInBlock_spec (by omega) h (Nat.le_of_lt hmore) c with ⟨r, hr, hfirst⟩ | ⟨hnone, hmiss⟩
      · rw [hr]
        exact ⟨r, rfl, hfirst⟩
      · rw [hnone]
        have hrest : m.Readable (start + 16) stop := fun p hs hp => h p (by omega) hp
        obtain ⟨r, hr, hfirst⟩ := ih (stop - (start + 16)) (by omega) hrest rfl
        exact ⟨r, hr, hfirst.skip (Nat.le_add_right _ _) hmiss⟩
    · rw [if_neg hmore]
      exact findCharBytewise_spec h c

/-- Forbidding the reads outside the range does not change what is to be found in it. -/
theorem isFirst_within {r : ℕ} {c : UInt8} (h : IsFirst (m.within start stop) start stop c r) :
    IsFirst m start stop c r := by
  rcases h with ⟨hs, hr, hc, hbefore⟩ | ⟨hr, hnone⟩
  · rw [Memory.within_of_mem hs hr] at hc
    refine .inl ⟨hs, hr, hc, ?_⟩
    intro p hp hlt
    rw [← Memory.within_of_mem (m := m) hp (by omega : p < stop)]
    exact hbefore p hp hlt
  · refine .inr ⟨hr, ?_⟩
    intro p hp hlt
    rw [← Memory.within_of_mem (m := m) hp hlt]
    exact hnone p hp hlt

/-- **The vectorised searches are the plain one.** On a range that can be read, and for every byte: both
give the address of its first occurrence, or the end when there is none, as the byte-by-byte search does;
and they do so with every read outside the range forbidden, so no load of theirs leaves it. -/
theorem findChar_eq_plain (h : m.Readable start stop) (c : UInt8) :
    ∃ r, IsFirst m start stop c r ∧
      findCharBytewise m stop c start = some r ∧
      findChar256Avx2 m stop c start = some r ∧
      findChar128Sse4_2 m stop c start = some r ∧
      findChar256Avx2 (m.within start stop) stop c start = some r ∧
      findChar128Sse4_2 (m.within start stop) stop c start = some r := by
  obtain ⟨r, hr, hfirst⟩ := findCharBytewise_spec h c
  obtain ⟨r₁, hr₁, hfirst₁⟩ := findChar256Avx2_spec h c
  obtain ⟨r₂, hr₂, hfirst₂⟩ := findChar128Sse4_2_spec h c
  obtain ⟨r₃, hr₃, hfirst₃⟩ := findChar256Avx2_spec h.within c
  obtain ⟨r₄, hr₄, hfirst₄⟩ := findChar128Sse4_2_spec h.within c
  obtain rfl := hfirst.unique hfirst₁
  obtain rfl := hfirst.unique hfirst₂
  obtain rfl := hfirst.unique (isFirst_within hfirst₃)
  obtain rfl := hfirst.unique (isFirst_within hfirst₄)
  exact ⟨r, hfirst, hr, hr₁, hr₂, hr₃, hr₄⟩

/-- 33 bytes from address 5 on, the byte looked for in the last lane of the first wide block. -/
theorem findChar_eq_plain_last_lane :
    ∃ r, IsFirst (Memory.only 5 (List.replicate 31 0 ++ [0x80, 0x80])) 5 38 0x80 r ∧
      findCharBytewise (Memory.only 5 (List.replicate 31 0 ++ [0x80, 0x80])) 38 0x80 5 = some r ∧
      findChar256Avx2 (Memory.only 5 (List.replicate 31 0 ++ [0x80, 0x80])) 38 0x80 5 = some r ∧
      findChar128Sse4_2 (Memory.only 5 (List.replicate 31 0 ++ [0x80, 0x80])) 38 0x80 5 = some r ∧
      findChar256Avx2 ((Memory.only 5 (List.replicate 31 0 ++ [0x80, 0x80])).within 5 38) 38 0x80 5
        = some r ∧
      findChar128Sse4_2 ((Memory.only 5 (List.replicate 31 0 ++ [0x80, 0x80])).within 5 38) 38 0x80 5
        = some r :=
  findChar_eq_plain (Memory.holds_only 5 (List.replicate 31 0 ++ [0x80, 0x80])).readable 0x80

end Readable

/-! ## The search as the callers use it -/

section Holding

variable {m : Memory UInt8} {start : ℕ} {c : UInt8} {x w : List UInt8}

/-- The byte is in the word: its address. -/
theorem findChar_of_append (h : m.Holds start (x ++ c :: w)) (hc : c ∉ x) :
    findChar128Sse4_2 m (start + (x ++ c :: w).length) c start = some (start + x.length) := by
  obtain ⟨r, hr, hfirst⟩ := findChar128Sse4_2_spec h.readable c
  rw [hr, hfirst.unique (isFirst_of_append h hc)]

/-- The byte is not in the word: the end. -/
theorem findChar_of_notMem (h : m.Holds start w) (hc : c ∉ w) :
    findChar128Sse4_2 m (start + w.length) c start = some (start + w.length) := by
  obtain ⟨r, hr, hfirst⟩ := findChar128Sse4_2_spec h.readable c
  rw [hr, hfirst.unique (isFirst_of_notMem h hc)]

/-- An empty range, also one that starts behind its end. -/
theorem findChar_of_le {stop : ℕ} (h : stop ≤ start) :
    findChar128Sse4_2 m stop c start = some stop := by
  rw [findChar128Sse4_2, if_neg (by omega), findCharBytewise, if_neg (by omega)]

end Holding

/-! ## The searches as computations that read -/

theorem reader_findCharBytewise (stop : ℕ) (c : UInt8) (p : ℕ) :
    Memory.Reader fun m => findCharBytewise m stop c p := by
  induction hk : stop - p generalizing p with
  | zero =>
      have heq : ∀ m, findCharBytewise m stop c p = some stop := by
        intro m
        rw [findCharBytewise, if_neg (by omega)]
      simpa only [heq] using Memory.reader_some stop
  | succ k ih =>
      have heq : ∀ m, findCharBytewise m stop c p =
          (m p).bind fun d => if d = c then some p else findCharBytewise m stop c (p + 1) := by
        intro m
        rw [findCharBytewise, if_pos (by omega)]
      simp only [heq]
      apply (Memory.reader_read p).bind
      intro d
      exact (Memory.reader_some p).ite (ih (p + 1) (by omega))

theorem reader_findCharInBlock (c : UInt8) (n p : ℕ) :
    Memory.Reader fun m => findCharInBlock m c n p := by
  simp only [findCharInBlock, Option.map_eq_bind]
  apply (Memory.reader_load p n).bind
  intro v
  exact Memory.reader_some _

theorem reader_findChar128Sse4_2 (stop : ℕ) (c : UInt8) (p : ℕ) :
    Memory.Reader fun m => findChar128Sse4_2 m stop c p := by
  induction hk : stop - p using Nat.strongRecOn generalizing p with
  | ind k ih =>
    by_cases hmore : p + 16 < stop
    · have heq : ∀ m, findChar128Sse4_2 m stop c p =
          (findCharInBlock m c 16 p).bind fun hit =>
            match hit with
            | some q => some q
            | none => findChar128Sse4_2 m stop c (p + 16) := by
        intro m
        rw [findChar128Sse4_2, if_pos hmore]
      simp only [heq]
      apply (reader_findCharInBlock c 16 p).bind
      intro hit
      cases hit with
      | some q => exact Memory.reader_some q
      | none => exact ih (stop - (p + 16)) (by omega) (p + 16) rfl
    · have heq : ∀ m, findChar128Sse4_2 m stop c p = findCharBytewise m stop c p := by
        intro m
        rw [findChar128Sse4_2, if_neg hmore]
      simpa only [heq] using reader_findCharBytewise stop c p

end Blueth.Simd
