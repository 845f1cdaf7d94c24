/-
# Blueth.Codec.FrameReads — does `LineBasedFrameDecoder` depend on anything but the bytes it is given?

Two reads leave the range: the CRLF loop looks at the byte behind a `'\r'` that may be the last one, the
`NewLineNewLine` loop at the byte before a newline that may be the first one. And a frame may leave it: an
empty line comes out as a view of `2 ^ 64 - 1` bytes, and a newline at the very end has no second
terminator byte in the range. `rangeOnly_iff` says that nothing else goes wrong: it gives, for either kind
of terminator, the texts on which the frames are a function of the range alone and lie inside it.

The argument never compares two runs step by step. A run that succeeds on the memory that holds the text
and nothing else (`Memory.only`) succeeds with the same frames on every memory that holds the text.
-/
import Blueth.Codec.NewLineFrames

set_option autoImplicit false

namespace Blueth.Codec

open Blueth.Scan Blueth.Simd

/-! ## Frames inside the range -/

/-- The first of the two terminator bytes, the one the loop searches for. -/
def TerminatorType.first : TerminatorType → UInt8
  | .carriageReturnNewLine => CR
  | .newLineNewLine => LF

/-- The view lies inside `[begin, end)` together with its terminator: the first terminator byte from its
start on does not stand before its end, and the byte behind that one is still in the range. -/
def Inside (m : Memory UInt8) (type : TerminatorType) (begin_ end_ : ℕ) (v : StringView) : Prop :=
  begin_ ≤ v.data ∧
    ∃ t, IsFirst m v.data end_ type.first t ∧ v.data + v.length.toNat ≤ t ∧ t + 2 ≤ end_

section Inside

variable {m : Memory UInt8} {type : TerminatorType} {a b e : ℕ} {s r x w : List UInt8}

/-- The view of a line: it must have at least one byte to lose, and the terminator must be complete. -/
theorem inside_iff (h : m.Holds a (x ++ type.first :: w)) (hx : type.first ∉ x) (hsize : x.length < 2 ^ 63)
    (hb : b ≤ a) :
    Inside m type b (a + (x ++ type.first :: w).length) ⟨a, UInt64.ofNat x.length - 1⟩
      ↔ x ≠ [] ∧ w ≠ [] := by
  have hlen : (UInt64.ofNat x.length - 1).toNat ≤ x.length ↔ x ≠ [] := by
    rw [← List.length_pos_iff]
    simp only [UInt64.toNat_sub, UInt64.toNat_ofNat', UInt64.reduceToNat]
    omega
  have hfirst := isFirst_of_append h hx
  have hend : a + x.length + 2 ≤ a + (x ++ type.first :: w).length ↔ w ≠ [] := by
    rw [← List.length_pos_iff]
    simp only [List.length_append, List.length_cons]
    omega
  constructor
  · rintro ⟨-, t, ht, hview, hin⟩
    obtain rfl := ht.unique hfirst
    exact ⟨hlen.mp (Nat.le_of_add_le_add_left hview), hend.mp hin⟩
  · rintro ⟨hne, hw⟩
    exact ⟨hb, _, hfirst, Nat.add_le_add_left (hlen.mpr hne) a, hend.mpr hw⟩

/-- Of CRLF frames: no line is empty. -/
theorem inside_lines_iff {ls : List (List UInt8)} (hcuts : Cuts (cutAt CR LF) s ls r)
    (hsize : s.length < 2 ^ 63) (h : m.Holds a s) (hb : b ≤ a) :
    (∀ v ∈ codeViews a ls, Inside m .carriageReturnNewLine b (a + s.length) v) ↔ ∀ l ∈ ls, l ≠ [] := by
  induction hcuts generalizing a with
  | stop _ => simp [codeViews]
  | @piece w v r f fs hp _ ih =>
      obtain ⟨rfl, hf⟩ := cutAt_eq_some_iff.mp hp
      simp only [List.length_append, List.length_cons] at hsize
      have hhere : Inside m .carriageReturnNewLine b (a + (f ++ CR :: LF :: v).length)
          ⟨a, UInt64.ofNat f.length - 1⟩ ↔ f ≠ [] ∧ LF :: v ≠ [] := inside_iff h hf (by omega) hb
      have hv := (Memory.holds_cons.mp (Memory.holds_cons.mp (Memory.holds_append.mp h).2).2).2
      have hstop : a + f.length + 2 + v.length = a + (f ++ CR :: LF :: v).length := by
        simp only [List.length_append, List.length_cons]
        omega
      have hthere := ih (by omega) hv (by omega : b ≤ a + f.length + 2)
      rw [hstop] at hthere
      rw [codeViews, List.forall_mem_cons, List.forall_mem_cons, hthere]
      apply and_congr_left
      intro _
      rw [hhere, and_iff_left (List.cons_ne_nil _ _)]

/-- Of the other loop's frames: no line is empty, and each newline has a byte of the text behind it. -/
theorem inside_newLines_iff {k r : Option UInt8 × List UInt8} {cs : List (List UInt8 × Option UInt8)}
    (hcuts : Cuts newLineCut k cs r) (hsize : k.2.length < 2 ^ 63) (h : Position m e a k) (hb : b ≤ a) :
    (∀ v ∈ codeViews a (cs.map Prod.fst), Inside m .newLineNewLine b e v)
      ↔ ∀ c ∈ cs, c.1 ≠ [] ∧ c.2 ≠ none := by
  induction hcuts generalizing a with
  | stop _ => simp [codeViews]
  | @piece k k' r c cs hcut _ ih =>
      obtain ⟨-, hnext, hsize'⟩ := h.frame hsize hcut
      have hthere := ih hsize' hnext (by omega)
      obtain ⟨p, s⟩ := k
      obtain ⟨x, q⟩ := c
      obtain ⟨v, rfl, hx, -, rfl, -⟩ := newLineCut_eq_some_iff.mp hcut
      obtain rfl : e = a + (x ++ LF :: v).length := by
        rcases h.stop with rfl | ⟨hnil, -⟩
        · rfl
        · simp at hnil
      simp only [List.length_append, List.length_cons] at hsize
      have hhere : Inside m .newLineNewLine b (a + (x ++ LF :: v).length)
          ⟨a, UInt64.ofNat x.length - 1⟩ ↔ x ≠ [] ∧ v ≠ [] := inside_iff h.holds hx (by omega) hb
      rw [List.map_cons, codeViews, List.forall_mem_cons, List.forall_mem_cons, hthere]
      apply and_congr_left
      intro _
      rw [hhere]
      show x ≠ [] ∧ v ≠ [] ↔ x ≠ [] ∧ v.head? ≠ none
      rw [Ne, Ne, Ne, List.head?_eq_none_iff]

end Inside

/-! ## Nothing but the range -/

/-- The frames of the call on the text `s` at `b` are a function of the range that holds it, and lie
inside it. -/
structure RangeOnly (type : TerminatorType) (b : ℕ) (s : List UInt8) : Prop where
  /-- Whatever surrounds the text, the frames are the same. -/
  sameFrames : ∀ m m' : Memory UInt8, m.Holds b s → m'.Holds b s →
    ∀ frames, Decodes m type b (b + s.length) frames ↔ Decodes m' type b (b + s.length) frames
  /-- Each of them lies in the range, with its terminator. -/
  inside : ∀ m : Memory UInt8, m.Holds b s → ∀ frames, Decodes m type b (b + s.length) frames →
    ∀ v ∈ frames, Inside m type b (b + s.length) v
  /-- The call reads nothing else: it comes back where nothing else may be read. -/
  readsNothingElse : ∃ frames, Decodes (Memory.only b s) type b (b + s.length) frames

/-- The texts that keep the decoder inside them. At CR LF: no complete line is empty, and the first
`'\r'` of what is left when they are cut off is not the last byte. At newlines: cut at each newline, the
byte behind it dropped, up to a newline behind a `'\r'`, no line is empty and each such byte exists. -/
def KeepsInside (type : TerminatorType) (s : List UInt8) : Prop :=
  match type with
  | .carriageReturnNewLine =>
    ∃ ls r, Cuts (cutAt CR LF) s ls r ∧ (∀ l ∈ ls, l ≠ []) ∧ ¬ ∃ x, r = x ++ [CR] ∧ CR ∉ x
  | .newLineNewLine =>
    ∃ cs r, Cuts newLineCut (none, s) cs r ∧ ∀ c ∈ cs, c.1 ≠ [] ∧ c.2 ≠ none

section RangeOnly

variable {type : TerminatorType} {b : ℕ} {s : List UInt8} {frames : List StringView}

/-- A call that gets by with the range gives its frames on every memory that holds the text. -/
theorem decodes_iff_of_only (h : Decodes (Memory.only b s) type b (b + s.length) frames)
    {m : Memory UInt8} (hm : m.Holds b s) (frames' : List StringView) :
    Decodes m type b (b + s.length) frames' ↔ frames' = frames := by
  have hall := h.extends hm.extends_only
  constructor
  · intro h'
    exact h'.unique hall
  · rintro rfl
    exact hall

/-- So of the three parts of `RangeOnly` two are left to see: that the call gets by with the range, and
where its frames are. -/
theorem rangeOnly_of_only (h : Decodes (Memory.only b s) type b (b + s.length) frames)
    (hin : ∀ m : Memory UInt8, m.Holds b s → ∀ v ∈ frames, Inside m type b (b + s.length) v) :
    RangeOnly type b s := by
  refine ⟨?_, ?_, frames, h⟩
  · intro m m' hm hm' frames'
    rw [decodes_iff_of_only h hm, decodes_iff_of_only h hm']
  · intro m hm frames' h'
    obtain rfl := (decodes_iff_of_only h hm frames').mp h'
    exact hin m hm

theorem rangeOnly_crlf_iff (hsize : s.length < 2 ^ 63) :
    RangeOnly .carriageReturnNewLine b s ↔ KeepsInside .carriageReturnNewLine s := by
  obtain ⟨ls, r, hcuts⟩ := exists_cuts_cutAt CR LF s
  have honly : (Memory.only b s).Holds b s := Memory.holds_only b s
  constructor
  · rintro ⟨-, hin, frames, hframes⟩
    have hlast : ¬ ∃ x, r = x ++ [CR] ∧ CR ∉ x := by
      rintro ⟨x, hr, hx⟩
      exact not_decodes_of_last hcuts hsize honly (Memory.only_end b s) hr hx frames hframes
    obtain rfl := hframes.unique (decodes_of_lines hcuts hsize honly fun h => absurd h hlast)
    refine ⟨ls, r, hcuts, ?_, hlast⟩
    exact (inside_lines_iff hcuts hsize honly (Nat.le_refl b)).mp (hin _ honly _ hframes)
  · rintro ⟨ls, r, hcuts, hne, hlast⟩
    apply rangeOnly_of_only (decodes_of_lines hcuts hsize honly fun h => absurd h hlast)
    intro m hm
    exact (inside_lines_iff hcuts hsize hm (Nat.le_refl b)).mpr hne

theorem rangeOnly_newLine_iff (hb : 0 < b) (hsize : s.length < 2 ^ 63) :
    RangeOnly .newLineNewLine b s ↔ KeepsInside .newLineNewLine s := by
  have honly : (Memory.only b s).Holds b s := Memory.holds_only b s
  -- where the text does not begin with a newline, the byte before it is never read
  have hposition : s.head? ≠ some LF → ∀ m : Memory UInt8, m.Holds b s →
      Position m (b + s.length) b (none, s) := by
    intro hne m hm
    exact ⟨hm, fun h => absurd h hne, .inl rfl⟩
  constructor
  · rintro ⟨-, hin, frames, hframes⟩
    obtain ⟨cs, r, hcuts⟩ := exists_newLineCuts (none, s)
    have hne : s.head? ≠ some LF := by
      intro hlf
      obtain ⟨w, rfl⟩ := List.head?_eq_some_iff.mp hlf
      exact not_decodes_of_before (Memory.only_before (by omega)) honly frames hframes
    have hpos := hposition hne _ honly
    obtain rfl := hframes.unique (decodes_of_newLineCuts hcuts hsize honly hpos.before)
    refine ⟨cs, r, hcuts, ?_⟩
    exact (inside_newLines_iff hcuts hsize hpos (Nat.le_refl b)).mp (hin _ honly _ hframes)
  · rintro ⟨cs, r, hcuts, hcs⟩
    have hne : s.head? ≠ some LF := by
      intro hlf
      obtain ⟨w, rfl⟩ := List.head?_eq_some_iff.mp hlf
      have hfirst : newLineCut (none, LF :: w) = some (([], w.head?), (w.head?, w.tail)) :=
        newLineCut_append none (x := []) (by simp) w
      cases hcuts with
      | stop hstop =>
          rw [hfirst] at hstop
          cases hstop
      | piece hcut _ =>
          rw [hfirst, Option.some.injEq, Prod.mk.injEq] at hcut
          obtain ⟨rfl, -⟩ := hcut
          exact (hcs _ List.mem_cons_self).1 rfl
    have hpos := hposition hne
    apply rangeOnly_of_only (decodes_of_newLineCuts hcuts hsize honly (hpos _ honly).before)
    intro m hm
    exact (inside_newLines_iff hcuts hsize (hpos m hm) (Nat.le_refl b)).mpr hcs

end RangeOnly

/-- **When the decoder depends on nothing but its range.** For either terminator and every text: exactly
where the text keeps it inside. The text does not stand at the null pointer. -/
theorem rangeOnly_iff (type : TerminatorType) (s : Text) {b : ℕ} (hb : 0 < b) :
    RangeOnly type b s.bytes ↔ KeepsInside type s.bytes := by
  cases type with
  | carriageReturnNewLine => exact rangeOnly_crlf_iff s.addressable
  | newLineNewLine => exact rangeOnly_newLine_iff hb s.addressable

theorem rangeOnly_iff_line :
    RangeOnly .carriageReturnNewLine 8 [0x61, CR, LF] ↔ KeepsInside .carriageReturnNewLine [0x61, CR, LF] :=
  rangeOnly_iff .carriageReturnNewLine ⟨[0x61, CR, LF], by decide⟩ (by decide)

/-- **The byte at `end` decides**: the text `a` CR gives no frame before a NUL and one before a newline. -/
theorem last_cr_reads_end :
    Decodes (Memory.only 8 [0x61, CR, 0]) .carriageReturnNewLine 8 10 [] ∧
      Decodes (Memory.only 8 [0x61, CR, LF]) .carriageReturnNewLine 8 10 [⟨8, 0⟩] ∧
      ¬ RangeOnly .carriageReturnNewLine 8 [0x61, CR] := by
  have hnul : (Memory.only 8 [0x61, CR, 0]).Holds 8 [0x61, CR] :=
    (Memory.holds_append.mp (Memory.holds_only 8 ([0x61, CR] ++ [0]))).1
  have hlf : (Memory.only 8 [0x61, CR, LF]).Holds 8 [0x61, CR] :=
    (Memory.holds_append.mp (Memory.holds_only 8 ([0x61, CR] ++ [LF]))).1
  have hno : Decodes (Memory.only 8 [0x61, CR, 0]) .carriageReturnNewLine 8 10 [] :=
    decodes_of_lines (.stop (by decide)) (by decide) hnul fun _ => ⟨0, by decide, by decide⟩
  have hone : Decodes (Memory.only 8 [0x61, CR, LF]) .carriageReturnNewLine 8 10 [⟨8, 0⟩] := by
    have hfirst : crRound (Memory.only 8 [0x61, CR, LF]) 8 10 = some (.frame ⟨8, 0⟩ 11) :=
      crRound_of_append (x := [0x61]) (w := []) hlf (by decide)
    have hsecond : crRound (Memory.only 8 [0x61, CR, LF]) 11 10 = some .finish := by
      rw [crRound, findChar_of_le (by decide), Option.bind_some, if_pos rfl]
    refine ⟨2, ?_⟩
    simp only [lineBasedFrameDecoder, round, hfirst, hsecond, List.nil_append]
  refine ⟨hno, hone, ?_⟩
  intro h
  have hsame := (h.sameFrames _ _ hnul hlf []).mp hno
  exact absurd (hsame.unique hone) (by decide)

end Blueth.Codec
