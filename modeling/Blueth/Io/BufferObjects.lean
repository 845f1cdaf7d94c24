/-
# Blueth.Io.BufferObjects — operations on two buffers: appending one to another, moving one into another
(`io/IOBuffer.hpp`).

The buffers of a program are a family of objects, each owning its own block, so that the two arguments
of an operation may be the SAME object. Both operations here go wrong, and this module says exactly when.

`appendRawBytes(const IOBuffer&)` is the sibling of `appendRawBytes(data, size)`; out of room it reserves
the SOURCE's capacity, where the sibling reserves its own capacity plus the size. That is enough only if
the source's allocation happens to be large enough for what the target already holds; otherwise the
target is left at a size at which the copy never fits (the recursion does not end) or lies outside the
block.

The move operations swap the pointer and the two offsets but not `capacity_`, move assignment only into a
target without a block; `operator=` also has no `return` statement.
-/
import Blueth.Io.ByteQueue
import Mathlib.Logic.Function.Basic

set_option autoImplicit false

namespace Blueth.Io

open Blueth.Transition (System)

/-- The same outcome, seen from a larger state. -/
def Call.map {σ τ : Type*} (f : σ → τ) : Call σ → Call τ
  | .returned s => .returned (f s)
  | .badAlloc s => .badAlloc (f s)
  | .fault => .fault
  | .calling => .calling

theorem Call.leaves_map {σ τ : Type*} {c : Call σ} {f : σ → τ} {t : τ} (h : (c.map f).Leaves t) :
    ∃ s, c.Leaves s ∧ t = f s := by
  cases c with
  | returned s => exact ⟨s, Call.leaves_returned.mpr rfl, (Call.leaves_returned.mp h).symm⟩
  | badAlloc s => exact ⟨s, Call.leaves_badAlloc.mpr rfl, (Call.leaves_badAlloc.mp h).symm⟩
  | fault => exact absurd h Call.not_leaves_fault
  | calling => exact absurd h Call.not_leaves_calling

variable {ι : Type*} [DecidableEq ι]

namespace RawIOBuffer

/-- The `getDataSize()` bytes at `getStartOffsetPointer()`, unless they are not all in the block. -/
def readData (b : RawIOBuffer) : Option (List UInt8) :=
  if b.startOffset.toNat + b.getDataSize.toNat ≤ b.block.length then
    some ((b.block.drop b.startOffset.toNat).take b.getDataSize.toNat)
  else none

theorem length_of_readData {b : RawIOBuffer} {bytes : List UInt8} (h : b.readData = some bytes) :
    bytes.length = b.getDataSize.toNat := by
  rw [readData] at h
  split at h
  · rename_i hin
    cases h
    rw [List.length_take, List.length_drop]
    omega
  · cases h

/-- On a well-formed buffer they are its data window. -/
theorem readData_eq {b : RawIOBuffer} (h : b.WellFormed) : b.readData = some b.data := by
  have h1 := startOffset_le h
  have h2 := endOffset_le h
  have h3 := length_block h
  have hsize := toNat_getDataSize h
  rw [readData, if_pos (by omega), data_eq, List.drop_take, hsize]

/-- The bytes from `getStartOffsetPointer()` up to `getEndOffsetPointer()`, unless the two pointers do not
delimit bytes of the block. -/
def pointedData (b : RawIOBuffer) : Option (List UInt8) :=
  if b.startOffset ≤ b.endOffset ∧ b.endOffset.toNat ≤ b.block.length then some b.data else none

theorem pointedData_eq {b : RawIOBuffer} (h : b.WellFormed) : b.pointedData = some b.data := by
  have h2 := endOffset_le h
  have h3 := length_block h
  exact if_pos ⟨UInt64.le_iff_toNat_le.mpr (startOffset_le h), by omega⟩

theorem data_of_pointedData {b : RawIOBuffer} {w : List UInt8} (h : b.pointedData = some w) :
    b.data = w := by
  rw [pointedData] at h
  split_ifs at h
  exact Option.some.inj h

end RawIOBuffer

open RawIOBuffer

/-! ## Appending one buffer to another -/

/-- `objs(dst).appendRawBytes(objs(src))`, at most `depth` calls deep. -/
def appendBuffer : ℕ → (ℕ → Grant) → (ι → RawIOBuffer) → ι → ι → Call (ι → RawIOBuffer)
  | 0, _, _, _, _ => .calling
  | depth + 1, grants, objs, dst, src =>
    if (objs src).getDataSize ≤ (objs dst).getAvailableSpace then
      match (objs src).readData with
      | none => .fault
      | some bytes => ((objs dst).copyToEnd bytes).map (Function.update objs dst)
    else
      ((reserve (grants 0) (objs dst) (objs src).capacity).map (Function.update objs dst)).andThen
        fun objs' => appendBuffer depth (fun i => grants (i + 1)) objs' dst src

/-- What appending `src` to `dst` is to do: it comes back without a write outside a block, the window of
`dst` has the window of `src` added to it, `dst` is well formed, and every other buffer is as it was. -/
def Appends (grants : ℕ → Grant) (objs : ι → RawIOBuffer) (dst src : ι) : Prop :=
  ∃ depth objs', appendBuffer depth grants objs dst src = .returned objs' ∧
    (objs' dst).data = (objs dst).data ++ (objs src).data ∧ (objs' dst).WellFormed ∧
    ∀ i, i ≠ dst → objs' i = objs i

/-- There is room behind `dst`'s data, or the SOURCE's capacity would give it room. -/
def HasRoom (objs : ι → RawIOBuffer) (dst src : ι) : Prop :=
  (objs src).getDataSize ≤ (objs dst).getAvailableSpace ∨
    (dst ≠ src ∧
      (objs dst).endOffset.toNat + (objs src).getDataSize.toNat ≤ (objs src).capacity.toNat)

instance (objs : ι → RawIOBuffer) (dst src : ι) : Decidable (HasRoom objs dst src) :=
  inferInstanceAs (Decidable (_ ∨ _))

/-- The dead end of the slow path: `dst` has the source's capacity, and the data do not fit behind
`end_offset_` in a block of that size. -/
structure DeadEnd (objs : ι → RawIOBuffer) (dst src : ι) : Prop where
  capacity_eq : (objs dst).capacity = (objs src).capacity
  capacity_ne : (objs src).capacity ≠ 0
  block_length : (objs dst).block.length = (objs dst).capacity.toNat
  too_long : (objs dst).capacity.toNat < (objs dst).endOffset.toNat + (objs src).getDataSize.toNat

section AppendBuffer

variable {objs : ι → RawIOBuffer} {dst src : ι} {grants : ℕ → Grant}

/-- The fast path, from any two well-formed buffers. -/
theorem appends_of_fits (grants : ℕ → Grant) (hdst : (objs dst).WellFormed)
    (hsrc : (objs src).WellFormed)
    (hfit : (objs src).getDataSize ≤ (objs dst).getAvailableSpace) (depth : ℕ) :
    ∃ b', appendBuffer (depth + 1) grants objs dst src = .returned (Function.update objs dst b') ∧
      b'.data = (objs dst).data ++ (objs src).data ∧ b'.WellFormed := by
  have hlen := length_data hsrc
  have h1 := endOffset_le hdst
  have hle := UInt64.le_iff_toNat_le.mp hfit
  rw [toNat_getAvailableSpace hdst] at hle
  obtain ⟨b', hb', hwf', hdata, -, -⟩ := copyToEnd_spec (objs src).data hdst (by omega)
  refine ⟨b', ?_, hdata, hwf'⟩
  rw [appendBuffer, if_pos hfit, readData_eq hsrc]
  show ((objs dst).copyToEnd (objs src).data).map _ = _
  rw [hb']
  rfl

/-- The slow path: what `reserve` leaves. -/
theorem appendBuffer_full (hfull : ¬ (objs src).getDataSize ≤ (objs dst).getAvailableSpace)
    (hne : (objs src).capacity ≠ 0) {junk : ℕ → UInt8} (hg : grants 0 = some junk) (depth : ℕ) :
    appendBuffer (depth + 1) grants objs dst src
      = appendBuffer depth (fun i => grants (i + 1))
          (Function.update objs dst ((objs dst).grown (objs src).capacity junk)) dst src := by
  rw [appendBuffer, if_neg hfull, hg, reserve_granted hne]
  rfl

/-- Reserving the source's capacity leads into the dead end when that capacity is too small. -/
theorem deadEnd_grown (hne : (objs src).capacity ≠ 0)
    (hlong : (objs src).capacity.toNat < (objs dst).endOffset.toNat + (objs src).getDataSize.toNat)
    (junk : ℕ → UInt8) :
    DeadEnd (Function.update objs dst ((objs dst).grown (objs src).capacity junk)) dst src := by
  have hlen := length_reallocated (objs dst).block (objs src).capacity.toNat junk
  by_cases heq : src = dst
  · subst heq
    constructor <;> rw [Function.update_self]
    · exact hne
    · exact hlen
    · exact hlong
  · constructor
    · rw [Function.update_self, Function.update_of_ne heq]
      rfl
    · rw [Function.update_of_ne heq]
      exact hne
    · rw [Function.update_self]
      exact hlen
    · rw [Function.update_self, Function.update_of_ne heq]
      exact hlong

/-- **No way out of the dead end**: the recursion goes on for ever, or the copy falls outside the
block (where `capacity_ - end_offset_` wraps, the test lets it through). -/
theorem DeadEnd.never_returns (h : DeadEnd objs dst src) (hg : ∀ i, grants i ≠ none) (depth : ℕ) :
    appendBuffer depth grants objs dst src = .calling ∨
      appendBuffer depth grants objs dst src = .fault := by
  induction depth generalizing objs grants with
  | zero => exact .inl rfl
  | succ depth ih =>
      by_cases hfit : (objs src).getDataSize ≤ (objs dst).getAvailableSpace
      · right
        rw [appendBuffer, if_pos hfit]
        cases hread : (objs src).readData with
        | none => rfl
        | some bytes =>
            have hlen := length_of_readData hread
            have hlong := h.too_long
            have hblock := h.block_length
            show ((objs dst).copyToEnd bytes).map _ = _
            rw [copyToEnd_fault (by omega)]
            rfl
      · obtain ⟨junk, hjunk⟩ := Option.ne_none_iff_exists'.mp (hg 0)
        have hlong := h.too_long
        rw [h.capacity_eq] at hlong
        rw [appendBuffer_full hfit h.capacity_ne hjunk]
        exact ih (deadEnd_grown h.capacity_ne hlong junk) fun i => hg (i + 1)

omit [DecidableEq ι] in
/-- What it means that the test fails: the data do not fit, so there are some. -/
theorem full_of_not_fit (hdst : (objs dst).WellFormed) (hsrc : (objs src).WellFormed)
    (hfull : ¬ (objs src).getDataSize ≤ (objs dst).getAvailableSpace) :
    (objs dst).capacity.toNat < (objs dst).endOffset.toNat + (objs src).getDataSize.toNat ∧
      (objs src).capacity ≠ 0 := by
  have hd := endOffset_le hdst
  have hs := endOffset_le hsrc
  have hsize := toNat_getDataSize hsrc
  rw [UInt64.le_iff_toNat_le, toNat_getAvailableSpace hdst] at hfull
  exact ⟨by omega, ne_zero_of_toNat_pos (by omega)⟩

/-- Without room the call never returns. -/
theorem not_hasRoom_stuck (grants : ℕ → Grant) (hdst : (objs dst).WellFormed)
    (hsrc : (objs src).WellFormed)
    (hroom : ¬ HasRoom objs dst src) (hg : ∀ i, grants i ≠ none) (depth : ℕ) :
    appendBuffer depth grants objs dst src = .calling ∨
      appendBuffer depth grants objs dst src = .fault := by
  have hfull : ¬ (objs src).getDataSize ≤ (objs dst).getAvailableSpace := fun h => hroom (.inl h)
  obtain ⟨hgt, hne⟩ := full_of_not_fit hdst hsrc hfull
  have hlong : (objs src).capacity.toNat
      < (objs dst).endOffset.toNat + (objs src).getDataSize.toNat := by
    by_cases heq : dst = src
    · subst heq
      omega
    · by_contra hle
      exact hroom (.inr ⟨heq, by omega⟩)
  cases depth with
  | zero => exact .inl rfl
  | succ depth =>
      obtain ⟨junk, hjunk⟩ := Option.ne_none_iff_exists'.mp (hg 0)
      rw [appendBuffer_full hfull hne hjunk]
      exact (deadEnd_grown hne hlong junk).never_returns (fun i => hg (i + 1)) depth

/-- With room the data are appended, after at most one recursive call. -/
theorem appends_of_hasRoom (hdst : (objs dst).WellFormed) (hsrc : (objs src).WellFormed)
    (hg : ∀ i, grants i ≠ none) (hroom : HasRoom objs dst src) : Appends grants objs dst src := by
  have hframe : ∀ b' i, i ≠ dst → Function.update objs dst b' i = objs i :=
    fun b' i hi => Function.update_of_ne hi b' objs
  by_cases hfit : (objs src).getDataSize ≤ (objs dst).getAvailableSpace
  · obtain ⟨b', hb', hdata, hwf⟩ := appends_of_fits grants hdst hsrc hfit 0
    refine ⟨1, _, hb', ?_, ?_, hframe b'⟩
    · rw [Function.update_self, hdata]
    · rw [Function.update_self]
      exact hwf
  · obtain ⟨hne, hle⟩ := hroom.resolve_left hfit
    obtain ⟨-, hcap⟩ := full_of_not_fit hdst hsrc hfit
    obtain ⟨junk, hjunk⟩ := Option.ne_none_iff_exists'.mp (hg 0)
    have hend : (objs dst).endOffset ≤ (objs src).capacity := by
      rw [UInt64.le_iff_toNat_le]
      omega
    -- after the one reallocation the test passes, for the source's capacity is now the target's
    let grown' := (objs dst).grown (objs src).capacity junk
    have hwf' : grown'.WellFormed := wellFormed_grown hdst hend junk
    have hself : Function.update objs dst grown' dst = grown' := Function.update_self ..
    have hother : Function.update objs dst grown' src = objs src :=
      Function.update_of_ne (Ne.symm hne) ..
    have hfit' : (Function.update objs dst grown' src).getDataSize
        ≤ (Function.update objs dst grown' dst).getAvailableSpace := by
      rw [hself, hother, UInt64.le_iff_toNat_le, toNat_getAvailableSpace hwf']
      show _ ≤ (objs src).capacity.toNat - (objs dst).endOffset.toNat
      omega
    obtain ⟨b', hb', hdata, hwf⟩ := appends_of_fits (fun i => grants (i + 1))
      (by rw [hself]; exact hwf') (by rw [hother]; exact hsrc) hfit' 0
    rw [Function.update_idem] at hb'
    refine ⟨2, _, (appendBuffer_full hfit hcap hjunk 1).trans hb', ?_, ?_, hframe b'⟩
    · rw [Function.update_self, hdata, hself, hother]
      exact congrArg (· ++ (objs src).data) (data_grown hdst hend junk)
    · rw [Function.update_self]
      exact hwf

/-- **When appending a buffer to a buffer works**: exactly when it has room. -/
theorem appendBuffer_appends_iff (hdst : (objs dst).WellFormed) (hsrc : (objs src).WellFormed)
    (hg : ∀ i, grants i ≠ none) : Appends grants objs dst src ↔ HasRoom objs dst src := by
  constructor
  · intro h
    obtain ⟨depth, objs', hret, -⟩ := h
    by_contra hroom
    rcases not_hasRoom_stuck grants hdst hsrc hroom hg depth with hc | hc <;> rw [hc] at hret <;> cases hret
  · exact appends_of_hasRoom hdst hsrc hg

/-! ### An append that is back has kept every invariant and every start offset -/

/-- The target and the rest. -/
def Kept (objs objs' : ι → RawIOBuffer) : Prop :=
  ∀ i, (objs' i).WellFormed ∧ (objs' i).startOffset = (objs i).startOffset

omit [DecidableEq ι] in
theorem Kept.trans {objs' objs'' : ι → RawIOBuffer} (h : Kept objs objs') (h' : Kept objs' objs'') :
    Kept objs objs'' := fun i => ⟨(h' i).1, (h' i).2.trans (h i).2⟩

theorem kept_update (h : ∀ i, (objs i).WellFormed) {b : RawIOBuffer} (hwf : b.WellFormed)
    (hstart : b.startOffset = (objs dst).startOffset) : Kept objs (Function.update objs dst b) := by
  refine (Function.forall_update_iff objs
    fun i b => b.WellFormed ∧ b.startOffset = (objs i).startOffset).mpr ⟨⟨hwf, hstart⟩, ?_⟩
  exact fun i _ => ⟨h i, rfl⟩

/-- The copy of the fast path falls outside the block when the target holds more than the block. -/
theorem not_appendBuffer_leaves_of_outside {objs' : ι → RawIOBuffer}
    (hout : (objs dst).block.length < (objs dst).endOffset.toNat)
    (hfit : (objs src).getDataSize ≤ (objs dst).getAvailableSpace) (depth : ℕ) :
    ¬ (appendBuffer depth grants objs dst src).Leaves objs' := by
  cases depth with
  | zero => exact Call.not_leaves_calling
  | succ depth =>
      rw [appendBuffer, if_pos hfit]
      cases (objs src).readData with
      | none => exact Call.not_leaves_fault
      | some bytes =>
          show ¬ (((objs dst).copyToEnd bytes).map (Function.update objs dst)).Leaves objs'
          rw [copyToEnd_fault (by omega)]
          exact Call.not_leaves_fault

/-- **An append of a buffer that is back**, whether or not there was room: no buffer has lost its
invariant or moved its start offset. -/
theorem appendBuffer_keeps {objs' : ι → RawIOBuffer} {depth : ℕ} (h : ∀ i, (objs i).WellFormed)
    (hback : (appendBuffer depth grants objs dst src).Leaves objs') : Kept objs objs' := by
  induction depth generalizing objs grants with
  | zero => exact absurd hback Call.not_leaves_calling
  | succ depth ih =>
      by_cases hfit : (objs src).getDataSize ≤ (objs dst).getAvailableSpace
      · rw [appendBuffer, if_pos hfit, readData_eq (h src)] at hback
        obtain ⟨b', hcopied, rfl⟩ := Call.leaves_map hback
        obtain ⟨hwf, hstart⟩ := copyToEnd_keeps (h dst) hcopied
        exact kept_update h hwf hstart
      · rw [appendBuffer, if_neg hfit] at hback
        obtain ⟨-, hne⟩ := full_of_not_fit (h dst) (h src) hfit
        have hd := endOffset_le (h dst)
        have hs := endOffset_le (h src)
        have hsize := toNat_getDataSize (h src)
        cases hgrant : grants 0 with
        | none =>
            rw [hgrant, reserve_refused hne] at hback
            obtain rfl := Call.leaves_badAlloc.mp hback
            exact kept_update h (h dst) rfl
        | some junk =>
            rw [hgrant, reserve_granted hne] at hback
            replace hback : (appendBuffer depth (fun i => grants (i + 1)) (Function.update objs dst
              ((objs dst).grown (objs src).capacity junk)) dst src).Leaves objs' := hback
            by_cases hend : (objs dst).endOffset ≤ (objs src).capacity
            · have hkept := kept_update h (wellFormed_grown (h dst) hend junk) rfl
              exact hkept.trans (ih (fun i => (hkept i).1) hback)
            · -- the target has been cut down below what it holds
              rw [UInt64.le_iff_toNat_le, Nat.not_le] at hend
              have hother : src ≠ dst := by
                rintro rfl
                omega
              refine absurd hback (not_appendBuffer_leaves_of_outside ?_ ?_ depth)
              · rw [Function.update_self]
                exact Nat.lt_of_le_of_lt (Nat.le_of_eq (length_reallocated ..)) hend
              · rw [Function.update_self, Function.update_of_ne hother, UInt64.le_iff_toNat_le]
                show _ ≤ ((objs src).capacity - (objs dst).endOffset).toNat
                rw [UInt64.toNat_sub]
                have hlt := (objs dst).endOffset.toNat_lt
                omega

end AppendBuffer

/-- Two buffers, `false` the one operated on and `true` the other. -/
def pair (a b : RawIOBuffer) : Bool → RawIOBuffer
  | false => a
  | true => b

/-- 2 bytes from a buffer of 8 to a full one of 2: the source's capacity gives them room. -/
theorem appendBuffer_appends_small_to_large :
    Appends (fun _ => some fun _ => 0)
      (pair ⟨some [72, 105], 0, 2, 2⟩ ⟨some [32, 87, 0, 0, 0, 0, 0, 0], 0, 2, 8⟩) false true :=
  (appendBuffer_appends_iff (by decide) (by decide) (fun _ h => by cases h)).mpr (by decide)

/-- **A full buffer of 2 bytes appended to a full buffer of 2 bytes** is not appended: the call reserves
2 bytes, which is what it had, and calls itself again. -/
theorem appendBuffer_full_to_full :
    (pair ⟨some [72, 105], 0, 2, 2⟩ ⟨some [32, 87], 0, 2, 2⟩ false).WellFormed ∧
      (pair ⟨some [72, 105], 0, 2, 2⟩ ⟨some [32, 87], 0, 2, 2⟩ true).WellFormed ∧
      ¬ Appends (fun _ => some fun _ => 0)
        (pair ⟨some [72, 105], 0, 2, 2⟩ ⟨some [32, 87], 0, 2, 2⟩) false true := by
  have hdst : (pair ⟨some [72, 105], 0, 2, 2⟩ ⟨some [32, 87], 0, 2, 2⟩ false).WellFormed := by decide
  have hsrc : (pair ⟨some [72, 105], 0, 2, 2⟩ ⟨some [32, 87], 0, 2, 2⟩ true).WellFormed := by decide
  refine ⟨hdst, hsrc, ?_⟩
  intro h
  obtain ⟨depth, objs', hret, -⟩ := h
  have hroom : ¬ HasRoom (pair ⟨some [72, 105], 0, 2, 2⟩ ⟨some [32, 87], 0, 2, 2⟩) false true := by
    decide
  rcases not_hasRoom_stuck (fun _ => some fun _ => 0) hdst hsrc hroom
    (fun _ h => by cases h) depth with hc | hc <;> rw [hc] at hret <;> cases hret

/-! ## Moving one buffer into another -/

/-- The three members both move operations swap; `capacity_` is not one of them. -/
def swapped (a b : RawIOBuffer) : RawIOBuffer :=
  { a with
    internalBuffer := b.internalBuffer
    startOffset := b.startOffset
    endOffset := b.endOffset }

/-- `IOBuffer(IOBuffer &&)`: the target's members have their defaults before the body runs. -/
def moveConstruct (objs : ι → RawIOBuffer) (target source : ι) : ι → RawIOBuffer :=
  Function.update (Function.update objs target (swapped fresh (objs source))) source
    (swapped (objs source) fresh)

/-- `operator=(IOBuffer &&)`. It flows off its end without a `return`, which is undefined behaviour;
`comesBack` says whether the call comes back to its caller all the same. -/
def moveAssign (comesBack : Bool) (objs : ι → RawIOBuffer) (target source : ι) :
    Call (ι → RawIOBuffer) :=
  if comesBack then
    if (objs target).internalBuffer = none then
      .returned (Function.update (Function.update objs target (swapped (objs target) (objs source)))
        source (swapped (objs source) (objs target)))
    else .returned objs
  else .fault

/-- The two move operations. -/
inductive Move where
  | construct
  | assign (comesBack : Bool)

/-- Moving `objs(source)` into `objs(target)`. -/
def Move.perform (m : Move) (objs : ι → RawIOBuffer) (target source : ι) : Call (ι → RawIOBuffer) :=
  match m with
  | .construct => .returned (moveConstruct objs target source)
  | .assign comesBack => moveAssign comesBack objs target source

/-- Appends only, each permitted, the allocator answering as it likes. -/
def appends : System RawIOBuffer (List UInt8) where
  init b := b.WellFormed
  next b data b' := b.Permits (.appendRawBytes data) ∧ ∃ depth grants,
    appendRawBytes depth grants b data = .returned b' ∨
      appendRawBytes depth grants b data = .badAlloc b'

/-- However many appends have been made, the next one writes inside the object's own block. -/
def AppendsInside (b : RawIOBuffer) : Prop :=
  ∀ written b', appends.Run b written b' → ∀ data, b'.Permits (.appendRawBytes data) →
    ∀ depth grants, appendRawBytes depth grants b' data ≠ .fault

/-- What a move is to do. -/
structure Moved (objs objs' : ι → RawIOBuffer) (target source : ι) : Prop where
  target_data : (objs' target).data = (objs source).data
  target_wellFormed : (objs' target).WellFormed
  source_wellFormed : (objs' source).WellFormed
  source_data : (objs' source).data = []
  target_inside : AppendsInside (objs' target)
  source_inside : AppendsInside (objs' source)

/-- When each of them does it: the capacity that is left behind has to be 0 already, or there is nothing
to move into a target that keeps its block. -/
def Move.Works (m : Move) (target source : RawIOBuffer) : Prop :=
  match m with
  | .construct => source.capacity = 0
  | .assign comesBack =>
    comesBack = true ∧ target.WellFormed ∧
      if target.internalBuffer = none then source.capacity = 0
      else target.data = [] ∧ source.data = []

section Moves

variable {objs : ι → RawIOBuffer} {target source : ι}

/-- A well-formed buffer stays well formed under appends, so they all stay inside its block. -/
theorem appendsInside_of_wellFormed {b : RawIOBuffer} (h : b.WellFormed) : AppendsInside b := by
  intro written b' hrun data hp depth grants hfault
  have hwf : b'.WellFormed := by
    apply hrun.preserves (I := RawIOBuffer.WellFormed) _ h
    intro b data b' hb hn
    obtain ⟨hp, depth, grants, hback⟩ := hn
    exact (appendRawBytes_keeps hb hp.1 hback).1
  rcases append_cases hwf hp depth grants with hc | hc | ⟨b'', hc, -, -⟩ <;> rw [hc] at hfault <;>
    cases hfault

omit [DecidableEq ι] in
/-- The four facts about windows and invariants are all there is to check of a move. -/
theorem moved_iff {objs' : ι → RawIOBuffer} :
    Moved objs objs' target source ↔
      (objs' target).data = (objs source).data ∧ (objs' target).WellFormed ∧
        (objs' source).WellFormed ∧ (objs' source).data = [] := by
  constructor
  · intro h
    exact ⟨h.target_data, h.target_wellFormed, h.source_wellFormed, h.source_data⟩
  · intro h
    obtain ⟨hdata, htarget, hsource, hempty⟩ := h
    exact ⟨hdata, htarget, hsource, hempty, appendsInside_of_wellFormed htarget,
      appendsInside_of_wellFormed hsource⟩

section Swap

variable {a b : RawIOBuffer}

theorem data_eq_nil_of_null (h : a.internalBuffer = none) : a.data = [] := by
  rw [data_eq, block, h]
  simp

theorem wellFormed_null_iff (h : a.internalBuffer = none) :
    a.WellFormed ↔ a.startOffset.toNat = 0 ∧ a.endOffset.toNat = 0 ∧ a.capacity.toNat = 0 := by
  have hlen : a.block.length = 0 := by rw [block, h]; rfl
  constructor
  · intro hwf
    have h1 := startOffset_le hwf
    have h2 := endOffset_le hwf
    have h3 := length_block hwf
    omega
  · intro h0
    obtain ⟨h1, h2, h3⟩ := h0
    constructor
    · show a.startOffset.toNat ≤ a.endOffset.toNat
      omega
    · show a.endOffset.toNat ≤ a.capacity.toNat
      omega
    · show a.capacity.toNat = a.block.length
      omega

/-- The receiving side of the swap is well formed only if it had the giving side's capacity. -/
theorem wellFormed_swapped_iff (hb : b.WellFormed) :
    (swapped a b).WellFormed ↔ a.capacity.toNat = b.capacity.toNat := by
  have h1 := startOffset_le hb
  have h2 := endOffset_le hb
  have h3 := length_block hb
  constructor
  · intro h
    have h4 : b.block.length = a.capacity.toNat := length_block h
    omega
  · intro h
    constructor
    · exact h1
    · show b.endOffset.toNat ≤ a.capacity.toNat
      omega
    · show a.capacity.toNat = b.block.length
      omega

/-- The giving side receives a null pointer and the other's offsets. -/
theorem wellFormed_swapped_null_iff (hb : b.internalBuffer = none) :
    (swapped a b).WellFormed ↔
      b.startOffset.toNat = 0 ∧ b.endOffset.toNat = 0 ∧ a.capacity.toNat = 0 :=
  wellFormed_null_iff (a := swapped a b) hb

end Swap

theorem moveConstruct_works_iff (hs : (objs source).WellFormed) (hne : target ≠ source) :
    Moved objs (moveConstruct objs target source) target source ↔ (objs source).capacity = 0 := by
  have htarget : moveConstruct objs target source target = swapped fresh (objs source) := by
    rw [moveConstruct, Function.update_of_ne hne, Function.update_self]
  have hsource : moveConstruct objs target source source = swapped (objs source) fresh :=
    Function.update_self ..
  have hnull : (swapped (objs source) fresh).internalBuffer = none := rfl
  rw [moved_iff, htarget, hsource, wellFormed_swapped_iff hs, wellFormed_swapped_null_iff rfl,
    eq_zero_iff_toNat]
  constructor
  · intro h
    exact h.2.2.1.2.2
  · intro h
    exact ⟨rfl, h.symm, ⟨rfl, rfl, h⟩, data_eq_nil_of_null hnull⟩

/-- Move assignment into a target without a block. -/
theorem moveAssign_null_works_iff (hs : (objs source).WellFormed)
    (hnull : (objs target).internalBuffer = none) :
    Moved objs (Function.update (Function.update objs target (swapped (objs target) (objs source)))
        source (swapped (objs source) (objs target))) target source ↔
      (objs target).WellFormed ∧ (objs source).capacity = 0 := by
  by_cases hne : target = source
  · subst hne
    -- moving a buffer without a block into itself: nothing changes, there is nothing to move
    have hself : Function.update (Function.update objs target (swapped (objs target) (objs target)))
        target (swapped (objs target) (objs target)) = objs := by
      rw [Function.update_idem]
      exact Function.update_eq_self target objs
    have hcap := ((wellFormed_null_iff hnull).mp hs).2.2
    rw [hself, moved_iff, eq_zero_iff_toNat]
    constructor
    · intro h
      exact ⟨h.2.1, hcap⟩
    · intro h
      exact ⟨rfl, hs, hs, data_eq_nil_of_null hnull⟩
  · have hdata : (swapped (objs source) (objs target)).data = [] := data_eq_nil_of_null hnull
    rw [moved_iff, Function.update_of_ne hne, Function.update_self, Function.update_self,
      wellFormed_swapped_iff hs, wellFormed_swapped_null_iff hnull, wellFormed_null_iff hnull,
      eq_zero_iff_toNat]
    constructor
    · intro h
      obtain ⟨-, hcap, ⟨hstart, hend, hzero⟩, -⟩ := h
      exact ⟨⟨hstart, hend, by omega⟩, hzero⟩
    · intro h
      obtain ⟨⟨hstart, hend, hzero⟩, hcap⟩ := h
      exact ⟨rfl, by omega, ⟨hstart, hend, hcap⟩, hdata⟩

omit [DecidableEq ι] in
/-- Move assignment into a target that holds a block does nothing. -/
theorem moveAssign_holding_works_iff (hs : (objs source).WellFormed) :
    Moved objs objs target source ↔
      (objs target).WellFormed ∧ (objs target).data = [] ∧ (objs source).data = [] := by
  rw [moved_iff]
  constructor
  · intro h
    obtain ⟨hdata, hwf, -, hempty⟩ := h
    exact ⟨hwf, by rw [hdata, hempty], hempty⟩
  · intro h
    obtain ⟨hwf, hdata, hempty⟩ := h
    exact ⟨by rw [hdata, hempty], hwf, hs, hempty⟩

/-- **When a move keeps both buffers usable**: move construction only from a buffer of capacity 0;
move assignment only if flowing off its end does no harm, and then into a target without a block only
from a buffer of capacity 0, into a target that holds one only if both windows are empty. -/
theorem move_works_iff (m : Move) (hs : (objs source).WellFormed)
    (hne : m = .construct → target ≠ source) :
    (∃ objs', m.perform objs target source = .returned objs' ∧ Moved objs objs' target source) ↔
      m.Works (objs target) (objs source) := by
  have hret : ∀ {objs₁ : ι → RawIOBuffer}, m.perform objs target source = .returned objs₁ →
      ((∃ objs', m.perform objs target source = .returned objs' ∧ Moved objs objs' target source) ↔
        Moved objs objs₁ target source) := by
    intro objs₁ heq
    constructor
    · intro h
      obtain ⟨objs', heq', hmoved⟩ := h
      rw [heq] at heq'
      cases heq'
      exact hmoved
    · intro h
      exact ⟨objs₁, heq, h⟩
  cases m with
  | construct => exact (hret rfl).trans (moveConstruct_works_iff hs (hne rfl))
  | assign comesBack =>
      cases comesBack with
      | false =>
          constructor
          · intro h
            obtain ⟨objs', heq, -⟩ := h
            cases heq
          · intro h
            cases h.1
      | true =>
          by_cases hnull : (objs target).internalBuffer = none
          · rw [hret (by rw [Move.perform, moveAssign, if_pos rfl, if_pos hnull]),
              moveAssign_null_works_iff hs hnull, Move.Works, if_pos hnull]
            simp
          · rw [hret (by rw [Move.perform, moveAssign, if_pos rfl, if_neg hnull]),
              moveAssign_holding_works_iff hs, Move.Works, if_neg hnull]
            simp

end Moves

/-- Moving out of a buffer that never had any capacity. -/
theorem move_works_of_empty :
    ∃ objs', Move.construct.perform (pair fresh ⟨some [], 0, 0, 0⟩) false true = .returned objs' ∧
      Moved (pair fresh ⟨some [], 0, 0, 0⟩) objs' false true := by
  have hsource : (pair fresh ⟨some [], 0, 0, 0⟩ true).WellFormed := by decide
  have hne : Move.construct = .construct → false ≠ true := fun _ => Bool.false_ne_true
  exact (move_works_iff .construct hsource hne).mpr rfl

/-- **Moving a full buffer of 2 bytes.** The new object has the block and both offsets, and capacity 0:
its free space is `0 - 2`, so the next byte is written behind the block. Assigned to a buffer that holds
a block, the same buffer is not moved at all. -/
theorem move_loses_capacity :
    let source : RawIOBuffer := ⟨some [72, 105], 0, 2, 2⟩
    source.WellFormed ∧
      (¬ ∃ objs', Move.construct.perform (pair fresh source) false true = .returned objs' ∧
        Moved (pair fresh source) objs' false true) ∧
      appendRawBytes 1 (fun _ => none) (moveConstruct (pair fresh source) false true false) [33]
        = .fault ∧
      ¬ ∃ objs', (Move.assign true).perform (pair ⟨some [0], 0, 0, 1⟩ source) false true
          = .returned objs' ∧
        Moved (pair ⟨some [0], 0, 0, 1⟩ source) objs' false true := by
  intro source
  have hs : source.WellFormed := by decide
  refine ⟨hs, ?_, by decide, ?_⟩
  · intro h
    obtain ⟨objs', heq, hmoved⟩ := h
    cases heq
    have hsource : (pair fresh source true).WellFormed := hs
    have hcap := (moveConstruct_works_iff hsource Bool.false_ne_true).mp hmoved
    exact absurd hcap (by decide)
  · intro h
    obtain ⟨objs', heq, hmoved⟩ := h
    cases heq
    exact absurd hmoved.source_data (by decide)

end Blueth.Io
