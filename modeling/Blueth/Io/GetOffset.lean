/-
# Blueth.Io.GetOffset — the two overloads of `getOffset` (`io/IOBuffer.hpp`).

Both return a pair of pointers into the block. `getOffset(start_offset, end_offset)` takes two offsets from
the start of the block; `getOffset(offset_len)` is documented to go "from start_offset to offset_len", with
`offset_len` counted from `start_offset_`, and its end pointer is `offset_len` from the start of the block
all the same. The two counts are the same as long as nothing has been consumed.

What has been consumed is read off the calls of a run (`consumed`), which may be made on any number of
buffers. `bufferUses` leaves out no call for its sizes or for what the allocator answers: an append that is
back, by a return or an exception, has kept the invariant (`appendRawBytes_keeps`, `appendBuffer_keeps`),
and one that is not has no successor.
-/
import Blueth.Io.BufferObjects

set_option autoImplicit false

namespace Blueth.Io

open Blueth.Transition (System)

/-- A pair of pointers, each by its distance from `internal_buffer_`; `none` is `{nullptr, nullptr}`. -/
abbrev PointerPair := Option (UInt64 × UInt64)

namespace RawIOBuffer

/-- `getOffset(start_offset, end_offset)`. -/
def getOffset (b : RawIOBuffer) (startOffset endOffset : UInt64) : PointerPair :=
  if startOffset ≤ b.capacity ∧ endOffset ≤ b.capacity then some (startOffset, endOffset) else none

/-- `getOffset(offset_len)`. -/
def getOffsetLen (b : RawIOBuffer) (offsetLen : UInt64) : PointerPair :=
  if offsetLen ≤ b.capacity then some (b.startOffset, offsetLen) else none

/-- The bytes between two pointers, unless they do not delimit bytes of the block. -/
def between (b : RawIOBuffer) : PointerPair → Option (List UInt8)
  | some (first, last) =>
    if first ≤ last ∧ last.toNat ≤ b.block.length then
      some ((b.block.take last.toNat).drop first.toNat)
    else none
  | none => none

/-- Unless they are null, the pointers are in order and inside the allocation. -/
def Inside (b : RawIOBuffer) (pair : PointerPair) : Prop :=
  ∀ first last, pair = some (first, last) → first ≤ last ∧ last.toNat ≤ b.block.length

/-- `getOffset(n)` delimits the first `n` bytes of the data window, as the other overload does. -/
structure DelimitsFirst (b : RawIOBuffer) (n : UInt64) : Prop where
  pointers : b.getOffsetLen n = some (b.startOffset, b.startOffset + n)
  range : b.getOffsetLen n = b.getOffset b.startOffset (b.startOffset + n)
  bytes : b.between (b.getOffsetLen n) = some (b.data.take n.toNat)

/-- **What `getOffset` is to do**, for every argument. The range `getOffset(n)` is asked for starts at
`start_offset_` and is `n` long, so it is never the wrong way round. -/
structure OffsetLaw (b : RawIOBuffer) : Prop where
  first : ∀ n, n ≤ b.getDataSize → b.DelimitsFirst n
  range : ∀ startOffset endOffset, startOffset ≤ endOffset → b.Inside (b.getOffset startOffset endOffset)
  length : ∀ n, b.Inside (b.getOffsetLen n)

/-! ## One buffer -/

section OneBuffer

variable {b : RawIOBuffer} {n : UInt64}

theorem getOffset_inside (h : b.WellFormed) {startOffset endOffset : UInt64}
    (hle : startOffset ≤ endOffset) : b.Inside (b.getOffset startOffset endOffset) := by
  intro first last hpair
  rw [getOffset] at hpair
  split_ifs at hpair with hin
  obtain ⟨rfl, rfl⟩ := Prod.mk.inj (Option.some.inj hpair)
  refine ⟨hle, ?_⟩
  rw [length_block h]
  exact UInt64.le_iff_toNat_le.mp hin.2

/-- **The end pointer lies behind the begin pointer** exactly when no more than `n` bytes have been
consumed. -/
theorem getOffsetLen_inside_iff (h : b.WellFormed) :
    b.Inside (b.getOffsetLen n) ↔ (n ≤ b.capacity → b.startOffset ≤ n) := by
  constructor
  · intro hinside hcap
    exact (hinside b.startOffset n (if_pos hcap)).1
  · intro hle first last hpair
    rw [getOffsetLen] at hpair
    split_ifs at hpair with hcap
    obtain ⟨rfl, rfl⟩ := Prod.mk.inj (Option.some.inj hpair)
    refine ⟨hle hcap, ?_⟩
    rw [length_block h]
    exact UInt64.le_iff_toNat_le.mp hcap

/-- Inside the window neither overload gives null pointers. -/
theorem le_capacity_of_le_getDataSize (h : b.WellFormed) (hn : n ≤ b.getDataSize) :
    n ≤ b.capacity ∧ b.startOffset ≤ b.capacity ∧ b.startOffset + n ≤ b.capacity ∧
      (b.startOffset + n).toNat = b.startOffset.toNat + n.toNat := by
  have h1 := startOffset_le h
  have h2 := endOffset_le h
  have hlt := b.capacity.toNat_lt
  rw [UInt64.le_iff_toNat_le, toNat_getDataSize h] at hn
  have hsum : (b.startOffset + n).toNat = b.startOffset.toNat + n.toNat := by
    rw [UInt64.toNat_add]
    omega
  rw [UInt64.le_iff_toNat_le, UInt64.le_iff_toNat_le, UInt64.le_iff_toNat_le, hsum]
  exact ⟨by omega, by omega, by omega, rfl⟩

/-- **When `getOffset(n)` delimits the first `n` bytes**: when nothing has been consumed. -/
theorem delimitsFirst_iff (h : b.WellFormed) (hn : n ≤ b.getDataSize) :
    b.DelimitsFirst n ↔ b.startOffset = 0 := by
  obtain ⟨hcap, hstart, hsum, hnat⟩ := le_capacity_of_le_getDataSize h hn
  have hlen : b.getOffsetLen n = some (b.startOffset, n) := if_pos hcap
  constructor
  · intro hdelimits
    have hpointers := hdelimits.pointers
    rw [hlen, Option.some.injEq, Prod.mk.injEq] at hpointers
    have hlast := congrArg UInt64.toNat hpointers.2
    rw [eq_zero_iff_toNat]
    omega
  · intro hzero
    have hlast : b.startOffset + n = n := by rw [hzero, UInt64.zero_add]
    refine ⟨by rw [hlen, hlast], ?_, ?_⟩
    · rw [hlen, getOffset, if_pos ⟨hstart, hsum⟩, hlast]
    · have hend : n.toNat ≤ b.endOffset.toNat := by
        rw [UInt64.le_iff_toNat_le, toNat_getDataSize h] at hn
        omega
      have hin : b.startOffset ≤ n ∧ n.toNat ≤ b.block.length := by
        rw [length_block h]
        exact ⟨by rw [hzero]; exact UInt64.zero_le, UInt64.le_iff_toNat_le.mp hcap⟩
      rw [hlen, between, if_pos hin, data_eq, hzero, UInt64.toNat_zero, List.drop_zero, List.drop_zero,
        List.take_take, Nat.min_eq_left hend]

theorem offsetLaw_iff (h : b.WellFormed) : b.OffsetLaw ↔ b.startOffset = 0 := by
  constructor
  · intro hlaw
    have hzero : (0 : UInt64) ≤ b.getDataSize := UInt64.zero_le
    exact (delimitsFirst_iff h hzero).mp (hlaw.first 0 hzero)
  · intro hzero
    refine ⟨fun n hn => (delimitsFirst_iff h hn).mpr hzero, fun _ _ => getOffset_inside h, ?_⟩
    intro n
    rw [getOffsetLen_inside_iff h, hzero]
    exact fun _ => UInt64.zero_le

end OneBuffer

end RawIOBuffer

open RawIOBuffer

/-! ## Runs -/

variable {ι : Type*}

/-- The calls of a run. -/
inductive BufferCall (ι : Type*) where
  | appendRawBytes (target : ι) (data : List UInt8)
  /-- `appendRawBytes(const IOBuffer&)` -/
  | appendBuffer (target source : ι)
  | clear (target : ι)
  | modifyStartOffset (target : ι) (offsetLen : Int32)
  deriving DecidableEq

namespace BufferCall

/-- The call made on the buffers of a program. -/
def perform [DecidableEq ι] (depth : ℕ) (grants : ℕ → Grant) (objs : ι → RawIOBuffer) :
    BufferCall ι → Call (ι → RawIOBuffer)
  | .appendRawBytes i data =>
    (RawIOBuffer.appendRawBytes depth grants (objs i) data).map (Function.update objs i)
  | .appendBuffer i j => Io.appendBuffer depth grants objs i j
  | .clear i => .returned (Function.update objs i (objs i).clear)
  | .modifyStartOffset i k => .returned (Function.update objs i ((objs i).modifyStartOffset k))

/-- A length is a `size_t`, and no more is consumed than there is. -/
def Permitted (objs : ι → RawIOBuffer) : BufferCall ι → Prop
  | .appendRawBytes _ data => data.length < 2 ^ 64
  | .appendBuffer _ _ => True
  | .clear _ => True
  | .modifyStartOffset i k => 0 ≤ k.toInt ∧ k.toInt ≤ (objs i).getDataSize.toNat

/-- How much of buffer `i` is consumed after a call, if `n` bytes were before. -/
def consumes [DecidableEq ι] (i : ι) (n : ℕ) : BufferCall ι → ℕ
  | .clear j => if j = i then 0 else n
  | .modifyStartOffset j k => if j = i then n + k.toInt.toNat else n
  | .appendRawBytes _ _ => n
  | .appendBuffer _ _ => n

end BufferCall

variable [DecidableEq ι]

/-- The bytes of buffer `i` consumed since it was last cleared. -/
def consumed (i : ι) (calls : List (BufferCall ι)) : ℕ := calls.foldl (BufferCall.consumes i) 0

/-- Buffers in use, as their constructors leave them at first. The allocator answers as it likes. -/
def bufferUses (ι : Type*) [DecidableEq ι] : System (ι → RawIOBuffer) (BufferCall ι) where
  init objs := ∀ i, ∃ grant capacity, create grant capacity = .returned (objs i)
  next objs call objs' :=
    call.Permitted objs ∧ ∃ depth grants, (call.perform depth grants objs).Leaves objs'

/-- Every buffer is well formed, and the start offset of buffer `i` is what has been consumed of it. -/
structure Consumed (i : ι) (objs : ι → RawIOBuffer) (n : ℕ) : Prop where
  wellFormed : ∀ j, (objs j).WellFormed
  startOffset : (objs i).startOffset.toNat = n

section Runs

variable {objs objs' objs₀ : ι → RawIOBuffer} {call : BufferCall ι} {calls : List (BufferCall ι)} {i : ι}
  {n : ℕ}

omit [DecidableEq ι] in
theorem Consumed.of_kept (h : Consumed i objs n) (hkept : Kept objs objs') : Consumed i objs' n :=
  ⟨fun j => (hkept j).1, by rw [(hkept i).2, h.startOffset]⟩

/-- A call that returns with one buffer in its place. -/
theorem Consumed.update (h : Consumed i objs n) {j : ι} {b : RawIOBuffer} {n' : ℕ} (hwf : b.WellFormed)
    (hself : j = i → b.startOffset.toNat = n') (hother : j ≠ i → n = n') :
    Consumed i (Function.update objs j b) n' := by
  constructor
  · exact (Function.forall_update_iff objs fun _ b => b.WellFormed).mpr
      ⟨hwf, fun k _ => h.wellFormed k⟩
  · by_cases hj : j = i
    · subst hj
      rw [Function.update_self]
      exact hself rfl
    · rw [Function.update_of_ne (Ne.symm hj), h.startOffset]
      exact hother hj

/-- **One call.** -/
theorem Consumed.step (h : Consumed i objs n) (hn : (bufferUses ι).next objs call objs') :
    Consumed i objs' (call.consumes i n) := by
  obtain ⟨hp, depth, grants, hback⟩ := hn
  cases call with
  | appendRawBytes j data =>
      obtain ⟨b, happended, rfl⟩ := Call.leaves_map hback
      obtain ⟨hwf, hstart⟩ := appendRawBytes_keeps (h.wellFormed j) hp happended
      exact h.of_kept (kept_update h.wellFormed hwf hstart)
  | appendBuffer j k => exact h.of_kept (appendBuffer_keeps h.wellFormed hback)
  | clear j =>
      obtain rfl := Call.leaves_returned.mp hback
      refine h.update (clear_spec (h.wellFormed j)).1 ?_ ?_
      · rintro rfl
        exact (if_pos rfl).symm
      · intro hj
        exact (if_neg hj).symm
  | modifyStartOffset j k =>
      obtain rfl := Call.leaves_returned.mp hback
      refine h.update (modifyStartOffset_spec (h.wellFormed j) hp.1 hp.2).1 ?_ ?_
      · rintro rfl
        rw [toNat_modifyStartOffset (h.wellFormed j) hp.1 hp.2, h.startOffset]
        exact (if_pos rfl).symm
      · intro hj
        exact (if_neg hj).symm

/-- New buffers are empty. -/
theorem consumed_of_init (h : (bufferUses ι).init objs) (i : ι) : Consumed i objs 0 := by
  have hwf : ∀ j, (objs j).WellFormed := by
    intro j
    obtain ⟨grant, capacity, hcreate⟩ := h j
    exact (wellFormed_of_create hcreate).1
  refine ⟨hwf, ?_⟩
  obtain ⟨grant, capacity, hcreate⟩ := h i
  rcases reserve_leaves (.inl hcreate) with ⟨hthrown, -⟩ | ⟨junk, -, hb⟩
  · rw [show reserve grant fresh capacity = _ from hcreate] at hthrown
    cases hthrown
  · rw [hb]
    rfl

/-- **What `getOffset` delimits.** In every state of every run: `getOffset(n)` delimits the first `n` bytes
of the window, for any `n` up to its size, exactly when nothing has been consumed since the buffer was last
cleared, and this is when both overloads do all they are to do. `getOffset(start, end)` always gives pointers
in order and inside the allocation; `getOffset(n)` gives them in order exactly when no more than `n` bytes
have been consumed. -/
theorem getOffset_delimits_iff (h₀ : (bufferUses ι).init objs₀) (hr : (bufferUses ι).Run objs₀ calls objs)
    (i : ι) :
    ((objs i).OffsetLaw ↔ consumed i calls = 0) ∧
      (∀ n, n ≤ (objs i).getDataSize → ((objs i).DelimitsFirst n ↔ consumed i calls = 0)) ∧
      (∀ startOffset endOffset, startOffset ≤ endOffset →
        (objs i).Inside ((objs i).getOffset startOffset endOffset)) ∧
      ∀ n, (objs i).Inside ((objs i).getOffsetLen n) ↔
        (n ≤ (objs i).capacity → consumed i calls ≤ n.toNat) := by
  have hconsumed : Consumed i objs (consumed i calls) :=
    hr.foldl_spec (fun _ _ _ _ h hn => h.step hn) (consumed_of_init h₀ i)
  have hwf := hconsumed.wellFormed i
  have hstart : (objs i).startOffset = 0 ↔ consumed i calls = 0 := by
    rw [eq_zero_iff_toNat, hconsumed.startOffset]
  refine ⟨(offsetLaw_iff hwf).trans hstart, ?_, ?_, ?_⟩
  · intro n hn
    exact (delimitsFirst_iff hwf hn).trans hstart
  · intro startOffset endOffset hle
    exact getOffset_inside hwf hle
  · intro n
    rw [getOffsetLen_inside_iff hwf, UInt64.le_iff_toNat_le (a := (objs i).startOffset),
      hconsumed.startOffset]

end Runs

/-- One buffer of 4 bytes. -/
def newBuffer : Unit → RawIOBuffer := fun _ => fresh.grown 4 fun _ => 0

theorem newBuffer_init : (bufferUses Unit).init newBuffer := fun _ => ⟨some fun _ => 0, 4, rfl⟩

/-- Three bytes arrive, and two of them are consumed. -/
theorem newBuffer_partly_consumed :
    (bufferUses Unit).Run newBuffer [.appendRawBytes () [1, 2, 3], .modifyStartOffset () 2]
      (Function.update (Function.update newBuffer () ⟨some [1, 2, 3, 0], 0, 3, 4⟩) ()
        ⟨some [1, 2, 3, 0], 2, 3, 4⟩) := by
  have happended : appendRawBytes 1 (fun _ => none) (newBuffer ()) [1, 2, 3]
      = .returned ⟨some [1, 2, 3, 0], 0, 3, 4⟩ := by decide
  have hfits : BufferCall.Permitted newBuffer (.appendRawBytes () [1, 2, 3]) :=
    show [1, 2, 3].length < 2 ^ 64 by decide
  have hinside : BufferCall.Permitted (Function.update newBuffer () ⟨some [1, 2, 3, 0], 0, 3, 4⟩)
      (.modifyStartOffset () 2) :=
    show 0 ≤ Int32.toInt 2 ∧ Int32.toInt 2 ≤ (3 - 0 : UInt64).toNat by decide
  exact .cons ⟨hfits, 1, fun _ => none, .inl (congrArg (Call.map _) happended)⟩
    (.single ⟨hinside, 1, fun _ => none, .inl rfl⟩)

/-- **The end in front of the begin**: with two of three bytes consumed, `getOffset(1)` gives a pointer to
the third byte and one to the second, where `getOffset(2, 3)` delimits the third. -/
theorem getOffset_after_consuming :
    (bufferUses Unit).init newBuffer ∧ ∃ objs, (bufferUses Unit).Run newBuffer
        [.appendRawBytes () [1, 2, 3], .modifyStartOffset () 2] objs ∧
      1 ≤ (objs ()).getDataSize ∧ (objs ()).getOffsetLen 1 = some (2, 1) ∧
      (objs ()).getOffset 2 3 = some (2, 3) ∧ ¬ (objs ()).DelimitsFirst 1 ∧
      ¬ (objs ()).Inside ((objs ()).getOffsetLen 1) := by
  refine ⟨newBuffer_init, _, newBuffer_partly_consumed, by decide, by decide, by decide, ?_, ?_⟩
  · intro hdelimits
    exact absurd hdelimits.pointers (by decide)
  · intro hinside
    exact absurd (hinside 2 1 (by decide)).1 (by decide)

/-- The same buffer is cleared, and two bytes arrive: `getOffset(1)` delimits the first of them. -/
theorem getOffset_delimits_iff_cleared :
    let b : RawIOBuffer := ⟨some [7, 8, 3, 0], 0, 2, 4⟩
    b.OffsetLaw ∧ b.DelimitsFirst 1 ∧ b.between (b.getOffsetLen 1) = some [7] := by
  intro b
  have happended : appendRawBytes 1 (fun _ => none) ⟨some [1, 2, 3, 0], 0, 0, 4⟩ [7, 8] = .returned b := by decide
  have hfits : [7, 8].length < 2 ^ 64 := by decide
  have hrefilled := newBuffer_partly_consumed.append
    (.cons (a := BufferCall.clear ()) ⟨trivial, 1, fun _ => none, .inl rfl⟩
      (.single (a := BufferCall.appendRawBytes () [7, 8])
        ⟨hfits, 1, fun _ => none, .inl (congrArg (Call.map _) happended)⟩))
  obtain ⟨hlaw, hfirst, -⟩ := getOffset_delimits_iff newBuffer_init hrefilled ()
  have hdelimits : b.DelimitsFirst 1 := (hfirst 1 (by decide)).mpr (by decide)
  exact ⟨hlaw.mpr (by decide), hdelimits, hdelimits.bytes⟩

end Blueth.Io
