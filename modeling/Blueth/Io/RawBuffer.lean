/-
# Blueth.Io.RawBuffer — an `IOBuffer` object as it lies in memory, and its operations (`io/IOBuffer.hpp`).

`IOBuffer` (in `Blueth.Io.IOBuffer`) is what a READER sees: bytes and three numbers. The operations that
change a buffer compute on `size_t`, which wraps, take some of their arguments as `int`, and may leave
`internal_buffer_` null, so they are modelled on `RawIOBuffer`: a possibly null pointer to a block of the
heap, and three 64-bit fields. `RawIOBuffer.toIOBuffer` is the view a reader has of it, and everything
said about data windows and about the representation invariant is said through that view.

The environment is explicit. A call on `realloc` is given its answer (`Grant`): null, or the bytes the
new block happens to hold beyond those it keeps. A write outside the block is `Call.fault`, and a function
that calls itself takes the number of nested calls it may make, `Call.calling` being "not back yet".
-/
import Mathlib.Algebra.Ring.Int.Defs
import Mathlib.Algebra.Ring.Nat
import Blueth.Io.IOBuffer

set_option autoImplicit false

namespace Blueth.Io

/-! ## Calls, the heap, and the two integer types -/

/-- How a call ends. -/
inductive Call (σ : Type*) where
  /-- it returns, leaving `s` -/
  | returned (s : σ)
  /-- it throws `std::bad_alloc`, leaving `s` -/
  | badAlloc (s : σ)
  /-- it touches memory it must not touch: the behaviour is undefined from here on -/
  | fault
  /-- the nested calls allowed to it are used up -/
  | calling
  deriving DecidableEq, Repr

/-- The rest of a function after a call: it runs if the call returns. -/
def Call.andThen {σ : Type*} (c : Call σ) (f : σ → Call σ) : Call σ :=
  match c with
  | .returned s => f s
  | .badAlloc s => .badAlloc s
  | .fault => .fault
  | .calling => .calling

@[simp] theorem Call.andThen_returned {σ : Type*} (s : σ) (f : σ → Call σ) :
    (Call.returned s).andThen f = f s := rfl

@[simp] theorem Call.andThen_badAlloc {σ : Type*} (s : σ) (f : σ → Call σ) :
    (Call.badAlloc s).andThen f = .badAlloc s := rfl

/-- The call is back, by a return or by an exception, and has left `s`. -/
def Call.Leaves {σ : Type*} (c : Call σ) (s : σ) : Prop := c = .returned s ∨ c = .badAlloc s

@[simp] theorem Call.leaves_returned {σ : Type*} {r s : σ} : (Call.returned r).Leaves s ↔ r = s := by
  simp [Call.Leaves]

@[simp] theorem Call.leaves_badAlloc {σ : Type*} {r s : σ} : (Call.badAlloc r).Leaves s ↔ r = s := by
  simp [Call.Leaves]

@[simp] theorem Call.not_leaves_fault {σ : Type*} {s : σ} : ¬ (Call.fault : Call σ).Leaves s := by
  simp [Call.Leaves]

@[simp] theorem Call.not_leaves_calling {σ : Type*} {s : σ} : ¬ (Call.calling : Call σ).Leaves s := by
  simp [Call.Leaves]

theorem Call.leaves_andThen {σ : Type*} {c : Call σ} {f : σ → Call σ} {s : σ}
    (h : (c.andThen f).Leaves s) : c = .badAlloc s ∨ ∃ r, c = .returned r ∧ (f r).Leaves s := by
  cases c with
  | returned r => exact .inr ⟨r, rfl, h⟩
  | badAlloc r => exact .inl (congrArg Call.badAlloc (Call.leaves_badAlloc.mp h))
  | fault => exact absurd h Call.not_leaves_fault
  | calling => exact absurd h Call.not_leaves_calling

/-- The answer of `realloc`: null, or what the new bytes of the block happen to be. -/
abbrev Grant := Option (ℕ → UInt8)

/-- The block a granted `realloc(old, n)` gives: it keeps what fits of the old bytes. -/
def reallocated (old : List UInt8) (n : ℕ) (junk : ℕ → UInt8) : List UInt8 :=
  (List.range n).map fun i => old[i]?.getD (junk i)

/-- `memcpy` of `bytes` to an offset of a block, unless it would write outside the block. -/
def memcpy (block : List UInt8) (offset : ℕ) (bytes : List UInt8) : Option (List UInt8) :=
  if offset + bytes.length ≤ block.length then
    some (block.take offset ++ bytes ++ block.drop (offset + bytes.length))
  else none

theorem eq_zero_iff_toNat (n : UInt64) : n = 0 ↔ n.toNat = 0 := by
  rw [← UInt64.toNat_inj, UInt64.toNat_zero]

theorem ne_zero_of_toNat_pos {n : UInt64} (h : 0 < n.toNat) : n ≠ 0 := by
  intro h0
  rw [eq_zero_iff_toNat] at h0
  omega

/-- An `int` converted to `size_t`. -/
def toSize (n : Int32) : UInt64 := UInt64.ofInt n.toInt

/-- A non-negative `int` is the same number as a `size_t`. -/
theorem toSize_of_nat {k : Int32} {n : ℕ} (h : k.toInt = n) : toSize k = UInt64.ofNat n := by
  rw [← UInt64.toNat_inj, toSize, UInt64.ofInt, UInt64.toNat_ofNat', UInt64.toNat_ofNat', h]
  omega

/-- A `size_t` converted to `int`. -/
def toInt (n : UInt64) : Int32 := Int32.ofNat n.toNat

/-! ## The object -/

/-- `IOBuffer<T>`: `internal_buffer_` (`none` is `nullptr`) and the three `size_t` fields. -/
structure RawIOBuffer where
  internalBuffer : Option (List UInt8)
  startOffset : UInt64
  endOffset : UInt64
  capacity : UInt64
  deriving DecidableEq, Repr

namespace RawIOBuffer

/-- The bytes of the allocation; none behind a null pointer. -/
def block (b : RawIOBuffer) : List UInt8 := b.internalBuffer.getD []

/-- The buffer as a reader sees it. -/
def toIOBuffer (b : RawIOBuffer) : IOBuffer where
  internalBuffer := b.block
  startOffset := b.startOffset.toNat
  endOffset := b.endOffset.toNat
  capacity := b.capacity.toNat

/-- `start_offset_ <= end_offset_ <= capacity_ = ` allocation size. -/
abbrev WellFormed (b : RawIOBuffer) : Prop := b.toIOBuffer.WellFormed

/-- The data window. -/
abbrev data (b : RawIOBuffer) : List UInt8 := b.toIOBuffer.data

def getDataSize (b : RawIOBuffer) : UInt64 := b.endOffset - b.startOffset

def getAvailableSpace (b : RawIOBuffer) : UInt64 := b.capacity - b.endOffset

def clear (b : RawIOBuffer) : RawIOBuffer := { b with startOffset := 0, endOffset := 0 }

def modifyStartOffset (b : RawIOBuffer) (offsetLen : Int32) : RawIOBuffer :=
  { b with startOffset := b.startOffset + toSize offsetLen }

def modifyEndOffset (b : RawIOBuffer) (offsetLen : Int32) : RawIOBuffer :=
  { b with endOffset := b.endOffset + toSize offsetLen }

/-- `reserve(mem_size)`; `reserve()` is `reserve(0)`. With a size of 0 left after the doubling, `realloc`
on a live block is implementation-defined (it may free the block and return null, which leaves
`internal_buffer_` dangling), on a null pointer it is `malloc(0)`. -/
def reserve (grant : Grant) (b : RawIOBuffer) (memSize : UInt64) : Call RawIOBuffer :=
  let memSize := if memSize = 0 then b.capacity * 2 else memSize
  if memSize = 0 ∧ b.internalBuffer.isSome then .fault
  else
    match grant with
    | none => .badAlloc b
    | some junk =>
      .returned
        { b with
          internalBuffer := some (reallocated b.block memSize.toNat junk)
          capacity := memSize }

/-- The members before a constructor's body runs. -/
def fresh : RawIOBuffer where
  internalBuffer := none
  startOffset := 0
  endOffset := 0
  capacity := 0

/-- `IOBuffer(capacity)`. When it throws there is no object. -/
def create (grant : Grant) (capacity : UInt64) : Call RawIOBuffer := reserve grant fresh capacity

/-- Bytes written at an offset of the block, the offsets as they are. -/
def write (b : RawIOBuffer) (offset : ℕ) (bytes : List UInt8) : Option RawIOBuffer :=
  (memcpy b.block offset bytes).map fun block =>
    { b with internalBuffer := b.internalBuffer.map fun _ => block }

/-- The fast path of both overloads of `appendRawBytes`: `memcpy` to `end_offset_`, then advance it. -/
def copyToEnd (b : RawIOBuffer) (bytes : List UInt8) : Call RawIOBuffer :=
  match b.write b.endOffset.toNat bytes with
  | none => .fault
  | some b' => .returned { b' with endOffset := b.endOffset + UInt64.ofNat bytes.length }

/-- `appendRawBytes(data, size)`, at most `depth` calls deep. The `i`-th `realloc` gets `grants i`. -/
def appendRawBytes : ℕ → (ℕ → Grant) → RawIOBuffer → List UInt8 → Call RawIOBuffer
  | 0, _, _, _ => .calling
  | depth + 1, grants, b, data =>
    if b.getAvailableSpace ≥ UInt64.ofNat data.length then
      b.copyToEnd data
    else
      (reserve (grants 0) b (b.capacity + UInt64.ofNat data.length)).andThen fun b' =>
        appendRawBytes depth (fun i => grants (i + 1)) b' data

/-! ## Sizes of a well-formed buffer: no subtraction wraps -/

section WellFormed

variable {b : RawIOBuffer}

theorem length_block (h : b.WellFormed) : b.block.length = b.capacity.toNat := h.capacity_eq.symm

theorem startOffset_le (h : b.WellFormed) : b.startOffset.toNat ≤ b.endOffset.toNat := h.start_le

theorem endOffset_le (h : b.WellFormed) : b.endOffset.toNat ≤ b.capacity.toNat := h.end_le

theorem toNat_getDataSize (h : b.WellFormed) :
    b.getDataSize.toNat = b.endOffset.toNat - b.startOffset.toNat := by
  have h1 := startOffset_le h
  exact UInt64.toNat_sub_of_le _ _ (UInt64.le_iff_toNat_le.mpr h1)

theorem toNat_getAvailableSpace (h : b.WellFormed) :
    b.getAvailableSpace.toNat = b.capacity.toNat - b.endOffset.toNat := by
  have h1 := endOffset_le h
  exact UInt64.toNat_sub_of_le _ _ (UInt64.le_iff_toNat_le.mpr h1)

theorem length_data (h : b.WellFormed) : b.data.length = b.getDataSize.toNat := by
  rw [toNat_getDataSize h]
  exact IOBuffer.length_data h

/-- The data are the last bytes of what stands before `end_offset_`. -/
theorem data_eq (b : RawIOBuffer) :
    b.data = (b.block.take b.endOffset.toNat).drop b.startOffset.toNat := rfl

end WellFormed

/-! ## Each operation on a well-formed buffer -/

section Operations

theorem length_reallocated (old : List UInt8) (n : ℕ) (junk : ℕ → UInt8) :
    (reallocated old n junk).length = n := by
  simp [reallocated]

/-- What fits of the old bytes is kept. -/
theorem take_reallocated {old : List UInt8} {n k : ℕ} (junk : ℕ → UInt8) (hn : k ≤ n)
    (hold : k ≤ old.length) : (reallocated old n junk).take k = old.take k := by
  apply List.ext_getElem
  · rw [List.length_take, List.length_take, length_reallocated]
    omega
  · intro i hi _
    rw [List.length_take, length_reallocated] at hi
    have hlt : i < old.length := by omega
    simp only [List.getElem_take, reallocated, List.getElem_map, List.getElem_range,
      List.getElem?_eq_getElem hlt, Option.getD_some]

theorem memcpy_eq_some {block bytes : List UInt8} {offset : ℕ}
    (h : offset + bytes.length ≤ block.length) :
    memcpy block offset bytes
      = some (block.take offset ++ bytes ++ block.drop (offset + bytes.length)) := if_pos h

theorem memcpy_eq_none {block bytes : List UInt8} {offset : ℕ}
    (h : block.length < offset + bytes.length) : memcpy block offset bytes = none :=
  if_neg (Nat.not_le.mpr h)

variable {b : RawIOBuffer} {bytes : List UInt8}

/-- The object after a granted `reserve`. -/
def grown (b : RawIOBuffer) (memSize : UInt64) (junk : ℕ → UInt8) : RawIOBuffer :=
  { b with
    internalBuffer := some (reallocated b.block memSize.toNat junk)
    capacity := memSize }

theorem reserve_granted {memSize : UInt64} (h : memSize ≠ 0) (junk : ℕ → UInt8) :
    reserve (some junk) b memSize = .returned (b.grown memSize junk) := by
  simp only [reserve, h, false_and, if_false]
  rfl

theorem reserve_refused {memSize : UInt64} (h : memSize ≠ 0) : reserve none b memSize = .badAlloc b := by
  simp only [reserve, h, false_and, if_false]

/-- `reserve()` asks for twice the capacity. -/
theorem reserve_zero (h : b.capacity * 2 ≠ 0) (grant : Grant) :
    reserve grant b 0 = reserve grant b (b.capacity * 2) := by
  simp only [reserve, if_true, if_neg h]

theorem wellFormed_grown {memSize : UInt64} (h : b.WellFormed) (hend : b.endOffset ≤ memSize)
    (junk : ℕ → UInt8) : (b.grown memSize junk).WellFormed where
  start_le := h.start_le
  end_le := UInt64.le_iff_toNat_le.mp hend
  capacity_eq := (length_reallocated b.block memSize.toNat junk).symm

theorem data_grown {memSize : UInt64} (h : b.WellFormed) (hend : b.endOffset ≤ memSize)
    (junk : ℕ → UInt8) : (b.grown memSize junk).data = b.data := by
  have h1 := endOffset_le h
  have h2 := length_block h
  have h3 := UInt64.le_iff_toNat_le.mp hend
  show ((reallocated b.block memSize.toNat junk).take b.endOffset.toNat).drop b.startOffset.toNat = _
  rw [take_reallocated junk h3 (by omega), data_eq]

/-- A write inside the block: where the bytes come to lie, and that nothing else changes. -/
theorem write_eq_some (bytes : List UInt8) (offset : ℕ)
    (h : offset + bytes.length ≤ b.block.length) :
    ∃ b', b.write offset bytes = some b' ∧
      b'.block = b.block.take offset ++ bytes ++ b.block.drop (offset + bytes.length) ∧
      b'.startOffset = b.startOffset ∧ b'.endOffset = b.endOffset ∧ b'.capacity = b.capacity := by
  let after := b.block.take offset ++ bytes ++ b.block.drop (offset + bytes.length)
  refine ⟨{ b with internalBuffer := b.internalBuffer.map fun _ => after }, ?_, ?_, rfl, rfl, rfl⟩
  · rw [write, memcpy_eq_some h]
    rfl
  · cases hb : b.internalBuffer with
    | some old => rfl
    | none =>
        -- behind a null pointer only the empty write fits
        have hnil : b.block = [] := by rw [block, hb]; rfl
        rw [hnil, List.length_nil] at h
        have hbytes : bytes = [] := List.eq_nil_of_length_eq_zero (by omega)
        rw [hnil, hbytes]
        simp [block]

theorem write_eq_none {offset : ℕ} (h : b.block.length < offset + bytes.length) :
    b.write offset bytes = none := by
  rw [write, memcpy_eq_none h]
  rfl

/-- Bytes that fit behind `end_offset_` are appended to the window; nothing else changes. -/
theorem copyToEnd_spec (bytes : List UInt8) (h : b.WellFormed)
    (hfit : b.endOffset.toNat + bytes.length ≤ b.capacity.toNat) :
    ∃ b', b.copyToEnd bytes = .returned b' ∧ b'.WellFormed ∧ b'.data = b.data ++ bytes ∧
      b'.endOffset.toNat = b.endOffset.toNat + bytes.length ∧ b'.capacity = b.capacity := by
  have h0 := startOffset_le h
  have h2 := length_block h
  have hcap := b.capacity.toNat_lt
  have hend : (b.endOffset + UInt64.ofNat bytes.length).toNat = b.endOffset.toNat + bytes.length := by
    rw [UInt64.toNat_add, UInt64.toNat_ofNat']
    omega
  obtain ⟨b', hb', hblock, hstart, hend', hcapacity⟩ :=
    write_eq_some (b := b) bytes b.endOffset.toNat (by omega)
  have hpre : (b.block.take b.endOffset.toNat).length = b.endOffset.toNat := by
    rw [List.length_take]
    omega
  have hlen : b'.block.length = b.block.length := by
    rw [hblock]
    simp only [List.length_append, List.length_take, List.length_drop]
    omega
  refine ⟨{ b' with endOffset := b.endOffset + UInt64.ofNat bytes.length }, ?_, ?_, ?_, hend,
    hcapacity⟩
  · rw [copyToEnd, hb']
  · constructor
    · show b'.startOffset.toNat ≤ (b.endOffset + UInt64.ofNat bytes.length).toNat
      rw [hend, hstart]
      omega
    · show (b.endOffset + UInt64.ofNat bytes.length).toNat ≤ b'.capacity.toNat
      rw [hend, hcapacity]
      exact hfit
    · show b'.capacity.toNat = b'.block.length
      rw [hlen, hcapacity, h2]
  · show (b'.block.take (b.endOffset + UInt64.ofNat bytes.length).toNat).drop b'.startOffset.toNat = _
    rw [hend, hstart, hblock, List.take_append_of_le_length (by rw [List.length_append]; omega),
      List.take_of_length_le (by rw [List.length_append]; omega),
      List.drop_append_of_le_length (by omega), data_eq]

theorem copyToEnd_fault (h : b.block.length < b.endOffset.toNat + bytes.length) :
    b.copyToEnd bytes = .fault := by
  rw [copyToEnd, write_eq_none h]

/-- The test both overloads make before they copy. -/
theorem le_getAvailableSpace_iff (h : b.WellFormed) (hlen : bytes.length < 2 ^ 64) :
    UInt64.ofNat bytes.length ≤ b.getAvailableSpace ↔
      b.endOffset.toNat + bytes.length ≤ b.capacity.toNat := by
  have h1 := endOffset_le h
  rw [UInt64.le_iff_toNat_le, toNat_getAvailableSpace h, UInt64.toNat_ofNat_of_lt' hlen]
  omega

/-- **`appendRawBytes` with room left**: one call, no allocation. -/
theorem appendRawBytes_of_fits (h : b.WellFormed) (hlen : bytes.length < 2 ^ 64)
    (hfit : b.endOffset.toNat + bytes.length ≤ b.capacity.toNat) (depth : ℕ) (grants : ℕ → Grant) :
    appendRawBytes (depth + 1) grants b bytes = b.copyToEnd bytes := by
  rw [appendRawBytes, if_pos ((le_getAvailableSpace_iff h hlen).mpr hfit)]

/-- The size `appendRawBytes` asks for when it is out of room. -/
theorem toNat_capacity_add (hsize : b.capacity.toNat + bytes.length < 2 ^ 64) :
    (b.capacity + UInt64.ofNat bytes.length).toNat = b.capacity.toNat + bytes.length := by
  rw [UInt64.toNat_add, UInt64.toNat_ofNat']
  omega

/-- **`appendRawBytes` out of room, the allocation refused.** -/
theorem appendRawBytes_refused (h : b.WellFormed)
    (hfull : b.capacity.toNat < b.endOffset.toNat + bytes.length)
    (hsize : b.capacity.toNat + bytes.length < 2 ^ 64) {grants : ℕ → Grant} (hgrant : grants 0 = none)
    (depth : ℕ) : appendRawBytes (depth + 1) grants b bytes = .badAlloc b := by
  have hlen : bytes.length < 2 ^ 64 := by omega
  have hnot : ¬ UInt64.ofNat bytes.length ≤ b.getAvailableSpace := by
    rw [le_getAvailableSpace_iff h hlen]
    omega
  have h1 := endOffset_le h
  have h2 := toNat_capacity_add hsize
  have hne : b.capacity + UInt64.ofNat bytes.length ≠ 0 := ne_zero_of_toNat_pos (by omega)
  rw [appendRawBytes, if_neg hnot, hgrant, reserve_refused hne, Call.andThen_badAlloc]

/-- **`appendRawBytes` out of room, the allocation granted**: the one recursive call finds room. -/
theorem appendRawBytes_granted (h : b.WellFormed)
    (hfull : b.capacity.toNat < b.endOffset.toNat + bytes.length)
    (hsize : b.capacity.toNat + bytes.length < 2 ^ 64) {grants : ℕ → Grant} {junk : ℕ → UInt8}
    (hgrant : grants 0 = some junk) (depth : ℕ) :
    appendRawBytes (depth + 2) grants b bytes
      = (b.grown (b.capacity + UInt64.ofNat bytes.length) junk).copyToEnd bytes := by
  have hlen : bytes.length < 2 ^ 64 := by omega
  have h1 := endOffset_le h
  have h2 := toNat_capacity_add hsize
  have hnot : ¬ UInt64.ofNat bytes.length ≤ b.getAvailableSpace := by
    rw [le_getAvailableSpace_iff h hlen]
    omega
  have hne : b.capacity + UInt64.ofNat bytes.length ≠ 0 := ne_zero_of_toNat_pos (by omega)
  have hend : b.endOffset ≤ b.capacity + UInt64.ofNat bytes.length := by
    rw [UInt64.le_iff_toNat_le, h2]
    omega
  rw [appendRawBytes, if_neg hnot, hgrant, reserve_granted hne, Call.andThen_returned]
  apply appendRawBytes_of_fits (wellFormed_grown h hend junk) hlen
  show b.endOffset.toNat + bytes.length ≤ (b.capacity + UInt64.ofNat bytes.length).toNat
  rw [h2]
  omega

/-- An offset moved by an `int`, seen in the integers: the sum wraps at `2^64`. -/
theorem toNat_add_toSize (n : UInt64) (k : Int32) :
    ((n + toSize k).toNat : Int) = (n.toNat + k.toInt) % 2 ^ 64 := by
  have hk : (toSize k).toNat = (k.toInt % 2 ^ 64).toNat := by
    rw [toSize, UInt64.ofInt, UInt64.toNat_ofNat']
    omega
  rw [UInt64.toNat_add, hk]
  omega

theorem toNat_modifyStartOffset (h : b.WellFormed) {k : Int32} (h0 : 0 ≤ k.toInt)
    (hk : k.toInt ≤ b.getDataSize.toNat) :
    (b.modifyStartOffset k).startOffset.toNat = b.startOffset.toNat + k.toInt.toNat := by
  have h1 := startOffset_le h
  have h2 := b.endOffset.toNat_lt
  have h3 := toNat_add_toSize b.startOffset k
  rw [toNat_getDataSize h] at hk
  show (b.startOffset + toSize k).toNat = _
  omega

theorem toNat_modifyEndOffset (h : b.WellFormed) {k : Int32} (h0 : k.toInt ≤ 0)
    (hk : -k.toInt ≤ b.getDataSize.toNat) :
    (b.modifyEndOffset k).endOffset.toNat = b.endOffset.toNat - (-k.toInt).toNat := by
  have h1 := startOffset_le h
  have h2 := b.endOffset.toNat_lt
  have h3 := toNat_add_toSize b.endOffset k
  rw [toNat_getDataSize h] at hk
  show (b.endOffset + toSize k).toNat = _
  omega

/-- Dropping from the front keeps the buffer well formed. -/
theorem modifyStartOffset_spec (h : b.WellFormed) {k : Int32} (h0 : 0 ≤ k.toInt)
    (hk : k.toInt ≤ b.getDataSize.toNat) :
    (b.modifyStartOffset k).WellFormed ∧ (b.modifyStartOffset k).data = b.data.drop k.toInt.toNat := by
  have h1 := startOffset_le h
  have hstart := toNat_modifyStartOffset h h0 hk
  rw [toNat_getDataSize h] at hk
  constructor
  · constructor
    · show (b.modifyStartOffset k).startOffset.toNat ≤ b.endOffset.toNat
      omega
    · exact h.end_le
    · exact h.capacity_eq
  · show (b.block.take b.endOffset.toNat).drop (b.modifyStartOffset k).startOffset.toNat = _
    rw [hstart, data_eq, List.drop_drop]

/-- Dropping from the back keeps the buffer well formed. -/
theorem modifyEndOffset_spec (h : b.WellFormed) {k : Int32} (h0 : k.toInt ≤ 0)
    (hk : -k.toInt ≤ b.getDataSize.toNat) :
    (b.modifyEndOffset k).WellFormed ∧
      (b.modifyEndOffset k).data = b.data.take (b.data.length - (-k.toInt).toNat) := by
  have h1 := startOffset_le h
  have h2 := endOffset_le h
  have hend := toNat_modifyEndOffset h h0 hk
  have hlen := length_data h
  rw [toNat_getDataSize h] at hk hlen
  constructor
  · constructor
    · show b.startOffset.toNat ≤ (b.modifyEndOffset k).endOffset.toNat
      omega
    · show (b.modifyEndOffset k).endOffset.toNat ≤ b.capacity.toNat
      omega
    · exact h.capacity_eq
  · show (b.block.take (b.modifyEndOffset k).endOffset.toNat).drop b.startOffset.toNat = _
    rw [hend, hlen, data_eq, List.take_drop, List.take_take]
    congr 2
    omega

theorem clear_spec (h : b.WellFormed) : b.clear.WellFormed ∧ b.clear.data = [] := by
  constructor
  · exact ⟨Nat.le_refl _, Nat.zero_le _, h.capacity_eq⟩
  · show (b.block.take 0).drop 0 = []
    simp

/-- More nested calls change nothing once the outermost one is back. -/
theorem appendRawBytes_mono {depth : ℕ} {grants : ℕ → Grant}
    (h : appendRawBytes depth grants b bytes ≠ .calling) (k : ℕ) :
    appendRawBytes (depth + k) grants b bytes = appendRawBytes depth grants b bytes := by
  induction depth generalizing b grants with
  | zero => exact absurd rfl h
  | succ depth ih =>
      rw [Nat.succ_add, appendRawBytes]
      rw [appendRawBytes] at h ⊢
      split
      · rfl
      · rename_i hfull
        rw [if_neg hfull] at h
        cases hr : reserve (grants 0) b (b.capacity + UInt64.ofNat bytes.length) with
        | returned b' =>
            rw [hr, Call.andThen_returned] at h
            exact ih h
        | badAlloc b' => rfl
        | fault => rfl
        | calling => rfl

/-! ### Whatever the sizes: an append that is back has kept the invariant and the start offset -/

variable {b' : RawIOBuffer} {depth : ℕ} {grants : ℕ → Grant}

theorem copyToEnd_startOffset (h : b.copyToEnd bytes = .returned b') :
    b'.startOffset = b.startOffset := by
  rw [copyToEnd, write] at h
  cases hcopy : memcpy b.block b.endOffset.toNat bytes with
  | none =>
      rw [hcopy] at h
      cases h
  | some block =>
      rw [hcopy] at h
      cases h
      rfl

theorem copyToEnd_keeps (h : b.WellFormed) (hback : (b.copyToEnd bytes).Leaves b') :
    b'.WellFormed ∧ b'.startOffset = b.startOffset := by
  have hblock := length_block h
  by_cases hfit : b.endOffset.toNat + bytes.length ≤ b.capacity.toNat
  · obtain ⟨b'', hret, hwf, -⟩ := copyToEnd_spec bytes h hfit
    rw [hret] at hback
    obtain rfl := Call.leaves_returned.mp hback
    exact ⟨hwf, copyToEnd_startOffset hret⟩
  · rw [copyToEnd_fault (by omega)] at hback
    exact absurd hback Call.not_leaves_fault

/-- What `reserve` can do, for any size. -/
theorem reserve_leaves {grant : Grant} {memSize : UInt64} (h : (reserve grant b memSize).Leaves b') :
    (reserve grant b memSize = .badAlloc b' ∧ b' = b) ∨ ∃ junk, reserve grant b memSize = .returned b' ∧
      b' = b.grown (if memSize = 0 then b.capacity * 2 else memSize) junk := by
  unfold reserve at h ⊢
  generalize (if memSize = 0 then b.capacity * 2 else memSize) = m at h ⊢
  simp only at h ⊢
  split_ifs at h ⊢ with hfree
  · exact absurd h Call.not_leaves_fault
  · cases grant with
    | none =>
        obtain rfl := Call.leaves_badAlloc.mp h
        exact .inl ⟨rfl, rfl⟩
    | some junk =>
        obtain rfl := Call.leaves_returned.mp h
        exact .inr ⟨junk, rfl, rfl⟩

/-- A buffer that has been left too small for what it holds, and looks roomy because the subtraction
wraps: the copy falls outside the block. -/
theorem not_leaves_of_outside (hout : b.block.length < b.endOffset.toNat)
    (hfits : UInt64.ofNat bytes.length ≤ b.getAvailableSpace) :
    ¬ (appendRawBytes depth grants b bytes).Leaves b' := by
  cases depth with
  | zero => exact Call.not_leaves_calling
  | succ depth =>
      rw [appendRawBytes, if_pos hfits, copyToEnd_fault (by omega)]
      exact Call.not_leaves_fault

/-- The size asked for by an append out of room is large enough for the data there are, or it has wrapped;
and then the buffer looks roomy. -/
theorem roomy_of_wrapped (h : b.WellFormed) (hlen : bytes.length < 2 ^ 64)
    (hfull : ¬ b.getAvailableSpace ≥ UInt64.ofNat bytes.length) {memSize : UInt64}
    (hsize : memSize = if b.capacity + UInt64.ofNat bytes.length = 0 then b.capacity * 2
      else b.capacity + UInt64.ofNat bytes.length)
    (hsmall : ¬ b.endOffset ≤ memSize) : UInt64.ofNat bytes.length ≤ memSize - b.endOffset := by
  have hend := endOffset_le h
  have hcap := b.capacity.toNat_lt
  have hfull' : ¬ b.endOffset.toNat + bytes.length ≤ b.capacity.toNat :=
    fun hfit => hfull ((le_getAvailableSpace_iff h hlen).mpr hfit)
  have hsum : (b.capacity + UInt64.ofNat bytes.length).toNat
      = (b.capacity.toNat + bytes.length) % 2 ^ 64 := by
    rw [UInt64.toNat_add, UInt64.toNat_ofNat_of_lt' hlen]
  have hdouble : (b.capacity * 2).toNat = b.capacity.toNat * 2 % 2 ^ 64 := UInt64.toNat_mul _ _
  rw [UInt64.le_iff_toNat_le] at hsmall ⊢
  rw [UInt64.toNat_ofNat_of_lt' hlen, UInt64.toNat_sub]
  by_cases hzero : b.capacity + UInt64.ofNat bytes.length = 0
  · rw [if_pos hzero] at hsize
    rw [eq_zero_iff_toNat, hsum] at hzero
    rw [hsize, hdouble] at hsmall ⊢
    omega
  · rw [if_neg hzero] at hsize
    rw [hsize, hsum] at hsmall ⊢
    omega

/-- **An append that is back**, of any length and whatever the allocator has answered: the buffer is well
formed and starts where it did. -/
theorem appendRawBytes_keeps (h : b.WellFormed) (hlen : bytes.length < 2 ^ 64)
    (hback : (appendRawBytes depth grants b bytes).Leaves b') :
    b'.WellFormed ∧ b'.startOffset = b.startOffset := by
  induction depth generalizing b grants with
  | zero => exact absurd hback Call.not_leaves_calling
  | succ depth ih =>
      rw [appendRawBytes] at hback
      split_ifs at hback with hfull
      · exact copyToEnd_keeps h hback
      · rcases Call.leaves_andThen hback with hthrown | ⟨r, hreserved, hback⟩
        · rcases reserve_leaves (.inr hthrown) with ⟨-, rfl⟩ | ⟨junk, hret, -⟩
          · exact ⟨h, rfl⟩
          · rw [hret] at hthrown
            cases hthrown
        · rcases reserve_leaves (.inl hreserved) with ⟨hthrown, -⟩ | ⟨junk, -, rfl⟩
          · rw [hthrown] at hreserved
            cases hreserved
          · generalize hsize : (if b.capacity + UInt64.ofNat bytes.length = 0 then b.capacity * 2
              else b.capacity + UInt64.ofNat bytes.length) = memSize at hback
            by_cases hend : b.endOffset ≤ memSize
            · have hkept := ih (wellFormed_grown h hend junk) hback
              exact hkept
            · refine absurd hback (not_leaves_of_outside ?_ ?_)
              · rw [UInt64.le_iff_toNat_le, Nat.not_le] at hend
                exact Nat.lt_of_le_of_lt (Nat.le_of_eq (length_reallocated ..)) hend
              · exact roomy_of_wrapped h hlen hfull hsize.symm hend

end Operations

end RawIOBuffer

end Blueth.Io
