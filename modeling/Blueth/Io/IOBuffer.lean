/-
# Blueth.Io.IOBuffer — the byte buffer a parser reads its window from (`io/IOBuffer.hpp`).

An `IOBuffer` is one allocation with two offsets into it. The bytes in `[start_offset_, end_offset_)`
are the live data, those before are consumed ("headroom"), those after are uninitialised or stale.
The parsers take the two offset pointers and walk from one to the other, so what matters to them is
`data` (the window) and `byteBefore`, the byte that `*(start_buffer - 1)` reads at the window's start:
there is NONE when the window starts at offset 0, the read then falls outside the allocation.
-/
import Blueth.Scan.Windows

set_option autoImplicit false

namespace Blueth.Io

open Blueth.Scan (behind)

/-- `IOBuffer<char>`: the allocation as a list of bytes, and the three `size_t` fields. -/
structure IOBuffer where
  internalBuffer : List UInt8
  startOffset : ℕ
  endOffset : ℕ
  capacity : ℕ
  deriving DecidableEq, Repr

namespace IOBuffer

/-- The representation invariant: `start_offset_ <= end_offset_ <= capacity_ = ` allocation size. -/
structure WellFormed (b : IOBuffer) : Prop where
  start_le : b.startOffset ≤ b.endOffset
  end_le : b.endOffset ≤ b.capacity
  capacity_eq : b.capacity = b.internalBuffer.length

instance (b : IOBuffer) : Decidable b.WellFormed :=
  decidable_of_iff
    (b.startOffset ≤ b.endOffset ∧ b.endOffset ≤ b.capacity ∧ b.capacity = b.internalBuffer.length)
    ⟨fun h => ⟨h.1, h.2.1, h.2.2⟩, fun h => ⟨h.1, h.2, h.3⟩⟩

/-- The bytes from `getStartOffsetPointer()` up to `getEndOffsetPointer()`. -/
def data (b : IOBuffer) : List UInt8 := (b.internalBuffer.take b.endOffset).drop b.startOffset

/-- `getDataSize()`; the subtraction does not wrap on a well-formed buffer. -/
def getDataSize (b : IOBuffer) : ℕ := b.endOffset - b.startOffset

/-- The byte just before `getStartOffsetPointer()`, if the allocation has one. -/
def byteBefore (b : IOBuffer) : Option UInt8 :=
  match b.startOffset with
  | 0 => none
  | n + 1 => b.internalBuffer[n]?

/-- The same buffer with only the first `n` bytes of the window delivered. -/
def deliver (b : IOBuffer) (n : ℕ) : IOBuffer := { b with endOffset := b.startOffset + n }

/-- The same buffer with the start offset advanced past `n` bytes. -/
def consume (b : IOBuffer) (n : ℕ) : IOBuffer := { b with startOffset := b.startOffset + n }

/-- A buffer that holds exactly `w`, after `before` bytes of headroom. -/
def holding (before w : List UInt8) : IOBuffer where
  internalBuffer := before ++ w
  startOffset := before.length
  endOffset := before.length + w.length
  capacity := before.length + w.length

theorem length_data {b : IOBuffer} (h : b.WellFormed) : b.data.length = b.getDataSize := by
  have h1 := h.end_le
  have h2 := h.capacity_eq
  simp only [data, getDataSize, List.length_drop, List.length_take]
  omega

theorem holding_wellFormed (before w : List UInt8) : (holding before w).WellFormed where
  start_le := by simp [holding]
  end_le := by simp [holding]
  capacity_eq := by simp [holding]

@[simp] theorem data_holding (before w : List UInt8) : (holding before w).data = w := by
  have h : (before ++ w).take (before.length + w.length) = before ++ w :=
    List.take_of_length_le (by simp)
  simp only [data, holding, h, List.drop_left]

@[simp] theorem byteBefore_holding_nil (w : List UInt8) : (holding [] w).byteBefore = none := rfl

/-- There is no byte before the window exactly when it starts at offset 0. -/
theorem byteBefore_eq_none_iff {b : IOBuffer} (hb : b.WellFormed) :
    b.byteBefore = none ↔ b.startOffset = 0 := by
  have h1 := hb.start_le
  have h2 := hb.end_le
  have h3 := hb.capacity_eq
  unfold byteBefore
  split
  · rename_i h
    simp [h]
  · rename_i n h
    have hlt : n < b.internalBuffer.length := by omega
    simp [h, List.getElem?_eq_getElem hlt]

section Windows

variable {b : IOBuffer} {n : ℕ}

theorem data_deliver (h : b.WellFormed) (hn : n ≤ b.getDataSize) :
    (b.deliver n).data = b.data.take n := by
  have h1 := h.start_le
  simp only [getDataSize] at hn
  simp only [data, deliver]
  rw [List.take_drop, List.take_take, Nat.min_eq_left (by omega)]

/-- Delivering everything is the buffer itself. -/
theorem deliver_getDataSize (h : b.WellFormed) : b.deliver b.getDataSize = b := by
  have h1 := h.start_le
  simp only [deliver, getDataSize]
  rw [Nat.add_sub_cancel' h1]

@[simp] theorem byteBefore_deliver : (b.deliver n).byteBefore = b.byteBefore := rfl

theorem data_consume : (b.consume n).data = b.data.drop n := by
  simp only [data, consume, List.drop_drop]

theorem wellFormed_consume (h : b.WellFormed) (hn : n ≤ b.getDataSize) : (b.consume n).WellFormed := by
  have h1 := h.start_le
  simp only [getDataSize] at hn
  exact ⟨by simp only [consume]; omega, h.end_le, h.capacity_eq⟩

theorem consume_consume (k : ℕ) : (b.consume n).consume k = b.consume (n + k) := by
  simp only [consume, Nat.add_assoc]

theorem getDataSize_consume : (b.consume n).getDataSize = b.getDataSize - n := by
  simp only [getDataSize, consume]
  omega

/-- Once bytes have been consumed, the byte before the pointer is the last of them. -/
theorem byteBefore_consume (h : b.WellFormed) (hn : n ≤ b.getDataSize) :
    (b.consume n).byteBefore = behind b.byteBefore (b.data.take n) := by
  cases n with
  | zero => simp [consume]
  | succ n =>
      have h1 := h.start_le
      have h2 := h.end_le
      have h3 := h.capacity_eq
      simp only [getDataSize] at hn
      have hlt : b.startOffset + n < b.internalBuffer.length := by omega
      have hlen : (b.data.take (n + 1)).length = n + 1 := by
        rw [List.length_take, length_data h, getDataSize]
        omega
      have hlast : (b.data.take (n + 1)).getLast? = b.internalBuffer[b.startOffset + n]? := by
        rw [List.getLast?_eq_getElem?, hlen, Nat.add_sub_cancel, List.getElem?_take_of_lt (by omega)]
        simp only [data, List.getElem?_drop]
        exact List.getElem?_take_of_lt (by omega)
      rw [behind, hlast, List.getElem?_eq_getElem hlt, Option.some_or]
      simp only [byteBefore, consume, ← Nat.add_assoc]
      exact List.getElem?_eq_getElem hlt

end Windows

end IOBuffer

end Blueth.Io
