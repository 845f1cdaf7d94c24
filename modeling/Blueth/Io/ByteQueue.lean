/-
# Blueth.Io.ByteQueue — an `IOBuffer` is a byte queue (`io/IOBuffer.hpp`).

What the class is for: bytes are appended behind, taken off in front (they have been sent or parsed) and
sometimes behind, and everything can be dropped at once. `Op.onQueue` says that on a list of bytes,
`RawIOBuffer.perform` is the code. `Permits` is the contract of a call: sizes that `size_t` can hold and
offsets that stay inside the window.

The refinement is stated over whole runs. `calls` lets any sequence of permitted calls happen, each with
an allocator that may refuse, and records which of them returned and which threw. Whatever the run, the
window is the fold of the calls that returned, and the next permitted call is back after at most one
recursive call, without a write outside the allocation.
-/
import Blueth.Io.RawBuffer
import Blueth.Transition.System

set_option autoImplicit false

namespace Blueth.Io

open Blueth.Transition (System)

/-- The calls that make an `IOBuffer` a queue; `reserve()` is `reserve 0`. -/
inductive Op where
  | appendRawBytes (data : List UInt8)
  | modifyStartOffset (offsetLen : Int32)
  | modifyEndOffset (offsetLen : Int32)
  | clear
  | reserve (memSize : UInt64)
  deriving DecidableEq, Repr

/-- **The queue.** What each call does to the bytes that are waiting. -/
def Op.onQueue : Op → List UInt8 → List UInt8
  | .appendRawBytes data, q => q ++ data
  | .modifyStartOffset offsetLen, q => q.drop offsetLen.toInt.toNat
  | .modifyEndOffset offsetLen, q => q.take (q.length - (-offsetLen.toInt).toNat)
  | .clear, _ => []
  | .reserve _, q => q

namespace RawIOBuffer

/-- The call itself. -/
def perform (depth : ℕ) (grants : ℕ → Grant) (b : RawIOBuffer) : Op → Call RawIOBuffer
  | .appendRawBytes data => appendRawBytes depth grants b data
  | .modifyStartOffset offsetLen => .returned (b.modifyStartOffset offsetLen)
  | .modifyEndOffset offsetLen => .returned (b.modifyEndOffset offsetLen)
  | .clear => .returned b.clear
  | .reserve memSize => reserve (grants 0) b memSize

/-- The contract of a call: a requested size stays below `2^64`, an offset moves inside the window. -/
def Permits (b : RawIOBuffer) : Op → Prop
  | .appendRawBytes data =>
    data.length < 2 ^ 64 ∧
      (b.getAvailableSpace.toNat < data.length → b.capacity.toNat + data.length < 2 ^ 64)
  | .modifyStartOffset offsetLen => 0 ≤ offsetLen.toInt ∧ offsetLen.toInt ≤ b.getDataSize.toNat
  | .modifyEndOffset offsetLen => offsetLen.toInt ≤ 0 ∧ -offsetLen.toInt ≤ b.getDataSize.toNat
  | .clear => True
  | .reserve memSize => if memSize = 0 then b.capacity.toNat * 2 < 2 ^ 64 else b.endOffset ≤ memSize

/-- Whether the call asks the allocator for memory. -/
def Allocates (b : RawIOBuffer) : Op → Prop
  | .appendRawBytes data => b.getAvailableSpace.toNat < data.length
  | .reserve _ => True
  | _ => False

instance (b : RawIOBuffer) : (op : Op) → Decidable (b.Permits op)
  | .appendRawBytes data =>
    inferInstanceAs (Decidable (data.length < 2 ^ 64 ∧
      (b.getAvailableSpace.toNat < data.length → b.capacity.toNat + data.length < 2 ^ 64)))
  | .modifyStartOffset k =>
    inferInstanceAs (Decidable (0 ≤ k.toInt ∧ k.toInt ≤ b.getDataSize.toNat))
  | .modifyEndOffset k =>
    inferInstanceAs (Decidable (k.toInt ≤ 0 ∧ -k.toInt ≤ b.getDataSize.toNat))
  | .clear => inferInstanceAs (Decidable True)
  | .reserve memSize =>
    inferInstanceAs
      (Decidable (if memSize = 0 then b.capacity.toNat * 2 < 2 ^ 64 else b.endOffset ≤ memSize))

/-- The invariant of a buffer created with a positive capacity. -/
structure Usable (b : RawIOBuffer) : Prop where
  wellFormed : b.WellFormed
  capacity_pos : 0 < b.capacity.toNat

/-! ## One call -/

section OneCall

variable {b : RawIOBuffer} {op : Op}

theorem allocates_append_iff (h : b.WellFormed) {data : List UInt8} :
    b.Allocates (.appendRawBytes data) ↔ b.capacity.toNat < b.endOffset.toNat + data.length := by
  have h1 := endOffset_le h
  show b.getAvailableSpace.toNat < data.length ↔ _
  rw [toNat_getAvailableSpace h]
  omega

/-- **An append that gets the memory it may need**, on any well-formed buffer: two calls deep is enough. -/
theorem append_returns (h : b.WellFormed) {data : List UInt8} (hp : b.Permits (.appendRawBytes data))
    {grants : ℕ → Grant} (hg : b.Allocates (.appendRawBytes data) → grants 0 ≠ none) :
    ∃ b', (∀ depth, appendRawBytes (depth + 2) grants b data = .returned b') ∧ b'.WellFormed ∧
      b'.data = b.data ++ data ∧ b.capacity.toNat ≤ b'.capacity.toNat := by
  by_cases hfit : b.endOffset.toNat + data.length ≤ b.capacity.toNat
  · obtain ⟨b', hb', hwf', hdata, -, hcap⟩ := copyToEnd_spec _ h hfit
    refine ⟨b', ?_, hwf', hdata, Nat.le_of_eq (by rw [hcap])⟩
    intro depth
    exact (appendRawBytes_of_fits h hp.1 hfit (depth + 1) grants).trans hb'
  · have ha : b.Allocates (.appendRawBytes data) := (allocates_append_iff h).mpr (by omega)
    obtain ⟨junk, hjunk⟩ := Option.ne_none_iff_exists'.mp (hg ha)
    have hsize := hp.2 ha
    have hm := toNat_capacity_add hsize
    have hend := endOffset_le h
    have hle : b.endOffset ≤ b.capacity + UInt64.ofNat data.length := by
      rw [UInt64.le_iff_toNat_le, hm]
      omega
    have hroom : (b.grown (b.capacity + UInt64.ofNat data.length) junk).endOffset.toNat + data.length
        ≤ (b.grown (b.capacity + UInt64.ofNat data.length) junk).capacity.toNat := by
      show b.endOffset.toNat + data.length ≤ (b.capacity + UInt64.ofNat data.length).toNat
      omega
    obtain ⟨b', hb', hwf', hdata, -, hcap⟩ := copyToEnd_spec _ (wellFormed_grown h hle junk) hroom
    refine ⟨b', ?_, hwf', ?_, ?_⟩
    · intro depth
      exact (appendRawBytes_granted h (by omega) hsize hjunk depth).trans hb'
    · rw [hdata, data_grown h hle junk]
    · rw [hcap]
      show b.capacity.toNat ≤ (b.capacity + UInt64.ofNat data.length).toNat
      omega

theorem append_refused (h : b.WellFormed) {data : List UInt8} (hp : b.Permits (.appendRawBytes data))
    (ha : b.Allocates (.appendRawBytes data)) {grants : ℕ → Grant} (hg : grants 0 = none)
    (depth : ℕ) : appendRawBytes (depth + 1) grants b data = .badAlloc b :=
  appendRawBytes_refused h ((allocates_append_iff h).mp ha) (hp.2 ha) hg depth

/-- Everything a permitted append can do, however deep it is followed. -/
theorem append_cases (h : b.WellFormed) {data : List UInt8} (hp : b.Permits (.appendRawBytes data))
    (depth : ℕ) (grants : ℕ → Grant) :
    appendRawBytes depth grants b data = .calling ∨ appendRawBytes depth grants b data = .badAlloc b ∨
      ∃ b', appendRawBytes depth grants b data = .returned b' ∧ b'.WellFormed ∧
        b'.data = b.data ++ data := by
  by_cases hback : appendRawBytes depth grants b data = .calling
  · exact .inl hback
  · right
    rw [← appendRawBytes_mono hback 2]
    by_cases hg : b.Allocates (.appendRawBytes data) ∧ grants 0 = none
    · exact .inl (append_refused h hp hg.1 hg.2 (depth + 1))
    · obtain ⟨b', hb', hwf', hdata, -⟩ := append_returns h hp (fun ha h0 => hg ⟨ha, h0⟩)
      exact .inr ⟨b', hb' depth, hwf', hdata⟩

/-- The size a permitted `reserve` ends up asking for: not zero, and not below `end_offset_`. -/
theorem exists_reserve_size (h : b.Usable) {memSize : UInt64} (hp : b.Permits (.reserve memSize)) :
    ∃ m, m ≠ 0 ∧ b.endOffset ≤ m ∧ 0 < m.toNat ∧ ∀ grant, reserve grant b memSize = reserve grant b m := by
  have hend := endOffset_le h.wellFormed
  have hpos := h.capacity_pos
  by_cases hm : memSize = 0
  · have hlt : b.capacity.toNat * 2 < 2 ^ 64 := by simpa [Permits, hm] using hp
    have hdouble : (b.capacity * 2).toNat = b.capacity.toNat * 2 := by
      rw [UInt64.toNat_mul]
      show b.capacity.toNat * 2 % 2 ^ 64 = _
      omega
    have hne : b.capacity * 2 ≠ 0 := ne_zero_of_toNat_pos (by omega)
    refine ⟨b.capacity * 2, hne, ?_, by omega, ?_⟩
    · rw [UInt64.le_iff_toNat_le]
      omega
    · intro grant
      rw [hm, reserve_zero hne]
  · have hle : b.endOffset ≤ memSize := by simpa [Permits, hm] using hp
    refine ⟨memSize, hm, hle, ?_, fun grant => rfl⟩
    rw [eq_zero_iff_toNat] at hm
    omega

theorem perform_mono {depth : ℕ} {grants : ℕ → Grant} (h : b.perform depth grants op ≠ .calling)
    (k : ℕ) : b.perform (depth + k) grants op = b.perform depth grants op := by
  cases op with
  | appendRawBytes data => exact appendRawBytes_mono h k
  | modifyStartOffset n => rfl
  | modifyEndOffset n => rfl
  | clear => rfl
  | reserve memSize => rfl

/-- **A refused allocation.** `bad_alloc` is thrown before anything has changed. -/
theorem perform_refused (h : b.Usable) (hp : b.Permits op) (ha : b.Allocates op) {grants : ℕ → Grant}
    (hg : grants 0 = none) (depth : ℕ) : b.perform (depth + 1) grants op = .badAlloc b := by
  cases op with
  | appendRawBytes data => exact append_refused h.wellFormed hp ha hg depth
  | reserve memSize =>
      obtain ⟨m, hne, -, -, heq⟩ := exists_reserve_size h hp
      show reserve (grants 0) b memSize = .badAlloc b
      rw [heq, hg, reserve_refused hne]
  | modifyStartOffset k => exact ha.elim
  | modifyEndOffset k => exact ha.elim
  | clear => exact ha.elim

/-- **A call that gets the memory it asks for** returns, and does to the window what it does to the
queue. Two calls deep is enough: the outer one and one recursive one. -/
theorem perform_returns (h : b.Usable) (hp : b.Permits op) {grants : ℕ → Grant}
    (hg : b.Allocates op → grants 0 ≠ none) :
    ∃ b', (∀ depth, b.perform (depth + 2) grants op = .returned b') ∧ b'.Usable ∧
      b'.data = op.onQueue b.data := by
  have hwf := h.wellFormed
  have hpos := h.capacity_pos
  cases op with
  | appendRawBytes data =>
      obtain ⟨b', hb', hwf', hdata, hcap⟩ := append_returns hwf hp hg
      exact ⟨b', hb', ⟨hwf', by omega⟩, hdata⟩
  | modifyStartOffset k =>
      obtain ⟨hwf', hdata⟩ := modifyStartOffset_spec hwf hp.1 hp.2
      exact ⟨_, fun _ => rfl, ⟨hwf', hpos⟩, hdata⟩
  | modifyEndOffset k =>
      obtain ⟨hwf', hdata⟩ := modifyEndOffset_spec hwf hp.1 hp.2
      exact ⟨_, fun _ => rfl, ⟨hwf', hpos⟩, hdata⟩
  | clear =>
      obtain ⟨hwf', hdata⟩ := clear_spec hwf
      exact ⟨_, fun _ => rfl, ⟨hwf', hpos⟩, hdata⟩
  | reserve memSize =>
      obtain ⟨m, hne, hle, hmpos, heq⟩ := exists_reserve_size h hp
      obtain ⟨junk, hjunk⟩ := Option.ne_none_iff_exists'.mp (hg trivial)
      refine ⟨b.grown m junk, ?_, ⟨wellFormed_grown hwf hle junk, hmpos⟩, data_grown hwf hle junk⟩
      intro depth
      show reserve (grants 0) b memSize = _
      rw [heq, hjunk, reserve_granted hne]

/-- Everything a permitted call can do, however deep it is followed. -/
theorem perform_cases (h : b.Usable) (hp : b.Permits op) (depth : ℕ) (grants : ℕ → Grant) :
    b.perform depth grants op = .calling ∨ b.perform depth grants op = .badAlloc b ∨
      ∃ b', b.perform depth grants op = .returned b' ∧ b'.Usable ∧ b'.data = op.onQueue b.data := by
  by_cases hback : b.perform depth grants op = .calling
  · exact .inl hback
  · right
    rw [← perform_mono hback 2]
    by_cases hg : b.Allocates op ∧ grants 0 = none
    · exact .inl (perform_refused h hp hg.1 hg.2 (depth + 1))
    · obtain ⟨b', hb', hu, hdata⟩ := perform_returns h hp (fun ha h0 => hg ⟨ha, h0⟩)
      exact .inr ⟨b', hb' depth, hu, hdata⟩

end OneCall

end RawIOBuffer

/-! ## Runs -/

/-- A call that happened, and how it ended. -/
inductive Event where
  | returned (op : Op)
  | threw (op : Op)

/-- What an event does to the queue: a call that threw did nothing. -/
def Event.onQueue (q : List UInt8) : Event → List UInt8
  | .returned op => op.onQueue q
  | .threw _ => q

/-- Any permitted calls, in any order, the allocator answering as it likes. -/
def calls : System RawIOBuffer Event where
  init b := ∃ grant capacity, 0 < capacity ∧ RawIOBuffer.create grant capacity = .returned b
  next b e b' :=
    match e with
    | .returned op => b.Permits op ∧ ∃ depth grants, b.perform depth grants op = .returned b'
    | .threw op => b.Permits op ∧ ∃ depth grants, b.perform depth grants op = .badAlloc b'

open RawIOBuffer

/-- A constructor that returns leaves an empty, well-formed buffer; also with a capacity of 0. -/
theorem wellFormed_of_create {grant : Grant} {capacity : UInt64} {b : RawIOBuffer}
    (hb : create grant capacity = .returned b) : b.WellFormed ∧ b.data = [] ∧ b.capacity = capacity := by
  have hfresh : fresh.WellFormed := by decide
  have hle : fresh.endOffset ≤ capacity := by
    rw [UInt64.le_iff_toNat_le]
    exact Nat.zero_le _
  have hsize : (if capacity = 0 then fresh.capacity * 2 else capacity) = capacity := by
    split
    · rename_i h0
      rw [h0]
      rfl
    · rfl
  have hnull : ¬ (capacity = 0 ∧ fresh.internalBuffer.isSome) := fun h => by cases h.2
  simp only [create, reserve, hsize, if_neg hnull] at hb
  cases grant with
  | none => cases hb
  | some junk =>
      cases hb
      exact ⟨wellFormed_grown hfresh hle junk, data_grown hfresh hle junk, rfl⟩

/-- One event, seen on the queue. -/
theorem calls_step {b b' : RawIOBuffer} {e : Event} (h : b.Usable) (hn : calls.next b e b') :
    b'.Usable ∧ b'.data = e.onQueue b.data := by
  cases e with
  | returned op =>
      obtain ⟨hp, depth, grants, heq⟩ := hn
      rcases perform_cases h hp depth grants with hc | hc | ⟨b'', hc, hu, hdata⟩ <;> rw [hc] at heq
      · cases heq
      · cases heq
      · cases heq
        exact ⟨hu, hdata⟩
  | threw op =>
      obtain ⟨hp, depth, grants, heq⟩ := hn
      rcases perform_cases h hp depth grants with hc | hc | ⟨b'', hc, -, -⟩ <;> rw [hc] at heq
      · cases heq
      · cases heq
        exact ⟨h, rfl⟩
      · cases heq

/-- **An `IOBuffer` refines a byte queue.** After any run of permitted calls on a buffer created with a
positive capacity: the representation invariant holds, the window is the queue of the calls that
returned, and the next permitted call, whatever the allocator answers it, either is refused its memory
and throws with the buffer as it was, or returns a buffer whose window is the queue after it. Neither
takes more than one recursive call. -/
theorem buffer_refines_queue {b₀ b : RawIOBuffer} {events : List Event} (h₀ : calls.init b₀)
    (hrun : calls.Run b₀ events b) :
    b.WellFormed ∧ b.data = events.foldl Event.onQueue [] ∧
      ∀ op, b.Permits op → ∀ grants : ℕ → Grant,
        (b.Allocates op ∧ grants 0 = none → ∀ depth, b.perform (depth + 2) grants op = .badAlloc b) ∧
        (¬ (b.Allocates op ∧ grants 0 = none) →
          ∃ b', (∀ depth, b.perform (depth + 2) grants op = .returned b') ∧ b'.WellFormed ∧
            b'.data = op.onQueue b.data) := by
  obtain ⟨grant, capacity, hpos, hb₀⟩ := h₀
  obtain ⟨hwf₀, hdata₀, hcap₀⟩ := wellFormed_of_create hb₀
  have hu₀ : b₀.Usable := ⟨hwf₀, by rw [hcap₀]; exact UInt64.lt_iff_toNat_lt.mp hpos⟩
  have key : b.Usable ∧ b.data = events.foldl Event.onQueue [] := by
    apply hrun.foldl_spec (R := fun b q => b.Usable ∧ b.data = q) _ ⟨hu₀, hdata₀⟩
    intro b e b' q hq hn
    obtain ⟨hu, hdata⟩ := calls_step hq.1 hn
    exact ⟨hu, by rw [hdata, hq.2]⟩
  refine ⟨key.1.wellFormed, key.2, ?_⟩
  intro op hp grants
  constructor
  · intro hg depth
    exact perform_refused key.1 hp hg.1 hg.2 (depth + 1)
  · intro hg
    obtain ⟨b', hb', hu, hdata⟩ := perform_returns key.1 hp (fun ha h0 => hg ⟨ha, h0⟩)
    exact ⟨b', hb', hu.wellFormed, hdata⟩

/-- A run that fills a buffer of 4 bytes, consumes one, and grows it: 2 bytes, then 4 more. -/
theorem buffer_refines_queue_growing :
    ∃ b, calls.Run (fresh.grown 4 fun _ => 0)
        [.returned (.appendRawBytes [1, 2]), .returned (.modifyStartOffset 1),
          .threw (.appendRawBytes [9, 9, 9]), .returned (.appendRawBytes [3, 4, 5, 6])] b ∧
      b.capacity = 8 ∧ b.WellFormed ∧ b.data = [2, 3, 4, 5, 6] := by
  let zeros : ℕ → Grant := fun _ => some fun _ => 0
  let b : RawIOBuffer := ⟨some [1, 2, 3, 4, 5, 6, 0, 0], 1, 6, 8⟩
  have hrun : calls.Run (fresh.grown 4 fun _ => 0)
      [.returned (.appendRawBytes [1, 2]), .returned (.modifyStartOffset 1),
        .threw (.appendRawBytes [9, 9, 9]), .returned (.appendRawBytes [3, 4, 5, 6])] b := by
    have h1 : calls.next (fresh.grown 4 fun _ => 0) (.returned (.appendRawBytes [1, 2]))
        ⟨some [1, 2, 0, 0], 0, 2, 4⟩ := ⟨by decide, 2, zeros, by decide⟩
    have h2 : calls.next ⟨some [1, 2, 0, 0], 0, 2, 4⟩ (.returned (.modifyStartOffset 1))
        ⟨some [1, 2, 0, 0], 1, 2, 4⟩ := ⟨by decide, 2, zeros, by decide⟩
    have h3 : calls.next ⟨some [1, 2, 0, 0], 1, 2, 4⟩ (.threw (.appendRawBytes [9, 9, 9]))
        ⟨some [1, 2, 0, 0], 1, 2, 4⟩ := ⟨by decide, 2, fun _ => none, by decide⟩
    have h4 : calls.next ⟨some [1, 2, 0, 0], 1, 2, 4⟩ (.returned (.appendRawBytes [3, 4, 5, 6])) b :=
      ⟨by decide, 2, zeros, by decide⟩
    exact .cons h1 (.cons h2 (.cons h3 (.single h4)))
  have h₀ : calls.init (fresh.grown 4 fun _ => 0) := ⟨some fun _ => 0, 4, by decide, by decide⟩
  have h := buffer_refines_queue h₀ hrun
  exact ⟨b, hrun, rfl, h.1, h.2.1⟩

end Blueth.Io
