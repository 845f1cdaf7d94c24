/-
# Blueth.Io.BufferBlocks — which blocks of the heap the buffers of a program hold (`io/IOBuffer.hpp`).

`Blueth.Io.RawBuffer` has the bytes of a block and not its address. Here a buffer has both, and the allocator
keeps a record (`Entry`, latest first): `realloc` hands a block out, the old one back, and the destructor hands
back what the object still holds. `reserve` looks at nothing but the null pointer it is returned, and throws
`std::bad_alloc` with `internal_buffer_` as it was. That is right when `realloc` has no memory, since the old
block is then still there. When the size is 0 the block may be gone: the C library may free it and return null.
The size is 0 when `capacity_` is doubled and was 0, as it is after `create(0)` and, though there are bytes in the
block, in the target of a move.

Every other operation on any number of buffers keeps the blocks and the objects together, one to one.
-/
import Blueth.Io.BufferObjects
import Blueth.Transition.Custody

set_option autoImplicit false

namespace Blueth.Io

open Blueth.Transition

/-! ## One buffer and its block -/

/-- The answer of `realloc(old, size)`. -/
inductive ReallocAnswer where
  /-- a block at this address, and what it happens to hold beyond the old bytes -/
  | granted (address : ℕ) (junk : ℕ → UInt8)
  /-- null; the old block is as it was -/
  | refused
  /-- null; the size is 0 and the old block is freed -/
  | freed

/-- A buffer, with the address of its block. -/
structure HeapBuffer where
  buffer : RawIOBuffer
  address : ℕ
  deriving DecidableEq

/-- How a call ends: it returns or throws `std::bad_alloc`, with the buffer and the record it leaves. -/
structure HeapCall where
  threw : Bool
  object : HeapBuffer
  record : List (Entry ℕ)

namespace HeapBuffer

/-- The block behind `internal_buffer_`. -/
def holds (o : HeapBuffer) : Option ℕ := o.buffer.internalBuffer.map fun _ => o.address

/-- `free(internal_buffer_)`, or `realloc` moving on from it, if it is not null. -/
def released (o : HeapBuffer) (record : List (Entry ℕ)) : List (Entry ℕ) :=
  match o.holds with
  | some address => .handedBack address :: record
  | none => record

/-- `reserve(mem_size)`. An answer that `realloc` does not give makes no call. -/
def reserve (answer : ReallocAnswer) (o : HeapBuffer) (memSize : UInt64) (record : List (Entry ℕ)) :
    Option HeapCall :=
  let memSize := if memSize = 0 then o.buffer.capacity * 2 else memSize
  match answer with
  | .granted address junk =>
    if address ∈ Entry.out (o.released record) then none
    else some ⟨false, ⟨o.buffer.grown memSize junk, address⟩, .handedOut address :: o.released record⟩
  | .refused => some ⟨true, o, record⟩
  | .freed => if memSize = 0 ∧ o.holds.isSome then some ⟨true, o, o.released record⟩ else none

/-- The fast path of both overloads of `appendRawBytes`. -/
def copyToEnd (o : HeapBuffer) (bytes : List UInt8) (record : List (Entry ℕ)) : Option HeapCall :=
  match o.buffer.copyToEnd bytes with
  | .returned b => some ⟨false, ⟨b, o.address⟩, record⟩
  | _ => none

/-- An overload of `appendRawBytes`, with the answers of its calls of `realloc`, all of them and no more: if the
bytes fit they are copied, else `reserve` is called, and then the function itself. -/
def appending (fits : HeapBuffer → Bool) (memSize : HeapBuffer → UInt64)
    (bytes : HeapBuffer → Option (List UInt8)) :
    List ReallocAnswer → HeapBuffer → List (Entry ℕ) → Option HeapCall
  | [], o, record => if fits o then (bytes o).bind fun data => o.copyToEnd data record else none
  | answer :: answers, o, record =>
    if fits o then none
    else
      (o.reserve answer (memSize o) record).bind fun r =>
        if r.threw then (if answers.isEmpty then some r else none)
        else appending fits memSize bytes answers r.object r.record

/-- `appendRawBytes(data, size)`. -/
def appendRawBytes (answers : List ReallocAnswer) (o : HeapBuffer) (data : List UInt8)
    (record : List (Entry ℕ)) : Option HeapCall :=
  appending (fun o => o.buffer.getAvailableSpace ≥ UInt64.ofNat data.length)
    (fun o => o.buffer.capacity + UInt64.ofNat data.length) (fun _ => some data) answers o record

/-- `appendRawBytes(io_buffer)`; without a source the buffer is appended to itself. -/
def appendBuffer (answers : List ReallocAnswer) (o : HeapBuffer) (source : Option RawIOBuffer)
    (record : List (Entry ℕ)) : Option HeapCall :=
  appending (fun o => (source.getD o.buffer).getDataSize ≤ o.buffer.getAvailableSpace)
    (fun o => (source.getD o.buffer).capacity) (fun o => (source.getD o.buffer).readData) answers o record

end HeapBuffer

/-! ### The same calls without addresses -/

/-- What `Blueth.Io.RawBuffer` sees of an answer. -/
def ReallocAnswer.grant : ReallocAnswer → Grant
  | .granted _ junk => some junk
  | _ => none

/-- And of a call. -/
def HeapCall.outcome (r : HeapCall) : Call RawIOBuffer :=
  if r.threw then .badAlloc r.object.buffer else .returned r.object.buffer

def grantsOf (answers : List ReallocAnswer) (i : ℕ) : Grant := (answers[i]?).bind ReallocAnswer.grant

section Agreement

variable {o : HeapBuffer} {record : List (Entry ℕ)} {r : HeapCall} {memSize : UInt64}

/-- Where a size of 0 is not asked of `realloc`, the call is the one on the bytes. -/
theorem reserve_agrees {answer : ReallocAnswer} (h : o.reserve answer memSize record = some r)
    (hraw : RawIOBuffer.reserve answer.grant o.buffer memSize ≠ .fault) :
    RawIOBuffer.reserve answer.grant o.buffer memSize = r.outcome := by
  have hsize : ¬ ((if memSize = 0 then o.buffer.capacity * 2 else memSize) = 0 ∧
      o.buffer.internalBuffer.isSome) := fun hzero => hraw (if_pos hzero)
  have heq : RawIOBuffer.reserve answer.grant o.buffer memSize = _ := if_neg hsize
  rw [heq]
  cases answer with
  | granted address junk =>
      obtain ⟨-, heq⟩ := Option.ite_none_left_eq_some.mp h
      cases heq
      rfl
  | refused =>
      cases h
      rfl
  | freed =>
      obtain ⟨hzero, -⟩ := Option.ite_none_right_eq_some.mp h
      rw [HeapBuffer.holds, Option.isSome_map] at hzero
      exact absurd hzero hsize

theorem copyToEnd_agrees {bytes : List UInt8} (h : o.copyToEnd bytes record = some r) :
    o.buffer.copyToEnd bytes = r.outcome := by
  unfold HeapBuffer.copyToEnd at h
  split at h
  · rename_i b hb
    cases h
    exact hb
  · cases h

theorem appendRawBytes_agrees {data : List UInt8} {answers : List ReallocAnswer}
    (h : o.appendRawBytes answers data record = some r)
    (hraw : RawIOBuffer.appendRawBytes (answers.length + 1) (grantsOf answers) o.buffer data ≠ .fault) :
    RawIOBuffer.appendRawBytes (answers.length + 1) (grantsOf answers) o.buffer data = r.outcome := by
  induction answers generalizing o record with
  | nil =>
      obtain ⟨hfits, hcopy⟩ := Option.ite_none_right_eq_some.mp h
      rw [RawIOBuffer.appendRawBytes, if_pos (of_decide_eq_true hfits)]
      exact copyToEnd_agrees hcopy
  | cons answer answers ih =>
      obtain ⟨hfull, hreserve⟩ := Option.ite_none_left_eq_some.mp h
      obtain ⟨r', hr', hrest⟩ := Option.bind_eq_some_iff.mp hreserve
      have hslow : ¬ o.buffer.getAvailableSpace ≥ UInt64.ofNat data.length :=
        fun hfits => hfull (decide_eq_true hfits)
      have hstep : RawIOBuffer.appendRawBytes ((answer :: answers).length + 1) (grantsOf (answer :: answers))
          o.buffer data =
            (RawIOBuffer.reserve answer.grant o.buffer (o.buffer.capacity + UInt64.ofNat data.length)).andThen
              fun b => RawIOBuffer.appendRawBytes (answers.length + 1) (grantsOf answers) b data := if_neg hslow
      rw [hstep] at hraw ⊢
      have hreserved := reserve_agrees hr' fun hfault => hraw (by rw [hfault]; rfl)
      rw [hreserved] at hraw ⊢
      cases hthrew : r'.threw with
      | true =>
          rw [if_pos hthrew] at hrest
          obtain ⟨-, heq⟩ := Option.ite_none_right_eq_some.mp hrest
          cases heq
          simp only [HeapCall.outcome, hthrew, if_true, Call.andThen_badAlloc]
      | false =>
          rw [hthrew, if_neg Bool.false_ne_true] at hrest
          simp only [HeapCall.outcome, hthrew, Bool.false_eq_true, if_false, Call.andThen_returned] at hraw ⊢
          exact ih hrest hraw

/-- The source of an append, with the target standing in for itself. -/
theorem getD_source {ι : Type*} [DecidableEq ι] {objs : ι → RawIOBuffer} {dst src : ι} {b : RawIOBuffer}
    (hdst : objs dst = b) : (if src = dst then none else some (objs src)).getD b = objs src := by
  split
  · rename_i heq
    rw [heq, hdst]
    rfl
  · rfl

/-- A source that is not the target is not changed with it. -/
theorem source_update {ι : Type*} [DecidableEq ι] (objs : ι → RawIOBuffer) (dst src : ι) (b : RawIOBuffer) :
    (if src = dst then none else some (Function.update objs dst b src)) =
      if src = dst then none else some (objs src) := by
  split
  · rfl
  · rename_i hne
    rw [Function.update_of_ne hne]

/-- The overload for buffers, on the family `Blueth.Io.BufferObjects` has it on. -/
theorem appendBuffer_agrees {ι : Type*} [DecidableEq ι] {objs : ι → RawIOBuffer} {dst src : ι}
    {answers : List ReallocAnswer} (hdst : objs dst = o.buffer)
    (h : o.appendBuffer answers (if src = dst then none else some (objs src)) record = some r)
    (hraw : appendBuffer (answers.length + 1) (grantsOf answers) objs dst src ≠ .fault) :
    appendBuffer (answers.length + 1) (grantsOf answers) objs dst src =
      r.outcome.map (Function.update objs dst) := by
  induction answers generalizing o record objs with
  | nil =>
      obtain ⟨hfits, hcopy⟩ := Option.ite_none_right_eq_some.mp h
      rw [decide_eq_true_iff, getD_source hdst, ← hdst] at hfits
      obtain ⟨bytes, hread, hcopied⟩ := Option.bind_eq_some_iff.mp hcopy
      dsimp only at hread
      rw [getD_source hdst] at hread
      have hstep : appendBuffer ([] : List ReallocAnswer).length.succ (grantsOf []) objs dst src = _ :=
        if_pos hfits
      rw [hstep, hread]
      dsimp only
      rw [hdst, copyToEnd_agrees hcopied]
  | cons answer answers ih =>
      obtain ⟨hfull, hreserve⟩ := Option.ite_none_left_eq_some.mp h
      obtain ⟨r', hr', hrest⟩ := Option.bind_eq_some_iff.mp hreserve
      rw [decide_eq_true_iff, getD_source hdst, ← hdst] at hfull
      dsimp only at hr'
      rw [getD_source hdst] at hr'
      have hstep : appendBuffer ((answer :: answers).length + 1) (grantsOf (answer :: answers)) objs dst src =
          ((RawIOBuffer.reserve answer.grant o.buffer (objs src).capacity).map (Function.update objs dst)).andThen
            fun objs' => appendBuffer (answers.length + 1) (grantsOf answers) objs' dst src := by
        rw [← hdst]
        exact if_neg hfull
      rw [hstep] at hraw ⊢
      have hreserved := reserve_agrees hr' fun hfault => hraw (by rw [hfault]; rfl)
      rw [hreserved] at hraw ⊢
      cases hthrew : r'.threw with
      | true =>
          rw [if_pos hthrew] at hrest
          obtain ⟨-, heq⟩ := Option.ite_none_right_eq_some.mp hrest
          cases heq
          simp only [HeapCall.outcome, hthrew, if_true, Call.map, Call.andThen_badAlloc]
      | false =>
          rw [hthrew, if_neg Bool.false_ne_true] at hrest
          simp only [HeapCall.outcome, hthrew, Bool.false_eq_true, if_false, Call.map,
            Call.andThen_returned] at hraw ⊢
          have hsame := source_update objs dst src r'.object.buffer
          rw [ih (Function.update_self ..) (hsame ▸ hrest) hraw, HeapCall.outcome]
          split <;> simp only [Call.map, Function.update_idem]

end Agreement

/-! ## A program with buffers -/

/-- The functions that change an offset and nothing else. -/
inductive OffsetCall where
  | clear
  | setStartOffset (offsetLen : Int32)
  | modifyStartOffset (offsetLen : Int32)
  | setEndOffset (offsetLen : Int32)
  | modifyEndOffset (offsetLen : Int32)

def OffsetCall.perform (b : RawIOBuffer) : OffsetCall → RawIOBuffer
  | .clear => b.clear
  | .setStartOffset offsetLen => { b with startOffset := toSize offsetLen }
  | .modifyStartOffset offsetLen => b.modifyStartOffset offsetLen
  | .setEndOffset offsetLen => { b with endOffset := toSize offsetLen }
  | .modifyEndOffset offsetLen => b.modifyEndOffset offsetLen

/-- The objects that are alive, and the allocator's record. -/
structure BufferProgram (ι : Type*) where
  objects : ι → Option HeapBuffer
  record : List (Entry ℕ)

/-- What a program does with its buffers, and what the allocator answers. -/
inductive BufferAction (ι : Type*) where
  | create (target : ι) (capacity : UInt64) (answer : ReallocAnswer)
  | reserve (target : ι) (memSize : UInt64) (answer : ReallocAnswer)
  | appendRawBytes (target : ι) (data : List UInt8) (answers : List ReallocAnswer)
  | appendBuffer (target source : ι) (answers : List ReallocAnswer)
  | offset (target : ι) (call : OffsetCall)
  | moveConstruct (target source : ι)
  /-- `operator=(IOBuffer &&)`, where it comes back although it has no `return` -/
  | moveAssign (target source : ι)
  | destroy (target : ι)

/-- The answers of `realloc` during the action. -/
def BufferAction.answers {ι : Type*} : BufferAction ι → List ReallocAnswer
  | .create _ _ answer => [answer]
  | .reserve _ _ answer => [answer]
  | .appendRawBytes _ _ answers => answers
  | .appendBuffer _ _ answers => answers
  | _ => []

namespace BufferProgram

variable {ι : Type*} [DecidableEq ι]

/-- A call on an object has come back. -/
def called (p : BufferProgram ι) (target : ι) (call : Option HeapCall) : Option (BufferProgram ι) :=
  call.map fun r => ⟨Function.update p.objects target (some r.object), r.record⟩

/-- The three members of two objects exchanged. -/
def exchanged (p : BufferProgram ι) (target source : ι) (a b : HeapBuffer) : BufferProgram ι :=
  { p with
    objects := Function.update
      (Function.update p.objects target (some ⟨swapped a.buffer b.buffer, b.address⟩))
      source (some ⟨swapped b.buffer a.buffer, a.address⟩) }

/-- The program after one action, unless the objects are not there for it, it writes outside a block, or the
allocator does not answer so. -/
def act (p : BufferProgram ι) : BufferAction ι → Option (BufferProgram ι)
  | .create target capacity answer =>
    match p.objects target with
    | some _ => none
    | none =>
      -- a constructor that throws leaves no object
      (HeapBuffer.reserve answer ⟨.fresh, 0⟩ capacity p.record).map fun r =>
        ⟨if r.threw then p.objects else Function.update p.objects target (some r.object), r.record⟩
  | .reserve target memSize answer =>
    (p.objects target).bind fun o => p.called target (o.reserve answer memSize p.record)
  | .appendRawBytes target data answers =>
    (p.objects target).bind fun o => p.called target (o.appendRawBytes answers data p.record)
  | .appendBuffer target source answers =>
    (p.objects target).bind fun o => (p.objects source).bind fun o' =>
      p.called target (o.appendBuffer answers (if source = target then none else some o'.buffer) p.record)
  | .offset target call =>
    (p.objects target).bind fun o =>
      p.called target (some ⟨false, ⟨call.perform o.buffer, o.address⟩, p.record⟩)
  | .moveConstruct target source =>
    match p.objects target, p.objects source with
    | none, some o => some (p.exchanged target source ⟨.fresh, 0⟩ o)
    | _, _ => none
  | .moveAssign target source =>
    match p.objects target, p.objects source with
    | some t, some o => some (if t.buffer.internalBuffer.isNone then p.exchanged target source t o else p)
    | _, _ => none
  | .destroy target =>
    (p.objects target).map fun o => ⟨Function.update p.objects target none, o.released p.record⟩

/-- The blocks handed out and not handed back since. -/
def owned (p : BufferProgram ι) : Finset ℕ := Entry.out p.record

/-- The block a live object is going to hand back. -/
def held (p : BufferProgram ι) (i : ι) : Option ℕ := (p.objects i).bind HeapBuffer.holds

/-- **The blocks, at one moment.** -/
structure Accounted (p : BufferProgram ι) : Prop where
  /-- nothing was freed that was not allocated, or had been freed before -/
  exact : Entry.Exact p.record
  /-- the live blocks and the buffers with a block belong together, one to one -/
  held : HeldExactly p.held p.owned
  /-- when no buffer is left no block is -/
  settled : (∀ i, p.objects i = none) → p.owned = ∅

end BufferProgram

/-- **The system**: any number of buffers, in any order. -/
def blockUses (ι : Type*) [DecidableEq ι] : System (BufferProgram ι) (BufferAction ι) where
  init p := p = ⟨fun _ => none, []⟩
  next p action p' := p.act action = some p'

/-! ## What a call does to the block of its buffer -/

/-- The call deals for its buffer, whatever it does. -/
def HeapCall.Keeps (r : HeapCall) (o : HeapBuffer) (record : List (Entry ℕ)) : Prop :=
  Trades o.holds record r.object.holds r.record

/-- The last thing the call does is to free the block its buffer holds. -/
def HeapCall.Dangles (r : HeapCall) (o : HeapBuffer) (record : List (Entry ℕ)) : Prop :=
  ∃ address record', Trades o.holds record (some address) record' ∧ r.object.holds = some address ∧
    r.record = .handedBack address :: record'

namespace HeapBuffer

variable {o : HeapBuffer} {record : List (Entry ℕ)} {r : HeapCall} {memSize : UInt64} {answer : ReallocAnswer}

/-- What the object holds, it can hand back. -/
theorem released_trades (o : HeapBuffer) (record : List (Entry ℕ)) :
    Trades o.holds record none (o.released record) := by
  rw [released]
  cases o.holds with
  | none => exact .rest none record
  | some address => exact .gives address record

theorem reserve_keeps (h : o.reserve answer memSize record = some r) (ha : answer ≠ .freed) :
    r.Keeps o record := by
  cases answer with
  | granted address junk =>
      obtain ⟨hout, heq⟩ := Option.ite_none_left_eq_some.mp h
      cases heq
      exact .andThen (o.released_trades record) (.takes hout)
  | refused =>
      cases h
      exact .rest _ record
  | freed => exact absurd rfl ha

/-- Where there is no memory the record is as it was. -/
theorem record_of_threw (h : o.reserve answer memSize record = some r) (ha : answer ≠ .freed)
    (hthrew : r.threw = true) : r.record = record := by
  cases answer with
  | granted address junk =>
      obtain ⟨-, heq⟩ := Option.ite_none_left_eq_some.mp h
      cases heq
      cases hthrew
  | refused =>
      cases h
      rfl
  | freed => exact absurd rfl ha

theorem reserve_dangles (h : o.reserve .freed memSize record = some r) : r.threw = true ∧ r.Dangles o record := by
  obtain ⟨hlive, heq⟩ := Option.ite_none_right_eq_some.mp h
  cases heq
  obtain ⟨address, haddress⟩ := Option.isSome_iff_exists.mp hlive.2
  refine ⟨rfl, address, record, ?_, haddress, by rw [released, haddress]⟩
  rw [haddress]
  exact .rest _ record

theorem holds_eq {b : RawIOBuffer} (h : b.internalBuffer.isSome = o.buffer.internalBuffer.isSome) :
    holds ⟨b, o.address⟩ = o.holds := by
  unfold holds
  cases hb : b.internalBuffer <;> cases ho : o.buffer.internalBuffer <;> simp_all

/-- Bytes are copied into the block the buffer has. -/
theorem copyToEnd_keeps {bytes : List UInt8} (h : o.copyToEnd bytes record = some r) : r.Keeps o record := by
  unfold copyToEnd at h
  split at h
  · rename_i b hb
    cases h
    have hlive : b.internalBuffer.isSome = o.buffer.internalBuffer.isSome := by
      rw [RawIOBuffer.copyToEnd] at hb
      split at hb
      · cases hb
      · rename_i b' hw
        cases hb
        obtain ⟨block, -, rfl⟩ := Option.map_eq_some_iff.mp hw
        exact Option.isSome_map ..
    rw [HeapCall.Keeps, holds_eq hlive]
    exact .rest _ record
  · cases h

theorem appending_keeps {fits : HeapBuffer → Bool} {memSize : HeapBuffer → UInt64}
    {bytes : HeapBuffer → Option (List UInt8)} {answers : List ReallocAnswer}
    (h : appending fits memSize bytes answers o record = some r) (ha : ReallocAnswer.freed ∉ answers) :
    r.Keeps o record := by
  induction answers generalizing o record with
  | nil =>
      obtain ⟨-, hcopy⟩ := Option.ite_none_right_eq_some.mp h
      obtain ⟨data, -, hcopied⟩ := Option.bind_eq_some_iff.mp hcopy
      exact copyToEnd_keeps hcopied
  | cons answer answers ih =>
      obtain ⟨-, hreserve⟩ := Option.ite_none_left_eq_some.mp h
      obtain ⟨r', hr', hrest⟩ := Option.bind_eq_some_iff.mp hreserve
      rw [List.mem_cons, not_or] at ha
      have hkeeps := reserve_keeps hr' (Ne.symm ha.1)
      split at hrest
      · obtain ⟨-, heq⟩ := Option.ite_none_right_eq_some.mp hrest
        cases heq
        exact hkeeps
      · exact hkeeps.andThen (ih hrest ha.2)

theorem appending_dangles {fits : HeapBuffer → Bool} {memSize : HeapBuffer → UInt64}
    {bytes : HeapBuffer → Option (List UInt8)} {answers : List ReallocAnswer}
    (h : appending fits memSize bytes answers o record = some r) (ha : ReallocAnswer.freed ∈ answers) :
    r.Dangles o record := by
  induction answers generalizing o record with
  | nil => exact absurd ha List.not_mem_nil
  | cons answer answers ih =>
      obtain ⟨-, hreserve⟩ := Option.ite_none_left_eq_some.mp h
      obtain ⟨r', hr', hrest⟩ := Option.bind_eq_some_iff.mp hreserve
      by_cases hfreed : answer = .freed
      · subst hfreed
        obtain ⟨hthrew, hdangles⟩ := reserve_dangles hr'
        rw [if_pos hthrew] at hrest
        obtain ⟨-, heq⟩ := Option.ite_none_right_eq_some.mp hrest
        cases heq
        exact hdangles
      · have hmem := (List.mem_cons.mp ha).resolve_left (Ne.symm hfreed)
        have hkeeps := reserve_keeps hr' hfreed
        split at hrest
        · obtain ⟨hnil, -⟩ := Option.ite_none_right_eq_some.mp hrest
          rw [List.isEmpty_iff.mp hnil] at hmem
          exact absurd hmem List.not_mem_nil
        · obtain ⟨address, record', htrades, hholds, hrecord⟩ := ih hrest hmem
          exact ⟨address, record', hkeeps.andThen htrades, hholds, hrecord⟩

end HeapBuffer

/-! ## The accounts of a program -/

namespace BufferProgram

variable {ι : Type*} [DecidableEq ι] {p p' : BufferProgram ι} {action : BufferAction ι} {i target source : ι}
  {o : HeapBuffer} {r : HeapCall}

omit [DecidableEq ι] in
/-- The third clause follows from the others. -/
theorem accounted_iff : p.Accounted ↔ Entry.Exact p.record ∧ HeldExactly p.held p.owned := by
  constructor
  · exact fun h => ⟨h.exact, h.held⟩
  · rintro ⟨hexact, hheld⟩
    refine ⟨hexact, hheld, ?_⟩
    intro hnone
    apply Finset.eq_empty_of_forall_notMem
    apply hheld.once.not_mem
    intro i
    rw [held, hnone i, Option.bind_none]

theorem held_update (x : Option HeapBuffer) (record : List (Entry ℕ)) :
    held ⟨Function.update p.objects i x, record⟩ = Function.update p.held i (x.bind HeapBuffer.holds) :=
  Function.comp_update (fun x : Option HeapBuffer => x.bind HeapBuffer.holds) _ _ _

omit [DecidableEq ι] in
theorem held_of_objects {x : Option HeapBuffer} (h : p.objects i = x) : p.held i = x.bind HeapBuffer.holds := by
  rw [held, h]

/-- **An object deals for itself.** -/
theorem Accounted.trades (h : p.Accounted) {x : Option HeapBuffer} {record : List (Entry ℕ)}
    (ht : Trades (p.held i) p.record (x.bind HeapBuffer.holds) record) :
    Accounted ⟨Function.update p.objects i x, record⟩ := by
  obtain ⟨hexact, hheld⟩ := h.held.trades ht h.exact rfl
  rw [accounted_iff, held_update]
  exact ⟨hexact, hheld⟩

/-- A call that comes back, with all that it has been answered. -/
theorem Accounted.called_iff (h : p.Accounted) {answers : List ReallocAnswer} (ho : p.objects i = some o)
    (hkeeps : ReallocAnswer.freed ∉ answers → r.Keeps o p.record)
    (hdangles : ReallocAnswer.freed ∈ answers → r.Dangles o p.record) :
    Accounted ⟨Function.update p.objects i (some r.object), r.record⟩ ↔ ReallocAnswer.freed ∉ answers := by
  have hi : p.held i = o.holds := held_of_objects ho
  constructor
  · intro hnew hmem
    obtain ⟨address, record', -, hholds, hrecord⟩ := hdangles hmem
    have hheld := hnew.held
    rw [held_update, owned, hrecord] at hheld
    exact HeldExactly.not_erase ((Function.update_self ..).trans hholds) hheld
  · intro hmem
    apply h.trades
    rw [hi]
    exact hkeeps hmem

/-- **Two objects exchange what they hold.** -/
theorem Accounted.exchanged (h : p.Accounted) {a b : HeapBuffer} (ha : p.held target = a.holds)
    (hb : p.held source = b.holds) : (p.exchanged target source a b).Accounted := by
  have hheld : (p.exchanged target source a b).held = p.held ∘ Equiv.swap source target := by
    rw [Equiv.comp_swap_eq_update, ha, hb]
    exact (held_update (p := { p with objects := Function.update p.objects target _ }) _ _).trans
      (congrArg (Function.update · source a.holds) (held_update _ p.record))
  rw [accounted_iff, hheld]
  exact ⟨h.exact, heldExactly_comp_equiv _ h.held⟩

/-- **What an action does to the accounts.** -/
theorem Accounted.next_iff (h : p.Accounted) (hact : p.act action = some p') :
    p'.Accounted ↔ ReallocAnswer.freed ∉ action.answers := by
  cases action with
  | create target capacity answer =>
      simp only [act] at hact
      split at hact
      · cases hact
      · rename_i ho
        obtain ⟨r, hr, rfl⟩ := Option.map_eq_some_iff.mp hact
        have hspared : answer ≠ .freed := by
          rintro rfl
          exact absurd (Option.ite_none_right_eq_some.mp hr).1.2 Bool.false_ne_true
        refine iff_of_true ?_ fun ha => hspared (List.mem_singleton.mp ha).symm
        cases hthrew : r.threw with
        | false =>
            rw [if_neg Bool.false_ne_true]
            apply h.trades
            rw [held_of_objects ho]
            exact HeapBuffer.reserve_keeps hr hspared
        | true =>
            rw [if_pos rfl, HeapBuffer.record_of_threw hr hspared hthrew]
            exact h
  | reserve target memSize answer =>
      obtain ⟨o, ho, hcalled⟩ := Option.bind_eq_some_iff.mp hact
      obtain ⟨r, hr, rfl⟩ := Option.map_eq_some_iff.mp hcalled
      refine h.called_iff ho (fun ha => ?_) fun ha => ?_
      · exact HeapBuffer.reserve_keeps hr fun heq => ha (List.mem_singleton.mpr heq.symm)
      · cases List.mem_singleton.mp ha
        exact (HeapBuffer.reserve_dangles hr).2
  | appendRawBytes target data answers =>
      obtain ⟨o, ho, hcalled⟩ := Option.bind_eq_some_iff.mp hact
      obtain ⟨r, hr, rfl⟩ := Option.map_eq_some_iff.mp hcalled
      exact h.called_iff ho (HeapBuffer.appending_keeps hr) (HeapBuffer.appending_dangles hr)
  | appendBuffer target source answers =>
      obtain ⟨o, ho, hsource⟩ := Option.bind_eq_some_iff.mp hact
      obtain ⟨o', -, hcalled⟩ := Option.bind_eq_some_iff.mp hsource
      obtain ⟨r, hr, rfl⟩ := Option.map_eq_some_iff.mp hcalled
      exact h.called_iff ho (HeapBuffer.appending_keeps hr) (HeapBuffer.appending_dangles hr)
  | offset target call =>
      obtain ⟨o, ho, hcalled⟩ := Option.bind_eq_some_iff.mp hact
      cases hcalled
      refine h.called_iff ho (fun _ => ?_) fun ha => absurd ha List.not_mem_nil
      have hlive : (call.perform o.buffer).internalBuffer.isSome = o.buffer.internalBuffer.isSome := by
        cases call <;> rfl
      rw [HeapCall.Keeps, HeapBuffer.holds_eq hlive]
      exact .rest _ _
  | moveConstruct target source =>
      simp only [act] at hact
      split at hact
      · rename_i o ho ho'
        cases hact
        refine iff_of_true ?_ List.not_mem_nil
        exact h.exchanged (held_of_objects ho) (held_of_objects ho')
      · cases hact
  | moveAssign target source =>
      simp only [act] at hact
      split at hact
      · rename_i t o ht ho
        cases hact
        refine iff_of_true ?_ List.not_mem_nil
        split
        · exact h.exchanged (held_of_objects ht) (held_of_objects ho)
        · exact h
      · cases hact
  | destroy target =>
      obtain ⟨o, ho, rfl⟩ := Option.map_eq_some_iff.mp hact
      refine iff_of_true ?_ List.not_mem_nil
      apply h.trades
      rw [held_of_objects ho]
      exact o.released_trades p.record

theorem accounted_init (h : (blockUses ι).init p) : p.Accounted := by
  obtain rfl := h
  exact accounted_iff.mpr ⟨trivial, fun d hd => absurd hd (Finset.notMem_empty d), nofun⟩

end BufferProgram

/-! ## Runs -/

/-- **When the buffers keep their blocks.** In every run, over any number of buffers: all along, nothing is freed
that is not allocated, and the live blocks and the buffers that have one belong together one to one, exactly when
no `realloc` with a size of 0 has freed a block under its buffer. -/
theorem buffers_accounted_iff {ι : Type*} [DecidableEq ι] {p p' : BufferProgram ι}
    {actions : List (BufferAction ι)}
    (hinit : (blockUses ι).init p) (hr : (blockUses ι).Run p actions p') :
    (∀ before behind q, actions = before ++ behind → (blockUses ι).Run p before q → q.Accounted) ↔
      ∀ action ∈ actions, ReallocAnswer.freed ∉ action.answers := by
  have hall := System.Run.always_iff (I := BufferProgram.Accounted) (P := BufferProgram.Accounted)
    (C := fun _ (action : BufferAction ι) => ReallocAnswer.freed ∉ action.answers) (S := blockUses ι)
    (fun q action r u hr hu => Option.some.inj (hr.symm.trans hu))
    (fun q action r hq hstep hspared => (hq.next_iff hstep).mpr hspared)
    (fun q action r hq hstep hr => (hq.next_iff hstep).mp hr) (fun q hq => hq) hr
    (BufferProgram.accounted_init hinit)
  rw [hall, System.Run.only_iff]
  exact and_iff_right hr

/-- A buffer of 4 bytes is moved, and `reserve()` is called on the target. -/
def movedAndReserved : List (BufferAction ℕ) :=
  [.create 0 4 (.granted 100 fun _ => 0), .moveConstruct 1 0, .reserve 1 0 .freed, .destroy 1]

/-- **Its block is freed twice**, so the books were wrong before. -/
theorem buffers_accounted_iff_moved : ∃ p' : BufferProgram ℕ,
    (blockUses ℕ).Run ⟨fun _ => none, []⟩ movedAndReserved p' ∧
      p'.record = [.handedBack 100, .handedBack 100, .handedOut 100] ∧
      ¬ ∀ before behind q, movedAndReserved = before ++ behind →
        (blockUses ℕ).Run ⟨fun _ => none, []⟩ before q → q.Accounted := by
  let b : RawIOBuffer := RawIOBuffer.fresh.grown 4 fun _ => 0
  let made : BufferProgram ℕ :=
    ⟨Function.update (fun _ => none) 0 (some ⟨b, 100⟩), [.handedOut 100]⟩
  let moved : BufferProgram ℕ := made.exchanged 1 0 ⟨.fresh, 0⟩ ⟨b, 100⟩
  let dangling : BufferProgram ℕ :=
    ⟨Function.update moved.objects 1 (some ⟨swapped .fresh b, 100⟩), [.handedBack 100, .handedOut 100]⟩
  let freedTwice : BufferProgram ℕ :=
    ⟨Function.update dangling.objects 1 none, [.handedBack 100, .handedBack 100, .handedOut 100]⟩
  have hrun : (blockUses ℕ).Run ⟨fun _ => none, []⟩ movedAndReserved freedTwice := by
    refine .cons (t := made) rfl (.cons (t := moved) rfl (.cons (t := dangling) rfl (.single rfl)))
  refine ⟨freedTwice, hrun, rfl, ?_⟩
  intro hall
  have hspared := (buffers_accounted_iff rfl hrun).mp hall (.reserve 1 0 .freed) (by simp [movedAndReserved])
  exact hspared (List.mem_singleton.mpr rfl)

end Blueth.Io
