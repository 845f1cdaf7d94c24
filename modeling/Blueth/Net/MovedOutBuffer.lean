/-
# Blueth.Net.MovedOutBuffer — what the two blocking clients do while their buffer is with somebody else.

`getIOBuffer` hands the buffer out and leaves a null pointer; the interface documents that reading, writing,
flushing and both getters then throw. `Guarded` is what the clients have in common with that: two of the
five calls look at the pointer, the other three never throw while connected. A run is recorded call by call:
`BufferOut` reads off the calls of the past whether the buffer is out, and `detectedExactly` says of any
`Guarded` stream which runs are as documented in every state they go through. The invariant behind it is
`Recorded`: the pointer is null exactly when the calls of the past say so.
-/
import Blueth.Net.SyncNetworkStreamClientSSL
import Blueth.Transition.System

set_option autoImplicit false

namespace Blueth.Net

open Blueth.Io Blueth.Transition

variable {σ ω : Type*}

/-! ## Calls and their record -/

/-- The calls of a run. -/
inductive StreamCall where
  | streamRead (readLength : UInt64)
  | streamWrite (data : List UInt8)
  | flushBuffer
  | getIOBuffer
  | constGetIOBuffer
  | setIOBuffer (ioBuffer : Option RawIOBuffer)
  | closeConnection
  deriving DecidableEq

namespace StreamCall

/-- The call made on a stream, its value dropped. -/
def perform (net : BufferedStream σ) : StreamCall → σ → Answer Unit × σ
  | .streamRead n, s => ((net.streamRead n s).1.map fun _ => (), (net.streamRead n s).2)
  | .streamWrite data, s => ((net.streamWrite data s).1.map fun _ => (), (net.streamWrite data s).2)
  | .flushBuffer, s => net.flushBuffer s
  | .getIOBuffer, s => (.returned (), (net.getIOBuffer s).2)
  | .constGetIOBuffer, s => ((net.constGetIOBuffer s).map fun _ => (), s)
  | .setIOBuffer ioBuffer, s => (.returned (), net.setIOBuffer ioBuffer s)
  | .closeConnection, s => net.closeConnection s

/-- The calls that are documented to throw without a buffer. -/
def NeedsBuffer : StreamCall → Prop
  | .streamRead _ | .streamWrite _ | .flushBuffer | .getIOBuffer | .constGetIOBuffer => True
  | .setIOBuffer _ | .closeConnection => False

/-- The calls that look whether there is one. -/
def Checks : StreamCall → Prop
  | .streamRead _ | .flushBuffer => True
  | _ => False

/-- Whether the buffer is out after a call, `out` being whether it was before. -/
def leavesOut (out : Bool) : StreamCall → Bool
  | .getIOBuffer => true
  | .setIOBuffer ioBuffer => ioBuffer.isNone
  | _ => out

end StreamCall

/-- After these calls the buffer has been handed out, or replaced by null, and not set back since. -/
def BufferOut (calls : List StreamCall) : Prop := calls.foldl StreamCall.leavesOut false = true

/-- A call of the past: the stream before, the answer, the stream after. -/
structure Made (σ : Type*) where
  before : σ
  call : StreamCall
  answer : Answer Unit
  behind : σ

/-- A stream in use, with the calls made so far. -/
structure StreamSession (σ : Type*) where
  stream : σ
  made : List (Made σ)

/-- The calls made so far. -/
def StreamSession.calls (s : StreamSession σ) : List StreamCall := s.made.map Made.call

/-- The session after one more call. -/
def StreamSession.after (net : BufferedStream σ) (s : StreamSession σ) (call : StreamCall) :
    StreamSession σ where
  stream := (call.perform net s.stream).2
  made := s.made ++ [⟨s.stream, call, (call.perform net s.stream).1, (call.perform net s.stream).2⟩]

/-- The calls made one a step, from a connected stream with a buffer; `view` shows the fields of the client.
A call whose behaviour is undefined has no successor. -/
def streamUses (net : BufferedStream σ) (view : σ → SyncNetworkStreamClient) :
    System (StreamSession σ) StreamCall where
  init s := (view s.stream).isConnected = true ∧ (view s.stream).ioBuffer ≠ none ∧
    (view s.stream).handed = [] ∧ s.made = []
  next s call t := (call.perform net s.stream).1 ≠ .fault ∧ t = s.after net call

/-! ## Detection -/

/-- The call did what is documented: on a connected stream, if it needs the buffer, it threw a
`std::runtime_error` exactly when that was out, and then it did nothing else. -/
def Made.Detected (view : σ → SyncNetworkStreamClient) (out : Prop) (m : Made σ) : Prop :=
  (view m.before).isConnected = true → m.call.NeedsBuffer →
    (m.answer.RuntimeError ↔ out) ∧ (m.answer.RuntimeError → m.behind = m.before)

/-- All calls so far did, each by the calls before it, and no callback was handed a null buffer. -/
structure AllDetected (view : σ → SyncNetworkStreamClient) (s : StreamSession σ) : Prop where
  made : ∀ past m later, s.made = past ++ m :: later →
    m.Detected view (BufferOut (past.map Made.call))
  handed : none ∉ (view s.stream).handed

/-- The pointer is null exactly when the calls of the past say that the buffer is out. -/
def Recorded (view : σ → SyncNetworkStreamClient) (s : StreamSession σ) : Prop :=
  (view s.stream).ioBuffer = none ↔ BufferOut s.calls

/-- The call is not one of those that go on without a buffer. -/
def NotWithoutBuffer (view : σ → SyncNetworkStreamClient) (s : StreamSession σ) (call : StreamCall) :
    Prop :=
  (view s.stream).isConnected = true → (view s.stream).ioBuffer = none → call.NeedsBuffer → call.Checks

/-- In every run from a connected stream with a buffer: in every state the run goes through all calls have
been as documented, exactly when no call of the run goes on without a buffer. -/
def DetectedExactly (net : BufferedStream σ) (view : σ → SyncNetworkStreamClient) : Prop :=
  ∀ s calls t, (streamUses net view).init s → (streamUses net view).Run s calls t →
    ((∀ before behind u, calls = before ++ behind → (streamUses net view).Run s before u →
        AllDetected view u) ↔
      ((streamUses net view).only (NotWithoutBuffer view)).Run s calls t)

/-- What the two clients have in common. -/
structure Guarded (net : BufferedStream σ) (view : σ → SyncNetworkStreamClient) : Prop where
  /-- the calls that look at the pointer throw at a null one, and do nothing else -/
  refuses : ∀ s (call : StreamCall), call.Checks → (view s).ioBuffer = none →
    (call.perform net s).1.RuntimeError ∧ (call.perform net s).2 = s
  /-- apart from that, no call that needs the buffer throws while connected -/
  serves : ∀ s (call : StreamCall), (view s).isConnected = true → call.NeedsBuffer →
    (call.Checks → (view s).ioBuffer ≠ none) → ¬ (call.perform net s).1.RuntimeError
  /-- only `streamWrite` can hand a null pointer to a callback -/
  hands : ∀ s (call : StreamCall), (call.perform net s).1 ≠ .fault →
    none ∈ (view (call.perform net s).2).handed → none ∈ (view s).handed ∨
      ((view s).isConnected = true ∧ (view s).ioBuffer = none ∧ call.NeedsBuffer ∧ ¬ call.Checks)
  /-- only `getIOBuffer` and `setIOBuffer` change whether there is a buffer -/
  keeps : ∀ s (call : StreamCall), (view (call.perform net s).2).ioBuffer.isNone
    = call.leavesOut (view s).ioBuffer.isNone

section Detection

variable {net : BufferedStream σ} {view : σ → SyncNetworkStreamClient} {s t : StreamSession σ}
  {call : StreamCall}

/-- The calls of a longer record: one of the shorter, or the last. -/
theorem made_after {past later : List (Made σ)} {m : Made σ}
    (h : (s.after net call).made = past ++ m :: later) :
    (∃ later', s.made = past ++ m :: later') ∨ (past = s.made ∧
      m = ⟨s.stream, call, (call.perform net s.stream).1, (call.perform net s.stream).2⟩) := by
  rcases List.eq_nil_or_concat later with rfl | ⟨later', last, rfl⟩
  · obtain ⟨hpast, hm⟩ := List.append_inj' h rfl
    exact Or.inr ⟨hpast.symm, (List.singleton_inj.mp hm).symm⟩
  · rw [List.concat_eq_append, ← List.cons_append, ← List.append_assoc] at h
    exact Or.inl ⟨later', (List.append_inj' h rfl).1⟩

/-- The record is kept. -/
theorem Recorded.step (G : Guarded net view) (h : Recorded view s)
    (hstep : (streamUses net view).next s call t) : Recorded view t := by
  obtain ⟨-, rfl⟩ := hstep
  have hbefore : (view s.stream).ioBuffer.isNone = s.calls.foldl StreamCall.leavesOut false := by
    rw [Bool.eq_iff_iff, Option.isNone_iff_eq_none]
    exact h
  have hcalls : (s.after net call).calls = s.calls ++ [call] := by
    simp only [StreamSession.calls, StreamSession.after, List.map_append, List.map_cons, List.map_nil]
  rw [Recorded, BufferOut, hcalls, List.foldl_append, ← hbefore, ← Option.isNone_iff_eq_none]
  exact Bool.eq_iff_iff.mp (G.keeps s.stream call)

/-- **What a step keeps.** -/
theorem AllDetected.step (G : Guarded net view) (h : AllDetected view s) (hrecorded : Recorded view s)
    (hstep : (streamUses net view).next s call t) (hcall : NotWithoutBuffer view s call) :
    AllDetected view t := by
  obtain ⟨hfault, rfl⟩ := hstep
  constructor
  · intro past m later hmade
    rcases made_after hmade with ⟨later', hbefore⟩ | ⟨rfl, rfl⟩
    · exact h.made past m later' hbefore
    · intro hconn hneeds
      by_cases hnull : (view s.stream).ioBuffer = none
      · obtain ⟨hthrows, hsame⟩ := G.refuses s.stream call (hcall hconn hnull hneeds) hnull
        exact ⟨iff_of_true hthrows (hrecorded.mp hnull), fun _ => hsame⟩
      · have hserves := G.serves s.stream call hconn hneeds fun _ => hnull
        exact ⟨iff_of_false hserves fun hout => hnull (hrecorded.mpr hout),
          fun hthrows => absurd hthrows hserves⟩
  · intro hmem
    rcases G.hands s.stream call hfault hmem with hbefore | ⟨hconn, hnull, hneeds, hchecks⟩
    · exact h.handed hbefore
    · exact hchecks (hcall hconn hnull hneeds)

/-- **A call that goes on without a buffer** is not what is documented. -/
theorem notWithoutBuffer_of_allDetected (G : Guarded net view) (hrecorded : Recorded view s)
    (hstep : (streamUses net view).next s call t) (h : AllDetected view t) :
    NotWithoutBuffer view s call := by
  obtain ⟨-, rfl⟩ := hstep
  intro hconn hnull hneeds
  by_contra hchecks
  have hserves := G.serves s.stream call hconn hneeds fun hc => absurd hc hchecks
  have hmade := h.made s.made _ [] rfl hconn hneeds
  exact hserves (hmade.1.mpr (hrecorded.mp hnull))

/-- Which runs of a guarded stream are as documented in every state they go through. -/
theorem detectedExactly (G : Guarded net view) : DetectedExactly net view := by
  intro s calls t hinit hr
  obtain ⟨-, hbuffer, hhanded, hmade⟩ := hinit
  have hstart : AllDetected view s := ⟨by simp [hmade], by simp [hhanded]⟩
  have hrecorded : Recorded view s := by
    refine iff_of_false hbuffer ?_
    simp [BufferOut, StreamSession.calls, hmade]
  refine System.Run.always_iff (I := fun s => AllDetected view s ∧ Recorded view s) ?_ ?_ ?_
    (fun s hs => hs.1) hr ⟨hstart, hrecorded⟩
  · rintro s call t u ⟨-, rfl⟩ ⟨-, rfl⟩
    rfl
  · exact fun s call t hs hstep hcall => ⟨hs.1.step G hs.2 hstep hcall, hs.2.step G hstep⟩
  · exact fun s call t hs hstep ht => notWithoutBuffer_of_allDetected G hs.2 hstep ht

end Detection

/-! ## The TCP client -/

section Answers

variable {α β : Type*} {a : Answer α}

@[simp] theorem not_runtimeError_returned (value : α) : ¬ (Answer.returned value).RuntimeError := by
  rintro ⟨what, -, h⟩
  cases h

@[simp] theorem not_runtimeError_badAlloc : ¬ (Answer.threw "std::bad_alloc" : Answer α).RuntimeError := by
  rintro ⟨what, hne, h⟩
  exact hne (Answer.threw.inj h).symm

@[simp] theorem not_runtimeError_fault : ¬ (Answer.fault : Answer α).RuntimeError := by
  rintro ⟨what, -, h⟩
  cases h

@[simp] theorem runtimeError_map (f : α → β) : (a.map f).RuntimeError ↔ a.RuntimeError := by
  cases a with
  | returned value => exact iff_of_false (not_runtimeError_returned _) (not_runtimeError_returned _)
  | threw what =>
      constructor
      · rintro ⟨what', hne, h⟩
        exact ⟨what', hne, congrArg Answer.threw (Answer.threw.inj h)⟩
      · rintro ⟨what', hne, h⟩
        exact ⟨what', hne, congrArg Answer.threw (Answer.threw.inj h)⟩
  | fault => exact iff_of_false not_runtimeError_fault not_runtimeError_fault

end Answers

namespace SyncNetworkStreamClient

variable {t : Transport ω} {k : Kernel ω} {c : SyncNetworkStreamClient} {b : RawIOBuffer} {n : UInt64}
  {e : ω}

theorem mem_handed_invoke {callback : Bool} (h : none ∈ (invoke callback c).handed) :
    none ∈ c.handed ∨ c.ioBuffer = none := by
  unfold invoke at h
  split_ifs at h
  · rcases List.mem_append.mp h with h | h
    · exact Or.inl h
    · exact Or.inr (List.mem_singleton.mp h).symm
  · exact Or.inl h

/-- Behind the reservation no `std::runtime_error` is thrown, and the callback sees a buffer. -/
theorem receive_guarded : ¬ (receive t n c b e).1.RuntimeError ∧
    (none ∈ (receive t n c b e).2.1.handed → none ∈ c.handed) := by
  unfold receive
  split_ifs
  · exact ⟨not_runtimeError_fault, id⟩
  · simp only
    split_ifs
    · exact ⟨not_runtimeError_returned _, id⟩
    · exact ⟨not_runtimeError_fault, id⟩
    · generalize RawIOBuffer.appendRawBytes 2 _ b _ = appended
      cases appended with
      | returned b' =>
          refine ⟨not_runtimeError_returned _, fun h => ?_⟩
          exact (mem_handed_invoke h).resolve_right (by simp)
      | badAlloc b' => exact ⟨not_runtimeError_badAlloc, id⟩
      | fault => exact ⟨not_runtimeError_fault, id⟩
      | calling => exact ⟨not_runtimeError_fault, id⟩

/-- A read of a connected client with a buffer. -/
theorem streamRead_guarded (hconn : c.isConnected = true) (hb : c.ioBuffer = some b) :
    ¬ (streamRead t n (c, e)).1.RuntimeError ∧
      (none ∈ (streamRead t n (c, e)).2.1.handed → none ∈ c.handed) := by
  simp only [streamRead, hb, hconn]
  obtain ⟨reserved, e'⟩ := reserveFor t n b e
  cases reserved with
  | returned b' => exact receive_guarded
  | badAlloc b' => exact ⟨not_runtimeError_badAlloc, id⟩
  | fault => exact ⟨not_runtimeError_fault, id⟩
  | calling => exact ⟨not_runtimeError_fault, id⟩

/-- A read of a client that is closed or has no buffer. -/
theorem streamRead_refused (h : c.isConnected = false ∨ c.ioBuffer = none) :
    streamRead t n (c, e)
      = (.threw "invalid IOBuffer or the connection to the endpoint is closed", (c, e)) := by
  rcases h with h | h
  · cases hb : c.ioBuffer <;> simp only [streamRead, h, hb]
  · simp only [streamRead, h]

theorem mem_handed_streamRead (h : none ∈ (streamRead t n (c, e)).2.1.handed) : none ∈ c.handed := by
  by_cases hserved : c.isConnected = true ∧ c.ioBuffer ≠ none
  · obtain ⟨b, hb⟩ := Option.ne_none_iff_exists'.mp hserved.2
    exact (streamRead_guarded hserved.1 hb).2 h
  · rw [not_and_or, not_not, Bool.not_eq_true] at hserved
    rwa [streamRead_refused hserved] at h

theorem receive_isNone : (receive t n c b e).2.1.ioBuffer.isNone = false := by
  unfold receive
  split_ifs
  · rfl
  · simp only
    split_ifs
    · rfl
    · rfl
    · generalize RawIOBuffer.appendRawBytes 2 _ b _ = appended
      cases appended with
      | returned b' => rw [invoke_ioBuffer]; rfl
      | badAlloc b' => rfl
      | fault => rfl
      | calling => rfl

theorem streamRead_isNone : (streamRead t n (c, e)).2.1.ioBuffer.isNone = c.ioBuffer.isNone := by
  by_cases hserved : c.isConnected = true ∧ c.ioBuffer ≠ none
  · obtain ⟨b, hb⟩ := Option.ne_none_iff_exists'.mp hserved.2
    simp only [streamRead, hb, hserved.1]
    obtain ⟨reserved, e'⟩ := reserveFor t n b e
    cases reserved with
    | returned b' => exact receive_isNone
    | badAlloc b' => rfl
    | fault => exact congrArg Option.isNone hb
    | calling => exact congrArg Option.isNone hb
  · rw [not_and_or, not_not, Bool.not_eq_true] at hserved
    rw [streamRead_refused hserved]

theorem streamWrite_guarded (hconn : c.isConnected = true) (data : List UInt8) :
    ¬ (streamWrite t data (c, e)).1.RuntimeError := by
  have hup : ¬ c.isConnected = false := by simp [hconn]
  simp only [streamWrite, if_neg hup]
  split_ifs
  · exact not_runtimeError_returned _
  · exact not_runtimeError_returned _

theorem mem_handed_streamWrite {data : List UInt8} (h : none ∈ (streamWrite t data (c, e)).2.1.handed) :
    none ∈ c.handed ∨ (c.isConnected = true ∧ c.ioBuffer = none) := by
  simp only [streamWrite] at h
  split_ifs at h with hconn hempty
  · exact Or.inl h
  · exact Or.inl h
  · exact (mem_handed_invoke h).imp id fun hnull => ⟨by simpa using hconn, hnull⟩

@[simp] theorem streamWrite_ioBuffer (data : List UInt8) :
    (streamWrite t data (c, e)).2.1.ioBuffer = c.ioBuffer := by
  simp only [streamWrite]
  split_ifs
  · rfl
  · rfl
  · exact invoke_ioBuffer _ _

theorem flushBuffer_guarded (hb : c.ioBuffer = some b) : ¬ (flushBuffer (c, e)).1.RuntimeError := by
  simp only [flushBuffer, hb]
  exact not_runtimeError_returned _

theorem flushBuffer_refused (h : c.ioBuffer = none) :
    flushBuffer (c, e) = (.threw "invalid IOBuffer", (c, e)) := by
  simp only [flushBuffer, h]

@[simp] theorem flushBuffer_handed : (flushBuffer (c, e)).2.1.handed = c.handed := by
  cases hb : c.ioBuffer <;> simp only [flushBuffer, hb]

theorem flushBuffer_isNone : (flushBuffer (c, e)).2.1.ioBuffer.isNone = c.ioBuffer.isNone := by
  cases hb : c.ioBuffer with
  | none => rw [flushBuffer_refused hb, hb]
  | some b => simp only [flushBuffer, hb, Option.isNone_some]

@[simp] theorem closeConnection_handed : (closeConnection k (c, e)).2.1.handed = c.handed := by
  simp only [closeConnection]
  split_ifs <;> rfl

@[simp] theorem closeConnection_ioBuffer : (closeConnection k (c, e)).2.1.ioBuffer = c.ioBuffer := by
  simp only [closeConnection]
  split_ifs <;> rfl

/-- **The TCP client is guarded.** -/
theorem guarded (k : Kernel ω) : Guarded (bufferedStream k) Prod.fst where
  refuses := by
    rintro ⟨c, e⟩ call hchecks hnull
    cases call with
    | streamRead n =>
        simp only [StreamCall.perform, runtimeError_map]
        show (streamRead k.toTransport n (c, e)).1.RuntimeError ∧ (streamRead k.toTransport n (c, e)).2 = _
        rw [streamRead_refused (Or.inr hnull)]
        exact ⟨⟨_, by decide, rfl⟩, rfl⟩
    | flushBuffer =>
        show (flushBuffer (c, e)).1.RuntimeError ∧ (flushBuffer (c, e)).2 = _
        rw [flushBuffer_refused hnull]
        exact ⟨⟨_, by decide, rfl⟩, rfl⟩
    | _ => exact absurd hchecks id
  serves := by
    rintro ⟨c, e⟩ call hconn hneeds hbuffer
    cases call with
    | streamRead n =>
        obtain ⟨b, hb⟩ := Option.ne_none_iff_exists'.mp (hbuffer trivial)
        simp only [StreamCall.perform, runtimeError_map]
        exact (streamRead_guarded hconn hb).1
    | streamWrite data =>
        simp only [StreamCall.perform, runtimeError_map]
        exact streamWrite_guarded hconn data
    | flushBuffer =>
        obtain ⟨b, hb⟩ := Option.ne_none_iff_exists'.mp (hbuffer trivial)
        exact flushBuffer_guarded hb
    | getIOBuffer => exact not_runtimeError_returned _
    | constGetIOBuffer => exact not_runtimeError_returned _
    | _ => exact absurd hneeds id
  hands := by
    rintro ⟨c, e⟩ call - hmem
    cases call with
    | streamRead n => exact Or.inl (mem_handed_streamRead hmem)
    | streamWrite data =>
        exact (mem_handed_streamWrite hmem).imp id fun h => ⟨h.1, h.2, trivial, id⟩
    | flushBuffer => exact Or.inl (flushBuffer_handed ▸ hmem)
    | closeConnection => exact Or.inl (closeConnection_handed ▸ hmem)
    | _ => exact Or.inl hmem
  keeps := by
    rintro ⟨c, e⟩ call
    cases call with
    | streamRead n => exact streamRead_isNone
    | streamWrite data => exact congrArg Option.isNone (streamWrite_ioBuffer data)
    | flushBuffer => exact flushBuffer_isNone
    | closeConnection => exact congrArg Option.isNone closeConnection_ioBuffer
    | _ => rfl

end SyncNetworkStreamClient

/-! ## The TLS client -/

namespace SyncNetworkStreamClientSSL

variable {α β : Type*} {k : Kernel ω}

theorem plain_injective : Function.Injective plain := by
  rintro ⟨_, _, _, _, _⟩ ⟨_, _, _, _, _⟩ h
  simpa [plain] using h

/-- The fields of the client, as the TCP client would have them. -/
def plainOf (s : SyncNetworkStreamClientSSL × ω) : SyncNetworkStreamClient := s.1.plain

theorem SameAnswer.map {a a' : Answer α} (h : SameAnswer a a') (f : α → β) :
    SameAnswer (a.map f) (a'.map f) := by
  cases h with
  | returned value => exact .returned (f value)
  | badAlloc => exact .badAlloc
  | runtimeError h h' => exact .runtimeError h h'
  | fault => exact .fault

theorem SameAnswer.runtimeError_iff {a a' : Answer α} (h : SameAnswer a a') :
    a.RuntimeError ↔ a'.RuntimeError := by
  cases h with
  | returned value => exact iff_of_false (by simp) (by simp)
  | badAlloc => exact iff_of_false (by simp) (by simp)
  | runtimeError h h' => exact iff_of_true ⟨_, h, rfl⟩ ⟨_, h', rfl⟩
  | fault => exact iff_of_false (by simp) (by simp)

theorem SameAnswer.fault_iff {a a' : Answer α} (h : SameAnswer a a') : a = .fault ↔ a' = .fault := by
  cases h <;> simp

theorem Mirrors.map {r : Answer α × (SyncNetworkStreamClientSSL × ω)}
    {r' : Answer α × (SyncNetworkStreamClient × ω)} (h : Mirrors r r') (f : α → β) :
    Mirrors (r.1.map f, r.2) (r'.1.map f, r'.2) := ⟨h.answer.map f, h.client, h.below⟩

/-- **Every call mirrors that of the TCP client.** -/
theorem perform_mirrors (k : Kernel ω) (c : SyncNetworkStreamClientSSL) (e : ω) (call : StreamCall) :
    Mirrors (call.perform (bufferedStream k) (c, e))
      (call.perform (SyncNetworkStreamClient.bufferedStream k) (c.plain, e)) := by
  cases call with
  | streamRead n => exact (streamRead_mirrors c e n).map fun _ => ()
  | streamWrite data => exact (streamWrite_mirrors c e data).map fun _ => ()
  | flushBuffer => exact flushBuffer_mirrors c e
  | getIOBuffer => exact ⟨.returned (), rfl, rfl⟩
  | constGetIOBuffer => exact ⟨.returned (), rfl, rfl⟩
  | setIOBuffer ioBuffer => exact ⟨.returned (), rfl, rfl⟩
  | closeConnection => exact closeConnection_mirrors c e k

/-- **The TLS client is guarded**, since the TCP client is. -/
theorem guarded (k : Kernel ω) : Guarded (bufferedStream k) (plainOf (ω := ω)) where
  refuses := by
    rintro ⟨c, e⟩ call hchecks hnull
    have hmirror := perform_mirrors k c e call
    obtain ⟨hthrows, hsame⟩ :=
      (SyncNetworkStreamClient.guarded k).refuses (c.plain, e) call hchecks hnull
    refine ⟨hmirror.answer.runtimeError_iff.mpr hthrows, ?_⟩
    exact Prod.ext (plain_injective (hmirror.client.trans (congrArg Prod.fst hsame)))
      (hmirror.below.trans (congrArg Prod.snd hsame))
  serves := by
    rintro ⟨c, e⟩ call hconn hneeds hbuffer hthrows
    exact (SyncNetworkStreamClient.guarded k).serves (c.plain, e) call hconn hneeds hbuffer
      ((perform_mirrors k c e call).answer.runtimeError_iff.mp hthrows)
  hands := by
    rintro ⟨c, e⟩ call hfault hmem
    have hmirror := perform_mirrors k c e call
    have hclient : plainOf (call.perform (bufferedStream k) (c, e)).2
        = (call.perform (SyncNetworkStreamClient.bufferedStream k) (c.plain, e)).2.1 := hmirror.client
    rw [hclient] at hmem
    exact (SyncNetworkStreamClient.guarded k).hands (c.plain, e) call
      (fun h => hfault (hmirror.answer.fault_iff.mpr h)) hmem
  keeps := by
    rintro ⟨c, e⟩ call
    exact (congrArg (Option.isNone ∘ SyncNetworkStreamClient.ioBuffer)
      (perform_mirrors k c e call).client).trans ((SyncNetworkStreamClient.guarded k).keeps (c.plain, e) call)

end SyncNetworkStreamClientSSL

/-! ## Both -/

/-- **When a moved-out buffer is detected.** For both clients, on any kernel, and every run of calls: each
call that needs the buffer throws exactly when the calls before it have left it out, all along the run,
exactly when no `streamWrite`, `getIOBuffer` or `constGetIOBuffer` of the run is made while connected
and without a buffer. -/
theorem movedOut_detected_iff (k : Kernel ω) :
    DetectedExactly (SyncNetworkStreamClient.bufferedStream k) Prod.fst ∧
      DetectedExactly (SyncNetworkStreamClientSSL.bufferedStream k)
        SyncNetworkStreamClientSSL.plainOf :=
  ⟨detectedExactly (SyncNetworkStreamClient.guarded k),
    detectedExactly (SyncNetworkStreamClientSSL.guarded k)⟩

/-- Memory that is never short, and a peer that has sent some bytes. -/
def generous : Kernel (List UInt8) where
  realloc _ sent := (some fun _ => 0, sent)
  recv n sent := (⟨(sent.take n.toNat).length, sent.take n.toNat⟩, sent.drop n.toNat)
  send data sent := (data.length, sent)
  close sent := (0, sent)
  strerror _ := ""

/-- A connected client with a write callback. -/
def writingClient : StreamSession (SyncNetworkStreamClient × List UInt8) :=
  ⟨(⟨false, true, some (RawIOBuffer.fresh.grown 2048 fun _ => 0), true, []⟩, []), []⟩

/-- **Writing without a buffer**: after `getIOBuffer` the client sends the byte, returns, and hands its
callback a null pointer. -/
theorem write_without_buffer :
    ∃ t, (streamUses (SyncNetworkStreamClient.bufferedStream generous) Prod.fst).init writingClient ∧
      (streamUses (SyncNetworkStreamClient.bufferedStream generous) Prod.fst).Run writingClient
        [.getIOBuffer, .streamWrite [1]] t ∧
      t.made.map Made.answer = [.returned (), .returned ()] ∧ t.stream.1.handed = [none] ∧
      ¬ AllDetected Prod.fst t := by
  refine ⟨_, ⟨rfl, by simp [writingClient], rfl, rfl⟩, .cons ⟨?_, rfl⟩ (.single ⟨?_, rfl⟩), rfl, rfl, ?_⟩
  · show Answer.returned () ≠ .fault
    simp
  · show Answer.returned () ≠ .fault
    simp
  · exact fun h => h.handed (List.mem_singleton.mpr rfl)

end Blueth.Net
