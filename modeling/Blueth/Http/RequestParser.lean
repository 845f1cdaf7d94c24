/-
# Blueth.Http.RequestParser — `ParseHTTP1_1RequestMessage` (`http/HTTPParserStateMachine.hpp`).

`requestPass` is the body of the loop: one `case` of the `switch` for each of the 19 states, with the
byte under `start_buffer` and the byte before it. A failed test sets `ProtocolError` and leaves the
pointer where it is (the next pass then jumps to `FINISH`). The two spots where this machine is not
like the others:

* `HeaderValue` looks at `*(start_buffer - 1)` when the current byte is a space, and accepts the space
  (without recording it) only right after a colon;
* `HeaderEndLF` has no `else`: a byte other than LF, or a method that is none of the four known ones,
  leaves state AND pointer unchanged.
-/
import Blueth.Http.Message
import Blueth.Io.BufferScan

set_option autoImplicit false

namespace Blueth.Http

open Blueth.Scan Blueth.Io

/-- What the request loop carries: `current_state` and `http_message`. -/
abbrev RequestState := ParserState × HTTPRequestMessage

/-- Test one byte: on success go to `next` and past the byte, otherwise to `ProtocolError`. -/
def expectByte (ok : Bool) (next : ParserState) (m : HTTPRequestMessage) : Pass RequestState UInt8 :=
  if ok then .advance (next, m) else .stay (.protocolError, m)

/-- The body of the loop. -/
def requestPass : Scanner RequestState UInt8 := fun (st, m) behind c =>
  match st with
  | .requestLineBegin =>
      if isToken c then .advance (.requestMethod, m.pushBackRequestMethod c)
      else .stay (.protocolError, m)
  | .requestMethod =>
      if c = SP then .advance (.requestResource, m)
      else if isToken c then .advance (.requestMethod, m.pushBackRequestMethod c)
      else .stay (.protocolError, m)
  | .requestResource =>
      if c = SP then .advance (.requestProtocolH, m)
      else if isPrint c then .advance (.requestResource, m.pushBackTargetResource c)
      else .stay (.protocolError, m)
  | .requestProtocolH => expectByte (c == ch 'H') .requestProtocolT1 m
  | .requestProtocolT1 => expectByte (c == ch 'T') .requestProtocolT2 m
  | .requestProtocolT2 => expectByte (c == ch 'T') .requestProtocolP m
  | .requestProtocolP => expectByte (c == ch 'P') .requestProtocolSlash m
  | .requestProtocolSlash => expectByte (c == ch '/') .requestProtocolVersionMajor m
  | .requestProtocolVersionMajor => expectByte (isDigit c) .requestProtocolDot m
  | .requestProtocolDot => expectByte (c == ch '.') .requestProtocolVersionMinor m
  | .requestProtocolVersionMinor =>
      if isDigit c then .advance (.requestProtocolVersionMinor, m.setHTTPVersion .http1_1)
      else if c = CR then .advance (.requestLineLF, m)
      else .stay (.protocolError, m)
  | .requestLineLF => expectByte (c == LF) .headerName m
  | .headerName =>
      if isToken c then .advance (.headerName, m.pushBackHeaderName c)
      else if c = ch ':' then .advance (.headerValue, m)
      else if c = CR then .advance (.headerEndLF, m)
      else .stay (.protocolError, m)
  | .headerValue =>
      if c = CR then .advance (.headerValueLF, m)
      else if c = SP then
        match behind with
        | none => .fault
        | some b => if b = ch ':' then .advance (.headerValue, m) else .stay (.protocolError, m)
      else if isText c then .advance (.headerValue, m.pushBackHeaderValue c)
      else .stay (.protocolError, m)
  | .headerValueLF =>
      if c = LF then .advance (.headerName, m.addTempHeadersHolderToMessage)
      else .stay (.protocolError, m)
  | .headerEndLF =>
      if c = LF then
        if str3cmp m.getTempRequestMethod (str "GET") then
          .advance (.parsingDone, m.setRequestType .get)
        else if str4cmp m.getTempRequestMethod (str "POST") then
          .advance (.messageBody, m.setRequestType .post)
        else if str3cmp m.getTempRequestMethod (str "PUT") then
          .advance (.messageBody, m.setRequestType .put)
        else if str4cmp m.getTempRequestMethod (str "HEAD") then
          .advance (.parsingDone, m.setRequestType .head)
        else .stay (.headerEndLF, m.setRequestType .unsupported)
      else .stay (.headerEndLF, m)
  | .messageBody => .takeRest fun rest => (.messageBody, m.pushBackRawBody rest)
  | .parsingDone => .finish (.parsingDone, m)
  | .protocolError => .finish (.protocolError, m)

/-- `ParseHTTP1_1RequestMessage`, at most `fuel` passes of its loop. -/
def parseHTTP1_1RequestMessage (fuel : ℕ) (requestMessage : IOBuffer) (currentState : ParserState)
    (httpMessage : HTTPRequestMessage) : Outcome RequestState UInt8 :=
  scanBuffer requestPass fuel requestMessage (currentState, httpMessage)

/-- A call returns, with the given state and message. -/
def RequestReturns (b : IOBuffer) (st : ParserState) (m : HTTPRequestMessage) (st' : ParserState)
    (m' : HTTPRequestMessage) : Prop :=
  ∃ fuel left, parseHTTP1_1RequestMessage fuel b st m = .returned (st', m') left

/-- The calls on consecutive windows, from `RequestLineBegin` and a fresh message, all return; `st`
and `m` are what the last one leaves. -/
def RequestWindowsReturn (b : IOBuffer) (windows : List ℕ) (st : ParserState)
    (m : HTTPRequestMessage) : Prop :=
  WindowsReturn requestPass b windows (.requestLineBegin, .create) (st, m)

/-! ## The laws of the loop -/

/-- The four methods `HeaderEndLF` knows, and where each of them leads. The comparison looks at the
first three or four bytes only. -/
def recognise (method : List UInt8) : Option (ParserState × HTTPRequestType) :=
  if str3cmp method (str "GET") then some (.parsingDone, .get)
  else if str4cmp method (str "POST") then some (.messageBody, .post)
  else if str3cmp method (str "PUT") then some (.messageBody, .put)
  else if str4cmp method (str "HEAD") then some (.parsingDone, .head)
  else none

/-- GET and HEAD end the message at the blank line, POST and PUT are followed by a body. -/
theorem recognise_cases {method : List UInt8} {st : ParserState} {type : HTTPRequestType}
    (h : recognise method = some (st, type)) :
    (st = .parsingDone ∧ (type = .get ∨ type = .head)) ∨
      (st = .messageBody ∧ (type = .post ∨ type = .put)) := by
  unfold recognise at h
  split_ifs at h <;> simp only [Option.some.injEq, Prod.mk.injEq] at h <;> obtain ⟨rfl, rfl⟩ := h <;>
    simp

/-- `HeaderEndLF` in one line: by the method collected at the beginning of the message. -/
theorem requestPass_headerEndLF (m : HTTPRequestMessage) (p : Option UInt8) :
    requestPass (.headerEndLF, m) p LF =
      match recognise m.tempHttpMethodHolder with
      | some (st, type) => .advance (st, m.setRequestType type)
      | none => .stay (.headerEndLF, m.setRequestType .unsupported) := by
  simp only [requestPass, recognise, HTTPRequestMessage.getTempRequestMethod, if_true]
  by_cases h1 : str3cmp m.tempHttpMethodHolder (str "GET")
  · simp only [h1, if_true]
  · by_cases h2 : str4cmp m.tempHttpMethodHolder (str "POST")
    · simp only [h1, h2, if_true, if_false, Bool.false_eq_true]
    · by_cases h3 : str3cmp m.tempHttpMethodHolder (str "PUT")
      · simp only [h1, h2, h3, if_true, if_false, Bool.false_eq_true]
      · by_cases h4 : str4cmp m.tempHttpMethodHolder (str "HEAD")
        · simp only [h1, h2, h3, h4, if_true, if_false, Bool.false_eq_true]
        · simp only [h1, h2, h3, h4, if_false, Bool.false_eq_true]

theorem requestPass_headerEndLF_ne (m : HTTPRequestMessage) (p : Option UInt8) {c : UInt8}
    (hc : c ≠ LF) : requestPass (.headerEndLF, m) p c = .stay (.headerEndLF, m) := by
  simp only [requestPass, if_neg hc]

/-- The states a head is accepted in. -/
def ParserState.Accepting (st : ParserState) : Prop := st = .parsingDone ∨ st = .messageBody

/-- The states that read the head byte by byte. -/
def ParserState.Reading (st : ParserState) : Prop :=
  st ≠ .headerEndLF ∧ st ≠ .messageBody ∧ st ≠ .parsingDone ∧ st ≠ .protocolError

theorem ParserState.reading_or (st : ParserState) :
    st.Reading ∨ st = .headerEndLF ∨ st = .messageBody ∨ st = .parsingDone ∨ st = .protocolError := by
  cases st <;> simp [ParserState.Reading]

/-- The method text once `w` has been consumed from state `st`: what the message holds, and the bytes
of `w` up to its first space if the method is still being read. -/
def methodAfter (st : ParserState) (m : HTTPRequestMessage) (w : List UInt8) : List UInt8 :=
  m.tempHttpMethodHolder ++
    if st = .requestLineBegin ∨ st = .requestMethod then w.takeWhile (· != SP) else []

/-- A byte either joins the method that is being read, or the method does not change. -/
theorem methodAfter_push {st : ParserState} (hst : st = .requestLineBegin ∨ st = .requestMethod)
    {c : UInt8} (hc : isToken c) (m : HTTPRequestMessage) (w : List UInt8) :
    methodAfter st m (c :: w) = methodAfter .requestMethod (m.pushBackRequestMethod c) w := by
  unfold methodAfter
  rw [if_pos hst, if_pos (Or.inr rfl), List.takeWhile_cons_of_pos (by simpa using isToken_ne_sp hc)]
  simp [HTTPRequestMessage.pushBackRequestMethod]

theorem methodAfter_frame {st st' : ParserState} {m m' : HTTPRequestMessage}
    (hst : st ≠ .requestLineBegin ∧ st ≠ .requestMethod)
    (hst' : st' ≠ .requestLineBegin ∧ st' ≠ .requestMethod)
    (hm : m'.tempHttpMethodHolder = m.tempHttpMethodHolder) (w w' : List UInt8) :
    methodAfter st m w = methodAfter st' m' w' := by
  unfold methodAfter
  rw [if_neg (by simp [hst]), if_neg (by simp [hst']), hm]

/-- What a pass of a reading state can be: it consumes the byte, going to a state that is not accepting
and keeping the method text in order; or it goes to `ProtocolError`; or it looks before the allocation,
which takes `HeaderValue`, a space, and no byte before it. -/
inductive ReadingPass (st : ParserState) (m : HTTPRequestMessage) (p : Option UInt8) (c : UInt8) :
    Pass RequestState UInt8 → Prop where
  | move {st' : ParserState} {m' : HTTPRequestMessage} (hacc : ¬ st'.Accepting)
      (hm : ∀ w, methodAfter st m (c :: w) = methodAfter st' m' w) :
      ReadingPass st m p c (.advance (st', m'))
  | fail : ReadingPass st m p c (.stay (.protocolError, m))
  | outside (hst : st = .headerValue) (hc : c = SP) (hp : p = none) : ReadingPass st m p c .fault

/-- A move between states that are past the method, with the method text untouched. -/
theorem ReadingPass.past {st st' : ParserState} {m m' : HTTPRequestMessage} {p : Option UInt8}
    {c : UInt8} (hst : st ≠ .requestLineBegin ∧ st ≠ .requestMethod)
    (hst' : st' ≠ .requestLineBegin ∧ st' ≠ .requestMethod) (hacc : ¬ st'.Accepting)
    (hm : m'.tempHttpMethodHolder = m.tempHttpMethodHolder) :
    ReadingPass st m p c (.advance (st', m')) :=
  .move hacc fun w => methodAfter_frame hst hst' hm (c :: w) w

theorem ReadingPass.expectByte {st next : ParserState} {m : HTTPRequestMessage} {p : Option UInt8}
    {c : UInt8} {ok : Bool} (hst : st ≠ .requestLineBegin ∧ st ≠ .requestMethod)
    (hnext : next ≠ .requestLineBegin ∧ next ≠ .requestMethod) (hacc : ¬ next.Accepting) :
    ReadingPass st m p c (expectByte ok next m) := by
  unfold Http.expectByte
  split_ifs
  · exact .past hst hnext hacc rfl
  · exact .fail

/-- **What a reading state does with a byte**, one case a state. -/
theorem requestPass_reading {st : ParserState} (hst : st.Reading) (m : HTTPRequestMessage)
    (p : Option UInt8) (c : UInt8) : ReadingPass st m p c (requestPass (st, m) p c) := by
  obtain ⟨h1, h2, h3, h4⟩ := hst
  cases st with
  | headerEndLF => exact absurd rfl h1
  | messageBody => exact absurd rfl h2
  | parsingDone => exact absurd rfl h3
  | protocolError => exact absurd rfl h4
  | requestLineBegin =>
      simp only [requestPass]
      split_ifs with hc
      · exact .move (by simp [ParserState.Accepting]) (methodAfter_push (Or.inl rfl) hc m)
      · exact .fail
  | requestMethod =>
      simp only [requestPass]
      split_ifs with hs hc
      · refine .move (by simp [ParserState.Accepting]) ?_
        intro w
        simp [methodAfter, hs]
      · exact .move (by simp [ParserState.Accepting]) (methodAfter_push (Or.inr rfl) hc m)
      · exact .fail
  | headerValue =>
      simp only [requestPass]
      split_ifs with hcr hs ht
      · exact .past (by simp) (by simp) (by simp [ParserState.Accepting]) rfl
      · cases p with
        | none => exact .outside rfl hs rfl
        | some b =>
            simp only
            split_ifs
            · exact .past (by simp) (by simp) (by simp [ParserState.Accepting]) rfl
            · exact .fail
      · exact .past (by simp) (by simp) (by simp [ParserState.Accepting]) rfl
      · exact .fail
  | requestResource =>
      simp only [requestPass]
      split_ifs
      · exact .past (by simp) (by simp) (by simp [ParserState.Accepting]) rfl
      · exact .past (by simp) (by simp) (by simp [ParserState.Accepting]) rfl
      · exact .fail
  | requestProtocolVersionMinor =>
      simp only [requestPass]
      split_ifs
      · exact .past (by simp) (by simp) (by simp [ParserState.Accepting]) rfl
      · exact .past (by simp) (by simp) (by simp [ParserState.Accepting]) rfl
      · exact .fail
  | headerName =>
      simp only [requestPass]
      split_ifs
      · exact .past (by simp) (by simp) (by simp [ParserState.Accepting]) rfl
      · exact .past (by simp) (by simp) (by simp [ParserState.Accepting]) rfl
      · exact .past (by simp) (by simp) (by simp [ParserState.Accepting]) rfl
      · exact .fail
  | headerValueLF =>
      simp only [requestPass]
      split_ifs
      · exact .past (by simp) (by simp) (by simp [ParserState.Accepting]) rfl
      · exact .fail
  | _ => exact .expectByte (by simp) (by simp) (by simp [ParserState.Accepting])

/-- **What a pass that consumes a byte does**: the method text stays in order, and the accepting states
are entered from `HeaderEndLF` only, at an LF and by a known method. -/
theorem requestPass_advance {st st' : ParserState} {m m' : HTTPRequestMessage} {p : Option UInt8}
    {c : UInt8} (h : requestPass (st, m) p c = .advance (st', m')) :
    (¬ st'.Accepting ∧ ∀ w, methodAfter st m (c :: w) = methodAfter st' m' w) ∨
      (st = .headerEndLF ∧ c = LF ∧ ∃ type, recognise m.tempHttpMethodHolder = some (st', type) ∧
        m' = m.setRequestType type) := by
  rcases st.reading_or with hst | rfl | rfl | rfl | rfl
  · have hr := requestPass_reading hst m p c
    rw [h] at hr
    cases hr with
    | move hacc hm => exact Or.inl ⟨hacc, hm⟩
  · refine Or.inr ?_
    by_cases hc : c = LF
    · subst hc
      rw [requestPass_headerEndLF] at h
      cases hr : recognise m.tempHttpMethodHolder with
      | none => simp [hr] at h
      | some r =>
          obtain ⟨st₁, type⟩ := r
          simp only [hr, Pass.advance.injEq, Prod.mk.injEq] at h
          obtain ⟨rfl, rfl⟩ := h
          exact ⟨rfl, rfl, type, rfl, rfl⟩
    · simp [requestPass_headerEndLF_ne m p hc] at h
  · simp [requestPass] at h
  · simp [requestPass] at h
  · simp [requestPass] at h

/-- **What a pass that keeps the pointer does.** It goes to `ProtocolError`, or it is `HeaderEndLF`
on a byte it has no branch for, or on LF with an unknown method. -/
theorem requestPass_stay {st : ParserState} {m : HTTPRequestMessage} {p : Option UInt8} {c : UInt8}
    {s' : RequestState} (h : requestPass (st, m) p c = .stay s') :
    (s' = (.protocolError, m) ∧ st.Reading) ∨
      (st = .headerEndLF ∧ c ≠ LF ∧ s' = (.headerEndLF, m)) ∨
      (st = .headerEndLF ∧ c = LF ∧ recognise m.tempHttpMethodHolder = none ∧
        s' = (.headerEndLF, m.setRequestType .unsupported)) := by
  rcases st.reading_or with hst | rfl | rfl | rfl | rfl
  · have hr := requestPass_reading hst m p c
    rw [h] at hr
    cases hr with
    | fail => exact Or.inl ⟨rfl, hst⟩
  · by_cases hc : c = LF
    · subst hc
      rw [requestPass_headerEndLF] at h
      cases hr : recognise m.tempHttpMethodHolder with
      | none =>
          simp only [hr, Pass.stay.injEq] at h
          exact Or.inr (Or.inr ⟨rfl, rfl, rfl, h.symm⟩)
      | some r => simp [hr] at h
    · rw [requestPass_headerEndLF_ne m p hc, Pass.stay.injEq] at h
      exact Or.inr (Or.inl ⟨rfl, hc, h.symm⟩)
  · simp [requestPass] at h
  · simp [requestPass] at h
  · simp [requestPass] at h

/-- `HeaderEndLF` consumes its byte or keeps it; it does nothing else. -/
theorem requestPass_headerEndLF_cases (m : HTTPRequestMessage) (p : Option UInt8) (c : UInt8) :
    (∃ s', requestPass (.headerEndLF, m) p c = .advance s') ∨
      ∃ s', requestPass (.headerEndLF, m) p c = .stay s' := by
  by_cases hc : c = LF
  · subst hc
    rw [requestPass_headerEndLF]
    cases recognise m.tempHttpMethodHolder with
    | none => exact Or.inr ⟨_, rfl⟩
    | some r => exact Or.inl ⟨_, rfl⟩
  · exact Or.inr ⟨_, requestPass_headerEndLF_ne m p hc⟩

/-- Only the two final states leave the loop with bytes unread. -/
theorem requestPass_finish {st : ParserState} {m : HTTPRequestMessage} {p : Option UInt8} {c : UInt8}
    {s' : RequestState} (h : requestPass (st, m) p c = .finish s') :
    s' = (st, m) ∧ (st = .parsingDone ∨ st = .protocolError) := by
  rcases st.reading_or with hst | rfl | rfl | rfl | rfl
  · have hr := requestPass_reading hst m p c
    rw [h] at hr
    cases hr
  · rcases requestPass_headerEndLF_cases m p c with ⟨t, ht⟩ | ⟨t, ht⟩ <;> simp [ht] at h
  · simp [requestPass] at h
  · rw [requestPass, Pass.finish.injEq] at h
    exact ⟨h.symm, Or.inl rfl⟩
  · rw [requestPass, Pass.finish.injEq] at h
    exact ⟨h.symm, Or.inr rfl⟩

/-- Only `MessageBody` takes the rest, and appends it to the raw body. -/
theorem requestPass_takeRest {st : ParserState} {m : HTTPRequestMessage} {p : Option UInt8}
    {c : UInt8} {f : List UInt8 → RequestState} (h : requestPass (st, m) p c = .takeRest f) :
    st = .messageBody ∧ f = fun rest => (.messageBody, m.pushBackRawBody rest) := by
  rcases st.reading_or with hst | rfl | rfl | rfl | rfl
  · have hr := requestPass_reading hst m p c
    rw [h] at hr
    cases hr
  · rcases requestPass_headerEndLF_cases m p c with ⟨t, ht⟩ | ⟨t, ht⟩ <;> simp [ht] at h
  · rw [requestPass, Pass.takeRest.injEq] at h
    exact ⟨rfl, h.symm⟩
  · simp [requestPass] at h
  · simp [requestPass] at h

/-- The one read outside the allocation. -/
theorem requestPass_fault {st : ParserState} {m : HTTPRequestMessage} {p : Option UInt8} {c : UInt8}
    (h : requestPass (st, m) p c = .fault) : st = .headerValue ∧ c = SP ∧ p = none := by
  rcases st.reading_or with hst | rfl | rfl | rfl | rfl
  · have hr := requestPass_reading hst m p c
    rw [h] at hr
    cases hr with
    | outside hst hc hp => exact ⟨hst, hc, hp⟩
  · rcases requestPass_headerEndLF_cases m p c with ⟨t, ht⟩ | ⟨t, ht⟩ <;> simp [ht] at h
  · simp [requestPass] at h
  · simp [requestPass] at h
  · simp [requestPass] at h

/-! ## What resuming relies on -/

theorem requestPass_settles : Settles requestPass := by
  rintro ⟨st, m⟩ p c s' h
  rcases requestPass_stay h with ⟨rfl, -⟩ | ⟨rfl, hc, rfl⟩ | ⟨rfl, rfl, hr, rfl⟩
  · exact Or.inl rfl
  · exact Or.inr h
  · refine Or.inr ?_
    rw [requestPass_headerEndLF]
    have hm : (m.setRequestType .unsupported).tempHttpMethodHolder = m.tempHttpMethodHolder := rfl
    rw [hm, hr]
    rfl

theorem requestPass_finishStable : FinishStable requestPass := by
  rintro ⟨st, m⟩ p c s' h p' c'
  obtain ⟨rfl, rfl | rfl⟩ := requestPass_finish h <;> rfl

/-- The body may come in as many helpings as there are windows. -/
theorem requestPass_restResumes {st : ParserState} {m : HTTPRequestMessage} {p : Option UInt8}
    {c : UInt8} {f : List UInt8 → RequestState} (h : requestPass (st, m) p c = .takeRest f) :
    RestResumes requestPass f := by
  obtain ⟨rfl, rfl⟩ := requestPass_takeRest h
  intro r q d
  refine ⟨_, rfl, ?_⟩
  intro r'
  simp only [HTTPRequestMessage.pushBackRawBody, List.append_assoc]

theorem requestPass_resumable (w : List UInt8) (s : RequestState) (p : Option UInt8) :
    Resumable requestPass w s p :=
  resumable_of_forall (fun _ _ _ _ h => requestPass_restResumes h) w s p

end Blueth.Http
