/-
# Blueth.Http.ResponseParser — `ParseHTTP1_1ResponseMessage` (`http/HTTPParserStateMachineResponse.hpp`).

`responsePass` is the body of the loop, one `case` a state. Against the request parser:

* every failed test has its `else`, so a pass that keeps the pointer ALWAYS goes to `ProtocolError`;
* `HeaderValue` looks at `*(start_buffer - 1)` for every text byte, not only for a space, and skips the
  byte, whatever it is, when a colon stands before it;
* the blank line decides on the body by the PRESENCE of a `Content-Length` header. Its value is not
  read: `ResponseMessageBody` takes what the window holds, and goes to `ParsingDone`.
-/
import Blueth.Http.Message
import Blueth.Io.BufferScan

set_option autoImplicit false

namespace Blueth.Http

open Blueth.Scan Blueth.Io

/-- What the response loop carries: `current_state` and `http_message`. -/
abbrev ResponseState := ResponseParserState × HTTPResponseMessage

/-- Test one byte: on success go to `next` and past the byte, otherwise to `ProtocolError`. -/
def expectResponseByte (ok : Bool) (next : ResponseParserState) (m : HTTPResponseMessage) :
    Pass ResponseState UInt8 :=
  if ok then .advance (next, m) else .stay (.protocolError, m)

/-- The state behind the blank line. -/
def afterBlankLine (headers : HTTPHeaders) : ResponseParserState :=
  if headers.headerContains (str "Content-Length") then .responseMessageBody else .parsingDone

/-- The body of the loop. -/
def responsePass : Scanner ResponseState UInt8 := fun (st, m) behind c =>
  match st with
  | .responseProtocolH => expectResponseByte (c == ch 'H') .responseProtocolT1 m
  | .responseProtocolT1 => expectResponseByte (c == ch 'T') .responseProtocolT2 m
  | .responseProtocolT2 => expectResponseByte (c == ch 'T') .responseProtocolP m
  | .responseProtocolP => expectResponseByte (c == ch 'P') .responseProtocolSlash m
  | .responseProtocolSlash => expectResponseByte (c == ch '/') .responseProtocolVersionMajor m
  | .responseProtocolVersionMajor => expectResponseByte (c == ch '1') .responseProtocolDot m
  | .responseProtocolDot => expectResponseByte (c == ch '.') .responseProtocolVersionMinor m
  | .responseProtocolVersionMinor =>
      if isDigit c then .advance (.responseProtocolVersionMinor, m.setHTTPVersion .http1_1)
      else if c = SP then .advance (.statusCode, m)
      else .stay (.protocolError, m)
  | .statusCode =>
      if isDigit c then .advance (.statusCode, m.pushBackResponseCode c)
      else if c = SP then
        .advance (.responseReasonPhrase, m.setResponseCode (atoi m.getTempStatusCode))
      else .stay (.protocolError, m)
  | .responseReasonPhrase =>
      if c = CR then .advance (.statusLineLF, m)
      else if isText c then .advance (.responseReasonPhrase, m)
      else .stay (.protocolError, m)
  | .statusLineLF => expectResponseByte (c == LF) .headerName m
  | .headerName =>
      if isToken c then .advance (.headerName, m.pushBackHeaderName c)
      else if c = ch ':' then .advance (.headerValue, m)
      else if c = CR then .advance (.headerEndLF, m)
      else .stay (.protocolError, m)
  | .headerValue =>
      if c = CR then .advance (.headerValueLF, m)
      else if isText c then
        match behind with
        | none => .fault
        | some b =>
          if b = ch ':' then .advance (.headerValue, m)
          else .advance (.headerValue, m.pushBackHeaderValue c)
      else .stay (.protocolError, m)
  | .headerValueLF =>
      if c = LF then .advance (.headerName, m.addTempHeadersHolderToMessage)
      else .stay (.protocolError, m)
  | .headerEndLF => expectResponseByte (c == LF) (afterBlankLine m.httpHeaders) m
  | .responseMessageBody => .takeRest fun rest => (.parsingDone, m.pushBackRawBody rest)
  | .parsingDone => .finish (.parsingDone, m)
  | .protocolError => .finish (.protocolError, m)

/-- `ParseHTTP1_1ResponseMessage`, at most `fuel` passes of its loop. -/
def parseHTTP1_1ResponseMessage (fuel : ℕ) (responseMessage : IOBuffer)
    (currentState : ResponseParserState) (httpMessage : HTTPResponseMessage) :
    Outcome ResponseState UInt8 :=
  scanBuffer responsePass fuel responseMessage (currentState, httpMessage)

/-- A call returns, with the given state and message. -/
def ResponseReturns (b : IOBuffer) (st : ResponseParserState) (m : HTTPResponseMessage)
    (st' : ResponseParserState) (m' : HTTPResponseMessage) : Prop :=
  ∃ fuel left, parseHTTP1_1ResponseMessage fuel b st m = .returned (st', m') left

/-- The calls on consecutive windows, from `ResponseProtocolH` and a fresh message, all return; `st`
and `m` are what the last one leaves. -/
def ResponseWindowsReturn (b : IOBuffer) (windows : List ℕ) (uninit : UInt8 × UInt8 × UInt8)
    (st : ResponseParserState) (m : HTTPResponseMessage) : Prop :=
  WindowsReturn responsePass b windows (.responseProtocolH, .create uninit) (st, m)

/-! ## The laws of the loop -/

/-- The states behind the blank line. -/
def ResponseParserState.Accepting (st : ResponseParserState) : Prop :=
  st = .parsingDone ∨ st = .responseMessageBody

theorem afterBlankLine_accepting (headers : HTTPHeaders) : (afterBlankLine headers).Accepting := by
  unfold afterBlankLine
  split_ifs
  · exact Or.inr rfl
  · exact Or.inl rfl

/-- What one pass can be. -/
inductive ResponsePass (st : ResponseParserState) (m : HTTPResponseMessage) (p : Option UInt8)
    (c : UInt8) : Pass ResponseState UInt8 → Prop where
  /-- the head goes on -/
  | move {st' : ResponseParserState} {m' : HTTPResponseMessage} (hacc : ¬ st'.Accepting) :
      ResponsePass st m p c (.advance (st', m'))
  /-- the LF of the blank line -/
  | blankLine (hst : st = .headerEndLF) (hc : c = LF) :
      ResponsePass st m p c (.advance (afterBlankLine m.httpHeaders, m))
  /-- a byte that may not stand here -/
  | fail (hst : st ≠ .protocolError) : ResponsePass st m p c (.stay (.protocolError, m))
  /-- the look-behind of `HeaderValue` at the very start of the allocation -/
  | outside (hst : st = .headerValue) (hc : isText c) (hp : p = none) : ResponsePass st m p c .fault
  | body (hst : st = .responseMessageBody) :
      ResponsePass st m p c (.takeRest fun rest => (.parsingDone, m.pushBackRawBody rest))
  | final (hst : st = .parsingDone ∨ st = .protocolError) : ResponsePass st m p c (.finish (st, m))

theorem ResponsePass.expectResponseByte {st next : ResponseParserState} {m : HTTPResponseMessage}
    {p : Option UInt8} {c : UInt8} {ok : Bool} (hst : st ≠ .protocolError) (hacc : ¬ next.Accepting) :
    ResponsePass st m p c (expectResponseByte ok next m) := by
  unfold Http.expectResponseByte
  split_ifs
  · exact .move hacc
  · exact .fail hst

/-- **What a pass does**, one case a state. -/
theorem responsePass_cases (st : ResponseParserState) (m : HTTPResponseMessage) (p : Option UInt8)
    (c : UInt8) : ResponsePass st m p c (responsePass (st, m) p c) := by
  cases st with
  | responseProtocolVersionMinor =>
      simp only [responsePass]
      split_ifs
      · exact .move (by simp [ResponseParserState.Accepting])
      · exact .move (by simp [ResponseParserState.Accepting])
      · exact .fail (by simp)
  | statusCode =>
      simp only [responsePass]
      split_ifs
      · exact .move (by simp [ResponseParserState.Accepting])
      · exact .move (by simp [ResponseParserState.Accepting])
      · exact .fail (by simp)
  | responseReasonPhrase =>
      simp only [responsePass]
      split_ifs
      · exact .move (by simp [ResponseParserState.Accepting])
      · exact .move (by simp [ResponseParserState.Accepting])
      · exact .fail (by simp)
  | headerName =>
      simp only [responsePass]
      split_ifs
      · exact .move (by simp [ResponseParserState.Accepting])
      · exact .move (by simp [ResponseParserState.Accepting])
      · exact .move (by simp [ResponseParserState.Accepting])
      · exact .fail (by simp)
  | headerValue =>
      simp only [responsePass]
      split_ifs with hcr ht
      · exact .move (by simp [ResponseParserState.Accepting])
      · cases p with
        | none => exact .outside rfl ht rfl
        | some b =>
            simp only
            split_ifs
            · exact .move (by simp [ResponseParserState.Accepting])
            · exact .move (by simp [ResponseParserState.Accepting])
      · exact .fail (by simp)
  | headerValueLF =>
      simp only [responsePass]
      split_ifs
      · exact .move (by simp [ResponseParserState.Accepting])
      · exact .fail (by simp)
  | headerEndLF =>
      simp only [responsePass, expectResponseByte]
      split_ifs with hc
      · exact .blankLine rfl (by simpa using hc)
      · exact .fail (by simp)
  | responseMessageBody => exact .body rfl
  | parsingDone => exact .final (Or.inl rfl)
  | protocolError => exact .final (Or.inr rfl)
  | _ => exact .expectResponseByte (by simp) (by simp [ResponseParserState.Accepting])

section Inversion

variable {st st' : ResponseParserState} {m m' : HTTPResponseMessage} {p : Option UInt8} {c : UInt8}
  {s' : ResponseState}

/-- The accepting states are entered at the LF of the blank line only. -/
theorem responsePass_advance (h : responsePass (st, m) p c = .advance (st', m')) :
    ¬ st'.Accepting ∨
      (st = .headerEndLF ∧ c = LF ∧ m' = m ∧ st' = afterBlankLine m.httpHeaders) := by
  have hc := responsePass_cases st m p c
  rw [h] at hc
  cases hc with
  | move hacc => exact Or.inl hacc
  | blankLine hst hlf => exact Or.inr ⟨hst, hlf, rfl, rfl⟩

theorem responsePass_stay (h : responsePass (st, m) p c = .stay s') :
    s' = (.protocolError, m) ∧ st ≠ .protocolError := by
  have hc := responsePass_cases st m p c
  rw [h] at hc
  cases hc with
  | fail hst => exact ⟨rfl, hst⟩

theorem responsePass_finish (h : responsePass (st, m) p c = .finish s') :
    s' = (st, m) ∧ (st = .parsingDone ∨ st = .protocolError) := by
  have hc := responsePass_cases st m p c
  rw [h] at hc
  cases hc with
  | final hst => exact ⟨rfl, hst⟩

theorem responsePass_takeRest {f : List UInt8 → ResponseState}
    (h : responsePass (st, m) p c = .takeRest f) :
    st = .responseMessageBody ∧ f = fun rest => (.parsingDone, m.pushBackRawBody rest) := by
  have hc := responsePass_cases st m p c
  rw [h] at hc
  cases hc with
  | body hst => exact ⟨hst, rfl⟩

theorem responsePass_fault (h : responsePass (st, m) p c = .fault) :
    st = .headerValue ∧ isText c ∧ p = none := by
  have hc := responsePass_cases st m p c
  rw [h] at hc
  cases hc with
  | outside hst hc hp => exact ⟨hst, hc, hp⟩

end Inversion

/-! ## What resuming relies on -/

theorem responsePass_settles : Settles responsePass := by
  rintro ⟨st, m⟩ p c s' h
  obtain ⟨rfl, -⟩ := responsePass_stay h
  exact Or.inl rfl

theorem responsePass_finishStable : FinishStable responsePass := by
  rintro ⟨st, m⟩ p c s' h p' c'
  obtain ⟨rfl, rfl | rfl⟩ := responsePass_finish h <;> rfl

/-- Behind the head nothing is read byte by byte any more. -/
theorem responsePass_ne_advance {st : ResponseParserState} (hacc : st.Accepting)
    (m : HTTPResponseMessage) (p : Option UInt8) (c : UInt8) (s' : ResponseState) :
    responsePass (st, m) p c ≠ .advance s' := by
  rcases hacc with rfl | rfl <;> simp [responsePass]

/-- **A call comes back**: from every state, unless it starts in `HeaderValue` at the very start of the
allocation, where the look-behind has nothing to look at. -/
theorem outcome_responsePass_returned {st : ResponseParserState} {p : Option UInt8}
    (h : st ≠ .headerValue ∨ p ≠ none) (m : HTTPResponseMessage) (w : List UInt8) :
    ∃ t left, outcome responsePass w (st, m) p = .returned t left := by
  induction w generalizing st m p with
  | nil => exact ⟨(st, m), [], rfl⟩
  | cons c w ih =>
      cases hp : responsePass (st, m) p c with
      | advance s' =>
          obtain ⟨st', m'⟩ := s'
          simp only [outcome, hp]
          exact ih (.inr (by simp)) m'
      | finish s' =>
          simp only [outcome, hp]
          exact ⟨_, _, rfl⟩
      | takeRest f =>
          simp only [outcome, hp]
          exact ⟨_, _, rfl⟩
      | fault =>
          obtain ⟨rfl, -, rfl⟩ := responsePass_fault hp
          simp at h
      | stay s' =>
          obtain ⟨rfl, -⟩ := responsePass_stay hp
          exact ⟨_, _, outcome_stay_finish hp rfl w⟩

end Blueth.Http
