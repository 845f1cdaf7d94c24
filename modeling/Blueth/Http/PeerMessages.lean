/-
# Blueth.Http.PeerMessages — messages that arrive at a parser through a buffer, and where they come from.

`connection` of `Blueth.Concurrency.PeerScan` with the two parsers in it: reads that store anything are into an
empty window, no byte is shown twice, and only what has been shown is passed over or cleared away. `peer_request`
is for every run of these steps: whatever comes in and however it is cut, the parser is where one call on the bytes
it has been shown would be, and its next call comes back exactly when one call on all that has been received does;
but a `clear` inside a header value makes a space that follows undefined behaviour.

`request_delivered` puts the other end to it. A peer appends the text of a request to a buffer and sends from
it, and what has arrived is any beginning of what went over the wire.
-/
import Blueth.Concurrency.PeerScan
import Blueth.Http.RequestRoundTrip
import Blueth.Http.ResponseRuns
import Blueth.Http.WindowOnly

set_option autoImplicit false

namespace Blueth.Http

open Blueth.Scan Blueth.Io Blueth.Io.RawIOBuffer Blueth.Concurrency

/-! ## Requests -/

theorem requestPass_looksBehind :
    LooksBehind requestPass fun (s : RequestState) c => s.1 = .headerValue ∧ c = SP where
  ignores := requestPass_behind
  stays := by
    rintro ⟨st, m⟩ p c s' - h
    rcases requestPass_stay h with ⟨rfl, -⟩ | ⟨-, -, rfl⟩ | ⟨-, -, -, rfl⟩ <;> simp
  needs := by
    rintro ⟨st, m⟩ c ⟨rfl, rfl⟩
    simp [requestPass, show ¬ SP = CR by decide]

/-- One call on these bytes, in a buffer of their own, ends in `st` with the message `m`. -/
def RequestIn (bytes : List UInt8) (st : ParserState) (m : HTTPRequestMessage) : Prop :=
  RequestReturns (.holding [] bytes) .requestLineBegin .create st m

theorem requestIn_iff {bytes : List UInt8} {st : ParserState} {m : HTTPRequestMessage} :
    RequestIn bytes st m ↔
      ∃ left, outcome requestPass bytes (.requestLineBegin, .create) none = .returned (st, m) left := by
  have h := returns_iff (b := .holding [] bytes) (s := (ParserState.requestLineBegin, HTTPRequestMessage.create))
    (t := (st, m)) requestPass_settles
  rw [IOBuffer.data_holding, IOBuffer.byteBefore_holding_nil] at h
  exact h

/-- A connection that is read for a request. -/
abbrev requestConnection := connection requestPass (.requestLineBegin, .create)

section Requests

variable {c₀ c : Connection RequestState} {arrivals : List Arrival}

theorem request_follows (h₀ : requestConnection.init c₀) (hr : requestConnection.Run c₀ arrivals c) :
    Follows requestPass (.requestLineBegin, .create) c (streamOf arrivals) :=
  connection_follows requestPass_settles requestPass_finishStable requestPass_looksBehind h₀ hr
    (requestPass_resumable _ _ _)

/-- **A request, however it arrives.** In every state of every run of `requestConnection`, whose reads are into an
empty window and whose parser is shown no byte twice: the parser's state and message are those of one call on
everything it has been shown; the window holds what is waiting, behind what the last call was shown and has not
been passed over; and the next call comes back in a state and with a message exactly when one call on everything
received does, unless the buffer has been cleared inside a header value and a space comes next. -/
theorem peer_request (h₀ : requestConnection.init c₀) (hr : requestConnection.Run c₀ arrivals c) :
    RequestIn (streamOf arrivals).scanned c.parser.1 c.parser.2 ∧
      (∃ last, last <:+ (streamOf arrivals).scanned ∧ last.length = (c.shown.getD 0).toNat ∧
        c.buffer.data = last ++ (streamOf arrivals).waiting) ∧
      (c.shown = none → ∀ st m, RequestReturns c.buffer.toIOBuffer c.parser.1 c.parser.2 st m ↔
        RequestIn (streamOf arrivals).received st m ∧
          ¬ (c.buffer.startOffset = 0 ∧ c.parser.1 = .headerValue ∧
            (streamOf arrivals).waiting.head? = some SP)) := by
  have h := request_follows h₀ hr
  refine ⟨requestIn_iff.mpr h.parser, ?_, ?_⟩
  · obtain ⟨past, last, hscanned, hlast, hdata, -⟩ := h.window
    exact ⟨last, ⟨past, hscanned.symm⟩, hlast, hdata⟩
  · intro hshown st m
    have hnext := h.returns_iff requestPass_settles requestPass_finishStable requestPass_looksBehind hshown
      (requestPass_resumable _ _ _) (t := (st, m))
    rw [requestIn_iff]
    refine hnext.trans (and_congr_right fun _ => ?_)
    constructor
    · rintro hblind ⟨hzero, hvalue, hhead⟩
      exact hblind hzero SP hhead ⟨hvalue, rfl⟩
    · rintro hnot hzero d hd ⟨hvalue, rfl⟩
      exact hnot ⟨hzero, hvalue, hd⟩

/-- A buffer of 18 bytes, in which `GET /` arrives, and then the rest of the request before the first window has
been passed over. -/
def asyncStart : Connection RequestState := ⟨fresh.grown 18 fun _ => 0, (.requestLineBegin, .create), none⟩

def asyncArrivals : List Arrival :=
  [.appended (str "GET /"), .parsed, .appended (str " HTTP/1.1\r\n\r\n"), .passed, .parsed]

def asyncEnd : Connection RequestState where
  buffer := ⟨some (str "GET / HTTP/1.1\r\n\r\n"), 5, 18, 18⟩
  parser := (.parsingDone, (⟨str "GET", str "/", ch '1', str "1", [], []⟩ : RequestHead).result .parsingDone .get [])
  shown := some 13

theorem async_init : requestConnection.init asyncStart := ⟨⟨some fun _ => 0, 18, by decide⟩, rfl, rfl⟩

theorem async_run : requestConnection.Run asyncStart asyncArrivals asyncEnd := by
  let m : HTTPRequestMessage :=
    { HTTPRequestMessage.create with tempHttpMethodHolder := str "GET", targetResource := str "/" }
  let text : List UInt8 := str "GET / HTTP/1.1\r\n\r\n"
  let c₁ : Connection RequestState :=
    ⟨⟨some (str "GET /" ++ List.replicate 13 0), 0, 5, 18⟩, (.requestLineBegin, .create), none⟩
  let c₂ : Connection RequestState := ⟨c₁.buffer, (.requestResource, m), some 5⟩
  let c₃ : Connection RequestState := ⟨⟨some text, 0, 18, 18⟩, c₂.parser, some 5⟩
  let c₄ : Connection RequestState := ⟨⟨some text, 5, 18, 18⟩, c₂.parser, none⟩
  have h1 : requestConnection.next asyncStart (.appended (str "GET /")) c₁ :=
    ⟨by decide, rfl, rfl, 2, fun _ => none, by decide⟩
  have h2 : requestConnection.next c₁ .parsed c₂ := ⟨rfl, by decide, rfl, 10, [], by decide⟩
  have h3 : requestConnection.next c₂ (.appended (str " HTTP/1.1\r\n\r\n")) c₃ :=
    ⟨by decide, rfl, rfl, 2, fun _ => none, by decide⟩
  have h4 : requestConnection.next c₃ .passed c₄ := ⟨5, rfl, by decide, rfl, rfl, by decide⟩
  have h5 : requestConnection.next c₄ .parsed asyncEnd := ⟨rfl, by decide, rfl, 20, [], by decide⟩
  exact .cons h1 (.cons h2 (.cons h3 (.cons h4 (.single h5))))

theorem peer_request_async :
    RequestIn (str "GET / HTTP/1.1\r\n\r\n") asyncEnd.parser.1 asyncEnd.parser.2 :=
  (peer_request async_init async_run).1

end Requests

/-! ## From the sender's buffer to the receiver's parser -/

section Delivery

/-- The states from which no byte is consumed one at a time. -/
theorem requestPass_ne_advance {st : ParserState} (h : st.Accepting ∨ st = .protocolError)
    (m : HTTPRequestMessage) (p : Option UInt8) (c : UInt8) (s' : RequestState) :
    requestPass (st, m) p c ≠ .advance s' := by
  rcases h with (rfl | rfl) | rfl <;> simp [requestPass]

/-- A proper beginning of a head leads to a state in which nothing is decided. -/
theorem feed_take_requestHead {h : RequestHead} {st : ParserState} {type : HTTPRequestType}
    (hh : h.Accepted st type) {k : ℕ} (hk : k < h.bytes.length) (p : Option UInt8) :
    ∃ st₁ m₁, feed requestPass (.requestLineBegin, .create) p (h.bytes.take k) = some (st₁, m₁) ∧
      ¬ st₁.Accepting ∧ st₁ ≠ .protocolError := by
  have hall := feed_bytes hh p
  rw [← List.take_append_drop k h.bytes, feed_append] at hall
  obtain ⟨⟨st₁, m₁⟩, hfeed, hrest⟩ := Option.bind_eq_some_iff.mp hall
  refine ⟨st₁, m₁, hfeed, not_or.mp ?_⟩
  intro hdecided
  -- the next byte of the head is consumed
  obtain ⟨c, v, hcv⟩ := List.exists_cons_of_ne_nil (l := h.bytes.drop k) (by simpa using hk)
  rw [hcv] at hrest
  cases hp : requestPass (st₁, m₁) (behind p (h.bytes.take k)) c with
  | advance s' => exact requestPass_ne_advance hdecided m₁ _ c s' hp
  | _ => simp [feed, hp] at hrest

/-- The request with the first `n` bytes of its body. -/
def HTTPRequestMessage.withBodyUpTo (m : HTTPRequestMessage) (n : ℕ) : HTTPRequestMessage :=
  { m with rawBody := m.rawBody.take n }

theorem HTTPRequestMessage.Plain.withBodyUpTo {m : HTTPRequestMessage} (hm : m.Plain) (n : ℕ) :
    (m.withBodyUpTo n).Plain := by
  refine ⟨hm.known, hm.version, hm.target, hm.names, hm.values, fun hdone => ?_⟩
  show m.rawBody.take n = []
  rw [hm.body hdone, List.take_nil]

theorem buildRawMessage_withBodyUpTo (m : HTTPRequestMessage) (it : m.httpHeaders.Iteration) (n : ℕ) :
    HTTPRequestMessage.buildRawMessage (m.withBodyUpTo n) it = (headOf m it).bytes ++ m.rawBody.take n :=
  buildRawMessage_eq (m.withBodyUpTo n) it

/-- **What a beginning of a request's text is parsed to.** Nothing is decided before the head is complete, and
from there on the request is there, with as much of its body as has been shown. -/
theorem requestIn_beginning {m : HTTPRequestMessage} (hm : m.Plain) (it : m.httpHeaders.Iteration)
    {bytes : List UInt8} (hbegins : bytes <+: m.buildRawMessage it) {st : ParserState}
    {m' : HTTPRequestMessage} (h : RequestIn bytes st m') :
    (bytes.length < (headOf m it).bytes.length → ¬ st.Accepting ∧ st ≠ .protocolError) ∧
      ((headOf m it).bytes.length ≤ bytes.length → st = endState m.requestType ∧
        SameRequest (m.withBodyUpTo (bytes.length - (headOf m it).bytes.length)) m') := by
  have hh := headOf_accepted hm it
  rw [buildRawMessage_eq] at hbegins
  obtain ⟨left, ho⟩ := requestIn_iff.mp h
  constructor
  · intro hlt
    obtain ⟨st₁, m₁, hfeed, hundecided⟩ := feed_take_requestHead hh hlt none
    have hbytes : bytes = (headOf m it).bytes.take bytes.length :=
      (List.prefix_iff_eq_take.mp hbegins).trans (List.take_append_of_le_length (Nat.le_of_lt hlt))
    rw [hbytes, outcome_of_feed hfeed, Outcome.returned.injEq, Prod.mk.injEq] at ho
    obtain ⟨⟨rfl, rfl⟩, -⟩ := ho
    exact hundecided
  · intro hle
    -- the bytes are the whole text of a request with this much of the body
    have hcut := List.prefix_iff_eq_take.mp hbegins
    rw [List.take_append, List.take_of_length_le hle, ← buildRawMessage_withBodyUpTo] at hcut
    obtain ⟨m₁, hret, hsame⟩ := reparse_of_plain (hm.withBodyUpTo _) it (b := .holding [] bytes)
      ((IOBuffer.data_holding _ _).trans hcut)
    have heq := returns_unique requestPass_settles hret h
    obtain ⟨rfl, rfl⟩ := Prod.mk.inj heq
    exact ⟨rfl, hsame⟩

variable {m : HTTPRequestMessage} {o : Outbox} {c₀ c : Connection RequestState} {arrivals : List Arrival}

theorem outbox_exact (ho : (outbox.only SendsWindow).Reachable o) : o.Exact := by
  apply ho.invariant
  · rintro o ⟨⟨grant, capacity, hb⟩, hwire, happ⟩
    obtain ⟨hwf, hdata, -⟩ := wellFormed_of_create hb
    exact ⟨hwf, by rw [hwire, happ, hdata]; rfl⟩
  · intro o call o' _ ho hn
    exact outbox_step ho hn.1 hn.2

/-- What went over the wire is a beginning of what was appended. -/
theorem wire_begins (ho : (outbox.only SendsWindow).Reachable o) : o.wire <+: o.appended :=
  ⟨_, (outbox_exact ho).conserved⟩

/-- **A request from end to end.** One side appends the text of a request, in any portions, and sends from its
buffer with `send`s that take nothing or the window; the other side has received a beginning of what went over
the wire, in any portions, by the steps of `requestConnection`. Until the parser has been shown the whole head it
has neither accepted nor refused; from then on it has accepted, and its message is the request, with as much of
the body as it has been shown. -/
theorem request_delivered (hm : m.Plain) (it : m.httpHeaders.Iteration)
    (ho : (outbox.only SendsWindow).Reachable o) (htext : o.appended <+: m.buildRawMessage it)
    (h₀ : requestConnection.init c₀) (hr : requestConnection.Run c₀ arrivals c)
    (hwire : (streamOf arrivals).received <+: o.wire) :
    ((streamOf arrivals).scanned.length < (headOf m it).bytes.length →
      ¬ c.parser.1.Accepting ∧ c.parser.1 ≠ .protocolError) ∧
    ((headOf m it).bytes.length ≤ (streamOf arrivals).scanned.length →
      c.parser.1 = endState m.requestType ∧
      SameRequest (m.withBodyUpTo ((streamOf arrivals).scanned.length - (headOf m it).bytes.length))
        c.parser.2) := by
  have hshown : (streamOf arrivals).scanned <+: m.buildRawMessage it :=
    ((List.prefix_append _ _).trans hwire).trans ((wire_begins ho).trans htext)
  exact requestIn_beginning hm it hshown (requestIn_iff.mpr (request_follows h₀ hr).parser)

/-- `GET /` without headers. -/
def bareGet : HTTPRequestMessage := { HTTPRequestMessage.create with requestType := .get, targetResource := str "/" }

theorem bareGet_plain : bareGet.Plain where
  known := .inl rfl
  version := rfl
  target := by
    intro c hc
    rw [List.mem_singleton.mp (show c ∈ [ch '/'] from hc)]
    decide
  names := fun p hp => absurd hp List.not_mem_nil
  values := fun p hp => absurd hp List.not_mem_nil
  body := fun _ => rfl

/-- The whole text, sent at once and read as above. -/
theorem request_delivered_async :
    asyncEnd.parser.1 = endState .get ∧ SameRequest (bareGet.withBodyUpTo 0) asyncEnd.parser.2 := by
  let text : List UInt8 := bareGet.buildRawMessage (.ofInsertion _)
  let o₀ : Outbox := ⟨fresh.grown 18 fun _ => 0, [], []⟩
  let o₁ : Outbox := ⟨⟨some text, 0, 18, 18⟩, [], text⟩
  let o₂ : Outbox := ⟨⟨some text, 18, 18, 18⟩, text, text⟩
  have h1 : (outbox.only SendsWindow).next o₀ (.append text) o₁ :=
    ⟨trivial, by decide, rfl, 2, fun _ => none, .inl ⟨by decide, rfl⟩⟩
  have h2 : (outbox.only SendsWindow).next o₁ (.write ⟨18, false⟩) o₂ :=
    ⟨by show TakesWindow _ _; decide, by decide, by decide, by decide, by decide, rfl⟩
  have ho : (outbox.only SendsWindow).Reachable o₂ :=
    ⟨o₀, _, ⟨⟨some fun _ => 0, 18, by decide⟩, rfl, rfl⟩, .cons h1 (.single h2)⟩
  exact (request_delivered bareGet_plain (.ofInsertion _) ho (List.prefix_refl _) async_init async_run
    (by decide)).2 (by decide)

end Delivery

end Blueth.Http
