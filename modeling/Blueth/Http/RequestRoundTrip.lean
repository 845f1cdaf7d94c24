/-
# Blueth.Http.RequestRoundTrip — `buildRawMessage` against `ParseHTTP1_1RequestMessage`.

The serialised request is the text of ONE head, `headOf`, followed by the body, so `requestAccepts_iff`
decides what reading it back gives, in both directions:

* `requestRoundTrips_iff`: a well-formed message comes back exactly when its version is `HTTP1_1` and
  no header value holds a space. Inside a value the parser refuses a space, or drops it behind a colon,
  and the serialiser writes `HTTP/1.1` whatever the version is.
* `requestReparse`: what the parser itself has produced ALWAYS comes back; its messages are `Plain`.
-/
import Blueth.Http.RequestHead

set_option autoImplicit false

namespace Blueth.Http

open Blueth.Scan Blueth.Io

/-! ## The head that `buildRawMessage` writes -/

/-- The method word without its space. -/
def methodToken (type : HTTPRequestType) : List UInt8 :=
  (HTTPRequestMessage.methodWord type).dropLast

/-- The types the parser can produce. -/
def HTTPRequestType.Known (type : HTTPRequestType) : Prop :=
  type = .get ∨ type = .head ∨ type = .post ∨ type = .put

instance (type : HTTPRequestType) : Decidable type.Known :=
  inferInstanceAs (Decidable (_ ∨ _ ∨ _ ∨ _))

/-- The state after the head of such a request: only POST and PUT carry a body. -/
def endState : HTTPRequestType → ParserState
  | .post | .put => .messageBody
  | _ => .parsingDone

/-- The start line and the header lines of the serialised message. -/
def headOf (m : HTTPRequestMessage) (it : m.httpHeaders.Iteration) : RequestHead where
  method := methodToken m.requestType
  target := m.targetResource
  major := ch '1'
  minor := str "1"
  lines := it.order.map HeaderLine.ofHeader
  trailing := []

theorem methodWord_eq (type : HTTPRequestType) :
    HTTPRequestMessage.methodWord type = methodToken type ++ [SP] := by
  cases type <;> decide

theorem methodToken_token (type : HTTPRequestType) : ∀ c ∈ methodToken type, isToken c := by
  refine List.all_eq_true.mp ?_
  cases type <;> decide

theorem methodToken_ne (type : HTTPRequestType) : methodToken type ≠ [] := by
  cases type <;> decide

theorem recognise_methodToken {type : HTTPRequestType} (h : type.Known) :
    recognise (methodToken type) = some (endState type, type) := by
  rcases h with rfl | rfl | rfl | rfl <;> decide

/-- What `recognise` answers is a known type with its end state. -/
theorem recognise_known {method : List UInt8} {st : ParserState} {type : HTTPRequestType}
    (h : recognise method = some (st, type)) : type.Known ∧ st = endState type := by
  rcases recognise_cases h with ⟨rfl, rfl | rfl⟩ | ⟨rfl, rfl | rfl⟩ <;> decide

/-- **The serialised request is a head and the body.** -/
theorem buildRawMessage_eq (m : HTTPRequestMessage) (it : m.httpHeaders.Iteration) :
    m.buildRawMessage it = (headOf m it).bytes ++ m.rawBody := by
  have hversion : str "HTTP/1.1" = str "HTTP/" ++ ch '1' :: ch '.' :: str "1" := by decide
  have hcrlf : str "\r\n" = [CR, LF] := by decide
  have hsp : str " " = [SP] := by decide
  unfold HTTPRequestMessage.buildRawMessage RequestHead.bytes RequestHead.toLastCR
  rw [methodWord_eq, buildRawHeader_eq, hversion, hcrlf, hsp]
  simp [headOf]

/-- Token names, text values and a printable target make the head a shaped one. -/
theorem headOf_shaped {m : HTTPRequestMessage} (it : m.httpHeaders.Iteration)
    (htarget : ∀ c ∈ m.targetResource, isTargetByte c)
    (hname : ∀ p ∈ m.httpHeaders.httpHeaders, ∀ c ∈ p.1, isToken c)
    (hvalue : ∀ p ∈ m.httpHeaders.httpHeaders, ∀ c ∈ p.2, isText c) : (headOf m it).Shaped where
  method_ne := methodToken_ne m.requestType
  method_token := methodToken_token m.requestType
  target_print := htarget
  major_digit := by show isDigit (ch '1') = true; decide
  minor_digit := List.all_eq_true.mp (by show (str "1").all isDigit = true; decide)
  lines_shaped := ofHeader_shaped (fun p hp => hname p (it.perm.mem_iff.mp hp))
    (fun p hp => hvalue p (it.perm.mem_iff.mp hp))
  trailing_token := List.forall_mem_nil _

/-- What the parser records of the lines: every value without its spaces. -/
theorem record_ofHeader (headers : List (List UInt8 × List UInt8)) :
    (headers.map HeaderLine.ofHeader).map RequestHead.record
      = headers.map fun p => (p.1, p.2.filter (· != SP)) := by
  rw [List.map_map]
  refine List.map_congr_left ?_
  intro p _
  show (p.1, (SP :: p.2).filter (· != SP)) = _
  simp

/-! ## Reading it back -/

/-- The parts of a request that have to come back; the header stores as maps. -/
structure SameRequest (m m' : HTTPRequestMessage) : Prop where
  requestType : m'.requestType = m.requestType
  targetResource : m'.targetResource = m.targetResource
  httpMessageVersion : m'.httpMessageVersion = m.httpMessageVersion
  httpHeaders : m'.httpHeaders.SameMap m.httpHeaders
  rawBody : m'.rawBody = m.rawBody

/-- **A message that loses nothing on the way**: the invariant behind both round trips. -/
structure HTTPRequestMessage.Plain (m : HTTPRequestMessage) : Prop where
  known : m.requestType.Known
  version : m.httpMessageVersion = .http1_1
  target : ∀ c ∈ m.targetResource, isTargetByte c
  names : ∀ p ∈ m.httpHeaders.httpHeaders, ∀ c ∈ p.1, isToken c
  values : ∀ p ∈ m.httpHeaders.httpHeaders, ∀ c ∈ p.2, isText c ∧ c ≠ SP
  body : endState m.requestType = .parsingDone → m.rawBody = []

/-- Where there is no space, the space rule asks nothing. -/
theorem spacesFollowColon_of_no_space {w : List UInt8} (hw : ∀ c ∈ w, c ≠ SP) (p : Option UInt8) :
    spacesFollowColon p w := by
  induction w generalizing p with
  | nil => trivial
  | cons c w ih =>
      refine ⟨fun h => absurd h (hw c (by simp)), ih ?_ _⟩
      exact fun d hd => hw d (by simp [hd])

/-- The code accepts the head of a plain message. -/
theorem headOf_accepted {m : HTTPRequestMessage} (hm : m.Plain) (it : m.httpHeaders.Iteration) :
    (headOf m it).Accepted (endState m.requestType) m.requestType where
  shaped := headOf_shaped it hm.target hm.names (fun p hp c hc => (hm.values p hp c hc).1)
  recognised := recognise_methodToken hm.known
  spacesOk := by
    intro l hl
    obtain ⟨p, hp, rfl⟩ := List.mem_map.mp hl
    have hp := it.perm.mem_iff.mp hp
    show (SP = SP → some (ch ':') = some (ch ':')) ∧ spacesFollowColon (some SP) p.2
    exact ⟨fun _ => rfl, spacesFollowColon_of_no_space (fun c hc => (hm.values p hp c hc).2) _⟩

/-- **A plain message comes back**, whatever the iteration order of its header map. -/
theorem reparse_of_plain {m : HTTPRequestMessage} (hm : m.Plain) (it : m.httpHeaders.Iteration)
    {b : IOBuffer} (hdata : b.data = m.buildRawMessage it) :
    ∃ m', RequestReturns b .requestLineBegin .create (endState m.requestType) m' ∧
      SameRequest m m' := by
  rw [buildRawMessage_eq] at hdata
  have hret := (requestAccepts_iff.mpr
    ⟨headOf m it, m.requestType, m.rawBody, headOf_accepted hm it, hdata, rfl⟩).1
  refine ⟨_, hret, rfl, rfl, ?_, ?_, ?_⟩
  · rw [hm.version]
    rfl
  · -- the one space that is written is the one that is dropped
    refine sameMap_of_lines (f := fun text => text.filter (· != SP)) it ?_
    intro p hp
    rw [List.filter_cons_of_neg (by simp), List.filter_eq_self]
    intro c hc
    simpa using (hm.values p hp c hc).2
  · show (if endState m.requestType = .messageBody then m.rawBody else []) = m.rawBody
    split
    · rfl
    · rename_i hstate
      rcases hm.known with h | h | h | h <;> rw [h] at hstate
      · exact (hm.body (by rw [h]; rfl)).symm
      · exact (hm.body (by rw [h]; rfl)).symm
      · exact absurd rfl hstate
      · exact absurd rfl hstate

/-! ## Encoding, then decoding -/

/-- The messages the round trip is asked of: known type, a target, proper header names, values of text
bytes with no space at either end, no body for GET and HEAD. -/
structure HTTPRequestMessage.Sendable (m : HTTPRequestMessage) : Prop where
  known : m.requestType.Known
  target_ne : m.targetResource ≠ []
  target : ∀ c ∈ m.targetResource, isTargetByte c
  names_ne : ∀ p ∈ m.httpHeaders.httpHeaders, p.1 ≠ []
  names : ∀ p ∈ m.httpHeaders.httpHeaders, ∀ c ∈ p.1, isToken c
  values : ∀ p ∈ m.httpHeaders.httpHeaders, ∀ c ∈ p.2, isText c
  values_ends : ∀ p ∈ m.httpHeaders.httpHeaders, p.2.head? ≠ some SP ∧ p.2.getLast? ≠ some SP
  body : endState m.requestType = .parsingDone → m.rawBody = []

/-- Parsing the serialised message gives it back, from every buffer that holds it and for every
iteration order. -/
def RequestRoundTrips (m : HTTPRequestMessage) : Prop :=
  ∀ (it : m.httpHeaders.Iteration) (b : IOBuffer), b.data = m.buildRawMessage it →
    ∃ m', RequestReturns b .requestLineBegin .create (endState m.requestType) m' ∧ SameRequest m m'

/-- What comes back has the version `HTTP1_1`, and no space in any value. -/
theorem reparsed_values {m m' : HTTPRequestMessage} (hm : m.Sendable) {b : IOBuffer}
    {it : m.httpHeaders.Iteration} (hdata : b.data = m.buildRawMessage it)
    (hret : RequestReturns b .requestLineBegin .create (endState m.requestType) m') :
    m'.httpMessageVersion = .http1_1 ∧
      ∀ name, m'.getHeaderValue name = (m.getHeaderValue name).map (·.filter (· != SP)) := by
  have hacc : (endState m.requestType).Accepting := by
    rcases hm.known with h | h | h | h <;> rw [h]
    · exact Or.inl rfl
    · exact Or.inl rfl
    · exact Or.inr rfl
    · exact Or.inr rfl
  obtain ⟨h, type, rest, hh, hb, rfl⟩ := requestAccepts_iff.mp ⟨hret, hacc⟩
  rw [hdata, buildRawMessage_eq] at hb
  obtain ⟨rfl, -⟩ :=
    RequestHead.bytes_inj (headOf_shaped it hm.target hm.names hm.values) hh.shaped hb
  refine ⟨rfl, ?_⟩
  intro name
  show (HTTPHeaders.empty.addHeaders
    ((it.order.map HeaderLine.ofHeader).map RequestHead.record)).getHeaderValue name = _
  rw [HTTPHeaders.getHeaderValue_addHeaders, HTTPHeaders.getHeaderValue_empty, Option.none_or,
    record_ofHeader, HTTPHeaders.lookup_map_snd,
    HTTPHeaders.lookup_perm it.perm m.httpHeaders.nodup_names]
  rfl

/-- **Which requests survive serialising and parsing**: those of version `HTTP1_1` without a space in
a header value. -/
theorem requestRoundTrips_iff {m : HTTPRequestMessage} (hm : m.Sendable) :
    RequestRoundTrips m
      ↔ m.httpMessageVersion = .http1_1 ∧ ∀ p ∈ m.httpHeaders.httpHeaders, SP ∉ p.2 := by
  constructor
  · intro h
    obtain ⟨m', hret, hsame⟩ :=
      h (.ofInsertion _) (.holding [] (m.buildRawMessage (.ofInsertion _))) (IOBuffer.data_holding _ _)
    obtain ⟨hversion, hvalues⟩ := reparsed_values hm (IOBuffer.data_holding _ _) hret
    refine ⟨hsame.httpMessageVersion.symm.trans hversion, ?_⟩
    intro p hp hsp
    have hlookup : m.getHeaderValue p.1 = some p.2 :=
      (HTTPHeaders.lookup_eq_some_of_nodup m.httpHeaders.nodup_names).mpr hp
    have hboth : m.getHeaderValue p.1 = (m.getHeaderValue p.1).map (·.filter (· != SP)) :=
      (hsame.httpHeaders p.1).symm.trans (hvalues p.1)
    rw [hlookup, Option.map_some, Option.some.injEq] at hboth
    -- a value that equals its filtered self holds no space
    have hmem := hboth ▸ hsp
    simp at hmem
  · rintro ⟨hversion, hspaces⟩ it b hdata
    refine reparse_of_plain ⟨hm.known, hversion, hm.target, hm.names, ?_, hm.body⟩ it hdata
    intro p hp c hc
    refine ⟨hm.values p hp c hc, ?_⟩
    rintro rfl
    exact hspaces p hp hc

/-- `GET /` with one header. -/
def oneHeaderGet (name value : List UInt8) : HTTPRequestMessage :=
  HTTPRequestMessage.create
    |>.setRequestType .get
    |>.setHTTPTargetResource (str "/")
    |>.addHeader name value

theorem oneHeaderGet_headers (name value : List UInt8) :
    (oneHeaderGet name value).httpHeaders.httpHeaders = [(name, value)] := rfl

theorem oneHeaderGet_sendable {name value : List UInt8} (hne : name ≠ [])
    (hname : name.all isToken = true) (hvalue : value.all isText = true)
    (hends : value.head? ≠ some SP ∧ value.getLast? ≠ some SP) : (oneHeaderGet name value).Sendable := by
  have hone : ∀ p ∈ (oneHeaderGet name value).httpHeaders.httpHeaders, p = (name, value) := by
    intro p hp
    rw [oneHeaderGet_headers] at hp
    exact List.mem_singleton.mp hp
  have htarget : (oneHeaderGet name value).targetResource = [ch '/'] := by
    show str "/" = [ch '/']
    decide
  refine ⟨Or.inl rfl, by simp [htarget], ?_, ?_, ?_, ?_, ?_, fun _ => rfl⟩
  · intro c hc
    rw [htarget, List.mem_singleton] at hc
    rw [hc]
    decide
  · intro p hp
    rw [hone p hp]
    exact hne
  · intro p hp
    rw [hone p hp]
    exact List.all_eq_true.mp hname
  · intro p hp
    rw [hone p hp]
    exact List.all_eq_true.mp hvalue
  · intro p hp
    rw [hone p hp]
    exact hends

/-- The value of a well-behaved header comes back. -/
theorem requestRoundTrips_iff_host : RequestRoundTrips (oneHeaderGet (str "Host") (str "a:80")) := by
  have hm : (oneHeaderGet (str "Host") (str "a:80")).Sendable :=
    oneHeaderGet_sendable (by decide) (by decide) (by decide) (by decide)
  exact (requestRoundTrips_iff hm).mpr ⟨rfl, by decide⟩

/-- **A space inside a value is refused**: `GET /` with `A: b c` does not come back. -/
theorem request_inner_space_lost :
    (oneHeaderGet (str "A") (str "b c")).Sendable ∧
      ¬ RequestRoundTrips (oneHeaderGet (str "A") (str "b c")) := by
  refine ⟨oneHeaderGet_sendable (by decide) (by decide) (by decide) (by decide), ?_⟩
  intro h
  have hb : (IOBuffer.holding [] (str "GET / HTTP/1.1\r\nA: b c\r\n\r\n")).data
      = (oneHeaderGet (str "A") (str "b c")).buildRawMessage (.ofInsertion _) := by
    rw [IOBuffer.data_holding]
    decide
  obtain ⟨m', hret, -⟩ := h (.ofInsertion _) _ hb
  obtain ⟨left, ho⟩ := (returns_iff requestPass_settles).mp hret
  have hrun : ∃ m left, outcome requestPass
      (IOBuffer.holding [] (str "GET / HTTP/1.1\r\nA: b c\r\n\r\n")).data
      (.requestLineBegin, .create) none = .returned (.protocolError, m) left := ⟨_, _, rfl⟩
  obtain ⟨m₁, l₁, hrun⟩ := hrun
  have heq := hrun.symm.trans ho
  rw [Outcome.returned.injEq, Prod.mk.injEq] at heq
  exact absurd heq.1.1 (by decide)

/-! ## Decoding, then encoding -/

/-- **What the parser produces is plain**: the bytes that can enter a target, a name or a value. -/
theorem RequestHead.Accepted.plain {h : RequestHead} {st : ParserState} {type : HTTPRequestType}
    (hh : h.Accepted st type) (rest : List UInt8) :
    (h.result st type rest).Plain ∧ st = endState (h.result st type rest).requestType := by
  obtain ⟨hknown, hst⟩ := recognise_known hh.recognised
  -- a recorded pair comes from a header line, without the spaces of its text
  have hpair : ∀ p ∈ (h.result st type rest).httpHeaders.httpHeaders,
      ∃ l ∈ h.lines, RequestHead.record l = p := by
    intro p hp
    rcases HTTPHeaders.mem_addHeaders hp with hp | hp
    · exact absurd hp (by simp [HTTPHeaders.empty])
    · exact List.mem_map.mp hp
  refine ⟨⟨hknown, rfl, hh.shaped.target_print, ?_, ?_, ?_⟩, hst⟩
  · intro p hp
    obtain ⟨l, hl, rfl⟩ := hpair p hp
    exact (hh.shaped.lines_shaped l hl).name_token
  · intro p hp c hc
    obtain ⟨l, hl, rfl⟩ := hpair p hp
    obtain ⟨hc, hne⟩ := List.mem_filter.mp hc
    exact ⟨(hh.shaped.lines_shaped l hl).text_text c hc, by simpa using hne⟩
  · intro hdone
    have hne : st ≠ .messageBody := by
      rw [hst]
      exact fun hbody => absurd (hdone.symm.trans hbody) (by decide)
    exact if_neg hne

/-- **A parsed request, serialised and parsed again, is the same request.** -/
theorem requestReparse {b : IOBuffer} {st : ParserState} {m : HTTPRequestMessage}
    (hret : RequestReturns b .requestLineBegin .create st m) (hacc : st.Accepting)
    (it : m.httpHeaders.Iteration) {b' : IOBuffer} (hdata : b'.data = m.buildRawMessage it) :
    ∃ m', RequestReturns b' .requestLineBegin .create st m' ∧ SameRequest m m' := by
  obtain ⟨h, type, rest, hh, -, rfl⟩ := requestAccepts_iff.mp ⟨hret, hacc⟩
  obtain ⟨hplain, hst⟩ := hh.plain rest
  obtain ⟨m', hret', hsame⟩ := reparse_of_plain hplain it hdata
  rw [← hst] at hret'
  exact ⟨m', hret', hsame⟩

/-- A PUT with a prefix-matched method, an empty name, a repeated header, a spaced colon and leftover
bytes before the last CR. -/
def oddPut : RequestHead :=
  ⟨str "PUTX", str "/a", ch '1', str "1", [⟨[], str "x"⟩, ⟨str "A", str " b: c"⟩, ⟨str "A", []⟩],
    str "Zz"⟩

theorem requestReparse_oddPut :
    ∃ m', RequestReturns (.holding [] (str "PUT /a HTTP/1.1\r\n: x\r\nA: b:c\r\n\r\nhi"))
        .requestLineBegin .create .messageBody m' ∧
      SameRequest (oddPut.result .messageBody .put (str "hi")) m' := by
  have hodd : oddPut.Accepted .messageBody .put := ⟨by decide, by decide, by decide⟩
  obtain ⟨hret, hacc⟩ := requestAccepts_iff.mpr
    ⟨oddPut, .put, str "hi", hodd, IOBuffer.data_holding [] (oddPut.bytes ++ str "hi"), rfl⟩
  refine requestReparse hret hacc (.ofInsertion _) ?_
  rw [IOBuffer.data_holding]
  decide

end Blueth.Http
