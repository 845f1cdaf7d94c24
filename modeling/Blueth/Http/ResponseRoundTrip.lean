/-
# Blueth.Http.ResponseRoundTrip — `buildRawMessage` against `ParseHTTP1_1ResponseMessage`.

The serialised response is the text of ONE head, `responseHeadOf`, followed by the body. The status line
is the only place where the forty codes matter, and all the proof needs of them is `statusDigits_spec`:
three digits that `atoi` reads back, over whatever the code holder contained before.
-/
import Blueth.Http.ResponseHead

set_option autoImplicit false

namespace Blueth.Http

open Blueth.Scan Blueth.Io

/-! ## The head that `buildRawMessage` writes -/

/-- The number of the status line. -/
def statusDigits (code : HTTPResponseCodes) : List UInt8 := str (toString code.value)

/-- The text of the status line. -/
def statusPhrase (code : HTTPResponseCodes) : List UInt8 :=
  (stringFromResponseCode (HTTPResponseMessage.phraseCode code)).getD []

/-- The status line and the header lines of the serialised message. -/
def responseHeadOf (m : HTTPResponseMessage) (it : m.httpHeaders.Iteration) (code : HTTPResponseCodes) :
    ResponseHead where
  minor := str "1"
  status := statusDigits code
  reason := statusPhrase code
  lines := it.order.map HeaderLine.ofHeader
  trailing := []

/-- Every status number has three digits, and with a NUL behind them `atoi` reads the number back. -/
theorem statusDigits_spec (code : HTTPResponseCodes) :
    ∃ a b c, statusDigits code = [a, b, c] ∧ [a, b, c].all isDigit = true ∧
      atoi [a, b, c, 0] = code.value := by
  cases code <;> exact ⟨_, _, _, rfl, by decide, by decide⟩

theorem statusPhrase_text (code : HTTPResponseCodes) : ∀ c ∈ statusPhrase code, isText c := by
  refine List.all_eq_true.mp ?_
  cases code <;> decide +kernel

theorem statusText_eq (code : HTTPResponseCodes) :
    HTTPResponseMessage.statusText code = statusDigits code ++ SP :: statusPhrase code := by
  have hsp : str " " = [SP] := by decide
  simp [HTTPResponseMessage.statusText, statusDigits, statusPhrase, hsp]

/-- Three digits fill the holder, whatever it contained. -/
theorem statusHolder_three (uninit : UInt8 × UInt8 × UInt8) (a b c : UInt8) :
    ([a, b, c].foldl StatusCodeHolder.push (.create uninit)).httpCodeHolder.toList = [a, b, c, 0] := by
  obtain ⟨x, y, z⟩ := uninit
  rfl

/-- **The serialised response is a head and the body.** -/
theorem responseBuildRawMessage_eq {m : HTTPResponseMessage} (it : m.httpHeaders.Iteration)
    {code : HTTPResponseCodes} (hversion : m.httpMessageVersion = .http1_1)
    (hcode : m.responseCode = code.value) (hne : code ≠ .invalidHttpCode) :
    m.buildRawMessage it = (responseHeadOf m it code).bytes ++ m.rawBody := by
  have hprotocol : str "HTTP/1.1 " = str "HTTP/1." ++ (str "1" ++ [SP]) := by decide
  have hcrlf : str "\r\n" = [CR, LF] := by decide
  -- the version and the enumerator select the case of the `switch`
  have hbuild : m.buildRawMessage it = str "HTTP/1.1 " ++ HTTPResponseMessage.statusText code ++
      str "\r\n" ++ m.httpHeaders.buildRawHeader it ++ m.rawBody := by
    unfold HTTPResponseMessage.buildRawMessage
    simp only [hversion, hcode, HTTPResponseCodes.ofValue?_value]
  rw [hbuild, statusText_eq, buildRawHeader_eq, hprotocol, hcrlf]
  simp [ResponseHead.bytes, ResponseHead.toLastCR, responseHeadOf]

/-! ## Reading it back -/

/-- Where no byte is a colon, only the first byte can be skipped. -/
theorem recordedText_of_no_colon {w : List UInt8} (hw : ∀ c ∈ w, c ≠ ch ':') {p : Option UInt8}
    (hp : p ≠ some (ch ':')) : recordedText p w = w := by
  induction w generalizing p with
  | nil => rfl
  | cons c w ih =>
      rw [recordedText, if_neg hp, ih (fun d hd => hw d (by simp [hd]))]
      intro h
      exact hw c (by simp) (Option.some.inj h)

/-- The messages the round trip is asked of: version and code can be written, proper header names, values
of text bytes without a colon, and a `Content-Length` header exactly when there is a body. -/
structure HTTPResponseMessage.Sendable (m : HTTPResponseMessage) : Prop where
  version : m.httpMessageVersion = .http1_1
  code : ∃ code : HTTPResponseCodes, code ≠ .invalidHttpCode ∧ m.responseCode = code.value
  names_ne : ∀ p ∈ m.httpHeaders.httpHeaders, p.1 ≠ []
  names : ∀ p ∈ m.httpHeaders.httpHeaders, ∀ c ∈ p.1, isToken c
  values : ∀ p ∈ m.httpHeaders.httpHeaders, ∀ c ∈ p.2, isText c ∧ c ≠ ch ':'
  contentLength : m.httpHeaders.headerContains (str "Content-Length") = true ↔ m.rawBody ≠ []

/-- The parts of a response that have to come back; the header stores as maps. -/
structure SameResponse (m m' : HTTPResponseMessage) : Prop where
  responseCode : m'.responseCode = m.responseCode
  httpHeaders : m'.httpHeaders.SameMap m.httpHeaders
  rawBody : m'.rawBody = m.rawBody

section Reading

variable {m : HTTPResponseMessage}

theorem responseHeadOf_shaped (hm : m.Sendable) (it : m.httpHeaders.Iteration)
    (code : HTTPResponseCodes) : (responseHeadOf m it code).Shaped where
  minor_digit := List.all_eq_true.mp (by show (str "1").all isDigit = true; decide)
  status_digit := by
    obtain ⟨a, b, c, heq, hdigit, -⟩ := statusDigits_spec code
    show ∀ d ∈ statusDigits code, isDigit d
    rw [heq]
    exact List.all_eq_true.mp hdigit
  reason_text := statusPhrase_text code
  lines_shaped := ofHeader_shaped (fun p hp => hm.names p (it.perm.mem_iff.mp hp))
    (fun p hp c hc => (hm.values p (it.perm.mem_iff.mp hp) c hc).1)
  trailing_token := List.forall_mem_nil _

/-- The space behind the colon is the one byte skipped, so the store is the one that was written. -/
theorem responseHeadOf_headers (hm : m.Sendable) (it : m.httpHeaders.Iteration)
    (code : HTTPResponseCodes) : (responseHeadOf m it code).headers.SameMap m.httpHeaders := by
  refine sameMap_of_lines (f := recordedText (some (ch ':'))) it ?_
  intro p hp
  rw [recordedText, if_pos rfl,
    recordedText_of_no_colon (fun c hc => (hm.values p hp c hc).2) (by decide)]

/-- The code read from the holder is the code written. -/
theorem responseHeadOf_code (it : m.httpHeaders.Iteration) (code : HTTPResponseCodes)
    (uninit : UInt8 × UInt8 × UInt8) :
    ((responseHeadOf m it code).message uninit).responseCode = code.value := by
  obtain ⟨a, b, c, heq, -, hatoi⟩ := statusDigits_spec code
  show atoi ((statusDigits code).foldl StatusCodeHolder.push (.create uninit)).httpCodeHolder.toList = _
  rw [heq, statusHolder_three, hatoi]

/-- **A response, serialised and parsed, is the same response**, for every iteration order of its header
map, every body and every content of the fresh code holder. -/
theorem responseRoundTrip (hm : m.Sendable) (it : m.httpHeaders.Iteration) {b : IOBuffer}
    (hdata : b.data = m.buildRawMessage it) (uninit : UInt8 × UInt8 × UInt8) :
    ∃ m', ResponseReturns b .responseProtocolH (.create uninit) .parsingDone m' ∧ SameResponse m m' := by
  obtain ⟨code, hne, hcode⟩ := hm.code
  rw [responseBuildRawMessage_eq it hm.version hcode hne] at hdata
  have hheaders := responseHeadOf_headers hm it code
  have hread : ((responseHeadOf m it code).message uninit).responseCode = m.responseCode := by
    rw [hcode, responseHeadOf_code]
  -- the blank line decides on the body the way the message does
  have hblank : afterBlankLine (responseHeadOf m it code).headers
      = if m.rawBody ≠ [] then .responseMessageBody else .parsingDone := by
    unfold afterBlankLine
    rw [hheaders.headerContains]
    exact if_congr hm.contentLength rfl rfl
  by_cases hbody : m.rawBody = []
  · refine ⟨(responseHeadOf m it code).message uninit, ?_, hread, hheaders, hbody.symm⟩
    refine (responseAccepts_iff.mpr ⟨responseHeadOf m it code, m.rawBody,
      responseHeadOf_shaped hm it code, hdata, ?_⟩).1
    unfold ResponseHead.result
    rw [hblank, if_neg (not_not.mpr hbody), if_neg (by simp)]
  · refine ⟨((responseHeadOf m it code).message uninit).pushBackRawBody m.rawBody, ?_, hread, hheaders,
      rfl⟩
    refine (responseAccepts_iff.mpr ⟨responseHeadOf m it code, m.rawBody,
      responseHeadOf_shaped hm it code, hdata, ?_⟩).1
    unfold ResponseHead.result
    rw [hblank, if_pos hbody, if_pos ⟨rfl, hbody⟩]

end Reading

/-- A 307 with a spaced value, a body that looks like a head, and the text of another code. -/
def redirectResponse : HTTPResponseMessage :=
  HTTPResponseMessage.create (0, 0, 0)
    |>.setResponseCode HTTPResponseCodes.temporaryRedirect.value
    |>.addHeader (str "Location") (str " /new place ")
    |>.addHeader (str "Content-Length") (str "4")
    |>.setRawBody (str "\r\n\r\n")

theorem responseRoundTrip_redirect :
    ∃ m', ResponseReturns (.holding [] (redirectResponse.buildRawMessage (.ofInsertion _)))
        .responseProtocolH (.create (7, 8, 9)) .parsingDone m' ∧ SameResponse redirectResponse m' := by
  have hnames : redirectResponse.httpHeaders.httpHeaders.all (fun p => p.1.all isToken) = true := by
    decide
  have hvalues : redirectResponse.httpHeaders.httpHeaders.all
      (fun p => p.2.all fun c => isText c && c != ch ':') = true := by
    decide
  refine responseRoundTrip ?_ (.ofInsertion _) (IOBuffer.data_holding _ _) (7, 8, 9)
  refine ⟨rfl, ⟨.temporaryRedirect, by decide, rfl⟩, by decide, ?_, ?_, by decide⟩
  · intro p hp
    exact List.all_eq_true.mp (List.all_eq_true.mp hnames p hp)
  · intro p hp c hc
    have hboth := List.all_eq_true.mp (List.all_eq_true.mp hvalues p hp) c hc
    simpa using hboth

end Blueth.Http
