/-
# Blueth.Http.ResponseReserialised — a received response, written out again.

The parser takes ANY three digits for a status code; `buildRawMessage` is a `switch` over the enumerators
and `string_from_response_code` another one. For a code with a text the two agree, except that the case
of 307 asks for the text of 305. For a code without one only `InvalidHttpCode` gives the promised empty
string: an `int` that is no enumerator takes no case at all, and what is written is a status line without
number and text, with all headers and the body behind it.
-/
import Blueth.Http.ResponseRoundTrip
import Blueth.Http.StatusLine

set_option autoImplicit false

namespace Blueth.Http

open Blueth.Scan Blueth.Io

/-- The text `string_from_response_code` has for a received status. -/
def textOfStatus (status : List UInt8) : Option (List UInt8) :=
  (HTTPResponseCodes.ofValue? (decimalValue status)).bind stringFromResponseCode

/-- What is written begins with a status line of this status and text. -/
def StartsWithStatus (status text raw : List UInt8) : Prop :=
  (str "HTTP/1.1 " ++ status ++ str " " ++ text ++ str "\r\n") <+: raw

/-- However it arrives, parsing the text gives this response code. -/
def ReadsBack (status raw : List UInt8) : Prop :=
  ∀ (b : IOBuffer) (windows : List ℕ) (uninit : UInt8 × UInt8 × UInt8), b.WellFormed →
    windows.sum ≤ b.getDataSize → b.data.take windows.sum = raw →
    ∃ st m, ResponseWindowsReturn b windows uninit st m ∧ m.responseCode = decimalValue status

/-- A well-formed status line, or nothing: the empty string exactly when the status has no text. -/
def WellReserialised (status raw : List UInt8) : Prop :=
  match textOfStatus status with
  | none => raw = []
  | some text => StartsWithStatus status text raw ∧ ReadsBack status raw

/-- The status is the number of an enumerator, and not 307. -/
def OwnCase (status : List UInt8) : Prop :=
  ∃ code : HTTPResponseCodes, code.value = decimalValue status ∧ code ≠ .temporaryRedirect

/-! ## Numbers and digits -/

/-- Digit words of one length have different values. -/
theorem decimalValue_inj {x y : List UInt8} (hx : ∀ c ∈ x, isDigit c) (hy : ∀ c ∈ y, isDigit c)
    (hlen : x.length = y.length) (h : decimalValue x = decimalValue y) : x = y := by
  induction x using List.reverseRecOn generalizing y with
  | nil => exact (List.length_eq_zero_iff.mp hlen.symm).symm
  | append_singleton x c ih =>
      obtain ⟨y, d, rfl⟩ : ∃ y' d, y = y' ++ [d] := by
        refine ⟨y.dropLast, y.getLast ?_, (List.dropLast_concat_getLast _).symm⟩
        rintro rfl
        simp at hlen
      have hc := hx c (by simp)
      have hd := hy d (by simp)
      simp only [isDigit, Bool.and_eq_true, decide_eq_true_eq] at hc hd
      rw [decimalValue_concat, decimalValue_concat] at h
      have hlast : c.toNat = d.toNat := by omega
      have hinit : x = y := ih (fun e he => hx e (List.mem_append_left _ he))
        (fun e he => hy e (List.mem_append_left _ he)) (by simpa using hlen) (by omega)
      rw [hinit, UInt8.toNat_inj.mp hlast]

theorem statusDigits_digit (code : HTTPResponseCodes) : ∀ c ∈ statusDigits code, isDigit c := by
  obtain ⟨a, b, c, heq, hdigit, -⟩ := statusDigits_spec code
  rw [heq]
  exact List.all_eq_true.mp hdigit

/-- Three digits with the number of an enumerator are what `to_string` writes for it. -/
theorem statusDigits_eq {status : List UInt8} (hs : ∀ c ∈ status, isDigit c) (h3 : status.length = 3)
    {code : HTTPResponseCodes} (hcode : code.value = decimalValue status) :
    statusDigits code = status := by
  obtain ⟨a, b, c, heq, hdigit, hatoi⟩ := statusDigits_spec code
  refine decimalValue_inj (statusDigits_digit code) hs (by simp [heq, h3]) ?_
  have hvalue := atoi_digits (statusDigits_digit code) []
  rw [heq] at hvalue ⊢
  rw [← hvalue, ← hcode]
  exact hatoi

theorem ofValue?_eq_some {n : Int} {code : HTTPResponseCodes} :
    HTTPResponseCodes.ofValue? n = some code ↔ code.value = n := by
  constructor
  · intro h
    simpa using List.find?_some h
  · rintro rfl
    exact HTTPResponseCodes.ofValue?_value code

theorem textOfStatus_of_value {status : List UInt8} {code : HTTPResponseCodes}
    (hcode : code.value = decimalValue status) :
    textOfStatus status = stringFromResponseCode code := by
  rw [textOfStatus, ofValue?_eq_some.mpr hcode]
  rfl

/-- Every code but the invalid one has a text. -/
theorem exists_text {code : HTTPResponseCodes} (hne : code ≠ .invalidHttpCode) :
    ∃ text, stringFromResponseCode code = some text := by
  cases code with
  | invalidHttpCode => exact absurd rfl hne
  | _ => exact ⟨_, rfl⟩

/-! ## What is written -/

section Written

variable {m : HTTPResponseMessage} (it : m.httpHeaders.Iteration) {status : List UInt8}

/-- A status that no enumerator has is written as an empty status line. -/
theorem buildRawMessage_of_none (hversion : m.httpMessageVersion = .http1_1)
    (hnone : HTTPResponseCodes.ofValue? m.responseCode = none) : m.buildRawMessage it ≠ [] := by
  unfold HTTPResponseMessage.buildRawMessage
  simp only [hversion, hnone]
  simp [show str "HTTP/1.1 " = ch 'H' :: str "TTP/1.1 " by decide]

theorem buildRawMessage_of_invalid (hcode : m.responseCode = HTTPResponseCodes.invalidHttpCode.value) :
    m.buildRawMessage it = [] := by
  unfold HTTPResponseMessage.buildRawMessage
  rw [hcode]
  cases m.httpMessageVersion <;> rfl

/-- The text is a status line with `phraseCode`'s text, and something behind it. -/
theorem buildRawMessage_of_code (hversion : m.httpMessageVersion = .http1_1) {code : HTTPResponseCodes}
    (hcode : m.responseCode = code.value) (hne : code ≠ .invalidHttpCode) :
    ∃ rest, m.buildRawMessage it
      = (StatusLine.mk (str "1") (statusDigits code) (statusPhrase code)).bytes ++ rest := by
  refine ⟨blockBytes (responseHeadOf m it code).lines (responseHeadOf m it code).trailing ++ [LF] ++
    m.rawBody, ?_⟩
  rw [responseBuildRawMessage_eq it hversion hcode hne, ResponseHead.bytes, StatusLine.toLastCR_eq]
  simp [StatusLine.ofHead, responseHeadOf]

end Written

/-- A status line with the minor version 1, spelled out. -/
theorem statusLine_bytes (status text : List UInt8) :
    (StatusLine.mk (str "1") status text).bytes
      = str "HTTP/1.1 " ++ status ++ str " " ++ text ++ str "\r\n" := by
  have hprotocol : str "HTTP/1.1 " = str "HTTP/1." ++ (str "1" ++ [SP]) := by decide
  have hcrlf : str "\r\n" = [CR, LF] := by decide
  have hsp : str " " = [SP] := by decide
  rw [hprotocol, hcrlf, hsp]
  simp [StatusLine.bytes]

/-- A text that begins with a status line of three digits is read back with their value. -/
theorem readsBack_of_statusLine {l : StatusLine} (hl : l.Shaped) (h3 : l.status.length = 3)
    (rest : List UInt8) : ReadsBack l.status (l.bytes ++ rest) := by
  intro b windows uninit hb hsum hdata
  obtain ⟨st, m, hret⟩ := exists_responseWindowsReturn hb hsum uninit
  refine ⟨st, m, hret, ?_⟩
  rw [(responseCode_of_statusLine hb hsum hl hdata hret).1,
    StatusLine.code_of_three_le hl (Nat.le_of_eq h3.symm), List.take_of_length_le (by omega)]

/-- The text of 305 is not the text of 307. -/
theorem not_startsWith_temporaryRedirect (status rest : List UInt8) :
    ¬ StartsWithStatus status (str "Temporary Redirect")
      ((StatusLine.mk (str "1") status (str "Use Proxy")).bytes ++ rest) := by
  have hT : str "Temporary Redirect" = ch 'T' :: str "emporary Redirect" := by decide
  have hU : str "Use Proxy" = ch 'U' :: str "se Proxy" := by decide
  intro h
  rw [StartsWithStatus, statusLine_bytes, hT, hU] at h
  simp only [List.append_assoc, List.cons_append, List.prefix_append_right_inj,
    List.cons_prefix_cons] at h
  exact absurd h.1 (by decide)

/-- **The status line of an enumerator** is a good one, 307 excepted. -/
theorem wellReserialised_statusLine_iff {status : List UInt8} {code : HTTPResponseCodes}
    (hdigit : ∀ c ∈ status, isDigit c = true) (h3 : status.length = 3)
    (hvalue : code.value = decimalValue status) (hinvalid : code ≠ .invalidHttpCode)
    (behind : List UInt8) :
    WellReserialised status ((StatusLine.mk (str "1") status (statusPhrase code)).bytes ++ behind)
      ↔ code ≠ .temporaryRedirect := by
  obtain ⟨text, hsome⟩ := exists_text hinvalid
  rw [WellReserialised, textOfStatus_of_value hvalue, hsome]
  by_cases hredirect : code = .temporaryRedirect
  · subst hredirect
    obtain rfl : str "Temporary Redirect" = text := Option.some.inj hsome
    refine iff_of_false ?_ (not_not_intro rfl)
    rintro ⟨hstart, -⟩
    exact absurd hstart (not_startsWith_temporaryRedirect _ _)
  · have hphrase : statusPhrase code = text := by
      rw [statusPhrase, HTTPResponseMessage.phraseCode, hsome]
      · rfl
      · exact hredirect
    have hshaped : (StatusLine.mk (str "1") status (statusPhrase code)).Shaped :=
      ⟨List.all_eq_true.mp (by decide : (str "1").all isDigit = true), hdigit, statusPhrase_text code⟩
    refine iff_of_true ⟨?_, readsBack_of_statusLine hshaped h3 behind⟩ hredirect
    rw [StartsWithStatus, ← statusLine_bytes, hphrase]
    exact List.prefix_append _ _

theorem ownCase_iff {status : List UInt8} {code : HTTPResponseCodes}
    (h : HTTPResponseCodes.ofValue? (decimalValue status) = some code) :
    OwnCase status ↔ code ≠ .temporaryRedirect := by
  constructor
  · rintro ⟨code', hvalue, hne⟩
    rw [ofValue?_eq_some.mpr hvalue] at h
    exact Option.some.inj h ▸ hne
  · exact fun hne => ⟨code, ofValue?_eq_some.mp h, hne⟩

/-! ## The law -/

/-- **When a received response is written out well**: its status is the number of an enumerator, 307
excepted. For any headers, any body and any order of the headers. -/
theorem wellReserialised_iff {b : IOBuffer} {windows : List ℕ} {l : StatusLine} {rest : List UInt8}
    (hb : b.WellFormed) (hsum : windows.sum ≤ b.getDataSize) (hl : l.Shaped)
    (hdata : b.data.take windows.sum = l.bytes ++ rest) (h3 : l.status.length = 3)
    {uninit : UInt8 × UInt8 × UInt8} {m : HTTPResponseMessage}
    (hret : ResponseWindowsReturn b windows uninit .parsingDone m) (it : m.httpHeaders.Iteration) :
    WellReserialised l.status (m.buildRawMessage it) ↔ OwnCase l.status := by
  obtain ⟨hcode, hversion⟩ := responseCode_of_statusLine hb hsum hl hdata hret
  rw [StatusLine.code_of_three_le hl (Nat.le_of_eq h3.symm), List.take_of_length_le (by omega)] at hcode
  cases hof : HTTPResponseCodes.ofValue? (decimalValue l.status) with
  | none =>
      -- no enumerator: no text, and yet something is written
      have htext : textOfStatus l.status = none := by rw [textOfStatus, hof]; rfl
      rw [WellReserialised, htext]
      constructor
      · intro hempty
        exact absurd hempty (buildRawMessage_of_none it hversion (hcode ▸ hof))
      · rintro ⟨code, hvalue, -⟩
        rw [ofValue?_eq_some.mpr hvalue] at hof
        cases hof
  | some code =>
      have hvalue := ofValue?_eq_some.mp hof
      rw [ownCase_iff hof]
      by_cases hinvalid : code = .invalidHttpCode
      · -- 506 is the number of `InvalidHttpCode`, and the empty string is what is promised
        subst hinvalid
        rw [WellReserialised, textOfStatus_of_value hvalue]
        exact iff_of_true (buildRawMessage_of_invalid it (hcode.trans hvalue.symm)) (by simp)
      · obtain ⟨behind, hraw⟩ := buildRawMessage_of_code it hversion (hcode.trans hvalue.symm) hinvalid
        rw [hraw, statusDigits_eq hl.status_digit h3 hvalue]
        exact wellReserialised_statusLine_iff hl.status_digit h3 hvalue hinvalid behind

/-- A `404` with a text of its own, arriving in two windows. -/
theorem wellReserialised_iff_notFound :
    WellReserialised (str "404") (HTTPResponseMessage.buildRawMessage
      (StatusLine.message ⟨str "1", str "404", str "Gone fishing"⟩ (1, 2, 3)) (.ofInsertion _)) := by
  have hdata : (IOBuffer.holding [] (str "HTTP/1.1 404 Gone fishing\r\n\r\n")).data.take ([11, 18].sum)
      = (StatusLine.mk (str "1") (str "404") (str "Gone fishing")).bytes ++ str "\r\n" := by
    rw [IOBuffer.data_holding]
    decide +kernel
  have hret : ResponseWindowsReturn (.holding [] (str "HTTP/1.1 404 Gone fishing\r\n\r\n")) [11, 18]
      (1, 2, 3) .parsingDone
      (StatusLine.message ⟨str "1", str "404", str "Gone fishing"⟩ (1, 2, 3)) :=
    ⟨40, [], by decide +kernel⟩
  exact (wellReserialised_iff (IOBuffer.holding_wellFormed _ _) (by decide) (by decide) hdata rfl hret
    (.ofInsertion _)).mpr ⟨.notFound, by decide, by decide⟩

/-- **A status without a text is not dropped**: the message of `HTTP/1.1 299 X CRLF CRLF` is written as
`HTTP/1.1`, a space and two line ends, where the empty string is promised. -/
theorem unknown_status_written :
    ResponseWindowsReturn (.holding [] (str "HTTP/1.1 299 X\r\n\r\n")) [18] (0, 0, 0) .parsingDone
        (StatusLine.message ⟨str "1", str "299", str "X"⟩ (0, 0, 0)) ∧
      textOfStatus (str "299") = none ∧
      HTTPResponseMessage.buildRawMessage (StatusLine.message ⟨str "1", str "299", str "X"⟩ (0, 0, 0))
        (.ofInsertion _) = str "HTTP/1.1 \r\n\r\n" ∧
      ¬ WellReserialised (str "299") (HTTPResponseMessage.buildRawMessage
        (StatusLine.message ⟨str "1", str "299", str "X"⟩ (0, 0, 0)) (.ofInsertion _)) := by
  have htext : textOfStatus (str "299") = none := by decide
  have hraw : HTTPResponseMessage.buildRawMessage
      (StatusLine.message ⟨str "1", str "299", str "X"⟩ (0, 0, 0)) (.ofInsertion _)
        = str "HTTP/1.1 \r\n\r\n" := by
    decide +kernel
  refine ⟨⟨40, [], by decide +kernel⟩, htext, hraw, ?_⟩
  rw [WellReserialised, htext, hraw]
  decide

end Blueth.Http
