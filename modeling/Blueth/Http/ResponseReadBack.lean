/-
# Blueth.Http.ResponseReadBack — which responses the parser reads back, and the ready-made ones.

`buildRawMessage` writes more than `ParseHTTP1_1ResponseMessage` reads back, and `responseReadBack_iff` is the
exact line between. A byte behind a colon is not recorded, so a value may have a colon only at its end; and the
parser looks at nothing but the presence of `Content-Length` to know whether there is a body.

The templates all announce the length, and all carry the time of day. So none of them is read back if the body
is empty, `Unauthorized` never is, whatever its body does to the header block, and a time that is written with
colons comes back without the digits behind them.
-/
import Blueth.Http.HeaderValues
import Blueth.Http.ResponseTemplates

set_option autoImplicit false

namespace Blueth.Http

open Blueth.Scan Blueth.Io

/-! ## Which responses are read back -/

/-- Version and code can be written; names and values are made of the bytes that may stand there. -/
structure HTTPResponseMessage.Writable (m : HTTPResponseMessage) : Prop where
  version : m.httpMessageVersion = .http1_1
  code : ∃ code : HTTPResponseCodes, code ≠ .invalidHttpCode ∧ m.responseCode = code.value
  names : ∀ p ∈ m.httpHeaders.httpHeaders, ∀ c ∈ p.1, isToken c
  values : ∀ p ∈ m.httpHeaders.httpHeaders, ∀ c ∈ p.2, isText c

/-- No value has a colon in front of another byte. -/
def HTTPResponseMessage.ColonsLast (m : HTTPResponseMessage) : Prop :=
  ∀ name value, m.httpHeaders.getHeaderValue name = some value → ch ':' ∉ value.dropLast

/-- The length is announced if and only if there is a body. -/
def HTTPResponseMessage.AnnouncesBody (m : HTTPResponseMessage) : Prop :=
  m.httpHeaders.headerContains (str "Content-Length") = true ↔ m.rawBody ≠ []

section ReadBack

variable {m : HTTPResponseMessage} {b : IOBuffer} {uninit : UInt8 × UInt8 × UInt8}

theorem writable_shaped (hm : m.Writable) (it : m.httpHeaders.Iteration) (code : HTTPResponseCodes) :
    (responseHeadOf m it code).Shaped where
  minor_digit := List.all_eq_true.mp (by show (str "1").all isDigit = true; decide)
  status_digit := by
    obtain ⟨a, b, c, heq, hdigit, -⟩ := statusDigits_spec code
    show ∀ d ∈ statusDigits code, isDigit d
    rw [heq]
    exact List.all_eq_true.mp hdigit
  reason_text := statusPhrase_text code
  lines_shaped := ofHeader_shaped (fun p hp => hm.names p (it.perm.mem_iff.mp hp))
    (fun p hp => hm.values p (it.perm.mem_iff.mp hp))
  trailing_token := List.forall_mem_nil _

/-- The space of the line is the byte behind the colon; from there on the value is recorded as it is, but for
the bytes behind its own colons. -/
theorem recordedText_space (value : List UInt8) :
    recordedText (some (ch ':')) (SP :: value) = recordedText (some SP) value := by
  rw [recordedText, if_pos rfl]

/-- **What a value is read back as.** -/
theorem getHeaderValue_readBack (it : m.httpHeaders.Iteration) (code : HTTPResponseCodes) (name : List UInt8) :
    (responseHeadOf m it code).headers.getHeaderValue name
      = (m.httpHeaders.getHeaderValue name).map (recordedText (some SP)) := by
  have hlines := getHeaderValue_of_lines (recordedText (some (ch ':')))
    (it.order.map HeaderLine.ofHeader) name
  rw [firstText_ofHeader, Option.map_map] at hlines
  refine hlines.trans (Option.map_congr fun value _ => ?_)
  exact recordedText_space value

theorem headerContains_readBack (it : m.httpHeaders.Iteration) (code : HTTPResponseCodes) (name : List UInt8) :
    (responseHeadOf m it code).headers.headerContains name = m.httpHeaders.headerContains name := by
  rw [Bool.eq_iff_iff, HTTPHeaders.headerContains_iff, HTTPHeaders.headerContains_iff,
    getHeaderValue_readBack, Option.isSome_map]

/-- Behind a space a value is recorded whole exactly when no colon stands in front of one of its bytes. -/
theorem recordedText_space_iff {value : List UInt8} :
    recordedText (some SP) value = value ↔ ch ':' ∉ value.dropLast := by
  rw [recordedText_eq_self_iff]
  cases value with
  | nil => exact iff_of_true (by decide) List.not_mem_nil
  | cons c w =>
      rw [List.dropLast_cons_cons, List.mem_cons, not_or]
      exact and_iff_right (by decide)

theorem sameMap_readBack_iff (it : m.httpHeaders.Iteration) (code : HTTPResponseCodes) :
    (responseHeadOf m it code).headers.SameMap m.httpHeaders ↔ m.ColonsLast := by
  refine forall_congr' fun name => ?_
  rw [getHeaderValue_readBack]
  cases m.httpHeaders.getHeaderValue name with
  | none => exact iff_of_true rfl nofun
  | some value =>
      rw [Option.map_some, Option.some.injEq, recordedText_space_iff]
      constructor
      · intro h value' hvalue
        rw [← Option.some.inj hvalue]
        exact h
      · exact fun h => h value rfl

/-- What a call comes to on the text of a head, whatever follows. -/
theorem responseReturns_head_iff {h : ResponseHead} (hs : h.Shaped) {rest : List UInt8}
    (hdata : b.data = h.bytes ++ rest) {st : ResponseParserState} {m' : HTTPResponseMessage} :
    ResponseReturns b .responseProtocolH (.create uninit) st m' ↔ (st, m') = h.result uninit rest := by
  have hcomes : ResponseReturns b .responseProtocolH (.create uninit) _ _ ∧ _ :=
    responseAccepts_iff.mpr ⟨h, rest, hs, hdata, rfl⟩
  constructor
  · exact fun hret => returns_unique responsePass_settles hret hcomes.1
  · intro heq
    obtain ⟨rfl, rfl⟩ := Prod.mk.inj heq
    exact hcomes.1

/-- `ParsingDone` with nothing behind the head leaves no announcement of a body. -/
theorem announces_of_done {h : ResponseHead} {rest : List UInt8} {m' : HTTPResponseMessage}
    (hdone : (.parsingDone, m') = h.result uninit rest) :
    h.headers.headerContains (str "Content-Length") = true ↔ m'.rawBody ≠ [] := by
  unfold ResponseHead.result at hdone
  split_ifs at hdone with hbody
  · obtain ⟨-, rfl⟩ := Prod.mk.inj hdone
    refine iff_of_true ?_ hbody.2
    have hblank := hbody.1
    unfold afterBlankLine at hblank
    split_ifs at hblank with hcontains
    exact hcontains
  · obtain ⟨hblank, rfl⟩ := Prod.mk.inj hdone
    refine iff_of_false ?_ fun hne => hne rfl
    intro hcontains
    rw [afterBlankLine, if_pos hcontains] at hblank
    cases hblank

/-- **Whatever the text was**: what comes back from a call that is done announces its body or has none. -/
theorem announcesBody_of_readBack {m' : HTTPResponseMessage}
    (hret : ResponseReturns b .responseProtocolH (.create uninit) .parsingDone m') (hsame : SameResponse m m') :
    m.AnnouncesBody := by
  obtain ⟨h, rest, -, -, hdone⟩ := responseAccepts_iff.mp ⟨hret, .inl rfl⟩
  have hheaders : m'.httpHeaders = h.headers := by
    rw [← h.result_headers uninit rest, ← hdone]
  have hannounces := announces_of_done hdone
  rw [← hheaders, hsame.httpHeaders.headerContains, hsame.rawBody] at hannounces
  exact hannounces

/-- And where the length is announced exactly if something follows, the call is done with it. -/
theorem done_of_announces (uninit : UInt8 × UInt8 × UInt8) {h : ResponseHead} {rest : List UInt8}
    (hannounces : h.headers.headerContains (str "Content-Length") = true ↔ rest ≠ []) :
    ∃ m', (.parsingDone, m') = h.result uninit rest ∧ m'.rawBody = rest ∧
      m'.responseCode = (h.message uninit).responseCode ∧ m'.httpHeaders = h.headers := by
  unfold ResponseHead.result afterBlankLine
  by_cases hrest : rest = []
  · refine ⟨h.message uninit, ?_, hrest.symm, rfl, rfl⟩
    rw [if_neg fun hbody => hbody.2 hrest, if_neg fun hcontains => hannounces.mp hcontains hrest]
  · refine ⟨(h.message uninit).pushBackRawBody rest, ?_, rfl, rfl, rfl⟩
    rw [if_pos ⟨if_pos (hannounces.mpr hrest), hrest⟩]

/-- A response that is read back meets both conditions. -/
theorem conditions_of_readBack (hm : m.Writable) (it : m.httpHeaders.Iteration)
    (hdata : b.data = m.buildRawMessage it) {m' : HTTPResponseMessage}
    (hret : ResponseReturns b .responseProtocolH (.create uninit) .parsingDone m') (hsame : SameResponse m m') :
    m.ColonsLast ∧ m.AnnouncesBody := by
  obtain ⟨code, hne, hcode⟩ := hm.code
  rw [responseBuildRawMessage_eq it hm.version hcode hne] at hdata
  have hdone := (responseReturns_head_iff (writable_shaped hm it code) hdata).mp hret
  have hheaders : m'.httpHeaders = (responseHeadOf m it code).headers := by
    rw [← (responseHeadOf m it code).result_headers uninit m.rawBody, ← hdone]
  exact ⟨(sameMap_readBack_iff it code).mp (hheaders ▸ hsame.httpHeaders), announcesBody_of_readBack hret hsame⟩

/-- And one that meets both is read back. -/
theorem exists_readBack (hm : m.Writable) (it : m.httpHeaders.Iteration)
    (hdata : b.data = m.buildRawMessage it) (hcolons : m.ColonsLast) (hannounces : m.AnnouncesBody) :
    ∃ m', ResponseReturns b .responseProtocolH (.create uninit) .parsingDone m' ∧ SameResponse m m' := by
  obtain ⟨code, hne, hcode⟩ := hm.code
  rw [responseBuildRawMessage_eq it hm.version hcode hne] at hdata
  rw [HTTPResponseMessage.AnnouncesBody, ← headerContains_readBack it code] at hannounces
  obtain ⟨m', hdone, hbody, hread, hheaders⟩ := done_of_announces uninit hannounces
  refine ⟨m', (responseReturns_head_iff (writable_shaped hm it code) hdata).mpr hdone, ?_, ?_, hbody⟩
  · rw [hread, responseHeadOf_code it code, hcode]
  · rw [hheaders]
    exact (sameMap_readBack_iff it code).mpr hcolons

/-- **Which responses are read back**: those whose values have no colon in front of another byte and in which
the length is announced exactly when there is a body. -/
theorem responseReadBack_iff (hm : m.Writable) (it : m.httpHeaders.Iteration)
    (hdata : b.data = m.buildRawMessage it) :
    (∃ m', ResponseReturns b .responseProtocolH (.create uninit) .parsingDone m' ∧ SameResponse m m') ↔
      m.ColonsLast ∧ m.AnnouncesBody := by
  constructor
  · rintro ⟨m', hret, hsame⟩
    exact conditions_of_readBack hm it hdata hret hsame
  · exact fun ⟨hcolons, hannounces⟩ => exists_readBack hm it hdata hcolons hannounces

/-- A `404` without a body, with a header that ends in a colon. -/
def closedResponse : HTTPResponseMessage :=
  HTTPResponseMessage.create (0, 0, 0)
    |>.setResponseCode HTTPResponseCodes.notFound.value
    |>.addHeader (str "Server") (str "blueth:")

theorem responseReadBack_iff_closed :
    ∃ m', ResponseReturns (.holding [] (closedResponse.buildRawMessage (.ofInsertion _)))
        .responseProtocolH (.create (7, 8, 9)) .parsingDone m' ∧ SameResponse closedResponse m' := by
  have hheaders : closedResponse.httpHeaders.httpHeaders = [(str "Server", str "blueth:")] := rfl
  have hwritable : closedResponse.Writable := by
    refine ⟨rfl, ⟨.notFound, by decide, rfl⟩, ?_, ?_⟩ <;> rw [hheaders, List.forall_mem_singleton]
    · exact List.all_eq_true.mp (by decide)
    · exact List.all_eq_true.mp (by decide)
  refine (responseReadBack_iff hwritable (.ofInsertion _) (IOBuffer.data_holding _ _)).mpr
    ⟨?_, iff_of_false (by decide) (by decide)⟩
  intro name value hvalue
  have hmem := (HTTPHeaders.lookup_eq_some_of_nodup closedResponse.httpHeaders.nodup_names).mp hvalue
  rw [hheaders, List.mem_singleton, Prod.mk.injEq] at hmem
  rw [hmem.2]
  decide

end ReadBack

/-! ## The templates -/

section Templates

variable {type : TemplateType} {code : HTTPResponseCodes} {httpMessageBody date : List UInt8}
  {b : IOBuffer} {uninit uninit' : UInt8 × UInt8 × UInt8}

/-- The headers all templates have. -/
def templateHeaders (httpMessageBody date : List UInt8) : List (List UInt8 × List UInt8) :=
  [(str "Content-Type", str "text/html"), (str "Content-Length", str (toString httpMessageBody.length)),
    (str "Date", date)]

theorem withBody_writable (hcode : code ≠ .invalidHttpCode) (hdate : ∀ c ∈ date, isText c) :
    (withBody (.create uninit) code httpMessageBody date).Writable := by
  have hdigits := (decimal_toString httpMessageBody.length).digit
  refine ⟨rfl, ⟨code, hcode, rfl⟩, ?_, ?_⟩
  · rw [httpHeaders_withBody]
    simp only [List.forall_mem_cons]
    exact ⟨List.all_eq_true.mp (by decide), List.all_eq_true.mp (by decide), List.all_eq_true.mp (by decide),
      List.forall_mem_nil _⟩
  · rw [httpHeaders_withBody]
    simp only [List.forall_mem_cons]
    exact ⟨List.all_eq_true.mp (by decide), fun c hc => isText_of_isPrint (isPrint_of_isDigit (hdigits c hc)), hdate,
      List.forall_mem_nil _⟩

/-- Only the time of day may have colons in the wrong place. -/
theorem withBody_colonsLast_iff :
    (withBody (.create uninit) code httpMessageBody date).ColonsLast ↔ ch ':' ∉ date.dropLast := by
  have hdigits : ch ':' ∉ str (toString httpMessageBody.length) := fun h =>
    isDigit_ne_colon ((decimal_toString httpMessageBody.length).digit _ h) rfl
  have hlookup : ∀ name value,
      (withBody (.create uninit) code httpMessageBody date).httpHeaders.getHeaderValue name = some value ↔
        (name, value) ∈ templateHeaders httpMessageBody date :=
    fun name value => HTTPHeaders.lookup_eq_some_of_nodup (HTTPHeaders.nodup_names _)
  constructor
  · exact fun h => h (str "Date") date ((hlookup _ _).mpr (by simp [templateHeaders]))
  · intro hdate name value hvalue
    have hmem := (hlookup _ _).mp hvalue
    simp only [templateHeaders, List.mem_cons, Prod.mk.injEq, List.not_mem_nil, or_false] at hmem
    rcases hmem with ⟨-, rfl⟩ | ⟨-, rfl⟩ | ⟨-, rfl⟩
    · decide
    · exact fun h => hdigits (List.dropLast_subset _ h)
    · exact hdate

theorem withBody_announcesBody_iff :
    (withBody (.create uninit) code httpMessageBody date).AnnouncesBody ↔ httpMessageBody ≠ [] :=
  ⟨fun h => h.mp rfl, fun h => iff_of_true rfl h⟩

/-- The one template that puts its body elsewhere. -/
theorem unauthorized_not_announcesBody :
    ¬ (HTTPResponseTemplates .unauthorized httpMessageBody date uninit).AnnouncesBody :=
  fun h => h.mp rfl rfl

/-- What is written with a body in its body is read back if there is one and the time allows it. -/
theorem withBody_done_iff (hcode : code ≠ .invalidHttpCode) (hdate : ∀ c ∈ date, isText c)
    (it : (withBody (.create uninit) code httpMessageBody date).httpHeaders.Iteration)
    (hdata : b.data = (withBody (.create uninit) code httpMessageBody date).buildRawMessage it) :
    (∃ m', ResponseReturns b .responseProtocolH (.create uninit') .parsingDone m' ∧
        SameResponse (withBody (.create uninit) code httpMessageBody date) m') ↔
      httpMessageBody ≠ [] ∧ ch ':' ∉ date.dropLast := by
  have hm : (withBody (.create uninit) code httpMessageBody date).Writable := withBody_writable hcode hdate
  constructor
  · rintro ⟨m', hret, hsame⟩
    obtain ⟨hcolons, hannounces⟩ := conditions_of_readBack hm it hdata hret hsame
    exact ⟨withBody_announcesBody_iff.mp hannounces, withBody_colonsLast_iff.mp hcolons⟩
  · rintro ⟨hbody, hcolons⟩
    exact exists_readBack hm it hdata (withBody_colonsLast_iff.mpr hcolons) (withBody_announcesBody_iff.mpr hbody)

/-- The templates that are read back: those with a body, but for `Unauthorized`, if no colon of the time has a
byte behind it. -/
theorem template_done_iff (type : TemplateType) (hdate : ∀ c ∈ date, isText c)
    (it : (HTTPResponseTemplates type httpMessageBody date uninit).httpHeaders.Iteration)
    (hdata : b.data = (HTTPResponseTemplates type httpMessageBody date uninit).buildRawMessage it) :
    (∃ m', ResponseReturns b .responseProtocolH (.create uninit') .parsingDone m' ∧
        SameResponse (HTTPResponseTemplates type httpMessageBody date uninit) m') ↔
      type ≠ .unauthorized ∧ httpMessageBody ≠ [] ∧ ch ':' ∉ date.dropLast := by
  cases type with
  | unauthorized =>
      refine iff_of_false ?_ fun h => h.1 rfl
      rintro ⟨m', hret, hsame⟩
      exact unauthorized_not_announcesBody (announcesBody_of_readBack hret hsame)
  | _ => exact (withBody_done_iff (by decide) hdate it hdata).trans (and_iff_right (by decide)).symm

/-- A colon with a byte behind it is not the last byte. -/
theorem mem_dropLast_of_split {c : UInt8} {x y : List UInt8} (hy : y ≠ []) : c ∈ (x ++ c :: y).dropLast := by
  rw [List.dropLast_append_of_ne_nil (List.cons_ne_nil c y), List.dropLast_cons_of_ne_nil hy]
  exact List.mem_append_right x List.mem_cons_self

/-- **Which templates are read back**, as the responses they are, when the time is made of text bytes: those with
a body, but for `Unauthorized`, if no colon of the time has a byte behind it. So none is whose time has a colon in
it and goes on, as any time of day does that `strftime` writes for `%H:%M:%S`. -/
theorem templates_readBack_iff (type : TemplateType) (hdate : ∀ c ∈ date, isText c)
    (it : (HTTPResponseTemplates type httpMessageBody date uninit).httpHeaders.Iteration)
    (hdata : b.data = (HTTPResponseTemplates type httpMessageBody date uninit).buildRawMessage it) :
    ((∃ m', ResponseReturns b .responseProtocolH (.create uninit') .parsingDone m' ∧
        SameResponse (HTTPResponseTemplates type httpMessageBody date uninit) m') ↔
      type ≠ .unauthorized ∧ httpMessageBody ≠ [] ∧ ch ':' ∉ date.dropLast) ∧
    ∀ x y, date = x ++ ch ':' :: y → y ≠ [] →
      ¬ ∃ m', ResponseReturns b .responseProtocolH (.create uninit') .parsingDone m' ∧
        SameResponse (HTTPResponseTemplates type httpMessageBody date uninit) m' := by
  refine ⟨template_done_iff type hdate it hdata, ?_⟩
  rintro x y hsplit hy hdone
  apply ((template_done_iff type hdate it hdata).mp hdone).2.2
  rw [hsplit]
  exact mem_dropLast_of_split hy

/-- A `404` with a body, on a Monday: the time of day is written as `strftime` writes it, and its date comes back
as another. -/
theorem templates_readBack_iff_monday :
    ¬ ∃ m', ResponseReturns (.holding [] ((HTTPResponseTemplates .notFound (str "<p>gone</p>")
          (str "Mon 2024-01-01 00:00:00 UTC") (1, 2, 3)).buildRawMessage (.ofInsertion _)))
        .responseProtocolH (.create (7, 8, 9)) .parsingDone m' ∧
      SameResponse (HTTPResponseTemplates .notFound (str "<p>gone</p>")
        (str "Mon 2024-01-01 00:00:00 UTC") (1, 2, 3)) m' :=
  (templates_readBack_iff .notFound (List.all_eq_true.mp (by decide)) (.ofInsertion _) (IOBuffer.data_holding _ _)).2
    (str "Mon 2024-01-01 00") (str "00:00 UTC") rfl (by decide)

end Templates

end Blueth.Http
