/-
# Blueth.Http.ResponseTemplates — the ready-made responses (`http/HTTPCommonResponseMessageTemplate.hpp`).

`HTTPResponseTemplates` has a branch for every template, written out each time. All but one are the same
branch for another code: three headers, one of them the length of the body, and the body. The branch of
`Unauthorized` differs twice. It sets the code of `BadRequest`, and it puts the body into a header, after the
length of the body has been announced.

What is asked of a response is asked of its TEXT: cut at CR LF into lines up to the first empty one, the one
line `Content-Length: ` has to give, in decimal, the number of bytes behind the empty line. The time stamp
comes from `strftime`, which writes the name of a day, digits, `-`, `:` and the name of a time zone; all that
matters of it is that it has no CR.
-/
import Blueth.Http.ResponseRoundTrip
import Blueth.Http.StatusLine
import Blueth.Scan.Cuts

set_option autoImplicit false

namespace Blueth.Http

/-! ## The templates -/

inductive TemplateType where
  | ok
  | badRequest
  | notFound
  | forbidden
  | notAcceptable
  | methodNotAllowed
  | unsupportedMediaType
  | created
  | movedPermanently
  | unauthorized
  deriving DecidableEq, Repr

/-- The response code a template has the name of. -/
def TemplateType.named : TemplateType → HTTPResponseCodes
  | ok => .ok
  | badRequest => .badRequest
  | notFound => .notFound
  | forbidden => .forbidden
  | notAcceptable => .notAcceptable
  | methodNotAllowed => .methodNotAllowed
  | unsupportedMediaType => .unsupportedMediaType
  | created => .created
  | movedPermanently => .movedPermanently
  | unauthorized => .unauthorized

/-- What all branches begin with; `date` is `UnixTime{}.getStringTime()`. -/
def withHeaders (message : HTTPResponseMessage) (code : HTTPResponseCodes)
    (httpMessageBody date : List UInt8) : HTTPResponseMessage :=
  ((((message.setHTTPVersion .http1_1).setResponseCode code.value).addHeader
    (str "Content-Type") (str "text/html")).addHeader
    (str "Content-Length") (str (toString httpMessageBody.length))).addHeader
    (str "Date") date

/-- The branch for a code. -/
def withBody (message : HTTPResponseMessage) (code : HTTPResponseCodes)
    (httpMessageBody date : List UInt8) : HTTPResponseMessage :=
  (withHeaders message code httpMessageBody date).pushBackRawBody httpMessageBody

/-- `HTTPResponseTemplates(type, http_message_body)`; `uninit` are the bytes the constructor of the message
leaves uninitialised. -/
def HTTPResponseTemplates (type : TemplateType) (httpMessageBody date : List UInt8)
    (uninit : UInt8 × UInt8 × UInt8) : HTTPResponseMessage :=
  let message := HTTPResponseMessage.create uninit
  match type with
  | .ok => withBody message .ok httpMessageBody date
  | .badRequest => withBody message .badRequest httpMessageBody date
  | .unsupportedMediaType => withBody message .unsupportedMediaType httpMessageBody date
  | .created => withBody message .created httpMessageBody date
  | .forbidden => withBody message .forbidden httpMessageBody date
  | .methodNotAllowed => withBody message .methodNotAllowed httpMessageBody date
  | .movedPermanently => withBody message .movedPermanently httpMessageBody date
  | .notFound => withBody message .notFound httpMessageBody date
  | .unauthorized =>
    (withHeaders message .badRequest httpMessageBody date).addHeader (str "WWW-Authenticate")
      httpMessageBody
  | .notAcceptable => withBody message .notAcceptable httpMessageBody date

/-! ## The parts of a text -/

/-- The text is these lines, an empty line, and `body`. -/
structure Parts (text : List UInt8) (lines : List (List UInt8)) (body : List UInt8) : Prop where
  text_eq : text = lines.flatMap (· ++ [CR, LF]) ++ [CR, LF] ++ body
  lines_ne : ∀ line ∈ lines, line ≠ []
  lines_cr : ∀ line ∈ lines, CR ∉ line

theorem Parts.cons {text line : List UInt8} {lines : List (List UInt8)} {body : List UInt8}
    (h : Parts text (line :: lines) body) :
    ∃ rest, Scan.cutAt CR LF text = some (line, rest) ∧ Parts rest lines body := by
  refine ⟨lines.flatMap (· ++ [CR, LF]) ++ [CR, LF] ++ body, ?_, rfl, ?_, ?_⟩
  · rw [h.text_eq]
    have hcut := Scan.cutAt_append (b := LF) (h.lines_cr line List.mem_cons_self)
      (lines.flatMap (· ++ [CR, LF]) ++ [CR, LF] ++ body)
    simpa using hcut
  · exact fun l hl => h.lines_ne l (List.mem_cons_of_mem _ hl)
  · exact fun l hl => h.lines_cr l (List.mem_cons_of_mem _ hl)

/-- Without lines the text begins with the empty one. -/
theorem Parts.nil {text body : List UInt8} (h : Parts text [] body) :
    Scan.cutAt CR LF text = some ([], body) := by
  rw [h.text_eq]
  exact Scan.cutAt_append List.not_mem_nil body

/-- A text has its parts in one way. -/
theorem Parts.unique {text : List UInt8} {lines lines' : List (List UInt8)} {body body' : List UInt8}
    (h : Parts text lines body) (h' : Parts text lines' body') : lines = lines' ∧ body = body' := by
  induction lines generalizing text lines' with
  | nil =>
      cases lines' with
      | nil =>
          have heq := h.nil.symm.trans h'.nil
          exact ⟨rfl, congrArg Prod.snd (Option.some.inj heq)⟩
      | cons line' lines' =>
          obtain ⟨rest, hcut, -⟩ := h'.cons
          have heq := congrArg Prod.fst (Option.some.inj (h.nil.symm.trans hcut))
          exact absurd heq.symm (h'.lines_ne line' List.mem_cons_self)
  | cons line lines ih =>
      obtain ⟨rest, hcut, hrest⟩ := h.cons
      cases lines' with
      | nil =>
          have heq := congrArg Prod.fst (Option.some.inj (hcut.symm.trans h'.nil))
          exact absurd heq (h.lines_ne line List.mem_cons_self)
      | cons line' lines' =>
          obtain ⟨rest', hcut', hrest'⟩ := h'.cons
          obtain ⟨rfl, rfl⟩ := Prod.mk.inj (Option.some.inj (hcut.symm.trans hcut'))
          obtain ⟨rfl, rfl⟩ := ih hrest hrest'
          exact ⟨rfl, rfl⟩

/-- The line is a `Content-Length` header. -/
def isContentLength (line : List UInt8) : Bool := (str "Content-Length: ").isPrefixOf line

/-- The digits are `n` in decimal. -/
structure Decimal (digits : List UInt8) (n : ℕ) : Prop where
  ne_nil : digits ≠ []
  digit : ∀ c ∈ digits, isDigit c
  value : decimalValue digits = n

/-- **Self-consistency**: one line of the head announces a length, and it is the length of the body. -/
def SelfConsistent (text : List UInt8) : Prop :=
  ∃ lines body digits, Parts text lines body ∧
    lines.filter isContentLength = [str "Content-Length: " ++ digits] ∧ Decimal digits body.length

/-! ## Writing a number -/

theorem toUInt8_digitChar {d : ℕ} (hd : d < 10) : d.digitChar.toUInt8.toNat = 48 + d := by
  have hchar : d.digitChar.toNat = 48 + d := Nat.toNat_digitChar_of_lt_ten hd
  show d.digitChar.toNat % 256 = 48 + d
  omega

theorem str_toString (n : ℕ) : str (toString n) = (Nat.toDigits 10 n).map Char.toUInt8 := by
  rw [str, Nat.toString_eq_repr, Nat.toList_repr]

/-- One digit more at the end. -/
theorem decimal_concat {digits : List UInt8} {n d : ℕ} (hdigit : ∀ c ∈ digits, isDigit c)
    (hvalue : decimalValue digits = n) (hd : d < 10) :
    Decimal (digits ++ [d.digitChar.toUInt8]) (10 * n + d) := by
  have hbyte := toUInt8_digitChar hd
  refine ⟨by simp, ?_, ?_⟩
  · intro c hc
    rcases List.mem_append.mp hc with hc | hc
    · exact hdigit c hc
    · rw [List.mem_singleton.mp hc, isDigit, hbyte]
      simp
      omega
  · rw [decimalValue_concat, hvalue, hbyte]
    push_cast
    omega

/-- `std::to_string` of a `size_t`. -/
theorem decimal_toString (n : ℕ) : Decimal (str (toString n)) n := by
  rw [str_toString]
  induction n using Nat.strongRecOn with
  | ind n ih =>
      rw [Nat.toDigits_eq_if (by decide)]
      split_ifs with hn
      · have hsingle := decimal_concat (n := 0) (List.forall_mem_nil fun c => isDigit c = true) rfl hn
        simpa using hsingle
      · rw [List.map_append]
        have hinit := ih (n / 10) (by omega)
        have hlast := decimal_concat hinit.digit hinit.value (Nat.mod_lt n (by decide))
        rwa [Nat.div_add_mod n 10] at hlast

/-! ## What the templates build -/

variable {code : HTTPResponseCodes} {httpMessageBody date : List UInt8} {uninit : UInt8 × UInt8 × UInt8}

/-- The three headers. -/
theorem httpHeaders_withBody :
    (withBody (.create uninit) code httpMessageBody date).httpHeaders.httpHeaders =
      [(str "Content-Type", str "text/html"),
        (str "Content-Length", str (toString httpMessageBody.length)), (str "Date", date)] := by
  rfl

/-- A header line without its line end. -/
def headerLine (header : List UInt8 × List UInt8) : List UInt8 := header.1 ++ str ": " ++ header.2

/-- The first line. -/
def templateStatusLine (code : HTTPResponseCodes) : List UInt8 :=
  str "HTTP/1.1 " ++ HTTPResponseMessage.statusText code

/-- **The text of a response with a body**, line by line. -/
theorem buildRawMessage_withBody (hcode : code ≠ .invalidHttpCode)
    (it : (withBody (.create uninit) code httpMessageBody date).httpHeaders.Iteration) :
    (withBody (.create uninit) code httpMessageBody date).buildRawMessage it =
      (templateStatusLine code :: it.order.map headerLine).flatMap (· ++ [CR, LF]) ++ [CR, LF] ++
        httpMessageBody := by
  have hcrlf : str "\r\n" = [CR, LF] := by decide
  have hbuild : (withBody (.create uninit) code httpMessageBody date).buildRawMessage it =
      templateStatusLine code ++ str "\r\n" ++ (it.order.flatMap HTTPHeaders.rawHeaderLine ++ str "\r\n")
        ++ httpMessageBody := by
    unfold HTTPResponseMessage.buildRawMessage
    cases code with
    | invalidHttpCode => exact absurd rfl hcode
    | _ => rfl
  have hlines : it.order.flatMap HTTPHeaders.rawHeaderLine
      = (it.order.map headerLine).flatMap (· ++ [CR, LF]) := by
    rw [List.flatMap_map, ← hcrlf]
    rfl
  rw [hbuild, hlines, hcrlf, List.flatMap_cons]
  simp only [List.append_assoc]

theorem CR_notMem_digits {digits : List UInt8} (h : ∀ c ∈ digits, isDigit c) : CR ∉ digits := by
  intro hcr
  exact absurd (h CR hcr) (by decide)

theorem CR_notMem_statusLine (code : HTTPResponseCodes) : CR ∉ templateStatusLine code := by
  have hdigits : CR ∉ statusDigits code := by
    obtain ⟨a, b, c, heq, hdigit, -⟩ := statusDigits_spec code
    rw [heq]
    exact CR_notMem_digits (List.all_eq_true.mp hdigit)
  have hphrase : CR ∉ statusPhrase code := by
    intro hcr
    exact absurd (statusPhrase_text code CR hcr) (by decide)
  have hprotocol : CR ∉ str "HTTP/1.1 " := by decide
  rw [templateStatusLine, statusText_eq, List.mem_append, List.mem_append, List.mem_cons]
  rintro (h | h | h | h)
  · exact hprotocol h
  · exact hdigits h
  · exact absurd h (by decide)
  · exact hphrase h

theorem headerLine_contentLength (digits : List UInt8) :
    headerLine (str "Content-Length", digits) = str "Content-Length: " ++ digits := by
  have hname : str "Content-Length: " = str "Content-Length" ++ str ": " := by decide
  rw [headerLine, hname]

/-- No line but the one of the length begins like it. -/
theorem filter_isContentLength (digits date : List UInt8) :
    ([(str "Content-Type", str "text/html"), (str "Content-Length", digits), (str "Date", date)].map
        headerLine).filter isContentLength = [str "Content-Length: " ++ digits] := by
  have htype : isContentLength (headerLine (str "Content-Type", str "text/html")) = false := by decide
  have hlength : isContentLength (str "Content-Length: " ++ digits) = true :=
    List.isPrefixOf_iff_prefix.mpr (List.prefix_append _ _)
  have hdate : isContentLength (headerLine (str "Date", date)) = false := rfl
  rw [List.map_cons, List.map_cons, List.map_cons, List.map_nil, headerLine_contentLength,
    List.filter_cons_of_neg (by simp [htype]), List.filter_cons_of_pos hlength,
    List.filter_cons_of_neg (by simp [hdate]), List.filter_nil]

/-- The header lines of a template have no CR. -/
theorem CR_notMem_headerLine {digits : List UInt8} (hdigits : ∀ c ∈ digits, isDigit c)
    (hdate : CR ∉ date) {header : List UInt8 × List UInt8}
    (h : header ∈ [(str "Content-Type", str "text/html"), (str "Content-Length", digits),
      (str "Date", date)]) : CR ∉ headerLine header := by
  have hsep : CR ∉ str ": " := by decide
  have hline : ∀ {name value : List UInt8}, CR ∉ name → CR ∉ value → CR ∉ headerLine (name, value) := by
    intro name value hname hvalue
    rw [headerLine, List.mem_append, List.mem_append]
    rintro ((h | h) | h)
    · exact hname h
    · exact hsep h
    · exact hvalue h
  simp only [List.mem_cons, List.not_mem_nil, or_false] at h
  rcases h with rfl | rfl | rfl
  · exact hline (by decide) (by decide)
  · exact hline (by decide) (CR_notMem_digits hdigits)
  · exact hline (by decide) hdate

/-- **A template with a body** is self-consistent, in whatever order its headers are written. -/
theorem withBody_selfConsistent (hcode : code ≠ .invalidHttpCode) (hdate : CR ∉ date)
    (it : (withBody (.create uninit) code httpMessageBody date).httpHeaders.Iteration) :
    SelfConsistent ((withBody (.create uninit) code httpMessageBody date).buildRawMessage it) := by
  have hdecimal := decimal_toString httpMessageBody.length
  have hperm := it.perm
  rw [httpHeaders_withBody] at hperm
  refine ⟨templateStatusLine code :: it.order.map headerLine, httpMessageBody,
    str (toString httpMessageBody.length), ⟨buildRawMessage_withBody hcode it, ?_, ?_⟩, ?_, hdecimal⟩
  · intro line hline
    rcases List.mem_cons.mp hline with rfl | hline
    · exact List.append_ne_nil_of_left_ne_nil (by decide) _
    · obtain ⟨header, -, rfl⟩ := List.mem_map.mp hline
      apply List.append_ne_nil_of_left_ne_nil
      exact List.append_ne_nil_of_right_ne_nil _ (by decide)
  · intro line hline
    rcases List.mem_cons.mp hline with rfl | hline
    · exact CR_notMem_statusLine code
    · obtain ⟨header, hheader, rfl⟩ := List.mem_map.mp hline
      exact CR_notMem_headerLine hdecimal.digit hdate (hperm.mem_iff.mp hheader)
  · have hstatus : isContentLength (templateStatusLine code) = false := rfl
    rw [List.filter_cons_of_neg (by simp [hstatus])]
    apply List.perm_singleton.mp
    rw [← filter_isContentLength _ date]
    exact (hperm.map headerLine).filter _

/-- **When a template is self-consistent**: whatever the body and the time, all but `Unauthorized`. -/
theorem templates_consistent_iff (type : TemplateType) (httpMessageBody : List UInt8)
    {date : List UInt8} (hdate : CR ∉ date) (uninit : UInt8 × UInt8 × UInt8) :
    ((HTTPResponseTemplates type httpMessageBody date uninit).responseCode = type.named.value ∧
        ∀ it, SelfConsistent ((HTTPResponseTemplates type httpMessageBody date uninit).buildRawMessage it)) ↔
      type ≠ .unauthorized := by
  cases type with
  | unauthorized =>
      refine iff_of_false ?_ fun hne => hne rfl
      rintro ⟨hcode, -⟩
      have hwrong : HTTPResponseCodes.badRequest.value = HTTPResponseCodes.unauthorized.value := hcode
      exact absurd hwrong (by decide)
  | _ => exact iff_of_true ⟨rfl, withBody_selfConsistent (by decide) hdate⟩ (by decide)

/-- A `404` with a body, on a Monday. -/
theorem templates_consistent_iff_notFound :
    (HTTPResponseTemplates .notFound (str "<p>gone</p>") (str "Mon 2024-01-01 00:00:00 UTC")
        (1, 2, 3)).responseCode = 404 ∧
      SelfConsistent ((HTTPResponseTemplates .notFound (str "<p>gone</p>")
        (str "Mon 2024-01-01 00:00:00 UTC") (1, 2, 3)).buildRawMessage (.ofInsertion _)) := by
  have hdate : CR ∉ str "Mon 2024-01-01 00:00:00 UTC" := by decide
  have hconsistent :=
    (templates_consistent_iff .notFound (str "<p>gone</p>") hdate (1, 2, 3)).mpr (by decide)
  exact ⟨hconsistent.1, hconsistent.2 _⟩

/-- **`Unauthorized` with a body of one byte**: the code is 400, one byte is announced, and nothing follows
the empty line. -/
theorem unauthorized_announces_no_body :
    (HTTPResponseTemplates .unauthorized (str "x") (str "Mon 2024-01-01 00:00:00 UTC")
        (0, 0, 0)).responseCode = 400 ∧
      HTTPResponseCodes.value TemplateType.unauthorized.named = 401 ∧
      Parts ((HTTPResponseTemplates .unauthorized (str "x") (str "Mon 2024-01-01 00:00:00 UTC")
          (0, 0, 0)).buildRawMessage (.ofInsertion _))
        [str "HTTP/1.1 400 Bad Request", str "Content-Type: text/html", str "Content-Length: 1",
          str "Date: Mon 2024-01-01 00:00:00 UTC", str "WWW-Authenticate: x"] [] ∧
      ¬ SelfConsistent ((HTTPResponseTemplates .unauthorized (str "x")
          (str "Mon 2024-01-01 00:00:00 UTC") (0, 0, 0)).buildRawMessage (.ofInsertion _)) := by
  have hparts : Parts ((HTTPResponseTemplates .unauthorized (str "x")
      (str "Mon 2024-01-01 00:00:00 UTC") (0, 0, 0)).buildRawMessage (.ofInsertion _))
      [str "HTTP/1.1 400 Bad Request", str "Content-Type: text/html", str "Content-Length: 1",
        str "Date: Mon 2024-01-01 00:00:00 UTC", str "WWW-Authenticate: x"] [] :=
    ⟨by decide +kernel, by decide, by decide⟩
  refine ⟨rfl, rfl, hparts, ?_⟩
  rintro ⟨lines, body, digits, hparts', hfilter, hdecimal⟩
  obtain ⟨rfl, rfl⟩ := hparts.unique hparts'
  have hline : [str "HTTP/1.1 400 Bad Request", str "Content-Type: text/html", str "Content-Length: 1",
      str "Date: Mon 2024-01-01 00:00:00 UTC", str "WWW-Authenticate: x"].filter isContentLength
        = [str "Content-Length: " ++ str "1"] := by decide
  rw [hline] at hfilter
  obtain rfl : str "1" = digits := List.append_cancel_left (List.singleton_inj.mp hfilter)
  exact absurd hdecimal.value (by decide)

end Blueth.Http
