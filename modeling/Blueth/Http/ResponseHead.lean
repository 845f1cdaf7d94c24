/-
# Blueth.Http.ResponseHead — the heads `ParseHTTP1_1ResponseMessage` accepts, exactly.

The same road as for requests: `ResponseHead` is a head taken apart, `responseToHeadEnd` says for EVERY
state which words lead to the CR that ends the head, `feed_responseHead` computes the message along a
head, and `responseAccepts_iff` describes acceptance from `ResponseProtocolH` and a fresh message.

What differs: the status code goes through a three-digit holder, a header value is recorded without the
bytes that directly follow a colon (`recordedText`), and the blank line chooses between `ParsingDone`
and `ResponseMessageBody` by a header.
-/
import Blueth.Http.HeaderBlock
import Blueth.Http.ResponseParser

set_option autoImplicit false

namespace Blueth.Http

open Blueth.Scan Blueth.Io

/-! ## The grammar -/

/-- What is recorded of a header text, the byte before it being `p`: every byte that does not directly
follow a colon. -/
def recordedText : Option UInt8 → List UInt8 → List UInt8
  | _, [] => []
  | p, c :: w =>
    if p = some (ch ':') then recordedText (some c) w else c :: recordedText (some c) w

/-- The look-behind of the first byte has to fall inside the allocation. -/
def behindReadable (p : Option UInt8) (w : List UInt8) : Prop := w = [] ∨ p ≠ none

/-- A response head, taken apart. -/
structure ResponseHead where
  minor : List UInt8
  status : List UInt8
  reason : List UInt8
  lines : List HeaderLine
  /-- what stands before the CR of the line that ends the head -/
  trailing : List UInt8
  deriving DecidableEq, Repr

namespace ResponseHead

/-- The head up to and including its last CR. -/
def toLastCR (h : ResponseHead) : List UInt8 :=
  str "HTTP/1." ++ (h.minor ++ SP :: (h.status ++ SP :: (h.reason ++ CR :: LF ::
    blockBytes h.lines h.trailing)))

/-- The head: status line, header lines, last line, each with its CR LF. -/
def bytes (h : ResponseHead) : List UInt8 := h.toLastCR ++ [LF]

/-- Every part is made of the bytes that may stand there. -/
structure Shaped (h : ResponseHead) : Prop where
  minor_digit : ∀ c ∈ h.minor, isDigit c
  status_digit : ∀ c ∈ h.status, isDigit c
  reason_text : ∀ c ∈ h.reason, isText c
  lines_shaped : ∀ l ∈ h.lines, l.Shaped
  trailing_token : ∀ c ∈ h.trailing, isToken c

instance (h : ResponseHead) : Decidable h.Shaped :=
  decidable_of_iff (h.minor.all isDigit = true ∧ h.status.all isDigit = true ∧
      h.reason.all isText = true ∧ (∀ l ∈ h.lines, l.Shaped) ∧ h.trailing.all isToken = true) (by
    simp only [List.all_eq_true]
    exact ⟨fun h => ⟨h.1, h.2.1, h.2.2.1, h.2.2.2.1, h.2.2.2.2⟩, fun h => ⟨h.1, h.2, h.3, h.4, h.5⟩⟩)

/-- What the parser records of a header line. -/
def record (l : HeaderLine) : List UInt8 × List UInt8 := (l.name, recordedText (some (ch ':')) l.text)

/-- The header store at the end of the head. -/
def headers (h : ResponseHead) : HTTPHeaders := HTTPHeaders.empty.addHeaders (h.lines.map record)

theorem getHeaderValue_headers (h : ResponseHead) (name : List UInt8) :
    h.headers.getHeaderValue name = (firstText h.lines name).map (recordedText (some (ch ':'))) :=
  getHeaderValue_of_lines (recordedText (some (ch ':'))) h.lines name

/-- The status-code holder once the status digits are stored. -/
def statusHolder (h : ResponseHead) (uninit : UInt8 × UInt8 × UInt8) : StatusCodeHolder :=
  h.status.foldl StatusCodeHolder.push (.create uninit)

/-- The message at the end of the head. -/
def message (h : ResponseHead) (uninit : UInt8 × UInt8 × UInt8) : HTTPResponseMessage :=
  { HTTPResponseMessage.create uninit with
    httpHeaders := h.headers
    responseCode := atoi (h.statusHolder uninit).httpCodeHolder.toList
    tempHeaderNameHolder := h.trailing
    tempHttpStatusCodeHolder := h.statusHolder uninit }

/-- State and message of a single call on the head and `rest` behind it. -/
def result (h : ResponseHead) (uninit : UInt8 × UInt8 × UInt8) (rest : List UInt8) : ResponseState :=
  if afterBlankLine h.headers = .responseMessageBody ∧ rest ≠ [] then
    (.parsingDone, (h.message uninit).pushBackRawBody rest)
  else (afterBlankLine h.headers, h.message uninit)

theorem result_accepting (h : ResponseHead) (uninit : UInt8 × UInt8 × UInt8) (rest : List UInt8) :
    (h.result uninit rest).1.Accepting := by
  unfold result
  split_ifs
  · exact Or.inl rfl
  · exact afterBlankLine_accepting h.headers

theorem result_headers (h : ResponseHead) (uninit : UInt8 × UInt8 × UInt8) (rest : List UInt8) :
    (h.result uninit rest).2.httpHeaders = h.headers := by
  unfold result
  split_ifs <;> rfl

/-- **A word is the text of at most one head.** -/
theorem bytes_inj {g h : ResponseHead} {r r' : List UInt8} (hg : g.Shaped) (hh : h.Shaped)
    (e : g.bytes ++ r = h.bytes ++ r') : g = h ∧ r = r' := by
  simp only [bytes, toLastCR, List.append_assoc, List.cons_append] at e
  have e := List.append_cancel_left e
  obtain ⟨hmin, -, e⟩ := span_inj hg.minor_digit hh.minor_digit (by decide) (by decide) e
  obtain ⟨hst, -, e⟩ := span_inj hg.status_digit hh.status_digit (by decide) (by decide) e
  obtain ⟨hre, -, e⟩ := span_inj hg.reason_text hh.reason_text (by decide) (by decide) e
  rw [List.cons.injEq] at e
  obtain ⟨hl, htr, e⟩ := blockBytes_inj hg.lines_shaped hh.lines_shaped hg.trailing_token
    hh.trailing_token e.2
  refine ⟨?_, by simpa using e⟩
  cases g
  cases h
  simp only at hmin hst hre hl htr
  rw [hmin, hst, hre, hl, htr]

end ResponseHead

/-! ## From any state to the end of the head -/

/-- After the line end of the status line or of a header value. -/
def responseBlock : List UInt8 → Prop := IsBlock behindReadable

/-- From the reason phrase on. -/
def responseFromReason : List UInt8 → Prop :=
  spanThen (fun c => isText c = true) CR (oneThen (· = LF) responseBlock)

/-- From the status digits on. -/
def responseFromStatus : List UInt8 → Prop :=
  spanThen (fun c => isDigit c = true) SP responseFromReason

/-- From the minor version digits on. -/
def responseFromMinor : List UInt8 → Prop :=
  spanThen (fun c => isDigit c = true) SP responseFromStatus

/-- From the major version on. -/
def responseFromMajor : List UInt8 → Prop :=
  oneThen (· = ch '1') (oneThen (· = ch '.') responseFromMinor)

/-- The words that lead from a state, with `p` the byte before them, to the CR that ends the head. -/
def responseToHeadEnd (p : Option UInt8) : ResponseParserState → List UInt8 → Prop
  | .responseProtocolH => oneThen (· = ch 'H') (oneThen (· = ch 'T') (oneThen (· = ch 'T')
      (oneThen (· = ch 'P') (oneThen (· = ch '/') responseFromMajor))))
  | .responseProtocolT1 => oneThen (· = ch 'T') (oneThen (· = ch 'T') (oneThen (· = ch 'P')
      (oneThen (· = ch '/') responseFromMajor)))
  | .responseProtocolT2 => oneThen (· = ch 'T') (oneThen (· = ch 'P')
      (oneThen (· = ch '/') responseFromMajor))
  | .responseProtocolP => oneThen (· = ch 'P') (oneThen (· = ch '/') responseFromMajor)
  | .responseProtocolSlash => oneThen (· = ch '/') responseFromMajor
  | .responseProtocolVersionMajor => responseFromMajor
  | .responseProtocolDot => oneThen (· = ch '.') responseFromMinor
  | .responseProtocolVersionMinor => responseFromMinor
  | .statusCode => responseFromStatus
  | .responseReasonPhrase => responseFromReason
  | .statusLineLF => oneThen (· = LF) responseBlock
  | .headerName => responseBlock
  | .headerValue => IsValueTail behindReadable p
  | .headerValueLF => oneThen (· = LF) responseBlock
  | .headerEndLF => fun w => w = []
  | .responseMessageBody => fun _ => False
  | .parsingDone => fun _ => False
  | .protocolError => fun _ => False

theorem responseToHeadEnd_nil {p : Option UInt8} {st : ResponseParserState} :
    responseToHeadEnd p st [] ↔ st = .headerEndLF := by
  cases st <;>
    simp [responseToHeadEnd, responseFromMajor, responseFromMinor, responseFromStatus,
      responseFromReason, responseBlock]

/-- A pass that tests one byte advances exactly when the test succeeds. -/
theorem expectResponseByte_advance {ok : Bool} {next : ResponseParserState} {m : HTTPResponseMessage}
    {Q : ResponseState → Prop} :
    (∃ s', expectResponseByte ok next m = .advance s' ∧ Q s') ↔ ok = true ∧ Q (next, m) := by
  unfold expectResponseByte
  cases ok <;> simp

/-- **One byte.** The words to the end of the head, by their first byte: the pass consumes it, and the
remaining word leads on from the state the pass goes to. -/
theorem responseToHeadEnd_cons {p : Option UInt8} {st : ResponseParserState} (m : HTTPResponseMessage)
    {c : UInt8} {w : List UInt8} :
    responseToHeadEnd p st (c :: w)
      ↔ ∃ s', responsePass (st, m) p c = .advance s' ∧ responseToHeadEnd (some c) s'.1 w := by
  cases st with
  | responseProtocolVersionMinor =>
      show responseFromMinor (c :: w) ↔ _
      rw [responseFromMinor, spanThen_cons]
      by_cases hs : c = SP
      · subst hs
        simp [responsePass, responseToHeadEnd, show isDigit SP = false by decide]
      · by_cases hd : isDigit c <;> simp [responsePass, responseToHeadEnd, responseFromMinor, hs, hd]
  | statusCode =>
      show responseFromStatus (c :: w) ↔ _
      rw [responseFromStatus, spanThen_cons]
      by_cases hs : c = SP
      · subst hs
        simp [responsePass, responseToHeadEnd, show isDigit SP = false by decide]
      · by_cases hd : isDigit c <;> simp [responsePass, responseToHeadEnd, responseFromStatus, hs, hd]
  | responseReasonPhrase =>
      show responseFromReason (c :: w) ↔ _
      rw [responseFromReason, spanThen_cons]
      by_cases hcr : c = CR
      · subst hcr
        simp [responsePass, responseToHeadEnd, cr_not_text]
      · by_cases ht : isText c <;> simp [responsePass, responseToHeadEnd, responseFromReason, hcr, ht]
  | headerName =>
      show IsBlock behindReadable (c :: w) ↔ _
      rw [isBlock_cons]
      by_cases ht : isToken c
      · simp [responsePass, responseToHeadEnd, responseBlock, ht, isToken_ne_colon ht, isToken_ne_cr ht]
      · by_cases hcol : c = ch ':'
        · subst hcol
          simp [responsePass, responseToHeadEnd, ht, show ¬ ch ':' = CR by decide]
        · by_cases hcr : c = CR
          · subst hcr
            simp [responsePass, responseToHeadEnd, cr_not_token, hcol]
          · simp [responsePass, ht, hcol, hcr]
  | headerValue =>
      show IsValueTail behindReadable p (c :: w) ↔ _
      rw [isValueTail_cons (A := fun p _ => p ≠ none) (fun _ => Or.inl rfl)
        (fun _ _ _ => by simp [behindReadable])]
      by_cases hcr : c = CR
      · subst hcr
        simp [responsePass, responseToHeadEnd, responseBlock, cr_not_text]
      · by_cases ht : isText c
        · -- recorded or skipped, a text byte is consumed, if there is a byte before it to look at
          cases p with
          | none => simp [responsePass, hcr, ht]
          | some b =>
              by_cases hb : b = ch ':' <;> simp [responsePass, responseToHeadEnd, hcr, ht, hb]
        · simp [responsePass, hcr, ht]
  | headerValueLF => by_cases hc : c = LF <;> simp [responseToHeadEnd, responsePass, hc]
  | headerEndLF =>
      simp only [responsePass, expectResponseByte_advance, responseToHeadEnd, reduceCtorEq, false_iff]
      rintro ⟨-, hw⟩
      -- behind the blank line no word leads back
      rcases afterBlankLine_accepting m.httpHeaders with h | h
      · rw [h] at hw
        exact hw
      · rw [h] at hw
        exact hw
  | responseMessageBody => simp [responseToHeadEnd, responsePass]
  | parsingDone => simp [responseToHeadEnd, responsePass]
  | protocolError => simp [responseToHeadEnd, responsePass]
  | _ =>
      simp only [responsePass, expectResponseByte_advance]
      simp [responseToHeadEnd, responseFromMajor]

/-- **The whole word.** From any state and message, consuming `w` ends in `HeaderEndLF` exactly when
`w` is one of the words that lead there. -/
theorem feed_responseHeaderEndLF_iff {w : List UInt8} {st : ResponseParserState}
    {m : HTTPResponseMessage} {p : Option UInt8} :
    (∃ m', feed responsePass (st, m) p w = some (.headerEndLF, m')) ↔ responseToHeadEnd p st w := by
  induction w generalizing st m p with
  | nil => simp [responseToHeadEnd_nil]
  | cons c w ih =>
      rw [responseToHeadEnd_cons m]
      cases hp : responsePass (st, m) p c with
      | advance s' =>
          obtain ⟨st', m'⟩ := s'
          rw [feed_cons_of_advance hp, ih]
          simp
      | _ => simp [feed, hp]

/-! ## The message along a head -/

theorem foldl_pushBackResponseCode (x : List UInt8) (m : HTTPResponseMessage) :
    x.foldl HTTPResponseMessage.pushBackResponseCode m
      = { m with tempHttpStatusCodeHolder := x.foldl StatusCodeHolder.push m.tempHttpStatusCodeHolder } :=
  foldl_push
    (fun m x =>
      { m with tempHttpStatusCodeHolder := x.foldl StatusCodeHolder.push m.tempHttpStatusCodeHolder })
    (fun _ => rfl) (fun _ _ _ => rfl) x m

theorem foldl_responsePushBackHeaderName (x : List UInt8) (m : HTTPResponseMessage) :
    x.foldl HTTPResponseMessage.pushBackHeaderName m
      = { m with tempHeaderNameHolder := m.tempHeaderNameHolder ++ x } :=
  foldl_push (fun m x => { m with tempHeaderNameHolder := m.tempHeaderNameHolder ++ x }) (by simp)
    (by simp [HTTPResponseMessage.pushBackHeaderName]) x m

/-- Protocol name, slash and major version. -/
theorem feed_responseProtocol (m : HTTPResponseMessage) (p : Option UInt8) (v : List UInt8) :
    feed responsePass (.responseProtocolH, m) p (str "HTTP/1." ++ v)
      = feed responsePass (.responseProtocolVersionMinor, m) (some (ch '.')) v := by
  have hstr : str "HTTP/1." = [ch 'H', ch 'T', ch 'T', ch 'P', ch '/', ch '1', ch '.'] := by decide
  simp [hstr, feed, responsePass, expectResponseByte]

/-- Minor version digits and the space; the version was `HTTP1_1` before, and stays so. -/
theorem feed_responseMinor {x : List UInt8} (hx : ∀ c ∈ x, isDigit c) {m : HTTPResponseMessage}
    (hm : m.httpMessageVersion = .http1_1) (p : Option UInt8) (v : List UInt8) :
    feed responsePass (.responseProtocolVersionMinor, m) p (x ++ SP :: v)
      = feed responsePass (.statusCode, m) (some SP) v := by
  have hset : m.setHTTPVersion .http1_1 = m := by
    rw [HTTPResponseMessage.setHTTPVersion, ← hm]
  rw [feed_span (I := fun s => s.1 = .responseProtocolVersionMinor)
    (g := fun s _ => (s.1, s.2.setHTTPVersion .http1_1)) (k := fun s => (.statusCode, s.2))
    ?_ ?_ ?_ hx rfl, foldl_snd (fun (m : HTTPResponseMessage) (_ : UInt8) => m.setHTTPVersion .http1_1),
    List.foldl_fixed' (fun _ => hset) x]
  · rintro ⟨st, m⟩ p c rfl hc
    simp [responsePass, hc]
  · exact fun s c hs => hs
  · rintro ⟨st, m⟩ p rfl
    simp [responsePass, show isDigit SP = false by decide]

/-- The status digits and the space: the code is what `atoi` reads in the holder. -/
theorem feed_status {x : List UInt8} (hx : ∀ c ∈ x, isDigit c) (m : HTTPResponseMessage)
    (p : Option UInt8) (v : List UInt8) :
    feed responsePass (.statusCode, m) p (x ++ SP :: v)
      = feed responsePass (.responseReasonPhrase,
          (x.foldl HTTPResponseMessage.pushBackResponseCode m).setResponseCode
            (atoi (x.foldl HTTPResponseMessage.pushBackResponseCode m).getTempStatusCode))
          (some SP) v := by
  rw [feed_span (I := fun s => s.1 = .statusCode) (g := fun s c => (s.1, s.2.pushBackResponseCode c))
    (k := fun s => (.responseReasonPhrase, s.2.setResponseCode (atoi s.2.getTempStatusCode)))
    ?_ ?_ ?_ hx rfl, foldl_snd]
  · rintro ⟨st, m⟩ p c rfl hc
    simp [responsePass, hc]
  · exact fun s c hs => hs
  · rintro ⟨st, m⟩ p rfl
    simp [responsePass, show isDigit SP = false by decide]

/-- The reason phrase and the line end: nothing is recorded. -/
theorem feed_reason {x : List UInt8} (hx : ∀ c ∈ x, isText c) (m : HTTPResponseMessage)
    (p : Option UInt8) (v : List UInt8) :
    feed responsePass (.responseReasonPhrase, m) p (x ++ CR :: LF :: v)
      = feed responsePass (.headerName, m) (some LF) v := by
  rw [feed_span (I := fun s => s.1 = .responseReasonPhrase) (g := fun s _ => s)
    (k := fun s => (.statusLineLF, s.2)) ?_ ?_ ?_ hx rfl, List.foldl_fixed' (fun _ => rfl) x]
  · simp [feed, responsePass, expectResponseByte]
  · rintro ⟨st, m⟩ p c rfl hc
    simp [responsePass, hc, isText_ne_cr hc]
  · exact fun s c hs => hs
  · rintro ⟨st, m⟩ p rfl
    simp [responsePass]

/-- Bytes of a header name. -/
theorem feed_responseName {x : List UInt8} (hx : ∀ c ∈ x, isToken c) (m : HTTPResponseMessage)
    (p : Option UInt8) :
    feed responsePass (.headerName, m) p x
      = some (.headerName, { m with tempHeaderNameHolder := m.tempHeaderNameHolder ++ x }) := by
  rw [feed_all (I := fun s => s.1 = .headerName) (g := fun s c => (s.1, s.2.pushBackHeaderName c))
    ?_ ?_ hx rfl, foldl_snd, foldl_responsePushBackHeaderName]
  · rintro ⟨st, m⟩ p c rfl hc
    simp [responsePass, hc]
  · exact fun s c hs => hs

/-- A header text behind a byte `b`: the bytes that follow a colon are skipped. -/
theorem feed_responseText {x : List UInt8} (hx : ∀ c ∈ x, isText c) (b : UInt8)
    (m : HTTPResponseMessage) (v : List UInt8) :
    feed responsePass (.headerValue, m) (some b) (x ++ CR :: v)
      = feed responsePass (.headerValueLF,
          { m with tempHeaderValueHolder := m.tempHeaderValueHolder ++ recordedText (some b) x })
          (some CR) v := by
  induction x generalizing m b with
  | nil => simp [feed, responsePass, recordedText]
  | cons c x ih =>
      have hc : isText c := hx c (by simp)
      have hx' : ∀ d ∈ x, isText d := fun d hd => hx d (by simp [hd])
      by_cases hb : b = ch ':'
      · have hadv : responsePass (.headerValue, m) (some b) c = .advance (.headerValue, m) := by
          simp [responsePass, hc, isText_ne_cr hc, hb]
        rw [List.cons_append, feed_cons_of_advance hadv, ih hx', recordedText,
          if_pos (by rw [hb])]
      · have hadv : responsePass (.headerValue, m) (some b) c
            = .advance (.headerValue, m.pushBackHeaderValue c) := by
          simp [responsePass, hc, isText_ne_cr hc, hb]
        rw [List.cons_append, feed_cons_of_advance hadv, ih hx', recordedText,
          if_neg (by simpa using hb)]
        simp [HTTPResponseMessage.pushBackHeaderValue]

/-- The header lines: one `addHeader` a line, in order. -/
theorem feed_responseBlock {lines : List HeaderLine} {trailing : List UInt8}
    (hl : ∀ l ∈ lines, l.Shaped) (ht : ∀ c ∈ trailing, isToken c) {m : HTTPResponseMessage}
    (hn : m.tempHeaderNameHolder = []) (hv : m.tempHeaderValueHolder = []) (p : Option UInt8) :
    feed responsePass (.headerName, m) p (blockBytes lines trailing)
      = some (.headerEndLF,
          { m with
            httpHeaders := m.httpHeaders.addHeaders (lines.map ResponseHead.record)
            tempHeaderNameHolder := trailing }) := by
  induction lines generalizing m p with
  | nil =>
      rw [blockBytes_nil, feed_append_of_eq (feed_responseName ht m p)]
      simp [feed, responsePass, cr_not_token, hn, HTTPHeaders.addHeaders, show ¬ CR = ch ':' by decide]
  | cons l lines ih =>
      have hsh := hl l (by simp)
      rw [blockBytes_cons, feed_append_of_eq (feed_responseName hsh.name_token m p)]
      have hcolon : ∀ q m', responsePass (.headerName, m') q (ch ':') = .advance (.headerValue, m') := by
        intro q m'
        simp [responsePass, colon_not_token]
      have hlf : ∀ q m', responsePass (.headerValueLF, m') q LF
          = .advance (.headerName, m'.addTempHeadersHolderToMessage) := by
        intro q m'
        simp [responsePass]
      rw [feed_cons_of_advance (hcolon _ _), feed_responseText hsh.text_text,
        feed_cons_of_advance (hlf _ _), ih (fun k hk => hl k (by simp [hk])) rfl rfl]
      simp [HTTPResponseMessage.addTempHeadersHolderToMessage, hn, hv, HTTPHeaders.addHeaders,
        ResponseHead.record]

/-- **The message of a head.** From `ResponseProtocolH` and a fresh message, the head up to its last CR
is consumed, and the message is the one read off the head. -/
theorem feed_responseHead {h : ResponseHead} (hs : h.Shaped) (uninit : UInt8 × UInt8 × UInt8)
    (p : Option UInt8) :
    feed responsePass (.responseProtocolH, .create uninit) p h.toLastCR
      = some (.headerEndLF, h.message uninit) := by
  unfold ResponseHead.toLastCR
  rw [feed_responseProtocol, feed_responseMinor hs.minor_digit rfl, feed_status hs.status_digit,
    foldl_pushBackResponseCode, feed_reason hs.reason_text,
    feed_responseBlock hs.lines_shaped hs.trailing_token rfl rfl]
  rfl

/-! ## Acceptance -/

/-- A word that leads from the beginning to the end of the head is the text of a head. -/
theorem exists_responseHead_of_toHeadEnd {p : Option UInt8} {w : List UInt8}
    (h : responseToHeadEnd p .responseProtocolH w) :
    ∃ g : ResponseHead, g.Shaped ∧ w = g.toLastCR := by
  obtain ⟨_, _, rfl, rfl, _, _, rfl, rfl, _, _, rfl, rfl, _, _, rfl, rfl, _, w₁, rfl, rfl, h⟩ := h
  obtain ⟨_, _, rfl, rfl, _, w₂, rfl, rfl, x, _, rfl, hx, y, _, rfl, hy, h⟩ := h
  obtain ⟨z, _, rfl, hz, _, w₃, rfl, rfl, lines, trailing, hl, ht, rfl⟩ := h
  exact ⟨⟨x, y, z, lines, trailing⟩, ⟨hx, hy, hz, fun l hl' => (hl l hl').1, ht⟩, rfl⟩

/-- A head is consumed to its last byte. -/
theorem feed_responseBytes {h : ResponseHead} (hs : h.Shaped) (uninit : UInt8 × UInt8 × UInt8)
    (p : Option UInt8) :
    feed responsePass (.responseProtocolH, .create uninit) p h.bytes
      = some (afterBlankLine h.headers, h.message uninit) := by
  rw [ResponseHead.bytes, feed_append_of_eq (feed_responseHead hs uninit p)]
  simp [feed, responsePass, expectResponseByte, ResponseHead.message]

/-- **Acceptance goes through the end of the head**: from any other state, a run that returns in an
accepting one has met the CR that ends the head, and then LF. -/
theorem exists_headEnd_of_responseAccepting {w : List UInt8} {st₀ st : ResponseParserState}
    {m₀ m : HTTPResponseMessage} {p : Option UInt8} {left : List UInt8}
    (ho : outcome responsePass w (st₀, m₀) p = .returned (st, m) left) (hst₀ : ¬ st₀.Accepting)
    (hacc : st.Accepting) :
    ∃ u v m₁, w = u ++ LF :: v ∧ feed responsePass (st₀, m₀) p u = some (.headerEndLF, m₁) := by
  have hfinish : ∀ s p c s', responsePass s p c = .finish s' → s'.1.Accepting → s.1.Accepting := by
    intro s p c s' h hs'
    obtain ⟨rfl, -⟩ := responsePass_finish h
    exact hs'
  have hstay : ∀ s p c s', responsePass s p c = .stay s' → s'.1.Accepting → s.1.Accepting := by
    intro s p c s' h hs'
    obtain ⟨rfl, -⟩ := responsePass_stay h
    rcases hs' with h' | h' <;> exact absurd h' (by simp)
  have hrest : ∀ s p c f, responsePass s p c = .takeRest f → s.1.Accepting := by
    intro s p c f h
    exact Or.inr (responsePass_takeRest h).1
  obtain ⟨u, c, v, ⟨st₁, m₁⟩, ⟨st₂, m₂⟩, rfl, hu, -, hp, hst₂⟩ :=
    exists_entry (A := fun s : ResponseState => s.1.Accepting) hfinish hstay hrest ho hst₀ hacc
  rcases responsePass_advance hp with hnot | ⟨rfl, rfl, -, -⟩
  · exact absurd hst₂ hnot
  · exact ⟨u, v, m₁, rfl, hu⟩

/-- After the head: `ParsingDone` ignores the rest, `ResponseMessageBody` takes it if there is any. -/
theorem outcome_responseResult (h : ResponseHead) (uninit : UInt8 × UInt8 × UInt8)
    (rest : List UInt8) (p : Option UInt8) :
    ∃ left, outcome responsePass rest (afterBlankLine h.headers, h.message uninit) p
      = .returned (h.result uninit rest) left := by
  unfold ResponseHead.result
  rcases afterBlankLine_accepting h.headers with hst | hst
  · rw [hst, if_neg (by simp)]
    exact ⟨rest, outcome_of_finish (fun _ _ => rfl) rest p⟩
  · rw [hst]
    cases rest with
    | nil => exact ⟨[], rfl⟩
    | cons c rest => exact ⟨[], rfl⟩

/-- **Acceptance, exactly.** -/
theorem responseAccepts_iff {b : IOBuffer} {uninit : UInt8 × UInt8 × UInt8}
    {st : ResponseParserState} {m : HTTPResponseMessage} :
    (ResponseReturns b .responseProtocolH (.create uninit) st m ∧ st.Accepting)
      ↔ ∃ (h : ResponseHead) (rest : List UInt8), h.Shaped ∧ b.data = h.bytes ++ rest ∧
          (st, m) = h.result uninit rest := by
  have hret : ResponseReturns b .responseProtocolH (.create uninit) st m ↔ _ :=
    returns_iff responsePass_settles
  rw [hret]
  constructor
  · rintro ⟨⟨left, ho⟩, hacc⟩
    obtain ⟨u, v, m₁, hdata, hu⟩ :=
      exists_headEnd_of_responseAccepting ho (by simp [ResponseParserState.Accepting]) hacc
    obtain ⟨h, hs, rfl⟩ := exists_responseHead_of_toHeadEnd (feed_responseHeaderEndLF_iff.mp ⟨m₁, hu⟩)
    -- so the window starts with a head, and the run over it is known
    have hbytes : b.data = h.bytes ++ v := by simp [hdata, ResponseHead.bytes]
    rw [hbytes, outcome_append_of_feed (feed_responseBytes hs uninit _)] at ho
    obtain ⟨l, hl⟩ := outcome_responseResult h uninit v (behind b.byteBefore h.bytes)
    rw [hl, Outcome.returned.injEq] at ho
    exact ⟨h, v, hs, hbytes, ho.1.symm⟩
  · rintro ⟨h, rest, hs, hdata, hres⟩
    have hacc := h.result_accepting uninit rest
    rw [← hres] at hacc
    refine ⟨?_, hacc⟩
    rw [hdata, outcome_append_of_feed (feed_responseBytes hs uninit _), hres]
    exact outcome_responseResult h uninit rest _

end Blueth.Http
