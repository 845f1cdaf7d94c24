/-
# Blueth.Http.RequestHead — the heads `ParseHTTP1_1RequestMessage` accepts, exactly.

`RequestHead` is a request head taken apart: method, target, version digits, header lines, and the
bytes before the CR of the last line. `requestAccepts_iff` is the full description of acceptance:
a call from `RequestLineBegin` with a fresh message returns in `ParsingDone` or `MessageBody` exactly
when the window is `bytes ++ rest` of a shaped head whose spaces obey the code's rule and whose method
is recognised, and the returned message is then read off the head.

The road there: `requestToHeadEnd` says, for EVERY state, which words lead from it to the CR that ends
the head (`feed_headerEndLF_iff`, by induction on the word); `feed_head` computes the message along a
head; `bytes_inj` says that a word is the text of at most one head.
-/
import Blueth.Http.HeaderBlock
import Blueth.Http.RequestParser

set_option autoImplicit false

namespace Blueth.Http

open Blueth.Scan Blueth.Io

/-! ## The grammar -/

/-- The request parser's rule for spaces in a header value: each one directly follows a colon (the
byte before the text being `p`). -/
def spacesFollowColon : Option UInt8 → List UInt8 → Prop
  | _, [] => True
  | p, c :: w => (c = SP → p = some (ch ':')) ∧ spacesFollowColon (some c) w

instance : (p : Option UInt8) → (w : List UInt8) → Decidable (spacesFollowColon p w)
  | _, [] => .isTrue trivial
  | p, c :: w =>
    have : Decidable (spacesFollowColon (some c) w) := instDecidableSpacesFollowColon (some c) w
    inferInstanceAs (Decidable ((c = SP → p = some (ch ':')) ∧ spacesFollowColon (some c) w))

/-- A byte of a request target: printable, no space. -/
def isTargetByte (c : UInt8) : Prop := isPrint c = true ∧ c ≠ SP

instance (c : UInt8) : Decidable (isTargetByte c) := inferInstanceAs (Decidable (_ ∧ _))

/-- A request head, taken apart. -/
structure RequestHead where
  method : List UInt8
  target : List UInt8
  major : UInt8
  minor : List UInt8
  lines : List HeaderLine
  /-- what stands before the CR of the line that ends the head -/
  trailing : List UInt8
  deriving DecidableEq, Repr

namespace RequestHead

/-- The head up to and including its last CR. -/
def toLastCR (h : RequestHead) : List UInt8 :=
  h.method ++ SP :: (h.target ++ SP :: (str "HTTP/" ++ h.major :: ch '.' ::
    (h.minor ++ CR :: LF :: blockBytes h.lines h.trailing)))

/-- The head: start line, header lines, last line, each with its CR LF. -/
def bytes (h : RequestHead) : List UInt8 := h.toLastCR ++ [LF]

/-- Every part is made of the bytes that may stand there. -/
structure Shaped (h : RequestHead) : Prop where
  method_ne : h.method ≠ []
  method_token : ∀ c ∈ h.method, isToken c
  target_print : ∀ c ∈ h.target, isTargetByte c
  major_digit : isDigit h.major
  minor_digit : ∀ c ∈ h.minor, isDigit c
  lines_shaped : ∀ l ∈ h.lines, l.Shaped
  trailing_token : ∀ c ∈ h.trailing, isToken c

instance (h : RequestHead) : Decidable h.Shaped :=
  decidable_of_iff (h.method ≠ [] ∧ h.method.all isToken = true ∧
      h.target.all (fun c => isTargetByte c) = true ∧ isDigit h.major = true ∧
      h.minor.all isDigit = true ∧ (∀ l ∈ h.lines, l.Shaped) ∧ h.trailing.all isToken = true) (by
    simp only [List.all_eq_true, decide_eq_true_eq]
    exact ⟨fun h => ⟨h.1, h.2.1, h.2.2.1, h.2.2.2.1, h.2.2.2.2.1, h.2.2.2.2.2.1, h.2.2.2.2.2.2⟩,
      fun h => ⟨h.1, h.2, h.3, h.4, h.5, h.6, h.7⟩⟩)

/-- The code's rule for spaces, line by line. -/
def SpacesOk (h : RequestHead) : Prop :=
  ∀ l ∈ h.lines, spacesFollowColon (some (ch ':')) l.text

instance (h : RequestHead) : Decidable h.SpacesOk :=
  inferInstanceAs (Decidable (∀ l ∈ h.lines, spacesFollowColon (some (ch ':')) l.text))

/-- What the parser records of a header line: the text without its spaces. -/
def record (l : HeaderLine) : List UInt8 × List UInt8 := (l.name, l.text.filter (· != SP))

/-- The message at the end of the head, the request type not yet set. -/
def message (h : RequestHead) : HTTPRequestMessage :=
  { HTTPRequestMessage.create with
    httpHeaders := HTTPHeaders.empty.addHeaders (h.lines.map record)
    targetResource := h.target
    tempHeaderNameHolder := h.trailing
    tempHttpMethodHolder := h.method }

/-- **A word is the text of at most one head.** -/
theorem bytes_inj {g h : RequestHead} {r r' : List UInt8} (hg : g.Shaped) (hh : h.Shaped)
    (e : g.bytes ++ r = h.bytes ++ r') : g = h ∧ r = r' := by
  simp only [bytes, toLastCR, List.append_assoc, List.cons_append] at e
  obtain ⟨hm, -, e⟩ := span_inj hg.method_token hh.method_token (by decide) (by decide) e
  obtain ⟨ht, -, e⟩ := span_inj hg.target_print hh.target_print (by decide) (by decide) e
  have e := List.append_cancel_left e
  simp only [List.cons.injEq, true_and] at e
  obtain ⟨hmaj, e⟩ := e
  obtain ⟨hmin, -, e⟩ := span_inj hg.minor_digit hh.minor_digit (by decide) (by decide) e
  rw [List.cons.injEq] at e
  obtain ⟨hl, htr, e⟩ := blockBytes_inj hg.lines_shaped hh.lines_shaped hg.trailing_token
    hh.trailing_token e.2
  refine ⟨?_, by simpa using e⟩
  cases g
  cases h
  simp only at hm ht hmaj hmin hl htr
  rw [hm, ht, hmaj, hmin, hl, htr]

end RequestHead

/-! ## From any state to the end of the head -/

/-- After the line end of the request line or of a header value. -/
def requestBlock : List UInt8 → Prop := IsBlock spacesFollowColon

/-- From the minor version digits on. -/
def requestFromMinor : List UInt8 → Prop :=
  spanThen (fun c => isDigit c = true) CR (oneThen (· = LF) requestBlock)

/-- From the major version digit on. -/
def requestFromMajor : List UInt8 → Prop :=
  oneThen (fun c => isDigit c = true) (oneThen (· = ch '.') requestFromMinor)

/-- From the `H` of the protocol name on. -/
def requestFromProtocol : List UInt8 → Prop :=
  oneThen (· = ch 'H') (oneThen (· = ch 'T') (oneThen (· = ch 'T') (oneThen (· = ch 'P')
    (oneThen (· = ch '/') requestFromMajor))))

/-- From the target on. -/
def requestFromTarget : List UInt8 → Prop := spanThen isTargetByte SP requestFromProtocol

/-- From inside the method on. -/
def requestFromMethod : List UInt8 → Prop :=
  spanThen (fun c => isToken c = true) SP requestFromTarget

/-- The words that lead from a state, with `p` the byte before them, to the CR that ends the head. -/
def requestToHeadEnd (p : Option UInt8) : ParserState → List UInt8 → Prop
  | .requestLineBegin => oneThen (fun c => isToken c = true) requestFromMethod
  | .requestMethod => requestFromMethod
  | .requestResource => requestFromTarget
  | .requestProtocolH => requestFromProtocol
  | .requestProtocolT1 => oneThen (· = ch 'T') (oneThen (· = ch 'T') (oneThen (· = ch 'P')
      (oneThen (· = ch '/') requestFromMajor)))
  | .requestProtocolT2 => oneThen (· = ch 'T') (oneThen (· = ch 'P')
      (oneThen (· = ch '/') requestFromMajor))
  | .requestProtocolP => oneThen (· = ch 'P') (oneThen (· = ch '/') requestFromMajor)
  | .requestProtocolSlash => oneThen (· = ch '/') requestFromMajor
  | .requestProtocolVersionMajor => requestFromMajor
  | .requestProtocolDot => oneThen (· = ch '.') requestFromMinor
  | .requestProtocolVersionMinor => requestFromMinor
  | .requestLineLF => oneThen (· = LF) requestBlock
  | .headerName => requestBlock
  | .headerValue => IsValueTail spacesFollowColon p
  | .headerValueLF => oneThen (· = LF) requestBlock
  | .headerEndLF => fun w => w = []
  | .messageBody => fun _ => False
  | .parsingDone => fun _ => False
  | .protocolError => fun _ => False

theorem requestToHeadEnd_nil {p : Option UInt8} {st : ParserState} :
    requestToHeadEnd p st [] ↔ st = .headerEndLF := by
  cases st <;>
    simp [requestToHeadEnd, requestFromMethod, requestFromTarget, requestFromProtocol, requestFromMajor,
      requestFromMinor, requestBlock]

/-- A pass that tests one byte advances exactly when the test succeeds. -/
theorem expectByte_advance {ok : Bool} {next : ParserState} {m : HTTPRequestMessage}
    {Q : RequestState → Prop} :
    (∃ s', expectByte ok next m = .advance s' ∧ Q s') ↔ ok = true ∧ Q (next, m) := by
  unfold expectByte
  cases ok <;> simp

/-- **One byte.** The words to the end of the head, by their first byte: the pass consumes it, and the
remaining word leads on from the state the pass goes to. -/
theorem requestToHeadEnd_cons {p : Option UInt8} {st : ParserState} (m : HTTPRequestMessage)
    {c : UInt8} {w : List UInt8} :
    requestToHeadEnd p st (c :: w)
      ↔ ∃ s', requestPass (st, m) p c = .advance s' ∧ requestToHeadEnd (some c) s'.1 w := by
  cases st with
  | requestLineBegin => by_cases hc : isToken c <;> simp [requestToHeadEnd, requestPass, hc]
  | requestMethod =>
      show requestFromMethod (c :: w) ↔ _
      rw [requestFromMethod, spanThen_cons]
      by_cases hs : c = SP
      · subst hs
        simp [requestPass, requestToHeadEnd, show isToken SP = false by decide]
      · by_cases hc : isToken c <;> simp [requestPass, requestToHeadEnd, requestFromMethod, hs, hc]
  | requestResource =>
      show requestFromTarget (c :: w) ↔ _
      rw [requestFromTarget, spanThen_cons]
      by_cases hs : c = SP
      · simp [requestPass, requestToHeadEnd, isTargetByte, hs]
      · by_cases hc : isPrint c <;>
          simp [requestPass, requestToHeadEnd, requestFromTarget, isTargetByte, hs, hc]
  | requestProtocolVersionMinor =>
      show requestFromMinor (c :: w) ↔ _
      rw [requestFromMinor, spanThen_cons]
      by_cases hcr : c = CR
      · subst hcr
        simp [requestPass, requestToHeadEnd, show isDigit CR = false by decide]
      · by_cases hd : isDigit c <;> simp [requestPass, requestToHeadEnd, requestFromMinor, hcr, hd]
  | headerName =>
      show IsBlock spacesFollowColon (c :: w) ↔ _
      rw [isBlock_cons]
      by_cases ht : isToken c
      · simp [requestPass, requestToHeadEnd, requestBlock, ht, isToken_ne_colon ht, isToken_ne_cr ht]
      · by_cases hcol : c = ch ':'
        · subst hcol
          simp [requestPass, requestToHeadEnd, ht, show ¬ ch ':' = CR by decide]
        · by_cases hcr : c = CR
          · subst hcr
            simp [requestPass, requestToHeadEnd, cr_not_token, hcol]
          · simp [requestPass, ht, hcol, hcr]
  | headerValue =>
      show IsValueTail spacesFollowColon p (c :: w) ↔ _
      rw [isValueTail_cons (fun _ => trivial) (fun _ _ _ => Iff.rfl)]
      by_cases hcr : c = CR
      · subst hcr
        simp [requestPass, requestToHeadEnd, requestBlock, cr_not_text]
      · by_cases hs : c = SP
        · -- the only look-behind: the byte before a space has to be a colon
          subst hs
          cases p with
          | none => simp [requestPass, hcr]
          | some b =>
              by_cases hb : b = ch ':' <;>
                simp [requestPass, requestToHeadEnd, hcr, hb, show isText SP = true by decide]
        · by_cases ht : isText c <;> simp [requestPass, requestToHeadEnd, hcr, hs, ht]
  | headerValueLF => by_cases hc : c = LF <;> simp [requestToHeadEnd, requestPass, hc]
  | headerEndLF =>
      simp only [requestToHeadEnd, reduceCtorEq, false_iff]
      rintro ⟨s', h, hw⟩
      by_cases hc : c = LF
      · subst hc
        rw [requestPass_headerEndLF] at h
        cases hr : recognise m.tempHttpMethodHolder with
        | none => simp [hr] at h
        | some r =>
            obtain ⟨st, type⟩ := r
            simp only [hr, Pass.advance.injEq] at h
            subst h
            rcases recognise_cases hr with ⟨rfl, -⟩ | ⟨rfl, -⟩ <;> exact hw
      · simp [requestPass_headerEndLF_ne m p hc] at h
  | messageBody => simp [requestToHeadEnd, requestPass]
  | parsingDone => simp [requestToHeadEnd, requestPass]
  | protocolError => simp [requestToHeadEnd, requestPass]
  | _ =>
      simp only [requestPass, expectByte_advance]
      simp [requestToHeadEnd, requestFromProtocol, requestFromMajor]

/-- **The whole word.** From any state and message, consuming `w` ends in `HeaderEndLF` exactly when
`w` is one of the words that lead there. -/
theorem feed_headerEndLF_iff {w : List UInt8} {st : ParserState} {m : HTTPRequestMessage}
    {p : Option UInt8} :
    (∃ m', feed requestPass (st, m) p w = some (.headerEndLF, m')) ↔ requestToHeadEnd p st w := by
  induction w generalizing st m p with
  | nil => simp [requestToHeadEnd_nil]
  | cons c w ih =>
      rw [requestToHeadEnd_cons m]
      cases hp : requestPass (st, m) p c with
      | advance s' =>
          obtain ⟨st', m'⟩ := s'
          rw [feed_cons_of_advance hp, ih]
          simp
      | _ => simp [feed, hp]

/-! ## The message along a head -/

theorem foldl_pushBackRequestMethod (x : List UInt8) (m : HTTPRequestMessage) :
    x.foldl HTTPRequestMessage.pushBackRequestMethod m
      = { m with tempHttpMethodHolder := m.tempHttpMethodHolder ++ x } :=
  foldl_push (fun m x => { m with tempHttpMethodHolder := m.tempHttpMethodHolder ++ x }) (by simp)
    (by simp [HTTPRequestMessage.pushBackRequestMethod]) x m

theorem foldl_pushBackTargetResource (x : List UInt8) (m : HTTPRequestMessage) :
    x.foldl HTTPRequestMessage.pushBackTargetResource m
      = { m with targetResource := m.targetResource ++ x } :=
  foldl_push (fun m x => { m with targetResource := m.targetResource ++ x }) (by simp)
    (by simp [HTTPRequestMessage.pushBackTargetResource]) x m

theorem foldl_pushBackHeaderName (x : List UInt8) (m : HTTPRequestMessage) :
    x.foldl HTTPRequestMessage.pushBackHeaderName m
      = { m with tempHeaderNameHolder := m.tempHeaderNameHolder ++ x } :=
  foldl_push (fun m x => { m with tempHeaderNameHolder := m.tempHeaderNameHolder ++ x }) (by simp)
    (by simp [HTTPRequestMessage.pushBackHeaderName]) x m

/-- The rest of a method and the space after it. -/
theorem feed_method {x : List UInt8} (hx : ∀ c ∈ x, isToken c) (m : HTTPRequestMessage)
    (p : Option UInt8) (v : List UInt8) :
    feed requestPass (.requestMethod, m) p (x ++ SP :: v)
      = feed requestPass
          (.requestResource, { m with tempHttpMethodHolder := m.tempHttpMethodHolder ++ x }) (some SP) v := by
  rw [feed_span (I := fun s => s.1 = .requestMethod)
    (g := fun s c => (s.1, s.2.pushBackRequestMethod c)) (k := fun s => (.requestResource, s.2))
    ?_ ?_ ?_ hx rfl, foldl_snd, foldl_pushBackRequestMethod]
  · rintro ⟨st, m⟩ p c rfl hc
    simp [requestPass, hc, isToken_ne_sp hc]
  · exact fun s c hs => hs
  · rintro ⟨st, m⟩ p rfl
    simp [requestPass]

/-- The target and the space after it. -/
theorem feed_target {x : List UInt8} (hx : ∀ c ∈ x, isTargetByte c) (m : HTTPRequestMessage)
    (p : Option UInt8) (v : List UInt8) :
    feed requestPass (.requestResource, m) p (x ++ SP :: v)
      = feed requestPass
          (.requestProtocolH, { m with targetResource := m.targetResource ++ x }) (some SP) v := by
  rw [feed_span (I := fun s => s.1 = .requestResource)
    (g := fun s c => (s.1, s.2.pushBackTargetResource c)) (k := fun s => (.requestProtocolH, s.2))
    ?_ ?_ ?_ hx rfl, foldl_snd, foldl_pushBackTargetResource]
  · rintro ⟨st, m⟩ p c rfl hc
    simp [requestPass, hc.1, hc.2]
  · exact fun s c hs => hs
  · rintro ⟨st, m⟩ p rfl
    simp [requestPass]

/-- Protocol name and major version. -/
theorem feed_protocol {d : UInt8} (hd : isDigit d) (m : HTTPRequestMessage) (p : Option UInt8)
    (v : List UInt8) :
    feed requestPass (.requestProtocolH, m) p (str "HTTP/" ++ d :: ch '.' :: v)
      = feed requestPass (.requestProtocolVersionMinor, m) (some (ch '.')) v := by
  have hstr : str "HTTP/" = [ch 'H', ch 'T', ch 'T', ch 'P', ch '/'] := by decide
  simp [hstr, feed, requestPass, expectByte, hd]

/-- Minor version digits and the line end; the version was `HTTP1_1` before, and stays so. -/
theorem feed_minor {x : List UInt8} (hx : ∀ c ∈ x, isDigit c) {m : HTTPRequestMessage}
    (hm : m.httpMessageVersion = .http1_1) (p : Option UInt8) (v : List UInt8) :
    feed requestPass (.requestProtocolVersionMinor, m) p (x ++ CR :: LF :: v)
      = feed requestPass (.headerName, m) (some LF) v := by
  have hset : m.setHTTPVersion .http1_1 = m := by
    rw [HTTPRequestMessage.setHTTPVersion, ← hm]
  rw [feed_span (I := fun s => s.1 = .requestProtocolVersionMinor)
    (g := fun s _ => (s.1, s.2.setHTTPVersion .http1_1)) (k := fun s => (.requestLineLF, s.2))
    ?_ ?_ ?_ hx rfl, foldl_snd (fun (m : HTTPRequestMessage) (_ : UInt8) => m.setHTTPVersion .http1_1),
    List.foldl_fixed' (fun _ => hset) x]
  · simp [feed, requestPass, expectByte]
  · rintro ⟨st, m⟩ p c rfl hc
    simp [requestPass, hc]
  · exact fun s c hs => hs
  · rintro ⟨st, m⟩ p rfl
    simp [requestPass, show isDigit CR = false by decide]

/-- Bytes of a header name. -/
theorem feed_name {x : List UInt8} (hx : ∀ c ∈ x, isToken c) (m : HTTPRequestMessage)
    (p : Option UInt8) :
    feed requestPass (.headerName, m) p x
      = some (.headerName, { m with tempHeaderNameHolder := m.tempHeaderNameHolder ++ x }) := by
  rw [feed_all (I := fun s => s.1 = .headerName) (g := fun s c => (s.1, s.2.pushBackHeaderName c))
    ?_ ?_ hx rfl, foldl_snd, foldl_pushBackHeaderName]
  · rintro ⟨st, m⟩ p c rfl hc
    simp [requestPass, hc]
  · exact fun s c hs => hs

/-- A header text: every byte but the spaces is recorded. -/
theorem feed_text {x : List UInt8} (hx : ∀ c ∈ x, isText c) {p : Option UInt8}
    (hp : spacesFollowColon p x) (m : HTTPRequestMessage) (v : List UInt8) :
    feed requestPass (.headerValue, m) p (x ++ CR :: v)
      = feed requestPass (.headerValueLF,
          { m with tempHeaderValueHolder := m.tempHeaderValueHolder ++ x.filter (· != SP) }) (some CR) v := by
  induction x generalizing m p with
  | nil => simp [feed, requestPass]
  | cons c x ih =>
      have hc : isText c := hx c (by simp)
      have hx' : ∀ d ∈ x, isText d := fun d hd => hx d (by simp [hd])
      obtain ⟨hsp, hp⟩ := hp
      by_cases hs : c = SP
      · subst hs
        have hadv : requestPass (.headerValue, m) p SP = .advance (.headerValue, m) := by
          simp [requestPass, hsp rfl, show ¬ SP = CR by decide]
        rw [List.cons_append, feed_cons_of_advance hadv, ih hx' hp]
        simp
      · have hadv : requestPass (.headerValue, m) p c
            = .advance (.headerValue, m.pushBackHeaderValue c) := by
          simp [requestPass, hs, hc, isText_ne_cr hc]
        rw [List.cons_append, feed_cons_of_advance hadv, ih hx' hp]
        simp [HTTPRequestMessage.pushBackHeaderValue, hs]

/-- The header lines: one `addHeader` a line, in order. -/
theorem feed_block {lines : List HeaderLine} {trailing : List UInt8} (hl : ∀ l ∈ lines, l.Shaped)
    (hs : ∀ l ∈ lines, spacesFollowColon (some (ch ':')) l.text) (ht : ∀ c ∈ trailing, isToken c)
    {m : HTTPRequestMessage} (hn : m.tempHeaderNameHolder = []) (hv : m.tempHeaderValueHolder = [])
    (p : Option UInt8) :
    feed requestPass (.headerName, m) p (blockBytes lines trailing)
      = some (.headerEndLF,
          { m with
            httpHeaders := m.httpHeaders.addHeaders (lines.map RequestHead.record)
            tempHeaderNameHolder := trailing }) := by
  induction lines generalizing m p with
  | nil =>
      rw [blockBytes_nil, feed_append_of_eq (feed_name ht m p)]
      simp [feed, requestPass, cr_not_token, hn, HTTPHeaders.addHeaders, show ¬ CR = ch ':' by decide]
  | cons l lines ih =>
      have hsh := hl l (by simp)
      rw [blockBytes_cons, feed_append_of_eq (feed_name hsh.name_token m p)]
      have hcolon : ∀ q m', requestPass (.headerName, m') q (ch ':') = .advance (.headerValue, m') := by
        intro q m'
        simp [requestPass, colon_not_token]
      have hlf : ∀ q m', requestPass (.headerValueLF, m') q LF
          = .advance (.headerName, m'.addTempHeadersHolderToMessage) := by
        intro q m'
        simp [requestPass]
      rw [feed_cons_of_advance (hcolon _ _), feed_text hsh.text_text (hs l (by simp)),
        feed_cons_of_advance (hlf _ _),
        ih (fun k hk => hl k (by simp [hk])) (fun k hk => hs k (by simp [hk])) rfl rfl]
      simp [HTTPRequestMessage.addTempHeadersHolderToMessage, hn, hv, HTTPHeaders.addHeaders,
        RequestHead.record]

/-- **The message of a head.** From `RequestLineBegin` and a fresh message, the head up to its last CR
is consumed, and the message is the one read off the head. -/
theorem feed_head {h : RequestHead} (hs : h.Shaped) (hsp : h.SpacesOk) (p : Option UInt8) :
    feed requestPass (.requestLineBegin, .create) p h.toLastCR = some (.headerEndLF, h.message) := by
  obtain ⟨c, x, hm⟩ := List.exists_cons_of_ne_nil hs.method_ne
  have htok := hs.method_token
  rw [hm] at htok
  have hfirst : requestPass (.requestLineBegin, .create) p c
      = .advance (.requestMethod, HTTPRequestMessage.create.pushBackRequestMethod c) := by
    simp [requestPass, htok c (by simp)]
  unfold RequestHead.toLastCR
  rw [hm, List.cons_append, feed_cons_of_advance hfirst,
    feed_method (fun d hd => htok d (by simp [hd])), feed_target hs.target_print,
    feed_protocol hs.major_digit, feed_minor hs.minor_digit rfl,
    feed_block hs.lines_shaped hsp hs.trailing_token rfl rfl]
  simp [RequestHead.message, HTTPRequestMessage.pushBackRequestMethod, HTTPRequestMessage.create, hm]

/-! ## Acceptance -/

/-- A word that leads from the beginning to the end of the head is the text of a head. -/
theorem exists_head_of_toHeadEnd {p : Option UInt8} {w : List UInt8}
    (h : requestToHeadEnd p .requestLineBegin w) :
    ∃ g : RequestHead, g.Shaped ∧ g.SpacesOk ∧ w = g.toLastCR := by
  obtain ⟨c, w₁, rfl, hc, x, w₂, rfl, hx, y, w₃, rfl, hy, h⟩ := h
  obtain ⟨_, _, rfl, rfl, _, _, rfl, rfl, _, _, rfl, rfl, _, _, rfl, rfl, _, w₄, rfl, rfl, h⟩ := h
  obtain ⟨d, _, rfl, hd, _, w₅, rfl, rfl, z, _, rfl, hz, _, w₆, rfl, rfl, h⟩ := h
  obtain ⟨lines, trailing, hl, ht, rfl⟩ := h
  refine ⟨⟨c :: x, y, d, z, lines, trailing⟩, ?_, ?_, ?_⟩
  · constructor
    · simp
    · intro e he
      rcases List.mem_cons.mp he with rfl | he
      · exact hc
      · exact hx e he
    · exact hy
    · exact hd
    · exact hz
    · exact fun l hl' => (hl l hl').1
    · exact ht
  · exact fun l hl' => (hl l hl').2
  · rfl

/-- The message of an accepted request: the type is set, and a body state has the rest as body. -/
def RequestHead.result (h : RequestHead) (st : ParserState) (type : HTTPRequestType)
    (rest : List UInt8) : HTTPRequestMessage :=
  { h.message with requestType := type, rawBody := if st = .messageBody then rest else [] }

/-- The code accepts this head, in state `st` and as a request of type `type`. -/
structure RequestHead.Accepted (h : RequestHead) (st : ParserState) (type : HTTPRequestType) : Prop where
  shaped : h.Shaped
  spacesOk : h.SpacesOk
  recognised : recognise h.method = some (st, type)

theorem RequestHead.Accepted.accepting {h : RequestHead} {st : ParserState} {type : HTTPRequestType}
    (hh : h.Accepted st type) : st.Accepting := by
  rcases recognise_cases hh.recognised with ⟨rfl, -⟩ | ⟨rfl, -⟩
  · exact Or.inl rfl
  · exact Or.inr rfl

/-- An accepted head is consumed to its last byte. -/
theorem feed_bytes {h : RequestHead} {st : ParserState} {type : HTTPRequestType}
    (hh : h.Accepted st type) (p : Option UInt8) :
    feed requestPass (.requestLineBegin, .create) p h.bytes
      = some (st, h.message.setRequestType type) := by
  have hlf : requestPass (.headerEndLF, h.message) (behind p h.toLastCR) LF
      = .advance (st, h.message.setRequestType type) := by
    have hm : h.message.tempHttpMethodHolder = h.method := rfl
    rw [requestPass_headerEndLF, hm, hh.recognised]
  rw [RequestHead.bytes, feed_append_of_eq (feed_head hh.shaped hh.spacesOk p),
    feed_cons_of_advance hlf, feed_nil]

/-- **Acceptance goes through the end of the head.** A run from any other state that returns in an
accepting one has met the CR that ends the head, and then LF with a known method. -/
theorem exists_headEnd_of_accepting {w : List UInt8} {st₀ st : ParserState}
    {m₀ m : HTTPRequestMessage} {p : Option UInt8} {left : List UInt8}
    (ho : outcome requestPass w (st₀, m₀) p = .returned (st, m) left) (hst₀ : ¬ st₀.Accepting)
    (hacc : st.Accepting) :
    ∃ u v m₁, w = u ++ LF :: v ∧ feed requestPass (st₀, m₀) p u = some (.headerEndLF, m₁) ∧
      (recognise m₁.tempHttpMethodHolder).isSome := by
  have hfinish : ∀ s p c s', requestPass s p c = .finish s' → s'.1.Accepting → s.1.Accepting := by
    intro s p c s' h hs'
    obtain ⟨rfl, -⟩ := requestPass_finish h
    exact hs'
  -- a pass that keeps the pointer keeps the state, or goes to `ProtocolError`
  have hstay : ∀ s p c s', requestPass s p c = .stay s' → s'.1.Accepting → s.1.Accepting := by
    intro s p c s' h hs'
    rcases requestPass_stay h with ⟨rfl, -⟩ | ⟨hs, -, rfl⟩ | ⟨hs, -, -, rfl⟩
    · rcases hs' with h' | h' <;> exact absurd h' (by simp)
    · exact hs ▸ hs'
    · exact hs ▸ hs'
  have hrest : ∀ s p c f, requestPass s p c = .takeRest f → s.1.Accepting := by
    intro s p c f h
    exact Or.inr (requestPass_takeRest h).1
  obtain ⟨u, c, v, ⟨st₁, m₁⟩, ⟨st₂, m₂⟩, rfl, hu, -, hp, hst₂⟩ :=
    exists_entry (A := fun s : RequestState => s.1.Accepting) hfinish hstay hrest ho hst₀ hacc
  rcases requestPass_advance hp with ⟨hnot, -⟩ | ⟨rfl, rfl, type, hr, -⟩
  · exact absurd hst₂ hnot
  · exact ⟨u, v, m₁, rfl, hu, by rw [hr]; rfl⟩

/-- After the head: `ParsingDone` ignores the rest, `MessageBody` takes it. -/
theorem outcome_accepting (h : RequestHead) {st : ParserState} (type : HTTPRequestType)
    (hacc : st.Accepting) (rest : List UInt8) (p : Option UInt8) :
    ∃ left, outcome requestPass rest (st, h.message.setRequestType type) p
      = .returned (st, h.result st type rest) left := by
  rcases hacc with rfl | rfl
  · refine ⟨rest, ?_⟩
    cases rest with
    | nil => rfl
    | cons c rest => rfl
  · refine ⟨[], ?_⟩
    cases rest with
    | nil => rfl
    | cons c rest => rfl

/-- **Acceptance, exactly.** -/
theorem requestAccepts_iff {b : IOBuffer} {st : ParserState} {m : HTTPRequestMessage} :
    (RequestReturns b .requestLineBegin .create st m ∧ st.Accepting)
      ↔ ∃ (h : RequestHead) (type : HTTPRequestType) (rest : List UInt8), h.Accepted st type ∧
          b.data = h.bytes ++ rest ∧ m = h.result st type rest := by
  have hret : RequestReturns b .requestLineBegin .create st m ↔ _ := returns_iff requestPass_settles
  rw [hret]
  constructor
  · rintro ⟨⟨left, ho⟩, hacc⟩
    obtain ⟨u, v, m₁, hdata, hu, hr⟩ :=
      exists_headEnd_of_accepting ho (by simp [ParserState.Accepting]) hacc
    obtain ⟨h, hs, hsp, rfl⟩ := exists_head_of_toHeadEnd (feed_headerEndLF_iff.mp ⟨m₁, hu⟩)
    rw [feed_head hs hsp, Option.some.injEq, Prod.mk.injEq] at hu
    obtain ⟨-, rfl⟩ := hu
    obtain ⟨⟨st₁, type⟩, hr⟩ := Option.isSome_iff_exists.mp hr
    -- so the window starts with an accepted head, and the run over it is known
    have hh : h.Accepted st₁ type := ⟨hs, hsp, hr⟩
    have hbytes : b.data = h.bytes ++ v := by simp [hdata, RequestHead.bytes]
    rw [hbytes, outcome_append_of_feed (feed_bytes hh _)] at ho
    obtain ⟨l, hl⟩ := outcome_accepting h type hh.accepting v (behind b.byteBefore h.bytes)
    rw [hl, Outcome.returned.injEq, Prod.mk.injEq] at ho
    obtain ⟨⟨rfl, rfl⟩, -⟩ := ho
    exact ⟨h, type, v, hh, hbytes, rfl⟩
  · rintro ⟨h, type, rest, hh, hdata, rfl⟩
    refine ⟨?_, hh.accepting⟩
    rw [hdata, outcome_append_of_feed (feed_bytes hh _)]
    exact outcome_accepting h type hh.accepting rest _

end Blueth.Http
