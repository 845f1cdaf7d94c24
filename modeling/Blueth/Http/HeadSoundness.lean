/-
# Blueth.Http.HeadSoundness — is an accepted head a well-formed one?

The grammar both parsers are meant to accept asks for more than `Shaped`: the target, the version digits,
the status digits and every header name must be there, and the head must end in an EMPTY line. The two
state machines do not ask: `HeaderName` serves both as "start of a line" and as "inside a name", so a CR
behind a half-written name ends the head, and the digit and target states can be left at once.

`headSound_iff` is the exact account, for both parsers and from ANY message (leftovers in the temporary
holders included): acceptance is sound exactly on the windows that do not start with such a head.
-/
import Blueth.Http.RequestRuns
import Blueth.Http.ResponseHead

set_option autoImplicit false

namespace Blueth.Http

open Blueth.Scan Blueth.Io

/-! ## The strict grammar -/

/-- No part that has to be there is empty, and the line that ends the head is. -/
structure RequestHead.Strict (h : RequestHead) : Prop where
  target_ne : h.target ≠ []
  minor_ne : h.minor ≠ []
  names_ne : ∀ l ∈ h.lines, l.name ≠ []
  blank : h.trailing = []

/-- As for requests, with version and status digits. -/
structure ResponseHead.Strict (h : ResponseHead) : Prop where
  minor_ne : h.minor ≠ []
  status_ne : h.status ≠ []
  names_ne : ∀ l ∈ h.lines, l.name ≠ []
  blank : h.trailing = []

/-- `s` starts with a request head of the grammar. -/
def HasRequestHead (s : List UInt8) : Prop :=
  ∃ h : RequestHead, h.Shaped ∧ h.Strict ∧ ∃ rest, s = h.bytes ++ rest

/-- `s` starts with a response head of the grammar. -/
def HasResponseHead (s : List UInt8) : Prop :=
  ∃ h : ResponseHead, h.Shaped ∧ h.Strict ∧ ∃ rest, s = h.bytes ++ rest

/-- Calls that start at the beginning of a message and end behind its head have seen a head. -/
structure HeadSound (b : IOBuffer) (request : HTTPRequestMessage) (response : HTTPResponseMessage) :
    Prop where
  ofRequest : ∀ st m, RequestReturns b .requestLineBegin request st m → st.Accepting →
    HasRequestHead b.data
  ofResponse : ∀ st m, ResponseReturns b .responseProtocolH response st m → st.Accepting →
    HasResponseHead b.data

/-! ## Acceptance from any message -/

/-- The text of a head leads to its end, whatever message the parser starts with. -/
theorem toHeadEnd_of_shaped {h : RequestHead} (hs : h.Shaped) (hsp : h.SpacesOk) (p : Option UInt8) :
    requestToHeadEnd p .requestLineBegin h.toLastCR :=
  feed_headerEndLF_iff.mp ⟨h.message, feed_head hs hsp p⟩

/-- The method of a head is what stands before its first space. -/
theorem methodAfter_head {h : RequestHead} (hs : h.Shaped) (m : HTTPRequestMessage) :
    methodAfter .requestLineBegin m h.toLastCR = m.tempHttpMethodHolder ++ h.method := by
  have htake : h.toLastCR.takeWhile (· != SP) = h.method := by
    unfold RequestHead.toLastCR
    rw [List.takeWhile_append_of_pos]
    · simp
    · intro c hc
      simpa using isToken_ne_sp (hs.method_token c hc)
  rw [methodAfter, if_pos (Or.inl rfl), htake]

/-- **Which windows a request parser accepts**, whatever message it starts with: those that begin with a
head whose spaces obey the code's rule and whose method, behind what the message already holds, is one of
the four. -/
theorem requestAcceptsFrom_iff {b : IOBuffer} {m₀ : HTTPRequestMessage} :
    (∃ st m, RequestReturns b .requestLineBegin m₀ st m ∧ st.Accepting)
      ↔ ∃ (h : RequestHead) (rest : List UInt8), h.Shaped ∧ h.SpacesOk ∧
          (recognise (m₀.tempHttpMethodHolder ++ h.method)).isSome ∧ b.data = h.bytes ++ rest := by
  constructor
  · rintro ⟨st, m, hret, hacc⟩
    obtain ⟨left, ho⟩ := (returns_iff requestPass_settles).mp hret
    obtain ⟨u, v, m₁, hdata, hu, hr⟩ :=
      exists_headEnd_of_accepting ho (by simp [ParserState.Accepting]) hacc
    obtain ⟨h, hs, hsp, rfl⟩ := exists_head_of_toHeadEnd (feed_headerEndLF_iff.mp ⟨m₁, hu⟩)
    rw [← feed_methodAfter hu, methodAfter_head hs] at hr
    exact ⟨h, v, hs, hsp, hr, by simp [hdata, RequestHead.bytes]⟩
  · rintro ⟨h, rest, hs, hsp, hr, hdata⟩
    obtain ⟨m₁, hu⟩ := (feed_headerEndLF_iff (m := m₀)).mpr (toHeadEnd_of_shaped hs hsp b.byteBefore)
    rw [← methodAfter_head hs, feed_methodAfter hu] at hr
    obtain ⟨⟨st, type⟩, hr⟩ := Option.isSome_iff_exists.mp hr
    have hlf : requestPass (.headerEndLF, m₁) (behind b.byteBefore h.toLastCR) LF
        = .advance (st, m₁.setRequestType type) := by
      rw [requestPass_headerEndLF, hr]
    -- behind the LF the call returns at once, in `ParsingDone` or `MessageBody`
    have hrun : ∃ m left, outcome requestPass b.data (.requestLineBegin, m₀) b.byteBefore
        = .returned (st, m) left := by
      rw [hdata, RequestHead.bytes, List.append_assoc, outcome_append_of_feed hu]
      simp only [List.singleton_append, outcome, hlf]
      rcases recognise_cases hr with ⟨rfl, -⟩ | ⟨rfl, -⟩
      · exact ⟨_, _, outcome_of_finish (fun _ _ => rfl) rest _⟩
      · cases rest with
        | nil => exact ⟨_, _, rfl⟩
        | cons c rest => exact ⟨_, _, rfl⟩
    obtain ⟨m, left, ho⟩ := hrun
    refine ⟨st, m, (returns_iff requestPass_settles).mpr ⟨left, ho⟩, ?_⟩
    rcases recognise_cases hr with ⟨rfl, -⟩ | ⟨rfl, -⟩
    · exact Or.inl rfl
    · exact Or.inr rfl

/-- **Which windows a response parser accepts**, whatever message it starts with. -/
theorem responseAcceptsFrom_iff {b : IOBuffer} {m₀ : HTTPResponseMessage} :
    (∃ st m, ResponseReturns b .responseProtocolH m₀ st m ∧ st.Accepting)
      ↔ ∃ (h : ResponseHead) (rest : List UInt8), h.Shaped ∧ b.data = h.bytes ++ rest := by
  constructor
  · rintro ⟨st, m, hret, hacc⟩
    obtain ⟨left, ho⟩ := (returns_iff responsePass_settles).mp hret
    obtain ⟨u, v, m₁, hdata, hu⟩ :=
      exists_headEnd_of_responseAccepting ho (by simp [ResponseParserState.Accepting]) hacc
    obtain ⟨h, hs, rfl⟩ := exists_responseHead_of_toHeadEnd (feed_responseHeaderEndLF_iff.mp ⟨m₁, hu⟩)
    exact ⟨h, v, hs, by simp [hdata, ResponseHead.bytes]⟩
  · rintro ⟨h, rest, hs, hdata⟩
    have hend := feed_responseHeaderEndLF_iff.mp ⟨_, feed_responseHead hs (0, 0, 0) b.byteBefore⟩
    obtain ⟨m₁, hu⟩ := (feed_responseHeaderEndLF_iff (m := m₀)).mpr hend
    have hrun : ∃ st m left, outcome responsePass b.data (.responseProtocolH, m₀) b.byteBefore
        = .returned (st, m) left ∧ st.Accepting := by
      rw [hdata, ResponseHead.bytes, List.append_assoc, outcome_append_of_feed hu]
      simp only [List.singleton_append, outcome, responsePass, expectResponseByte, beq_self_eq_true,
        if_true]
      rcases afterBlankLine_accepting m₁.httpHeaders with hst | hst
      · rw [hst, outcome_of_finish (fun _ _ => rfl)]
        exact ⟨_, _, _, rfl, Or.inl rfl⟩
      · rw [hst]
        cases rest with
        | nil => exact ⟨_, _, _, rfl, Or.inr rfl⟩
        | cons c rest => exact ⟨_, _, _, rfl, Or.inl rfl⟩
    obtain ⟨st, m, left, ho, hacc⟩ := hrun
    exact ⟨st, m, (returns_iff responsePass_settles).mpr ⟨left, ho⟩, hacc⟩

/-! ## Where acceptance is unsound -/

/-- The window starts with a head the request parser accepts although its target, its minor version or a
header name is empty, or something stands where the empty line should be. -/
def DefectiveRequest (m₀ : HTTPRequestMessage) (s : List UInt8) : Prop :=
  ∃ (h : RequestHead) (rest : List UInt8), h.Shaped ∧ h.SpacesOk ∧
    (recognise (m₀.tempHttpMethodHolder ++ h.method)).isSome ∧ s = h.bytes ++ rest ∧
    (h.target = [] ∨ h.minor = [] ∨ (∃ l ∈ h.lines, l.name = []) ∨ h.trailing ≠ [])

/-- The window starts with a response head whose minor version, status or a header name is empty, or
that has something where the empty line should be. -/
def DefectiveResponse (s : List UInt8) : Prop :=
  ∃ (h : ResponseHead) (rest : List UInt8), h.Shaped ∧ s = h.bytes ++ rest ∧
    (h.minor = [] ∨ h.status = [] ∨ (∃ l ∈ h.lines, l.name = []) ∨ h.trailing ≠ [])

theorem RequestHead.not_strict_iff {h : RequestHead} :
    ¬ h.Strict ↔ h.target = [] ∨ h.minor = [] ∨ (∃ l ∈ h.lines, l.name = []) ∨ h.trailing ≠ [] := by
  have hstrict : h.Strict
      ↔ h.target ≠ [] ∧ h.minor ≠ [] ∧ (∀ l ∈ h.lines, l.name ≠ []) ∧ h.trailing = [] :=
    ⟨fun hs => ⟨hs.1, hs.2, hs.3, hs.4⟩, fun hs => ⟨hs.1, hs.2.1, hs.2.2.1, hs.2.2.2⟩⟩
  rw [hstrict]
  simp only [not_and_or, ne_eq, not_not, not_forall, exists_prop]

theorem ResponseHead.not_strict_iff {h : ResponseHead} :
    ¬ h.Strict ↔ h.minor = [] ∨ h.status = [] ∨ (∃ l ∈ h.lines, l.name = []) ∨ h.trailing ≠ [] := by
  have hstrict : h.Strict
      ↔ h.minor ≠ [] ∧ h.status ≠ [] ∧ (∀ l ∈ h.lines, l.name ≠ []) ∧ h.trailing = [] :=
    ⟨fun hs => ⟨hs.1, hs.2, hs.3, hs.4⟩, fun hs => ⟨hs.1, hs.2.1, hs.2.2.1, hs.2.2.2⟩⟩
  rw [hstrict]
  simp only [not_and_or, ne_eq, not_not, not_forall, exists_prop]

/-- **When acceptance means a well-formed head**: exactly on the windows without such a defect. -/
theorem headSound_iff (b : IOBuffer) (request : HTTPRequestMessage) (response : HTTPResponseMessage) :
    HeadSound b request response
      ↔ ¬ DefectiveRequest request b.data ∧ ¬ DefectiveResponse b.data := by
  constructor
  · rintro ⟨hreq, hres⟩
    refine ⟨?_, ?_⟩
    · rintro ⟨h, rest, hs, hsp, hr, hdata, hbad⟩
      obtain ⟨st, m, hret, hacc⟩ := requestAcceptsFrom_iff.mpr ⟨h, rest, hs, hsp, hr, hdata⟩
      obtain ⟨g, hg, hstrict, rest', hdata'⟩ := hreq st m hret hacc
      -- the window is the text of one head only, so the strict one would be this one
      obtain ⟨rfl, -⟩ := RequestHead.bytes_inj hg hs (hdata'.symm.trans hdata)
      exact RequestHead.not_strict_iff.mpr hbad hstrict
    · rintro ⟨h, rest, hs, hdata, hbad⟩
      obtain ⟨st, m, hret, hacc⟩ := responseAcceptsFrom_iff.mpr ⟨h, rest, hs, hdata⟩
      obtain ⟨g, hg, hstrict, rest', hdata'⟩ := hres st m hret hacc
      obtain ⟨rfl, -⟩ := ResponseHead.bytes_inj hg hs (hdata'.symm.trans hdata)
      exact ResponseHead.not_strict_iff.mpr hbad hstrict
  · rintro ⟨hreq, hres⟩
    refine ⟨?_, ?_⟩
    · intro st m hret hacc
      obtain ⟨h, rest, hs, hsp, hr, hdata⟩ := requestAcceptsFrom_iff.mp ⟨st, m, hret, hacc⟩
      refine ⟨h, hs, ?_, rest, hdata⟩
      by_contra hnot
      exact hreq ⟨h, rest, hs, hsp, hr, hdata, RequestHead.not_strict_iff.mp hnot⟩
    · intro st m hret hacc
      obtain ⟨h, rest, hs, hdata⟩ := responseAcceptsFrom_iff.mp ⟨st, m, hret, hacc⟩
      refine ⟨h, hs, ?_, rest, hdata⟩
      by_contra hnot
      exact hres ⟨h, rest, hs, hdata, ResponseHead.not_strict_iff.mp hnot⟩

/-- `GET / HTTP/1.1 CRLF Foo CRLF`, as the parser takes it apart. -/
def halfHead : RequestHead := ⟨str "GET", str "/", ch '1', str "1", [], str "Foo"⟩

/-- **A line without a colon ends the head**: `GET / HTTP/1.1 CRLF Foo CRLF` is accepted. -/
theorem half_header_line_accepted :
    ¬ HeadSound (.holding [] (str "GET / HTTP/1.1\r\nFoo\r\n")) .create (.create (0, 0, 0)) := by
  rintro ⟨hreq, -⟩
  have hs : halfHead.Shaped := by decide
  have hsp : halfHead.SpacesOk := by decide
  have hr : (recognise (HTTPRequestMessage.create.tempHttpMethodHolder ++ halfHead.method)).isSome := by
    decide
  have hdata : (IOBuffer.holding [] (str "GET / HTTP/1.1\r\nFoo\r\n")).data = halfHead.bytes ++ [] := by
    rw [IOBuffer.data_holding]
    decide
  obtain ⟨st, m, hret, hacc⟩ := requestAcceptsFrom_iff.mpr ⟨halfHead, [], hs, hsp, hr, hdata⟩
  obtain ⟨g, hg, hstrict, rest, hdata'⟩ := hreq st m hret hacc
  obtain ⟨rfl, -⟩ := RequestHead.bytes_inj hg hs (hdata'.symm.trans hdata)
  exact absurd hstrict.blank (by decide)

end Blueth.Http
