/-
# Blueth.Http.HeaderValues — what is recorded of a header value, against what stood on the wire.

The value state of the response parser skips EVERY byte that directly follows a colon, in order to drop
the space behind the colon that ends the name. `responseValue_faithful_iff` says for which texts that
is harmless: the empty text, and the texts that start with the space and have a colon at most at their
very end.
-/
import Blueth.Http.ResponseHead

set_option autoImplicit false

namespace Blueth.Http

open Blueth.Scan Blueth.Io

/-- The value is the text, with at most one leading space removed. -/
def FaithfulValue (text value : List UInt8) : Prop := value = text ∨ text = SP :: value

/-- Nothing is added on the way. -/
theorem length_recordedText_le (p : Option UInt8) (w : List UInt8) :
    (recordedText p w).length ≤ w.length := by
  induction w generalizing p with
  | nil => exact Nat.le_refl _
  | cons c w ih =>
      have htail := ih (some c)
      rw [recordedText]
      split_ifs
      · exact Nat.le_succ_of_le htail
      · exact Nat.succ_le_succ htail

/-- Behind `b`, a text is recorded whole exactly when no byte of it follows a colon. -/
theorem recordedText_eq_self_iff {b : UInt8} {w : List UInt8} :
    recordedText (some b) w = w ↔ ch ':' ∉ (b :: w).dropLast := by
  induction w generalizing b with
  | nil => simp [recordedText]
  | cons c w ih =>
      rw [recordedText, List.dropLast_cons_cons, List.mem_cons, not_or, ← ih]
      by_cases hb : b = ch ':'
      · -- the byte `c` is lost, and nothing makes up for it
        subst hb
        rw [if_pos rfl]
        refine ⟨fun h => ?_, fun h => absurd rfl h.1⟩
        have hlen := length_recordedText_le (some c) w
        rw [h, List.length_cons] at hlen
        omega
      · rw [if_neg (by simpa using hb), List.cons.injEq]
        exact ⟨fun h => ⟨fun h' => hb h'.symm, h.2⟩, fun h => ⟨rfl, h.2⟩⟩

/-- The texts the response parser does no harm to. -/
def RecordedWhole (text : List UInt8) : Prop :=
  text = [] ∨ (text.head? = some SP ∧ ch ':' ∉ text.dropLast)

instance (text : List UInt8) : Decidable (RecordedWhole text) :=
  inferInstanceAs (Decidable (_ ∨ _ ∧ _))

theorem faithful_recordedText_iff {text : List UInt8} :
    FaithfulValue text (recordedText (some (ch ':')) text) ↔ RecordedWhole text := by
  cases text with
  | nil => simp [FaithfulValue, RecordedWhole, recordedText]
  | cons c w =>
      -- the first byte is always skipped, so the value can only be the text without it
      have hne : recordedText (some c) w ≠ c :: w := by
        intro h
        have hlen := length_recordedText_le (some c) w
        rw [h, List.length_cons] at hlen
        omega
      unfold FaithfulValue RecordedWhole
      rw [recordedText, if_pos rfl, List.cons.injEq, List.head?_cons, Option.some.injEq,
        ← recordedText_eq_self_iff]
      constructor
      · rintro (h | ⟨hc, h⟩)
        · exact absurd h hne
        · exact Or.inr ⟨hc, h.symm⟩
      · rintro (h | ⟨hc, h⟩)
        · exact absurd h (by simp)
        · exact Or.inr ⟨hc, h.symm⟩

/-- **When a response header value is recorded faithfully.** For every accepted response and every first
line of its name: the stored value is the text, with at most one leading space removed, exactly when the
text is empty, or starts with a space and has no colon before its last byte. -/
theorem responseValue_faithful_iff {b : IOBuffer} {uninit : UInt8 × UInt8 × UInt8}
    {st : ResponseParserState} {m : HTTPResponseMessage}
    (hret : ResponseReturns b .responseProtocolH (.create uninit) st m) (hacc : st.Accepting)
    {h : ResponseHead} (hs : h.Shaped) {rest : List UInt8} (hdata : b.data = h.bytes ++ rest)
    {l : HeaderLine} (hl : IsFirstLine h.lines l) :
    (∃ value, m.getHeaderValue l.name = some value ∧ FaithfulValue l.text value)
      ↔ RecordedWhole l.text := by
  obtain ⟨g, rest', hg, hdata', hres⟩ := responseAccepts_iff.mp ⟨hret, hacc⟩
  obtain ⟨rfl, rfl⟩ := ResponseHead.bytes_inj hg hs (hdata'.symm.trans hdata)
  have hm : m = (g.result uninit rest').2 := congrArg Prod.snd hres
  have hvalue : m.getHeaderValue l.name = some (recordedText (some (ch ':')) l.text) := by
    rw [HTTPResponseMessage.getHeaderValue, hm, g.result_headers, g.getHeaderValue_headers, hl.firstText]
    rfl
  rw [hvalue, ← faithful_recordedText_iff]
  simp

/-- `HTTP/1.1 301 M CRLF name: text CRLF CRLF`. -/
def movedHead (name text : List UInt8) : ResponseHead :=
  ⟨str "1", str "301", str "M", [⟨name, text⟩], []⟩

/-- The call on such a head returns its message. -/
theorem responseReturns_movedHead {name text : List UInt8} (hs : (movedHead name text).Shaped)
    (hname : name ≠ str "Content-Length") :
    ResponseReturns (.holding [] (movedHead name text).bytes) .responseProtocolH (.create (0, 0, 0))
      .parsingDone ((movedHead name text).message (0, 0, 0)) := by
  refine (responseAccepts_iff.mpr ⟨movedHead name text, [], hs, by simp, ?_⟩).1
  have hblank : afterBlankLine (movedHead name text).headers = .parsingDone := by
    refine if_neg ?_
    rw [HTTPHeaders.headerContains_iff, ResponseHead.getHeaderValue_headers]
    simp [firstText, movedHead, List.lookup_cons, beq_false_of_ne hname.symm]
  rw [ResponseHead.result, hblank, if_neg (by simp)]

/-- A plain value behind a space is stored as it is. -/
theorem responseValue_faithful_iff_server :
    ∃ value, ((movedHead (str "Server") (str " Blueth")).message (0, 0, 0)).getHeaderValue
      (str "Server") = some value ∧ FaithfulValue (str " Blueth") value := by
  have hs : (movedHead (str "Server") (str " Blueth")).Shaped := by decide
  have hdata : (IOBuffer.holding [] (movedHead (str "Server") (str " Blueth")).bytes).data
      = (movedHead (str "Server") (str " Blueth")).bytes ++ [] := by
    rw [IOBuffer.data_holding, List.append_nil]
  have hl : IsFirstLine (movedHead (str "Server") (str " Blueth")).lines
      ⟨str "Server", str " Blueth"⟩ := ⟨[], [], rfl, by simp⟩
  exact (responseValue_faithful_iff (responseReturns_movedHead hs (by decide)) (Or.inl rfl) hs hdata
    hl).mpr (by decide)

/-- **A URL loses a byte**: the value of `Location: http://x` is stored as `http:/x`. -/
theorem url_loses_a_byte :
    ResponseReturns (.holding [] (movedHead (str "Location") (str " http://x")).bytes)
        .responseProtocolH (.create (0, 0, 0)) .parsingDone
        ((movedHead (str "Location") (str " http://x")).message (0, 0, 0)) ∧
      IsFirstLine (movedHead (str "Location") (str " http://x")).lines
        ⟨str "Location", str " http://x"⟩ ∧
      ((movedHead (str "Location") (str " http://x")).message (0, 0, 0)).getHeaderValue (str "Location")
        = some (str "http:/x") ∧
      ¬ FaithfulValue (str " http://x") (str "http:/x") := by
  refine ⟨responseReturns_movedHead (by decide) (by decide), ⟨[], [], rfl, by simp⟩, ?_, ?_⟩
  · decide
  · unfold FaithfulValue
    decide

end Blueth.Http
