/-
# Blueth.Http.StatusLine — the status code of a response, from the wire to `getResponseCode`.

The digits go one by one into a holder of three, and at the space behind them `atoi` reads the holder.
The parser asks nothing of their NUMBER: digits after the third are dropped, and with fewer than three
`atoi` goes on into bytes that the constructor has not written. `StatusLine.code` is what comes out of
this, as a function of the digits and of those bytes; behind the status line no pass touches it again,
so it is the code after any further calls (`responseCode_of_statusLine`).
-/
import Mathlib.Data.List.Induction
import Blueth.Http.ResponseHead

set_option autoImplicit false

namespace Blueth.Http

open Blueth.Scan Blueth.Io

/-! ## Status lines -/

/-- A status line, taken apart. -/
structure StatusLine where
  minor : List UInt8
  status : List UInt8
  reason : List UInt8
  deriving DecidableEq, Repr

namespace StatusLine

/-- The line with its line end. -/
def bytes (l : StatusLine) : List UInt8 :=
  str "HTTP/1." ++ (l.minor ++ SP :: (l.status ++ SP :: (l.reason ++ [CR, LF])))

/-- Every part is made of the bytes the parser takes there. -/
structure Shaped (l : StatusLine) : Prop where
  minor_digit : ∀ c ∈ l.minor, isDigit c
  status_digit : ∀ c ∈ l.status, isDigit c
  reason_text : ∀ c ∈ l.reason, isText c

instance (l : StatusLine) : Decidable l.Shaped :=
  decidable_of_iff
    (l.minor.all isDigit = true ∧ l.status.all isDigit = true ∧ l.reason.all isText = true) (by
      simp only [List.all_eq_true]
      exact ⟨fun h => ⟨h.1, h.2.1, h.2.2⟩, fun h => ⟨h.1, h.2, h.3⟩⟩)

/-- The holder once the digits are stored. -/
def holder (l : StatusLine) (uninit : UInt8 × UInt8 × UInt8) : StatusCodeHolder :=
  l.status.foldl StatusCodeHolder.push (.create uninit)

/-- What `atoi` reads in it. -/
def code (l : StatusLine) (uninit : UInt8 × UInt8 × UInt8) : Int :=
  atoi (l.holder uninit).httpCodeHolder.toList

end StatusLine

/-- The value of a run of decimal digits. -/
def decimalValue (digits : List UInt8) : Int :=
  digits.foldl (fun v c => 10 * v + (c.toNat - 0x30 : ℕ)) 0

theorem decimalValue_concat (x : List UInt8) (c : UInt8) :
    decimalValue (x ++ [c]) = 10 * decimalValue x + (c.toNat - 0x30 : ℕ) := by
  simp [decimalValue]

theorem decimalValue_nonneg (x : List UInt8) : 0 ≤ decimalValue x := by
  induction x using List.reverseRecOn with
  | nil => exact Int.le_refl 0
  | append_singleton x c ih =>
      rw [decimalValue_concat]
      omega

/-- Further digits make the value no smaller. -/
theorem le_decimalValue_append (x y : List UInt8) : decimalValue x ≤ decimalValue (x ++ y) := by
  induction y using List.reverseRecOn with
  | nil => exact Int.le_of_eq (by rw [List.append_nil])
  | append_singleton y c ih =>
      have hnonneg := decimalValue_nonneg (x ++ y)
      rw [← List.append_assoc, decimalValue_concat]
      omega

/-! ## Reading the holder -/

theorem leadingDigits_append {x : List UInt8} (hx : ∀ c ∈ x, isDigit c) (acc : Int) (y : List UInt8) :
    leadingDigits acc (x ++ y)
      = leadingDigits (x.foldl (fun v c => 10 * v + (c.toNat - 0x30 : ℕ)) acc) y := by
  induction x generalizing acc with
  | nil => rfl
  | cons c x ih =>
      rw [List.cons_append, leadingDigits, if_pos (hx c (by simp)), ih fun d hd => hx d (by simp [hd])]
      rfl

/-- A digit is no white space and no sign, so `atoi` starts to count at once. -/
theorem atoi_of_digit {c : UInt8} (hc : isDigit c) (s : List UInt8) :
    atoi (c :: s) = leadingDigits 0 (c :: s) := by
  have hspace : ¬ isSpace c = true := by
    simp only [isDigit, Bool.and_eq_true, decide_eq_true_eq] at hc
    simp only [isSpace, SP, Bool.or_eq_true, beq_iff_eq, Bool.and_eq_true, decide_eq_true_eq, not_or]
    refine ⟨?_, by omega⟩
    rintro rfl
    revert hc
    decide
  have hminus : c ≠ ch '-' := by
    rintro rfl
    revert hc
    decide
  have hplus : c ≠ ch '+' := by
    rintro rfl
    revert hc
    decide
  rw [atoi, List.dropWhile_cons_of_neg hspace]
  simp only [if_neg hminus, if_neg hplus]

/-- `atoi` of digits with a NUL somewhere behind them. -/
theorem atoi_digits {x : List UInt8} (hx : ∀ c ∈ x, isDigit c) (y : List UInt8) :
    atoi (x ++ 0 :: y) = decimalValue x := by
  have hnul : ∀ acc, leadingDigits acc (0 :: y) = acc := fun acc => by
    rw [leadingDigits, if_neg (by decide)]
  cases x with
  | nil =>
      show atoi (0 :: y) = 0
      rw [atoi, List.dropWhile_cons_of_neg (by decide)]
      simp only [if_neg (show (0 : UInt8) ≠ ch '-' by decide),
        if_neg (show (0 : UInt8) ≠ ch '+' by decide), hnul]
  | cons c x =>
      rw [List.cons_append, atoi_of_digit (hx c (by simp)), ← List.cons_append,
        leadingDigits_append hx, hnul]
      rfl

/-- A full holder takes no more digits. -/
theorem foldl_push_of_full {h : StatusCodeHolder} (hfull : 2 < h.currentIndex) (x : List UInt8) :
    x.foldl StatusCodeHolder.push h = h := by
  refine List.foldl_fixed' (fun c => ?_) x
  rw [StatusCodeHolder.push, dif_neg (by omega)]

namespace StatusLine

variable {l : StatusLine}

/-- **Three digits or more**: the first three are read, whatever the holder contained. -/
theorem code_of_three_le (hl : l.Shaped) (h3 : 3 ≤ l.status.length) (uninit : UInt8 × UInt8 × UInt8) :
    l.code uninit = decimalValue (l.status.take 3) := by
  obtain ⟨x, y, z⟩ := uninit
  unfold code holder
  match hs : l.status with
  | [] => simp [hs] at h3
  | [_] => simp [hs] at h3
  | [_, _] => simp [hs] at h3
  | a :: b :: c :: rest =>
      have hdigit := hl.status_digit
      rw [hs] at hdigit
      have hfull : 2 < ([a, b, c].foldl StatusCodeHolder.push (.create (x, y, z))).currentIndex := by
        show 2 < 3
        decide
      rw [show a :: b :: c :: rest = [a, b, c] ++ rest from rfl, List.foldl_append,
        foldl_push_of_full hfull, List.take_append_of_le_length (by simp)]
      show atoi ([a, b, c] ++ 0 :: []) = _
      rw [atoi_digits]
      · rfl
      · intro d hd
        exact hdigit d (List.mem_append_left rest hd)

/-- **Fewer digits**: the bytes that the constructor has not written are read with them. -/
theorem code_of_lt_three (h3 : l.status.length < 3) (x : UInt8) :
    l.code (x, x, x) = atoi (l.status ++ List.replicate (3 - l.status.length) x ++ [0]) := by
  unfold code holder
  match hs : l.status with
  | [] => rfl
  | [_] => rfl
  | [_, _] => rfl
  | a :: b :: c :: rest =>
      rw [hs] at h3
      simp only [List.length_cons] at h3
      omega

/-- So the code is not a function of the digits: with NUL bytes in the holder it is their value, with
ones it is something else. -/
theorem code_depends (hl : l.Shaped) (h3 : l.status.length < 3) :
    l.code (0, 0, 0) = decimalValue l.status ∧ l.code (0x31, 0x31, 0x31) ≠ decimalValue l.status := by
  obtain ⟨k, hk⟩ : ∃ k, 3 - l.status.length = k + 1 := ⟨2 - l.status.length, by omega⟩
  constructor
  · rw [code_of_lt_three h3, hk, List.replicate_succ, List.append_assoc, List.cons_append]
    exact atoi_digits hl.status_digit _
  · have hdigit : ∀ c ∈ l.status ++ List.replicate (k + 1) 0x31, isDigit c := by
      intro c hc
      rcases List.mem_append.mp hc with hc | hc
      · exact hl.status_digit c hc
      · rw [List.eq_of_mem_replicate hc]
        decide
    rw [code_of_lt_three h3, hk, atoi_digits hdigit]
    -- one more digit multiplies by ten and adds
    have hvalue := decimalValue_nonneg l.status
    have hgrow := le_decimalValue_append l.status (List.replicate k 0x31)
    have hone : decimalValue (l.status ++ List.replicate (k + 1) 0x31)
        = 10 * decimalValue (l.status ++ List.replicate k 0x31) + 1 := by
      rw [List.replicate_succ', ← List.append_assoc, decimalValue_concat]
      rfl
    omega

/-! ## Along the line -/

/-- The message behind the line. -/
def message (l : StatusLine) (uninit : UInt8 × UInt8 × UInt8) : HTTPResponseMessage :=
  { HTTPResponseMessage.create uninit with
    responseCode := l.code uninit
    tempHttpStatusCodeHolder := l.holder uninit }

theorem feed_bytes (hl : l.Shaped) (uninit : UInt8 × UInt8 × UInt8) (p : Option UInt8) :
    feed responsePass (.responseProtocolH, .create uninit) p l.bytes
      = some (.headerName, l.message uninit) := by
  unfold bytes
  rw [feed_responseProtocol, feed_responseMinor hl.minor_digit rfl, feed_status hl.status_digit,
    foldl_pushBackResponseCode, feed_reason hl.reason_text, feed_nil]
  rfl

/-- The status line of a head. -/
def ofHead (h : ResponseHead) : StatusLine := ⟨h.minor, h.status, h.reason⟩

theorem ofHead_shaped {h : ResponseHead} (hs : h.Shaped) : (ofHead h).Shaped :=
  ⟨hs.minor_digit, hs.status_digit, hs.reason_text⟩

theorem toLastCR_eq (h : ResponseHead) :
    h.toLastCR = (ofHead h).bytes ++ blockBytes h.lines h.trailing := by
  simp [ResponseHead.toLastCR, bytes, ofHead]

end StatusLine

/-- **Which byte strings get past the status line**: those that begin with one. -/
theorem past_statusLine_iff {w : List UInt8} (uninit : UInt8 × UInt8 × UInt8) (p : Option UInt8) :
    (∃ u v m, w = u ++ v ∧
        feed responsePass (.responseProtocolH, .create uninit) p u = some (.headerName, m))
      ↔ ∃ (l : StatusLine) (rest : List UInt8), l.Shaped ∧ w = l.bytes ++ rest := by
  constructor
  · rintro ⟨u, v, m, rfl, hu⟩
    -- one CR more and the word leads to the end of a head, so it is the text of one
    have hend : feed responsePass (.responseProtocolH, .create uninit) p (u ++ [CR])
        = some (.headerEndLF, m) := by
      rw [feed_append_of_eq hu]
      simp [feed, responsePass, cr_not_token, show ¬ CR = ch ':' by decide]
    obtain ⟨h, hs, heq⟩ := exists_responseHead_of_toHeadEnd (feed_responseHeaderEndLF_iff.mp ⟨m, hend⟩)
    rw [StatusLine.toLastCR_eq, blockBytes, ← List.append_assoc, ← List.append_assoc] at heq
    have hu' := List.append_inj_left' heq rfl
    rw [List.append_assoc] at hu'
    exact ⟨.ofHead h, _, StatusLine.ofHead_shaped hs, by rw [hu', List.append_assoc]⟩
  · rintro ⟨l, rest, hl, rfl⟩
    exact ⟨l.bytes, rest, l.message uninit, rfl, StatusLine.feed_bytes hl uninit p⟩

/-- The states behind the status line. -/
def ResponseParserState.PastStatusLine : ResponseParserState → Prop
  | .headerName | .headerValue | .headerValueLF | .headerEndLF | .responseMessageBody | .parsingDone
  | .protocolError => True
  | _ => False

theorem afterBlankLine_pastStatusLine (headers : HTTPHeaders) :
    (afterBlankLine headers).PastStatusLine := by
  rcases afterBlankLine_accepting headers with h | h <;> exact h ▸ trivial

/-- Behind the status line the response code and the version stay. -/
theorem keeps_responseCode (code : Int) (version : HTTPVersion) :
    Keeps responsePass fun s => s.1.PastStatusLine ∧ s.2.responseCode = code ∧
      s.2.httpMessageVersion = version := by
  rintro ⟨st, m⟩ p c ⟨hst, hm⟩
  cases st with
  | headerName =>
      simp only [responsePass]
      split_ifs <;> exact ⟨trivial, hm⟩
  | headerValue =>
      simp only [responsePass]
      split_ifs with hcr ht
      · exact ⟨trivial, hm⟩
      · cases p with
        | none => trivial
        | some b =>
            simp only
            split_ifs <;> exact ⟨trivial, hm⟩
      · exact ⟨trivial, hm⟩
  | headerValueLF =>
      simp only [responsePass]
      split_ifs <;> exact ⟨trivial, hm⟩
  | headerEndLF =>
      simp only [responsePass, expectResponseByte]
      split_ifs
      · exact ⟨afterBlankLine_pastStatusLine _, hm⟩
      · exact ⟨trivial, hm⟩
  | responseMessageBody => exact fun w => ⟨trivial, hm⟩
  | parsingDone => exact ⟨trivial, hm⟩
  | protocolError => exact ⟨trivial, hm⟩
  | _ => exact absurd hst id

/-- A pass that gets there from in front is the one at the LF of the status line. -/
theorem responsePass_into_past {st st' : ResponseParserState} {m m' : HTTPResponseMessage}
    {p : Option UInt8} {c : UInt8} (h : responsePass (st, m) p c = .advance (st', m'))
    (hst : ¬ (st.PastStatusLine ∧ st ≠ .protocolError)) (hst' : st'.PastStatusLine) :
    st' = .headerName := by
  cases st with
  | statusLineLF =>
      simp only [responsePass, expectResponseByte] at h
      split_ifs at h
      simpa using (congrArg (fun s => s.1) (Pass.advance.inj h)).symm
  | responseProtocolVersionMinor =>
      simp only [responsePass] at h
      split_ifs at h <;> cases h <;> exact hst'.elim
  | statusCode =>
      simp only [responsePass] at h
      split_ifs at h <;> cases h <;> exact hst'.elim
  | responseReasonPhrase =>
      simp only [responsePass] at h
      split_ifs at h <;> cases h <;> exact hst'.elim
  | headerName | headerValue | headerValueLF | headerEndLF | responseMessageBody | parsingDone =>
      exact absurd ⟨trivial, by simp⟩ hst
  | protocolError => simp [responsePass] at h
  | _ =>
      simp only [responsePass, expectResponseByte] at h
      split_ifs at h
      cases h
      exact hst'.elim

/-! ## In one call or several -/

section Delivery

variable {b : IOBuffer} {windows : List ℕ} {l : StatusLine} {rest : List UInt8}

/-- From the beginning of a message every sequence of calls comes back. -/
theorem exists_responseWindowsReturn (hb : b.WellFormed) (hsum : windows.sum ≤ b.getDataSize)
    (uninit : UInt8 × UInt8 × UInt8) : ∃ st m, ResponseWindowsReturn b windows uninit st m := by
  have hcall : ∀ (w : List UInt8) (s : ResponseState) (p : Option UInt8),
      s.1 ≠ .headerValue ∨ p ≠ none → ∃ t left, outcome responsePass w s p = .returned t left :=
    fun w s p hs => outcome_responsePass_returned hs s.2 w
  obtain ⟨⟨st, m⟩, h⟩ := exists_windowsReturn responsePass_settles hcall hb hsum
    (s := (.responseProtocolH, .create uninit)) (Or.inl (by simp))
  exact ⟨st, m, h⟩

/-- What is delivered to calls that have got past the status line begins with one. -/
theorem exists_statusLine_of_past (hb : b.WellFormed) (hsum : windows.sum ≤ b.getDataSize)
    {uninit : UInt8 × UInt8 × UInt8} {st : ResponseParserState} {m : HTTPResponseMessage}
    (h : ResponseWindowsReturn b windows uninit st m) (hpast : st.PastStatusLine)
    (hne : st ≠ .protocolError) :
    ∃ (l : StatusLine) (rest : List UInt8), l.Shaped ∧ b.data.take windows.sum = l.bytes ++ rest := by
  have hfinish : ∀ s p c s', responsePass s p c = .finish s' →
      (s'.1.PastStatusLine ∧ s'.1 ≠ .protocolError) → s.1.PastStatusLine ∧ s.1 ≠ .protocolError := by
    intro s p c s' hp hs'
    rw [(responsePass_finish hp).1] at hs'
    exact hs'
  have hstay : ∀ s p c s', responsePass s p c = .stay s' →
      (s'.1.PastStatusLine ∧ s'.1 ≠ .protocolError) → s.1.PastStatusLine ∧ s.1 ≠ .protocolError := by
    intro s p c s' hp hs'
    rw [(responsePass_stay hp).1] at hs'
    exact absurd rfl hs'.2
  have hrest : ∀ s p c f, responsePass s p c = .takeRest f →
      s.1.PastStatusLine ∧ s.1 ≠ .protocolError := by
    intro s p c f hp
    rw [(responsePass_takeRest hp).1]
    exact ⟨trivial, by simp⟩
  obtain ⟨u, c, v, ⟨st₁, m₁⟩, ⟨st₂, m₂⟩, hdata, hu, hst₁, hp, hst₂, -⟩ :=
    exists_windowsEntry responsePass_settles responsePass_finishStable hfinish hstay hrest hb hsum h
      (fun hs => hs.1) ⟨hpast, hne⟩
  obtain rfl : st₂ = .headerName := responsePass_into_past hp hst₁ hst₂
  have hfeed : feed responsePass (.responseProtocolH, .create uninit) b.byteBefore (u ++ [c])
      = some (.headerName, m₂) := by
    rw [feed_append_of_eq hu, feed_cons_of_advance hp, feed_nil]
  exact (past_statusLine_iff uninit b.byteBefore).mp ⟨u ++ [c], v, m₂, by simp [hdata], hfeed⟩

/-- **The code of a status line is the code of the message**, however the calls cut what is delivered
and whatever follows the line. -/
theorem responseCode_of_statusLine (hb : b.WellFormed) (hsum : windows.sum ≤ b.getDataSize)
    (hl : l.Shaped) (hdata : b.data.take windows.sum = l.bytes ++ rest)
    {uninit : UInt8 × UInt8 × UInt8} {st : ResponseParserState} {m : HTTPResponseMessage}
    (h : ResponseWindowsReturn b windows uninit st m) :
    m.responseCode = l.code uninit ∧ m.httpMessageVersion = .http1_1 :=
  (windowsReturn_past responsePass_settles (keeps_responseCode (l.code uninit) .http1_1) hb hsum hdata
    (StatusLine.feed_bytes hl uninit _) ⟨trivial, rfl, rfl⟩ h).2

/-- What is asked of a byte string that gets past the status line: three status digits and, for EVERY
content of the unwritten bytes of the holder, their value as the response code. -/
def CodeOnWire (b : IOBuffer) (windows : List ℕ) (status : List UInt8) : Prop :=
  status.length = 3 ∧ ∀ uninit, ∃ st m, ResponseWindowsReturn b windows uninit st m ∧
    m.responseCode = decimalValue status

/-- **When the code is the one on the wire**: with three status digits. With more of them the first
three are the code; with fewer the code depends on memory that nothing has written. -/
theorem codeOnWire_iff (hb : b.WellFormed) (hsum : windows.sum ≤ b.getDataSize) (hl : l.Shaped)
    (hdata : b.data.take windows.sum = l.bytes ++ rest) :
    (CodeOnWire b windows l.status ↔ l.status.length = 3) ∧
      (3 < l.status.length → ∀ uninit, ∃ st m, ResponseWindowsReturn b windows uninit st m ∧
        m.responseCode = decimalValue (l.status.take 3)) ∧
      (l.status.length < 3 → ∃ uninit uninit' st st' m m',
        ResponseWindowsReturn b windows uninit st m ∧ ResponseWindowsReturn b windows uninit' st' m' ∧
        m.responseCode ≠ m'.responseCode) := by
  have hcode : ∀ uninit, ∃ st m, ResponseWindowsReturn b windows uninit st m ∧
      m.responseCode = l.code uninit := by
    intro uninit
    obtain ⟨st, m, hret⟩ := exists_responseWindowsReturn hb hsum uninit
    exact ⟨st, m, hret, (responseCode_of_statusLine hb hsum hl hdata hret).1⟩
  refine ⟨⟨And.left, fun h3 => ⟨h3, fun uninit => ?_⟩⟩, ?_, ?_⟩
  · obtain ⟨st, m, hret, hm⟩ := hcode uninit
    refine ⟨st, m, hret, ?_⟩
    rw [hm, StatusLine.code_of_three_le hl (Nat.le_of_eq h3.symm), List.take_of_length_le (by omega)]
  · intro h3 uninit
    obtain ⟨st, m, hret, hm⟩ := hcode uninit
    exact ⟨st, m, hret, by rw [hm, StatusLine.code_of_three_le hl (by omega)]⟩
  · intro h3
    obtain ⟨st, m, hret, hm⟩ := hcode (0, 0, 0)
    obtain ⟨st', m', hret', hm'⟩ := hcode (0x31, 0x31, 0x31)
    obtain ⟨hzero, hone⟩ := StatusLine.code_depends hl h3
    refine ⟨_, _, st, st', m, m', hret, hret', ?_⟩
    rw [hm, hm', hzero]
    exact hone.symm

end Delivery

/-- A `404`, cut inside the digits. -/
theorem codeOnWire_iff_notFound :
    CodeOnWire (.holding [] (str "HTTP/1.1 404 Not Found\r\nA: b\r\n")) [10, 1, 19] (str "404") := by
  have hdata : (IOBuffer.holding [] (str "HTTP/1.1 404 Not Found\r\nA: b\r\n")).data.take
      ([10, 1, 19].sum) = (StatusLine.mk (str "1") (str "404") (str "Not Found")).bytes
        ++ str "A: b\r\n" := by
    rw [IOBuffer.data_holding]
    decide +kernel
  exact (codeOnWire_iff (IOBuffer.holding_wellFormed _ _) (by decide) (by decide) hdata).1.mpr rfl

/-- The status line of an answer with one digit missing. -/
def shortStatusLine : StatusLine := ⟨str "1", str "20", str "OK"⟩

/-- **Two digits**: the response is accepted, with the code 20 where the allocator left a NUL in the
holder and with 200 where it left a `0`. -/
theorem two_digits_read_memory :
    ¬ CodeOnWire (.holding [] (str "HTTP/1.1 20 OK\r\n\r\n")) [18] (str "20") ∧
      ResponseWindowsReturn (.holding [] (str "HTTP/1.1 20 OK\r\n\r\n")) [18]
        (0, 0, 0) .parsingDone (shortStatusLine.message (0, 0, 0)) ∧
      (shortStatusLine.message (0, 0, 0)).responseCode = 20 ∧
      ResponseWindowsReturn (.holding [] (str "HTTP/1.1 20 OK\r\n\r\n")) [18]
        (0, 0, ch '0') .parsingDone (shortStatusLine.message (0, 0, ch '0')) ∧
      (shortStatusLine.message (0, 0, ch '0')).responseCode = 200 := by
  refine ⟨?_, ⟨30, [], by decide +kernel⟩, by decide +kernel, ⟨30, [], by decide +kernel⟩,
    by decide +kernel⟩
  rintro ⟨h3, -⟩
  revert h3
  decide

end Blueth.Http
