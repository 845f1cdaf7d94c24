/-
# Blueth.Http.ResponseRuns — how response parsing runs, window by window.

* `responseWindows_iff`: as long as no body byte is taken, cutting the bytes into windows changes NOTHING.
* `bodyComplete_iff`: the body is another matter. `ResponseMessageBody` hands over what the first window
  behind the head holds and declares the message parsed, whatever `Content-Length` says; a body is
  complete at that point exactly when that call delivers precisely its last byte.
* `returnsForGood_iff`: the loop never spins. A call returns, with its window consumed or in a final state
  that no later call leaves, unless its first byte makes it look before the allocation.
-/
import Blueth.Http.ResponseHead

set_option autoImplicit false

namespace Blueth.Http

open Blueth.Scan Blueth.Io

/-! ## The head, window by window -/

/-- A call that takes body bytes shows them in the message. -/
theorem rawBody_ne_of_restTaken {w : List UInt8} {s t : ResponseState} {p : Option UInt8}
    {f : List UInt8 → ResponseState} {left : List UInt8} (hf : restTaken responsePass w s p = some f)
    (ho : outcome responsePass w s p = .returned t left) : t.2.rawBody ≠ [] := by
  obtain ⟨c, v, ho'⟩ := outcome_of_restTaken hf
  obtain ⟨_, d, _, ⟨st, m⟩, -, -, hpass⟩ := exists_feed_of_restTaken hf
  obtain ⟨-, rfl⟩ := responsePass_takeRest hpass
  rw [ho', Outcome.returned.injEq] at ho
  obtain ⟨rfl, -⟩ := ho
  simp [HTTPResponseMessage.pushBackRawBody]

/-- **A response head is parsed the same however it arrives.** Where a single call appends no body
bytes, every sequence of calls on windows of the same bytes ends in its state and message. -/
theorem responseWindows_iff {b : IOBuffer} (hb : b.WellFormed) {windows : List ℕ}
    (hsum : windows.sum = b.getDataSize) {uninit : UInt8 × UInt8 × UInt8} {st : ResponseParserState}
    {m : HTTPResponseMessage} (hret : ResponseReturns b .responseProtocolH (.create uninit) st m)
    (hbody : m.rawBody = []) (st' : ResponseParserState) (m' : HTTPResponseMessage) :
    ResponseWindowsReturn b windows uninit st' m' ↔ st' = st ∧ m' = m := by
  have htake : b.data.take windows.sum = b.data := by
    exact List.take_of_length_le (Nat.le_of_eq (by rw [IOBuffer.length_data hb, hsum]))
  -- no rest is taken, so there is nothing that would have to be resumed
  have hresume : Resumable responsePass (b.data.take windows.sum)
      (.responseProtocolH, .create uninit) b.byteBefore := by
    intro f hf
    obtain ⟨left, ho⟩ := (returns_iff responsePass_settles).mp hret
    rw [htake] at hf
    exact absurd hbody (rawBody_ne_of_restTaken hf ho)
  have hwin := fun t => windowsReturn_iff responsePass_settles responsePass_finishStable hb
    (Nat.le_of_eq hsum) (t := t) hresume
  rw [hsum, IOBuffer.deliver_getDataSize hb] at hwin
  constructor
  · intro h
    have heq := returns_unique responsePass_settles ((hwin _).mp h) hret
    simpa using heq
  · rintro ⟨rfl, rfl⟩
    exact (hwin _).mpr hret

/-- `HTTP/1.1 204 No CRLF A: b CRLF CRLF`, cut in the status code, inside CR LF and after the colon. -/
def noContentHead : ResponseHead := ⟨str "1", str "204", str "No", [⟨str "A", str " b"⟩], []⟩

theorem responseWindows_iff_noContent :
    ResponseWindowsReturn (.holding [] noContentHead.bytes) [10, 6, 3, 0, 6] (1, 2, 3) .parsingDone
      (noContentHead.message (1, 2, 3)) := by
  have hret : ResponseReturns (.holding [] noContentHead.bytes) .responseProtocolH (.create (1, 2, 3))
      .parsingDone (noContentHead.message (1, 2, 3)) :=
    (responseAccepts_iff.mpr ⟨noContentHead, [], by decide, by simp, rfl⟩).1
  exact (responseWindows_iff (IOBuffer.holding_wellFormed _ _) (by decide) hret rfl _ _).mpr
    ⟨by decide, rfl⟩

/-! ## The body, call by call -/

/-- The head says `Content-Length: n`: decimal digits, with or without the space. -/
def ResponseHead.AnnouncesLength (h : ResponseHead) (n : ℕ) : Prop :=
  ∃ digits, (firstText h.lines (str "Content-Length") = some digits ∨
      firstText h.lines (str "Content-Length") = some (SP :: digits)) ∧
    digits ≠ [] ∧ (∀ c ∈ digits, isDigit c) ∧ leadingDigits 0 digits = n

theorem ResponseHead.AnnouncesLength.afterBlankLine {h : ResponseHead} {n : ℕ}
    (hn : h.AnnouncesLength n) : afterBlankLine h.headers = .responseMessageBody := by
  obtain ⟨digits, hfirst, -⟩ := hn
  have hsome : h.headers.headerContains (str "Content-Length") = true := by
    rw [HTTPHeaders.headerContains_iff, h.getHeaderValue_headers]
    rcases hfirst with hfirst | hfirst <;> rw [hfirst] <;> rfl
  exact if_pos hsome

/-- After every call of the sequence: the state is `ParsingDone` exactly when the head and `n` body
bytes have been delivered, and the raw body then is the first `n` bytes behind the head. -/
def BodyComplete (b : IOBuffer) (headLength n : ℕ) (windows : List ℕ)
    (uninit : UInt8 × UInt8 × UInt8) : Prop :=
  ∀ i ≤ windows.length, ∃ st m, ResponseWindowsReturn b (windows.take i) uninit st m ∧
    (st = .parsingDone ↔ headLength + n ≤ delivered windows i) ∧
    (st = .parsingDone → m.rawBody = (b.data.drop headLength).take n)

/-- The first call that gets past the head delivers exactly up to the `n`-th body byte. -/
def BodyInOneCall (headLength n : ℕ) (windows : List ℕ) : Prop :=
  ∀ i < windows.length, delivered windows i ≤ headLength → headLength < delivered windows (i + 1) →
    delivered windows (i + 1) = headLength + n

instance (headLength n : ℕ) (windows : List ℕ) : Decidable (BodyInOneCall headLength n windows) :=
  inferInstanceAs (Decidable (∀ i < windows.length, _ → _ → _))

section Delivery

variable {b : IOBuffer} {h : ResponseHead} {body : List UInt8} {windows : List ℕ} {i j : ℕ}
  (uninit : UInt8 × UInt8 × UInt8)

/-- While the head is not passed, the calls consume it byte by byte. -/
theorem windowsReturn_head (hb : b.WellFormed) (hdata : b.data = h.bytes ++ body)
    (hsum : windows.sum ≤ b.getDataSize) (hle : delivered windows i ≤ h.bytes.length) {t : ResponseState}
    (hfeed : feed responsePass (.responseProtocolH, .create uninit) b.byteBefore
      (h.bytes.take (delivered windows i)) = some t) :
    WindowsReturn responsePass b (windows.take i) (.responseProtocolH, .create uninit) t := by
  refine windowsReturn_of_feed responsePass_settles responsePass_finishStable hb ?_ ?_
  · exact Nat.le_trans (delivered_le_sum windows i) hsum
  · show feed responsePass _ _ (b.data.take (delivered windows i)) = some t
    rw [hdata, List.take_append_of_le_length hle]
    exact hfeed

/-- A proper prefix of a head leads to a state in front of the blank line's end. -/
theorem feed_take_head (hs : h.Shaped) {k : ℕ} (hk : k < h.bytes.length) (p : Option UInt8) :
    ∃ st m, feed responsePass (.responseProtocolH, .create uninit) p (h.bytes.take k) = some (st, m) ∧
      ¬ st.Accepting ∧ feed responsePass (st, m) (behind p (h.bytes.take k)) (h.bytes.drop k)
        = some (afterBlankLine h.headers, h.message uninit) := by
  have hall := feed_responseBytes hs uninit p
  rw [← List.take_append_drop k h.bytes, feed_append] at hall
  obtain ⟨⟨st, m⟩, hfeed, hrest⟩ := Option.bind_eq_some_iff.mp hall
  refine ⟨st, m, hfeed, ?_, hrest⟩
  intro hacc
  -- the next byte of the head is consumed, which no state behind the head does
  obtain ⟨c, v, hcv⟩ := List.exists_cons_of_ne_nil (l := h.bytes.drop k) (by simpa using hk)
  rw [hcv] at hrest
  cases hp : responsePass (st, m) (behind p (h.bytes.take k)) c with
  | advance s' => exact responsePass_ne_advance hacc m _ c s' hp
  | _ => simp [feed, hp] at hrest

/-- **Before the end of the head** the state is not a final one. -/
theorem windowsReturn_before_head (hb : b.WellFormed) (hs : h.Shaped) (hdata : b.data = h.bytes ++ body)
    (hsum : windows.sum ≤ b.getDataSize) (hlt : delivered windows i < h.bytes.length) :
    ∃ st m, ResponseWindowsReturn b (windows.take i) uninit st m ∧ st ≠ .parsingDone := by
  obtain ⟨st, m, hfeed, hacc, -⟩ := feed_take_head uninit hs hlt b.byteBefore
  refine ⟨st, m, windowsReturn_head uninit hb hdata hsum (Nat.le_of_lt hlt) hfeed, ?_⟩
  rintro rfl
  exact hacc (Or.inl rfl)

/-- **At the end of the head** the parser waits for the body, even for an empty one. -/
theorem windowsReturn_at_head (hb : b.WellFormed) (hs : h.Shaped) (hdata : b.data = h.bytes ++ body)
    (hsum : windows.sum ≤ b.getDataSize) (heq : delivered windows i = h.bytes.length)
    (hbody : afterBlankLine h.headers = .responseMessageBody) :
    ResponseWindowsReturn b (windows.take i) uninit .responseMessageBody (h.message uninit) := by
  refine windowsReturn_head uninit hb hdata hsum (Nat.le_of_eq heq) ?_
  rw [heq, List.take_length, feed_responseBytes hs uninit, hbody]

/-- **Past the head** the state is `ParsingDone`, with the bytes of the FIRST call that got past it. -/
theorem windowsReturn_past_head (hb : b.WellFormed) (hs : h.Shaped) (hdata : b.data = h.bytes ++ body)
    (hsum : windows.sum ≤ b.getDataSize) (hbody : afterBlankLine h.headers = .responseMessageBody)
    (hi : i < windows.length) (hle : delivered windows i ≤ h.bytes.length)
    (hlt : h.bytes.length < delivered windows (i + 1)) (hij : i < j) :
    ResponseWindowsReturn b (windows.take j) uninit .parsingDone
      ((h.message uninit).pushBackRawBody
        (body.take (delivered windows (i + 1) - h.bytes.length))) := by
  have hsucc := delivered_succ hi
  have hsize : delivered windows i + windows[i] ≤ b.getDataSize := by
    have hle' := delivered_le_sum windows (i + 1)
    omega
  -- the calls before, this call, the calls after
  have hsplit : windows.take j = windows.take i ++ windows[i] :: (windows.take j).drop (i + 1) := by
    have hcut := List.take_append_drop (i + 1) (windows.take j)
    rw [List.take_take, Nat.min_eq_left hij, List.take_succ_eq_append_getElem hi] at hcut
    rw [List.append_assoc, List.singleton_append] at hcut
    exact hcut.symm
  -- the head up to the call, and what the call does with the rest of it
  have hhead : ∃ t, feed responsePass (.responseProtocolH, .create uninit) b.byteBefore
        (h.bytes.take (delivered windows i)) = some t ∧
      feed responsePass t (behind b.byteBefore (h.bytes.take (delivered windows i)))
        (h.bytes.drop (delivered windows i)) = some (.responseMessageBody, h.message uninit) := by
    have hall := feed_responseBytes hs uninit b.byteBefore
    rw [← List.take_append_drop (delivered windows i) h.bytes, feed_append, hbody] at hall
    exact Option.bind_eq_some_iff.mp hall
  obtain ⟨t, hbefore, hrest⟩ := hhead
  refine hsplit ▸ windowsReturn_append.mpr ⟨t, windowsReturn_head uninit hb hdata hsum hle hbefore, ?_⟩
  refine windowsReturn_cons.mpr ⟨_, ?_, windowsReturn_of_finish (fun _ _ => rfl) _ _⟩
  rw [← delivered, returns_iff responsePass_settles]
  have hn : delivered windows i ≤ b.getDataSize := by omega
  have hwindow : ((b.consume (delivered windows i)).deliver windows[i]).data
      = h.bytes.drop (delivered windows i) ++ body.take (delivered windows (i + 1) - h.bytes.length) := by
    rw [IOBuffer.data_deliver (IOBuffer.wellFormed_consume hb hn)
      (by rw [IOBuffer.getDataSize_consume]; omega), IOBuffer.data_consume, hdata,
      List.drop_append_of_le_length hle, List.take_append, List.take_of_length_le]
    · rw [List.length_drop]
      congr 2
      omega
    · rw [List.length_drop]
      omega
  have hbehind : ((b.consume (delivered windows i)).deliver windows[i]).byteBefore
      = behind b.byteBefore (h.bytes.take (delivered windows i)) := by
    rw [IOBuffer.byteBefore_deliver, IOBuffer.byteBefore_consume hb hn, hdata,
      List.take_append_of_le_length hle]
  rw [hwindow, hbehind, outcome_append_of_feed hrest]
  -- the body part is not empty, and all of it is taken
  have hlen : b.getDataSize = h.bytes.length + body.length := by
    rw [← IOBuffer.length_data hb, hdata, List.length_append]
  obtain ⟨c, v, hcv⟩ := List.exists_cons_of_ne_nil
    (l := body.take (delivered windows (i + 1) - h.bytes.length)) (by
      intro hnil
      have hzero := congrArg List.length hnil
      rw [List.length_take, List.length_nil] at hzero
      omega)
  exact ⟨[], by rw [hcv]; rfl⟩

end Delivery

/-- **When the body is complete.** For every head with a `Content-Length` and every sequence of calls:
the parser says "done" at the right moment and with the right bytes exactly when the first call that gets
past the head delivers the body to its last byte and no further, and (for `Content-Length: 0`, where
there is nothing to wait for) the head is not delivered at all. -/
theorem bodyComplete_iff {b : IOBuffer} (hb : b.WellFormed) {h : ResponseHead} (hs : h.Shaped) {n : ℕ}
    (hn : h.AnnouncesLength n) {body : List UInt8} (hdata : b.data = h.bytes ++ body)
    {windows : List ℕ} (hsum : windows.sum ≤ b.getDataSize) (uninit : UInt8 × UInt8 × UInt8) :
    BodyComplete b h.bytes.length n windows uninit
      ↔ BodyInOneCall h.bytes.length n windows ∧ (n = 0 → windows.sum < h.bytes.length) := by
  have hbody := hn.afterBlankLine
  have hdrop : b.data.drop h.bytes.length = body := by rw [hdata, List.drop_left]
  have hlen : b.getDataSize = h.bytes.length + body.length := by
    rw [← IOBuffer.length_data hb, hdata, List.length_append]
  have hraw : ∀ k, ((h.message uninit).pushBackRawBody (body.take k)).rawBody = body.take k := by
    intro k
    simp [HTTPResponseMessage.pushBackRawBody, ResponseHead.message, HTTPResponseMessage.create]
  unfold BodyComplete
  rw [hdrop]
  constructor
  · intro hall
    -- what the call past the head leaves, against what is asked of it
    have hpast : ∀ i < windows.length, delivered windows i ≤ h.bytes.length →
        h.bytes.length < delivered windows (i + 1) →
        delivered windows (i + 1) = h.bytes.length + n := by
      intro i hi hle hlt
      obtain ⟨st, m, hret, hdone, htake⟩ := hall (i + 1) hi
      have hrun := windowsReturn_past_head uninit hb hs hdata hsum hbody hi hle hlt
        (Nat.lt_succ_self i)
      have heq := windowsReturn_unique hret hrun
      rw [Prod.mk.injEq] at heq
      obtain ⟨rfl, rfl⟩ := heq
      have henough := hdone.mp rfl
      have hbytes := congrArg List.length (htake rfl)
      rw [hraw, List.length_take, List.length_take] at hbytes
      have hmax := delivered_le_sum windows (i + 1)
      omega
    refine ⟨hpast, ?_⟩
    rintro rfl
    by_contra hge
    have hfull : delivered windows windows.length = windows.sum := by rw [delivered, List.take_length]
    by_cases hgt : h.bytes.length < delivered windows windows.length
    · -- a body byte was taken although none belongs to the message
      obtain ⟨i, -, hi, hle, hlt⟩ := exists_first_past hgt
      have heq := hpast i hi hle hlt
      omega
    · obtain ⟨st, m, hret, hdone, -⟩ := hall windows.length (Nat.le_refl _)
      have hrun := windowsReturn_at_head (i := windows.length) uninit hb hs hdata hsum
        (by omega) hbody
      have heq := windowsReturn_unique hret hrun
      rw [Prod.mk.injEq] at heq
      obtain ⟨rfl, rfl⟩ := heq
      exact absurd (hdone.mpr (by omega)) (by simp)
  · rintro ⟨hone, hzero⟩ i hi
    have hmax := delivered_le_sum windows i
    rcases Nat.lt_trichotomy (delivered windows i) h.bytes.length with hlt | heq | hgt
    · obtain ⟨st, m, hret, hst⟩ := windowsReturn_before_head uninit hb hs hdata hsum hlt
      refine ⟨st, m, hret, ?_, fun hd => absurd hd hst⟩
      exact ⟨fun hd => absurd hd hst, fun hle => by omega⟩
    · have hrun := windowsReturn_at_head uninit hb hs hdata hsum heq hbody
      refine ⟨_, _, hrun, ?_, fun hd => absurd hd (by simp)⟩
      refine ⟨fun hd => absurd hd (by simp), fun hle => ?_⟩
      have hlt := hzero (by omega)
      omega
    · obtain ⟨k, hki, hk, hle, hlt⟩ := exists_first_past hgt
      have hexact := hone k hk hle hlt
      have hrun := windowsReturn_past_head uninit hb hs hdata hsum hbody hk hle hlt hki
      refine ⟨_, _, hrun, ?_, ?_⟩
      · have hmono : delivered windows (k + 1) ≤ delivered windows i := delivered_mono hki
        exact ⟨fun _ => by omega, fun _ => rfl⟩
      · intro _
        rw [hraw, hexact, Nat.add_sub_cancel_left]

/-- `HTTP/1.1 200 OK CRLF Content-Length: 5 CRLF CRLF`. -/
def fiveBytesHead : ResponseHead :=
  ⟨str "1", str "200", str "OK", [⟨str "Content-Length", str " 5"⟩], []⟩

theorem fiveBytesHead_shaped : fiveBytesHead.Shaped := by
  decide

theorem fiveBytesHead_announces : fiveBytesHead.AnnouncesLength 5 :=
  ⟨str "5", Or.inr (by decide), by decide, List.all_eq_true.mp (by decide), by decide⟩

/-- Head and body in separate calls, the body in one piece. -/
theorem bodyComplete_iff_hello :
    BodyComplete (.holding [] (fiveBytesHead.bytes ++ str "hello")) fiveBytesHead.bytes.length 5
      [20, 18, 0, 5] (0, 0, 0) := by
  refine (bodyComplete_iff (IOBuffer.holding_wellFormed _ _) fiveBytesHead_shaped
    fiveBytesHead_announces (IOBuffer.data_holding _ _) (by decide) _).mpr ⟨by decide, by decide⟩

/-- **A split body is cut short**: `he` arrives first, and the parser is done with it. -/
theorem split_body_lost :
    ¬ BodyComplete (.holding [] (fiveBytesHead.bytes ++ str "hello")) fiveBytesHead.bytes.length 5
      [38, 2, 3] (0, 0, 0) := by
  intro hall
  obtain ⟨st, m, hret, hdone, -⟩ := hall 2 (by decide)
  have hrun : ResponseWindowsReturn (.holding [] (fiveBytesHead.bytes ++ str "hello"))
      ([38, 2, 3].take 2) (0, 0, 0) .parsingDone _ :=
    windowsReturn_past_head (i := 1) (0, 0, 0) (IOBuffer.holding_wellFormed _ _) fiveBytesHead_shaped
      (IOBuffer.data_holding _ _) (by decide) fiveBytesHead_announces.afterBlankLine (by decide)
      (by decide) (by decide) (by decide)
  have heq := windowsReturn_unique hret hrun
  rw [Prod.mk.injEq] at heq
  exact absurd (hdone.mp heq.1) (by decide)

/-! ## Whether the call returns -/

/-- The states in which the parser has made up its mind. -/
def ResponseParserState.Final (st : ResponseParserState) : Prop :=
  st = .parsingDone ∨ st = .protocolError

/-- The look-behind of `HeaderValue` at the very start of the allocation. -/
def ResponseReadsBeforeAllocation (b : IOBuffer) (st : ResponseParserState) : Prop :=
  st = .headerValue ∧ b.startOffset = 0 ∧ ∃ c ∈ b.data.head?, isText c

/-- The call returns, with every byte of the window consumed or in a final state; and if the state it
starts in is final, every sequence of calls on any windows leaves state and message as they are. -/
def ReturnsForGood (b : IOBuffer) (st : ResponseParserState) (m : HTTPResponseMessage) : Prop :=
  (∃ st' m', ResponseReturns b st m st' m') ∧
    (∀ fuel st' m' left, parseHTTP1_1ResponseMessage fuel b st m = .returned (st', m') left →
      left = [] ∨ st'.Final) ∧
    (st.Final → ∀ b' windows s', WindowsReturn responsePass b' windows (st, m) s' ↔ s' = (st, m))

/-- A pass that keeps the pointer fails, and a failed state leaves the loop: no call runs on for ever. -/
theorem outcome_responsePass_ne_running (w : List UInt8) (s : ResponseState) (p : Option UInt8) :
    outcome responsePass w s p ≠ .running := by
  induction w generalizing s p with
  | nil => simp [outcome]
  | cons c w ih =>
      cases hp : responsePass s p c with
      | advance s' =>
          simp only [outcome, hp]
          exact ih s' (some c)
      | stay s' =>
          obtain ⟨rfl, -⟩ := responsePass_stay hp
          rw [outcome_stay_finish hp rfl]
          simp
      | _ => simp [outcome, hp]

/-- What is left unread is left unread in a final state. -/
theorem final_of_left_ne_nil {w : List UInt8} {s : ResponseState} {p : Option UInt8}
    {st' : ResponseParserState} {m' : HTTPResponseMessage} {left : List UInt8}
    (h : outcome responsePass w s p = .returned (st', m') left) : left = [] ∨ st'.Final := by
  induction w generalizing s p with
  | nil =>
      rw [outcome, Outcome.returned.injEq] at h
      exact Or.inl h.2.symm
  | cons c w ih =>
      cases hp : responsePass s p c with
      | advance s' =>
          simp only [outcome, hp] at h
          exact ih h
      | finish s' =>
          obtain ⟨rfl, hfinal⟩ := responsePass_finish hp
          simp only [outcome, hp, Outcome.returned.injEq] at h
          obtain rfl : s.1 = st' := congrArg Prod.fst h.1
          exact Or.inr hfinal
      | takeRest f =>
          simp only [outcome, hp, Outcome.returned.injEq] at h
          exact Or.inl h.2.symm
      | fault => simp [outcome, hp] at h
      | stay s' =>
          obtain ⟨rfl, -⟩ := responsePass_stay hp
          rw [outcome_stay_finish hp rfl, Outcome.returned.injEq] at h
          exact Or.inr (Or.inr (congrArg Prod.fst h.1).symm)

/-- **Final states are final.** -/
theorem windowsReturn_final {st : ResponseParserState} (hst : st.Final) (m : HTTPResponseMessage)
    (b : IOBuffer) (windows : List ℕ) (s : ResponseState) :
    WindowsReturn responsePass b windows (st, m) s ↔ s = (st, m) := by
  have hfinish : ∀ p c, responsePass (st, m) p c = .finish (st, m) := by
    rcases hst with rfl | rfl <;> exact fun p c => rfl
  have hkept := windowsReturn_of_finish hfinish b windows
  constructor
  · exact fun h => windowsReturn_unique h hkept
  · rintro rfl
    exact hkept

/-- The first pass is the only one that can look before the allocation. -/
theorem outcome_responsePass_fault_iff {b : IOBuffer} (hb : b.WellFormed) (st : ResponseParserState)
    (m : HTTPResponseMessage) :
    outcome responsePass b.data (st, m) b.byteBefore = .fault ↔ ResponseReadsBeforeAllocation b st := by
  constructor
  · intro h
    cases hdata : b.data with
    | nil => simp [hdata, outcome] at h
    | cons c w =>
        by_cases hsafe : st ≠ .headerValue ∨ b.byteBefore ≠ none
        · obtain ⟨t, left, ho⟩ := outcome_responsePass_returned hsafe m b.data
          simp [ho] at h
        · rw [not_or, not_not, not_not] at hsafe
          obtain ⟨rfl, hnone⟩ := hsafe
          refine ⟨rfl, (IOBuffer.byteBefore_eq_none_iff hb).mp hnone, c, by simp [hdata], ?_⟩
          -- with any other first byte the pass goes on or fails
          by_contra ht
          rw [hdata, hnone] at h
          by_cases hcr : c = CR
          · subst hcr
            simp only [outcome, responsePass, if_pos] at h
            have hsafe : ResponseParserState.headerValueLF ≠ .headerValue ∨ some CR ≠ none :=
              Or.inr (Option.some_ne_none CR)
            obtain ⟨t, left, ho⟩ := outcome_responsePass_returned hsafe m w
            rw [ho] at h
            cases h
          · simp [outcome, responsePass, hcr, ht] at h
  · rintro ⟨rfl, h0, c, hc, ht⟩
    obtain ⟨w, hw⟩ := List.head?_eq_some_iff.mp hc
    rw [hw, (IOBuffer.byteBefore_eq_none_iff hb).mpr h0]
    simp only [outcome, responsePass, if_neg (isText_ne_cr ht), if_pos ht]

/-- **When the response parser returns.** For every state, message and window: the loop ends; and the
call returns for good exactly when it is not made to look before the allocation. -/
theorem returnsForGood_iff {b : IOBuffer} (hb : b.WellFormed) (st : ResponseParserState)
    (m : HTTPResponseMessage) :
    (∃ fuel, parseHTTP1_1ResponseMessage fuel b st m ≠ .running) ∧
      (ReturnsForGood b st m ↔ ¬ ResponseReadsBeforeAllocation b st) := by
  have hloop : parseHTTP1_1ResponseMessage (b.data.length + 3) b st m
      = outcome responsePass b.data (st, m) b.byteBefore :=
    loop_eq_outcome responsePass_settles (Nat.le_refl _) _ _
  have hrun := outcome_responsePass_ne_running b.data (st, m) b.byteBefore
  refine ⟨⟨_, by rw [hloop]; exact hrun⟩, ?_, ?_⟩
  · rintro ⟨⟨st', m', hret⟩, -, -⟩ hread
    obtain ⟨left, ho⟩ := (returns_iff responsePass_settles).mp hret
    rw [(outcome_responsePass_fault_iff hb st m).mpr hread] at ho
    cases ho
  · intro hread
    refine ⟨?_, ?_, fun hfinal b' windows s' => windowsReturn_final hfinal m b' windows s'⟩
    · cases ho : outcome responsePass b.data (st, m) b.byteBefore with
      | running => exact absurd ho hrun
      | fault => exact absurd ((outcome_responsePass_fault_iff hb st m).mp ho) hread
      | returned t left => exact ⟨t.1, t.2, (returns_iff responsePass_settles).mpr ⟨left, ho⟩⟩
    · intro fuel st' m' left h
      rcases loop_running_or responsePass_settles fuel b.data (st, m) b.byteBefore with hl | hl
      · exact absurd (h.symm.trans hl) (by simp)
      · exact final_of_left_ne_nil (hl.symm.trans h)

/-- A value resumed behind its colon. -/
theorem returnsForGood_iff_resumed :
    ReturnsForGood (.holding [ch ':'] (str " x")) .headerValue (.create (0, 0, 0)) :=
  (returnsForGood_iff (IOBuffer.holding_wellFormed _ _) _ _).2.mpr
    (by simp [ResponseReadsBeforeAllocation, IOBuffer.holding])

/-- **A value resumed in a fresh buffer**: the first pass reads `*(start_buffer - 1)` in front of the
allocation. -/
theorem fresh_buffer_reads_before_allocation :
    parseHTTP1_1ResponseMessage 1 (.holding [] (str "x")) .headerValue (.create (0, 0, 0)) = .fault ∧
      ¬ ReturnsForGood (.holding [] (str "x")) .headerValue (.create (0, 0, 0)) := by
  have hfault : outcome responsePass (IOBuffer.holding [] (str "x")).data
      (.headerValue, .create (0, 0, 0)) none = .fault := by
    decide
  refine ⟨by decide, ?_⟩
  rintro ⟨⟨st, m, hret⟩, -⟩
  obtain ⟨left, ho⟩ := (returns_iff responsePass_settles).mp hret
  exact absurd (hfault.symm.trans ho) (by simp)

end Blueth.Http
