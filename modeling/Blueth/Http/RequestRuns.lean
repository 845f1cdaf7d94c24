/-
# Blueth.Http.RequestRuns — how request parsing runs: window by window, and whether it ends.

* `requestWindows_iff`: cutting the bytes into windows changes NOTHING. The sequence of calls ends in
  the state and message of a single call, and hangs exactly when that hangs; a body comes out whole.
* `requestReturns_iff`: the call does NOT always return. It returns exactly when the window does not
  lead to the end of a head and then continue with anything but LF, or with LF after a method that is
  none of the four (`HangsAtHeadEnd`), and does not make the parser look before the allocation.
-/
import Blueth.Http.RequestHead

set_option autoImplicit false

namespace Blueth.Http

open Blueth.Scan Blueth.Io

/-! ## Window by window -/

/-- The sequence of calls comes back as the single call does. -/
theorem requestWindowsReturn_iff {b : IOBuffer} (hb : b.WellFormed) {windows : List ℕ}
    (hsum : windows.sum = b.getDataSize) {st : ParserState} {m : HTTPRequestMessage} :
    RequestWindowsReturn b windows st m ↔ RequestReturns b .requestLineBegin .create st m := by
  have h := windowsReturn_iff requestPass_settles requestPass_finishStable hb (Nat.le_of_eq hsum)
    (t := (st, m)) (requestPass_resumable _ (.requestLineBegin, .create) _)
  rw [hsum, IOBuffer.deliver_getDataSize hb] at h
  exact h

/-- **Request parsing is independent of how the bytes arrive.** -/
theorem requestWindows_iff {b : IOBuffer} (hb : b.WellFormed) {windows : List ℕ}
    (hsum : windows.sum = b.getDataSize) :
    (∀ st m, RequestWindowsReturn b windows st m ↔ RequestReturns b .requestLineBegin .create st m) ∧
    ((∃ st m, RequestWindowsReturn b windows st m)
      ↔ ∃ st m, RequestReturns b .requestLineBegin .create st m) ∧
    (∀ (h : RequestHead) (type : HTTPRequestType) (rest : List UInt8),
      h.Accepted .messageBody type → b.data = h.bytes ++ rest →
        ∃ m, RequestWindowsReturn b windows .messageBody m ∧ m.requestType = type ∧
          m.rawBody = rest) := by
  have hall : ∀ st m, RequestWindowsReturn b windows st m
      ↔ RequestReturns b .requestLineBegin .create st m := fun _ _ => requestWindowsReturn_iff hb hsum
  refine ⟨hall, ?_, ?_⟩
  · exact exists_congr fun st => exists_congr fun m => hall st m
  · intro h type rest hh hdata
    refine ⟨h.result .messageBody type rest, (hall _ _).mpr ?_, rfl, rfl⟩
    exact (requestAccepts_iff.mpr ⟨h, type, rest, hh, hdata, rfl⟩).1

/-- A POST cut in the method, inside the CR LF pair, after a colon and inside the body. -/
theorem requestWindows_iff_post :
    ∃ m, RequestWindowsReturn
        (IOBuffer.holding (str "..") (str "POST /a HTTP/1.1\r\nHost: x\r\n\r\nhello")) [2, 0, 15, 6, 8, 3]
        .messageBody m ∧ m.requestType = .post ∧ m.rawBody = str "hello" := by
  refine (requestWindows_iff (IOBuffer.holding_wellFormed _ _) (by decide)).2.2
    ⟨str "POST", str "/a", ch '1', str "1", [⟨str "Host", str " x"⟩], []⟩ .post (str "hello") ?_ ?_
  · exact ⟨by decide, by decide, by decide⟩
  · rw [IOBuffer.data_holding]
    decide

/-! ## Whether the call returns -/

/-- The window leads to the CR that ends the head, and the next byte is not LF, or it is LF but the
method is none of the four known ones. -/
def HangsAtHeadEnd (b : IOBuffer) (st : ParserState) (m : HTTPRequestMessage) : Prop :=
  ∃ u c v, b.data = u ++ c :: v ∧ requestToHeadEnd b.byteBefore st u ∧
    (c ≠ LF ∨ recognise (methodAfter st m u) = none)

/-- The look-behind of `HeaderValue` at the very start of the allocation. -/
def ReadsBeforeAllocation (b : IOBuffer) (st : ParserState) : Prop :=
  st = .headerValue ∧ b.startOffset = 0 ∧ b.data.head? = some SP

/-- The loop leaves after finitely many passes: the call returns, every pass makes progress, and no
pair of state and bytes left is seen twice. -/
def RequestLoopLeaves (b : IOBuffer) (st : ParserState) (m : HTTPRequestMessage) : Prop :=
  (∃ st' m', RequestReturns b st m st' m') ∧
    (∀ i k, config requestPass i ((st, m), b.byteBefore, b.data) = some k → ProgressAt requestPass k) ∧
    ∀ i j k l, i < j → config requestPass i ((st, m), b.byteBefore, b.data) = some k →
      config requestPass j ((st, m), b.byteBefore, b.data) = some l →
      (k.1.1, k.2.2) ≠ (l.1.1, l.2.2)

/-- The method text is in order all the way to the end of the head. -/
theorem feed_methodAfter {w : List UInt8} {st : ParserState} {m m' : HTTPRequestMessage}
    {p : Option UInt8} (h : feed requestPass (st, m) p w = some (.headerEndLF, m')) :
    methodAfter st m w = m'.tempHttpMethodHolder := by
  induction w generalizing st m p with
  | nil =>
      rw [feed_nil, Option.some.injEq, Prod.mk.injEq] at h
      obtain ⟨rfl, rfl⟩ := h
      simp [methodAfter]
  | cons c w ih =>
      cases hp : requestPass (st, m) p c with
      | advance s' =>
          obtain ⟨st', m₁⟩ := s'
          rw [feed_cons_of_advance hp] at h
          rcases requestPass_advance hp with ⟨-, hm⟩ | ⟨rfl, rfl, type, hr, rfl⟩
          · rw [hm, ih h]
          · -- past the end of the head there is no way back to it
            have hend := feed_headerEndLF_iff.mp ⟨m', h⟩
            rcases recognise_cases hr with ⟨rfl, -⟩ | ⟨rfl, -⟩ <;> exact absurd hend id
      | _ => simp [feed, hp] at h

/-- At the end of the head, a byte the code has no branch for makes the loop spin. -/
theorem outcome_headerEndLF_running {m : HTTPRequestMessage} {p : Option UInt8} {c : UInt8}
    (hc : c ≠ LF ∨ recognise m.tempHttpMethodHolder = none) (v : List UInt8) :
    outcome requestPass (c :: v) (.headerEndLF, m) p = .running := by
  have hstay : ∃ s', requestPass (.headerEndLF, m) p c = .stay s' := by
    by_cases hlf : c = LF
    · subst hlf
      have hr := hc.resolve_left (by simp)
      exact ⟨_, by rw [requestPass_headerEndLF, hr]⟩
    · exact ⟨_, requestPass_headerEndLF_ne m p hlf⟩
  obtain ⟨s', hs'⟩ := hstay
  rcases requestPass_settles hs' with hf | hst
  · -- the state kept is `HeaderEndLF`, which never finishes
    rcases requestPass_stay hs' with ⟨-, hread⟩ | ⟨-, -, rfl⟩ | ⟨-, -, -, rfl⟩
    · exact absurd rfl hread.1
    · exact absurd (requestPass_finish hf).2 (by simp)
    · exact absurd (requestPass_finish hf).2 (by simp)
  · exact outcome_stay_stay hs' hst v

/-- **When the request parser returns.** For every state, message and window: it leaves its loop
exactly when the window does not lead to the end of a head with something unexpected behind it, and the
parser is not made to look before the allocation. -/
theorem requestReturns_iff {b : IOBuffer} (hb : b.WellFormed) (st : ParserState)
    (m : HTTPRequestMessage) :
    RequestLoopLeaves b st m ↔ ¬ HangsAtHeadEnd b st m ∧ ¬ ReadsBeforeAllocation b st := by
  constructor
  · rintro ⟨⟨st', m', hret⟩, -, -⟩
    obtain ⟨left, ho⟩ := (returns_iff requestPass_settles).mp hret
    refine ⟨?_, ?_⟩
    · rintro ⟨u, c, v, hdata, hu, hc⟩
      obtain ⟨m₁, hfeed⟩ := feed_headerEndLF_iff.mpr hu
      rw [feed_methodAfter hfeed] at hc
      rw [hdata, outcome_append_of_feed hfeed, outcome_headerEndLF_running hc] at ho
      simp at ho
    · rintro ⟨rfl, h0, hhead⟩
      obtain ⟨v, hv⟩ := List.head?_eq_some_iff.mp hhead
      have hfault : requestPass (.headerValue, m) b.byteBefore SP = .fault := by
        rw [(IOBuffer.byteBefore_eq_none_iff hb).mpr h0]
        simp [requestPass, show ¬ SP = CR by decide]
      simp [hv, outcome, hfault] at ho
  · rintro ⟨hhang, hread⟩
    -- the run returns; the two progress properties follow from that
    have hret : ∃ t left, outcome requestPass b.data (st, m) b.byteBefore = .returned t left := by
      rcases feed_split requestPass b.data (st, m) b.byteBefore with
        ⟨t, ht⟩ | ⟨u, c, v, ⟨st₁, m₁⟩, hdata, hu, hne⟩
      · exact ⟨t, [], outcome_of_feed ht⟩
      · rw [hdata, outcome_append_of_feed hu]
        cases hp : requestPass (st₁, m₁) (behind b.byteBefore u) c with
        | advance t => exact absurd hp (hne t)
        | finish t => exact ⟨t, c :: v, by simp only [outcome, hp]⟩
        | takeRest f => exact ⟨f (c :: v), [], by simp only [outcome, hp]⟩
        | fault =>
            exfalso
            obtain ⟨rfl, rfl, hbehind⟩ := requestPass_fault hp
            obtain ⟨hbefore, rfl⟩ := behind_eq_none.mp hbehind
            rw [feed_nil, Option.some.injEq, Prod.mk.injEq] at hu
            exact hread ⟨hu.1, (IOBuffer.byteBefore_eq_none_iff hb).mp hbefore, by simp [hdata]⟩
        | stay t =>
            rcases requestPass_stay hp with ⟨rfl, -⟩ | ⟨rfl, hc, -⟩ | ⟨rfl, rfl, hr, -⟩
            · exact ⟨_, _, outcome_stay_finish hp rfl v⟩
            · exact absurd ⟨u, c, v, hdata, feed_headerEndLF_iff.mp ⟨m₁, hu⟩, Or.inl hc⟩ hhang
            · refine absurd ⟨u, LF, v, hdata, feed_headerEndLF_iff.mp ⟨m₁, hu⟩, Or.inr ?_⟩ hhang
              rw [feed_methodAfter hu, hr]
    obtain ⟨⟨st', m'⟩, left, ho⟩ := hret
    refine ⟨⟨st', m', (returns_iff requestPass_settles).mpr ⟨left, ho⟩⟩, ?_, ?_⟩
    · intro i k hk
      exact progressAt_of_returned requestPass_settles hk ho
    · intro i j k l hij hk hl
      refine config_ne_of_lt requestPass_settles Prod.fst ?_ (by simp [ho]) hij hk hl
      rintro ⟨st₀, m₀⟩ p c s' hstay hfin
      rcases requestPass_stay hstay with ⟨rfl, hr⟩ | ⟨-, -, rfl⟩ | ⟨-, -, -, rfl⟩
      · exact fun h => hr.2.2.2 h.symm
      · exact absurd (requestPass_finish hfin).2 (by simp)
      · exact absurd (requestPass_finish hfin).2 (by simp)

/-- After the CR that ends the head of a GET, LF is fine. -/
theorem requestReturns_iff_lf :
    RequestLoopLeaves (IOBuffer.holding [] [LF]) .headerEndLF
      { HTTPRequestMessage.create with tempHttpMethodHolder := str "GET" } := by
  refine (requestReturns_iff (IOBuffer.holding_wellFormed _ _) _ _).mpr
    ⟨?_, by simp [ReadsBeforeAllocation]⟩
  rintro ⟨u, c, v, hdata, rfl, hc⟩
  rw [IOBuffer.data_holding, List.nil_append, List.cons.injEq] at hdata
  rcases hc with hc | hc
  · exact hc hdata.1.symm
  · revert hc
    decide

/-- **The parser hangs**: `GET / HTTP/1.1 CRLF CR X` makes it spin at the `X`. -/
theorem requestParser_hangs :
    ¬ RequestLoopLeaves (IOBuffer.holding [] (str "GET / HTTP/1.1\r\n\rX")) .requestLineBegin .create := by
  rintro ⟨⟨st, m, hret⟩, -⟩
  obtain ⟨left, ho⟩ := (returns_iff requestPass_settles).mp hret
  have hrun : outcome requestPass (IOBuffer.holding [] (str "GET / HTTP/1.1\r\n\rX")).data
      (.requestLineBegin, .create) none = .running := by decide
  exact absurd (hrun.symm.trans ho) (by simp)

end Blueth.Http
