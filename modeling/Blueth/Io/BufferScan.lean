/-
# Blueth.Io.BufferScan — running a scanner over an `IOBuffer`, in one call or window by window.

`scanBuffer` is one call: the loop runs from the start offset to the end offset. `scanWindows` is the
way an asynchronous caller works: for each window the end offset has moved up to the bytes received
so far, and before the next call the start offset is advanced past the window just parsed, so that
the byte before it is still in the allocation. The state is threaded through.
-/
import Mathlib.Algebra.Ring.Nat
import Blueth.Io.IOBuffer

set_option autoImplicit false

namespace Blueth.Io

open Blueth.Scan

variable {σ : Type*} {sc : Scanner σ UInt8}

/-- One call of a parser on the buffer. -/
def scanBuffer (sc : Scanner σ UInt8) (fuel : ℕ) (b : IOBuffer) (s : σ) : Outcome σ UInt8 :=
  loop sc fuel s b.byteBefore b.data

/-- One call for each window of the given lengths, in order. -/
def scanWindows (sc : Scanner σ UInt8) (fuel : ℕ) : IOBuffer → List ℕ → σ → Outcome σ UInt8
  | _, [], s => .returned s []
  | b, n :: ns, s =>
    (scanBuffer sc fuel (b.deliver n) s).andThen fun t => scanWindows sc fuel (b.consume n) ns t

/-- The call comes back, in state `t`. -/
def Returns (sc : Scanner σ UInt8) (b : IOBuffer) (s t : σ) : Prop :=
  ∃ fuel left, scanBuffer sc fuel b s = .returned t left

/-- Every call of the sequence comes back, the last one in state `t`. -/
def WindowsReturn (sc : Scanner σ UInt8) (b : IOBuffer) (windows : List ℕ) (s t : σ) : Prop :=
  ∃ fuel left, scanWindows sc fuel b windows s = .returned t left

/-! ## Closed forms -/

theorem returns_iff (hs : Settles sc) {b : IOBuffer} {s t : σ} :
    Returns sc b s t ↔ ∃ left, outcome sc b.data s b.byteBefore = .returned t left := by
  unfold Returns scanBuffer
  rw [exists_comm]
  exact exists_congr fun left => exists_loop_iff hs (by simp)

theorem returns_unique (hs : Settles sc) {b : IOBuffer} {s t t' : σ} (h : Returns sc b s t)
    (h' : Returns sc b s t') : t = t' := by
  obtain ⟨l, hl⟩ := (returns_iff hs).mp h
  obtain ⟨l', hl'⟩ := (returns_iff hs).mp h'
  rw [hl, Outcome.returned.injEq] at hl'
  exact hl'.1

theorem scanBuffer_mono {n m : ℕ} (hnm : n ≤ m) {b : IOBuffer} {s t : σ} {left : List UInt8}
    (h : scanBuffer sc n b s = .returned t left) : scanBuffer sc m b s = .returned t left := by
  unfold scanBuffer at h ⊢
  rw [loop_mono hnm (by simp [h]), h]

theorem scanWindows_mono {n m : ℕ} (hnm : n ≤ m) {b : IOBuffer} {windows : List ℕ} {s t : σ}
    {left : List UInt8} (h : scanWindows sc n b windows s = .returned t left) :
    scanWindows sc m b windows s = .returned t left := by
  induction windows generalizing b s with
  | nil => exact h
  | cons k windows ih =>
      simp only [scanWindows] at h ⊢
      cases hc : scanBuffer sc n (b.deliver k) s with
      | returned r l =>
          rw [hc, Outcome.andThen_returned] at h
          rw [scanBuffer_mono hnm hc, Outcome.andThen_returned]
          exact ih h
      | running => simp [hc, Outcome.andThen] at h
      | fault => simp [hc, Outcome.andThen] at h

@[simp] theorem windowsReturn_nil {b : IOBuffer} {s t : σ} :
    WindowsReturn sc b [] s t ↔ s = t := by
  simp [WindowsReturn, scanWindows]

/-- A sequence that starts with a window is a call followed by a sequence. -/
theorem windowsReturn_cons {b : IOBuffer} {n : ℕ} {ns : List ℕ} {s t : σ} :
    WindowsReturn sc b (n :: ns) s t
      ↔ ∃ r, Returns sc (b.deliver n) s r ∧ WindowsReturn sc (b.consume n) ns r t := by
  constructor
  · rintro ⟨fuel, left, h⟩
    simp only [scanWindows] at h
    cases hc : scanBuffer sc fuel (b.deliver n) s with
    | returned r l =>
        rw [hc, Outcome.andThen_returned] at h
        exact ⟨r, ⟨fuel, l, hc⟩, fuel, left, h⟩
    | running => simp [hc, Outcome.andThen] at h
    | fault => simp [hc, Outcome.andThen] at h
  · rintro ⟨r, ⟨f₁, l₁, h₁⟩, f₂, l₂, h₂⟩
    -- both calls are given the larger of the two amounts of fuel
    refine ⟨max f₁ f₂, l₂, ?_⟩
    rw [scanWindows, scanBuffer_mono (Nat.le_max_left _ _) h₁, Outcome.andThen_returned]
    exact scanWindows_mono (Nat.le_max_right _ _) h₂

theorem windowsReturn_append {b : IOBuffer} {ms ns : List ℕ} {s t : σ} :
    WindowsReturn sc b (ms ++ ns) s t
      ↔ ∃ r, WindowsReturn sc b ms s r ∧ WindowsReturn sc (b.consume ms.sum) ns r t := by
  induction ms generalizing b s with
  | nil => simp [IOBuffer.consume]
  | cons m ms ih =>
      simp only [List.cons_append, windowsReturn_cons, ih, List.sum_cons, IOBuffer.consume_consume]
      constructor
      · rintro ⟨r, hr, q, hq, ht⟩
        exact ⟨q, ⟨r, hr, hq⟩, ht⟩
      · rintro ⟨q, ⟨r, hr, hq⟩, ht⟩
        exact ⟨r, hr, q, hq, ht⟩

theorem windowsReturn_unique {b : IOBuffer} {windows : List ℕ} {s t t' : σ}
    (h : WindowsReturn sc b windows s t) (h' : WindowsReturn sc b windows s t') : t = t' := by
  obtain ⟨n, l, hn⟩ := h
  obtain ⟨n', l', hn'⟩ := h'
  have hmax := scanWindows_mono (Nat.le_max_left n n') hn
  rw [scanWindows_mono (Nat.le_max_right n n') hn', Outcome.returned.injEq] at hmax
  exact hmax.1.symm

/-- A final state is kept by every further sequence of calls. -/
theorem windowsReturn_of_finish {s : σ} (h : ∀ p c, sc s p c = .finish s) (b : IOBuffer)
    (windows : List ℕ) : WindowsReturn sc b windows s s := by
  induction windows generalizing b with
  | nil => exact windowsReturn_nil.mpr rfl
  | cons n ns ih =>
      refine windowsReturn_cons.mpr ⟨s, ⟨1, (b.deliver n).data, ?_⟩, ih _⟩
      unfold scanBuffer
      cases (b.deliver n).data with
      | nil => rfl
      | cons c w => simp only [loop, h]

/-! ## Counting the bytes of the first calls -/

/-- The number of bytes delivered by the first `i` calls. -/
def delivered (windows : List ℕ) (i : ℕ) : ℕ := (windows.take i).sum

theorem delivered_succ {windows : List ℕ} {i : ℕ} (hi : i < windows.length) :
    delivered windows (i + 1) = delivered windows i + windows[i] := by
  rw [delivered, List.take_succ_eq_append_getElem hi, List.sum_append, List.sum_singleton, delivered]

theorem delivered_mono {windows : List ℕ} {i j : ℕ} (hij : i ≤ j) :
    delivered windows i ≤ delivered windows j := by
  have hsplit := List.take_append_drop i (windows.take j)
  rw [List.take_take, Nat.min_eq_left hij] at hsplit
  rw [delivered, delivered, ← hsplit, List.sum_append]
  exact Nat.le_add_right _ _

theorem delivered_le_sum (windows : List ℕ) (i : ℕ) : delivered windows i ≤ windows.sum := by
  have h := List.take_append_drop i windows
  rw [← congrArg List.sum h, List.sum_append]
  exact Nat.le_add_right _ _

/-- Where more than `n` bytes have been delivered, one call was the first to get past `n`. -/
theorem exists_first_past {windows : List ℕ} {n j : ℕ} (h : n < delivered windows j) :
    ∃ i, i < j ∧ i < windows.length ∧ delivered windows i ≤ n ∧ n < delivered windows (i + 1) := by
  induction j with
  | zero => simp [delivered] at h
  | succ j ih =>
      by_cases hj : n < delivered windows j
      · obtain ⟨i, hij, hi⟩ := ih hj
        exact ⟨i, by omega, hi⟩
      · refine ⟨j, by omega, ?_, by omega, h⟩
        by_contra hlen
        have heq : windows.take (j + 1) = windows.take j := by
          rw [List.take_of_length_le (by omega), List.take_of_length_le (by omega)]
        rw [delivered, heq] at h
        exact hj h

/-! ## Cutting the buffer into windows -/

/-- **Windows do not matter.** For a scanner that can be resumed on what is delivered, the sequence of
calls ends in the state in which one call on everything delivered ends, and comes back exactly when
that call does. -/
theorem windowsReturn_iff (hs : Settles sc) (hfin : FinishStable sc) {b : IOBuffer}
    (hb : b.WellFormed) {windows : List ℕ} (hsum : windows.sum ≤ b.getDataSize) {s t : σ}
    (hrest : Resumable sc (b.data.take windows.sum) s b.byteBefore) :
    WindowsReturn sc b windows s t ↔ Returns sc (b.deliver windows.sum) s t := by
  rw [returns_iff hs, IOBuffer.data_deliver hb hsum, IOBuffer.byteBefore_deliver]
  induction windows generalizing b s with
  | nil => simp [outcome]
  | cons n ns ih =>
      rw [List.sum_cons] at hsum hrest ⊢
      have hn : n ≤ b.getDataSize := by omega
      have hsplit : b.data.take (n + ns.sum) = b.data.take n ++ (b.consume n).data.take ns.sum := by
        rw [IOBuffer.data_consume, List.take_add]
      rw [hsplit] at hrest ⊢
      rw [windowsReturn_cons, ← Outcome.forgetLeft_eq_returned, outcome_append hfin hrest,
        Outcome.forgetLeft_eq_returned]
      have hns : ns.sum ≤ (b.consume n).getDataSize := by
        rw [IOBuffer.getDataSize_consume]
        omega
      have hbehind := IOBuffer.byteBefore_consume hb hn
      constructor
      · rintro ⟨r, hr, ht⟩
        obtain ⟨l, hl⟩ := (returns_iff hs).mp hr
        rw [IOBuffer.data_deliver hb hn, IOBuffer.byteBefore_deliver] at hl
        rw [hl, Outcome.andThen_returned, ← hbehind]
        have htail := hrest.tail hfin hl
        rw [← hbehind] at htail
        exact (ih (IOBuffer.wellFormed_consume hb hn) hns htail).mp ht
      · rintro ⟨left, ht⟩
        cases hl : outcome sc (b.data.take n) s b.byteBefore with
        | returned r l =>
            have htail := hrest.tail hfin hl
            rw [hl, Outcome.andThen_returned, ← hbehind] at ht
            rw [← hbehind] at htail
            refine ⟨r, (returns_iff hs).mpr ⟨l, ?_⟩, ?_⟩
            · rw [IOBuffer.data_deliver hb hn, IOBuffer.byteBefore_deliver, hl]
            · exact (ih (IOBuffer.wellFormed_consume hb hn) hns htail).mpr ⟨left, ht⟩
        | running => simp [hl, Outcome.andThen] at ht
        | fault => simp [hl, Outcome.andThen] at ht

/-- A sequence of calls that is consumed byte by byte comes back in the state it is consumed to. -/
theorem windowsReturn_of_feed (hs : Settles sc) (hfin : FinishStable sc) {b : IOBuffer}
    (hb : b.WellFormed) {windows : List ℕ} (hsum : windows.sum ≤ b.getDataSize) {s t : σ}
    (h : feed sc s b.byteBefore (b.data.take windows.sum) = some t) :
    WindowsReturn sc b windows s t := by
  refine (windowsReturn_iff hs hfin hb hsum (resumable_of_feed h)).mpr ((returns_iff hs).mpr ⟨[], ?_⟩)
  rw [IOBuffer.data_deliver hb hsum, IOBuffer.byteBefore_deliver]
  exact outcome_of_feed h

/-- **A set of states is entered through a door**, however the bytes are cut into windows: what
`exists_entry` says of one call. A call that takes the rest has been inside before, and without one the
calls are as good as a single one. -/
theorem exists_windowsEntry (hs : Settles sc) (hfin : FinishStable sc) {A : σ → Prop}
    (hfinish : ∀ s p c s', sc s p c = .finish s' → A s' → A s)
    (hstay : ∀ s p c s', sc s p c = .stay s' → A s' → A s)
    (hrest : ∀ s p c f, sc s p c = .takeRest f → A s) {b : IOBuffer} (hb : b.WellFormed)
    {windows : List ℕ} (hsum : windows.sum ≤ b.getDataSize) {s t : σ}
    (h : WindowsReturn sc b windows s t) (hs₀ : ¬ A s) (ht : A t) :
    ∃ u c v r r', b.data.take windows.sum = u ++ c :: v ∧ feed sc s b.byteBefore u = some r ∧ ¬ A r ∧
      sc r (behind b.byteBefore u) c = .advance r' ∧ A r' := by
  cases hrt : restTaken sc (b.data.take windows.sum) s b.byteBefore with
  | none =>
      have hresume : Resumable sc (b.data.take windows.sum) s b.byteBefore := by
        intro f hf
        rw [hrt] at hf
        cases hf
      obtain ⟨left, ho⟩ := (returns_iff hs).mp ((windowsReturn_iff hs hfin hb hsum hresume).mp h)
      rw [IOBuffer.data_deliver hb hsum, IOBuffer.byteBefore_deliver] at ho
      exact exists_entry hfinish hstay hrest ho hs₀ ht
  | some f =>
      obtain ⟨u, c, v, r, hdata, hu, hc⟩ := exists_feed_of_restTaken hrt
      obtain ⟨u', d, v', q, q', hsplit, hq⟩ :=
        exists_entry hfinish hstay hrest (outcome_of_feed hu) hs₀ (hrest _ _ _ _ hc)
      exact ⟨u', d, v' ++ c :: v, q, q', by rw [hdata, hsplit, List.append_assoc, List.cons_append], hq⟩

/-! ## What a sequence of calls keeps -/

/-- What no pass leads out of, no sequence of calls leads out of. -/
theorem windowsReturn_keeps (hs : Settles sc) {I : σ → Prop} (hI : Keeps sc I) {b : IOBuffer}
    {windows : List ℕ} {s t : σ} (h : WindowsReturn sc b windows s t) (hinit : I s) : I t := by
  induction windows generalizing b s with
  | nil => exact windowsReturn_nil.mp h ▸ hinit
  | cons n ns ih =>
      obtain ⟨r, hr, ht⟩ := windowsReturn_cons.mp h
      obtain ⟨left, ho⟩ := (returns_iff hs).mp hr
      exact ih ht (outcome_keeps hI hinit ho)

/-- **Past a prefix.** Let what is delivered begin with a word that is consumed byte by byte to a state
in `I`, which no pass leads out of. However the windows cut the word, the calls end in `I`. -/
theorem windowsReturn_past (hs : Settles sc) {I : σ → Prop} (hI : Keeps sc I) {b : IOBuffer}
    (hb : b.WellFormed) {windows : List ℕ} (hsum : windows.sum ≤ b.getDataSize) {u rest : List UInt8}
    (hdata : b.data.take windows.sum = u ++ rest) {s r t : σ}
    (hfeed : feed sc s b.byteBefore u = some r) (hr : I r) (h : WindowsReturn sc b windows s t) :
    I t := by
  induction windows generalizing b s u with
  | nil =>
      rw [List.sum_nil, List.take_zero, eq_comm, List.append_eq_nil_iff] at hdata
      rw [hdata.1, feed_nil, Option.some.injEq] at hfeed
      exact windowsReturn_nil.mp h ▸ hfeed ▸ hr
  | cons n ns ih =>
      rw [List.sum_cons] at hsum hdata
      have hn : n ≤ b.getDataSize := by omega
      obtain ⟨q, hq, ht⟩ := windowsReturn_cons.mp h
      obtain ⟨left, ho⟩ := (returns_iff hs).mp hq
      rw [IOBuffer.data_deliver hb hn, IOBuffer.byteBefore_deliver] at ho
      have hfirst : b.data.take n = (u ++ rest).take n := by
        rw [← hdata, List.take_take, Nat.min_eq_left (Nat.le_add_right _ _)]
      by_cases hlen : u.length ≤ n
      · -- the word ends in this window
        rw [hfirst, List.take_append, List.take_of_length_le hlen,
          outcome_append_of_feed hfeed] at ho
        exact windowsReturn_keeps hs hI ht (outcome_keeps hI hr ho)
      · -- the word goes on: this window is consumed whole
        rw [← List.take_append_drop n u, feed_append] at hfeed
        obtain ⟨q', hq', hfeed'⟩ := Option.bind_eq_some_iff.mp hfeed
        rw [List.take_append_of_le_length (by omega)] at hfirst
        rw [hfirst, outcome_of_feed hq', Outcome.returned.injEq] at ho
        have hwf := IOBuffer.wellFormed_consume hb hn
        refine ih (u := u.drop n) hwf (by rw [IOBuffer.getDataSize_consume]; omega) ?_ ?_ ht
        · have hdrop := congrArg (List.drop n) hdata
          rw [List.drop_take, Nat.add_sub_cancel_left,
            List.drop_append_of_le_length (by omega)] at hdrop
          rw [IOBuffer.data_consume, hdrop]
        · rw [IOBuffer.byteBefore_consume hb hn, hfirst, ← ho.1]
          exact hfeed'

/-- Where a call comes back from every state with a byte before its window, and from `Safe` states in
any case, a sequence of calls comes back: once a byte has been delivered there is one before every later
window. -/
theorem exists_windowsReturn (hs : Settles sc) {Safe : σ → Prop}
    (hret : ∀ w s p, Safe s ∨ p ≠ none → ∃ t left, outcome sc w s p = .returned t left)
    {b : IOBuffer} (hb : b.WellFormed) {windows : List ℕ} (hsum : windows.sum ≤ b.getDataSize) {s : σ}
    (hsafe : Safe s ∨ b.byteBefore ≠ none) : ∃ t, WindowsReturn sc b windows s t := by
  induction windows generalizing b s with
  | nil => exact ⟨s, windowsReturn_nil.mpr rfl⟩
  | cons n ns ih =>
      rw [List.sum_cons] at hsum
      have hn : n ≤ b.getDataSize := by omega
      obtain ⟨r, left, ho⟩ := hret (b.data.take n) s b.byteBefore hsafe
      have hsize : ns.sum ≤ (b.consume n).getDataSize := by
        rw [IOBuffer.getDataSize_consume]
        omega
      have hbehind := IOBuffer.byteBefore_consume hb hn
      have hnext : Safe r ∨ (b.consume n).byteBefore ≠ none := by
        by_cases hempty : b.data.take n = []
        · -- nothing delivered: the state is the one before
          rw [hempty] at ho hbehind
          rw [outcome, Outcome.returned.injEq] at ho
          rw [hbehind, behind_nil, ← ho.1]
          exact hsafe
        · right
          rw [hbehind]
          exact fun hnone => hempty (behind_eq_none.mp hnone).2
      obtain ⟨t, ht⟩ := ih (IOBuffer.wellFormed_consume hb hn) hsize hnext
      refine ⟨t, windowsReturn_cons.mpr ⟨r, (returns_iff hs).mpr ⟨left, ?_⟩, ht⟩⟩
      rw [IOBuffer.data_deliver hb hn, IOBuffer.byteBefore_deliver, ho]

/-! ## Outside the window -/

/-- A call from `s` on a window `w` gives the same on every buffer that shows this window, and reads
nothing outside the allocation of any. -/
def WindowOnly (sc : Scanner σ UInt8) (s : σ) (w : List UInt8) : Prop :=
  (∀ b₁ b₂ : IOBuffer, b₁.WellFormed → b₂.WellFormed → b₁.data = w → b₂.data = w → ∀ fuel,
    scanBuffer sc fuel b₁ s = scanBuffer sc fuel b₂ s) ∧
  ∀ b : IOBuffer, b.WellFormed → b.data = w → ∀ fuel, scanBuffer sc fuel b s ≠ .fault

/-- **The first byte decides.** Let `I s c` say that the pass of `s` at `c` does not look behind, where a
look-behind that finds no byte is a fault. Then a call depends on its window only exactly when its first
pass does not look behind: every later one has a byte of the window before it. -/
theorem windowOnly_iff {I : σ → UInt8 → Prop} (hfault : ∀ s p c, sc s p c = .fault → p = none)
    (hI : ∀ s p p' c, I s c → sc s p c = sc s p' c)
    (hstay : ∀ s p c s', I s c → sc s p c = .stay s' → I s' c)
    (hlook : ∀ s c, ¬ I s c → sc s none c = .fault) {s : σ} {w : List UInt8} :
    WindowOnly sc s w ↔ ∀ c ∈ w.head?, I s c := by
  constructor
  · rintro ⟨-, hno⟩ c hc
    by_contra hnot
    obtain ⟨v, rfl⟩ := List.head?_eq_some_iff.mp hc
    -- a buffer whose window starts at offset 0
    refine hno (.holding [] (c :: v)) (IOBuffer.holding_wellFormed _ _) (IOBuffer.data_holding _ _) 1 ?_
    rw [scanBuffer, IOBuffer.data_holding, IOBuffer.byteBefore_holding_nil]
    simp only [loop, hlook s c hnot]
  · intro hs
    refine ⟨?_, ?_⟩
    · intro b₁ b₂ _ _ h₁ h₂ fuel
      rw [scanBuffer, scanBuffer, h₁, h₂]
      exact loop_congr_behind hI hstay fuel hs _ _
    · intro b _ hb fuel
      rw [scanBuffer, hb, loop_congr_behind hI hstay fuel hs b.byteBefore (some 0)]
      exact loop_ne_fault hfault fuel s 0 w

end Blueth.Io
