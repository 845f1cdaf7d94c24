/-
# Blueth.Scan.Resume — the next call of a scan, when the byte before its window may have been lost.

A caller that keeps its buffer hands the next call the byte before the window; one that starts over at the
front of the buffer hands it none. `LooksBehind sc L` names the passes that care, and `resumed_iff` is the
account of the next call in both cases: it comes back as ONE call on everything so far does, unless the byte
is gone and the first pass wants it.
-/
import Blueth.Scan.Windows

set_option autoImplicit false

namespace Blueth.Scan

variable {σ α : Type*} {sc : Scanner σ α} {s r t : σ} {p : Option α} {u v w : List α}

theorem behind_append (p : Option α) (u v : List α) : behind p (u ++ v) = behind (behind p u) v := by
  simp [behind, List.getLast?_append, Option.or_assoc]

/-! ## Prefixes -/

/-- A rest once taken is taken whatever follows. -/
theorem restTaken_append {f : List α → σ} (h : restTaken sc u s p = some f) (v : List α) :
    restTaken sc (u ++ v) s p = some f := by
  induction u generalizing s p with
  | nil => simp [restTaken] at h
  | cons c u ih =>
      cases hp : sc s p c with
      | advance s' =>
          simp only [List.cons_append, restTaken, hp] at h ⊢
          exact ih h
      | takeRest g => simpa only [List.cons_append, restTaken, hp] using h
      | _ => simp only [restTaken, hp, reduceCtorEq] at h

theorem Resumable.of_append (h : Resumable sc (u ++ v) s p) : Resumable sc u s p :=
  fun f hf => h f (restTaken_append hf v)

/-- A call on two windows in one comes back exactly when the calls on the one and on the other do. -/
theorem returned_append_iff (hfin : FinishStable sc) (hrest : Resumable sc (u ++ v) s p) :
    (∃ left, outcome sc (u ++ v) s p = .returned t left) ↔
      ∃ r l left, outcome sc u s p = .returned r l ∧ outcome sc v r (behind p u) = .returned t left := by
  rw [← Outcome.forgetLeft_eq_returned, outcome_append hfin hrest, Outcome.forgetLeft_eq_returned]
  cases ho : outcome sc u s p with
  | returned r l =>
      rw [Outcome.andThen_returned]
      constructor
      · rintro ⟨left, hv⟩
        exact ⟨r, l, left, rfl, hv⟩
      · rintro ⟨r', l', left, hr, hv⟩
        obtain ⟨rfl, -⟩ := Outcome.returned.inj hr
        exact ⟨left, hv⟩
  | running => simp [Outcome.andThen]
  | fault => simp [Outcome.andThen]

/-! ## Who looks behind -/

/-- `L s c` says that the pass of `s` at `c` looks at the byte before the pointer: it cannot do without one,
and the others take no notice. -/
structure LooksBehind (sc : Scanner σ α) (L : σ → α → Prop) : Prop where
  ignores : ∀ s p p' c, ¬ L s c → sc s p c = sc s p' c
  stays : ∀ s p c s', ¬ L s c → sc s p c = .stay s' → ¬ L s' c
  needs : ∀ s c, L s c → sc s none c = .fault

namespace LooksBehind

variable {L : σ → α → Prop} (hL : LooksBehind sc L)
include hL

theorem outcome_congr (hw : ∀ c ∈ w.head?, ¬ L s c) (p p' : Option α) :
    outcome sc w s p = outcome sc w s p' := by
  cases w with
  | nil => rfl
  | cons c w =>
      have hc : ¬ L s c := hw c rfl
      cases hp : sc s p c with
      | stay s' =>
          have hstay := hL.ignores s' p p' c (hL.stays s p c s' hc hp)
          simp only [outcome, ← hL.ignores s p p' c hc, hp, hstay]
      | _ => simp only [outcome, ← hL.ignores s p p' c hc, hp]

/-- A call without a byte before its window that comes back has not looked for one. -/
theorem ignores_of_returned {left : List α} (h : outcome sc w s none = .returned t left) :
    ∀ c ∈ w.head?, ¬ L s c := by
  intro c hc hlook
  obtain ⟨v, rfl⟩ := List.head?_eq_some_iff.mp hc
  simp [outcome, hL.needs s c hlook] at h

/-- **The next call.** One call on `u` has come back in `r`. The call on `v` that follows has the last byte of
`u` before its window, or none: it comes back in `t` exactly when one call on both does, and the byte is not
missed. -/
theorem resumed_iff (hfin : FinishStable sc) (hrest : Resumable sc (u ++ v) s none) {l : List α}
    (ho : outcome sc u s none = .returned r l) (hp : p = behind none u ∨ p = none) :
    (∃ left, outcome sc v r p = .returned t left) ↔
      (∃ left, outcome sc (u ++ v) s none = .returned t left) ∧ (p = none → ∀ c ∈ v.head?, ¬ L r c) := by
  have hwhole : (∃ left, outcome sc (u ++ v) s none = .returned t left) ↔
      ∃ left, outcome sc v r (behind none u) = .returned t left := by
    rw [returned_append_iff hfin hrest, ho]
    constructor
    · rintro ⟨r', l', left, hr, hv⟩
      obtain ⟨rfl, -⟩ := Outcome.returned.inj hr
      exact ⟨left, hv⟩
    · rintro ⟨left, hv⟩
      exact ⟨r, l, left, rfl, hv⟩
  rw [hwhole]
  constructor
  · rintro ⟨left, hv⟩
    rcases hp with rfl | rfl
    · refine ⟨⟨left, hv⟩, fun hnone => ?_⟩
      rw [hnone] at hv
      exact hL.ignores_of_returned hv
    · have hblind := hL.ignores_of_returned hv
      exact ⟨⟨left, by rw [hL.outcome_congr hblind (behind none u) none, hv]⟩, fun _ => hblind⟩
  · rintro ⟨⟨left, hv⟩, hblind⟩
    rcases hp with rfl | rfl
    · exact ⟨left, hv⟩
    · exact ⟨left, by rw [hL.outcome_congr (hblind rfl) none (behind none u), hv]⟩

end LooksBehind

end Blueth.Scan
