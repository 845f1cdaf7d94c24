/-
# Blueth.Scan.Windows — one call or many: when a resumed scan cannot tell the difference.

Three questions about a `Scanner` whose input is cut into windows:

* does running over `u ++ v` in ONE call end as running over `u` and then over `v`
  (`outcome_append`)? Only a run that left the loop before the cut could disagree, so the assumptions
  are about leaving: a `finish` state must finish again (`FinishStable`), and a state that took the
  rest must take the next rest in the same way (`RestResumes`);
* does the byte BEFORE the window matter (`loop_congr_behind`)? Not when the first byte's pass
  ignores it;
* can a run that leaves the loop visit a (state, bytes left) pair twice (`config_ne_of_lt`)? No.
-/
import Blueth.Scan.Machine

set_option autoImplicit false

namespace Blueth.Scan

variable {σ τ α : Type*} {sc : Scanner σ α}

/-! ## Cutting the input -/

/-- A state left by `finish` finishes again, unchanged, at whatever byte comes next. -/
def FinishStable (sc : Scanner σ α) : Prop :=
  ∀ ⦃s p c s'⦄, sc s p c = .finish s' → ∀ p' c', sc s' p' c' = .finish s'

/-- Taking the rest in two helpings is taking it in one. -/
def RestResumes (sc : Scanner σ α) (f : List α → σ) : Prop :=
  ∀ r p c, ∃ f', sc (f r) p c = .takeRest f' ∧ ∀ r', f' r' = f (r ++ r')

/-- The update by which a run takes the rest of its input, if it ends that way. -/
def restTaken (sc : Scanner σ α) : List α → σ → Option α → Option (List α → σ)
  | [], _, _ => none
  | c :: w, s, p =>
    match sc s p c with
    | .advance s' => restTaken sc w s' (some c)
    | .takeRest f => some f
    | _ => none

/-- The assumption of `outcome_append`, for a given input: if the run takes the rest at all, it does
so by an update that can be resumed. -/
def Resumable (sc : Scanner σ α) (w : List α) (s : σ) (p : Option α) : Prop :=
  ∀ f, restTaken sc w s p = some f → RestResumes sc f

/-- Run `k` on the state a call returned; a call that does not return has no successor. -/
def Outcome.andThen (o : Outcome σ α) (k : σ → Outcome σ α) : Outcome σ α :=
  match o with
  | .returned s _ => k s
  | .running => .running
  | .fault => .fault

/-- The outcome without the bytes left unread, which a second call does not see. -/
def Outcome.forgetLeft : Outcome σ α → Outcome σ α
  | .returned s _ => .returned s []
  | .running => .running
  | .fault => .fault

@[simp] theorem Outcome.forgetLeft_returned (s : σ) (left : List α) :
    (Outcome.returned s left).forgetLeft = .returned s [] := rfl

@[simp] theorem Outcome.andThen_returned (s : σ) (left : List α) (k : σ → Outcome σ α) :
    (Outcome.returned s left).andThen k = k s := rfl

theorem Outcome.forgetLeft_eq_returned {o : Outcome σ α} {s : σ} :
    o.forgetLeft = .returned s [] ↔ ∃ left, o = .returned s left := by
  cases o <;> simp [Outcome.forgetLeft]

theorem outcome_of_finish {s : σ} (h : ∀ p c, sc s p c = .finish s) (w : List α) (p : Option α) :
    outcome sc w s p = .returned s w := by
  cases w with
  | nil => rfl
  | cons c w => simp only [outcome, h]

/-- **One call is two calls.** Cutting the window anywhere gives the same result, with the byte
before the second window being the last byte of the first. -/
theorem outcome_append (hfin : FinishStable sc) {u v : List α} {s : σ} {p : Option α}
    (hrest : Resumable sc (u ++ v) s p) :
    (outcome sc (u ++ v) s p).forgetLeft
      = ((outcome sc u s p).andThen fun t => outcome sc v t (behind p u)).forgetLeft := by
  induction u generalizing s p with
  | nil => simp [outcome]
  | cons c u ih =>
      cases hp : sc s p c with
      | advance s' =>
          simp only [List.cons_append, outcome, hp, behind_cons]
          refine ih fun f hf => hrest f ?_
          simpa only [List.cons_append, restTaken, hp] using hf
      | finish s' =>
          simp only [List.cons_append, outcome, hp, Outcome.andThen_returned]
          rw [outcome_of_finish (hfin hp)]
          rfl
      | takeRest f =>
          have hres := hrest f (by simp only [List.cons_append, restTaken, hp])
          simp only [List.cons_append, outcome, hp, Outcome.andThen_returned]
          cases v with
          | nil => simp [outcome]
          | cons d v =>
              obtain ⟨f', hf', happ⟩ := hres (c :: u) (behind p (c :: u)) d
              simp only [outcome, hf', happ, List.cons_append]
      | fault => simp only [List.cons_append, outcome, hp, Outcome.andThen]
      | stay s' =>
          simp only [List.cons_append, outcome, hp]
          cases hp' : sc s' p c with
          | finish s'' =>
              simp only [Outcome.andThen_returned]
              rw [outcome_of_finish (hfin hp')]
              rfl
          | _ => rfl

/-- A run that takes the rest ends in the update's state at a non-empty remainder. -/
theorem outcome_of_restTaken {w : List α} {s : σ} {p : Option α} {f : List α → σ}
    (h : restTaken sc w s p = some f) :
    ∃ c v, outcome sc w s p = .returned (f (c :: v)) [] := by
  induction w generalizing s p with
  | nil => simp [restTaken] at h
  | cons c w ih =>
      cases hp : sc s p c with
      | advance s' =>
          simp only [restTaken, hp] at h
          simp only [outcome, hp]
          exact ih h
      | takeRest g =>
          simp only [restTaken, hp, Option.some.injEq] at h
          subst h
          exact ⟨c, w, by simp only [outcome, hp]⟩
      | _ => simp only [restTaken, hp, reduceCtorEq] at h

/-- A run that takes the rest has consumed its way to a state whose pass does. -/
theorem exists_feed_of_restTaken {w : List α} {s : σ} {p : Option α} {f : List α → σ}
    (h : restTaken sc w s p = some f) :
    ∃ u c v r, w = u ++ c :: v ∧ feed sc s p u = some r ∧ sc r (behind p u) c = .takeRest f := by
  induction w generalizing s p with
  | nil => simp [restTaken] at h
  | cons c w ih =>
      cases hp : sc s p c with
      | advance s' =>
          simp only [restTaken, hp] at h
          obtain ⟨u, d, v, r, rfl, hu, hd⟩ := ih h
          refine ⟨c :: u, d, v, r, rfl, ?_, ?_⟩
          · rw [feed_cons_of_advance hp, hu]
          · rw [behind_cons, hd]
      | takeRest g =>
          simp only [restTaken, hp, Option.some.injEq] at h
          subst h
          exact ⟨[], c, w, s, rfl, rfl, by rw [behind_nil, hp]⟩
      | _ => simp only [restTaken, hp, reduceCtorEq] at h

theorem resumable_of_forall (h : ∀ s p c f, sc s p c = .takeRest f → RestResumes sc f)
    (w : List α) (s : σ) (p : Option α) : Resumable sc w s p := by
  intro f hf
  obtain ⟨u, c, v, r, -, -, hc⟩ := exists_feed_of_restTaken hf
  exact h r _ c f hc

/-- A run that consumes its window byte by byte takes no rest. -/
theorem resumable_of_feed {w : List α} {s t : σ} {p : Option α} (h : feed sc s p w = some t) :
    Resumable sc w s p := by
  intro f hf
  induction w generalizing s p with
  | nil => simp [restTaken] at hf
  | cons c w ih =>
      cases hp : sc s p c with
      | advance s' =>
          rw [feed_cons_of_advance hp] at h
          simp only [restTaken, hp] at hf
          exact ih h hf
      | _ => simp [feed, hp] at h

theorem resumable_of_finish {s : σ} (h : ∀ p c, sc s p c = .finish s) (w : List α) (p : Option α) :
    Resumable sc w s p := by
  intro f hf
  cases w with
  | nil => simp [restTaken] at hf
  | cons c w => simp [restTaken, h] at hf

/-- What a call leaves can be resumed if the whole could. -/
theorem Resumable.tail (hfin : FinishStable sc) {u v : List α} {s t : σ} {p : Option α}
    {left : List α} (h : Resumable sc (u ++ v) s p) (ho : outcome sc u s p = .returned t left) :
    Resumable sc v t (behind p u) := by
  induction u generalizing s p with
  | nil =>
      simp only [outcome, Outcome.returned.injEq] at ho
      obtain ⟨rfl, -⟩ := ho
      simpa using h
  | cons c u ih =>
      cases hp : sc s p c with
      | advance s' =>
          simp only [outcome, hp] at ho
          rw [behind_cons]
          refine ih (fun f hf => h f ?_) ho
          simpa only [List.cons_append, restTaken, hp] using hf
      | finish s' =>
          simp only [outcome, hp, Outcome.returned.injEq] at ho
          obtain ⟨rfl, -⟩ := ho
          exact resumable_of_finish (hfin hp) v _
      | takeRest f =>
          have hres := h f (by simp only [List.cons_append, restTaken, hp])
          simp only [outcome, hp, Outcome.returned.injEq] at ho
          obtain ⟨rfl, -⟩ := ho
          intro g hg
          cases v with
          | nil => simp [restTaken] at hg
          | cons d v =>
              obtain ⟨f', hf', happ⟩ := hres (c :: u) (behind p (c :: u)) d
              simp only [restTaken, hf', Option.some.injEq] at hg
              subst hg
              intro r q e
              obtain ⟨f'', hf'', happ'⟩ := hres (c :: u ++ r) q e
              refine ⟨f'', by rw [happ, hf''], fun r' => ?_⟩
              rw [happ', happ, List.append_assoc]
      | fault => simp [outcome, hp] at ho
      | stay s' =>
          simp only [outcome, hp] at ho
          cases hp' : sc s' p c with
          | finish s'' =>
              simp only [hp', Outcome.returned.injEq] at ho
              obtain ⟨rfl, -⟩ := ho
              exact resumable_of_finish (hfin hp') v _
          | _ => simp [hp'] at ho

/-! ## The byte before the window -/

/-- **The look-behind is the only leak.** If the pass at the first byte does not read the byte before
the window (and a pass that keeps the pointer does not start to), no run does. -/
theorem loop_congr_behind {I : σ → α → Prop} (hI : ∀ s p p' c, I s c → sc s p c = sc s p' c)
    (hstay : ∀ s p c s', I s c → sc s p c = .stay s' → I s' c) (n : ℕ) {s : σ} {w : List α}
    (hs : ∀ c ∈ w.head?, I s c) (p p' : Option α) :
    loop sc n s p w = loop sc n s p' w := by
  induction n generalizing s with
  | zero => rfl
  | succ n ih =>
      cases w with
      | nil => rfl
      | cons c w =>
          have hc : I s c := hs c (by simp)
          simp only [loop, ← hI s p p' c hc]
          cases hp : sc s p c with
          | stay s' =>
              exact ih (by simpa using hstay s p c s' hc hp)
          | _ => rfl

/-- Where only a missing byte before the pointer makes a pass fault, no run with such a byte faults. -/
theorem loop_ne_fault (hfault : ∀ s p c, sc s p c = .fault → p = none) (n : ℕ) (s : σ) (b : α)
    (w : List α) : loop sc n s (some b) w ≠ .fault := by
  induction n generalizing s b w with
  | zero => simp [loop]
  | succ n ih =>
      cases w with
      | nil => simp [loop]
      | cons c w =>
          cases hp : sc s (some b) c with
          | advance s' =>
              simp only [loop, hp]
              exact ih s' c w
          | stay s' =>
              simp only [loop, hp]
              exact ih s' b (c :: w)
          | fault => exact absurd (hfault s (some b) c hp) (by simp)
          | _ => simp [loop, hp]

/-! ## No pair is visited twice -/

/-- The configuration after one more pass, if the loop is not left. -/
def next (sc : Scanner σ α) : σ × Option α × List α → Option (σ × Option α × List α)
  | (_, _, []) => none
  | (s, p, c :: w) =>
    match sc s p c with
    | .advance s' => some (s', some c, w)
    | .stay s' => some (s', p, c :: w)
    | _ => none

/-- The configuration at the top of pass `n`. -/
def config (sc : Scanner σ α) : ℕ → σ × Option α × List α → Option (σ × Option α × List α)
  | 0, k => some k
  | n + 1, k => (next sc k).bind (config sc n)

theorem next_left_le {k k' : σ × Option α × List α} (h : next sc k = some k') :
    k'.2.2.length ≤ k.2.2.length := by
  obtain ⟨s, p, w⟩ := k
  cases w with
  | nil => simp [next] at h
  | cons c w =>
      cases hp : sc s p c with
      | advance s' =>
          simp only [next, hp, Option.some.injEq] at h
          subst h
          simp
      | stay s' =>
          simp only [next, hp, Option.some.injEq] at h
          subst h
          simp
      | _ => simp only [next, hp, reduceCtorEq] at h

theorem config_left_le {n : ℕ} {k k' : σ × Option α × List α} (h : config sc n k = some k') :
    k'.2.2.length ≤ k.2.2.length := by
  induction n generalizing k with
  | zero =>
      obtain rfl : k = k' := by simpa [config] using h
      exact Nat.le_refl _
  | succ n ih =>
      obtain ⟨m, hm, hn⟩ := Option.bind_eq_some_iff.mp h
      exact Nat.le_trans (ih hn) (next_left_le hm)

theorem behind_eq_none {p : Option α} {w : List α} : behind p w = none ↔ p = none ∧ w = [] := by
  simp [behind, and_comm]

/-- The pass at a configuration makes progress: it consumes a byte, leaves the loop, or goes to a state
that leaves it. -/
def ProgressAt (sc : Scanner σ α) : σ × Option α × List α → Prop
  | (_, _, []) => True
  | (s, p, c :: _) =>
    match sc s p c with
    | .stay s' => sc s' p c = .finish s'
    | .fault => False
    | _ => True

/-- Every configuration of a run has the run's result, so each pass of a run that returns makes
progress. -/
theorem progressAt_of_returned (hs : Settles sc) {n : ℕ} {k k' : σ × Option α × List α}
    (hk : config sc n k = some k') {t : σ} {left : List α}
    (ho : outcome sc k.2.2 k.1 k.2.1 = .returned t left) : ProgressAt sc k' := by
  induction n generalizing k with
  | zero =>
      obtain rfl : k = k' := by simpa [config] using hk
      obtain ⟨s, p, w⟩ := k
      cases w with
      | nil => trivial
      | cons c w =>
          simp only [ProgressAt]
          cases hp : sc s p c with
          | stay s' =>
              rcases hs hp with hf | hst
              · exact hf
              · simp [outcome_stay_stay hp hst] at ho
          | fault => simp [outcome, hp] at ho
          | _ => trivial
  | succ n ih =>
      obtain ⟨⟨s₁, p₁, w₁⟩, hm, hn⟩ := Option.bind_eq_some_iff.mp hk
      refine ih hn ?_
      obtain ⟨s, p, w⟩ := k
      cases w with
      | nil => simp [next] at hm
      | cons c w =>
          cases hp : sc s p c with
          | advance s' =>
              simp only [next, hp, Option.some.injEq, Prod.mk.injEq] at hm
              obtain ⟨rfl, rfl, rfl⟩ := hm
              simpa only [outcome, hp] using ho
          | stay s' =>
              simp only [next, hp, Option.some.injEq, Prod.mk.injEq] at hm
              obtain ⟨rfl, rfl, rfl⟩ := hm
              rcases hs hp with hf | hst
              · rw [outcome_stay_finish hp hf] at ho
                simpa only [outcome, hf] using ho
              · simp [outcome_stay_stay hp hst] at ho
          | _ => simp [next, hp] at hm

/-- **A run that leaves the loop never repeats itself.** `key` is the part of the state that is
compared; a pass that keeps the pointer and settles has to change it. -/
theorem config_ne_of_lt (hs : Settles sc) (key : σ → τ)
    (hkey : ∀ s p c s', sc s p c = .stay s' → sc s' p c = .finish s' → key s' ≠ key s)
    {w : List α} {s : σ} {p : Option α} (hrun : outcome sc w s p ≠ .running) {i j : ℕ} (hij : i < j)
    {a b : σ × Option α × List α} (ha : config sc i (s, p, w) = some a)
    (hb : config sc j (s, p, w) = some b) : (key a.1, a.2.2) ≠ (key b.1, b.2.2) := by
  induction w generalizing s p i j with
  | nil =>
      -- the loop is left at once, so only pass 0 has a configuration
      obtain ⟨j, rfl⟩ : ∃ m, j = m + 1 := ⟨j - 1, by omega⟩
      simp [config, next] at hb
  | cons c w ih =>
      obtain ⟨j, rfl⟩ : ∃ m, j = m + 1 := ⟨j - 1, by omega⟩
      cases hp : sc s p c with
      | advance s' =>
          simp only [outcome, hp] at hrun
          simp only [config, next, hp, Option.bind_some] at hb
          cases i with
          | zero =>
              -- the byte consumed now is gone from every later configuration
              obtain rfl : (s, p, c :: w) = a := by simpa [config] using ha
              have hle := config_left_le hb
              simp only [ne_eq, Prod.mk.injEq, not_and]
              intro _ hw
              simp only [← hw, List.length_cons] at hle
              omega
          | succ i =>
              simp only [config, next, hp, Option.bind_some] at ha
              exact ih hrun (by omega) ha hb
      | stay s' =>
          simp only [outcome, hp] at hrun
          rcases hs hp with hf | hst
          · -- one pass further the loop is left, so the two configurations are passes 0 and 1
            simp only [config, next, hp, Option.bind_some] at hb
            cases j with
            | zero =>
                obtain rfl : i = 0 := by omega
                obtain rfl : (s, p, c :: w) = a := by simpa [config] using ha
                obtain rfl : (s', p, c :: w) = b := by simpa [config] using hb
                simp only [ne_eq, Prod.mk.injEq, and_true]
                exact fun h => hkey s p c s' hp hf h.symm
            | succ j => simp [config, next, hf] at hb
          · simp [hst] at hrun
      | _ => simp [config, next, hp] at hb

end Blueth.Scan
