/-
# Blueth.Scan.Machine — a pointer loop over a window, with ONE byte of look-behind.

The shape this module is about: a `while (p != end) switch (state) { … }` loop that reads the byte
under `p`, may also look at the byte just BEFORE `p`, and then either moves `p` by one, or keeps `p`
and changes the state, or leaves the loop (with or without swallowing the whole remainder).

A pointer into a buffer is represented by what can be seen through it: the byte before it (`none`
when the pointer is at the very start of the allocation) and the list of bytes up to `end`.
`loop` runs the passes with a fuel argument and is the model of the loop itself; `outcome` is the
closed form, by recursion on the bytes that are left, and `loop_eq_outcome` says they agree once the
fuel exceeds the window by three (`Settles` being the only assumption: a pass that keeps the pointer
either leaves the loop at the next pass or keeps the pointer for ever).

Nothing here mentions a particular parser: state, alphabet and passes are arbitrary.
-/
import Mathlib.Data.List.Basic
import Mathlib.Tactic.Common

set_option autoImplicit false

namespace Blueth.Scan

variable {σ τ α : Type*}

/-! ## Passes and the loop -/

/-- What ONE pass of the loop does with the byte under the pointer. -/
inductive Pass (σ α : Type*) where
  /-- consume the byte and go on in state `s` -/
  | advance (s : σ)
  /-- keep the pointer and go on in state `s` -/
  | stay (s : σ)
  /-- leave the loop in state `s`, the byte unread -/
  | finish (s : σ)
  /-- leave the loop, handing over every byte from the pointer to the end -/
  | takeRest (f : List α → σ)
  /-- the look-behind fell outside the allocation: the behaviour is undefined from here on -/
  | fault

/-- One pass, as a function of the state, the byte before the pointer and the byte under it. -/
abbrev Scanner (σ α : Type*) := σ → Option α → α → Pass σ α

/-- How far a run has got: still in the loop, out of it (with the bytes left unread), or stopped by
a read outside the allocation. -/
inductive Outcome (σ α : Type*) where
  | running
  | returned (s : σ) (left : List α)
  | fault
  deriving DecidableEq

/-- The loop, `fuel` passes of it. -/
def loop (sc : Scanner σ α) : ℕ → σ → Option α → List α → Outcome σ α
  | 0, _, _, _ => .running
  | _ + 1, s, _, [] => .returned s []
  | n + 1, s, p, c :: w =>
    match sc s p c with
    | .advance s' => loop sc n s' (some c) w
    | .stay s' => loop sc n s' p (c :: w)
    | .finish s' => .returned s' (c :: w)
    | .takeRest f => .returned (f (c :: w)) []
    | .fault => .fault

/-- The byte before the pointer after `w` has been consumed. -/
def behind (p : Option α) (w : List α) : Option α := w.getLast?.or p

@[simp] theorem behind_nil (p : Option α) : behind p [] = p := by simp [behind]

@[simp] theorem behind_cons (p : Option α) (c : α) (w : List α) :
    behind p (c :: w) = behind (some c) w := by
  cases w with
  | nil => simp [behind]
  | cons d w => simp [behind, List.getLast?_eq_some_getLast]

/-! ## The closed form of a run -/

/-- A pass that keeps the pointer settles matters: at the same byte the new state either leaves the
loop unchanged, or keeps the pointer again and for ever. -/
def Settles (sc : Scanner σ α) : Prop :=
  ∀ ⦃s p c s'⦄, sc s p c = .stay s' → sc s' p c = .finish s' ∨ sc s' p c = .stay s'

/-- The result of a run, by recursion on the bytes left. `running` means: never leaves the loop. -/
def outcome (sc : Scanner σ α) : List α → σ → Option α → Outcome σ α
  | [], s, _ => .returned s []
  | c :: w, s, p =>
    match sc s p c with
    | .advance s' => outcome sc w s' (some c)
    | .finish s' => .returned s' (c :: w)
    | .takeRest f => .returned (f (c :: w)) []
    | .fault => .fault
    | .stay s' =>
      match sc s' p c with
      | .finish s'' => .returned s'' (c :: w)
      | _ => .running

section Runs

variable {sc : Scanner σ α}

theorem outcome_stay_finish {s s' s'' : σ} {p : Option α} {c : α} (h : sc s p c = .stay s')
    (h' : sc s' p c = .finish s'') (w : List α) : outcome sc (c :: w) s p = .returned s'' (c :: w) := by
  simp only [outcome, h, h']

theorem outcome_stay_stay {s s' s'' : σ} {p : Option α} {c : α} (h : sc s p c = .stay s')
    (h' : sc s' p c = .stay s'') (w : List α) : outcome sc (c :: w) s p = .running := by
  simp only [outcome, h, h']

/-- A state that keeps the pointer and itself never leaves the loop. -/
theorem loop_stuck {s : σ} {p : Option α} {c : α} (h : sc s p c = .stay s) (w : List α) (n : ℕ) :
    loop sc n s p (c :: w) = .running := by
  induction n with
  | zero => rfl
  | succ n ih => simp only [loop, h, ih]

/-- More fuel does not change a result that has been seen. -/
theorem loop_mono {n m : ℕ} (hnm : n ≤ m) {s : σ} {p : Option α} {w : List α}
    (h : loop sc n s p w ≠ .running) : loop sc m s p w = loop sc n s p w := by
  induction n generalizing m s p w with
  | zero => exact absurd rfl h
  | succ n ih =>
      obtain ⟨m, rfl⟩ : ∃ k, m = k + 1 := ⟨m - 1, by omega⟩
      cases w with
      | nil => rfl
      | cons c w =>
          cases hp : sc s p c with
          | advance s' =>
              simp only [loop, hp] at h ⊢
              exact ih (by omega) h
          | stay s' =>
              simp only [loop, hp] at h ⊢
              exact ih (by omega) h
          | _ => simp only [loop, hp]

/-- Fuel only decides WHETHER the result is seen, never which result it is. -/
theorem loop_running_or (hs : Settles sc) (n : ℕ) (w : List α) (s : σ) (p : Option α) :
    loop sc n s p w = .running ∨ loop sc n s p w = outcome sc w s p := by
  induction n generalizing w s p with
  | zero => exact Or.inl rfl
  | succ n ih =>
    cases w with
    | nil => exact Or.inr rfl
    | cons c w =>
      cases hp : sc s p c with
      | advance s' =>
          simp only [loop, outcome, hp]
          exact ih w s' (some c)
      | finish s' => exact Or.inr (by simp only [loop, outcome, hp])
      | takeRest f => exact Or.inr (by simp only [loop, outcome, hp])
      | fault => exact Or.inr (by simp only [loop, outcome, hp])
      | stay s' =>
          simp only [loop, outcome, hp]
          rcases hs hp with hf | hst
          · cases n with
            | zero => exact Or.inl rfl
            | succ n => exact Or.inr (by simp only [loop, hf])
          · exact Or.inl (loop_stuck hst w n)

/-- With three passes more than there are bytes, the loop has shown its result. -/
theorem loop_eq_outcome (hs : Settles sc) {n : ℕ} {w : List α} (hn : w.length + 3 ≤ n)
    (s : σ) (p : Option α) : loop sc n s p w = outcome sc w s p := by
  induction w generalizing n s p with
  | nil =>
      obtain ⟨n, rfl⟩ : ∃ m, n = m + 1 := ⟨n - 1, by omega⟩
      rfl
  | cons c w ih =>
      simp only [List.length_cons] at hn
      obtain ⟨n, rfl⟩ : ∃ m, n = m + 1 + 1 := ⟨n - 2, by omega⟩
      cases hp : sc s p c with
      | advance s' =>
          simp only [loop, outcome, hp]
          exact ih (by omega) s' (some c)
      | finish s' => simp only [loop, outcome, hp]
      | takeRest f => simp only [loop, outcome, hp]
      | fault => simp only [loop, outcome, hp]
      | stay s' =>
          simp only [loop, outcome, hp]
          rcases hs hp with hf | hst
          · simp only [hf]
          · simp only [hst]
            exact loop_stuck hst w n

/-- Some amount of fuel shows the result `r` exactly when `r` is the closed form. -/
theorem exists_loop_iff (hs : Settles sc) {w : List α} {s : σ} {p : Option α} {r : Outcome σ α}
    (hr : r ≠ .running) : (∃ n, loop sc n s p w = r) ↔ outcome sc w s p = r := by
  constructor
  · rintro ⟨n, hn⟩
    rcases loop_running_or hs n w s p with h | h
    · exact absurd (hn.symm.trans h) hr
    · exact h.symm.trans hn
  · intro h
    exact ⟨w.length + 3, (loop_eq_outcome hs (Nat.le_refl _) s p).trans h⟩

end Runs

/-! ## What every pass keeps -/

/-- Every state the pass can lead to satisfies `I`. -/
def Pass.All (I : σ → Prop) : Pass σ α → Prop
  | .advance s => I s
  | .stay s => I s
  | .finish s => I s
  | .takeRest f => ∀ w, I (f w)
  | .fault => True

/-- No pass leads out of `I`. -/
def Keeps (sc : Scanner σ α) (I : σ → Prop) : Prop := ∀ s p c, I s → (sc s p c).All I

/-- What no pass leads out of, no run leads out of. -/
theorem outcome_keeps {sc : Scanner σ α} {I : σ → Prop} (hI : Keeps sc I) {w : List α} {s t : σ}
    {p : Option α} {left : List α} (hs : I s) (h : outcome sc w s p = .returned t left) : I t := by
  induction w generalizing s p with
  | nil =>
      rw [outcome, Outcome.returned.injEq] at h
      exact h.1 ▸ hs
  | cons c w ih =>
      have hpass := hI s p c hs
      cases hp : sc s p c with
      | advance s' =>
          rw [hp] at hpass
          simp only [outcome, hp] at h
          exact ih hpass h
      | finish s' =>
          rw [hp] at hpass
          simp only [outcome, hp, Outcome.returned.injEq] at h
          exact h.1 ▸ hpass
      | takeRest f =>
          rw [hp] at hpass
          simp only [outcome, hp, Outcome.returned.injEq] at h
          exact h.1 ▸ hpass (c :: w)
      | fault => simp [outcome, hp] at h
      | stay s' =>
          rw [hp] at hpass
          have hpass' := hI s' p c hpass
          cases hp' : sc s' p c with
          | finish s'' =>
              rw [outcome_stay_finish hp hp', Outcome.returned.injEq] at h
              rw [hp'] at hpass'
              exact h.1 ▸ hpass'
          | _ => simp [outcome, hp, hp'] at h

/-! ## The part of a run that consumes bytes one at a time -/

/-- Consume the WHOLE word by `advance` passes; `none` as soon as a pass does anything else. -/
def feed (sc : Scanner σ α) : σ → Option α → List α → Option σ
  | s, _, [] => some s
  | s, p, c :: w =>
    match sc s p c with
    | .advance s' => feed sc s' (some c) w
    | _ => none

section Feed

variable {sc : Scanner σ α}

@[simp] theorem feed_nil (s : σ) (p : Option α) : feed sc s p [] = some s := rfl

theorem feed_cons_of_advance {s s' : σ} {p : Option α} {c : α} (h : sc s p c = .advance s')
    (w : List α) : feed sc s p (c :: w) = feed sc s' (some c) w := by
  simp only [feed, h]

theorem feed_append (s : σ) (p : Option α) (u v : List α) :
    feed sc s p (u ++ v) = (feed sc s p u).bind fun t => feed sc t (behind p u) v := by
  induction u generalizing s p with
  | nil => simp
  | cons c u ih =>
      cases h : sc s p c with
      | advance s' => simp only [List.cons_append, feed, h, ih, behind_cons]
      | _ => simp only [List.cons_append, feed, h, Option.bind_none]

/-- Chaining two words: the second starts in the state the first ends in. -/
theorem feed_append_of_eq {s t : σ} {p : Option α} {u : List α} (h : feed sc s p u = some t)
    (v : List α) : feed sc s p (u ++ v) = feed sc t (behind p u) v := by
  rw [feed_append, h, Option.bind_some]

/-- **The loop rule.** Where every byte of a class `P` is consumed by the same update `g` (under an
invariant `I` that `g` keeps), a word of `P`-bytes folds `g` over the state. -/
theorem feed_all {P : α → Prop} {I : σ → Prop} {g : σ → α → σ}
    (hadv : ∀ s p c, I s → P c → sc s p c = .advance (g s c)) (hinv : ∀ s c, I s → I (g s c))
    {w : List α} (hw : ∀ c ∈ w, P c) {s : σ} (hI : I s) (p : Option α) :
    feed sc s p w = some (w.foldl g s) := by
  induction w generalizing s p with
  | nil => rfl
  | cons c w ih =>
      rw [feed_cons_of_advance (hadv s p c hI (hw c (by simp)))]
      exact ih (fun d hd => hw d (List.mem_cons_of_mem c hd)) (hinv s c hI) (some c)

/-- A word that is consumed whole is returned from, with nothing left. -/
theorem outcome_append_of_feed {s t : σ} {p : Option α} {u : List α} (h : feed sc s p u = some t)
    (v : List α) : outcome sc (u ++ v) s p = outcome sc v t (behind p u) := by
  induction u generalizing s p with
  | nil =>
      obtain rfl : s = t := by simpa using h
      simp
  | cons c u ih =>
      cases hp : sc s p c with
      | advance s' =>
          simp only [feed, hp] at h
          simp only [List.cons_append, outcome, hp, behind_cons]
          exact ih h
      | _ => simp only [feed, hp, reduceCtorEq] at h

theorem outcome_of_feed {s t : σ} {p : Option α} {u : List α} (h : feed sc s p u = some t) :
    outcome sc u s p = .returned t [] := by
  simpa [outcome] using outcome_append_of_feed h []

/-- Where a run stops consuming: either at the end of the window, or at the first byte whose pass
is not an `advance`. -/
theorem feed_split (sc : Scanner σ α) (w : List α) (s : σ) (p : Option α) :
    (∃ t, feed sc s p w = some t) ∨
      ∃ u c v t, w = u ++ c :: v ∧ feed sc s p u = some t ∧
        ∀ t', sc t (behind p u) c ≠ .advance t' := by
  induction w generalizing s p with
  | nil => exact Or.inl ⟨s, rfl⟩
  | cons c w ih =>
      cases hp : sc s p c with
      | advance s' =>
          rcases ih s' (some c) with ⟨t, ht⟩ | ⟨u, d, v, t, rfl, ht, hne⟩
          · exact Or.inl ⟨t, by simpa only [feed, hp] using ht⟩
          · refine Or.inr ⟨c :: u, d, v, t, rfl, by simpa only [feed, hp] using ht, ?_⟩
            simpa only [behind_cons] using hne
      | _ =>
          refine Or.inr ⟨[], c, w, s, rfl, rfl, ?_⟩
          simp only [behind_nil, hp, ne_eq, reduceCtorEq, not_false_eq_true, implies_true]

/-- **A set of states is entered through a door.** Where only a pass that consumes its byte can lead into
the set `A`, a run that starts outside and returns inside has consumed its way to a state outside, whose
next pass goes in. -/
theorem exists_entry {A : σ → Prop} (hfinish : ∀ s p c s', sc s p c = .finish s' → A s' → A s)
    (hstay : ∀ s p c s', sc s p c = .stay s' → A s' → A s)
    (hrest : ∀ s p c f, sc s p c = .takeRest f → A s) {w : List α} {s t : σ} {p : Option α}
    {left : List α} (ho : outcome sc w s p = .returned t left) (hs : ¬ A s) (ht : A t) :
    ∃ u c v r r', w = u ++ c :: v ∧ feed sc s p u = some r ∧ ¬ A r ∧
      sc r (behind p u) c = .advance r' ∧ A r' := by
  induction w generalizing s p with
  | nil =>
      rw [outcome, Outcome.returned.injEq] at ho
      exact absurd (ho.1 ▸ ht) hs
  | cons c w ih =>
      cases hp : sc s p c with
      | advance s' =>
          by_cases hs' : A s'
          · exact ⟨[], c, w, s, s', rfl, rfl, hs, by rw [behind_nil, hp], hs'⟩
          · simp only [outcome, hp] at ho
            obtain ⟨u, d, v, r, r', rfl, hu, hr, hd, hr'⟩ := ih ho hs'
            refine ⟨c :: u, d, v, r, r', rfl, ?_, hr, ?_, hr'⟩
            · rw [feed_cons_of_advance hp, hu]
            · rw [behind_cons, hd]
      | finish s' =>
          simp only [outcome, hp, Outcome.returned.injEq] at ho
          exact absurd (hfinish s p c s' hp (ho.1 ▸ ht)) hs
      | takeRest f => exact absurd (hrest s p c f hp) hs
      | fault => simp [outcome, hp] at ho
      | stay s' =>
          -- the state kept has to leave the loop at once
          cases hp' : sc s' p c with
          | finish s'' =>
              rw [outcome_stay_finish hp hp', Outcome.returned.injEq] at ho
              have hA := hfinish s' p c s'' hp' (ho.1 ▸ ht)
              exact absurd (hstay s p c s' hp hA) hs
          | _ => simp [outcome, hp, hp'] at ho

end Feed

end Blueth.Scan
