/-
# Blueth.Transition.Simulation — the runs of one system carried over to another.

A forward simulation in the form this development needs: a step of the concrete system is answered by at
most one step of the abstract one, and WHICH one can be read off the label. The labels of a whole run are
then the labels of a run of the abstract system, less those that nothing answers (`Simulation.run`). Where
the labels contain what a client sees, the abstract run shows the client the same.

The abstract system may be many copies of one system that have nothing to do with each other (`copies`). A
simulation by copies takes a run apart: the steps that are answered by one copy are a run of that copy.
-/
import Blueth.Transition.System
import Mathlib.Logic.Function.Basic

set_option autoImplicit false

namespace Blueth.Transition.System

variable {σ τ α β : Type*} {S : System σ α} {T : System τ β} {answer : α → Option β} {R : σ → τ → Prop}

/-- **`R` is a forward simulation** of `S` by `T`: a step labelled `a` is answered by the step labelled
`answer a`, or by none. -/
structure Simulation (S : System σ α) (T : System τ β) (answer : α → Option β) (R : σ → τ → Prop) :
    Prop where
  init : ∀ s, S.init s → ∃ t, T.init t ∧ R s t
  step : ∀ s a s' t, R s t → S.next s a s' → ∃ t', T.Run t (answer a).toList t' ∧ R s' t'

namespace Simulation

variable {s s' : σ} {t : τ} {as : List α}

/-- A run is answered by a run. -/
theorem run (h : Simulation S T answer R) (hr : S.Run s as s') (hst : R s t) :
    ∃ t', T.Run t (as.filterMap answer) t' ∧ R s' t' := by
  induction hr generalizing t with
  | nil s => exact ⟨t, .nil t, hst⟩
  | @cons s r s' a as hn _ ih =>
      obtain ⟨u, hu, hru⟩ := h.step s a r t hst hn
      obtain ⟨t', ht', hst'⟩ := ih hru
      refine ⟨t', ?_, hst'⟩
      cases ha : answer a with
      | none =>
          rw [ha] at hu
          cases hu
          rwa [List.filterMap_cons_none ha]
      | some b =>
          rw [ha] at hu
          rw [List.filterMap_cons_some ha]
          exact hu.append ht'

/-- A run from an initial state is answered by a run from an initial state. -/
theorem run_init (h : Simulation S T answer R) (hs : S.init s) (hr : S.Run s as s') :
    ∃ t t', T.init t ∧ T.Run t (as.filterMap answer) t' ∧ R s' t' := by
  obtain ⟨t, ht, hst⟩ := h.init s hs
  obtain ⟨t', hrun, hst'⟩ := h.run hr hst
  exact ⟨t, t', ht, hrun, hst'⟩

/-- What holds of every reachable state of `T` holds, along `R`, of every reachable state of `S`. -/
theorem reachable (h : Simulation S T answer R) (hs : S.Reachable s) : ∃ t, T.Reachable t ∧ R s t := by
  obtain ⟨s₀, as, h₀, hr⟩ := hs
  obtain ⟨t₀, t, ht₀, hrun, hst⟩ := h.run_init h₀ hr
  exact ⟨t, ⟨t₀, _, ht₀, hrun⟩, hst⟩

end Simulation

/-! ## Copies that have nothing to do with each other -/

section Copies

variable {ι : Type*}

/-- Copies of one system side by side. One moves at a time, and only it. -/
def copies (ι : Type*) (S : System σ α) : System (ι → σ) (ι × α) where
  init f := ∀ i, S.init (f i)
  next f label f' := S.next (f label.1) label.2 (f' label.1) ∧ ∀ i, i ≠ label.1 → f' i = f i

variable [DecidableEq ι]

/-- The steps of the copy `i`. -/
def ofCopy (i : ι) (labels : List (ι × α)) : List α :=
  labels.filterMap fun label => if label.1 = i then some label.2 else none

variable {f f' : ι → σ} {labels : List (ι × α)}

theorem ofCopy_cons_self (i : ι) (a : α) (labels : List (ι × α)) :
    ofCopy i ((i, a) :: labels) = a :: ofCopy i labels :=
  List.filterMap_cons_some (if_pos rfl)

theorem ofCopy_cons_of_ne {i j : ι} (h : j ≠ i) (a : α) (labels : List (ι × α)) :
    ofCopy i ((j, a) :: labels) = ofCopy i labels :=
  List.filterMap_cons_none (if_neg h)

/-- **Each copy goes its own way**: its steps are a run of it. -/
theorem copies_run (hr : (copies ι S).Run f labels f') (i : ι) : S.Run (f i) (ofCopy i labels) (f' i) := by
  induction hr with
  | nil f => exact .nil (f i)
  | @cons f g f' label labels hn _ ih =>
      obtain ⟨j, a⟩ := label
      obtain ⟨hmoved, hstayed⟩ := hn
      by_cases hj : j = i
      · subst hj
        rw [ofCopy_cons_self]
        exact .cons hmoved ih
      · rw [ofCopy_cons_of_ne hj, ← hstayed i (Ne.symm hj)]
        exact ih

/-- **A simulation by copies takes a run apart.** -/
theorem Simulation.run_copies {answer : β → Option (ι × α)} {T : System τ β} {R : τ → (ι → σ) → Prop}
    (h : Simulation T (copies ι S) answer R) {t t' : τ} {bs : List β} (ht : T.init t) (hr : T.Run t bs t') :
    ∃ f', R t' f' ∧ ∀ i, ∃ s, S.init s ∧ S.Run s (ofCopy i (bs.filterMap answer)) (f' i) := by
  obtain ⟨f, f', hf, hrun, hR⟩ := h.run_init ht hr
  exact ⟨f', hR, fun i => ⟨f i, hf i, copies_run hrun i⟩⟩

end Copies

end Blueth.Transition.System
