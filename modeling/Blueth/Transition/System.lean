/-
# Blueth.Transition.System — labelled transition systems, their runs, and what holds along them.

A `System` is a set of initial states and a labelled step relation. Nothing here is about a particular
program: a label is whatever an environment or a scheduler may choose at a step (the operation called,
the answer of the kernel, the thread that moves). What the rest of the development needs is

* `System.Run`, a run as the list of its labels, and `System.Reachable`;
* the invariant rule, in the form where a step may use that the state it starts in is reachable
  (`Reachable.invariant`), and its relative for a run from a given state (`Run.preserves`);
* `System.only C`, the same system with the steps that do not meet `C` taken away: "in every run whose
  steps all meet `C`" is a statement about the reachable states of `S.only C`;
* `Run.always_iff`, which says of a run whose steps cannot choose when `P` holds in EVERY state it goes
  through: exactly when all its steps meet `C`;
* `Run.foldl_spec`, the functional form of a forward simulation: each step of the system is matched by
  one step of a specification that is a FUNCTION of the label, so the specification of a whole run is a
  fold over its labels.
-/
import Mathlib.Data.List.Basic
import Mathlib.Tactic.Common

set_option autoImplicit false

namespace Blueth.Transition

variable {σ τ α : Type*}

/-- A labelled transition system. -/
structure System (σ α : Type*) where
  init : σ → Prop
  next : σ → α → σ → Prop

namespace System

/-! ## Runs -/

/-- The steps labelled `as`, one after the other, lead from one state to another. -/
inductive Run (S : System σ α) : σ → List α → σ → Prop
  | nil (s : σ) : Run S s [] s
  | cons {s t u : σ} {a : α} {as : List α} (h : S.next s a t) (hs : Run S t as u) : Run S s (a :: as) u

/-- A state some run from an initial state leads to. -/
def Reachable (S : System σ α) (t : σ) : Prop := ∃ s as, S.init s ∧ S.Run s as t

/-- **The steps that meet `C` only.** -/
def only (S : System σ α) (C : σ → α → Prop) : System σ α where
  init := S.init
  next s a t := C s a ∧ S.next s a t

variable {S : System σ α} {s t u : σ} {a : α} {as bs : List α}

theorem Run.single (h : S.next s a t) : S.Run s [a] t := .cons h (.nil t)

theorem Run.append (h₁ : S.Run s as t) (h₂ : S.Run t bs u) : S.Run s (as ++ bs) u := by
  induction h₁ with
  | nil s => exact h₂
  | cons h _ ih => exact .cons h (ih h₂)

theorem Run.of_only {C : σ → α → Prop} (h : (S.only C).Run s as t) : S.Run s as t := by
  induction h with
  | nil s => exact .nil s
  | cons h _ ih => exact .cons h.2 ih

/-- A condition on the labels alone can be read off the list of them. -/
theorem Run.only_iff {C : α → Prop} :
    (S.only fun _ a => C a).Run s as t ↔ S.Run s as t ∧ ∀ a ∈ as, C a := by
  constructor
  · intro h
    induction h with
    | nil s => exact ⟨.nil s, fun a ha => absurd ha List.not_mem_nil⟩
    | cons h _ ih => exact ⟨.cons h.2 ih.1, List.forall_mem_cons.mpr ⟨h.1, ih.2⟩⟩
  · rintro ⟨hr, hall⟩
    induction hr with
    | nil s => exact .nil s
    | cons h _ ih =>
        obtain ⟨ha, hall⟩ := List.forall_mem_cons.mp hall
        exact .cons ⟨ha, h⟩ (ih hall)

theorem reachable_init (h : S.init s) : S.Reachable s := ⟨s, [], h, .nil s⟩

theorem Reachable.run (h : S.Reachable s) (hr : S.Run s as t) : S.Reachable t := by
  obtain ⟨s₀, bs, h₀, hb⟩ := h
  exact ⟨s₀, bs ++ as, h₀, hb.append hr⟩

theorem Reachable.step (h : S.Reachable s) (hn : S.next s a t) : S.Reachable t := h.run (.single hn)

theorem Reachable.of_only {C : σ → α → Prop} (h : (S.only C).Reachable s) : S.Reachable s := by
  obtain ⟨s₀, as, h₀, hr⟩ := h
  exact ⟨s₀, as, h₀, hr.of_only⟩

/-! ## Invariants -/

/-- What each step preserves, a run preserves. -/
theorem Run.preserves {I : σ → Prop} (hstep : ∀ s a t, I s → S.next s a t → I t)
    (hr : S.Run s as t) (hs : I s) : I t := by
  induction hr with
  | nil s => exact hs
  | cons h _ ih => exact ih (hstep _ _ _ hs h)

/-- **The invariant rule.** A step may use everything already known of reachable states. -/
theorem Reachable.invariant {I : σ → Prop} (hinit : ∀ s, S.init s → I s)
    (hstep : ∀ s a t, S.Reachable s → I s → S.next s a t → I t) (h : S.Reachable s) : I s := by
  obtain ⟨s₀, as, h₀, hr⟩ := h
  have key : S.Reachable s ∧ I s := by
    apply Run.preserves (I := fun s => S.Reachable s ∧ I s) _ hr ⟨reachable_init h₀, hinit _ h₀⟩
    intro s a t hs hn
    exact ⟨hs.1.step hn, hstep s a t hs.1 hs.2 hn⟩
  exact key.2

/-! ## What holds all along a run -/

/-- **When `P` holds all along.** Let no label leave a choice, and let `I` imply `P` and be kept by every
step that meets `C`, where a step that does not meet `C` leads out of `P`. Then `P` holds in every state a
run goes through exactly when all its steps meet `C`. -/
theorem Run.always_iff {I P : σ → Prop} {C : σ → α → Prop}
    (hfun : ∀ s a t u, S.next s a t → S.next s a u → t = u)
    (hkeep : ∀ s a t, I s → S.next s a t → C s a → I t)
    (hleave : ∀ s a t, I s → S.next s a t → P t → C s a) (hIP : ∀ s, I s → P s)
    (hr : S.Run s as t) (hs : I s) :
    (∀ bs cs u, as = bs ++ cs → S.Run s bs u → P u) ↔ (S.only C).Run s as t := by
  induction hr with
  | nil s =>
      constructor
      · intro _
        exact .nil s
      · intro _ bs cs u has hu
        obtain ⟨rfl, -⟩ := List.append_eq_nil_iff.mp has.symm
        cases hu
        exact hIP s hs
  | @cons s r t a as h hr ih =>
      constructor
      · intro hall
        have hC : C s a := hleave s a r hs h (hall [a] as r rfl (.single h))
        have hstep : (S.only C).next s a r := ⟨hC, h⟩
        refine .cons hstep ?_
        apply (ih (hkeep s a r hs h hC)).mp
        intro bs cs u has hu
        exact hall (a :: bs) cs u (by rw [has, List.cons_append]) (.cons h hu)
      · intro honly bs cs u has hu
        cases honly with
        | cons h' hrest =>
            obtain rfl := hfun s a _ _ h h'.2
            cases hu with
            | nil => exact hIP s hs
            | cons hb hu =>
                rw [List.cons_append, List.cons.injEq] at has
                obtain ⟨rfl, has⟩ := has
                obtain rfl := hfun s a _ _ h hb
                exact (ih (hkeep s a r hs h h'.1)).mpr hrest _ cs u has hu

/-! ## Runs against a functional specification -/

/-- **Forward simulation by a function of the label.** If every step keeps `R` between the state and
the specification's state advanced by `f`, a run keeps it against the fold of `f` over its labels. -/
theorem Run.foldl_spec {R : σ → τ → Prop} {f : τ → α → τ}
    (hstep : ∀ s a t q, R s q → S.next s a t → R t (f q a)) (hr : S.Run s as t) {q : τ} (hq : R s q) :
    R t (as.foldl f q) := by
  induction hr generalizing q with
  | nil s => exact hq
  | cons h _ ih => exact ih (hstep _ _ _ q hq h)

end System

end Blueth.Transition
