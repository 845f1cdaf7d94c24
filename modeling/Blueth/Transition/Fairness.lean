/-
# Blueth.Transition.Fairness — infinite executions, weak fairness, and progress by a rank.

A safety statement speaks of reachable states; "this is eventually done" speaks of whole executions, and
holds only of those in which whoever can act does act in the end. `Execution` is an infinite sequence of
states in which a moment may also pass with no step at all, so that an execution may stop anywhere.
`WeaklyFair owner` rules out that it stops too early: the labels are grouped by their owner (a thread, a
caller), and an owner that stays able to act from some moment on does act. Nothing is required of the
labels without an owner: these are the environment's.

`Execution.eventually_of_rank` is the rule for these. A natural number never grows while the goal is not met, and
somebody is always helpful: able to act, and helpful until the rank falls. Where the same owner helps throughout
there is nothing to count (`eventually_of_own_step`), and where some steps cease to come the rule is for what is
left of the execution from then on (`Execution.since`). `Inevitable` is for the happier case in which every step
counts, so that no fairness is needed.
-/
import Blueth.Transition.System
import Mathlib.Data.Nat.Init

set_option autoImplicit false

namespace Blueth.Transition

variable {σ α ι : Type*}

namespace System

/-- **An execution.** `label n = none` is a moment in which nothing moves. -/
structure Execution (S : System σ α) where
  state : ℕ → σ
  label : ℕ → Option α
  start : S.init (state 0)
  idle : ∀ n, label n = none → state (n + 1) = state n
  moves : ∀ n a, label n = some a → S.next (state n) a (state (n + 1))

/-- Some step of `c` is possible. -/
def Enabled (S : System σ α) (owner : α → Option ι) (c : ι) (s : σ) : Prop :=
  ∃ a t, owner a = some c ∧ S.next s a t

namespace Execution

variable {S : System σ α}

/-- **Weak fairness.** Who is able to act at every moment from `n` on acts at one of them. -/
def WeaklyFair (e : S.Execution) (owner : α → Option ι) : Prop :=
  ∀ c n, (∀ m, n ≤ m → S.Enabled owner c (e.state m)) →
    ∃ m a, n ≤ m ∧ e.label m = some a ∧ owner a = some c

theorem succ_cases (e : S.Execution) (n : ℕ) :
    (e.label n = none ∧ e.state (n + 1) = e.state n) ∨
      ∃ a, e.label n = some a ∧ S.next (e.state n) a (e.state (n + 1)) := by
  cases h : e.label n with
  | none => exact .inl ⟨rfl, e.idle n h⟩
  | some a => exact .inr ⟨a, rfl, e.moves n a h⟩

theorem reachable (e : S.Execution) (n : ℕ) : S.Reachable (e.state n) := by
  induction n with
  | zero => exact reachable_init e.start
  | succ n ih =>
    rcases e.succ_cases n with ⟨-, h⟩ | ⟨a, -, h⟩
    · rw [h]
      exact ih
    · exact ih.step h

/-- **Progress by a rank.** As long as `P` holds and `Q` does not, somebody is helpful; a helpful owner is
able to act, stays helpful while the rank stays the same, and lowers the rank by acting. Then `P` leads
to `Q` in every weakly fair execution. -/
theorem eventually_of_rank (e : S.Execution) {owner : α → Option ι} (hfair : e.WeaklyFair owner)
    {P Q : σ → Prop} (rank : σ → ℕ) (helps : ι → σ → Prop)
    (hhelp : ∀ s, S.Reachable s → P s → ∃ c, helps c s)
    (henabled : ∀ s c, S.Reachable s → P s → helps c s → S.Enabled owner c s)
    (hstep : ∀ s a t, S.Reachable s → P s → S.next s a t →
      Q t ∨ P t ∧ (rank t < rank s ∨
        rank t = rank s ∧ ∀ c, helps c s → owner a ≠ some c ∧ helps c t))
    {n : ℕ} (hn : P (e.state n)) : ∃ m, n ≤ m ∧ Q (e.state m) := by
  induction hr : rank (e.state n) using Nat.strong_induction_on generalizing n with
  | _ r ih =>
    by_contra hnever
    obtain ⟨c, hc⟩ := hhelp _ (e.reachable n) hn
    -- otherwise the rank never falls either, since a lower one would already lead to the goal
    have hlow : ∀ m, n ≤ m → P (e.state m) → ¬ rank (e.state m) < r := by
      intro m hnm hm hlt
      obtain ⟨k, hmk, hk⟩ := ih _ hlt hm rfl
      exact hnever ⟨k, Nat.le_trans hnm hmk, hk⟩
    have hkeep : ∀ m a, n ≤ m → P (e.state m) ∧ rank (e.state m) = r ∧ helps c (e.state m) →
        S.next (e.state m) a (e.state (m + 1)) →
        owner a ≠ some c ∧ P (e.state (m + 1)) ∧ rank (e.state (m + 1)) = r ∧
          helps c (e.state (m + 1)) := by
      intro m a hnm ⟨hP, hrank, hhelps⟩ hnext
      rcases hstep _ _ _ (e.reachable m) hP hnext with hQ | ⟨hP', hlt | ⟨heq, hall⟩⟩
      · exact absurd ⟨m + 1, Nat.le_succ_of_le hnm, hQ⟩ hnever
      · rw [hrank] at hlt
        exact absurd hlt (hlow _ (Nat.le_succ_of_le hnm) hP')
      · exact ⟨(hall c hhelps).1, hP', heq.trans hrank, (hall c hhelps).2⟩
    have hforever : ∀ m, n ≤ m → P (e.state m) ∧ rank (e.state m) = r ∧ helps c (e.state m) := by
      intro m hnm
      induction m, hnm using Nat.le_induction with
      | base => exact ⟨hn, hr, hc⟩
      | succ m hnm ihm =>
        rcases e.succ_cases m with ⟨-, h⟩ | ⟨a, -, h⟩
        · rw [h]
          exact ihm
        · exact (hkeep m a hnm ihm h).2
    -- so `c` is able to act for ever, and its step is the one that cannot be
    obtain ⟨m, a, hnm, hlabel, howner⟩ := hfair c n fun m hnm =>
      henabled _ c (e.reachable m) (hforever m hnm).1 (hforever m hnm).2.2
    exact (hkeep m a hnm (hforever m hnm) (e.moves m a hlabel)).1 howner

/-- **Progress by one owner.** While `P` holds `c` is able to act, and whatever happens keeps `P` or meets the
goal, which `c`'s own steps do. -/
theorem eventually_of_own_step (e : S.Execution) {owner : α → Option ι} (hfair : e.WeaklyFair owner) (c : ι)
    {P Q : σ → Prop} (henabled : ∀ s, S.Reachable s → P s → S.Enabled owner c s)
    (hstep : ∀ s a t, S.Reachable s → P s → S.next s a t → Q t ∨ P t ∧ owner a ≠ some c)
    {n : ℕ} (hn : P (e.state n)) : ∃ m, n ≤ m ∧ Q (e.state m) := by
  apply e.eventually_of_rank hfair (fun _ => 0) (fun d _ => d = c) (fun _ _ _ => ⟨c, rfl⟩) _ _ hn
  · rintro s d hs hP rfl
    exact henabled s hs hP
  · intro s a t hs hP hnext
    rcases hstep s a t hs hP hnext with hQ | ⟨hP', howner⟩
    · exact .inl hQ
    · refine .inr ⟨hP', .inr ⟨rfl, ?_⟩⟩
      rintro d rfl
      exact ⟨howner, rfl⟩

end Execution

/-! ## Steps that cease to come -/

/-- What is left of the system when only steps that meet `C` come any more. -/
def since (S : System σ α) (C : α → Prop) : System σ α where
  init := S.Reachable
  next s a t := C a ∧ S.next s a t

theorem Reachable.of_since {S : System σ α} {C : α → Prop} {s : σ} (h : (S.since C).Reachable s) :
    S.Reachable s := by
  apply h.invariant
  · exact fun _ hs => hs
  · exact fun _ _ _ _ hs hn => hs.step hn.2

namespace Execution

variable {S : System σ α} {C : α → Prop} {N : ℕ}

/-- What is left of an execution from the moment `N` on. -/
def since (e : S.Execution) (hC : ∀ n a, N ≤ n → e.label n = some a → C a) : (S.since C).Execution where
  state n := e.state (N + n)
  label n := e.label (N + n)
  start := e.reachable N
  idle n h := e.idle (N + n) h
  moves n a h := ⟨hC (N + n) a (Nat.le_add_right N n) h, e.moves (N + n) a h⟩

theorem WeaklyFair.since {e : S.Execution} {owner : α → Option ι} (h : e.WeaklyFair owner)
    (hC : ∀ n a, N ≤ n → e.label n = some a → C a) : (e.since hC).WeaklyFair owner := by
  intro c n henabled
  obtain ⟨m, a, hnm, hlabel, howner⟩ := h c (N + n) fun m hnm => by
    obtain ⟨a, t, howner, -, hnext⟩ := henabled (m - N) (by omega)
    have hm : N + (m - N) = m := by omega
    rw [show (e.since hC).state (m - N) = e.state m from congrArg e.state hm] at hnext
    exact ⟨a, t, howner, hnext⟩
  refine ⟨m - N, a, by omega, ?_, howner⟩
  show e.label (N + (m - N)) = some a
  rw [show N + (m - N) = m by omega]
  exact hlabel

end Execution

/-! ## Executions that stand still in the end -/

/-- A sequence of states that makes the steps `as` and then stands still in `t`. -/
structure Traces (S : System σ α) (state : ℕ → σ) (as : List α) (t : σ) : Prop where
  last : ∀ n, as.length ≤ n → state n = t
  next : ∀ n a, as[n]? = some a → S.next (state n) a (state (n + 1))

section Traces

variable {S : System σ α}

theorem Traces.cons {state : ℕ → σ} {s t : σ} {a : α} {as : List α} (h : S.next s a (state 0))
    (ht : S.Traces state as t) : S.Traces (fun n => n.casesOn s state) (a :: as) t := by
  refine ⟨?_, ?_⟩
  · intro n hn
    cases n with
    | zero => exact absurd hn (Nat.not_succ_le_zero _)
    | succ n => exact ht.last n (Nat.le_of_succ_le_succ hn)
  · intro n b hb
    cases n with
    | zero =>
        cases hb
        exact h
    | succ n => exact ht.next n b hb

theorem exists_traces {s u t : σ} {as bs : List α} (hr : S.Run s as u) (hb : S.Run u bs t) :
    ∃ state : ℕ → σ, state 0 = s ∧ state as.length = u ∧ S.Traces state (as ++ bs) t := by
  induction hr with
  | nil s =>
      induction hb with
      | nil s => exact ⟨fun _ => s, rfl, rfl, fun _ _ => rfl, fun n a h => by simp at h⟩
      | @cons s _ _ _ _ h _ ih =>
          obtain ⟨state, hzero, -, ht⟩ := ih
          exact ⟨fun n => n.casesOn s state, rfl, rfl, ht.cons (hzero ▸ h)⟩
  | @cons s _ _ _ _ h _ ih =>
      obtain ⟨state, hzero, hmiddle, ht⟩ := ih hb
      exact ⟨fun n => n.casesOn s state, rfl, hmiddle, ht.cons (hzero ▸ h)⟩

/-- **A run that is over.** Where a run ends in a state in which no owner can act, there is a fair execution
that makes the run, through any state `u` on its way, and then stands still. -/
theorem exists_execution_of_run {owner : α → Option ι} {s u t : σ} {as bs : List α} (hs : S.init s) (hr : S.Run s as u)
    (hb : S.Run u bs t) (hquiet : ∀ c, ¬ S.Enabled owner c t) :
    ∃ e : S.Execution, e.WeaklyFair owner ∧ e.state as.length = u ∧ ∀ n, e.label n = (as ++ bs)[n]? := by
  obtain ⟨state, hzero, hmiddle, ht⟩ := exists_traces hr hb
  refine ⟨⟨state, fun n => (as ++ bs)[n]?, hzero ▸ hs, ?_, ht.next⟩, ?_, hmiddle, fun _ => rfl⟩
  · intro n hn
    have hle := List.getElem?_eq_none_iff.mp hn
    rw [ht.last n hle, ht.last (n + 1) (Nat.le_succ_of_le hle)]
  · intro c n henabled
    have hlate : S.Enabled owner c (state (max n (as ++ bs).length)) := henabled _ (Nat.le_max_left _ _)
    rw [ht.last _ (Nat.le_max_right _ _)] at hlate
    exact absurd hlate (hquiet c)

end Traces

/-! ## Without fairness -/

/-- **`P` is inevitable**: it holds, or something can move and whatever moves makes it so. A scheduler
has nothing to say in this, except that it may not stop while something can move. -/
inductive Inevitable (S : System σ α) (P : σ → Prop) : σ → Prop
  | now {s : σ} (h : P s) : Inevitable S P s
  | later {s : σ} (hcan : ∃ a t, S.next s a t) (hall : ∀ a t, S.next s a t → Inevitable S P t) :
      Inevitable S P s

section Inevitable

variable {S : System σ α} {P I : σ → Prop} {s : σ}

/-- **The rule.** Something can move as long as `P` does not hold, and every step goes down in a well
founded order. -/
theorem inevitable_of_wellFounded {r : σ → σ → Prop} (hr : WellFounded r)
    (hcan : ∀ s, I s → ¬ P s → ∃ a t, S.next s a t)
    (hdown : ∀ s a t, I s → S.next s a t → I t ∧ r t s) (hs : I s) : S.Inevitable P s := by
  induction s using hr.induction with
  | _ s ih =>
    by_cases h : P s
    · exact .now h
    · exact .later (hcan s hs h) fun a t hn => ih t (hdown s a t hs hn).2 (hdown s a t hs hn).1

end Inevitable

end System

end Blueth.Transition
