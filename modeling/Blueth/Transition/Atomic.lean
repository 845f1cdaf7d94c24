/-
# Blueth.Transition.Atomic — objects whose operations happen at one instant, and linearizability.

`atomic spec t₀` is the object a client would like to have: between the call of an operation and its answer
there is ONE step in which the whole operation happens, as `spec` says. A history, the calls and answers in
the order in which they are seen, is `Linearizable` when the atomic object can show it too.

An object behind a lock (`Guarded`) that implements `spec` under the lock shows nothing else
(`linearizable_of_implements`): the instant is the one at which the lock is given back. In that order the
operations form a sequential history (`Implements.sequential`), and where nobody is inside exclusively the
object is the one that history leads to.
-/
import Blueth.Transition.Guarded
import Blueth.Transition.Simulation

set_option autoImplicit false

namespace Blueth.Transition.Guarded

variable {ι ο σ τ ρ : Type*}

/-! ## Atomic objects -/

/-- Where a thread stands towards an atomic object. -/
inductive AtomicPhase (ο ρ : Type*)
  | outside
  | pending (o : ο)
  | answered (answer : ρ)

structure AtomicState (ι ο τ ρ : Type*) where
  object : τ
  phase : ι → AtomicPhase ο ρ

inductive AtomicAct (ι ο ρ : Type*)
  | call (i : ι) (o : ο)
  | effect (i : ι) (o : ο) (answer : ρ)
  | answer (i : ι) (answer : ρ)

/-- What a client sees. -/
inductive Event (ι ο ρ : Type*)
  | call (i : ι) (o : ο)
  | answer (i : ι) (answer : ρ)
deriving DecidableEq, Repr

def AtomicAct.event : AtomicAct ι ο ρ → Option (Event ι ο ρ)
  | call i o => some (.call i o)
  | effect _ _ _ => none
  | answer i r => some (.answer i r)

/-- An operation that has happened, and its answer. -/
def AtomicAct.completion : AtomicAct ι ο ρ → Option (ο × ρ)
  | effect _ o r => some (o, r)
  | _ => none

section Systems

variable [DecidableEq ι]

def AtomicState.move (s : AtomicState ι ο τ ρ) (i : ι) (p : AtomicPhase ο ρ) : AtomicState ι ο τ ρ :=
  { s with phase := Function.update s.phase i p }

/-- The steps of the atomic object. -/
inductive AtomicNext (spec : ο → τ → ρ × τ) (s : AtomicState ι ο τ ρ) :
    AtomicAct ι ο ρ → AtomicState ι ο τ ρ → Prop
  | call {i : ι} (o : ο) (h : s.phase i = .outside) : AtomicNext spec s (.call i o) (s.move i (.pending o))
  | effect {i : ι} {o : ο} (h : s.phase i = .pending o) :
      AtomicNext spec s (.effect i o (spec o s.object).1)
        { s.move i (.answered (spec o s.object).1) with object := (spec o s.object).2 }
  | answer {i : ι} {r : ρ} (h : s.phase i = .answered r) :
      AtomicNext spec s (.answer i r) (s.move i .outside)

/-- The atomic object. -/
def atomic (spec : ο → τ → ρ × τ) (t₀ : τ) : System (AtomicState ι ο τ ρ) (AtomicAct ι ο ρ) where
  init s := s.object = t₀ ∧ ∀ i, s.phase i = .outside
  next := AtomicNext spec

/-- The object with one client, who waits for every answer. -/
def sequential (spec : ο → τ → ρ × τ) (t₀ : τ) : System τ (ο × ρ) where
  init t := t = t₀
  next t a t' := spec a.1 t = (a.2, t')

/-- **A history the atomic object can show.** -/
def Linearizable (spec : ο → τ → ρ × τ) (t₀ : τ) (history : List (Event ι ο ρ)) : Prop :=
  ∃ s as t, (atomic spec t₀).init s ∧ (atomic spec t₀).Run s as t ∧
    as.filterMap AtomicAct.event = history

/-- The instants of an atomic run, in their order, are a sequential history. -/
theorem atomic_sequential (spec : ο → τ → ρ × τ) (t₀ : τ) :
    System.Simulation (atomic (ι := ι) spec t₀) (sequential spec t₀) AtomicAct.completion
      fun s t => s.object = t where
  init s hs := ⟨t₀, rfl, hs.1⟩
  step s a s' t hst hn := by
    cases hst
    cases hn with
    | call o h => exact ⟨_, .nil _, rfl⟩
    | effect h => exact ⟨_, .single rfl, rfl⟩
    | answer h => exact ⟨_, .nil _, rfl⟩

/-! What a history of one call says about its answer. -/

section OneCall

variable {spec : ο → τ → ρ × τ} {t₀ : τ} {s t : AtomicState ι ο τ ρ} {as : List (AtomicAct ι ο ρ)}
  {i : ι} {o : ο} {r r' : ρ}

theorem move_phase_eq {j : ι} {p q : AtomicPhase ο ρ} (hothers : ∀ j, j ≠ i → s.phase j = .outside)
    (hj : (s.move i p).phase j = q) (hq : q ≠ .outside) : j = i ∧ p = q := by
  by_cases hji : j = i
  · subst hji
    refine ⟨rfl, ?_⟩
    rw [← hj]
    exact (Function.update_self j p s.phase).symm
  · refine absurd ?_ hq
    rw [← hj, ← hothers j hji]
    exact Function.update_of_ne hji p s.phase

/-- The operation has happened: what is answered next is what it gave. -/
theorem answer_of_answered {object : τ} (hothers : ∀ j, j ≠ i → s.phase j = .outside)
    (hr : (atomic spec t₀).Run { s.move i (.answered r) with object := object } as t)
    (has : as.filterMap AtomicAct.event = [.answer i r']) : r = r' := by
  cases hr with
  | nil => cases has
  | cons hn hr =>
      cases hn with
      | call o h => cases has
      | effect h => cases (move_phase_eq hothers h (by simp)).2
      | answer h =>
          cases (List.cons.inj has).1
          cases (move_phase_eq hothers h (by simp)).2
          rfl

/-- The call is pending: before its answer it happens, and nothing else does. -/
theorem answer_of_pending (hothers : ∀ j, j ≠ i → s.phase j = .outside) (hs : s.object = t₀)
    (hr : (atomic spec t₀).Run (s.move i (.pending o)) as t)
    (has : as.filterMap AtomicAct.event = [.answer i r]) : (spec o t₀).1 = r := by
  cases hr with
  | nil => cases has
  | cons hn hr =>
      cases hn with
      | call o h => cases has
      | effect h =>
          obtain ⟨hj, hp⟩ := move_phase_eq hothers h (by simp)
          subst hj
          cases hp
          rw [← hs]
          refine answer_of_answered (fun j hj => ?_) hr has
          exact (Function.update_of_ne hj _ s.phase).trans (hothers j hj)
      | answer h => cases (move_phase_eq hothers h (by simp)).2

/-- **One call and its answer.** -/
theorem answer_of_linearizable (h : Linearizable spec t₀ [.call i o, .answer i r]) : (spec o t₀).1 = r := by
  obtain ⟨s, as, t, ⟨hs, houtside⟩, hr, has⟩ := h
  cases hr with
  | nil => cases has
  | cons hn hr =>
      cases hn with
      | call o' h =>
          cases (List.cons.inj has).1
          exact answer_of_pending (fun j _ => houtside j) hs hr (List.cons.inj has).2
      | effect h => cases (houtside _).symm.trans h
      | answer h => cases (houtside _).symm.trans h

end OneCall

end Systems

/-! ## The guarded object against the atomic one -/

/-- What a step under the lock is for the atomic object. -/
def Act.answered : Act ι ο ρ → Option (AtomicAct ι ο ρ)
  | call i o => some (.call i o)
  | lock _ => none
  | access _ => none
  | unlock i o r => some (.effect i o r)
  | answer i r => some (.answer i r)

def Act.event (a : Act ι ο ρ) : Option (Event ι ο ρ) := a.answered.bind AtomicAct.event

def Act.completion (a : Act ι ο ρ) : Option (ο × ρ) := a.answered.bind AtomicAct.completion

/-- Where the atomic object has its threads. -/
def Phase.outline : Phase ο σ ρ → AtomicPhase ο ρ
  | outside => .outside
  | waiting o => .pending o
  | inside o _ => .pending o
  | leaving r => .answered r

/-- **The operations implement `spec`**, an object `s` standing for `t` where `Repr s t`; each of them run
with nobody in its way. -/
def Implements (I : Interface ο σ ρ) (spec : ο → τ → ρ × τ) (Repr : σ → τ → Prop) : Prop :=
  ∀ o s t, Repr s t → ((I.body o).run s).1 = (spec o t).1 ∧ Repr ((I.body o).run s).2 (spec o t).2

section Refinement

variable [DecidableEq ι] {I : Interface ο σ ρ} {spec : ο → τ → ρ × τ} {Repr : σ → τ → Prop}
  {s s' : State ι ο σ ρ} {t : AtomicState ι ο τ ρ} {t₀ : τ} {i : ι}

/-- **How a guarded object and an atomic one correspond.** `base` is the object as it was left last: it
stands for the atomic object, and every thread inside is on its way from `base` to what the whole operation
would make of it. -/
structure Corresponds (I : Interface ο σ ρ) (Repr : σ → τ → Prop) (s : State ι ο σ ρ)
    (t : AtomicState ι ο τ ρ) : Prop where
  coherent : Coherent I s
  phase : ∀ i, t.phase i = (s.phase i).outline
  base : ∃ base, Repr base t.object ∧ ((∀ i, ¬ s.mutex.HeldBy .exclusive i) → s.object = base) ∧
    ∀ i o rest, s.phase i = .inside o rest → rest.run s.object = (I.body o).run base

theorem outline_move (ht : ∀ i, t.phase i = (s.phase i).outline) {p : Phase ο σ ρ} {q : AtomicPhase ο ρ}
    (hp : q = p.outline) (j : ι) : (t.move i q).phase j = ((s.move i p).phase j).outline := by
  by_cases hj : j = i
  · subst hj
    rw [move_phase_self, hp]
    exact Function.update_self ..
  · rw [move_phase_ne hj, ← ht j]
    exact Function.update_of_ne hj ..

/-- A step the atomic object does not see leaves its threads where they are. -/
theorem outline_keep (ht : ∀ i, t.phase i = (s.phase i).outline) {p : Phase ο σ ρ}
    (hp : (s.phase i).outline = p.outline) (j : ι) : t.phase j = ((s.move i p).phase j).outline := by
  by_cases hj : j = i
  · subst hj
    rw [move_phase_self, ht, hp]
  · rw [move_phase_ne hj, ht]

/-- A thread that does not go inside adds nothing to be on the way. -/
theorem base_move {base : σ}
    (hway : ∀ i o rest, s.phase i = .inside o rest → rest.run s.object = (I.body o).run base)
    {p : Phase ο σ ρ} (hp : ∀ o rest, p ≠ .inside o rest) (j : ι) (o : ο) (rest : Handler σ ρ)
    (hj : (s.move i p).phase j = .inside o rest) : rest.run s.object = (I.body o).run base := by
  by_cases hji : j = i
  · subst hji
    exact absurd (move_phase_self.symm.trans hj) (hp o rest)
  · exact hway j o rest ((move_phase_ne hji).symm.trans hj)

theorem corresponds_call (h : Corresponds I Repr s t) (o : ο) (hi : s.phase i = .outside) :
    Corresponds I Repr (s.move i (.waiting o)) (t.move i (.pending o)) where
  coherent := h.coherent.next (.call o hi)
  phase := outline_move h.phase rfl
  base := by
    obtain ⟨base, hrepr, hfree, hway⟩ := h.base
    exact ⟨base, hrepr, hfree, base_move hway fun o rest h => by cases h⟩

theorem corresponds_answer (h : Corresponds I Repr s t) {r : ρ} (hi : s.phase i = .leaving r) :
    Corresponds I Repr (s.move i .outside) (t.move i .outside) where
  coherent := h.coherent.next (.answer hi)
  phase := outline_move h.phase rfl
  base := by
    obtain ⟨base, hrepr, hfree, hway⟩ := h.base
    exact ⟨base, hrepr, hfree, base_move hway fun o rest h => by cases h⟩

/-- Who takes the lock finds the object as it was left. -/
theorem corresponds_lock (h : Corresponds I Repr s t) {o : ο} (hi : s.phase i = .waiting o)
    {m : SharedMutex ι} (hm : s.mutex.acquire i (I.mode o) = some m) :
    Corresponds I Repr { s.move i (.inside o (I.body o)) with mutex := m } t where
  coherent := h.coherent.next (.lock hi hm)
  phase := outline_keep h.phase (by rw [hi]; rfl)
  base := by
    obtain ⟨base, hrepr, hfree, hway⟩ := h.base
    have hbase : s.object = base := hfree (SharedMutex.heldBy_acquire hm).2.1
    refine ⟨base, hrepr, fun _ => hbase, fun j o' rest hj => ?_⟩
    by_cases hji : j = i
    · subst hji
      cases move_phase_self.symm.trans hj
      show (I.body o).run s.object = (I.body o).run base
      rw [hbase]
    · exact hway j o' rest ((move_phase_ne hji).symm.trans hj)

theorem corresponds_look (h : Corresponds I Repr s t) {o : ο} {next : σ → Handler σ ρ}
    (hi : s.phase i = .inside o (.look next)) :
    Corresponds I Repr (s.move i (.inside o (next s.object))) t where
  coherent := h.coherent.next (.look hi)
  phase := outline_keep h.phase (by rw [hi]; rfl)
  base := by
    obtain ⟨base, hrepr, hfree, hway⟩ := h.base
    refine ⟨base, hrepr, hfree, fun j o' rest hj => ?_⟩
    by_cases hji : j = i
    · subst hji
      cases move_phase_self.symm.trans hj
      exact hway j o (.look next) hi
    · exact hway j o' rest ((move_phase_ne hji).symm.trans hj)

/-- Only who is alone inside stores. -/
theorem corresponds_store (h : Corresponds I Repr s t) {o : ο} {change : σ → σ} {next : Handler σ ρ}
    (hi : s.phase i = .inside o (.store change next)) :
    Corresponds I Repr { s.move i (.inside o next) with object := change s.object } t where
  coherent := h.coherent.next (.store hi)
  phase := outline_keep h.phase (by rw [hi]; rfl)
  base := by
    obtain ⟨base, hrepr, hfree, hway⟩ := h.base
    have hmode : I.mode o = .exclusive := by
      cases hmode : I.mode o with
      | exclusive => rfl
      | shared => exact (h.coherent.readsOnly i o _ hi hmode).elim
    have hheld : s.mutex.HeldBy .exclusive i := (h.coherent.held _ i).mpr ⟨o, _, hi, hmode⟩
    refine ⟨base, hrepr, fun hnone => absurd hheld (hnone i), fun j o' rest hj => ?_⟩
    by_cases hji : j = i
    · subst hji
      cases move_phase_self.symm.trans hj
      exact hway j o (.store change next) hi
    · exact absurd (h.coherent.alone hi hmode ((move_phase_ne hji).symm.trans hj)) hji

/-- **The instant**: the lock is given back, and the whole operation happens. -/
theorem corresponds_unlock (himpl : Implements I spec Repr) (h : Corresponds I Repr s t) {o : ο} {r : ρ}
    (hi : s.phase i = .inside o (.done r)) {m : SharedMutex ι}
    (hm : s.mutex.release i (I.mode o) = some m) :
    (spec o t.object).1 = r ∧
      Corresponds I Repr { s.move i (.leaving r) with mutex := m }
        { t.move i (.answered (spec o t.object).1) with object := (spec o t.object).2 } := by
  obtain ⟨base, hrepr, hfree, hway⟩ := h.base
  have hrun : (r, s.object) = (I.body o).run base := hway i o _ hi
  obtain ⟨hanswer, hrepr'⟩ := himpl o base t.object hrepr
  rw [← hrun] at hanswer hrepr'
  refine ⟨hanswer.symm, h.coherent.next (.unlock hi hm), ?_, s.object, hrepr', fun _ => rfl, ?_⟩
  · exact outline_move h.phase (by rw [← hanswer]; rfl)
  · intro j o' rest hj
    by_cases hji : j = i
    · subst hji
      cases move_phase_self.symm.trans hj
    · have hj : s.phase j = .inside o' rest := (move_phase_ne hji).symm.trans hj
      -- another thread is inside, so nobody is inside exclusively, and the object is `base` still
      have hbase : s.object = base := by
        refine hfree fun k hk => ?_
        obtain ⟨o₁, rest₁, hk, hmode⟩ := (h.coherent.held _ k).mp hk
        exact hji ((h.coherent.alone hk hmode hj).trans (h.coherent.alone hk hmode hi).symm)
      show rest.run s.object = (I.body o').run s.object
      rw [hway j o' rest hj, hbase]

/-- **Giving back the lock is the one step that counts.** -/
theorem guarded_atomic (himpl : Implements I spec Repr) {start : σ → Prop} {t₀ : τ}
    (hstart : ∀ s, start s → Repr s t₀) :
    System.Simulation (guarded (ι := ι) I start) (atomic spec t₀) Act.answered (Corresponds I Repr) where
  init s hs := by
    refine ⟨⟨t₀, fun _ => .outside⟩, ⟨rfl, fun _ => rfl⟩, coherent_init hs, fun i => ?_, s.object,
      hstart _ hs.1, fun _ => rfl, fun i o rest hi => ?_⟩
    · rw [hs.2.2 i]
      rfl
    · rw [hs.2.2 i] at hi
      cases hi
  step s a s' t h hn := by
    cases hn with
    | call o hi => exact ⟨_, .single (.call o ((h.phase _).trans (by rw [hi]; rfl))), corresponds_call h o hi⟩
    | lock hi hm => exact ⟨t, .nil t, corresponds_lock h hi hm⟩
    | look hi => exact ⟨t, .nil t, corresponds_look h hi⟩
    | store hi => exact ⟨t, .nil t, corresponds_store h hi⟩
    | unlock hi hm =>
        obtain ⟨hanswer, h'⟩ := corresponds_unlock himpl h hi hm
        refine ⟨_, .single ?_, h'⟩
        rw [← hanswer]
        exact .effect ((h.phase _).trans (by rw [hi]; rfl))
    | answer hi => exact ⟨_, .single (.answer ((h.phase _).trans (by rw [hi]; rfl))), corresponds_answer h hi⟩

variable {start : σ → Prop} {as : List (Act ι ο ρ)}

/-- **Linearizability.** What a client sees of the guarded object, the atomic object can show. -/
theorem linearizable_of_implements (himpl : Implements I spec Repr) (hstart : ∀ s, start s → Repr s t₀)
    (hs : (guarded I start).init s) (hr : (guarded I start).Run s as s') :
    Linearizable spec t₀ (as.filterMap Act.event) := by
  obtain ⟨t, t', ht, hrun, -⟩ := (guarded_atomic himpl hstart).run_init hs hr
  refine ⟨t, _, t', ht, hrun, ?_⟩
  rw [List.filterMap_filterMap]
  rfl

/-- **In the order in which the lock was given back**, the operations are a sequential history, and where
nobody is inside exclusively the object is what it leads to. -/
theorem Implements.sequential (himpl : Implements I spec Repr) (hstart : ∀ s, start s → Repr s t₀)
    (hs : (guarded I start).init s) (hr : (guarded I start).Run s as s') :
    ∃ t, (Guarded.sequential spec t₀).Run t₀ (as.filterMap Act.completion) t ∧
      ((∀ i, ¬ s'.mutex.HeldBy .exclusive i) → Repr s'.object t) := by
  obtain ⟨t, t', ht, hrun, h⟩ := (guarded_atomic himpl hstart).run_init hs hr
  obtain ⟨u, hu, rfl⟩ := (atomic_sequential spec t₀).run hrun rfl
  rw [ht.1, List.filterMap_filterMap] at hu
  obtain ⟨base, hrepr, hfree, -⟩ := h.base
  exact ⟨t'.object, hu, fun hnone => hfree hnone ▸ hrepr⟩

end Refinement

end Blueth.Transition.Guarded
