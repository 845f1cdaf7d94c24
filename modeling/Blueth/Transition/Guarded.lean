/-
# Blueth.Transition.Guarded — an object that is only reached through a lock.

Any number of threads call operations on one object. An operation takes the lock of the object, exclusively
or shared, makes its accesses one at a time, gives the lock back and returns its answer; between any two of
these steps every other thread may move. What an operation does under the lock is a `Handler`: a tree of
accesses in which the next one may depend on all that was seen before. An operation that takes the lock
shared may look only (`Interface.readsOnly`).

The lock has a state of its own, `SharedMutex`, and `Coherent` is its agreement with where the threads
stand. From it follow the three things a lock is for:

* who is inside exclusively is alone (`Coherent.alone`);
* what a reader looks at stays the same while it is inside (`object_eq_of_reading`);
* somebody can always move, and if no new calls are made all calls return, whatever the scheduler does
  (`Coherent.exists_step`, `inevitable_quiet`). No fairness is used.
-/
import Blueth.Transition.Fairness
import Mathlib.Logic.Hydra
import Mathlib.Data.Fintype.Defs
import Mathlib.Data.List.Nodup

set_option autoImplicit false

namespace Blueth.Transition.Guarded

variable {ι ο σ ρ π : Type*}

/-! ## What is done under the lock -/

/-- The accesses a thread makes, and the answer it leaves with. -/
inductive Handler (σ ρ : Type*)
  | done (answer : ρ)
  | look (next : σ → Handler σ ρ)
  | store (change : σ → σ) (next : Handler σ ρ)

namespace Handler

/-- The answer and the object left, if nobody else touches it. -/
def run : Handler σ ρ → σ → ρ × σ
  | done answer, s => (answer, s)
  | look next, s => (next s).run s
  | store change next, s => next.run (change s)

/-- It stores nothing, whatever it sees. -/
def ReadsOnly : Handler σ ρ → Prop
  | done _ => True
  | look next => ∀ s, (next s).ReadsOnly
  | store _ _ => False

/-- The same accesses, and another answer. -/
def map (f : ρ → π) : Handler σ ρ → Handler σ π
  | done answer => done (f answer)
  | look next => look fun s => (next s).map f
  | store change next => store change (next.map f)

theorem run_map (f : ρ → π) (h : Handler σ ρ) (s : σ) : (h.map f).run s = (f (h.run s).1, (h.run s).2) := by
  induction h generalizing s with
  | done answer => rfl
  | look next ih => exact ih s s
  | store change next ih => exact ih (change s)

theorem ReadsOnly.map {h : Handler σ ρ} (hr : h.ReadsOnly) (f : ρ → π) : (h.map f).ReadsOnly := by
  induction h with
  | done answer => trivial
  | look next ih => exact fun s => ih s (hr s)
  | store change next ih => exact hr.elim

theorem run_of_readsOnly {h : Handler σ ρ} (hr : h.ReadsOnly) (s : σ) : (h.run s).2 = s := by
  induction h with
  | done answer => rfl
  | look next ih => exact ih s (hr s)
  | store change next ih => exact hr.elim

end Handler

/-- How an operation takes the lock. -/
inductive Mode
  | exclusive
  | shared
deriving DecidableEq, Repr

/-- The operations of an object. -/
structure Interface (ο σ ρ : Type*) where
  mode : ο → Mode
  body : ο → Handler σ ρ
  readsOnly : ∀ o, mode o = .shared → (body o).ReadsOnly

/-! ## The lock -/

/-- A lock and who has it; nobody, if it is shared among none. -/
inductive SharedMutex (ι : Type*)
  | exclusive (owner : ι)
  | shared (owners : List ι)
deriving DecidableEq, Repr

namespace SharedMutex

/-- Nobody has it. -/
def free : SharedMutex ι := shared []

/-- Take the lock; `none` where one has to wait. -/
def acquire (i : ι) : Mode → SharedMutex ι → Option (SharedMutex ι)
  | .exclusive, shared [] => some (exclusive i)
  | .shared, shared owners => some (shared (i :: owners))
  | _, _ => none

/-- Give it back; `none` if one does not have it. -/
def release [DecidableEq ι] (i : ι) : Mode → SharedMutex ι → Option (SharedMutex ι)
  | .exclusive, exclusive owner => if i = owner then some free else none
  | .shared, shared owners => if i ∈ owners then some (shared (owners.erase i)) else none
  | _, _ => none

def HeldBy : SharedMutex ι → Mode → ι → Prop
  | exclusive owner, .exclusive, i => i = owner
  | shared owners, .shared, i => i ∈ owners
  | _, _, _ => False

/-- Nobody has it twice. -/
def Sound : SharedMutex ι → Prop
  | exclusive _ => True
  | shared owners => owners.Nodup

variable {m m' : SharedMutex ι} {mode mode' : Mode} {i j : ι}

theorem not_heldBy_free : ¬ (free : SharedMutex ι).HeldBy mode i := by
  cases mode with
  | exclusive => exact id
  | shared => exact List.not_mem_nil

/-- Who has the lock exclusively has it alone. -/
theorem HeldBy.alone (hi : m.HeldBy .exclusive i) (hj : m.HeldBy mode j) : j = i ∧ mode = .exclusive := by
  cases m with
  | exclusive owner =>
      cases mode with
      | exclusive => exact ⟨Eq.trans hj (Eq.symm hi), rfl⟩
      | shared => exact hj.elim
  | shared owners => exact hi.elim

/-- **What taking the lock does.** It is possible only if nobody excludes it. -/
theorem heldBy_acquire (h : m.acquire i mode = some m') :
    (∀ mode' j, m'.HeldBy mode' j ↔ m.HeldBy mode' j ∨ (j = i ∧ mode' = mode)) ∧
      (∀ j, ¬ m.HeldBy .exclusive j) ∧ (mode = .exclusive → ∀ j, ¬ m.HeldBy .shared j) := by
  cases m with
  | exclusive owner => cases mode <;> cases h
  | shared owners =>
      cases mode with
      | exclusive =>
          cases owners with
          | nil =>
              cases h
              refine ⟨?_, fun j => id, fun _ j => List.not_mem_nil⟩
              intro mode' j
              cases mode' <;> simp [HeldBy]
          | cons o owners => cases h
      | shared =>
          cases h
          refine ⟨?_, fun j => id, fun h => by cases h⟩
          intro mode' j
          cases mode' <;> simp [HeldBy, or_comm]

theorem sound_acquire (h : m.acquire i mode = some m') (hm : m.Sound) (hi : ¬ m.HeldBy .shared i) :
    m'.Sound := by
  cases m with
  | exclusive owner => cases mode <;> cases h
  | shared owners =>
      cases mode with
      | exclusive =>
          cases owners with
          | nil => cases h; trivial
          | cons o owners => cases h
      | shared =>
          cases h
          exact List.nodup_cons.mpr ⟨hi, hm⟩

/-- Taking the lock waits for one who has it. -/
theorem exists_holder (h : m.acquire i mode = none) : ∃ mode' j, m.HeldBy mode' j := by
  cases m with
  | exclusive owner => exact ⟨.exclusive, owner, rfl⟩
  | shared owners =>
      cases owners with
      | nil => cases mode <;> cases h
      | cons o owners => exact ⟨.shared, o, List.mem_cons_self⟩

/-- Only who has the lock exclusively keeps a reader out. -/
theorem exists_acquire_shared_iff : (∃ m', m.acquire i .shared = some m') ↔ ∀ j, ¬ m.HeldBy .exclusive j := by
  cases m with
  | exclusive owner =>
      refine iff_of_false ?_ fun h => h owner rfl
      rintro ⟨m', h⟩
      cases h
  | shared owners => exact iff_of_true ⟨_, rfl⟩ fun j => id

variable [DecidableEq ι]

/-- **What giving it back does.** -/
theorem heldBy_release (h : m.release i mode = some m') (hm : m.Sound) :
    m.HeldBy mode i ∧ m'.Sound ∧ ∀ mode' j, m'.HeldBy mode' j ↔ m.HeldBy mode' j ∧ j ≠ i := by
  cases m with
  | exclusive owner =>
      cases mode with
      | exclusive =>
          simp only [release, Option.ite_none_right_eq_some, Option.some.injEq] at h
          obtain ⟨rfl, rfl⟩ := h
          refine ⟨rfl, List.nodup_nil, ?_⟩
          intro mode' j
          cases mode' <;> simp [HeldBy, free]
      | shared => cases h
  | shared owners =>
      cases mode with
      | exclusive => cases h
      | shared =>
          simp only [release, Option.ite_none_right_eq_some, Option.some.injEq] at h
          obtain ⟨hi, rfl⟩ := h
          refine ⟨hi, List.Nodup.erase i hm, ?_⟩
          intro mode' j
          cases mode' with
          | exclusive => simp [HeldBy]
          | shared => simp [HeldBy, List.Nodup.mem_erase_iff hm, and_comm]

theorem exists_release (h : m.HeldBy mode i) : ∃ m', m.release i mode = some m' := by
  cases m with
  | exclusive owner =>
      cases mode with
      | exclusive => exact ⟨_, if_pos h⟩
      | shared => exact h.elim
  | shared owners =>
      cases mode with
      | exclusive => exact h.elim
      | shared => exact ⟨_, if_pos h⟩

end SharedMutex

/-! ## Threads -/

/-- Where a thread stands. -/
inductive Phase (ο σ ρ : Type*)
  | outside
  | waiting (o : ο)
  | inside (o : ο) (rest : Handler σ ρ)
  | leaving (answer : ρ)

/-- The object, its lock, and the threads. -/
structure State (ι ο σ ρ : Type*) where
  object : σ
  mutex : SharedMutex ι
  phase : ι → Phase ο σ ρ

/-- Who moves, and how. -/
inductive Act (ι ο ρ : Type*)
  | call (i : ι) (o : ο)
  | lock (i : ι)
  | access (i : ι)
  | unlock (i : ι) (o : ο) (answer : ρ)
  | answer (i : ι) (answer : ρ)
deriving DecidableEq, Repr

/-- A call comes from outside; every other step is the program's own. -/
def Act.isCall : Act ι ο ρ → Bool
  | .call _ _ => true
  | _ => false

variable [DecidableEq ι] {I : Interface ο σ ρ}

def State.move (s : State ι ο σ ρ) (i : ι) (p : Phase ο σ ρ) : State ι ο σ ρ :=
  { s with phase := Function.update s.phase i p }

/-- The steps. -/
inductive Next (I : Interface ο σ ρ) (s : State ι ο σ ρ) : Act ι ο ρ → State ι ο σ ρ → Prop
  | call {i : ι} (o : ο) (h : s.phase i = .outside) : Next I s (.call i o) (s.move i (.waiting o))
  | lock {i : ι} {o : ο} {m : SharedMutex ι} (h : s.phase i = .waiting o)
      (hm : s.mutex.acquire i (I.mode o) = some m) :
      Next I s (.lock i) { s.move i (.inside o (I.body o)) with mutex := m }
  | look {i : ι} {o : ο} {next : σ → Handler σ ρ} (h : s.phase i = .inside o (.look next)) :
      Next I s (.access i) (s.move i (.inside o (next s.object)))
  | store {i : ι} {o : ο} {change : σ → σ} {next : Handler σ ρ}
      (h : s.phase i = .inside o (.store change next)) :
      Next I s (.access i) { s.move i (.inside o next) with object := change s.object }
  | unlock {i : ι} {o : ο} {answer : ρ} {m : SharedMutex ι} (h : s.phase i = .inside o (.done answer))
      (hm : s.mutex.release i (I.mode o) = some m) :
      Next I s (.unlock i o answer) { s.move i (.leaving answer) with mutex := m }
  | answer {i : ι} {answer : ρ} (h : s.phase i = .leaving answer) :
      Next I s (.answer i answer) (s.move i .outside)

/-- **The system**: an object in some state `start` allows, the lock free, nobody in a call. -/
def guarded (I : Interface ο σ ρ) (start : σ → Prop) : System (State ι ο σ ρ) (Act ι ο ρ) where
  init s := start s.object ∧ s.mutex = .free ∧ ∀ i, s.phase i = .outside
  next := Next I

/-! ## The lock and the threads agree -/

/-- A thread with this phase is inside, with the lock in this mode. -/
def Phase.Inside (I : Interface ο σ ρ) (p : Phase ο σ ρ) (mode : Mode) : Prop :=
  ∃ o rest, p = .inside o rest ∧ I.mode o = mode

/-- **Who has the lock is inside, and who is inside has the lock**; a reader has no store before it. -/
structure Coherent (I : Interface ο σ ρ) (s : State ι ο σ ρ) : Prop where
  held : ∀ mode i, s.mutex.HeldBy mode i ↔ (s.phase i).Inside I mode
  sound : s.mutex.Sound
  readsOnly : ∀ i o rest, s.phase i = .inside o rest → I.mode o = .shared → rest.ReadsOnly

section Safety

variable {s t : State ι ο σ ρ} {a : Act ι ο ρ} {i j : ι} {o o' : ο} {mode : Mode} {p : Phase ο σ ρ}
  {rest rest' : Handler σ ρ} {start : σ → Prop}

@[simp] theorem move_phase_self : (s.move i p).phase i = p := Function.update_self ..

theorem move_phase_ne (h : j ≠ i) : (s.move i p).phase j = s.phase j := Function.update_of_ne h ..

theorem not_inside_waiting : ¬ (Phase.waiting o : Phase ο σ ρ).Inside I mode := by
  rintro ⟨o', rest, h, -⟩
  cases h

theorem not_inside_outside : ¬ (Phase.outside : Phase ο σ ρ).Inside I mode := by
  rintro ⟨o', rest, h, -⟩
  cases h

theorem not_inside_leaving {answer : ρ} : ¬ (Phase.leaving answer : Phase ο σ ρ).Inside I mode := by
  rintro ⟨o', rest, h, -⟩
  cases h

theorem inside_iff : (Phase.inside o rest : Phase ο σ ρ).Inside I mode ↔ I.mode o = mode := by
  constructor
  · rintro ⟨o', rest', h, hmode⟩
    cases h
    exact hmode
  · exact fun h => ⟨o, rest, rfl, h⟩

/-- A step that leaves the lock alone, and its thread inside or outside as before. -/
theorem Coherent.moved (hs : Coherent I s) (hp : ∀ mode, p.Inside I mode ↔ (s.phase i).Inside I mode)
    (hr : ∀ o rest, p = .inside o rest → I.mode o = .shared → rest.ReadsOnly) (object : σ) :
    Coherent I { s.move i p with object := object } where
  held mode j := by
    by_cases hj : j = i
    · subst hj
      show s.mutex.HeldBy mode j ↔ ((s.move j p).phase j).Inside I mode
      rw [move_phase_self, hp]
      exact hs.held mode j
    · show s.mutex.HeldBy mode j ↔ ((s.move i p).phase j).Inside I mode
      rw [move_phase_ne hj]
      exact hs.held mode j
  sound := hs.sound
  readsOnly j o rest hj hmode := by
    by_cases hji : j = i
    · subst hji
      exact hr o rest (move_phase_self.symm.trans hj) hmode
    · exact hs.readsOnly j o rest ((move_phase_ne hji).symm.trans hj) hmode

theorem coherent_lock (hs : Coherent I s) (h : s.phase i = .waiting o) {m : SharedMutex ι}
    (hm : s.mutex.acquire i (I.mode o) = some m) :
    Coherent I { s.move i (.inside o (I.body o)) with mutex := m } where
  held mode j := by
    show m.HeldBy mode j ↔ ((s.move i _).phase j).Inside I mode
    rw [(SharedMutex.heldBy_acquire hm).1, hs.held]
    by_cases hj : j = i
    · subst hj
      rw [move_phase_self, inside_iff, h]
      constructor
      · rintro (hin | ⟨-, rfl⟩)
        · exact absurd hin not_inside_waiting
        · rfl
      · exact fun hmode => .inr ⟨rfl, hmode.symm⟩
    · rw [move_phase_ne hj]
      exact or_iff_left fun hin => hj hin.1
  sound := by
    refine SharedMutex.sound_acquire hm hs.sound ?_
    rw [hs.held, h]
    exact not_inside_waiting
  readsOnly j o' rest hj hmode := by
    by_cases hji : j = i
    · subst hji
      cases move_phase_self.symm.trans hj
      exact I.readsOnly o hmode
    · exact hs.readsOnly j o' rest ((move_phase_ne hji).symm.trans hj) hmode

theorem coherent_unlock (hs : Coherent I s) {answer : ρ} {m : SharedMutex ι}
    (hm : s.mutex.release i (I.mode o) = some m) :
    Coherent I { s.move i (.leaving answer) with mutex := m } where
  held mode j := by
    show m.HeldBy mode j ↔ ((s.move i _).phase j).Inside I mode
    rw [(SharedMutex.heldBy_release hm hs.sound).2.2, hs.held]
    by_cases hj : j = i
    · subst hj
      rw [move_phase_self]
      exact iff_of_false (fun hin => hin.2 rfl) not_inside_leaving
    · rw [move_phase_ne hj]
      exact and_iff_left hj
  sound := (SharedMutex.heldBy_release hm hs.sound).2.1
  readsOnly j o' rest hj hmode := by
    by_cases hji : j = i
    · subst hji
      cases move_phase_self.symm.trans hj
    · exact hs.readsOnly j o' rest ((move_phase_ne hji).symm.trans hj) hmode

/-- Every step keeps the agreement. -/
theorem Coherent.next (hs : Coherent I s) (hn : Next I s a t) : Coherent I t := by
  cases hn with
  | call o h =>
      refine hs.moved (fun mode => ?_) (fun o rest hp => by cases hp) s.object
      rw [h]
      exact iff_of_false not_inside_waiting not_inside_outside
  | lock h hm => exact coherent_lock hs h hm
  | look h =>
      refine hs.moved (fun mode => ?_) (fun o' rest hp hmode => ?_) s.object
      · rw [h, inside_iff, inside_iff]
      · cases hp
        exact hs.readsOnly _ _ _ h hmode s.object
  | store h =>
      refine hs.moved (fun mode => ?_) (fun o' rest hp hmode => ?_) _
      · rw [h, inside_iff, inside_iff]
      · cases hp
        exact (hs.readsOnly _ _ _ h hmode).elim
  | unlock h hm => exact coherent_unlock hs hm
  | answer h =>
      refine hs.moved (fun mode => ?_) (fun o rest hp => by cases hp) s.object
      rw [h]
      exact iff_of_false not_inside_outside not_inside_leaving

theorem coherent_init (hs : (guarded I start).init s) : Coherent I s where
  held mode i := by
    rw [hs.2.1, hs.2.2 i]
    exact iff_of_false SharedMutex.not_heldBy_free not_inside_outside
  sound := by
    rw [hs.2.1]
    exact List.nodup_nil
  readsOnly i o rest h := by
    rw [hs.2.2 i] at h
    cases h

/-- **In every reachable state.** -/
theorem reachable_coherent (h : (guarded I start).Reachable s) : Coherent I s :=
  h.invariant (fun _ => coherent_init) fun _ _ _ _ hs hn => hs.next hn

omit [DecidableEq ι] in
/-- **Mutual exclusion.** Who is inside exclusively is alone. -/
theorem Coherent.alone (hs : Coherent I s) (hi : s.phase i = .inside o rest)
    (ho : I.mode o = .exclusive) (hj : s.phase j = .inside o' rest') : j = i :=
  (((hs.held .exclusive i).mpr ⟨o, rest, hi, ho⟩).alone ((hs.held _ j).mpr ⟨o', rest', hj, rfl⟩)).1

/-- While a thread is inside in shared mode, no step of anybody changes the object. -/
theorem Coherent.object_eq (hs : Coherent I s) (hi : s.phase i = .inside o rest)
    (ho : I.mode o = .shared) (hn : Next I s a t) : t.object = s.object := by
  cases hn with
  | store h =>
      rename_i j o' change next
      cases hmode : I.mode o' with
      | exclusive =>
          obtain rfl := hs.alone h hmode hi
          cases h.symm.trans hi
          rw [ho] at hmode
          cases hmode
      | shared => exact (hs.readsOnly _ _ _ h hmode).elim
  | _ => rfl

/-- **A step moves one thread**, and out of its section only by giving the lock back. -/
theorem Next.moves (hn : Next I s a t) :
    ∃ j p, t.phase = Function.update s.phase j p ∧
      ∀ o rest, s.phase j = .inside o rest → (∀ answer, a ≠ .unlock j o answer) → ∃ rest', p = .inside o rest' := by
  cases hn with
  | call _ h =>
      refine ⟨_, _, rfl, fun o rest hi _ => ?_⟩
      cases h.symm.trans hi
  | lock h _ =>
      refine ⟨_, _, rfl, fun o rest hi _ => ?_⟩
      cases h.symm.trans hi
  | look h =>
      refine ⟨_, _, rfl, fun o rest hi _ => ?_⟩
      cases h.symm.trans hi
      exact ⟨_, rfl⟩
  | store h =>
      refine ⟨_, _, rfl, fun o rest hi _ => ?_⟩
      cases h.symm.trans hi
      exact ⟨_, rfl⟩
  | unlock h _ =>
      refine ⟨_, _, rfl, fun o rest hi ha => ?_⟩
      cases h.symm.trans hi
      exact absurd rfl (ha _)
  | answer h =>
      refine ⟨_, _, rfl, fun o rest hi _ => ?_⟩
      cases h.symm.trans hi

/-- It stays inside until it gives the lock back. -/
theorem stays_inside (hi : s.phase i = .inside o rest) (hn : Next I s a t)
    (ha : ∀ answer, a ≠ .unlock i o answer) : ∃ rest', t.phase i = .inside o rest' := by
  obtain ⟨j, p, ht, hp⟩ := hn.moves
  rw [ht]
  by_cases hij : i = j
  · subst hij
    obtain ⟨rest', hrest'⟩ := hp o rest hi ha
    exact ⟨rest', by rw [Function.update_self, hrest']⟩
  · exact ⟨rest, by rw [Function.update_of_ne hij, hi]⟩

/-- **A reader sees one object**, from taking the lock to giving it back, whatever the others do. -/
theorem object_eq_of_reading {as : List (Act ι ο ρ)} (hr : (guarded I start).Run s as t)
    (hs : Coherent I s) (hi : s.phase i = .inside o rest) (ho : I.mode o = .shared)
    (has : ∀ answer, Act.unlock i o answer ∉ as) :
    (∃ rest', t.phase i = .inside o rest') ∧ t.object = s.object := by
  induction hr generalizing rest with
  | nil s => exact ⟨⟨rest, hi⟩, rfl⟩
  | cons hn _ ih =>
      obtain ⟨rest', hi'⟩ := stays_inside hi hn fun answer h => has answer (h ▸ List.mem_cons_self)
      obtain ⟨hin, hobject⟩ := ih (hs.next hn) hi' fun answer h => has answer (List.mem_cons_of_mem _ h)
      exact ⟨hin, hobject.trans (hs.object_eq hi ho hn)⟩

end Safety

/-! ## Every call returns -/

section Progress

variable {s t : State ι ο σ ρ} {a : Act ι ο ρ} {i : ι} {start : σ → Prop}

/-- Who is inside can move. -/
theorem Coherent.exists_step_inside (hs : Coherent I s) {o : ο} {rest : Handler σ ρ}
    (hi : s.phase i = .inside o rest) : ∃ a t, a.isCall = false ∧ Next I s a t := by
  cases rest with
  | done answer =>
      obtain ⟨m, hm⟩ := SharedMutex.exists_release ((hs.held (I.mode o) i).mpr ⟨o, _, hi, rfl⟩)
      exact ⟨_, _, rfl, .unlock hi hm⟩
  | look next => exact ⟨_, _, rfl, .look hi⟩
  | store change next => exact ⟨_, _, rfl, .store hi⟩

/-- **No deadlock.** If some thread is in a call, some thread can move. -/
theorem Coherent.exists_step (hs : Coherent I s) (hi : s.phase i ≠ .outside) :
    ∃ a t, a.isCall = false ∧ Next I s a t := by
  cases hp : s.phase i with
  | outside => exact absurd hp hi
  | leaving answer => exact ⟨_, _, rfl, .answer hp⟩
  | inside o rest => exact hs.exists_step_inside hp
  | waiting o =>
      cases hm : s.mutex.acquire i (I.mode o) with
      | some m => exact ⟨_, _, rfl, .lock hp hm⟩
      | none =>
          -- whoever it is that has the lock is inside
          obtain ⟨mode, j, hj⟩ := SharedMutex.exists_holder hm
          obtain ⟨o', rest, hin, -⟩ := (hs.held mode j).mp hj
          exact hs.exists_step_inside hin

/-- How far a thread is from being outside: each of its own steps leads downwards. -/
inductive Below (I : Interface ο σ ρ) : Phase ο σ ρ → Phase ο σ ρ → Prop
  | answer (answer : ρ) : Below I .outside (.leaving answer)
  | unlock (o : ο) (answer : ρ) : Below I (.leaving answer) (.inside o (.done answer))
  | look (o : ο) (next : σ → Handler σ ρ) (x : σ) : Below I (.inside o (next x)) (.inside o (.look next))
  | store (o : ο) (change : σ → σ) (next : Handler σ ρ) :
      Below I (.inside o next) (.inside o (.store change next))
  | lock (o : ο) : Below I (.inside o (I.body o)) (.waiting o)

omit [DecidableEq ι] in
/-- A handler is finite, so every thread comes to the end of it. -/
theorem below_wellFounded : WellFounded (Below I) := by
  have houtside : Acc (Below I) .outside := ⟨_, fun p h => by cases h⟩
  have hleaving : ∀ answer, Acc (Below I) (.leaving answer) := fun answer =>
    ⟨_, fun p h => by
      cases h
      exact houtside⟩
  have hinside : ∀ o rest, Acc (Below I) (.inside o rest) := by
    intro o rest
    induction rest with
    | done answer =>
        refine ⟨_, fun p h => ?_⟩
        cases h
        exact hleaving answer
    | look next ih =>
        refine ⟨_, fun p h => ?_⟩
        cases h
        exact ih _
    | store change next ih =>
        refine ⟨_, fun p h => ?_⟩
        cases h
        exact ih
  refine ⟨fun p => ?_⟩
  cases p with
  | outside => exact houtside
  | leaving answer => exact hleaving answer
  | inside o rest => exact hinside o rest
  | waiting o =>
      refine ⟨_, fun p h => ?_⟩
      cases h
      exact hinside o _

/-- A step of the program moves one thread, downwards. -/
theorem Next.below (hn : Next I s a t) (ha : a.isCall = false) :
    ∃ i p, t.phase = Function.update s.phase i p ∧ Below I p (s.phase i) := by
  cases hn with
  | call o h => cases ha
  | lock h hm => exact ⟨_, _, rfl, h ▸ .lock _⟩
  | look h => exact ⟨_, _, rfl, h ▸ .look _ _ _⟩
  | store h => exact ⟨_, _, rfl, h ▸ .store _ _ _⟩
  | unlock h hm => exact ⟨_, _, rfl, h ▸ .unlock _ _⟩
  | answer h => exact ⟨_, _, rfl, h ▸ .answer _⟩

variable [Fintype ι]

/-- The phases of all threads. -/
def phases (s : State ι ο σ ρ) : Multiset (Phase ο σ ρ) := Finset.univ.val.map s.phase

/-- Of all the phases together one goes down. -/
theorem Next.cutExpand (hn : Next I s a t) (ha : a.isCall = false) :
    Relation.CutExpand (Below I) (phases t) (phases s) := by
  obtain ⟨i, p, ht, hp⟩ := hn.below ha
  have huniv : (Finset.univ : Finset ι).val = (Finset.univ.erase i).val + {i} := by
    rw [Finset.erase_val, add_comm, Multiset.singleton_add, Multiset.cons_erase (Finset.mem_univ i)]
  have hrest : (Finset.univ.erase i).val.map t.phase = (Finset.univ.erase i).val.map s.phase := by
    refine Multiset.map_congr rfl fun j hj => ?_
    rw [ht]
    exact Function.update_of_ne (Finset.ne_of_mem_erase hj) ..
  unfold phases
  rw [huniv, Multiset.map_add, Multiset.map_add, Multiset.map_singleton, Multiset.map_singleton, hrest, ht,
    Function.update_self]
  exact Relation.cutExpand_add_single _ hp

/-- **Every call returns.** If no new calls are made, then whatever the scheduler does, and whether or not
it is fair, all threads are outside in the end. -/
theorem inevitable_quiet (hs : Coherent I s) :
    ((guarded I start).only fun _ a => a.isCall = false).Inevitable (fun t => ∀ i, t.phase i = .outside)
      s := by
  refine System.inevitable_of_wellFounded (InvImage.wf phases below_wellFounded.cutExpand)
    (fun s hs hbusy => ?_) (fun s a t hs hn => ⟨hs.next hn.2, hn.2.cutExpand hn.1⟩) hs
  obtain ⟨i, hi⟩ := not_forall.mp hbusy
  exact hs.exists_step hi

end Progress

end Blueth.Transition.Guarded
