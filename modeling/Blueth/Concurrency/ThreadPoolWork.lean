/-
# Blueth.Concurrency.ThreadPoolWork — every submitted work is somewhere, once.

`PoolInv` holds in every reachable state, whoever submits and whenever `shutdown()` comes: what was ever
posted is what was taken followed by what is queued, and what was taken is in a worker's hands or executed.
A worker exits only on an empty queue with the flag set. If nothing is posted once the flag is set, the
queue stays empty from the first exit on; so when the last worker has exited nothing is queued, nothing is
in anybody's hands, and all that was ever posted has been executed.
-/
import Blueth.Concurrency.ThreadPool

set_option autoImplicit false

namespace Blueth.Concurrency

open Blueth.Transition
open Blueth.Transition.Threads (holdings Woken Conserved)

variable {Callable : Type*}

namespace ThreadPoolExecutor

/-! ## The invariant -/

/-- The call that brought `work` has been through its section. -/
def Submitted (s : ThreadPoolExecutor Callable) (work : Work Callable) : Prop :=
  ∃ call, s.submits[work.ticket]? = some call ∧ call.callableFunction = work.callable ∧
    call.phase ≠ .called

/-- **The invariant of the pool.** -/
structure PoolInv (poolSize : ℕ) (s : ThreadPoolExecutor Callable) : Prop where
  size : s.threadPool.length = poolSize
  conserved : Conserved s.posted s.taken s.workQueue s.inHands s.executed
  submitted : ∀ work, work ∈ s.posted ↔ s.Submitted work
  exits : Worker.exited ∈ s.threadPool → s.shutdown = true

section Steps

variable {s t : ThreadPoolExecutor Callable} {a : PoolStep Callable} {i k : ℕ} {w : Worker Callable}

theorem size_step (h : s.step a = some t) : t.threadPool.length = s.threadPool.length := by
  cases step_moves h with
  | notifyOne k woken f after before threadPool hcall hwoken =>
    exact (Threads.woken_notifyOne hwoken).length
  | notifyAll k joins hcall => exact Threads.woken_notifyAll.length
  | sleep | exit | take | execute | spurious => exact List.length_set
  | _ => rfl

theorem held_wake : ∀ w : Worker Callable, w.sleeps = true → w.wake.held = w.held := by
  intro w hw
  cases w with
  | asleep => rfl
  | _ => cases hw

/-- One worker moves: what it had in its hands against what it has now. -/
theorem inHands_setWorker (hi : s.threadPool[i]? = some w) (w' : Worker Callable) :
    (w.held.toList ++ (s.setWorker i w').inHands).Perm (w'.held.toList ++ s.inHands) :=
  Threads.holdings_set hi

theorem inHands_woken (h : Woken Worker.sleeps Worker.wake s.threadPool t.threadPool) :
    t.inHands = s.inHands :=
  h.holdings_eq held_wake

theorem conserved_step (hI : PoolInv k s) (h : s.step a = some t) :
    Conserved t.posted t.taken t.workQueue t.inHands t.executed := by
  have hkept : ∀ {held : List (Work Callable)}, held.Perm s.inHands →
      Conserved s.posted s.taken s.workQueue held s.executed := by
    intro held hperm
    exact ⟨hI.conserved.inOrder, hI.conserved.divided.trans (hperm.symm.append_right _),
      hI.conserved.distinct⟩
  cases step_moves h with
  | enqueue k f after before hcall =>
    apply hI.conserved.post
    -- the call had not been through its section
    rw [hI.submitted]
    intro ⟨call, hcall', _, hphase⟩
    rw [hcall] at hcall'
    cases hcall'
    exact hphase rfl
  | notifyOne k woken f after before threadPool hcall hwoken =>
    exact hkept (.of_eq (inHands_woken (Threads.woken_notifyOne hwoken)))
  | notifyAll k joins hcall => exact hkept (.of_eq (inHands_woken Threads.woken_notifyAll))
  | sleep i hready hflag hqueue => exact hkept (inHands_setWorker hready .asleep)
  | exit i hready hflag hqueue => exact hkept (inHands_setWorker hready .exited)
  | spurious i hasleep => exact hkept (inHands_setWorker hasleep .ready)
  | take i work rest hready hqueue =>
    have hconserved := hI.conserved
    rw [hqueue] at hconserved
    exact hconserved.take (inHands_setWorker hready (.running work))
  | execute i work hrunning =>
    exact hI.conserved.finish (inHands_setWorker hrunning .ready).symm
  | _ => exact hI.conserved

/-- The step is the section of the call that brings `work`. -/
def Enqueues (s : ThreadPoolExecutor Callable) (a : PoolStep Callable) (work : Work Callable) : Prop :=
  a = .enqueue work.ticket ∧
    ∃ after before, s.submits[work.ticket]? = some ⟨work.callable, .called, after, before⟩

theorem posted_step (h : s.step a = some t) (work : Work Callable) :
    work ∈ t.posted ↔ work ∈ s.posted ∨ Enqueues s a work := by
  cases step_moves h with
  | enqueue j f after before hcall =>
    show work ∈ s.posted ++ [⟨j, f⟩] ↔ _
    rw [List.mem_append, List.mem_singleton]
    apply or_congr_right
    constructor
    · intro hwork
      cases hwork
      exact ⟨rfl, after, before, hcall⟩
    · intro ⟨ha, after', before', hcall'⟩
      cases ha
      rw [hcall] at hcall'
      cases hcall'
      rfl
  | _ =>
    refine (or_iff_left ?_).symm
    intro ⟨ha, _⟩
    cases ha

theorem submitted_step (h : s.step a = some t) (work : Work Callable) :
    t.Submitted work ↔ s.Submitted work ∨ Enqueues s a work := by
  unfold Submitted Enqueues
  cases submits_step h work.ticket with
  | quiet hsame henqueue hnotify =>
    rw [hsame]
    refine (or_iff_left ?_).symm
    intro ⟨ha, _⟩
    exact henqueue ha
  | made f ha hold hnew =>
    rw [hold, hnew, ha]
    constructor
    · intro ⟨call, hcall, _, hphase⟩
      cases hcall
      exact absurd rfl hphase
    · rintro (⟨call, hcall, -⟩ | ⟨hne, -⟩)
      · cases hcall
      · cases hne
  | enqueued f after before ha hold hnew =>
    rw [hold, hnew, ha]
    constructor
    · intro ⟨call, hcall, hf, _⟩
      cases hcall
      exact .inr ⟨rfl, after, before, by rw [← hf]⟩
    · rintro (⟨call, hcall, -, hphase⟩ | ⟨-, after', before', hcall⟩)
      · cases hcall
        exact absurd rfl hphase
      · cases hcall
        exact ⟨_, rfl, rfl, nofun⟩
  | notified woken f after before ha hold hnew hawake =>
    rw [hold, hnew, ha]
    constructor
    · intro ⟨call, hcall, hf, _⟩
      cases hcall
      exact .inl ⟨_, rfl, hf, nofun⟩
    · rintro (⟨call, hcall, hf, -⟩ | ⟨hne, -⟩)
      · cases hcall
        exact ⟨_, rfl, hf, nofun⟩
      · cases hne

theorem shutdown_step (h : s.step a = some t) (hs : s.shutdown = true) : t.shutdown = true := by
  cases step_moves h with
  | setShutdown => rfl
  | _ => exact hs

/-- Who has exited had exited before, or does so now, with the flag set and nothing queued. -/
theorem exited_step (h : s.step a = some t) (ht : Worker.exited ∈ t.threadPool) :
    Worker.exited ∈ s.threadPool ∨ (s.shutdown = true ∧ s.workQueue = []) := by
  obtain ⟨i, hi⟩ := List.mem_iff_getElem?.mp ht
  cases workers_step h i with
  | quiet hsame hcheck hexecute =>
    rw [hsame] at hi
    exact .inl (List.mem_of_getElem? hi)
  | exited ha hold hflag hqueue hnew => exact .inr ⟨hflag, hqueue⟩
  | woken hold hnew | slept ha hold hflag hqueue hnew | took ha work rest hold hqueue hnew htaken
    | executed ha work hold hnew hexecuted =>
    rw [hnew] at hi
    cases hi

theorem poolInv_step (hI : PoolInv k s) (h : s.step a = some t) : PoolInv k t := by
  refine ⟨(size_step h).trans hI.size, conserved_step hI h, ?_, ?_⟩
  · intro work
    rw [posted_step h, submitted_step h, hI.submitted]
  · intro ht
    apply shutdown_step h
    rcases exited_step h ht with hs | ⟨hflag, -⟩
    · exact hI.exits hs
    · exact hflag

end Steps

theorem poolInv_create (poolSize : ℕ) :
    PoolInv poolSize (.create poolSize : ThreadPoolExecutor Callable) := by
  have hready : ∀ w ∈ List.replicate poolSize (Worker.ready : Worker Callable), w = .ready :=
    fun w hw => List.eq_of_mem_replicate hw
  refine ⟨List.length_replicate, ⟨rfl, ?_, List.nodup_nil⟩, ?_, ?_⟩
  · have hnone : (create poolSize : ThreadPoolExecutor Callable).inHands = [] := by
      apply Threads.holdings_eq_nil
      intro w hw
      rw [hready w hw]
      rfl
    rw [hnone]
    exact .refl _
  · intro work
    refine iff_of_false List.not_mem_nil ?_
    intro ⟨call, hcall, _⟩
    cases hcall
  · intro hexited
    cases hready _ hexited

theorem poolInv_of_reachable {poolSize : ℕ} {s : ThreadPoolExecutor Callable}
    (h : (threadPoolExecutor poolSize).Reachable s) : PoolInv poolSize s := by
  apply h.invariant
  · intro s hs
    rw [hs]
    exact poolInv_create poolSize
  · intro s a t _ hI hn
    exact poolInv_step hI hn

/-! ## Where the work is -/

/-- The places a work can be in. -/
inductive Place
  | queue
  | hands (worker : ℕ)
  | done
deriving DecidableEq, Repr

def IsAt (s : ThreadPoolExecutor Callable) (work : Work Callable) : Place → Prop
  | .queue => work ∈ s.workQueue
  | .hands i => s.threadPool[i]? = some (.running work)
  | .done => work ∈ s.executed

section Places

variable {poolSize i : ℕ} {s : ThreadPoolExecutor Callable} {work : Work Callable} {place : Place}

theorem held_eq_some {w : Worker Callable} : w.held = some work ↔ w = .running work := by
  cases w with
  | running v =>
    constructor
    · intro h
      cases h
      rfl
    · intro h
      cases h
      rfl
  | _ => exact iff_of_false nofun nofun

theorem mem_inHands : work ∈ s.inHands ↔ ∃ i : ℕ, s.threadPool[i]? = some (.running work) := by
  unfold inHands
  rw [Threads.mem_holdings]
  constructor
  · intro ⟨i, w, hi, hw⟩
    rw [held_eq_some] at hw
    exact ⟨i, hw ▸ hi⟩
  · intro ⟨i, hi⟩
    exact ⟨i, _, hi, rfl⟩

theorem PoolInv.submitted_iff (hI : PoolInv poolSize s) :
    s.Submitted work ↔ ∃ place, s.IsAt work place := by
  rw [← hI.submitted, hI.conserved.mem_posted, mem_inHands]
  constructor
  · rintro (hqueue | ⟨i, hi⟩ | hdone)
    · exact ⟨.queue, hqueue⟩
    · exact ⟨.hands i, hi⟩
    · exact ⟨.done, hdone⟩
  · intro ⟨place, hat⟩
    cases place with
    | queue => exact .inl hat
    | hands i => exact .inr (.inl ⟨i, hat⟩)
    | done => exact .inr (.inr hat)

/-- **One place at most.** -/
theorem PoolInv.place_unique (hI : PoolInv poolSize s) {place' : Place} (h : s.IsAt work place)
    (h' : s.IsAt work place') : place = place' := by
  have hnodup := hI.conserved.nodup_places
  rw [List.nodup_append] at hnodup
  obtain ⟨-, hrest, hqueue⟩ := hnodup
  rw [List.nodup_append] at hrest
  obtain ⟨hhands, -, hdone⟩ := hrest
  have hheld : ∀ {i : ℕ}, s.threadPool[i]? = some (.running work) → work ∈ s.inHands :=
    fun hi => mem_inHands.mpr ⟨_, hi⟩
  cases place with
  | queue =>
    cases place' with
    | queue => rfl
    | hands i => exact absurd rfl (hqueue _ h _ (List.mem_append_left _ (hheld h')))
    | done => exact absurd rfl (hqueue _ h _ (List.mem_append_right _ h'))
  | hands i =>
    cases place' with
    | queue => exact absurd rfl (hqueue _ h' _ (List.mem_append_left _ (hheld h)))
    | hands j => rw [Threads.holder_unique hhands h h' rfl rfl]
    | done => exact absurd rfl (hdone _ (hheld h) _ h')
  | done =>
    cases place' with
    | queue => exact absurd rfl (hqueue _ h' _ (List.mem_append_right _ h))
    | hands i => exact absurd rfl (hdone _ (hheld h') _ h)
    | done => rfl

end Places

/-! ## When everybody has exited -/

/-- Every submit precedes the shutdown: nothing is enqueued once the flag is set. -/
def SubmitsFirst (s : ThreadPoolExecutor Callable) (a : PoolStep Callable) : Prop :=
  ∀ call, a = .enqueue call → s.shutdown = false

section Exited

variable {poolSize i : ℕ} {s t : ThreadPoolExecutor Callable} {a : PoolStep Callable}

theorem allExited_iff :
    s.allExited = true ↔ ∀ (i : ℕ) (w : Worker Callable), s.threadPool[i]? = some w → w = .exited := by
  unfold allExited
  rw [List.all_eq_true]
  have hexited : ∀ w : Worker Callable, w.isExited = true ↔ w = .exited := by
    intro w
    cases w with
    | exited => exact iff_of_true rfl rfl
    | _ => exact iff_of_false nofun nofun
  constructor
  · intro h i w hi
    exact (hexited w).mp (h w (List.mem_of_getElem? hi))
  · intro h w hw
    obtain ⟨i, hi⟩ := List.mem_iff_getElem?.mp hw
    exact (hexited w).mpr (h i w hi)

/-- There is no way back from `return`. -/
theorem exited_stays (h : s.step a = some t) (hi : s.threadPool[i]? = some .exited) :
    t.threadPool[i]? = some .exited := by
  cases workers_step h i with
  | quiet hsame hcheck hexecute => exact hsame.trans hi
  | exited ha hold hflag hqueue hnew => exact hnew
  | woken hold hnew | slept ha hold hflag hqueue hnew | took ha work rest hold hqueue hnew htaken
    | executed ha work hold hnew hexecuted =>
    rw [hi] at hold
    cases hold

theorem allExited_step (h : s.step a = some t) (hs : s.allExited = true) : t.allExited = true := by
  rw [allExited_iff] at hs ⊢
  intro i w hi
  have hlt : i < s.threadPool.length := by
    rw [← size_step h]
    exact (List.getElem?_eq_some_iff.mp hi).1
  have hold := List.getElem?_eq_getElem hlt
  rw [hs i _ hold] at hold
  rw [exited_stays h hold] at hi
  cases hi
  rfl

/-- Once the destructor is through with its joins every worker has exited. -/
theorem allExited_of_joined (h : (threadPoolExecutor poolSize).Reachable s) :
    ∀ call ∈ s.shutdowns, call.joins = true → call.phase = .returned → s.allExited = true := by
  apply h.invariant (I := fun s : ThreadPoolExecutor Callable => ∀ call ∈ s.shutdowns,
    call.joins = true → call.phase = .returned → s.allExited = true)
  · intro s hs call hcall
    rw [hs] at hcall
    cases hcall
  · intro s a t _ hI hn call hcall hjoins hphase
    obtain ⟨k, hk⟩ := List.mem_iff_getElem?.mp hcall
    cases shutdowns_step hn k with
    | quiet hsame hnotify =>
      rw [hsame] at hk
      exact allExited_step hn (hI call (List.mem_of_getElem? hk) hjoins hphase)
    | joined joins hold hnew hexited => exact hexited
    | made joins hold hnew =>
      rw [hnew] at hk
      cases hk
      cases hphase
    | raised joins hold hnew hflag =>
      rw [hnew] at hk
      cases hk
      cases hphase
    | notified joins ha hold hnew hawake =>
      rw [hnew] at hk
      cases hk
      rw [if_pos hjoins] at hphase
      cases hphase

/-- **No queue behind an exit.** While nothing is posted after the flag is set, a worker that has exited
has left an empty queue, and the queue stays empty. -/
theorem workQueue_eq_nil_of_exited (h : ((threadPoolExecutor poolSize).only SubmitsFirst).Reachable s)
    (hexited : Worker.exited ∈ s.threadPool) : s.workQueue = [] := by
  have key : Worker.exited ∈ s.threadPool → s.workQueue = [] := by
    apply h.invariant (I := fun s : ThreadPoolExecutor Callable =>
      Worker.exited ∈ s.threadPool → s.workQueue = [])
    · intro s hs _
      rw [hs]
      rfl
    · intro s a t hreach hI ⟨hfirst, hn⟩ ht
      have hs : s.shutdown = true ∧ s.workQueue = [] := by
        rcases exited_step hn ht with hs | hs
        · exact ⟨(poolInv_of_reachable hreach.of_only).exits hs, hI hs⟩
        · exact hs
      cases step_moves hn with
      | enqueue k f after before hcall =>
        have hflag := hfirst k rfl
        rw [hs.1] at hflag
        cases hflag
      | take i work rest hready hqueue =>
        rw [hs.2] at hqueue
        cases hqueue
      | _ => exact hs.2
  exact key hexited

theorem executed_of_allExited (hpool : 1 ≤ poolSize)
    (h : ((threadPoolExecutor poolSize).only SubmitsFirst).Reachable s) (hexited : s.allExited = true)
    {work : Work Callable} (hwork : s.Submitted work) : work ∈ s.executed := by
  have hI := poolInv_of_reachable h.of_only
  rw [allExited_iff] at hexited
  have hlt : 0 < s.threadPool.length := by
    rw [hI.size]
    exact hpool
  have hfirst := List.getElem?_eq_getElem hlt
  rw [hexited 0 _ hfirst] at hfirst
  obtain ⟨place, hat⟩ := hI.submitted_iff.mp hwork
  cases place with
  | queue =>
    have hqueue : work ∈ s.workQueue := hat
    rw [workQueue_eq_nil_of_exited h (List.mem_of_getElem? hfirst)] at hqueue
    cases hqueue
  | hands i => cases hexited i _ hat
  | done => exact hat

end Exited

/-! ## Nothing lost, nothing repeated -/

/-- **The pool neither loses nor repeats work.** In every reachable state a submitted work is in exactly
one place, and there once; works are taken in the order in which they were posted. And when every submit
precedes the shutdown, then where all workers have exited, as they have after the destructor's joins,
every submitted work has been executed, once. -/
theorem work_in_one_place (poolSize : ℕ) (hpool : 1 ≤ poolSize) :
    (∀ s : ThreadPoolExecutor Callable, (threadPoolExecutor poolSize).Reachable s →
      (∀ work, s.Submitted work ↔ ∃ place, s.IsAt work place) ∧
      (∀ work, s.Submitted work → ∃! place, s.IsAt work place) ∧
      s.workQueue.Nodup ∧ s.executed.Nodup ∧ s.posted = s.taken ++ s.workQueue ∧
      ∀ call ∈ s.shutdowns, call.joins = true → call.phase = .returned → s.allExited = true) ∧
    ∀ s : ThreadPoolExecutor Callable, ((threadPoolExecutor poolSize).only SubmitsFirst).Reachable s →
      s.allExited = true → ∀ work, s.Submitted work → work ∈ s.executed ∧ s.executed.Nodup := by
  have honce : ∀ s : ThreadPoolExecutor Callable, (threadPoolExecutor poolSize).Reachable s →
      s.workQueue.Nodup ∧ s.executed.Nodup := by
    intro s h
    have hnodup := (poolInv_of_reachable h).conserved.nodup_places
    exact ⟨hnodup.of_append_left, hnodup.of_append_right.of_append_right⟩
  constructor
  · intro s h
    have hI := poolInv_of_reachable h
    refine ⟨fun work => hI.submitted_iff, ?_, (honce s h).1, (honce s h).2, hI.conserved.inOrder,
      allExited_of_joined h⟩
    intro work hwork
    obtain ⟨place, hat⟩ := hI.submitted_iff.mp hwork
    exact ⟨place, hat, fun place' hat' => hI.place_unique hat' hat⟩
  · intro s h hexited work hwork
    exact ⟨executed_of_allExited hpool h hexited hwork, (honce s h.of_only).2⟩

theorem work_in_one_place_of_four :
    (∀ s : ThreadPoolExecutor Unit, (threadPoolExecutor 4).Reachable s →
      (∀ work, s.Submitted work ↔ ∃ place, s.IsAt work place) ∧
      (∀ work, s.Submitted work → ∃! place, s.IsAt work place) ∧
      s.workQueue.Nodup ∧ s.executed.Nodup ∧ s.posted = s.taken ++ s.workQueue ∧
      ∀ call ∈ s.shutdowns, call.joins = true → call.phase = .returned → s.allExited = true) ∧
    ∀ s : ThreadPoolExecutor Unit, ((threadPoolExecutor 4).only SubmitsFirst).Reachable s →
      s.allExited = true → ∀ work, s.Submitted work → work ∈ s.executed ∧ s.executed.Nodup :=
  work_in_one_place 4 (by decide)

end ThreadPoolExecutor

end Blueth.Concurrency
