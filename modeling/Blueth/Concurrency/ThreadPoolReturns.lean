/-
# Blueth.Concurrency.ThreadPoolReturns — every call on the executor comes back.

Here the callers are asked to move too: `thread` names whose step a step is, for all but the making of a call
and the spurious wake-ups. In an execution that is fair to workers and callers a call of `submit()` and a call
of `shutdown()` return, whatever else goes on. The destructor waits in `join()` for the workers, and these do
not exit while there is something in the queue: it returns where from some moment on nothing more is enqueued.

The rank of the wait is the work that is left: two steps for what is queued, two for a worker that runs and one
for a worker that is ready. Nobody sleeps any more behind a `notify_all`, and so nothing else moves the pool.
-/
import Blueth.Concurrency.ThreadPoolShutdown

set_option autoImplicit false

namespace Blueth.Concurrency

open Blueth.Transition

variable {Callable : Type*}

/-- Whose step it is, when a caller is to finish what it has begun. -/
def PoolStep.thread : PoolStep Callable → Option PoolThread
  | .enqueue call => some (.submitter call)
  | .setShutdown call => some (.stopper call)
  | .join call => some (.stopper call)
  | a => a.owner

/-- The phase that comes next, in a call that joins the workers or does not. -/
def CallPhase.forward (joins : Bool) : CallPhase → CallPhase
  | .called => .notifying
  | .notifying => if joins then .joining else .returned
  | _ => .returned

/-- The steps a worker makes before it tests the predicate again, and the test. -/
def Worker.toDo : Worker Callable → ℕ
  | .ready => 1
  | .running _ => 2
  | _ => 0

namespace ThreadPoolExecutor

/-! ## Who can act -/

section Acting

variable {poolSize k : ℕ} {s t : ThreadPoolExecutor Callable} {a : PoolStep Callable} {c : PoolThread}

theorem thread_of_owner (h : a.owner = some c) : a.thread = some c := by
  cases a with
  | enqueue | setShutdown | join => cases h
  | _ => exact h

theorem enabled_of_owner (h : (threadPoolExecutor poolSize).Enabled PoolStep.owner c s) :
    (threadPoolExecutor poolSize).Enabled PoolStep.thread c s := by
  obtain ⟨a, t, howner, hnext⟩ := h
  exact ⟨a, t, thread_of_owner howner, hnext⟩

theorem enabled_enqueue {f : Callable} {after before : Bool}
    (hk : s.submits[k]? = some ⟨f, .called, after, before⟩) :
    (threadPoolExecutor poolSize).Enabled PoolStep.thread (.submitter k) s := by
  refine ⟨.enqueue k, { s with
    workQueue := s.workQueue ++ [⟨k, f⟩]
    posted := s.posted ++ [⟨k, f⟩]
    submits := s.submits.set k ⟨f, .notifying, after, before⟩ }, rfl, ?_⟩
  show s.enqueue k = _
  simp only [enqueue, hk]

theorem enabled_setShutdown {joins : Bool} (hk : s.shutdowns[k]? = some ⟨.called, joins⟩) :
    (threadPoolExecutor poolSize).Enabled PoolStep.thread (.stopper k) s := by
  refine ⟨.setShutdown k, { s with
    shutdown := true
    shutdowns := s.shutdowns.set k ⟨.notifying, joins⟩ }, rfl, ?_⟩
  show s.setShutdown k = _
  simp only [setShutdown, hk]

/-- A step of a submitter brings its call forward. -/
theorem submitter_moves (h : s.step a = some t) (hthread : a.thread = some (.submitter k)) :
    t.submits[k]? ≠ s.submits[k]? := by
  cases step_moves h with
  | enqueue j f after before hcall =>
    cases hthread
    rw [hcall, List.getElem?_set_self (List.getElem?_eq_some_iff.mp hcall).1]
    simp
  | notifyOne j woken f after before threadPool hcall hwoken =>
    cases hthread
    rw [hcall, List.getElem?_set_self (List.getElem?_eq_some_iff.mp hcall).1]
    simp
  | _ => cases hthread

/-- So does a step of whoever calls `shutdown()`. -/
theorem stopper_moves (h : s.step a = some t) (hthread : a.thread = some (.stopper k)) :
    t.shutdowns[k]? ≠ s.shutdowns[k]? := by
  cases step_moves h with
  | setShutdown j joins hcall =>
    cases hthread
    rw [hcall, List.getElem?_set_self (List.getElem?_eq_some_iff.mp hcall).1]
    simp
  | notifyAll j joins hcall =>
    cases hthread
    rw [hcall, List.getElem?_set_self (List.getElem?_eq_some_iff.mp hcall).1]
    cases joins <;> simp
  | join j joins hcall hexited =>
    cases hthread
    rw [hcall, List.getElem?_set_self (List.getElem?_eq_some_iff.mp hcall).1]
    simp
  | _ => cases hthread

end Acting

/-! ## One phase after the other -/

section Phases

variable {poolSize n k : ℕ} {s t : ThreadPoolExecutor Callable} {a : PoolStep Callable}
  {e : (threadPoolExecutor poolSize : System (ThreadPoolExecutor Callable) _).Execution}
  {f : Callable} {after before joins : Bool} {phase : CallPhase}

theorem submits_forward (h : s.step a = some t) (hk : s.submits[k]? = some ⟨f, phase, after, before⟩) :
    t.submits[k]? = s.submits[k]? ∨
      ∃ before', t.submits[k]? = some ⟨f, phase.forward false, after, before'⟩ := by
  cases submits_step h k with
  | quiet hsame => exact .inl hsame
  | made f' ha hold =>
    rw [hk] at hold
    cases hold
  | enqueued f' after' before' ha hold hnew =>
    rw [hk] at hold
    cases hold
    exact .inr ⟨_, hnew⟩
  | notified woken f' after' before' ha hold hnew =>
    rw [hk] at hold
    cases hold
    exact .inr ⟨_, hnew⟩

theorem shutdowns_forward (h : s.step a = some t) (hk : s.shutdowns[k]? = some ⟨phase, joins⟩) :
    t.shutdowns[k]? = s.shutdowns[k]? ∨ t.shutdowns[k]? = some ⟨phase.forward joins, joins⟩ := by
  cases shutdowns_step h k with
  | quiet hsame => exact .inl hsame
  | made joins' hold =>
    rw [hk] at hold
    cases hold
  | raised joins' hold hnew | notified joins' ha hold hnew | joined joins' hold hnew =>
    rw [hk] at hold
    cases hold
    exact .inr hnew

/-- A submitter that is able to act in this phase comes to the next. -/
theorem eventually_submit (hfair : e.WeaklyFair PoolStep.thread)
    (henabled : ∀ (s : ThreadPoolExecutor Callable) before, s.submits[k]? = some ⟨f, phase, after, before⟩ →
      (threadPoolExecutor poolSize).Enabled PoolStep.thread (.submitter k) s)
    (hn : (e.state n).submits[k]? = some ⟨f, phase, after, before⟩) :
    ∃ m, n ≤ m ∧ ∃ before', (e.state m).submits[k]? = some ⟨f, phase.forward false, after, before'⟩ := by
  apply e.eventually_of_own_step hfair (.submitter k)
    (P := fun s => s.submits[k]? = some ⟨f, phase, after, before⟩)
    (Q := fun s => ∃ before', s.submits[k]? = some ⟨f, phase.forward false, after, before'⟩)
    (fun s _ => henabled s before) _ hn
  intro s a t _ hP hnext
  rcases submits_forward hnext hP with hsame | hnew
  · exact .inr ⟨hsame.trans hP, fun hthread => submitter_moves hnext hthread hsame⟩
  · exact .inl hnew

theorem eventually_shutdown (hfair : e.WeaklyFair PoolStep.thread)
    (henabled : ∀ s : ThreadPoolExecutor Callable, s.shutdowns[k]? = some ⟨phase, joins⟩ →
      (threadPoolExecutor poolSize).Enabled PoolStep.thread (.stopper k) s)
    (hn : (e.state n).shutdowns[k]? = some ⟨phase, joins⟩) :
    ∃ m, n ≤ m ∧ (e.state m).shutdowns[k]? = some ⟨phase.forward joins, joins⟩ := by
  apply e.eventually_of_own_step hfair (.stopper k) (P := fun s => s.shutdowns[k]? = some ⟨phase, joins⟩)
    (Q := fun s => s.shutdowns[k]? = some ⟨phase.forward joins, joins⟩) (fun s _ => henabled s) _ hn
  intro s a t _ hP hnext
  rcases shutdowns_forward hnext hP with hsame | hnew
  · exact .inr ⟨hsame.trans hP, fun hthread => stopper_moves hnext hthread hsame⟩
  · exact .inl hnew

/-- `submit()` joins nobody. -/
theorem submit_ne_joining (h : (threadPoolExecutor poolSize).Reachable s)
    (hk : s.submits[k]? = some ⟨f, phase, after, before⟩) : phase ≠ .joining := by
  have key : ∀ call ∈ s.submits, call.phase ≠ .joining := by
    apply h.invariant (I := fun s : ThreadPoolExecutor Callable => ∀ call ∈ s.submits, call.phase ≠ .joining)
    · intro s hs call hcall
      rw [hs] at hcall
      cases hcall
    · intro s a t _ hI hnext call hcall
      obtain ⟨j, hj⟩ := List.mem_iff_getElem?.mp hcall
      cases submits_step hnext j with
      | quiet hsame =>
        rw [hsame] at hj
        exact hI call (List.mem_of_getElem? hj)
      | made _ _ _ hnew | enqueued _ _ _ _ _ hnew | notified _ _ _ _ _ _ hnew =>
        rw [hnew] at hj
        cases hj
        nofun
  exact key _ (List.mem_of_getElem? hk)

theorem eventually_submitted (hfair : e.WeaklyFair PoolStep.thread)
    (hn : (e.state n).submits[k]? = some ⟨f, phase, after, before⟩) :
    ∃ m, n ≤ m ∧ ∃ before', (e.state m).submits[k]? = some ⟨f, .returned, after, before'⟩ := by
  have hnotify : ∀ {i before}, (e.state i).submits[k]? = some ⟨f, .notifying, after, before⟩ →
      ∃ m, i ≤ m ∧ ∃ before', (e.state m).submits[k]? = some ⟨f, .returned, after, before'⟩ :=
    fun hi => eventually_submit hfair (fun s before hk => enabled_of_owner (enabled_notifyOne hk)) hi
  cases phase with
  | called =>
    obtain ⟨i, hni, before', hi⟩ := eventually_submit hfair (fun s before hk => enabled_enqueue hk) hn
    obtain ⟨m, him, hm⟩ := hnotify hi
    exact ⟨m, Nat.le_trans hni him, hm⟩
  | notifying => exact hnotify hn
  | joining => exact absurd rfl (submit_ne_joining (e.reachable n) hn)
  | returned => exact ⟨n, Nat.le_refl n, before, hn⟩

/-- **Up to the joins nobody else is needed.** -/
theorem eventually_notified (hfair : e.WeaklyFair PoolStep.thread)
    (hn : (e.state n).shutdowns[k]? = some ⟨phase, joins⟩) :
    ∃ m, n ≤ m ∧ ((e.state m).shutdowns[k]? = some ⟨.returned, joins⟩ ∨
      (e.state m).shutdowns[k]? = some ⟨.joining, joins⟩) := by
  have hnotify : ∀ {i}, (e.state i).shutdowns[k]? = some ⟨.notifying, joins⟩ →
      ∃ m, i ≤ m ∧ ((e.state m).shutdowns[k]? = some ⟨.returned, joins⟩ ∨
        (e.state m).shutdowns[k]? = some ⟨.joining, joins⟩) := by
    intro i hi
    obtain ⟨m, him, hm⟩ :=
      eventually_shutdown hfair (fun s hk => enabled_of_owner (enabled_notifyAll hk)) hi
    refine ⟨m, him, ?_⟩
    cases joins with
    | true => exact .inr hm
    | false => exact .inl hm
  cases phase with
  | called =>
    obtain ⟨i, hni, hi⟩ := eventually_shutdown hfair (fun s hk => enabled_setShutdown hk) hn
    obtain ⟨m, him, hm⟩ := hnotify hi
    exact ⟨m, Nat.le_trans hni him, hm⟩
  | notifying => exact hnotify hn
  | joining => exact ⟨n, Nat.le_refl n, .inr hn⟩
  | returned => exact ⟨n, Nat.le_refl n, .inl hn⟩

/-- Only the destructor joins. -/
theorem joins_of_joining (h : (threadPoolExecutor poolSize).Reachable s)
    (hk : s.shutdowns[k]? = some ⟨.joining, joins⟩) : joins = true := by
  have key : ∀ call ∈ s.shutdowns, call.phase = .joining → call.joins = true := by
    apply h.invariant (I := fun s : ThreadPoolExecutor Callable =>
      ∀ call ∈ s.shutdowns, call.phase = .joining → call.joins = true)
    · intro s hs call hcall
      rw [hs] at hcall
      cases hcall
    · intro s a t _ hI hnext call hcall hjoining
      obtain ⟨j, hj⟩ := List.mem_iff_getElem?.mp hcall
      cases shutdowns_step hnext j with
      | quiet hsame =>
        rw [hsame] at hj
        exact hI call (List.mem_of_getElem? hj) hjoining
      | notified joins' _ _ hnew =>
        rw [hnew] at hj
        cases hj
        cases joins' with
        | true => rfl
        | false => cases hjoining
      | made _ _ hnew | raised _ _ hnew | joined _ _ hnew =>
        rw [hnew] at hj
        cases hj
        cases hjoining
  exact key _ (List.mem_of_getElem? hk) rfl

end Phases

/-! ## The wait for the workers -/

/-- The step is no section of `submit()`. -/
def PostsNothing (a : PoolStep Callable) : Prop := ∀ call, a ≠ .enqueue call

/-- What is left to be done when nothing more is enqueued. -/
def workLeft (s : ThreadPoolExecutor Callable) : ℕ :=
  2 * s.workQueue.length + (s.threadPool.map Worker.toDo).sum

/-- Whom the destructor waits for: the workers, and when they have exited nobody but itself. -/
inductive Detains (k : ℕ) (s : ThreadPoolExecutor Callable) : PoolThread → Prop
  | worker (i : ℕ) (w : Worker Callable) (hi : s.threadPool[i]? = some w) (hw : w.isExited = false) :
      Detains k s (.worker i)
  | stopper (hexited : s.allExited = true) : Detains k s (.stopper k)

section Joining

variable {poolSize i k n : ℕ} {s t : ThreadPoolExecutor Callable} {a : PoolStep Callable} {c : PoolThread}
  {joins : Bool} {w : Worker Callable}

theorem exists_detains (k : ℕ) (s : ThreadPoolExecutor Callable) : ∃ c, Detains k s c := by
  cases hexited : s.allExited with
  | true => exact ⟨_, .stopper hexited⟩
  | false =>
    obtain ⟨w, hw, hgone⟩ := List.all_eq_false.mp hexited
    obtain ⟨i, hi⟩ := List.mem_iff_getElem?.mp hw
    exact ⟨_, .worker i w hi (Bool.eq_false_iff.mpr hgone)⟩

theorem enabled_of_detains (hdown : s.Down) (hk : s.shutdowns[k]? = some ⟨.joining, joins⟩)
    (h : Detains k s c) :
    ((threadPoolExecutor poolSize).since PostsNothing).Enabled PoolStep.thread c s := by
  have howned : ∀ {c}, (threadPoolExecutor poolSize).Enabled PoolStep.owner c s →
      ((threadPoolExecutor poolSize).since PostsNothing).Enabled PoolStep.thread c s := by
    rintro c ⟨a, t, howner, hnext⟩
    refine ⟨a, t, thread_of_owner howner, ?_, hnext⟩
    rintro j rfl
    cases howner
  cases h with
  | worker i w hi hw =>
    have hsleeps := hdown.2 w (List.mem_of_getElem? hi)
    cases w with
    | ready => exact howned (enabled_check hi)
    | running work => exact howned (enabled_execute hi)
    | asleep => cases hsleeps
    | exited => cases hw
  | stopper hexited =>
    refine ⟨.join k, { s with shutdowns := s.shutdowns.set k ⟨.returned, joins⟩ }, rfl, nofun, ?_⟩
    show s.join k = _
    simp only [join, hk, if_pos hexited]

/-- One worker moves: what there was to do against what there is. -/
theorem sum_toDo_setWorker (hi : s.threadPool[i]? = some w) (w' : Worker Callable) :
    ((s.setWorker i w').threadPool.map Worker.toDo).sum + w.toDo =
      (s.threadPool.map Worker.toDo).sum + w'.toDo :=
  Threads.sum_map_set Worker.toDo hi

/-- **What moves the pool once nobody sleeps.** A step of a worker does some of the work; any other step
leaves the workers and the queue alone, if it enqueues nothing. -/
theorem down_moves (hdown : s.Down) (hposts : PostsNothing a) (h : s.step a = some t) :
    t.workLeft < s.workLeft ∨
      (t.threadPool = s.threadPool ∧ t.workQueue = s.workQueue ∧ ∀ i, a.thread ≠ some (.worker i)) := by
  cases step_moves h with
  | enqueue j => exact absurd rfl (hposts j)
  | notifyOne j woken f after before threadPool hcall hwoken =>
    exact .inr ⟨(Threads.woken_notifyOne hwoken).eq_of_awake hdown.2, rfl, nofun⟩
  | notifyAll j joins hcall =>
    exact .inr ⟨Threads.woken_notifyAll.eq_of_awake hdown.2, rfl, nofun⟩
  | sleep i hready hflag hqueue =>
    rw [hdown.1] at hflag
    cases hflag
  | exit i hready hflag hqueue =>
    have hsum := sum_toDo_setWorker hready .exited
    simp only [Worker.toDo] at hsum
    refine .inl ?_
    show 2 * s.workQueue.length + _ < 2 * s.workQueue.length + _
    omega
  | take i work rest hready hqueue =>
    have hsum := sum_toDo_setWorker hready (.running work)
    simp only [Worker.toDo] at hsum
    refine .inl ?_
    show 2 * rest.length + ((s.setWorker i (.running work)).threadPool.map Worker.toDo).sum <
      2 * s.workQueue.length + _
    rw [hqueue, List.length_cons]
    omega
  | execute i work hrunning =>
    have hsum := sum_toDo_setWorker hrunning .ready
    simp only [Worker.toDo] at hsum
    refine .inl ?_
    show 2 * s.workQueue.length + ((s.setWorker i .ready).threadPool.map Worker.toDo).sum <
      2 * s.workQueue.length + _
    omega
  | spurious i hasleep =>
    have hsleeps := hdown.2 _ (List.mem_of_getElem? hasleep)
    cases hsleeps
  | _ => exact .inr ⟨rfl, rfl, nofun⟩

/-- A step does some of the work or detains nobody else. -/
theorem detains_step (hdown : s.Down) (hposts : PostsNothing a) (h : s.step a = some t)
    (hk : t.shutdowns[k]? = s.shutdowns[k]?) :
    t.workLeft < s.workLeft ∨
      (t.workLeft = s.workLeft ∧ ∀ c, Detains k s c → a.thread ≠ some c ∧ Detains k t c) := by
  rcases down_moves hdown hposts h with hless | ⟨hpool, hqueue, hthread⟩
  · exact .inl hless
  · refine .inr ⟨?_, ?_⟩
    · rw [workLeft, workLeft, hpool, hqueue]
    · intro c hc
      cases hc with
      | worker i w hi hw => exact ⟨hthread i, .worker i w (hpool ▸ hi) hw⟩
      | stopper hexited =>
        refine ⟨fun hown => stopper_moves h hown hk, .stopper ?_⟩
        rw [allExited, hpool]
        exact hexited

/-- **The joins come to an end** where nothing more is enqueued. -/
theorem eventually_joined {e : ((threadPoolExecutor poolSize : System (ThreadPoolExecutor Callable) _).since
    PostsNothing).Execution} (hfair : e.WeaklyFair PoolStep.thread)
    (hn : (e.state n).shutdowns[k]? = some ⟨.joining, joins⟩) :
    ∃ m, n ≤ m ∧ (e.state m).shutdowns[k]? = some ⟨.returned, joins⟩ := by
  have hdown : ∀ {s : ThreadPoolExecutor Callable},
      ((threadPoolExecutor poolSize).since PostsNothing).Reachable s →
      s.shutdowns[k]? = some ⟨.joining, joins⟩ → s.Down :=
    fun hs hk => (downInv_of_reachable hs.of_since).returned _ (List.mem_of_getElem? hk) (.inl rfl)
  apply e.eventually_of_rank hfair workLeft (fun c s => Detains k s c) (P := fun s => s.shutdowns[k]? = some ⟨.joining, joins⟩)
    (Q := fun s => s.shutdowns[k]? = some ⟨.returned, joins⟩) (fun s _ _ => exists_detains k s) _ _ hn
  · exact fun s c hs hk hc => enabled_of_detains (hdown hs hk) hk hc
  · intro s a t hs hk hnext
    rcases shutdowns_forward hnext.2 hk with hsame | hnew
    · exact .inr ⟨hsame.trans hk, detains_step (hdown hs hk) hnext.1 hnext.2 hsame⟩
    · exact .inl hnew

end Joining

/-! ## Calls return -/

section Returns

variable {poolSize n k : ℕ} {e : (threadPoolExecutor poolSize : System (ThreadPoolExecutor Callable) _).Execution}

/-- A destructor that joins goes on joining until it returns. -/
theorem joining_stays {i : ℕ} {joins : Bool} (hi : (e.state i).shutdowns[k]? = some ⟨.joining, joins⟩) :
    ∀ m, i ≤ m → (e.state m).shutdowns[k]? = some ⟨.joining, joins⟩ ∨
      (e.state m).shutdowns[k]? = some ⟨.returned, joins⟩ := by
  intro m him
  induction m, him using Nat.le_induction with
  | base => exact .inl hi
  | succ m him ih =>
    rcases e.succ_cases m with ⟨-, h⟩ | ⟨a, -, h⟩
    · rw [h]
      exact ih
    · rcases ih with hk | hk <;> rcases shutdowns_forward h hk with hsame | hnew
      · exact .inl (hsame.trans hk)
      · exact .inr hnew
      · exact .inr (hsame.trans hk)
      · exact .inr hnew

/-- **Every call returns.** In an execution that is fair to workers and callers every call of `submit()` and of
`shutdown()` returns in the end. So does the destructor, if from some moment on nothing more is enqueued, and
then every worker has exited. -/
theorem calls_return (hfair : e.WeaklyFair PoolStep.thread) (n k : ℕ) :
    (∀ call, (e.state n).submits[k]? = some call → ∃ m before, n ≤ m ∧
      (e.state m).submits[k]? = some ⟨call.callableFunction, .returned, call.afterShutdown, before⟩) ∧
    ∀ call, (e.state n).shutdowns[k]? = some call →
      (call.joins = true → ∃ N, ∀ m j, N ≤ m → e.label m ≠ some (.enqueue j)) →
      ∃ m, n ≤ m ∧ (e.state m).shutdowns[k]? = some ⟨.returned, call.joins⟩ ∧
        (call.joins = true → (e.state m).allExited = true) := by
  constructor
  · rintro ⟨f, phase, after, before⟩ hn
    obtain ⟨m, hnm, before', hm⟩ := eventually_submitted hfair hn
    exact ⟨m, before', hnm, hm⟩
  · rintro ⟨phase, joins⟩ hn hceases
    suffices hback : ∃ m, n ≤ m ∧ (e.state m).shutdowns[k]? = some ⟨.returned, joins⟩ by
      obtain ⟨m, hnm, hm⟩ := hback
      exact ⟨m, hnm, hm, fun hjoins =>
        allExited_of_joined (e.reachable m) _ (List.mem_of_getElem? hm) hjoins rfl⟩
    obtain ⟨i, hni, hi | hi⟩ := eventually_notified hfair hn
    · exact ⟨i, hni, hi⟩
    · -- go on from a moment at which the last work has been enqueued
      obtain ⟨N, hN⟩ := hceases (joins_of_joining (e.reachable i) hi)
      have hquiet : ∀ m a, max i N ≤ m → e.label m = some a → PostsNothing a := by
        rintro m a hm hlabel j rfl
        exact hN m j (Nat.le_trans (Nat.le_max_right i N) hm) hlabel
      rcases joining_stays hi (max i N) (Nat.le_max_left i N) with hjoining | hreturned
      · obtain ⟨m, -, hm⟩ := eventually_joined (e := e.since hquiet) (hfair.since hquiet) (n := 0) hjoining
        exact ⟨max i N + m, by omega, hm⟩
      · exact ⟨max i N, by omega, hreturned⟩

/-- Where all workers have exited and all calls have returned nobody has anything to do. -/
theorem not_enabled_at_rest {s : ThreadPoolExecutor Callable} (hpool : ∀ w ∈ s.threadPool, w = .exited)
    (hsubmits : ∀ call ∈ s.submits, call.phase = .returned)
    (hshutdowns : ∀ call ∈ s.shutdowns, call.phase = .returned) (c : PoolThread) :
    ¬ (threadPoolExecutor poolSize).Enabled PoolStep.thread c s := by
  rintro ⟨a, t, hthread, hnext⟩
  cases step_moves hnext with
  | callSubmit | callShutdown | spurious => cases hthread
  | enqueue j f after before hcall => cases hsubmits _ (List.mem_of_getElem? hcall)
  | notifyOne j woken f after before threadPool hcall => cases hsubmits _ (List.mem_of_getElem? hcall)
  | setShutdown j joins hcall | notifyAll j joins hcall | join j joins hcall =>
    cases hshutdowns _ (List.mem_of_getElem? hcall)
  | sleep i hi | exit i hi | take i work rest hi | execute i work hi =>
    cases hpool _ (List.mem_of_getElem? hi)

/-- One worker, one work, and the destructor called while the work is queued. -/
theorem calls_return_destructor : ∃ e : (threadPoolExecutor 1 : System (ThreadPoolExecutor Unit) _).Execution,
    (e.state 4).shutdowns = [⟨.called, true⟩] ∧ (e.state 4).workQueue = [⟨0, ()⟩] ∧
      ∃ m, 4 ≤ m ∧ (e.state m).shutdowns[0]? = some ⟨.returned, true⟩ ∧ (e.state m).allExited = true := by
  let called : ThreadPoolExecutor Unit :=
    ⟨false, [⟨0, ()⟩], [.ready], [⟨(), .returned, false, true⟩], [⟨.called, true⟩], [⟨0, ()⟩], [], []⟩
  let returned : ThreadPoolExecutor Unit :=
    ⟨true, [], [.exited], [⟨(), .returned, false, true⟩], [⟨.returned, true⟩], [⟨0, ()⟩], [⟨0, ()⟩], [⟨0, ()⟩]⟩
  have hcall : (threadPoolExecutor 1).Run (.create 1)
      [.callSubmit (), .enqueue 0, .notifyOne 0 none, .callShutdown true] called := by
    iterate 4 refine .cons rfl ?_
    exact .nil _
  have hreturn : (threadPoolExecutor 1).Run called
      [.setShutdown 0, .notifyAll 0, .check 0, .execute 0, .check 0, .join 0] returned := by
    iterate 6 refine .cons rfl ?_
    exact .nil _
  have hrest : ∀ c, ¬ (threadPoolExecutor 1).Enabled PoolStep.thread c returned :=
    not_enabled_at_rest (by decide) (by decide) (by decide)
  obtain ⟨e, hfair, hstate, hlabels⟩ := System.exists_execution_of_run rfl hcall hreturn hrest
  have hcalled : e.state 4 = called := hstate
  refine ⟨e, by rw [hcalled], by rw [hcalled], ?_⟩
  have hceases : ∀ m j, 10 ≤ m → e.label m ≠ some (.enqueue j) := by
    intro m j hm hlabel
    rw [hlabels m, List.getElem?_eq_none hm] at hlabel
    cases hlabel
  obtain ⟨m, hm, hreturned, hexited⟩ :=
    (calls_return hfair 4 0).2 ⟨.called, true⟩ (by rw [hcalled]; rfl) fun _ => ⟨10, hceases⟩
  exact ⟨m, hm, hreturned, hexited rfl⟩

end Returns

end ThreadPoolExecutor

end Blueth.Concurrency
