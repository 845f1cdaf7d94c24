/-
# Blueth.Concurrency.ThreadPool — `ThreadPoolExecutor`, its workers and its callers.

The atomic steps are the sections under `queue_mutex_`, the notifications (sent with the mutex released),
a spurious wake-up, and the invocation of a work taken from the queue. Which of them comes next is
anybody's choice, so a run of `threadPoolExecutor` is an interleaving of the workers, of any number of
`submit()` calls and of any number of calls of `shutdown()` and of the destructor.

* A worker is `ready` when all that keeps it from testing the predicate of `worker_cv_.wait` is the mutex:
  at the top of its loop, and after a wake-up.
* A call of `submit()` is made, enters its section, notifies and returns; `shutdown()` is alike, and the
  destructor then waits in `join()` for every worker.
* `posted`, `taken` and `executed` are histories. So are the two flags of a `SubmitCall`: whether the call
  was made after some `shutdown()` had returned, and whether it returned before any was called.

`submit()` never looks at `shutdown_`.
-/
import Blueth.Transition.System
import Blueth.Transition.Threads

set_option autoImplicit false

namespace Blueth.Concurrency

open Blueth.Transition
open Blueth.Transition.Threads (holdings Woken)

variable {Callable : Type*}

/-! ## Workers and calls -/

/-- A `Callable`, and which call of `submit()` handed it over. -/
structure Work (Callable : Type*) where
  ticket : ℕ
  callable : Callable
deriving DecidableEq, Repr

/-- Where a thread of `thread_pool_` stands. -/
inductive Worker (Callable : Type*)
  | ready
  | asleep
  | running (work : Work Callable)
  | exited
deriving DecidableEq, Repr

namespace Worker

def sleeps : Worker Callable → Bool
  | asleep => true
  | _ => false

/-- A woken worker takes the mutex again and tests the predicate again. -/
def wake (_ : Worker Callable) : Worker Callable := ready

def isExited : Worker Callable → Bool
  | exited => true
  | _ => false

def isReady : Worker Callable → Bool
  | ready => true
  | _ => false

def isRunning : Worker Callable → Bool
  | running _ => true
  | _ => false

/-- The work in its hands: `std::optional<Callable> work`. -/
def held : Worker Callable → Option (Work Callable)
  | running work => some work
  | _ => none

/-- Neither asleep nor exited. -/
def Active (w : Worker Callable) : Prop := w.sleeps = false ∧ w.isExited = false

end Worker

/-- How far a call has come. Only the destructor is ever `joining`. -/
inductive CallPhase
  | called
  | notifying
  | joining
  | returned
deriving DecidableEq, Repr

/-- A call of `submit()`. -/
structure SubmitCall (Callable : Type*) where
  callableFunction : Callable
  phase : CallPhase
  afterShutdown : Bool
  beforeShutdown : Bool
deriving DecidableEq, Repr

/-- A call of `shutdown()`, or the destructor, which joins the workers too. -/
structure ShutdownCall where
  phase : CallPhase
  joins : Bool
deriving DecidableEq, Repr

/-- The executor, the calls made on it, and its history. -/
structure ThreadPoolExecutor (Callable : Type*) where
  shutdown : Bool
  workQueue : List (Work Callable)
  threadPool : List (Worker Callable)
  submits : List (SubmitCall Callable)
  shutdowns : List ShutdownCall
  posted : List (Work Callable)
  taken : List (Work Callable)
  executed : List (Work Callable)
deriving DecidableEq, Repr

/-- Who moves, and how. -/
inductive PoolStep (Callable : Type*)
  | callSubmit (callableFunction : Callable)
  | enqueue (call : ℕ)
  | notifyOne (call : ℕ) (woken : Option ℕ)
  | callShutdown (joins : Bool)
  | setShutdown (call : ℕ)
  | notifyAll (call : ℕ)
  | join (call : ℕ)
  | check (worker : ℕ)
  | execute (worker : ℕ)
  | spurious (worker : ℕ)
deriving DecidableEq, Repr

namespace ThreadPoolExecutor

/-- The constructor: `pool_size` threads, none of which has run yet. -/
def create (poolSize : ℕ) : ThreadPoolExecutor Callable :=
  ⟨false, [], List.replicate poolSize .ready, [], [], [], [], []⟩

def isShutdown (s : ThreadPoolExecutor Callable) : Bool := s.shutdown

/-- What the workers have in their hands. -/
def inHands (s : ThreadPoolExecutor Callable) : List (Work Callable) :=
  holdings Worker.held s.threadPool

def allExited (s : ThreadPoolExecutor Callable) : Bool := s.threadPool.all Worker.isExited

/-- Some `shutdown()`, or the destructor, has returned. -/
def hasShutDown (s : ThreadPoolExecutor Callable) : Bool :=
  s.shutdowns.any fun call => call.phase = .returned

/-! ## `submit()` -/

def callSubmit (s : ThreadPoolExecutor Callable) (callableFunction : Callable) :
    ThreadPoolExecutor Callable :=
  { s with submits := s.submits ++ [⟨callableFunction, .called, s.hasShutDown, false⟩] }

/-- The section of `submit()`: `work_queue_.emplace`. -/
def enqueue (s : ThreadPoolExecutor Callable) (k : ℕ) : Option (ThreadPoolExecutor Callable) :=
  match s.submits[k]? with
  | some ⟨f, .called, after, before⟩ =>
    some { s with
      workQueue := s.workQueue ++ [⟨k, f⟩]
      posted := s.posted ++ [⟨k, f⟩]
      submits := s.submits.set k ⟨f, .notifying, after, before⟩ }
  | _ => none

/-- The rest of `submit()`: `worker_cv_.notify_one()`, and the call is over. -/
def notifyOne (s : ThreadPoolExecutor Callable) (k : ℕ) (woken : Option ℕ) :
    Option (ThreadPoolExecutor Callable) :=
  match s.submits[k]?, Threads.notifyOne Worker.sleeps Worker.wake s.threadPool woken with
  | some ⟨f, .notifying, after, _⟩, some threadPool =>
    some { s with
      threadPool := threadPool
      submits := s.submits.set k ⟨f, .returned, after, s.shutdowns.isEmpty⟩ }
  | _, _ => none

/-! ## `shutdown()` and the destructor -/

def callShutdown (s : ThreadPoolExecutor Callable) (joins : Bool) : ThreadPoolExecutor Callable :=
  { s with shutdowns := s.shutdowns ++ [⟨.called, joins⟩] }

/-- The section of both: `shutdown_ = true`. -/
def setShutdown (s : ThreadPoolExecutor Callable) (k : ℕ) : Option (ThreadPoolExecutor Callable) :=
  match s.shutdowns[k]? with
  | some ⟨.called, joins⟩ =>
    some { s with shutdown := true, shutdowns := s.shutdowns.set k ⟨.notifying, joins⟩ }
  | _ => none

/-- `worker_cv_.notify_all()`; `shutdown()` is over, the destructor goes on to join. -/
def notifyAll (s : ThreadPoolExecutor Callable) (k : ℕ) : Option (ThreadPoolExecutor Callable) :=
  match s.shutdowns[k]? with
  | some ⟨.notifying, joins⟩ =>
    some { s with
      threadPool := Threads.notifyAll Worker.sleeps Worker.wake s.threadPool
      shutdowns := s.shutdowns.set k ⟨if joins then .joining else .returned, joins⟩ }
  | _ => none

/-- `worker.join()` for every worker has returned. -/
def join (s : ThreadPoolExecutor Callable) (k : ℕ) : Option (ThreadPoolExecutor Callable) :=
  match s.shutdowns[k]? with
  | some ⟨.joining, joins⟩ =>
    if s.allExited then some { s with shutdowns := s.shutdowns.set k ⟨.returned, joins⟩ } else none
  | _ => none

/-! ## The worker's loop -/

def setWorker (s : ThreadPoolExecutor Callable) (i : ℕ) (w : Worker Callable) :
    ThreadPoolExecutor Callable :=
  { s with threadPool := s.threadPool.set i w }

/-- The predicate of `worker_cv_.wait`. -/
def mayProceed (s : ThreadPoolExecutor Callable) : Bool := s.shutdown || !s.workQueue.isEmpty

/-- The section of the loop, from the test of the predicate on. `wait` releases the mutex and goes to
sleep in one step; otherwise the worker returns, or takes the front of the queue. -/
def check (s : ThreadPoolExecutor Callable) (i : ℕ) : Option (ThreadPoolExecutor Callable) :=
  match s.threadPool[i]? with
  | some .ready =>
    if s.mayProceed then
      if s.shutdown && s.workQueue.isEmpty then some (s.setWorker i .exited)
      else
        match s.workQueue with
        | work :: rest =>
          some { s.setWorker i (.running work) with workQueue := rest, taken := s.taken ++ [work] }
        | [] => none
    else some (s.setWorker i .asleep)
  | _ => none

/-- `(*work)()`, and back to the top of the loop. -/
def execute (s : ThreadPoolExecutor Callable) (i : ℕ) : Option (ThreadPoolExecutor Callable) :=
  match s.threadPool[i]? with
  | some (.running work) => some { s.setWorker i .ready with executed := s.executed ++ [work] }
  | _ => none

/-- A spurious wake-up. -/
def spurious (s : ThreadPoolExecutor Callable) (i : ℕ) : Option (ThreadPoolExecutor Callable) :=
  match s.threadPool[i]? with
  | some .asleep => some (s.setWorker i .ready)
  | _ => none

def step (s : ThreadPoolExecutor Callable) : PoolStep Callable → Option (ThreadPoolExecutor Callable)
  | .callSubmit callableFunction => some (s.callSubmit callableFunction)
  | .enqueue call => s.enqueue call
  | .notifyOne call woken => s.notifyOne call woken
  | .callShutdown joins => some (s.callShutdown joins)
  | .setShutdown call => s.setShutdown call
  | .notifyAll call => s.notifyAll call
  | .join call => s.join call
  | .check worker => s.check worker
  | .execute worker => s.execute worker
  | .spurious worker => s.spurious worker

end ThreadPoolExecutor

/-- **The system**: `pool_size` workers, and callers that come at any time. -/
def threadPoolExecutor (poolSize : ℕ) : System (ThreadPoolExecutor Callable) (PoolStep Callable) where
  init s := s = .create poolSize
  next s a t := s.step a = some t

namespace ThreadPoolExecutor

/-! ## What a step can do -/

section Moves

variable {s t : ThreadPoolExecutor Callable} {a : PoolStep Callable}

/-- The twelve things that can happen. -/
inductive Moves (s : ThreadPoolExecutor Callable) :
    PoolStep Callable → ThreadPoolExecutor Callable → Prop
  | callSubmit (f : Callable) : Moves s (.callSubmit f) (s.callSubmit f)
  | enqueue (k : ℕ) (f : Callable) (after before : Bool)
      (hcall : s.submits[k]? = some ⟨f, .called, after, before⟩) :
      Moves s (.enqueue k) { s with
        workQueue := s.workQueue ++ [⟨k, f⟩]
        posted := s.posted ++ [⟨k, f⟩]
        submits := s.submits.set k ⟨f, .notifying, after, before⟩ }
  | notifyOne (k : ℕ) (woken : Option ℕ) (f : Callable) (after before : Bool)
      (threadPool : List (Worker Callable))
      (hcall : s.submits[k]? = some ⟨f, .notifying, after, before⟩)
      (hwoken : Threads.notifyOne Worker.sleeps Worker.wake s.threadPool woken = some threadPool) :
      Moves s (.notifyOne k woken) { s with
        threadPool := threadPool
        submits := s.submits.set k ⟨f, .returned, after, s.shutdowns.isEmpty⟩ }
  | callShutdown (joins : Bool) : Moves s (.callShutdown joins) (s.callShutdown joins)
  | setShutdown (k : ℕ) (joins : Bool) (hcall : s.shutdowns[k]? = some ⟨.called, joins⟩) :
      Moves s (.setShutdown k) { s with
        shutdown := true
        shutdowns := s.shutdowns.set k ⟨.notifying, joins⟩ }
  | notifyAll (k : ℕ) (joins : Bool) (hcall : s.shutdowns[k]? = some ⟨.notifying, joins⟩) :
      Moves s (.notifyAll k) { s with
        threadPool := Threads.notifyAll Worker.sleeps Worker.wake s.threadPool
        shutdowns := s.shutdowns.set k ⟨if joins then .joining else .returned, joins⟩ }
  | join (k : ℕ) (joins : Bool) (hcall : s.shutdowns[k]? = some ⟨.joining, joins⟩)
      (hexited : s.allExited = true) :
      Moves s (.join k) { s with shutdowns := s.shutdowns.set k ⟨.returned, joins⟩ }
  | sleep (i : ℕ) (hready : s.threadPool[i]? = some .ready) (hflag : s.shutdown = false)
      (hqueue : s.workQueue = []) : Moves s (.check i) (s.setWorker i .asleep)
  | exit (i : ℕ) (hready : s.threadPool[i]? = some .ready) (hflag : s.shutdown = true)
      (hqueue : s.workQueue = []) : Moves s (.check i) (s.setWorker i .exited)
  | take (i : ℕ) (work : Work Callable) (rest : List (Work Callable))
      (hready : s.threadPool[i]? = some .ready) (hqueue : s.workQueue = work :: rest) :
      Moves s (.check i)
        { s.setWorker i (.running work) with workQueue := rest, taken := s.taken ++ [work] }
  | execute (i : ℕ) (work : Work Callable) (hrunning : s.threadPool[i]? = some (.running work)) :
      Moves s (.execute i) { s.setWorker i .ready with executed := s.executed ++ [work] }
  | spurious (i : ℕ) (hasleep : s.threadPool[i]? = some .asleep) :
      Moves s (.spurious i) (s.setWorker i .ready)

theorem check_eq_some {i : ℕ} (h : s.check i = some t) : Moves s (.check i) t := by
  unfold check at h
  split at h
  · rename_i hready
    cases hqueue : s.workQueue with
    | nil =>
      cases hflag : s.shutdown with
      | false =>
        simp only [mayProceed, hqueue, hflag] at h
        cases h
        exact .sleep i hready hflag hqueue
      | true =>
        simp only [mayProceed, hqueue, hflag] at h
        cases h
        exact .exit i hready hflag hqueue
    | cons work rest =>
      simp only [mayProceed, hqueue, List.isEmpty_cons, Bool.not_false, Bool.or_true, Bool.and_false,
        if_true, Bool.false_eq_true, if_false] at h
      cases h
      exact .take i work rest hready hqueue
  · cases h

theorem step_moves (h : s.step a = some t) : Moves s a t := by
  cases a with
  | callSubmit f =>
    cases h
    exact .callSubmit f
  | enqueue k =>
    simp only [step, enqueue] at h
    split at h
    · rename_i f after before hcall
      cases h
      exact .enqueue k f after before hcall
    · cases h
  | notifyOne k woken =>
    simp only [step, notifyOne] at h
    split at h
    · rename_i f after before threadPool hcall hwoken
      cases h
      exact .notifyOne k woken f after before threadPool hcall hwoken
    · cases h
  | callShutdown joins =>
    cases h
    exact .callShutdown joins
  | setShutdown k =>
    simp only [step, setShutdown] at h
    split at h
    · rename_i joins hcall
      cases h
      exact .setShutdown k joins hcall
    · cases h
  | notifyAll k =>
    simp only [step, notifyAll] at h
    split at h
    · rename_i joins hcall
      cases h
      exact .notifyAll k joins hcall
    · cases h
  | join k =>
    simp only [step, join] at h
    split at h
    · rename_i joins hcall
      simp only [Option.ite_none_right_eq_some, Option.some.injEq] at h
      rw [← h.2]
      exact .join k joins hcall h.1
    · cases h
  | check i => exact check_eq_some h
  | execute i =>
    simp only [step, execute] at h
    split at h
    · rename_i work hrunning
      cases h
      exact .execute i work hrunning
    · cases h
  | spurious i =>
    simp only [step, spurious] at h
    split at h
    · rename_i hasleep
      cases h
      exact .spurious i hasleep
    · cases h

/-- How one call of `submit()` fares in a step. -/
inductive SubmitMoves (s t : ThreadPoolExecutor Callable) (a : PoolStep Callable) (k : ℕ) : Prop
  | quiet (hsame : t.submits[k]? = s.submits[k]?) (henqueue : a ≠ .enqueue k)
      (hnotify : ∀ woken, a ≠ .notifyOne k woken)
  | made (f : Callable) (ha : a = .callSubmit f) (hold : s.submits[k]? = none)
      (hnew : t.submits[k]? = some ⟨f, .called, s.hasShutDown, false⟩)
  | enqueued (f : Callable) (after before : Bool) (ha : a = .enqueue k)
      (hold : s.submits[k]? = some ⟨f, .called, after, before⟩)
      (hnew : t.submits[k]? = some ⟨f, .notifying, after, before⟩)
  | notified (woken : Option ℕ) (f : Callable) (after before : Bool) (ha : a = .notifyOne k woken)
      (hold : s.submits[k]? = some ⟨f, .notifying, after, before⟩)
      (hnew : t.submits[k]? = some ⟨f, .returned, after, s.shutdowns.isEmpty⟩)
      (hawake : s.threadPool ≠ [] → ∃ w ∈ t.threadPool, w.sleeps = false)

theorem submits_step (h : s.step a = some t) (k : ℕ) : SubmitMoves s t a k := by
  cases step_moves h with
  | callSubmit f =>
    rcases Threads.getElem?_concat_cases s.submits ⟨f, .called, s.hasShutDown, false⟩ k with
      hsame | ⟨hold, hnew⟩
    · exact .quiet hsame nofun nofun
    · exact .made f rfl hold hnew
  | enqueue j f after before hcall =>
    rcases Threads.getElem?_set_cases hcall k ⟨f, .notifying, after, before⟩ with
      ⟨rfl, hnew⟩ | ⟨hj, hsame⟩
    · exact .enqueued f after before rfl hcall hnew
    · refine .quiet hsame ?_ nofun
      intro heq
      cases heq
      exact hj rfl
  | notifyOne j woken f after before threadPool hcall hwoken =>
    rcases Threads.getElem?_set_cases hcall k ⟨f, .returned, after, s.shutdowns.isEmpty⟩ with
      ⟨rfl, hnew⟩ | ⟨hj, hsame⟩
    · exact .notified woken f after before rfl hcall hnew fun hpool =>
        Threads.exists_awake_of_notifyOne (fun w => rfl) hpool hwoken
    · refine .quiet hsame nofun ?_
      intro woken' heq
      cases heq
      exact hj rfl
  | _ => exact .quiet rfl nofun nofun

/-- How one call of `shutdown()`, or the destructor, fares in a step. -/
inductive ShutdownMoves (s t : ThreadPoolExecutor Callable) (a : PoolStep Callable) (k : ℕ) : Prop
  | quiet (hsame : t.shutdowns[k]? = s.shutdowns[k]?) (hnotify : a ≠ .notifyAll k)
  | made (joins : Bool) (hold : s.shutdowns[k]? = none)
      (hnew : t.shutdowns[k]? = some ⟨.called, joins⟩)
  | raised (joins : Bool) (hold : s.shutdowns[k]? = some ⟨.called, joins⟩)
      (hnew : t.shutdowns[k]? = some ⟨.notifying, joins⟩) (hflag : t.shutdown = true)
  | notified (joins : Bool) (ha : a = .notifyAll k)
      (hold : s.shutdowns[k]? = some ⟨.notifying, joins⟩)
      (hnew : t.shutdowns[k]? = some ⟨if joins then .joining else .returned, joins⟩)
      (hawake : ∀ w ∈ t.threadPool, w.sleeps = false)
  | joined (joins : Bool) (hold : s.shutdowns[k]? = some ⟨.joining, joins⟩)
      (hnew : t.shutdowns[k]? = some ⟨.returned, joins⟩) (hexited : t.allExited = true)

theorem shutdowns_step (h : s.step a = some t) (k : ℕ) : ShutdownMoves s t a k := by
  cases step_moves h with
  | callShutdown joins =>
    rcases Threads.getElem?_concat_cases s.shutdowns ⟨.called, joins⟩ k with hsame | ⟨hold, hnew⟩
    · exact .quiet hsame nofun
    · exact .made joins hold hnew
  | setShutdown j joins hcall =>
    rcases Threads.getElem?_set_cases hcall k ⟨.notifying, joins⟩ with ⟨rfl, hnew⟩ | ⟨-, hsame⟩
    · exact .raised joins hcall hnew rfl
    · exact .quiet hsame nofun
  | notifyAll j joins hcall =>
    rcases Threads.getElem?_set_cases hcall k ⟨if joins then .joining else .returned, joins⟩ with
      ⟨rfl, hnew⟩ | ⟨hj, hsame⟩
    · exact .notified joins rfl hcall hnew (Threads.awake_of_notifyAll fun w => rfl)
    · refine .quiet hsame ?_
      intro heq
      cases heq
      exact hj rfl
  | join j joins hcall hexited =>
    rcases Threads.getElem?_set_cases hcall k ⟨.returned, joins⟩ with ⟨rfl, hnew⟩ | ⟨-, hsame⟩
    · exact .joined joins hcall hnew hexited
    · exact .quiet hsame nofun
  | _ => exact .quiet rfl nofun

/-- How one worker fares in a step. -/
inductive WorkerMoves (s t : ThreadPoolExecutor Callable) (a : PoolStep Callable) (i : ℕ) : Prop
  | quiet (hsame : t.threadPool[i]? = s.threadPool[i]?) (hcheck : a ≠ .check i)
      (hexecute : a ≠ .execute i)
  | woken (hold : s.threadPool[i]? = some .asleep) (hnew : t.threadPool[i]? = some .ready)
  | slept (ha : a = .check i) (hold : s.threadPool[i]? = some .ready) (hflag : s.shutdown = false)
      (hqueue : s.workQueue = []) (hnew : t.threadPool[i]? = some .asleep)
  | exited (ha : a = .check i) (hold : s.threadPool[i]? = some .ready) (hflag : s.shutdown = true)
      (hqueue : s.workQueue = []) (hnew : t.threadPool[i]? = some .exited)
  | took (ha : a = .check i) (work : Work Callable) (rest : List (Work Callable))
      (hold : s.threadPool[i]? = some .ready) (hqueue : s.workQueue = work :: rest)
      (hnew : t.threadPool[i]? = some (.running work)) (htaken : t.taken = s.taken ++ [work])
  | executed (ha : a = .execute i) (work : Work Callable)
      (hold : s.threadPool[i]? = some (.running work)) (hnew : t.threadPool[i]? = some .ready)
      (hexecuted : t.executed = s.executed ++ [work])

/-- A notification leaves a worker alone or wakes it. -/
theorem WorkerMoves.of_woken {i : ℕ} (h : Woken Worker.sleeps Worker.wake s.threadPool t.threadPool)
    (hcheck : a ≠ .check i) (hexecute : a ≠ .execute i) : WorkerMoves s t a i := by
  cases hi : s.threadPool[i]? with
  | none =>
    refine .quiet ?_ hcheck hexecute
    rw [hi]
    rw [List.getElem?_eq_none_iff] at hi ⊢
    rw [h.length]
    exact hi
  | some w =>
    rcases h.each i w hi with hsame | ⟨hsleeps, hwake⟩
    · exact .quiet (hsame.trans hi.symm) hcheck hexecute
    · cases w with
      | asleep => exact .woken hi hwake
      | _ => cases hsleeps

theorem workers_step (h : s.step a = some t) (i : ℕ) : WorkerMoves s t a i := by
  -- a step of another worker is no step of this one
  have hcheck : ∀ {j : ℕ}, j ≠ i → (PoolStep.check j : PoolStep Callable) ≠ .check i := by
    intro j hj heq
    cases heq
    exact hj rfl
  have hexecute : ∀ {j : ℕ}, j ≠ i → (PoolStep.execute j : PoolStep Callable) ≠ .execute i := by
    intro j hj heq
    cases heq
    exact hj rfl
  cases step_moves h with
  | notifyOne k woken f after before threadPool hcall hwoken =>
    exact .of_woken (Threads.woken_notifyOne hwoken) nofun nofun
  | notifyAll k joins hcall => exact .of_woken Threads.woken_notifyAll nofun nofun
  | sleep j hready hflag hqueue =>
    rcases Threads.getElem?_set_cases hready i .asleep with ⟨rfl, hnew⟩ | ⟨hj, hsame⟩
    · exact .slept rfl hready hflag hqueue hnew
    · exact .quiet hsame (hcheck hj) nofun
  | exit j hready hflag hqueue =>
    rcases Threads.getElem?_set_cases hready i .exited with ⟨rfl, hnew⟩ | ⟨hj, hsame⟩
    · exact .exited rfl hready hflag hqueue hnew
    · exact .quiet hsame (hcheck hj) nofun
  | take j work rest hready hqueue =>
    rcases Threads.getElem?_set_cases hready i (.running work) with ⟨rfl, hnew⟩ | ⟨hj, hsame⟩
    · exact .took rfl work rest hready hqueue hnew rfl
    · exact .quiet hsame (hcheck hj) nofun
  | execute j work hrunning =>
    rcases Threads.getElem?_set_cases hrunning i .ready with ⟨rfl, hnew⟩ | ⟨hj, hsame⟩
    · exact .executed rfl work hrunning hnew rfl
    · exact .quiet hsame nofun (hexecute hj)
  | spurious j hasleep =>
    rcases Threads.getElem?_set_cases hasleep i .ready with ⟨rfl, hnew⟩ | ⟨hj, hsame⟩
    · exact .woken hasleep hnew
    · exact .quiet hsame nofun nofun
  | _ => exact .quiet rfl nofun nofun

end Moves

end ThreadPoolExecutor

end Blueth.Concurrency
