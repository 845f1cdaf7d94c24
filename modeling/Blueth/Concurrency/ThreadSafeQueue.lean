/-
# Blueth.Concurrency.ThreadSafeQueue — `ThreadSafeQueue` (`concurrency/ThreadsafeQueue.hpp`).

Every member function is one section under `mutex_`, so the queue is an object behind a lock that is always
taken exclusively. The accesses are those of the source: `pop` looks whether the queue is empty, moves the
front out, and takes the slot away in a third step; in between the slot holds an element that has been moved
from, and nobody may see it there.

What the lock buys is `queue_linearizable`: whatever the threads do, the calls and answers are those of a FIFO
queue whose operations happen at one instant. In the order in which the lock was given back, what has been
pushed is what has been popped followed by what is still there (`queue_first_in_first_out`).

The move constructor is left out: `queue_(std::move(queue_move))` calls an object that cannot be called, so
no program contains it.
-/
import Blueth.Transition.Atomic

set_option autoImplicit false

namespace Blueth.Concurrency.ThreadSafeQueue

open Blueth.Transition Blueth.Transition.Guarded

variable {ι T : Type*}

/-! ## The class -/

/-- A slot of `queue_`. -/
inductive Slot (T : Type*)
  | holds (data : T)
  | movedFrom
deriving DecidableEq, Repr

/-- The calls; `push` has an overload that copies and one that moves. -/
inductive QueueCall (T : Type*)
  | size
  | pop
  | pushCopy (data : T)
  | pushMove (data : T)
deriving DecidableEq, Repr

inductive QueueAnswer (T : Type*)
  | size (n : ℕ)
  | popped (data : Option (Slot T))
  | pushed
deriving DecidableEq, Repr

abbrev QueueHandler (T : Type*) := Handler (List (Slot T)) (QueueAnswer T)

/-- `queue_.front()` is moved from; its slot stays. -/
def moveFront : List (Slot T) → List (Slot T)
  | [] => []
  | _ :: queue => .movedFrom :: queue

/-- `size()`. -/
def size : QueueHandler T := .look fun queue => .done (.size queue.length)

/-- `pop()`. -/
def pop : QueueHandler T :=
  .look fun queue =>
    if queue.isEmpty then .done (.popped none)
    else
      .look fun queue =>
        -- of an empty queue there would be no front; nobody has emptied it in the meantime
        let returner := queue.headD .movedFrom
        .store moveFront (.store List.tail (.done (.popped (some returner))))

/-- `push(const T &)`: `queue_.push(data)`. -/
def pushCopy (data : T) : QueueHandler T := .store (· ++ [.holds data]) (.done .pushed)

/-- `push(T &&)`: `queue_.emplace(std::move(data))`. -/
def pushMove (data : T) : QueueHandler T := .store (· ++ [.holds data]) (.done .pushed)

/-- The member functions; each of them holds a `std::lock_guard`. -/
def interface : Interface (QueueCall T) (List (Slot T)) (QueueAnswer T) where
  mode _ := .exclusive
  body
    | .size => size
    | .pop => pop
    | .pushCopy data => pushCopy data
    | .pushMove data => pushMove data
  readsOnly _ h := by cases h

/-- **The system**: a queue that has just been constructed, and threads that call it. -/
def threadSafeQueue [DecidableEq ι] :
    System (State ι (QueueCall T) (List (Slot T)) (QueueAnswer T)) (Act ι (QueueCall T) (QueueAnswer T)) :=
  guarded interface (· = [])

/-! ## What it implements -/

/-- A FIFO queue. -/
def fifo : QueueCall T → List T → QueueAnswer T × List T
  | .size, queue => (.size queue.length, queue)
  | .pop, [] => (.popped none, [])
  | .pop, data :: queue => (.popped (some (.holds data)), queue)
  | .pushCopy data, queue => (.pushed, queue ++ [data])
  | .pushMove data, queue => (.pushed, queue ++ [data])

/-- Every slot holds its element. -/
def Holds (slots : List (Slot T)) (queue : List T) : Prop := slots = queue.map .holds

theorem holds_concat (queue : List T) (data : T) :
    Holds (queue.map .holds ++ [.holds data]) (queue ++ [data]) := by
  unfold Holds
  rw [List.map_append, List.map_singleton]

/-- Run alone, the member functions are those of the FIFO queue, and they leave no slot moved from. -/
theorem implements : Implements (interface (T := T)) fifo Holds := by
  rintro call _ queue rfl
  cases call with
  | size => exact ⟨congrArg QueueAnswer.size (List.length_map ..), rfl⟩
  | pop =>
      cases queue with
      | nil => exact ⟨rfl, rfl⟩
      | cons data queue => exact ⟨rfl, rfl⟩
  | pushCopy data => exact ⟨rfl, holds_concat queue data⟩
  | pushMove data => exact ⟨rfl, holds_concat queue data⟩

theorem holds_nil (slots : List (Slot T)) (h : slots = []) : Holds slots [] := h

/-! ## A producer and a consumer -/

/-- A queue no thread has called. -/
def fresh : State Bool (QueueCall ℕ) (List (Slot ℕ)) (QueueAnswer ℕ) := ⟨[], .free, fun _ => .outside⟩

/-- One thread pushes while the other is waiting to pop. -/
def producerConsumer : List (Act Bool (QueueCall ℕ) (QueueAnswer ℕ)) :=
  [.call true (.pushMove 7), .call false .pop, .lock true, .access true, .unlock true (.pushMove 7) .pushed,
    .lock false, .access false, .access false, .access false, .access false,
    .unlock false .pop (.popped (some (.holds 7))), .answer true .pushed,
    .answer false (.popped (some (.holds 7)))]

theorem fresh_init : (threadSafeQueue (ι := Bool) (T := ℕ)).init fresh := ⟨rfl, rfl, fun _ => rfl⟩

theorem producerConsumer_run : ∃ t, threadSafeQueue.Run fresh producerConsumer t :=
  ⟨_, .cons (.call _ rfl) <| .cons (.call _ rfl) <| .cons (.lock rfl rfl) <| .cons (.store rfl) <|
    .cons (.unlock rfl rfl) <| .cons (.lock rfl rfl) <| .cons (.look rfl) <| .cons (.look rfl) <|
    .cons (.store rfl) <| .cons (.store rfl) <| .cons (.unlock rfl rfl) <| .cons (.answer rfl) <|
    .cons (.answer rfl) <| .nil _⟩

/-! ## Any number of threads -/

section Runs

variable [DecidableEq ι] {s t : State ι (QueueCall T) (List (Slot T)) (QueueAnswer T)}
  {as : List (Act ι (QueueCall T) (QueueAnswer T))}

/-- **`ThreadSafeQueue` is linearizable.** -/
theorem queue_linearizable (hs : (threadSafeQueue (ι := ι) (T := T)).init s) (hr : threadSafeQueue.Run s as t) :
    Linearizable fifo [] (as.filterMap Act.event) :=
  linearizable_of_implements implements holds_nil hs hr

theorem queue_linearizable_producerConsumer :
    Linearizable fifo [] [Event.call true (QueueCall.pushMove 7), .call false .pop, .answer true .pushed,
      .answer false (.popped (some (.holds 7)))] := by
  obtain ⟨t, hr⟩ := producerConsumer_run
  exact queue_linearizable fresh_init hr

/-- What an operation that has happened has put into the queue. -/
def put : QueueCall T × QueueAnswer T → Option T
  | (.pushCopy data, _) => some data
  | (.pushMove data, _) => some data
  | _ => none

/-- What it has taken out. -/
def got : QueueCall T × QueueAnswer T → Option (Slot T)
  | (.pop, .popped data) => data
  | _ => none

/-- The elements pushed in a run, in the order in which their `push` gave the lock back. -/
def pushed (as : List (Act ι (QueueCall T) (QueueAnswer T))) : List T :=
  (as.filterMap Act.completion).filterMap put

/-- What the `pop`s of a run have answered, in the order in which they gave the lock back. -/
def popped (as : List (Act ι (QueueCall T) (QueueAnswer T))) : List (Slot T) :=
  (as.filterMap Act.completion).filterMap got

omit [DecidableEq ι] in
/-- In a sequential history nothing is lost, nothing comes from nowhere, and the order stays. -/
theorem conserved_of_sequential {queue queue' : List T} {history : List (QueueCall T × QueueAnswer T)}
    (h : (sequential fifo ([] : List T)).Run queue history queue') :
    (queue ++ history.filterMap put).map .holds = history.filterMap got ++ queue'.map Slot.holds := by
  induction h with
  | nil queue => simp
  | @cons queue queue' queue'' op history hn _ ih =>
      obtain ⟨call, answer⟩ := op
      have hn : fifo call queue = (answer, queue') := hn
      cases call with
      | size =>
          cases hn
          exact ih
      | pop =>
          cases queue with
          | nil =>
              cases hn
              exact ih
          | cons data queue =>
              cases hn
              exact congrArg (Slot.holds data :: ·) ih
      | pushCopy data =>
          cases hn
          rw [List.append_assoc] at ih
          exact ih
      | pushMove data =>
          cases hn
          rw [List.append_assoc] at ih
          exact ih

/-- **First in, first out.** In every run, at every moment: what has been pushed is what has been popped,
followed by what is left, each element once and with no slot moved from; and when the lock is free, what is
left is what the queue holds. -/
theorem queue_first_in_first_out (hs : (threadSafeQueue (ι := ι) (T := T)).init s)
    (hr : threadSafeQueue.Run s as t) :
    ∃ left : List T, (pushed as).map .holds = popped as ++ left.map .holds ∧
      (t.mutex = .free → t.object = left.map .holds) := by
  obtain ⟨left, hrun, hleft⟩ := implements.sequential holds_nil hs hr
  refine ⟨left, conserved_of_sequential hrun, fun hfree => hleft fun i => ?_⟩
  rw [hfree]
  exact SharedMutex.not_heldBy_free

theorem queue_first_in_first_out_producerConsumer :
    ∃ t, threadSafeQueue.Run fresh producerConsumer t ∧
      ∃ left : List ℕ, [Slot.holds 7] = [Slot.holds 7] ++ left.map .holds ∧
        (t.mutex = .free → t.object = left.map .holds) := by
  obtain ⟨t, hr⟩ := producerConsumer_run
  exact ⟨t, hr, queue_first_in_first_out fresh_init hr⟩

/-- **Every call returns**, whatever the scheduler does. -/
theorem queue_calls_return [Fintype ι] (hs : (threadSafeQueue (ι := ι) (T := T)).Reachable s) :
    (threadSafeQueue.only fun _ a => a.isCall = false).Inevitable (fun t => ∀ i, t.phase i = .outside) s :=
  inevitable_quiet (reachable_coherent hs)

theorem queue_calls_return_fresh :
    (threadSafeQueue.only fun _ a => a.isCall = false).Inevitable (fun t => ∀ i, t.phase i = .outside)
      ((fresh.move true (.waiting (.pushMove 7))).move false (.waiting .pop)) :=
  queue_calls_return (System.reachable_init fresh_init |>.step (.call _ rfl) |>.step (.call _ rfl))

end Runs

end Blueth.Concurrency.ThreadSafeQueue
