/-
# Blueth.Concurrency.ThreadPoolWakeups — no wake-up is lost.

A notification is sent after the mutex is released, to a worker that may be anywhere. What makes that
safe is an invariant about the queue and not about single works: while something is queued, some worker is
on its way to the queue, or somebody still has to notify, or (once the flag is set) some worker has exited.
One wake-up may serve several works, since a worker does not go back to sleep while anything is queued.
The third case is `shutdown_` at work, and it is void where every submit precedes the shutdown.
-/
import Blueth.Concurrency.ThreadPoolWork

set_option autoImplicit false

namespace Blueth.Concurrency

open Blueth.Transition

variable {Callable : Type*}

namespace ThreadPoolExecutor

/-! ## Who will wake the pool -/

/-- Some worker is neither asleep nor exited. -/
def SomeActive (s : ThreadPoolExecutor Callable) : Prop := ∃ w ∈ s.threadPool, w.Active

/-- Some `shutdown()`, or the destructor, still has its `notify_all` to send. -/
def NotifyAllPending (s : ThreadPoolExecutor Callable) : Prop :=
  ∃ call ∈ s.shutdowns, call.phase = .notifying

/-- Some caller still has its notification to send. -/
def NotifyPending (s : ThreadPoolExecutor Callable) : Prop :=
  (∃ call ∈ s.submits, call.phase = .notifying) ∨ s.NotifyAllPending

/-- **The invariant of the wake-ups.** -/
structure WakeInv (s : ThreadPoolExecutor Callable) : Prop where
  queued : s.workQueue ≠ [] → s.SomeActive ∨ s.NotifyPending ∨ Worker.exited ∈ s.threadPool
  raised : s.shutdown = true → s.NotifyAllPending ∨ ∀ w ∈ s.threadPool, w.sleeps = false

section Steps

variable {poolSize : ℕ} {s t : ThreadPoolExecutor Callable} {a : PoolStep Callable}

theorem NotifyAllPending.mono (h : s.NotifyAllPending) (hsub : s.shutdowns ⊆ t.shutdowns) :
    t.NotifyAllPending := by
  obtain ⟨call, hcall, hphase⟩ := h
  exact ⟨call, hsub hcall, hphase⟩

/-- A call that is only made takes no notification away. -/
theorem NotifyPending.mono (h : s.NotifyPending) (hsubmits : s.submits ⊆ t.submits)
    (hshutdowns : s.shutdowns ⊆ t.shutdowns) : t.NotifyPending := by
  rcases h with ⟨call, hcall, hphase⟩ | hall
  · exact .inl ⟨call, hsubmits hcall, hphase⟩
  · exact .inr (hall.mono hshutdowns)

/-- Who is awake is active or gone. -/
theorem active_or_exited {w : Worker Callable} (hmem : w ∈ s.threadPool) (hw : w.sleeps = false) :
    s.SomeActive ∨ Worker.exited ∈ s.threadPool := by
  cases hexited : w.isExited with
  | false => exact .inl ⟨w, hmem, hw, hexited⟩
  | true =>
    cases w with
    | exited => exact .inr hmem
    | _ => cases hexited

theorem someActive_setWorker {i : ℕ} {w w' : Worker Callable} (hi : s.threadPool[i]? = some w)
    (hw' : w'.Active) : (s.setWorker i w').SomeActive :=
  ⟨w', List.mem_set (List.getElem?_eq_some_iff.mp hi).1 _, hw'⟩

/-- Somebody is posted, taken, woken or notified: after any step there is a reason why the queue will not
be forgotten. The old reason is needed only where the step is a call that has not yet come to anything. -/
theorem queued_step (hpool : s.threadPool ≠ []) (hI : s.WakeInv) (h : s.step a = some t)
    (hqueue : t.workQueue ≠ []) :
    t.SomeActive ∨ t.NotifyPending ∨ Worker.exited ∈ t.threadPool := by
  cases step_moves h with
  | callSubmit f =>
    refine (hI.queued hqueue).imp_right (Or.imp_left ?_)
    intro hpending
    exact hpending.mono (List.subset_append_left _ _) (List.Subset.refl _)
  | enqueue k f after before hcall =>
    exact .inr (.inl (.inl ⟨_, List.mem_set (List.getElem?_eq_some_iff.mp hcall).1 _, rfl⟩))
  | notifyOne k woken f after before threadPool hcall hwoken =>
    obtain ⟨w, hw, hsleeps⟩ := Threads.exists_awake_of_notifyOne (fun _ => rfl) hpool hwoken
    exact (active_or_exited hw hsleeps).imp_right .inr
  | callShutdown joins =>
    refine (hI.queued hqueue).imp_right (Or.imp_left ?_)
    intro hpending
    exact hpending.mono (List.Subset.refl _) (List.subset_append_left _ _)
  | setShutdown k joins hcall =>
    exact .inr (.inl (.inr ⟨_, List.mem_set (List.getElem?_eq_some_iff.mp hcall).1 _, rfl⟩))
  | notifyAll k joins hcall =>
    obtain ⟨w, hw⟩ := List.exists_mem_of_ne_nil s.threadPool hpool
    have hmem := List.mem_map_of_mem (f := fun w : Worker Callable => if w.sleeps then w.wake else w) hw
    exact (active_or_exited hmem (Threads.awake_of_notifyAll (fun _ => rfl) _ hmem)).imp_right .inr
  | join k joins hcall hexited =>
    obtain ⟨w, hw⟩ := List.exists_mem_of_ne_nil s.threadPool hpool
    obtain ⟨i, hi⟩ := List.mem_iff_getElem?.mp hw
    rw [allExited_iff.mp hexited i w hi] at hw
    exact .inr (.inr hw)
  | sleep i hready hflag hempty => exact absurd hempty hqueue
  | exit i hready hflag hempty => exact absurd hempty hqueue
  | take i work rest hready hold => exact .inl (someActive_setWorker hready ⟨rfl, rfl⟩)
  | execute i work hrunning => exact .inl (someActive_setWorker hrunning ⟨rfl, rfl⟩)
  | spurious i hasleep => exact .inl (someActive_setWorker hasleep ⟨rfl, rfl⟩)

/-- Nobody goes to sleep once the flag is set, and whoever set it wakes everybody up. -/
theorem raised_step (hI : s.WakeInv) (h : s.step a = some t) (hflag : t.shutdown = true) :
    t.NotifyAllPending ∨ ∀ w ∈ t.threadPool, w.sleeps = false := by
  have hset : ∀ {i : ℕ} {w' : Worker Callable}, w'.sleeps = false → s.shutdown = true →
      s.NotifyAllPending ∨ ∀ w ∈ s.threadPool.set i w', w.sleeps = false := by
    intro i w' hw' hs
    refine (hI.raised hs).imp_right ?_
    intro hawake w hw
    rcases List.mem_or_eq_of_mem_set hw with hmem | rfl
    · exact hawake w hmem
    · exact hw'
  cases step_moves h with
  | notifyOne k woken f after before threadPool hcall hwoken =>
    refine (hI.raised hflag).imp_right ?_
    intro hawake w hw
    obtain ⟨i, hi⟩ := List.mem_iff_getElem?.mp hw
    rcases (Threads.woken_notifyOne hwoken).getElem? hi with hsame | ⟨v, hv, hsleeps, rfl⟩
    · exact hawake w (List.mem_of_getElem? hsame)
    · rfl
  | callShutdown joins =>
    refine (hI.raised hflag).imp_left ?_
    intro hpending
    exact hpending.mono (List.subset_append_left _ _)
  | setShutdown k joins hcall =>
    exact .inl ⟨_, List.mem_set (List.getElem?_eq_some_iff.mp hcall).1 _, rfl⟩
  | notifyAll k joins hcall => exact .inr (Threads.awake_of_notifyAll fun _ => rfl)
  | join k joins hcall hexited =>
    refine .inr ?_
    intro w hw
    obtain ⟨i, hi⟩ := List.mem_iff_getElem?.mp hw
    rw [allExited_iff.mp hexited i w hi]
    rfl
  | sleep i hready hdown hempty =>
    have hs : s.shutdown = true := hflag
    rw [hdown] at hs
    cases hs
  | exit i hready hup hempty => exact hset rfl hflag
  | take i work rest hready hold => exact hset rfl hflag
  | execute i work hrunning => exact hset rfl hflag
  | spurious i hasleep => exact hset rfl hflag
  | callSubmit f => exact hI.raised hflag
  | enqueue k f after before hcall => exact hI.raised hflag

theorem threadPool_ne_nil (hpool : 1 ≤ poolSize) (h : (threadPoolExecutor poolSize).Reachable s) :
    s.threadPool ≠ [] := by
  rw [← List.length_pos_iff, (poolInv_of_reachable h).size]
  exact hpool

/-- **In every reachable state**, whoever submits and whenever. -/
theorem wakeInv_of_reachable (hpool : 1 ≤ poolSize) (h : (threadPoolExecutor poolSize).Reachable s) :
    s.WakeInv := by
  apply h.invariant
  · intro s hs
    rw [hs]
    exact ⟨fun hqueue => absurd rfl hqueue, nofun⟩
  · intro s a t hreach hI hn
    exact ⟨queued_step (threadPool_ne_nil hpool hreach) hI hn, raised_step hI hn⟩

end Steps

/-! ## No lost wake-up -/

/-- **No lost wake-up.** Where every submit precedes the shutdown: while something is queued some worker is
neither asleep nor exited or some caller still has its notification to send; once the flag is set and no
`notify_all` is pending nobody sleeps. So the pool is never stuck: never all asleep, with work queued or
the shutdown requested, and no notification on its way. -/
theorem no_lost_wakeup (poolSize : ℕ) (hpool : 1 ≤ poolSize) (s : ThreadPoolExecutor Callable)
    (h : ((threadPoolExecutor poolSize).only SubmitsFirst).Reachable s) :
    (s.workQueue ≠ [] → s.SomeActive ∨ s.NotifyPending) ∧
    (s.shutdown = true → ¬ s.NotifyAllPending → ∀ w ∈ s.threadPool, w ≠ .asleep) ∧
    ¬ ((∀ w ∈ s.threadPool, w = .asleep) ∧ (s.workQueue ≠ [] ∨ s.shutdown = true) ∧
      ¬ s.NotifyPending) := by
  have hI := wakeInv_of_reachable hpool h.of_only
  have hqueued : s.workQueue ≠ [] → s.SomeActive ∨ s.NotifyPending := by
    intro hqueue
    rcases hI.queued hqueue with hactive | hpending | hexited
    · exact .inl hactive
    · exact .inr hpending
    · exact absurd (workQueue_eq_nil_of_exited h hexited) hqueue
  have hraised : s.shutdown = true → ¬ s.NotifyAllPending → ∀ w ∈ s.threadPool, w ≠ .asleep := by
    intro hflag hnone w hw hasleep
    have hsleeps := (hI.raised hflag).resolve_left hnone w hw
    rw [hasleep] at hsleeps
    cases hsleeps
  refine ⟨hqueued, hraised, ?_⟩
  intro ⟨hall, hwork, hnone⟩
  rcases hwork with hqueue | hflag
  · rcases hqueued hqueue with ⟨w, hw, hactive⟩ | hpending
    · rw [hall w hw] at hactive
      cases hactive.1
    · exact hnone hpending
  · obtain ⟨w, hw⟩ := List.exists_mem_of_ne_nil _ (threadPool_ne_nil hpool h.of_only)
    exact hraised hflag (fun hall => hnone (.inr hall)) w hw (hall w hw)

/-- The one worker sleeps, a work is queued, and what saves it is the notification on its way. -/
theorem no_lost_wakeup_before_notify : ∃ s : ThreadPoolExecutor Unit,
    s.threadPool = [.asleep] ∧ s.workQueue = [⟨0, ()⟩] ∧ (s.SomeActive ∨ s.NotifyPending) := by
  have hrun : ((threadPoolExecutor 1).only SubmitsFirst).Run (.create 1)
      [.check 0, .callSubmit (), .enqueue 0]
      (⟨false, [⟨0, ()⟩], [.asleep], [⟨(), .notifying, false, false⟩], [], [⟨0, ()⟩], [], []⟩ :
        ThreadPoolExecutor Unit) :=
    .cons ⟨nofun, rfl⟩ (.cons ⟨nofun, rfl⟩ (.cons ⟨fun _ _ => rfl, rfl⟩ (.nil _)))
  exact ⟨_, rfl, rfl, (no_lost_wakeup 1 (by decide) _ ⟨_, _, rfl, hrun⟩).1 (List.cons_ne_nil _ _)⟩

end ThreadPoolExecutor

end Blueth.Concurrency
