/-
# Blueth.Concurrency.ThreadPoolShutdown — what `shutdown()` promises, and what it does.

"No new Work will be processed on the Thread-Pool but the already existing work will be processed." The
second half holds of every run: a work whose `submit()` returned before any `shutdown()` was called is in
front of every exit, so it is executed before the last worker leaves, and it is executed in the end.

The first half does not. `submit()` never looks at the flag, and a worker leaves its loop only when it
finds the queue EMPTY: a work submitted after `shutdown()` has returned is taken like any other by every
worker that has not exited yet. It stays in the queue exactly where it arrives after the last exit, and
then for good (`late_work_can_run` is the other direction).
-/
import Blueth.Concurrency.ThreadPoolProgress

set_option autoImplicit false

namespace Blueth.Concurrency

open Blueth.Transition

variable {Callable : Type*}

namespace ThreadPoolExecutor

/-! ## Late works and early works -/

/-- The `submit()` that brings `work` began after some `shutdown()` had returned. -/
def Late (s : ThreadPoolExecutor Callable) (work : Work Callable) : Prop :=
  ∃ call, s.submits[work.ticket]? = some call ∧ call.callableFunction = work.callable ∧
    call.afterShutdown = true

/-- The `submit()` that brought `work` returned before any `shutdown()` was called. -/
def Early (s : ThreadPoolExecutor Callable) (work : Work Callable) : Prop :=
  ∃ call, s.submits[work.ticket]? = some call ∧ call.callableFunction = work.callable ∧
    call.beforeShutdown = true

/-- A late work reaches the queue only when every worker has exited. -/
def LateAfterExit (s : ThreadPoolExecutor Callable) (a : PoolStep Callable) : Prop :=
  ∀ k call, a = .enqueue k → s.submits[k]? = some call → call.afterShutdown = true →
    s.allExited = true

/-! ## Late works that come after the last exit -/

section Late

variable {poolSize : ℕ} {s t : ThreadPoolExecutor Callable} {a : PoolStep Callable}
  {work : Work Callable}

/-- A call brings what it was called with, and is late from its beginning or never. -/
theorem call_step (h : s.step a = some t) {k : ℕ} {call : SubmitCall Callable}
    (hcall : s.submits[k]? = some call) :
    ∃ call', t.submits[k]? = some call' ∧ call'.callableFunction = call.callableFunction ∧
      call'.afterShutdown = call.afterShutdown := by
  cases submits_step h k with
  | quiet hsame henqueue hnotify => exact ⟨call, hsame.trans hcall, rfl, rfl⟩
  | made f ha hold hnew =>
    rw [hold] at hcall
    cases hcall
  | enqueued f after before ha hold hnew =>
    rw [hold] at hcall
    cases hcall
    exact ⟨_, hnew, rfl, rfl⟩
  | notified woken f after before ha hold hnew hawake =>
    rw [hold] at hcall
    cases hcall
    exact ⟨_, hnew, rfl, rfl⟩

theorem late_stays (h : s.step a = some t) (hs : s.Late work) : t.Late work := by
  obtain ⟨call, hcall, hf, hlate⟩ := hs
  obtain ⟨call', hcall', hf', hlate'⟩ := call_step h hcall
  exact ⟨call', hcall', hf'.trans hf, hlate'.trans hlate⟩

theorem late_of_step (h : s.step a = some t) {call : SubmitCall Callable}
    (hcall : s.submits[work.ticket]? = some call) (ht : t.Late work) : s.Late work := by
  obtain ⟨call', hcall', hf, hlate⟩ := ht
  obtain ⟨call'', hcall'', hf', hlate'⟩ := call_step h hcall
  rw [hcall'] at hcall''
  cases hcall''
  exact ⟨call, hcall, hf'.symm.trans hf, hlate'.symm.trans hlate⟩

/-- **The invariant of late works**: in the queue only behind the last exit, and never taken. -/
structure LateInv (s : ThreadPoolExecutor Callable) : Prop where
  posted : ∀ work ∈ s.posted, s.Late work → s.allExited = true
  taken : ∀ work ∈ s.taken, ¬ s.Late work

theorem lateInv_step (hI : PoolInv poolSize s) (hL : s.LateInv) (hC : LateAfterExit s a)
    (h : s.step a = some t) : t.LateInv := by
  have hback : ∀ {work}, work ∈ s.posted → t.Late work → s.Late work := by
    intro work hwork ht
    obtain ⟨call, hcall, -⟩ := (hI.submitted work).mp hwork
    exact late_of_step h hcall ht
  constructor
  · intro work hwork ht
    apply allExited_step h
    rcases (posted_step h work).mp hwork with hold | ⟨ha, after, before, hcall⟩
    · exact hL.posted work hold (hback hold ht)
    · obtain ⟨call, hcall', -, hlate⟩ := late_of_step h hcall ht
      exact hC _ call ha hcall' hlate
  · intro work hwork ht
    have hposted : ∀ {work}, work ∈ s.taken ∨ work ∈ s.workQueue → work ∈ s.posted := by
      intro work hwork
      rw [hI.conserved.inOrder]
      exact List.mem_append.mpr hwork
    rcases taken_step h with heq | ⟨v, i, heq, hqueue, hready⟩
    · rw [heq] at hwork
      exact hL.taken work hwork (hback (hposted (.inl hwork)) ht)
    · rw [heq, List.mem_append, List.mem_singleton] at hwork
      rcases hwork with hold | rfl
      · exact hL.taken work hold (hback (hposted (.inl hold)) ht)
      · -- the worker that takes it would have exited
        have hall := hL.posted work (hposted (.inr hqueue)) (hback (hposted (.inr hqueue)) ht)
        cases allExited_iff.mp hall i _ hready

theorem lateInv_of_reachable (h : ((threadPoolExecutor poolSize).only LateAfterExit).Reachable s) :
    s.LateInv := by
  apply h.invariant
  · intro s hs
    rw [hs]
    exact ⟨nofun, nofun⟩
  · intro s a t hreach hL ⟨hC, hn⟩
    exact lateInv_step (poolInv_of_reachable hreach.of_only) hL hC hn

/-- A late work that comes after the last exit is left where it is. -/
theorem late_left (h : ((threadPoolExecutor poolSize).only LateAfterExit).Reachable s)
    (hlate : s.Late work) :
    work ∉ s.executed ∧ ∀ i : ℕ, s.threadPool[i]? ≠ some (.running work) := by
  have hI := poolInv_of_reachable h.of_only
  have hnot : work ∉ s.inHands ++ s.executed := by
    intro hmem
    exact (lateInv_of_reachable h).taken work (hI.conserved.divided.mem_iff.mpr hmem) hlate
  constructor
  · intro hdone
    exact hnot (List.mem_append_right _ hdone)
  · intro i hi
    exact hnot (List.mem_append_left _ (mem_inHands.mpr ⟨i, hi⟩))

end Late

/-! ## Early works -/

section Early

variable {poolSize : ℕ} {s t : ThreadPoolExecutor Callable} {a : PoolStep Callable}
  {work : Work Callable}

/-- A call that becomes early does so by returning while nobody has called `shutdown()`. -/
theorem early_step (h : s.step a = some t) (ht : t.Early work) :
    s.Early work ∨ (s.shutdowns = [] ∧ s.Submitted work) := by
  obtain ⟨call, hcall, hf, hearly⟩ := ht
  cases submits_step h work.ticket with
  | quiet hsame henqueue hnotify =>
    rw [hsame] at hcall
    exact .inl ⟨call, hcall, hf, hearly⟩
  | made f ha hold hnew =>
    rw [hnew] at hcall
    cases hcall
    cases hearly
  | enqueued f after before ha hold hnew =>
    rw [hnew] at hcall
    cases hcall
    exact .inl ⟨_, hold, hf, hearly⟩
  | notified woken f after before ha hold hnew hawake =>
    rw [hnew] at hcall
    cases hcall
    exact .inr ⟨List.isEmpty_iff.mp hearly, _, hold, hf, nofun⟩

/-- **The invariant of early works**: posted, and in front of every exit. -/
structure EarlyInv (s : ThreadPoolExecutor Callable) : Prop where
  called : s.shutdown = true → s.shutdowns ≠ []
  submitted : ∀ work, s.Early work → s.Submitted work
  kept : Worker.exited ∈ s.threadPool → ∀ work, s.Early work → work ∈ s.taken

theorem shutdowns_ne_nil_step (h : s.step a = some t) (hs : s.shutdowns ≠ []) : t.shutdowns ≠ [] := by
  obtain ⟨call, hcall⟩ := List.exists_mem_of_ne_nil _ hs
  obtain ⟨k, hk⟩ := List.mem_iff_getElem?.mp hcall
  intro hnil
  cases shutdowns_step h k with
  | quiet hsame hnotify =>
    rw [hk, hnil] at hsame
    cases hsame
  | made joins hold hnew | raised joins hold hnew hflag | notified joins ha hold hnew hawake
    | joined joins hold hnew hexited =>
    rw [hnil] at hnew
    cases hnew

theorem called_step (hE : s.EarlyInv) (h : s.step a = some t) (hflag : t.shutdown = true) :
    t.shutdowns ≠ [] := by
  cases hs : s.shutdown with
  | true => exact shutdowns_ne_nil_step h (hE.called hs)
  | false =>
    cases step_moves h with
    | setShutdown k joins hcall =>
      exact List.ne_nil_of_mem (List.mem_set (List.getElem?_eq_some_iff.mp hcall).1 _)
    | _ => exact absurd (hs.symm.trans hflag) Bool.false_ne_true

theorem earlyInv_step (hI : PoolInv poolSize s) (hE : s.EarlyInv) (h : s.step a = some t) :
    t.EarlyInv := by
  refine ⟨called_step hE h, ?_, ?_⟩
  · intro work ht
    rw [submitted_step h]
    rcases early_step h ht with hs | ⟨-, hs⟩
    · exact .inl (hE.submitted work hs)
    · exact .inl hs
  · intro hexited work ht
    have hlonger : ∀ {work}, work ∈ s.taken → work ∈ t.taken := by
      intro work hwork
      rcases taken_step h with heq | ⟨v, i, heq, -⟩ <;> rw [heq]
      · exact hwork
      · exact List.mem_append_left _ hwork
    have hold : Worker.exited ∈ s.threadPool ∨ (s.shutdown = true ∧ s.workQueue = []) :=
      exited_step h hexited
    have hflag : s.shutdown = true := by
      rcases hold with hs | hs
      · exact hI.exits hs
      · exact hs.1
    rcases early_step h ht with hs | ⟨hnone, -⟩
    · apply hlonger
      rcases hold with hgone | ⟨-, hqueue⟩
      · exact hE.kept hgone work hs
      · -- the exit finds the queue empty: what was posted has been taken
        have hposted := (hI.submitted work).mpr (hE.submitted work hs)
        rw [hI.conserved.inOrder, hqueue, List.append_nil] at hposted
        exact hposted
    · exact absurd hnone (hE.called hflag)

theorem earlyInv_of_reachable (h : (threadPoolExecutor poolSize).Reachable s) : s.EarlyInv := by
  apply h.invariant
  · intro s hs
    rw [hs]
    refine ⟨nofun, ?_, ?_⟩
    · intro work ⟨call, hcall, _⟩
      cases hcall
    · intro _ work ⟨call, hcall, _⟩
      cases hcall
  · intro s a t hreach hE hn
    exact earlyInv_step (poolInv_of_reachable hreach) hE hn

/-- Until it is executed an early work waits in front of every exit. -/
theorem awaits_of_early (h : (threadPoolExecutor poolSize).Reachable s) (hearly : s.Early work)
    (hnot : work ∉ s.executed) : ∃ j, Awaits j work s := by
  have hI := poolInv_of_reachable h
  have hE := earlyInv_of_reachable h
  obtain ⟨j, hj⟩ := List.mem_iff_getElem?.mp ((hI.submitted work).mpr (hE.submitted work hearly))
  refine ⟨j, hj, ?_, hnot⟩
  intro hexited
  obtain ⟨k, hk⟩ := List.mem_iff_getElem?.mp (hE.kept hexited work hearly)
  have hlt := (List.getElem?_eq_some_iff.mp hk).1
  have hposted : s.posted[k]? = some work := by
    rw [hI.conserved.inOrder, List.getElem?_append_left hlt]
    exact hk
  have heq : j = k :=
    (List.getElem?_inj (List.getElem?_eq_some_iff.mp hj).1 hI.conserved.distinct).mp
      (hj.trans hposted.symm)
  rw [heq]
  exact hlt

theorem early_executed_of_allExited (hpool : 1 ≤ poolSize)
    (h : (threadPoolExecutor poolSize).Reachable s) (hexited : s.allExited = true)
    (hearly : s.Early work) : work ∈ s.executed := by
  by_contra hnot
  obtain ⟨j, hA⟩ := awaits_of_early h hearly hnot
  obtain ⟨w, hw⟩ := List.exists_mem_of_ne_nil _ (threadPool_ne_nil hpool h)
  obtain ⟨k, hk⟩ := List.mem_iff_getElem?.mp hw
  rw [allExited_iff] at hexited
  rw [hexited k w hk] at hw
  obtain ⟨i, hi⟩ := hA.in_hands (poolInv_of_reachable h) (hA.kept hw)
  cases hexited i _ hi

end Early

/-! ## Late works that come before it -/

section Race

variable {poolSize i k : ℕ} {s t : ThreadPoolExecutor Callable} {a : PoolStep Callable}

/-- The flag is set and nobody sleeps, and so it remains. -/
def Down (s : ThreadPoolExecutor Callable) : Prop :=
  s.shutdown = true ∧ ∀ w ∈ s.threadPool, w.sleeps = false

theorem down_step (h : s.step a = some t) (hs : s.Down) : t.Down := by
  refine ⟨shutdown_step h hs.1, ?_⟩
  intro w hw
  obtain ⟨i, hi⟩ := List.mem_iff_getElem?.mp hw
  cases workers_step h i with
  | quiet hsame hcheck hexecute =>
    rw [hsame] at hi
    exact hs.2 w (List.mem_of_getElem? hi)
  | slept ha hold hflag hqueue hnew =>
    rw [hs.1] at hflag
    cases hflag
  | woken hold hnew | exited ha hold hflag hqueue hnew | took ha work rest hold hqueue hnew htaken
    | executed ha work hold hnew hexecuted =>
    rw [hnew] at hi
    cases hi
    rfl

/-- **What a returned `shutdown()` leaves behind**, and what a call that begins later finds. -/
structure DownInv (s : ThreadPoolExecutor Callable) : Prop where
  raised : ∀ call ∈ s.shutdowns, call.phase ≠ .called → s.shutdown = true
  returned : ∀ call ∈ s.shutdowns, call.phase = .joining ∨ call.phase = .returned → s.Down
  late : ∀ call ∈ s.submits, call.afterShutdown = true → s.Down

/-- A call that is past its section has set the flag. -/
theorem raised_of_shutdowns_step (hD : s.DownInv) (h : s.step a = some t) {call : ShutdownCall}
    (hcall : call ∈ t.shutdowns) (hphase : call.phase ≠ .called) : t.shutdown = true := by
  obtain ⟨k, hk⟩ := List.mem_iff_getElem?.mp hcall
  cases shutdowns_step h k with
  | quiet hsame hnotify =>
    rw [hsame] at hk
    exact shutdown_step h (hD.raised call (List.mem_of_getElem? hk) hphase)
  | made joins hold hnew =>
    rw [hnew] at hk
    cases hk
    exact absurd rfl hphase
  | raised joins hold hnew hflag => exact hflag
  | notified joins ha hold hnew hawake =>
    exact shutdown_step h (hD.raised _ (List.mem_of_getElem? hold) nofun)
  | joined joins hold hnew hexited =>
    exact shutdown_step h (hD.raised _ (List.mem_of_getElem? hold) nofun)

/-- A call that is past its `notify_all` has left nobody asleep. -/
theorem down_of_shutdowns_step (hD : s.DownInv) (h : s.step a = some t) {call : ShutdownCall}
    (hcall : call ∈ t.shutdowns) (hphase : call.phase = .joining ∨ call.phase = .returned) :
    t.Down := by
  obtain ⟨k, hk⟩ := List.mem_iff_getElem?.mp hcall
  cases shutdowns_step h k with
  | quiet hsame hnotify =>
    rw [hsame] at hk
    exact down_step h (hD.returned call (List.mem_of_getElem? hk) hphase)
  | made joins hold hnew | raised joins hold hnew hflag =>
    rw [hnew] at hk
    cases hk
    rcases hphase with hphase | hphase <;> cases hphase
  | notified joins ha hold hnew hawake =>
    exact ⟨shutdown_step h (hD.raised _ (List.mem_of_getElem? hold) nofun), hawake⟩
  | joined joins hold hnew hexited =>
    exact down_step h (hD.returned _ (List.mem_of_getElem? hold) (.inl rfl))

/-- A call that is made late is made after a `shutdown()` that has returned. -/
theorem down_of_submits_step (hD : s.DownInv) (h : s.step a = some t) {call : SubmitCall Callable}
    (hcall : call ∈ t.submits) (hlate : call.afterShutdown = true) : t.Down := by
  obtain ⟨k, hk⟩ := List.mem_iff_getElem?.mp hcall
  apply down_step h
  cases submits_step h k with
  | quiet hsame henqueue hnotify =>
    rw [hsame] at hk
    exact hD.late call (List.mem_of_getElem? hk) hlate
  | made f ha hold hnew =>
    rw [hnew] at hk
    cases hk
    obtain ⟨down, hdown, hreturned⟩ := List.any_eq_true.mp hlate
    exact hD.returned down hdown (.inr (of_decide_eq_true hreturned))
  | enqueued f after before ha hold hnew =>
    rw [hnew] at hk
    cases hk
    exact hD.late _ (List.mem_of_getElem? hold) hlate
  | notified woken f after before ha hold hnew hawake =>
    rw [hnew] at hk
    cases hk
    exact hD.late _ (List.mem_of_getElem? hold) hlate

theorem downInv_of_reachable (h : (threadPoolExecutor poolSize).Reachable s) : s.DownInv := by
  apply h.invariant
  · intro s hs
    rw [hs]
    exact ⟨nofun, nofun, nofun⟩
  · intro s a t _ hD hn
    exact ⟨fun _ => raised_of_shutdowns_step hD hn, fun _ => down_of_shutdowns_step hD hn,
      fun _ => down_of_submits_step hD hn⟩

/-- `isShutdown()` tells whoever asks; `submit()` does not ask. -/
theorem isShutdown_of_hasShutDown (h : (threadPoolExecutor poolSize).Reachable s)
    (hreturned : s.hasShutDown = true) : s.isShutdown = true := by
  obtain ⟨call, hcall, hphase⟩ := List.any_eq_true.mp hreturned
  exact ((downInv_of_reachable h).returned call hcall (.inr (of_decide_eq_true hphase))).1

theorem exists_check {work : Work Callable} {rest : List (Work Callable)}
    (hi : s.threadPool[i]? = some .ready) (hqueue : s.workQueue = work :: rest) :
    ∃ t, s.step (.check i) = some t ∧ t.workQueue = rest ∧ t.executed = s.executed ∧
      t.threadPool[i]? = some (.running work) := by
  refine ⟨{ s.setWorker i (.running work) with workQueue := rest, taken := s.taken ++ [work] },
    ?_, rfl, rfl, List.getElem?_set_self (List.getElem?_eq_some_iff.mp hi).1⟩
  simp only [step, check, hi, mayProceed, hqueue, List.isEmpty_cons, Bool.not_false, Bool.or_true,
    Bool.and_false, if_true, Bool.false_eq_true, if_false]

/-- A ready worker can empty the queue by itself. -/
theorem run_drains {queue : List (Work Callable)} (hqueue : s.workQueue = queue)
    (hi : s.threadPool[i]? = some .ready) :
    ∃ as u, (threadPoolExecutor poolSize).Run s as u ∧ u.executed = s.executed ++ queue := by
  induction queue generalizing s with
  | nil => exact ⟨[], s, .nil s, (List.append_nil _).symm⟩
  | cons work rest ih =>
    obtain ⟨t, hcheck, hrest, hsame, hrunning⟩ := exists_check hi hqueue
    obtain ⟨t', hexecute, hrest', hdone, hready⟩ := exists_execute hrunning
    obtain ⟨as, u, hrun, hall⟩ := ih (hrest'.trans hrest) hready
    refine ⟨.check i :: .execute i :: as, u, .cons hcheck (.cons hexecute hrun), ?_⟩
    rw [hall, hdone, hsame, List.append_assoc, List.singleton_append]

/-- Where nobody sleeps and somebody has not exited, what is queued can be executed. -/
theorem run_executes {work : Work Callable} (hawake : ∀ w ∈ s.threadPool, w.sleeps = false)
    (hexited : s.allExited = false) (hwork : work ∈ s.workQueue) :
    ∃ as u, (threadPoolExecutor poolSize).Run s as u ∧ work ∈ u.executed := by
  obtain ⟨w, hw, hgone⟩ := List.all_eq_false.mp hexited
  obtain ⟨i, hi⟩ := List.mem_iff_getElem?.mp hw
  have hsleeps := hawake w hw
  cases w with
  | ready =>
    obtain ⟨as, u, hrun, hall⟩ := run_drains rfl hi
    refine ⟨as, u, hrun, ?_⟩
    rw [hall]
    exact List.mem_append_right _ hwork
  | running other =>
    obtain ⟨t, hexecute, hsame, -, hready⟩ := exists_execute hi
    obtain ⟨as, u, hrun, hall⟩ := run_drains hsame hready
    refine ⟨.execute i :: as, u, .cons hexecute hrun, ?_⟩
    rw [hall]
    exact List.mem_append_right _ hwork
  | asleep => cases hsleeps
  | exited => exact absurd rfl hgone

/-- **The race.** Where a late work reaches the queue while some worker has not exited, the workers can
go on and execute it. -/
theorem late_work_can_run (h : (threadPoolExecutor poolSize).Reachable s)
    (hn : s.step (.enqueue k) = some t) {call : SubmitCall Callable}
    (hcall : s.submits[k]? = some call) (hlate : call.afterShutdown = true)
    (hexited : s.allExited = false) :
    ∃ as u, (threadPoolExecutor poolSize).Run t as u ∧ ⟨k, call.callableFunction⟩ ∈ u.executed := by
  have hdown := down_step hn ((downInv_of_reachable h).late call (List.mem_of_getElem? hcall) hlate)
  cases step_moves hn with
  | enqueue k f after before hcall' =>
    rw [hcall] at hcall'
    cases hcall'
    exact run_executes hdown.2 hexited (List.mem_append_right _ (List.mem_singleton_self _))

end Race

/-! ## What `shutdown()` keeps, and when -/

/-- **When `shutdown()` keeps its promise.** The existing work is processed in every run: where all workers
have exited every early work has been executed, and in every execution in which the workers and the
notifying callers move when they can it is executed in the end. New work is not processed in every run in
which a late work reaches the queue only after the last exit; and at a step that breaks this condition a
continuation executes the late work. -/
theorem shutdown_stops_new_work (poolSize : ℕ) (hpool : 1 ≤ poolSize) :
    (∀ s : ThreadPoolExecutor Callable, ((threadPoolExecutor poolSize).only LateAfterExit).Reachable s →
      ∀ work, s.Late work → work ∉ s.executed ∧ ∀ i : ℕ, s.threadPool[i]? ≠ some (.running work)) ∧
    (∀ s : ThreadPoolExecutor Callable, (threadPoolExecutor poolSize).Reachable s →
      s.allExited = true → ∀ work, s.Early work → work ∈ s.executed) ∧
    (∀ e : (threadPoolExecutor poolSize : System (ThreadPoolExecutor Callable) _).Execution,
      e.WeaklyFair PoolStep.owner → ∀ n work, (e.state n).Early work →
        ∃ m, n ≤ m ∧ work ∈ (e.state m).executed) ∧
    ∀ (s t : ThreadPoolExecutor Callable) (a : PoolStep Callable),
      (threadPoolExecutor poolSize).Reachable s → s.step a = some t → ¬ LateAfterExit s a →
        ∃ as u work, (threadPoolExecutor poolSize).Run t as u ∧ u.Late work ∧ work ∈ u.executed := by
  refine ⟨?_, ?_, ?_, ?_⟩
  · intro s h work hlate
    exact late_left h hlate
  · intro s h hexited work hearly
    exact early_executed_of_allExited hpool h hexited hearly
  · intro e hfair n work hearly
    by_cases hdone : work ∈ (e.state n).executed
    · exact ⟨n, Nat.le_refl n, hdone⟩
    · obtain ⟨j, hA⟩ := awaits_of_early (e.reachable n) hearly hdone
      exact eventually_executed hpool e hfair hA
  · intro s t a h hn hbreaks
    unfold LateAfterExit at hbreaks
    push Not at hbreaks
    obtain ⟨k, call, rfl, hcall, hlate, hexited⟩ := hbreaks
    obtain ⟨as, u, hrun, hdone⟩ :=
      late_work_can_run h hn hcall hlate (Bool.eq_false_iff.mpr hexited)
    refine ⟨as, u, _, hrun, ?_, hdone⟩
    apply hrun.preserves (fun s a t hs hn => late_stays hn hs)
    exact late_stays hn ⟨call, hcall, rfl, hlate⟩

theorem shutdown_stops_new_work_of_four :
    (∀ s : ThreadPoolExecutor Unit, ((threadPoolExecutor 4).only LateAfterExit).Reachable s →
      ∀ work, s.Late work → work ∉ s.executed ∧ ∀ i : ℕ, s.threadPool[i]? ≠ some (.running work)) ∧
    (∀ s : ThreadPoolExecutor Unit, (threadPoolExecutor 4).Reachable s →
      s.allExited = true → ∀ work, s.Early work → work ∈ s.executed) ∧
    (∀ e : (threadPoolExecutor 4 : System (ThreadPoolExecutor Unit) _).Execution,
      e.WeaklyFair PoolStep.owner → ∀ n work, (e.state n).Early work →
        ∃ m, n ≤ m ∧ work ∈ (e.state m).executed) ∧
    ∀ (s t : ThreadPoolExecutor Unit) (a : PoolStep Unit),
      (threadPoolExecutor 4).Reachable s → s.step a = some t → ¬ LateAfterExit s a →
        ∃ as u work, (threadPoolExecutor 4).Run t as u ∧ u.Late work ∧ work ∈ u.executed :=
  shutdown_stops_new_work 4 (by decide)

/-- A pool of one worker: while it runs the first work, `shutdown()` is called and returns; then a second
work is submitted, and the worker, back at the top of its loop, finds the queue not empty. -/
theorem late_work_executed :
    ¬ ∀ s : ThreadPoolExecutor Unit, (threadPoolExecutor 1).Reachable s →
      ∀ work, s.Late work → work ∉ s.executed := by
  intro hall
  have hrun : (threadPoolExecutor 1).Run (.create 1)
      [.callSubmit (), .enqueue 0, .check 0, .notifyOne 0 none, .callShutdown false, .setShutdown 0,
        .notifyAll 0, .callSubmit (), .enqueue 1, .notifyOne 1 none, .execute 0, .check 0, .execute 0]
      (⟨true, [], [.ready], [⟨(), .returned, false, true⟩, ⟨(), .returned, true, false⟩],
        [⟨.returned, false⟩], [⟨0, ()⟩, ⟨1, ()⟩], [⟨0, ()⟩, ⟨1, ()⟩], [⟨0, ()⟩, ⟨1, ()⟩]⟩ :
        ThreadPoolExecutor Unit) := by
    iterate 13 refine .cons rfl ?_
    exact .nil _
  exact hall _ ⟨_, _, rfl, hrun⟩ ⟨1, ()⟩ ⟨_, rfl, rfl, rfl⟩ (by decide)

end ThreadPoolExecutor

end Blueth.Concurrency
