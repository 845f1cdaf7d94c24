/-
# Blueth.Concurrency.ThreadPoolProgress — what is posted while no worker has exited is executed.

Safety leaves open that nothing happens at all. Here the workers and the callers that still have to notify
are asked to move when they can (`owner` names whose step a step is; submitters, `shutdown()` and spurious
wake-ups owe nothing), and a work that is posted while no worker has exited is then executed in the end.

The rank counts the works in front of it, three for each: between two works taken from the queue somebody
may have to notify (2), and a worker may have to finish what it is running (1), before one is ready to take
the next (0). A ready worker stays ready until it takes, a running one until it is through, and a caller
owes its notification until it sends it; so there is always somebody helpful.
-/
import Blueth.Transition.Fairness
import Blueth.Concurrency.ThreadPoolWakeups

set_option autoImplicit false

namespace Blueth.Concurrency

open Blueth.Transition

variable {Callable : Type*}

/-! ## Whose step it is -/

/-- Who has to move when it can. -/
inductive PoolThread
  | worker (i : ℕ)
  | submitter (call : ℕ)
  | stopper (call : ℕ)
deriving DecidableEq, Repr

/-- A worker's section and the work it runs are its own steps, a notification is its caller's. -/
def PoolStep.owner : PoolStep Callable → Option PoolThread
  | .check i => some (.worker i)
  | .execute i => some (.worker i)
  | .notifyOne call _ => some (.submitter call)
  | .notifyAll call => some (.stopper call)
  | _ => none

namespace ThreadPoolExecutor

section Owners

variable {poolSize i k : ℕ} {s : ThreadPoolExecutor Callable}

theorem enabled_check (hi : s.threadPool[i]? = some .ready) :
    (threadPoolExecutor poolSize).Enabled PoolStep.owner (.worker i) s := by
  refine ⟨.check i, ?_⟩
  show ∃ t, _ ∧ s.check i = some t
  simp only [check, hi]
  cases hqueue : s.workQueue with
  | nil => cases hflag : s.shutdown <;> simp [mayProceed, hqueue, hflag, PoolStep.owner]
  | cons work rest => simp [mayProceed, hqueue, PoolStep.owner]

theorem exists_execute {work : Work Callable} (hi : s.threadPool[i]? = some (.running work)) :
    ∃ t, s.step (.execute i) = some t ∧ t.workQueue = s.workQueue ∧
      t.executed = s.executed ++ [work] ∧ t.threadPool[i]? = some .ready := by
  refine ⟨{ s.setWorker i .ready with executed := s.executed ++ [work] },
    ?_, rfl, rfl, List.getElem?_set_self (List.getElem?_eq_some_iff.mp hi).1⟩
  simp only [step, execute, hi]

theorem enabled_execute {work : Work Callable} (hi : s.threadPool[i]? = some (.running work)) :
    (threadPoolExecutor poolSize).Enabled PoolStep.owner (.worker i) s := by
  obtain ⟨t, hexecute, -⟩ := exists_execute hi
  exact ⟨.execute i, t, rfl, hexecute⟩

/-- There is always a way to send a `notify_one`. -/
theorem enabled_notifyOne {f : Callable} {after before : Bool}
    (hk : s.submits[k]? = some ⟨f, .notifying, after, before⟩) :
    (threadPoolExecutor poolSize).Enabled PoolStep.owner (.submitter k) s := by
  obtain ⟨woken, threadPool, hwoken⟩ :=
    Threads.exists_notifyOne Worker.sleeps Worker.wake s.threadPool
  refine ⟨.notifyOne k woken, { s with
    threadPool := threadPool
    submits := s.submits.set k ⟨f, .returned, after, s.shutdowns.isEmpty⟩ }, rfl, ?_⟩
  show s.notifyOne k woken = _
  simp only [notifyOne, hk, hwoken]

theorem enabled_notifyAll {joins : Bool} (hk : s.shutdowns[k]? = some ⟨.notifying, joins⟩) :
    (threadPoolExecutor poolSize).Enabled PoolStep.owner (.stopper k) s := by
  refine ⟨.notifyAll k, { s with
    threadPool := Threads.notifyAll Worker.sleeps Worker.wake s.threadPool
    shutdowns := s.shutdowns.set k ⟨if joins then .joining else .returned, joins⟩ }, rfl, ?_⟩
  show s.notifyAll k = _
  simp only [notifyAll, hk]

end Owners

/-! ## The rank -/

/-- Whether some worker is ready (0), or else some worker is running a work (1). -/
def stage (s : ThreadPoolExecutor Callable) : ℕ :=
  if s.threadPool.any Worker.isReady then 0
  else if s.threadPool.any Worker.isRunning then 1 else 2

/-- Three for each work in front of the `j`-th one, and the stage; nothing once it is taken. -/
def rank (j : ℕ) (s : ThreadPoolExecutor Callable) : ℕ :=
  if j < s.taken.length then 0 else 3 * (j + 1 - s.taken.length) + s.stage

section Stage

variable {s : ThreadPoolExecutor Callable} {i : ℕ} {work : Work Callable}

theorem any_isReady :
    s.threadPool.any Worker.isReady = true ↔ ∃ i : ℕ, s.threadPool[i]? = some .ready := by
  rw [List.any_eq_true]
  constructor
  · intro ⟨w, hw, hready⟩
    obtain ⟨i, hi⟩ := List.mem_iff_getElem?.mp hw
    cases w with
    | ready => exact ⟨i, hi⟩
    | _ => cases hready
  · intro ⟨i, hi⟩
    exact ⟨_, List.mem_of_getElem? hi, rfl⟩

theorem any_isRunning :
    s.threadPool.any Worker.isRunning = true ↔
      ∃ (i : ℕ) (work : Work Callable), s.threadPool[i]? = some (.running work) := by
  rw [List.any_eq_true]
  constructor
  · intro ⟨w, hw, hrunning⟩
    obtain ⟨i, hi⟩ := List.mem_iff_getElem?.mp hw
    cases w with
    | running work => exact ⟨i, work, hi⟩
    | _ => cases hrunning
  · intro ⟨i, work, hi⟩
    exact ⟨_, List.mem_of_getElem? hi, rfl⟩

theorem stage_of_ready (hi : s.threadPool[i]? = some .ready) : s.stage = 0 := by
  unfold stage
  rw [if_pos (any_isReady.mpr ⟨i, hi⟩)]

theorem stage_of_running (hi : s.threadPool[i]? = some (.running work)) : s.stage ≤ 1 := by
  unfold stage
  rw [if_pos (any_isRunning.mpr ⟨i, work, hi⟩)]
  split <;> omega

theorem stage_of_active (h : s.SomeActive) : s.stage ≤ 1 := by
  obtain ⟨w, hw, hsleeps, hexited⟩ := h
  obtain ⟨i, hi⟩ := List.mem_iff_getElem?.mp hw
  cases w with
  | ready =>
    rw [stage_of_ready hi]
    exact Nat.zero_le 1
  | running work => exact stage_of_running hi
  | asleep => cases hsleeps
  | exited => cases hexited

/-- The three stages, each with what it has and what it lacks. -/
theorem stage_cases :
    (s.stage = 0 ∧ ∃ i : ℕ, s.threadPool[i]? = some .ready) ∨
    (s.stage = 1 ∧ ∃ (i : ℕ) (work : Work Callable), s.threadPool[i]? = some (.running work)) ∨
    s.stage = 2 := by
  unfold stage
  by_cases hready : s.threadPool.any Worker.isReady
  · exact .inl ⟨if_pos hready, any_isReady.mp hready⟩
  · rw [if_neg hready]
    by_cases hrunning : s.threadPool.any Worker.isRunning
    · exact .inr (.inl ⟨if_pos hrunning, any_isRunning.mp hrunning⟩)
    · exact .inr (.inr (if_neg hrunning))

end Stage

section Steps

variable {s t : ThreadPoolExecutor Callable} {a : PoolStep Callable} {i j k : ℕ}

/-- What is taken is taken from the queue, by a worker that was ready. -/
theorem taken_step (h : s.step a = some t) :
    t.taken = s.taken ∨ ∃ (work : Work Callable) (i : ℕ), t.taken = s.taken ++ [work] ∧
      work ∈ s.workQueue ∧ s.threadPool[i]? = some .ready := by
  cases step_moves h with
  | take i work rest hready hqueue =>
    refine .inr ⟨work, i, rfl, ?_, hready⟩
    rw [hqueue]
    exact List.mem_cons_self
  | _ => exact .inl rfl

theorem taken_length_step (h : s.step a = some t) : s.taken.length ≤ t.taken.length := by
  rcases taken_step h with heq | ⟨work, i, heq, -⟩
  · exact Nat.le_of_eq (congrArg List.length heq.symm)
  · rw [heq, List.length_append]
    exact Nat.le_add_right _ _

theorem owner_ne_worker (hcheck : a ≠ .check i) (hexecute : a ≠ .execute i) :
    a.owner ≠ some (.worker i) := by
  intro howner
  cases a with
  | check k =>
    cases howner
    exact hcheck rfl
  | execute k =>
    cases howner
    exact hexecute rfl
  | _ => cases howner

/-- A ready worker does not go away while something is queued: its own next step takes a work. -/
theorem ready_stays (h : s.step a = some t) (hqueue : s.workQueue ≠ []) (htaken : t.taken = s.taken)
    (hi : s.threadPool[i]? = some .ready) :
    t.threadPool[i]? = some .ready ∧ a.owner ≠ some (.worker i) := by
  cases workers_step h i with
  | quiet hsame hcheck hexecute => exact ⟨hsame.trans hi, owner_ne_worker hcheck hexecute⟩
  | took ha work rest hold hq hnew hlonger =>
    rw [htaken] at hlonger
    have hlength := congrArg List.length hlonger
    rw [List.length_append, List.length_singleton] at hlength
    omega
  | slept ha hold hflag hempty hnew => exact absurd hempty hqueue
  | exited ha hold hflag hempty hnew => exact absurd hempty hqueue
  | woken hold hnew | executed ha work hold hnew hexecuted =>
    rw [hi] at hold
    cases hold

/-- A running worker runs on, or is through and ready. -/
theorem running_stays (h : s.step a = some t) {work : Work Callable}
    (hi : s.threadPool[i]? = some (.running work)) :
    (t.threadPool[i]? = some (.running work) ∧ a.owner ≠ some (.worker i)) ∨
      (t.threadPool[i]? = some .ready ∧ work ∈ t.executed) := by
  cases workers_step h i with
  | quiet hsame hcheck hexecute => exact .inl ⟨hsame.trans hi, owner_ne_worker hcheck hexecute⟩
  | executed ha work' hold hnew hexecuted =>
    rw [hi] at hold
    cases hold
    rw [hexecuted]
    exact .inr ⟨hnew, List.mem_append_right _ (List.mem_singleton_self _)⟩
  | woken hold hnew | slept ha hold hflag hempty hnew | exited ha hold hflag hempty hnew
    | took ha work' rest hold hq hnew hlonger =>
    rw [hi] at hold
    cases hold

theorem stage_step (h : s.step a = some t) (hqueue : s.workQueue ≠ []) (htaken : t.taken = s.taken) :
    t.stage ≤ s.stage := by
  rcases s.stage_cases with ⟨hstage, i, hi⟩ | ⟨hstage, i, work, hi⟩ | hstage
  · have hzero := stage_of_ready (ready_stays h hqueue htaken hi).1
    omega
  · rw [hstage]
    rcases running_stays h hi with ⟨hnew, -⟩ | ⟨hnew, -⟩
    · exact stage_of_running hnew
    · rw [stage_of_ready hnew]
      exact Nat.zero_le 1
  · rw [hstage]
    rcases t.stage_cases with ⟨hstage', -⟩ | ⟨hstage', -⟩ | hstage' <;> omega

end Steps

/-! ## A work that waits -/

/-- `work` is the `j`-th ever posted, it is not executed yet, and no worker exits before it is taken. -/
structure Awaits (j : ℕ) (work : Work Callable) (s : ThreadPoolExecutor Callable) : Prop where
  posted : s.posted[j]? = some work
  kept : Worker.exited ∈ s.threadPool → j < s.taken.length
  pending : work ∉ s.executed

/-- Whose next step brings `work` nearer. -/
inductive Helps (j : ℕ) (work : Work Callable) (s : ThreadPoolExecutor Callable) : PoolThread → Prop
  | finishing (i : ℕ) (hj : j < s.taken.length) (hi : s.threadPool[i]? = some (.running work)) :
      Helps j work s (.worker i)
  | taking (i : ℕ) (hj : s.taken.length ≤ j) (hi : s.threadPool[i]? = some .ready) :
      Helps j work s (.worker i)
  | running (i : ℕ) (other : Work Callable) (hj : s.taken.length ≤ j) (hstage : s.stage = 1)
      (hi : s.threadPool[i]? = some (.running other)) : Helps j work s (.worker i)
  | submitter (k : ℕ) (f : Callable) (after before : Bool) (hj : s.taken.length ≤ j)
      (hstage : s.stage = 2) (hk : s.submits[k]? = some ⟨f, .notifying, after, before⟩) :
      Helps j work s (.submitter k)
  | stopper (k : ℕ) (joins : Bool) (hj : s.taken.length ≤ j) (hstage : s.stage = 2)
      (hk : s.shutdowns[k]? = some ⟨.notifying, joins⟩) : Helps j work s (.stopper k)

section Waiting

variable {poolSize j : ℕ} {s t : ThreadPoolExecutor Callable} {a : PoolStep Callable}
  {work : Work Callable} {c : PoolThread}

theorem enabled_of_helps (h : Helps j work s c) :
    (threadPoolExecutor poolSize).Enabled PoolStep.owner c s := by
  cases h with
  | finishing i hj hi => exact enabled_execute hi
  | taking i hj hi => exact enabled_check hi
  | running i other hj hstage hi => exact enabled_execute hi
  | submitter k f after before hj hstage hk => exact enabled_notifyOne hk
  | stopper k joins hj hstage hk => exact enabled_notifyAll hk

theorem Awaits.workQueue_ne_nil (hA : Awaits j work s) (hI : PoolInv poolSize s)
    (hj : s.taken.length ≤ j) : s.workQueue ≠ [] := by
  intro hqueue
  have hlt := (List.getElem?_eq_some_iff.mp hA.posted).1
  rw [hI.conserved.inOrder, hqueue, List.append_nil] at hlt
  omega

/-- A work that has been taken and is not executed is in somebody's hands. -/
theorem Awaits.in_hands (hA : Awaits j work s) (hI : PoolInv poolSize s) (hj : j < s.taken.length) :
    ∃ i : ℕ, s.threadPool[i]? = some (.running work) := by
  have hposted := hA.posted
  rw [hI.conserved.inOrder, List.getElem?_append_left hj] at hposted
  have hmem := hI.conserved.divided.mem_iff.mp (List.mem_of_getElem? hposted)
  rcases List.mem_append.mp hmem with hhands | hdone
  · exact mem_inHands.mp hhands
  · exact absurd hdone hA.pending

/-- **Somebody helps.** -/
theorem Awaits.exists_helps (hA : Awaits j work s) (hI : PoolInv poolSize s) (hW : s.WakeInv) :
    ∃ c, Helps j work s c := by
  rcases Nat.lt_or_ge j s.taken.length with hj | hj
  · obtain ⟨i, hi⟩ := hA.in_hands hI hj
    exact ⟨_, .finishing i hj hi⟩
  · rcases s.stage_cases with ⟨-, i, hi⟩ | ⟨hstage, i, other, hi⟩ | hstage
    · exact ⟨_, .taking i hj hi⟩
    · exact ⟨_, .running i other hj hstage hi⟩
    · rcases hW.queued (hA.workQueue_ne_nil hI hj) with hactive | hpending | hexited
      · have hle := stage_of_active hactive
        omega
      · rcases hpending with ⟨⟨f, phase, after, before⟩, hcall, hphase⟩ | ⟨⟨phase, joins⟩, hcall, hphase⟩
        · obtain ⟨k, hk⟩ := List.mem_iff_getElem?.mp hcall
          cases hphase
          exact ⟨_, .submitter k f after before hj hstage hk⟩
        · obtain ⟨k, hk⟩ := List.mem_iff_getElem?.mp hcall
          cases hphase
          exact ⟨_, .stopper k joins hj hstage hk⟩
      · have hlt := hA.kept hexited
        omega

/-- Until it is executed a work keeps waiting. -/
theorem awaits_step (hA : Awaits j work s) (hI : PoolInv poolSize s) (h : s.step a = some t)
    (hnot : work ∉ t.executed) : Awaits j work t := by
  have hlonger := taken_length_step h
  refine ⟨?_, ?_, hnot⟩
  · have hlt := (List.getElem?_eq_some_iff.mp hA.posted).1
    cases step_moves h with
    | enqueue k f after before hcall => exact (List.getElem?_append_left hlt).trans hA.posted
    | _ => exact hA.posted
  · intro hexited
    rcases exited_step h hexited with hs | ⟨-, hqueue⟩
    · exact Nat.lt_of_lt_of_le (hA.kept hs) hlonger
    · -- an exit leaves an empty queue, so that all that was posted is taken
      by_contra hj
      exact hA.workQueue_ne_nil hI (by omega) hqueue

/-- After a notification somebody is active, since nobody has exited. -/
theorem Awaits.stage_of_awake (hA : Awaits j work t) (hj : t.taken.length ≤ j)
    (hawake : ∃ w ∈ t.threadPool, w.sleeps = false) : t.stage ≤ 1 := by
  obtain ⟨w, hw, hsleeps⟩ := hawake
  rcases active_or_exited hw hsleeps with hactive | hexited
  · exact stage_of_active hactive
  · have hlt := hA.kept hexited
    omega

/-- A caller owes its notification until it sends it, and then somebody is active. -/
theorem submitter_stays (hA' : Awaits j work t) (hj : t.taken.length ≤ j) (hpool : s.threadPool ≠ [])
    (h : s.step a = some t) (htwo : t.stage = 2) {k : ℕ} {f : Callable} {after before : Bool}
    (hk : s.submits[k]? = some ⟨f, .notifying, after, before⟩) :
    t.submits[k]? = some ⟨f, .notifying, after, before⟩ ∧ a.owner ≠ some (.submitter k) := by
  cases submits_step h k with
  | quiet hcall henqueue hnotify =>
    refine ⟨hcall.trans hk, ?_⟩
    intro howner
    cases a with
    | notifyOne call woken =>
      cases howner
      exact hnotify woken rfl
    | _ => cases howner
  | notified woken f' after' before' ha hold hnew hawake =>
    have hle := hA'.stage_of_awake hj (hawake hpool)
    omega
  | made f' ha hold hnew | enqueued f' after' before' ha hold hnew =>
    rw [hk] at hold
    cases hold

theorem stopper_stays (hA' : Awaits j work t) (hj : t.taken.length ≤ j) (hpool' : t.threadPool ≠ [])
    (h : s.step a = some t) (htwo : t.stage = 2) {k : ℕ} {joins : Bool}
    (hk : s.shutdowns[k]? = some ⟨.notifying, joins⟩) :
    t.shutdowns[k]? = some ⟨.notifying, joins⟩ ∧ a.owner ≠ some (.stopper k) := by
  cases shutdowns_step h k with
  | quiet hcall hnotify =>
    refine ⟨hcall.trans hk, ?_⟩
    intro howner
    cases a with
    | notifyAll call =>
      cases howner
      exact hnotify rfl
    | _ => cases howner
  | notified joins' ha hold hnew hawake =>
    obtain ⟨w, hw⟩ := List.exists_mem_of_ne_nil _ hpool'
    have hle := hA'.stage_of_awake hj ⟨w, hw, hawake w hw⟩
    omega
  | made joins' hold hnew | raised joins' hold hnew hflag | joined joins' hold hnew hexited =>
    rw [hk] at hold
    cases hold

/-- **A helper helps until the rank falls**, and then it is its own step that makes it fall. -/
theorem helps_step (hA : Awaits j work s) (hA' : Awaits j work t) (hI : PoolInv poolSize s)
    (hpool : s.threadPool ≠ []) (hpool' : t.threadPool ≠ []) (h : s.step a = some t)
    (hsame : s.taken.length ≤ j → t.taken = s.taken ∧ t.stage = s.stage) (hc : Helps j work s c) :
    a.owner ≠ some c ∧ Helps j work t c := by
  cases hc with
  | finishing i hj hi =>
    rcases running_stays h hi with ⟨hnew, howner⟩ | ⟨-, hdone⟩
    · exact ⟨howner, .finishing i (Nat.lt_of_lt_of_le hj (taken_length_step h)) hnew⟩
    · exact absurd hdone hA'.pending
  | taking i hj hi =>
    obtain ⟨htaken, -⟩ := hsame hj
    obtain ⟨hnew, howner⟩ := ready_stays h (hA.workQueue_ne_nil hI hj) htaken hi
    exact ⟨howner, .taking i (htaken ▸ hj) hnew⟩
  | running i other hj hone hi =>
    obtain ⟨htaken, hstage⟩ := hsame hj
    rcases running_stays h hi with ⟨hnew, howner⟩ | ⟨hnew, -⟩
    · exact ⟨howner, .running i other (htaken ▸ hj) (hstage.trans hone) hnew⟩
    · have hzero := stage_of_ready hnew
      omega
  | submitter k f after before hj htwo hk =>
    obtain ⟨htaken, hstage⟩ := hsame hj
    have hj' : t.taken.length ≤ j := htaken ▸ hj
    obtain ⟨hnew, howner⟩ := submitter_stays hA' hj' hpool h (hstage.trans htwo) hk
    exact ⟨howner, .submitter k f after before hj' (hstage.trans htwo) hnew⟩
  | stopper k joins hj htwo hk =>
    obtain ⟨htaken, hstage⟩ := hsame hj
    have hj' : t.taken.length ≤ j := htaken ▸ hj
    obtain ⟨hnew, howner⟩ := stopper_stays hA' hj' hpool' h (hstage.trans htwo) hk
    exact ⟨howner, .stopper k joins hj' (hstage.trans htwo) hnew⟩

/-- A step brings `work` nearer, or leaves every helper what it is. -/
theorem rank_step (hA : Awaits j work s) (hA' : Awaits j work t) (hI : PoolInv poolSize s)
    (hpool : s.threadPool ≠ []) (hpool' : t.threadPool ≠ []) (h : s.step a = some t) :
    t.rank j < s.rank j ∨
      t.rank j = s.rank j ∧ ∀ c, Helps j work s c → a.owner ≠ some c ∧ Helps j work t c := by
  have hkeep : (s.taken.length ≤ j → t.taken = s.taken ∧ t.stage = s.stage) →
      ∀ c, Helps j work s c → a.owner ≠ some c ∧ Helps j work t c :=
    fun hsame c hc => helps_step hA hA' hI hpool hpool' h hsame hc
  have hlonger := taken_length_step h
  unfold rank
  by_cases hj : j < s.taken.length
  · rw [if_pos hj, if_pos (by omega)]
    exact .inr ⟨rfl, hkeep (by omega)⟩
  · rw [if_neg hj]
    rcases taken_step h with htaken | ⟨v, i, htaken, -⟩
    · have hle := stage_step h (hA.workQueue_ne_nil hI (by omega)) htaken
      rw [htaken, if_neg hj]
      rcases Nat.lt_or_ge t.stage s.stage with hlt | hge
      · exact .inl (by omega)
      · have heq : t.stage = s.stage := Nat.le_antisymm hle hge
        rw [heq]
        exact .inr ⟨rfl, hkeep fun _ => ⟨htaken, heq⟩⟩
    · -- three less for the work taken, at most two more for the stage
      have hlength : t.taken.length = s.taken.length + 1 := by
        rw [htaken, List.length_append, List.length_singleton]
      have hle : t.stage ≤ 2 := by
        rcases t.stage_cases with ⟨hstage, -⟩ | ⟨hstage, -⟩ | hstage <;> omega
      refine .inl ?_
      split <;> omega

end Waiting

/-! ## Progress -/

/-- **What waits is executed**, in every execution in which the workers and the callers that have to notify
move when they can. -/
theorem eventually_executed {poolSize : ℕ} (hpool : 1 ≤ poolSize)
    (e : (threadPoolExecutor poolSize : System (ThreadPoolExecutor Callable) _).Execution)
    (hfair : e.WeaklyFair PoolStep.owner) {n j : ℕ} {work : Work Callable}
    (hA : Awaits j work (e.state n)) : ∃ m, n ≤ m ∧ work ∈ (e.state m).executed := by
  refine e.eventually_of_rank hfair (P := Awaits j work) (Q := fun s => work ∈ s.executed) (rank j)
    (fun c s => Helps j work s c) ?_ ?_ ?_ hA
  · intro s hreach hA
    exact hA.exists_helps (poolInv_of_reachable hreach) (wakeInv_of_reachable hpool hreach)
  · intro s c _ _ hc
    exact enabled_of_helps hc
  · intro s a t hreach hA hn
    have hI := poolInv_of_reachable hreach
    by_cases hdone : work ∈ t.executed
    · exact .inl hdone
    · have hA' := awaits_step hA hI hn hdone
      exact .inr ⟨hA', rank_step hA hA' hI (threadPool_ne_nil hpool hreach)
        (threadPool_ne_nil hpool (hreach.step hn)) hn⟩

end ThreadPoolExecutor

end Blueth.Concurrency
