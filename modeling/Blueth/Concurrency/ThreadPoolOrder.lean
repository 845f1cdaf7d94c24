/-
# Blueth.Concurrency.ThreadPoolOrder — how far a work can be overtaken.

The queue is first in, first out, but what is taken first need not be finished first: a worker may be held up in
its work while the others go on. A work that is through has left behind it only such works, posted earlier and in
the hands of the OTHER workers at that moment. So there are fewer of them than there are workers, and that is so
in every later state too: what is posted later stands behind, and what has been executed stays executed.
-/
import Blueth.Concurrency.ThreadPoolWork
import Mathlib.Data.List.Perm.Subperm

set_option autoImplicit false

namespace Blueth.Concurrency

namespace ThreadPoolExecutor

open Blueth.Transition
open Blueth.Transition.Threads (Conserved)

variable {Callable : Type*}

/-- These works were all posted before the `j`-th one, and none of them has been executed. -/
structure Behind (s : ThreadPoolExecutor Callable) (j : ℕ) (earlier : List (Work Callable)) : Prop where
  distinct : earlier.Nodup
  posted : ∀ other ∈ earlier, other ∈ s.posted.take j
  pending : ∀ other ∈ earlier, other ∉ s.executed

/-- The `j`-th work posted has been executed. -/
def Executed (s : ThreadPoolExecutor Callable) (j : ℕ) : Prop :=
  ∃ work, s.posted[j]? = some work ∧ work ∈ s.executed

section Steps

variable {poolSize j : ℕ} {s t : ThreadPoolExecutor Callable} {a : PoolStep Callable}
  {earlier : List (Work Callable)} {work : Work Callable}

theorem length_inHands_le (s : ThreadPoolExecutor Callable) : s.inHands.length ≤ s.threadPool.length :=
  List.length_filterMap_le _ _

/-- What is posted before a work in somebody's hands, and not executed, is in the hands of another. -/
theorem PoolInv.behind_lt (hI : PoolInv poolSize s) (hj : s.posted[j]? = some work) (hhands : work ∈ s.inHands)
    (hbehind : s.Behind j earlier) : earlier.length < poolSize := by
  have htaken : work ∈ s.taken := hI.conserved.divided.mem_iff.mpr (List.mem_append_left _ hhands)
  have hlt := (List.getElem?_eq_some_iff.mp hj).1
  have hheld : ∀ other ∈ earlier, other ∈ s.inHands := by
    intro other hother
    have hmem := hI.conserved.divided.mem_iff.mp
      (hI.conserved.taken_of_earlier hj htaken (hbehind.posted other hother))
    exact (List.mem_append.mp hmem).resolve_right (hbehind.pending other hother)
  -- the work itself is not among them
  have hapart : work ∉ earlier := by
    intro hmem
    obtain ⟨i, hi⟩ := List.mem_iff_getElem?.mp (hbehind.posted work hmem)
    rw [List.getElem?_take] at hi
    split_ifs at hi with hij
    exact Nat.ne_of_lt hij
      ((List.getElem?_inj (Nat.lt_trans hij hlt) hI.conserved.distinct).mp (hi.trans hj.symm))
  have hsub : (work :: earlier) ⊆ s.inHands := List.cons_subset.mpr ⟨hhands, hheld⟩
  have hle := ((List.nodup_cons.mpr ⟨hapart, hbehind.distinct⟩).subperm hsub).length_le
  have hpool := length_inHands_le s
  rw [hI.size] at hpool
  rw [List.length_cons] at hle
  omega

/-- What is posted stays where it is. -/
theorem posted_grows (h : s.step a = some t) : s.posted <+: t.posted := by
  cases step_moves h with
  | enqueue k f after before hcall => exact List.prefix_append _ _
  | _ => exact List.prefix_refl _

/-- A work is executed by the worker that has it in its hands. -/
theorem executed_step (h : s.step a = some t) :
    (t.executed = s.executed) ∨
      ∃ work, work ∈ s.inHands ∧ t.executed = s.executed ++ [work] ∧ t.posted = s.posted := by
  cases step_moves h with
  | execute i work hrunning => exact .inr ⟨work, mem_inHands.mpr ⟨i, hrunning⟩, rfl, rfl⟩
  | _ => exact .inl rfl

/-- Who is behind an executed work now was behind it before. -/
theorem Behind.before (hbehind : t.Behind j earlier) (hgrows : s.posted <+: t.posted)
    (hlt : j < s.posted.length) (hexecuted : ∀ other ∈ s.executed, other ∈ t.executed) : s.Behind j earlier := by
  obtain ⟨more, hmore⟩ := hgrows
  refine ⟨hbehind.distinct, ?_, fun other hother h => hbehind.pending other hother (hexecuted other h)⟩
  intro other hother
  have hmem := hbehind.posted other hother
  rw [← hmore, List.take_append_of_le_length (Nat.le_of_lt hlt)] at hmem
  exact hmem

/-- The bound, kept by every step. -/
theorem overtaken_step (hI : PoolInv poolSize s)
    (hs : ∀ j earlier, s.Executed j → s.Behind j earlier → earlier.length < poolSize) (h : s.step a = some t)
    (hdone : t.Executed j) (hbehind : t.Behind j earlier) : earlier.length < poolSize := by
  obtain ⟨work, hj, hwork⟩ := hdone
  have hgrows := posted_grows h
  -- a work that is in the history already stands there at the same place
  have hplace : work ∈ s.posted → s.posted[j]? = some work := by
    intro hposted
    obtain ⟨i, hi⟩ := List.mem_iff_getElem?.mp hposted
    have hlt := (List.getElem?_eq_some_iff.mp hi).1
    have hnew : t.posted[i]? = some work := by
      obtain ⟨more, hmore⟩ := hgrows
      rw [← hmore, List.getElem?_append_left hlt]
      exact hi
    have heq : i = j := (List.getElem?_inj (List.getElem?_eq_some_iff.mp hnew).1
      (poolInv_step hI h).conserved.distinct).mp (hnew.trans hj.symm)
    exact heq ▸ hi
  have hold : work ∈ s.executed → (∀ other ∈ s.executed, other ∈ t.executed) → earlier.length < poolSize := by
    intro hmem hkeep
    have hplaced := hplace (hI.conserved.mem_posted.mpr (.inr (.inr hmem)))
    exact hs j earlier ⟨work, hplaced, hmem⟩
      (hbehind.before hgrows (List.getElem?_eq_some_iff.mp hplaced).1 hkeep)
  rcases executed_step h with hsame | ⟨done, hhands, hdone, hposted⟩
  · rw [hsame] at hwork
    exact hold hwork (by rw [hsame]; exact fun _ hw => hw)
  · have hkeep : ∀ other ∈ s.executed, other ∈ t.executed := by
      rw [hdone]
      exact fun _ hw => List.mem_append_left _ hw
    rw [hdone] at hwork
    rcases List.mem_append.mp hwork with hmem | hmem
    · exact hold hmem hkeep
    · obtain rfl := List.mem_singleton.mp hmem
      rw [hposted] at hj
      exact hI.behind_lt hj hhands (hbehind.before hgrows (List.getElem?_eq_some_iff.mp hj).1 hkeep)

end Steps

/-- **Bounded overtaking.** In every reachable state, of the works posted before an executed one fewer than
`pool_size` have not been executed themselves. -/
theorem bounded_overtaking {poolSize j : ℕ} {s : ThreadPoolExecutor Callable}
    (h : (threadPoolExecutor poolSize).Reachable s) (hdone : s.Executed j) {earlier : List (Work Callable)}
    (hbehind : s.Behind j earlier) : earlier.length < poolSize := by
  have key : ∀ j earlier, s.Executed j → s.Behind j earlier → earlier.length < poolSize := by
    apply h.invariant (I := fun s : ThreadPoolExecutor Callable =>
      ∀ j earlier, s.Executed j → s.Behind j earlier → earlier.length < poolSize)
    · rintro s rfl j earlier ⟨work, hj, -⟩
      cases hj
    · intro s a t hreach hs hn j earlier
      exact overtaken_step (poolInv_of_reachable hreach) hs hn
  exact key j earlier hdone hbehind

/-- Two workers, and the second work is through while the first one is still running: the bound is met. -/
theorem bounded_overtaking_one : ∃ s : ThreadPoolExecutor Unit, (threadPoolExecutor 2).Reachable s ∧
    s.Executed 1 ∧ s.Behind 1 [⟨0, ()⟩] ∧ [(⟨0, ()⟩ : Work Unit)].length < 2 := by
  let reached : ThreadPoolExecutor Unit :=
    ⟨false, [], [.running ⟨0, ()⟩, .ready], [⟨(), .notifying, false, false⟩, ⟨(), .notifying, false, false⟩],
      [], [⟨0, ()⟩, ⟨1, ()⟩], [⟨0, ()⟩, ⟨1, ()⟩], [⟨1, ()⟩]⟩
  have hrun : (threadPoolExecutor 2).Run (.create 2)
      [.callSubmit (), .enqueue 0, .callSubmit (), .enqueue 1, .check 0, .check 1, .execute 1] reached := by
    iterate 7 refine .cons rfl ?_
    exact .nil _
  have hreach := (System.reachable_init rfl).run hrun
  have hdone : reached.Executed 1 := ⟨⟨1, ()⟩, rfl, by decide⟩
  have hbehind : reached.Behind 1 [⟨0, ()⟩] := ⟨by decide, by decide, by decide⟩
  exact ⟨reached, hreach, hdone, hbehind, bounded_overtaking hreach hdone hbehind⟩

end ThreadPoolExecutor

end Blueth.Concurrency
