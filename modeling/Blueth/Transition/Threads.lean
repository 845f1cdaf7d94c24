/-
# Blueth.Transition.Threads — threads as a list, a condition variable, and work handed over a queue.

Three general facts about a program with several threads, each independent of what the threads do:

* `holdings`, what the threads have in their hands all together, and how it changes when ONE thread moves
  (`holdings_set`): a permutation, so that nothing about the order of the threads enters;
* a condition variable over the list of threads. `notifyOne` wakes one sleeper if there is one,
  `notifyAll` every one, and a spurious wake-up is one more way for a sleeper to be woken. All three are
  `Woken`: some sleepers are awake now, and nobody else has noticed;
* `Conserved`, the book-keeping of work that is posted to a queue, taken from it and finished: what is
  posted is what was taken followed by what is queued, and what was taken is finished or in somebody's
  hands, each piece once.
-/
import Mathlib.Algebra.Ring.Nat
import Mathlib.Data.List.Perm.Basic
import Mathlib.Data.List.Nodup
import Mathlib.Tactic.Common

set_option autoImplicit false

namespace Blueth.Transition.Threads

variable {ω β : Type*}

/-! ## One entry of a list -/

theorem getElem?_set_cases {l : List ω} {i : ℕ} {w : ω} (hi : l[i]? = some w) (j : ℕ) (w' : ω) :
    (i = j ∧ (l.set i w')[j]? = some w') ∨ (i ≠ j ∧ (l.set i w')[j]? = l[j]?) := by
  by_cases hij : i = j
  · subst hij
    exact .inl ⟨rfl, List.getElem?_set_self (List.getElem?_eq_some_iff.mp hi).1⟩
  · exact .inr ⟨hij, List.getElem?_set_ne hij⟩

theorem getElem?_concat_cases (l : List ω) (w : ω) (j : ℕ) :
    (l ++ [w])[j]? = l[j]? ∨ (l[j]? = none ∧ (l ++ [w])[j]? = some w) := by
  rcases Nat.lt_trichotomy j l.length with hlt | rfl | hgt
  · exact .inl (List.getElem?_append_left hlt)
  · exact .inr ⟨List.getElem?_eq_none (Nat.le_refl _), List.getElem?_concat_length⟩
  · refine .inl ?_
    rw [List.getElem?_eq_none (Nat.le_of_lt hgt), List.getElem?_eq_none]
    rw [List.length_append, List.length_singleton]
    exact hgt

/-! ## What the threads hold -/

section Holdings

variable {held : ω → Option β} {threads : List ω} {i j : ℕ} {w w' : ω} {b : β}

/-- Everything some thread holds. -/
def holdings (held : ω → Option β) (threads : List ω) : List β := threads.filterMap held

theorem holdings_cons :
    holdings held (w :: threads) = (held w).toList ++ holdings held threads := by
  unfold holdings
  cases h : held w with
  | none => rw [List.filterMap_cons_none h, Option.toList_none, List.nil_append]
  | some b => rw [List.filterMap_cons_some h, Option.toList_some, List.singleton_append]

theorem mem_holdings : b ∈ holdings held threads ↔ ∃ (i : ℕ) (w : ω), threads[i]? = some w ∧ held w = some b := by
  unfold holdings
  rw [List.mem_filterMap]
  constructor
  · intro ⟨w, hw, hb⟩
    obtain ⟨i, hi⟩ := List.mem_iff_getElem?.mp hw
    exact ⟨i, w, hi, hb⟩
  · intro ⟨i, w, hi, hb⟩
    exact ⟨w, List.mem_of_getElem? hi, hb⟩

theorem holdings_eq_nil (h : ∀ w ∈ threads, held w = none) : holdings held threads = [] :=
  List.filterMap_eq_nil_iff.mpr h

/-- **One thread moves.** It gives up what it held and holds what it holds now. -/
theorem holdings_set (h : threads[i]? = some w) :
    ((held w).toList ++ holdings held (threads.set i w')).Perm
      ((held w').toList ++ holdings held threads) := by
  induction threads generalizing i with
  | nil => cases h
  | cons v threads ih =>
    cases i with
    | zero =>
      cases h
      rw [List.set_cons_zero, holdings_cons, holdings_cons]
      exact List.perm_append_comm_assoc _ _ _
    | succ i =>
      rw [List.set_cons_succ, holdings_cons, holdings_cons]
      -- the thread in front keeps what it has: move it past both hands
      calc (held w).toList ++ ((held v).toList ++ holdings held (threads.set i w'))
        _ |>.Perm ((held v).toList ++ ((held w).toList ++ holdings held (threads.set i w'))) :=
          List.perm_append_comm_assoc _ _ _
        _ |>.Perm ((held v).toList ++ ((held w').toList ++ holdings held threads)) := (ih h).append_left _
        _ |>.Perm ((held w').toList ++ ((held v).toList ++ holdings held threads)) :=
          List.perm_append_comm_assoc _ _ _

/-- Where nothing is held twice, a piece is in the hands of one thread. -/
theorem holder_unique (hnodup : (holdings held threads).Nodup) (hi : threads[i]? = some w)
    (hj : threads[j]? = some w') (hw : held w = some b) (hw' : held w' = some b) : i = j := by
  induction threads generalizing i j with
  | nil => cases hi
  | cons v threads ih =>
    rw [holdings_cons] at hnodup
    have happart : ∀ {k : ℕ} {u : ω}, threads[k]? = some u → held u = some b → held v ≠ some b := by
      intro k u hk hu hv
      apply List.disjoint_of_nodup_append hnodup (a := b)
      · rw [hv]
        exact List.mem_singleton_self b
      · exact mem_holdings.mpr ⟨k, u, hk, hu⟩
    cases i with
    | zero =>
      cases hi
      cases j with
      | zero => rfl
      | succ j => exact absurd hw (happart hj hw')
    | succ i =>
      cases j with
      | zero =>
        cases hj
        exact absurd hw' (happart hi hw)
      | succ j => rw [ih hnodup.of_append_right hi hj]

/-- Whatever is added up over the threads changes by what one of them adds. -/
theorem sum_map_set (f : ω → ℕ) (h : threads[i]? = some w) :
    ((threads.set i w').map f).sum + f w = (threads.map f).sum + f w' := by
  induction threads generalizing i with
  | nil => cases h
  | cons v threads ih =>
    cases i with
    | zero =>
      cases h
      rw [List.set_cons_zero, List.map_cons, List.map_cons, List.sum_cons, List.sum_cons]
      omega
    | succ i =>
      have hrest := ih h
      rw [List.set_cons_succ, List.map_cons, List.map_cons, List.sum_cons, List.sum_cons]
      omega

end Holdings

/-! ## A condition variable -/

section CondVar

variable (sleeps : ω → Bool) (wake : ω → ω)

/-- **`notify_one`.** It wakes one sleeper, any one; it has no effect only if nobody sleeps. -/
def notifyOne (threads : List ω) (woken : Option ℕ) : Option (List ω) :=
  match woken with
  | none => if threads.any sleeps then none else some threads
  | some i =>
    match threads[i]? with
    | some w => if sleeps w then some (threads.set i (wake w)) else none
    | none => none

/-- **`notify_all`.** -/
def notifyAll (threads : List ω) : List ω := threads.map fun w => if sleeps w then wake w else w

/-- Some sleepers have been woken, and no other thread has changed. -/
structure Woken (threads threads' : List ω) : Prop where
  length : threads'.length = threads.length
  each : ∀ (i : ℕ) (w : ω), threads[i]? = some w →
    threads'[i]? = some w ∨ (sleeps w = true ∧ threads'[i]? = some (wake w))

variable {sleeps wake} {threads threads' : List ω} {woken : Option ℕ} {i : ℕ} {w : ω}

theorem woken_notifyOne (h : notifyOne sleeps wake threads woken = some threads') :
    Woken sleeps wake threads threads' := by
  unfold notifyOne at h
  cases woken with
  | none =>
    simp only [Option.ite_none_left_eq_some, Option.some.injEq] at h
    rw [← h.2]
    exact ⟨rfl, fun i w hw => .inl hw⟩
  | some k =>
    cases hk : threads[k]? with
    | none => simp [hk] at h
    | some v =>
      simp only [hk, Option.ite_none_right_eq_some, Option.some.injEq] at h
      rw [← h.2]
      refine ⟨List.length_set, ?_⟩
      intro i w hw
      rcases getElem?_set_cases hk i (wake v) with ⟨rfl, hnew⟩ | ⟨-, hsame⟩
      · rw [hk] at hw
        cases hw
        exact .inr ⟨h.1, hnew⟩
      · rw [hsame]
        exact .inl hw

theorem exists_notifyOne (sleeps : ω → Bool) (wake : ω → ω) (threads : List ω) :
    ∃ woken threads', notifyOne sleeps wake threads woken = some threads' := by
  by_cases hany : threads.any sleeps = true
  · obtain ⟨w, hw, hs⟩ := List.any_eq_true.mp hany
    obtain ⟨i, hi⟩ := List.mem_iff_getElem?.mp hw
    refine ⟨some i, threads.set i (wake w), ?_⟩
    simp only [notifyOne, hi, hs, if_true]
  · refine ⟨none, threads, ?_⟩
    simp only [notifyOne, hany, if_false, Bool.false_eq_true]

theorem woken_notifyAll : Woken sleeps wake threads (notifyAll sleeps wake threads) := by
  unfold notifyAll
  refine ⟨List.length_map _, ?_⟩
  intro i w hw
  rw [List.getElem?_map, hw]
  by_cases hs : sleeps w
  · exact .inr ⟨hs, by simp [hs]⟩
  · exact .inl (by simp [hs])

theorem Woken.getElem? (h : Woken sleeps wake threads threads') (hi : threads'[i]? = some w) :
    threads[i]? = some w ∨ ∃ v, threads[i]? = some v ∧ sleeps v = true ∧ w = wake v := by
  have hlt : i < threads.length := by
    rw [← h.length]
    exact (List.getElem?_eq_some_iff.mp hi).1
  have hv := List.getElem?_eq_getElem hlt
  rcases h.each i _ hv with hsame | ⟨hs, hwake⟩
  · rw [hi] at hsame
    cases hsame
    exact .inl hv
  · rw [hi] at hwake
    cases hwake
    exact .inr ⟨_, hv, hs, rfl⟩

/-- Where nobody sleeps there is nobody to wake. -/
theorem Woken.eq_of_awake (h : Woken sleeps wake threads threads') (hawake : ∀ w ∈ threads, sleeps w = false) :
    threads' = threads := by
  apply List.ext_getElem h.length
  intro i hi' hi
  rcases h.each i _ (List.getElem?_eq_getElem hi) with hsame | ⟨hsleeps, -⟩
  · rw [List.getElem?_eq_getElem hi', Option.some.injEq] at hsame
    exact hsame
  · rw [hawake _ (List.getElem_mem hi)] at hsleeps
    cases hsleeps

/-- Waking somebody up does not put anything in its hands. -/
theorem Woken.holdings_eq {held : ω → Option β} (h : Woken sleeps wake threads threads')
    (hheld : ∀ w, sleeps w = true → held (wake w) = held w) :
    holdings held threads' = holdings held threads := by
  have hmap : threads'.map held = threads.map held := by
    apply List.ext_getElem?
    intro i
    rw [List.getElem?_map, List.getElem?_map]
    cases hi : threads'[i]? with
    | none =>
      rw [List.getElem?_eq_none_iff, h.length] at hi
      rw [List.getElem?_eq_none hi]
    | some w =>
      rcases h.getElem? hi with hsame | ⟨v, hv, hs, rfl⟩
      · rw [hsame]
      · rw [hv, Option.map_some, Option.map_some, hheld v hs]
  have key := congrArg (List.filterMap id) hmap
  rwa [List.filterMap_map, List.filterMap_map] at key

/-- After `notify_one` somebody is awake: the one it woke, or else nobody slept. -/
theorem exists_awake_of_notifyOne (hwake : ∀ w, sleeps (wake w) = false) (hne : threads ≠ [])
    (h : notifyOne sleeps wake threads woken = some threads') :
    ∃ w ∈ threads', sleeps w = false := by
  unfold notifyOne at h
  cases woken with
  | none =>
    simp only [Option.ite_none_left_eq_some, Option.some.injEq] at h
    obtain ⟨hnone, rfl⟩ := h
    obtain ⟨w, hw⟩ := List.exists_mem_of_ne_nil threads hne
    refine ⟨w, hw, ?_⟩
    by_contra hs
    exact hnone (List.any_eq_true.mpr ⟨w, hw, by simpa using hs⟩)
  | some k =>
    cases hk : threads[k]? with
    | none => simp [hk] at h
    | some v =>
      simp only [hk, Option.ite_none_right_eq_some, Option.some.injEq] at h
      rw [← h.2]
      exact ⟨wake v, List.mem_set (List.getElem?_eq_some_iff.mp hk).1 _, hwake v⟩

/-- After `notify_all` everybody is. -/
theorem awake_of_notifyAll (hwake : ∀ w, sleeps (wake w) = false) :
    ∀ w ∈ notifyAll sleeps wake threads, sleeps w = false := by
  intro w hw
  obtain ⟨v, -, rfl⟩ := List.mem_map.mp hw
  by_cases hs : sleeps v
  · rw [if_pos hs]
    exact hwake v
  · rw [if_neg hs]
    simpa using hs

end CondVar

/-! ## Work that is posted, taken and finished -/

/-- **Nothing is lost and nothing is done twice.** `posted` and `taken` are histories, in their order;
`queue`, `held` and `finished` are where the work is now. -/
structure Conserved (posted taken queue held finished : List β) : Prop where
  inOrder : posted = taken ++ queue
  divided : taken.Perm (held ++ finished)
  distinct : posted.Nodup

namespace Conserved

variable {posted taken queue held held' finished : List β} {b : β}

theorem post (h : Conserved posted taken queue held finished) (hb : b ∉ posted) :
    Conserved (posted ++ [b]) taken (queue ++ [b]) held finished := by
  refine ⟨?_, h.divided, ?_⟩
  · rw [h.inOrder, List.append_assoc]
  · exact List.nodup_append.mpr ⟨h.distinct, List.nodup_singleton b,
      fun x hx y hy hxy => hb (List.mem_singleton.mp hy ▸ hxy ▸ hx)⟩

theorem take (h : Conserved posted taken (b :: queue) held finished) (hheld : held'.Perm (b :: held)) :
    Conserved posted (taken ++ [b]) queue held' finished := by
  refine ⟨?_, ?_, h.distinct⟩
  · rw [h.inOrder, List.append_assoc, List.singleton_append]
  · calc taken ++ [b]
      _ |>.Perm (b :: taken) := List.perm_append_singleton b taken
      _ |>.Perm (b :: held ++ finished) := h.divided.cons b
      _ |>.Perm (held' ++ finished) := (hheld.symm).append_right finished

theorem finish (h : Conserved posted taken queue held finished) (hheld : held.Perm (b :: held')) :
    Conserved posted taken queue held' (finished ++ [b]) := by
  refine ⟨h.inOrder, ?_, h.distinct⟩
  calc taken
    _ |>.Perm (held ++ finished) := h.divided
    _ |>.Perm (b :: (held' ++ finished)) := hheld.append_right finished
    _ |>.Perm (held' ++ finished ++ [b]) := (List.perm_append_singleton b _).symm
    _ |>.Perm (held' ++ (finished ++ [b])) := by rw [List.append_assoc]

theorem mem_posted (h : Conserved posted taken queue held finished) :
    b ∈ posted ↔ b ∈ queue ∨ b ∈ held ∨ b ∈ finished := by
  rw [h.inOrder, List.mem_append, h.divided.mem_iff, List.mem_append]
  exact or_comm

/-- Where a piece of work stands in the history is where it has always stood. -/
theorem index_of_taken (h : Conserved posted taken queue held finished) {j : ℕ} (hj : posted[j]? = some b)
    (hb : b ∈ taken) : j < taken.length ∧ taken[j]? = some b := by
  obtain ⟨i, hi⟩ := List.mem_iff_getElem?.mp hb
  have hlt := (List.getElem?_eq_some_iff.mp hi).1
  have hposted : posted[i]? = some b := by
    rw [h.inOrder, List.getElem?_append_left hlt]
    exact hi
  obtain rfl : i = j := (List.getElem?_inj (List.getElem?_eq_some_iff.mp hposted).1 h.distinct).mp
    (hposted.trans hj.symm)
  exact ⟨hlt, hi⟩

/-- What is posted before a piece that has been taken has been taken. -/
theorem taken_of_earlier (h : Conserved posted taken queue held finished) {j : ℕ} (hj : posted[j]? = some b)
    (hb : b ∈ taken) {c : β} (hc : c ∈ posted.take j) : c ∈ taken := by
  have hlt := (h.index_of_taken hj hb).1
  rw [h.inOrder, List.take_append_of_le_length (Nat.le_of_lt hlt)] at hc
  exact List.mem_of_mem_take hc

theorem nodup_places (h : Conserved posted taken queue held finished) :
    (queue ++ (held ++ finished)).Nodup := by
  have hnodup := h.distinct
  rw [h.inOrder] at hnodup
  exact (List.perm_append_comm.trans (h.divided.symm.append_left queue).symm).nodup_iff.mp hnodup

end Conserved

end Blueth.Transition.Threads
