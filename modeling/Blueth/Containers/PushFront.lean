/-
# Blueth.Containers.PushFront — `push_front`, and runs of pushes at both ends.

`push_front` builds a new block: the item in front, and behind it what its loop stores. The loop runs over
the slots from the first up to `size()`, not up to and with it, and it always stores the LAST element. So the
new block holds the item, the last element `size() - 1` times, and in the slot behind these whatever the
fresh memory held. That is the old list with the item in front only if all its elements happen to be that
value (`pushFront_meets_iff`).
-/
import Blueth.Containers.VectorRuns

set_option autoImplicit false

namespace Blueth.Containers

open Blueth.Transition (System)

variable {T : Type*}

/-! ## `push_front` -/

namespace Vector

/-- The body both branches of `push_front` have, the capacity being doubled in one of them. The item is
looked at before the old block is freed. -/
def shiftFront (grant : Grant T) (v : Vector T) (item : Item T) : Outcome T Unit :=
  match grant with
  | none => some (.error .badAlloc, v)
  | some junk =>
    (itemOf v item).bind fun x =>
      (store (newArray junk v.capacity.toNat) 0 x).bind fun tmpStore =>
        (storeLoop (fun _ => v.object[(v.size - 1).toNat]?) 1 tmpStore (v.size.toNat - 1)).map
          fun object => (.ok (), { v with object := object, size := v.size + 1 })

/-- `push_front(item)`. -/
def pushFront (grant : Grant T) (v : Vector T) (item : Item T) : Outcome T Unit :=
  if v.capacity > v.size then shiftFront grant v item
  else shiftFront grant { v with capacity := v.capacity * 2 } item

/-- The slots of the block `shiftFront` builds, up to the new size. -/
def shifted (v : Vector T) (junk : ℕ → T) (x : T) (i : ℕ) : Option T :=
  if i = 0 then some x
  else if i < v.size.toNat then v.object[(v.size - 1).toNat]?
  else some (junk i)

variable {v : Vector T} {l : List T} {x : T} {junk : ℕ → T} {item : Item T}

/-- **What `shiftFront` builds.** -/
theorem exists_shiftFront (hsize : v.size.toNat ≤ v.object.length) (hroom : v.size < v.capacity)
    (hx : itemOf v item = some x) (junk : ℕ → T) :
    ∃ object, shiftFront (some junk) v item
        = some (.ok (), { v with object := object, size := v.size + 1 }) ∧
      object.length = v.capacity.toNat ∧
      ∀ i, i < v.capacity.toNat → object[i]? = v.shifted junk x i := by
  have hlt := UInt64.lt_iff_toNat_lt.mp hroom
  have hread : ∀ i, 1 ≤ i → i < 1 + (v.size.toNat - 1) → v.object[(v.size - 1).toNat]? ≠ none := by
    intro i h1 h2
    have hone : 1 ≤ v.size := UInt64.le_iff_toNat_le.mpr (show 1 ≤ v.size.toNat by omega)
    have hsub : (v.size - 1).toNat = v.size.toNat - 1 := UInt64.toNat_sub_of_le _ _ hone
    rw [hsub, ne_eq, List.getElem?_eq_none_iff]
    omega
  have hstore : store (newArray junk v.capacity.toNat) 0 x = some ((newArray junk v.capacity.toNat).set 0 x) :=
    store_eq (by rw [length_newArray]; omega)
  have hfit : 1 + (v.size.toNat - 1) ≤ ((newArray junk v.capacity.toNat).set 0 x).length := by
    rw [List.length_set, length_newArray]
    omega
  obtain ⟨object, hobject, hslots⟩ := exists_storeLoop hread hfit
  refine ⟨object, ?_, ?_, ?_⟩
  · simp only [shiftFront, hx, hstore, hobject, Option.bind_some, Option.map_some]
  · rw [length_of_storeLoop hobject, List.length_set, length_newArray]
  · intro i hi
    rw [hslots i, shifted, List.getElem?_set, length_newArray, getElem?_newArray, if_pos hi]
    by_cases hzero : i = 0
    · subst hzero
      rw [if_neg (by omega), if_pos rfl, if_pos (by omega), if_pos rfl]
    · rw [if_neg (Ne.symm hzero), if_neg hzero]
      congr 1
      apply propext
      omega

/-- The block begins with `x` and then the list. -/
theorem take_eq_cons_iff {object : List T} (hfirst : object[0]? = some x) :
    object.take (l.length + 1) = x :: l ↔ ∀ i, i < l.length → object[i + 1]? = l[i]? := by
  obtain ⟨rest, rfl⟩ : ∃ rest, object = x :: rest := by
    cases object with
    | nil => cases hfirst
    | cons y rest => exact ⟨rest, by rw [Option.some.inj hfirst]⟩
  rw [List.take_succ_cons, List.cons.injEq, and_iff_right rfl]
  constructor
  · intro htake i hi
    rw [List.getElem?_cons_succ, ← List.getElem?_take_of_lt hi, htake]
  · intro hslots
    apply List.ext_getElem?
    intro i
    by_cases hi : i < l.length
    · rw [List.getElem?_take_of_lt hi, ← List.getElem?_cons_succ, hslots i hi]
    · rw [List.getElem?_take_eq_none (by omega), List.getElem?_eq_none (by omega)]

/-- The slots behind the item hold the list exactly when all of it is what the last of them held. -/
theorem shifted_eq_iff (hlength : l.length = v.size.toNat)
    (hobject : ∀ i, i < v.size.toNat → v.object[i]? = l[i]?) :
    (∀ i, i < l.length → v.shifted junk x (i + 1) = l[i]?) ↔ ∀ y ∈ l, y = junk v.size.toNat := by
  have hinner : ∀ i, i + 1 < v.size.toNat → v.shifted junk x (i + 1) = l[v.size.toNat - 1]? := by
    intro i hi
    have hone : 1 ≤ v.size := UInt64.le_iff_toNat_le.mpr (show 1 ≤ v.size.toNat by omega)
    have hsub : (v.size - 1).toNat = v.size.toNat - 1 := UInt64.toNat_sub_of_le _ _ hone
    rw [shifted, if_neg (Nat.succ_ne_zero i), if_pos hi, hsub]
    exact hobject _ (by omega)
  have houter : ∀ i, i + 1 = v.size.toNat → v.shifted junk x (i + 1) = some (junk v.size.toNat) := by
    intro i hi
    rw [shifted, if_neg (Nat.succ_ne_zero i), if_neg (by omega), hi]
  constructor
  · intro hslots y hy
    obtain ⟨i, hi, rfl⟩ := List.getElem_of_mem hy
    have hlast : l[v.size.toNat - 1]? = some (junk v.size.toNat) := by
      rw [← hslots _ (by omega)]
      exact houter _ (by omega)
    have hyi : l[i]? = some (junk v.size.toNat) := by
      by_cases hi' : i + 1 < v.size.toNat
      · rw [← hslots i hi, hinner i hi', hlast]
      · rw [← hlast]
        congr 1
        omega
    exact (List.getElem?_eq_some_iff.mp hyi).2
  · intro hall i hi
    have hconst : ∀ k, k < l.length → l[k]? = some (junk v.size.toNat) := by
      intro k hk
      rw [List.getElem?_eq_getElem hk, hall _ (List.getElem_mem hk)]
    by_cases hi' : i + 1 < v.size.toNat
    · rw [hinner i hi', hconst _ (by omega), hconst i hi]
    · rw [houter i (by omega), hconst i hi]

/-- **When `shiftFront` puts the item in front.** -/
theorem shiftFront_meets_iff (hsize : v.size.toNat ≤ v.object.length) (hl : v.elements = l)
    (hx : itemOf v item = some x) (junk : ℕ → T) :
    Meets l (x :: l) (shiftFront (some junk) v item) ↔
      v.size < v.capacity ∧ ∀ y ∈ l, y = junk v.size.toNat := by
  have hlength : l.length = v.size.toNat := by rw [← hl, length_elements hsize]
  by_cases hroom : v.size < v.capacity
  · obtain ⟨object, hshift, hobject, hslots⟩ := exists_shiftFront hsize hroom hx junk
    have hlt := UInt64.lt_iff_toNat_lt.mp hroom
    have hsucc := toNat_succ hroom
    have htake : Represents ⟨v.size + 1, v.capacity, object⟩ (x :: l) ↔
        object.take (l.length + 1) = x :: l := by
      rw [hlength, ← hsucc]
      constructor
      · exact fun h => h.elements_eq
      · exact fun h => ⟨by rw [UInt64.le_iff_toNat_le, hsucc]; exact hlt, Nat.le_of_eq hobject.symm, h⟩
    rw [hshift, and_iff_right hroom]
    apply htake.trans
    have hobject' : ∀ i, i < v.size.toNat → v.object[i]? = l[i]? := by
      intro i hi
      rw [← hl, elements, List.getElem?_take_of_lt hi]
    rw [take_eq_cons_iff (hslots 0 (by omega)), ← shifted_eq_iff (x := x) hlength hobject']
    apply forall₂_congr
    intro i hi
    rw [hslots (i + 1) (by omega)]
  · refine iff_of_false ?_ fun h => hroom h.1
    intro hmeets
    cases hshift : shiftFront (some junk) v item with
    | none =>
        rw [hshift] at hmeets
        exact hmeets
    | some after =>
        rw [hshift] at hmeets
        simp only [shiftFront, hx, Option.bind_some] at hshift
        obtain ⟨tmpStore, -, hshift⟩ := Option.bind_eq_some_iff.mp hshift
        obtain ⟨object, -, rfl⟩ := Option.map_eq_some_iff.mp hshift
        replace hmeets : Represents ⟨v.size + 1, v.capacity, object⟩ (x :: l) := hmeets
        have hlonger : l.length + 1 = (v.size + 1).toNat := hmeets.length_eq
        have hle : (v.size + 1).toNat ≤ v.capacity.toNat := UInt64.le_iff_toNat_le.mp hmeets.size_le
        have hfull := UInt64.lt_iff_toNat_lt.not.mp hroom
        omega

/-- The condition under which `shiftFront` works: all elements are the value the fresh block holds in the
slot behind them, and there is room for one more. Without memory nothing moves, but the capacity has to be
covered by the old block. -/
def ShiftsRight (grant : Grant T) (v : Vector T) : Prop :=
  match grant with
  | none => v.size ≤ v.capacity ∧ v.capacity.toNat ≤ v.object.length
  | some junk => v.size < v.capacity ∧ ∀ y ∈ v.elements, y = junk v.size.toNat

/-- The condition for `push_front`, which doubles the capacity of a full vector first. -/
def PushesFront (grant : Grant T) (v : Vector T) : Prop :=
  if v.size < v.capacity then ShiftsRight grant v
  else ShiftsRight grant { v with capacity := v.capacity * 2 }

theorem shiftFront_meets_iff_shiftsRight {grant : Grant T} (hsize : v.size.toNat ≤ v.object.length)
    (hl : v.elements = l) (hx : itemOf v item = some x) :
    Meets l (x :: l) (shiftFront grant v item) ↔ ShiftsRight grant v := by
  cases grant with
  | none =>
      constructor
      · exact fun h => ⟨h.size_le, h.capacity_le⟩
      · exact fun h => ⟨h.1, h.2, hl⟩
  | some junk =>
      rw [shiftFront_meets_iff hsize hl hx, ← hl]
      exact Iff.rfl

/-- **`push_front`** puts the item in front of the list exactly under its condition. -/
theorem pushFront_meets_iff {grant : Grant T} (h : v.Represents l) (hx : itemOf v item = some x) :
    Meets l (x :: l) (pushFront grant v item) ↔ PushesFront grant v := by
  rw [pushFront, PushesFront]
  by_cases hroom : v.size < v.capacity
  · rw [if_pos hroom, if_pos hroom]
    exact shiftFront_meets_iff_shiftsRight h.size_le_length h.elements_eq hx
  · rw [if_neg hroom, if_neg hroom]
    exact shiftFront_meets_iff_shiftsRight h.size_le_length h.elements_eq hx

end Vector

/-! ## Pushes at both ends -/

/-- A push. -/
inductive EndPush (T : Type*) where
  | back (item : Item T) (grant : Grant T)
  | front (item : Item T) (grant : Grant T)

/-- Where a run of pushes has come to: the vector, and the items pushed at the front and at the back so far,
the earliest first. -/
inductive PushStage (T : Type*) where
  | holding (vector : Vector T) (fronts backs : List T)
  | outside

/-- What a vector that held `l` is to hold by then. -/
def bothEnds (l fronts backs : List T) : List T := fronts.reverse ++ l ++ backs

namespace PushStage

/-- The stage after an operation; without memory nothing has been pushed. -/
def afterPush (fronts backs fronts' backs' : List T) : Outcome T Unit → PushStage T
  | none => .outside
  | some (.error .badAlloc, v) => .holding v fronts backs
  | some (_, v) => .holding v fronts' backs'

/-- The stage after a push, if it can be made. -/
def after (l : List T) : PushStage T → EndPush T → Option (PushStage T)
  | .holding v fronts backs, .back item grant =>
    (item.inList (bothEnds l fronts backs)).map fun x =>
      afterPush fronts backs fronts (backs ++ [x]) (v.pushBack grant item)
  | .holding v fronts backs, .front item grant =>
    (item.inList (bothEnds l fronts backs)).map fun x =>
      afterPush fronts backs (fronts ++ [x]) backs (v.pushFront grant item)
  | .outside, _ => none

/-- The vector holds the items pushed at the front, the last one first, then `l`, then the items pushed at
the back. -/
def Holds (l : List T) : PushStage T → Prop
  | .holding v fronts backs => v.Represents (bothEnds l fronts backs)
  | .outside => False

/-- The push is not one that goes wrong. -/
def Careful : PushStage T → EndPush T → Prop
  | .holding v _ _, .back item grant =>
    v.size < v.capacity ∨ grant = none ∨ ((∃ x, item = .value x) ∧ v.size < v.capacity * 2)
  | .holding v _ _, .front _ grant => v.PushesFront grant
  | .outside, _ => True

end PushStage

/-- The pushes made one a step, from a vector that represents `l`. -/
def endPushes (l : List T) : System (PushStage T) (EndPush T) where
  init s := ∃ v : Vector T, v.Represents l ∧ s = .holding v [] []
  next s push t := s.after l push = some t

section Pushes

variable {l fronts backs fronts' backs' : List T} {x : T} {s t : PushStage T} {push : EndPush T}

@[simp] theorem bothEnds_front :
    bothEnds l (fronts ++ [x]) backs = x :: bothEnds l fronts backs := by
  simp [bothEnds]

@[simp] theorem bothEnds_back :
    bothEnds l fronts (backs ++ [x]) = bothEnds l fronts backs ++ [x] := by
  simp [bothEnds]

theorem PushStage.holds_afterPush_iff (outcome : Outcome T Unit) :
    (PushStage.afterPush fronts backs fronts' backs' outcome).Holds l ↔
      Vector.Meets (bothEnds l fronts backs) (bothEnds l fronts' backs') outcome := by
  match outcome with
  | none => exact Iff.rfl
  | some (.error .badAlloc, v) => exact Iff.rfl
  | some (.error (.outOfRange what), v) => exact Iff.rfl
  | some (.ok (), v) => exact Iff.rfl

/-- **What a push does.** -/
theorem PushStage.Holds.next_iff (hs : s.Holds l) (hstep : (endPushes l).next s push t) :
    t.Holds l ↔ s.Careful push := by
  cases s with
  | holding v fronts backs =>
      replace hs : v.Represents (bothEnds l fronts backs) := hs
      cases push with
      | back item grant =>
          obtain ⟨x, hx, rfl⟩ := Option.map_eq_some_iff.mp hstep
          rw [holds_afterPush_iff, bothEnds_back]
          exact Vector.pushBack_meets_iff hs (hs.itemOf_eq hx)
      | front item grant =>
          obtain ⟨x, hx, rfl⟩ := Option.map_eq_some_iff.mp hstep
          rw [holds_afterPush_iff, bothEnds_front]
          exact Vector.pushFront_meets_iff hs (hs.itemOf_eq hx)
  | outside => exact absurd hs id

end Pushes

/-- **When pushes at both ends add up.** In every run of pushes from a vector that represents `l`: after
every push the vector holds the items pushed at the front in reverse, `l`, and the items pushed at the back,
exactly when every `push_front` of the run finds all elements equal to what the fresh block holds behind
them, and no push of the run fails to double the capacity or takes its item from a block it frees. -/
theorem pushes_hold_iff_careful {l : List T} {pushes : List (EndPush T)} {s t : PushStage T}
    (hinit : (endPushes l).init s) (hr : (endPushes l).Run s pushes t) :
    (∀ before behind u, pushes = before ++ behind → (endPushes l).Run s before u → u.Holds l) ↔
      ((endPushes l).only PushStage.Careful).Run s pushes t := by
  have hstart : s.Holds l := by
    obtain ⟨v, hv, rfl⟩ := hinit
    show v.Represents (bothEnds l [] [])
    simpa [bothEnds] using hv
  refine System.Run.always_iff ?_ ?_ ?_ (fun s hs => hs) hr hstart
  · intro s push t u ht hu
    exact Option.some.inj (ht.symm.trans hu)
  · intro s push t hs hstep hcareful
    exact (hs.next_iff hstep).mpr hcareful
  · intro s push t hs hstep ht
    exact (hs.next_iff hstep).mp ht

/-- A vector of two zeros, pushed at both ends over zeroed memory. -/
theorem pushes_hold_iff_careful_zeros :
    ∃ t, (endPushes [(0 : UInt32), 0]).Run (.holding ⟨2, 4, [0, 0, 0, 0]⟩ [] [])
        [.front (.value 9) (some fun _ => 0), .back (.value 5) none] t ∧ t.Holds [0, 0] := by
  have hstart : Vector.Represents ⟨2, 4, [0, 0, 0, 0]⟩ [(0 : UInt32), 0] :=
    ⟨by decide, by decide, rfl⟩
  have hfront : ((endPushes [(0 : UInt32), 0]).only PushStage.Careful).next
      (.holding ⟨2, 4, [0, 0, 0, 0]⟩ [] []) (.front (.value 9) (some fun _ => 0))
      (.holding ⟨3, 4, [9, 0, 0, 0]⟩ [9] []) := by
    refine ⟨?_, rfl⟩
    show Vector.PushesFront _ _
    rw [Vector.PushesFront, if_pos (by decide)]
    refine ⟨by decide, ?_⟩
    intro y hy
    replace hy : y ∈ [(0 : UInt32), 0] := hy
    simpa using hy
  have hback : ((endPushes [(0 : UInt32), 0]).only PushStage.Careful).next
      (.holding ⟨3, 4, [9, 0, 0, 0]⟩ [9] []) (.back (.value 5) none)
      (.holding ⟨4, 4, [9, 0, 0, 5]⟩ [9] [5]) := ⟨Or.inl (by decide), rfl⟩
  have hrun := System.Run.cons hfront (.single hback)
  refine ⟨_, hrun.of_only, ?_⟩
  exact (pushes_hold_iff_careful ⟨_, hstart, rfl⟩ hrun.of_only).mpr hrun _ [] _
    (List.append_nil _).symm hrun.of_only

/-- **`push_front(9)` to 1, 2** leaves 9, 2 and a slot of the fresh block. -/
theorem pushFront_loses_elements :
    Vector.Represents ⟨2, 4, [1, 2, 0, 0]⟩ [(1 : UInt32), 2] ∧
      Vector.pushFront (some fun _ => 0) ⟨2, 4, [1, 2, 0, 0]⟩ (.value (9 : UInt32))
        = some (.ok (), ⟨3, 4, [9, 2, 0, 0]⟩) ∧
      ¬ Vector.Represents ⟨3, 4, [9, 2, 0, 0]⟩ [(9 : UInt32), 1, 2] := by
  refine ⟨⟨by decide, by decide, rfl⟩, rfl, ?_⟩
  exact fun h => absurd h.elements_eq (by decide)

end Blueth.Containers
