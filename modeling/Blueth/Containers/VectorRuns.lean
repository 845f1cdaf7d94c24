/-
# Blueth.Containers.VectorRuns — the life of a vector, against the list it is to be.

A vector is made by one of its constructors and then used; the list beside it is what its elements are to
be after the same calls. A copy goes on in place of the vector it was made from. A call that finds no memory
is to leave the list as it was. `Refines` is what is to hold between the two after every call, and
`refines_iff_careful` says of every run whether it does: four of the calls have inputs they are wrong on.

* `push_back` and `emplace_back` double the capacity, which may be 0 by then, and read their item from a
  block they have freed;
* `emplace_back` counts in bytes where it should count in slots, and from the last element;
* `resize` takes a size between `size()` and `capacity()` for a smaller one, and sets the capacity before it
  has the memory;
* the copy constructor copies one slot too many.
-/
import Blueth.Transition.System
import Blueth.Containers.Vector

set_option autoImplicit false

namespace Blueth.Containers

open Blueth.Transition (System)

variable {T : Type*}

/-! ## Calls -/

/-- A call; `grant` answers the `new` it may make. -/
inductive VectorCall (T : Type*) where
  | construct (grant : Grant T)
  | constructList (initList : { l : List T // l.length < 2 ^ 64 }) (grant : Grant T)
  | copyConstruct (grant : Grant T)
  | pushBack (item : Item T) (grant : Grant T)
  | emplaceBack (item : Item T) (grant : Grant T)
  | popBack
  | resize (size : UInt64) (grant : Grant T)
  | shrinkToFit
  | atIndex (index : UInt64)
  | subscript (index : UInt64)

/-- The item as an element of the list. -/
def Item.inList (l : List T) : Item T → Option T
  | .value x => some x
  | .element index => l[index.toNat]?

/-- Where the life of a vector has come to. -/
inductive Stage (T : Type*) where
  /-- there is none yet -/
  | unmade
  /-- the vector, and the list it is to represent -/
  | made (vector : Vector T) (list : List T)
  /-- a call has left the block -/
  | outside

namespace Stage

/-- The stage after a constructor; without memory it is the one before. -/
def afterMaking (before : Stage T) (l : List T) : Option (Except VectorError (Vector T)) → Stage T
  | none => .outside
  | some (.error _) => before
  | some (.ok v) => .made v l

/-- The stage after a call that is to turn `l` into `l'`. -/
def afterCall (l l' : List T) : Outcome T Unit → Stage T
  | none => .outside
  | some (.error .badAlloc, v) => .made v l
  | some (_, v) => .made v l'

/-- The stage after an access. -/
def afterAccess (v : Vector T) (l : List T) : Option (Except VectorError T) → Stage T
  | none => .outside
  | some _ => .made v l

/-- The stage after a call, if it can be made. -/
def after (sizeOfT : UInt64) : Stage T → VectorCall T → Option (Stage T)
  | .unmade, .construct grant => some (afterMaking .unmade [] (some (Vector.ofSize grant 0)))
  | .unmade, .constructList initList grant =>
    some (afterMaking .unmade initList.val (Vector.ofList grant initList.val))
  | .made v l, .copyConstruct grant => some (afterMaking (.made v l) l (v.copy grant))
  | .made v l, .pushBack item grant =>
    (item.inList l).map fun x => afterCall l (l ++ [x]) (v.pushBack grant item)
  | .made v l, .emplaceBack item grant =>
    (item.inList l).map fun x => afterCall l (l ++ [x]) (v.emplaceBack sizeOfT grant item)
  | .made v l, .popBack => some (afterCall l l.dropLast v.popBack)
  | .made v l, .resize size grant => some (afterCall l (l.take size.toNat) (v.resize grant size))
  | .made v l, .shrinkToFit => some (.made v.shrinkToFit l)
  | .made v l, .atIndex index => some (afterAccess v l (v.atIndex index))
  | .made v l, .subscript index => some (afterAccess v l (v.subscript index))
  | _, _ => none

end Stage

/-- The calls made one a step, for elements of `sizeOfT` bytes. -/
def vectorUses (T : Type*) (sizeOfT : UInt64) : System (Stage T) (VectorCall T) where
  init s := s = .unmade
  next s call t := s.after sizeOfT call = some t

/-! ## The refinement -/

/-- **The vector refines the list.** -/
structure Vector.Refines (v : Vector T) (l : List T) : Prop extends v.Represents l where
  atIndex_eq : ∀ index, v.atIndex index = some (match l[index.toNat]? with
    | some x => .ok x
    | none => .error (.outOfRange "at() out of bound"))
  subscript_eq : ∀ index, v.subscript index = some (match l[index.toNat]? with
    | some x => .ok x
    | none => .error (.outOfRange "operator[] out of bound"))
  popBack_eq : l = [] →
    v.popBack = some (.error (.outOfRange "calling pop_back() on empty container"), v)

/-- No call has left the block, and the vector refines the list. -/
def Stage.Sound : Stage T → Prop
  | .unmade => True
  | .made v l => v.Refines l
  | .outside => False

/-- The call is not one of those that go wrong. -/
def Stage.Careful (sizeOfT : UInt64) : Stage T → VectorCall T → Prop
  | .unmade, .constructList initList grant =>
    grant = none ∨ UInt64.ofNat initList.val.length ≤ UInt64.ofNat initList.val.length * 2
  | .made v _, .copyConstruct grant => grant = none ∨ v.size < v.capacity
  | .made v _, .pushBack item grant =>
    v.size < v.capacity ∨ grant = none ∨ ((∃ x, item = .value x) ∧ v.size < v.capacity * 2)
  | .made v _, .emplaceBack item grant => v.AddsBehind (fun size => (size - 1) * sizeOfT) grant item
  | .made v _, .resize size grant =>
    if size > v.capacity then
      v.size ≤ size * 2 ∧ (grant = none → (size * 2).toNat ≤ v.object.length)
    else size ≤ v.size
  | _, _ => True

section Refinement

variable {v : Vector T} {l l' : List T} {x : T} {item : Item T} {s t : Stage T} {sizeOfT : UInt64}
  {call : VectorCall T}

/-- The rest follows from what is represented. -/
theorem Vector.refines_iff : v.Refines l ↔ v.Represents l := by
  constructor
  · exact fun h => h.toRepresents
  · intro h
    refine ⟨h, h.access_eq _, h.access_eq _, ?_⟩
    rintro rfl
    exact h.popBack_eq

theorem Vector.Represents.itemOf_eq (h : v.Represents l) (hx : item.inList l = some x) :
    v.itemOf item = some x := by
  cases item with
  | value y => exact hx
  | element index =>
      have hlt : index.toNat < l.length := (List.getElem?_eq_some_iff.mp hx).1
      exact (h.getElem?_eq (h.length_eq ▸ hlt)).trans hx

theorem Stage.sound_afterMaking_iff (hs : s.Sound) (made : Option (Except VectorError (Vector T))) :
    (Stage.afterMaking s l made).Sound ↔ Vector.Makes l made := by
  match made with
  | none => exact Iff.rfl
  | some (.error _) => exact iff_of_true hs trivial
  | some (.ok v) => exact Vector.refines_iff

theorem Stage.sound_afterCall_iff (outcome : Outcome T Unit) :
    (Stage.afterCall l l' outcome).Sound ↔ Vector.Meets l l' outcome := by
  match outcome with
  | none => exact Iff.rfl
  | some (.error .badAlloc, v) => exact Vector.refines_iff
  | some (.error (.outOfRange what), v) => exact Vector.refines_iff
  | some (.ok (), v) => exact Vector.refines_iff

/-- An access changes nothing and stays inside. -/
theorem Stage.sound_afterAccess (h : v.Represents l) (what : String) (index : UInt64) :
    (Stage.afterAccess v l (v.access what index)).Sound := by
  rw [h.access_eq what index]
  exact Vector.refines_iff.mpr h

/-- **What making a vector does.** -/
theorem Stage.next_unmade_iff (hstep : Stage.after sizeOfT .unmade call = some t) :
    t.Sound ↔ Stage.Careful sizeOfT .unmade call := by
  cases call with
  | construct grant =>
      obtain rfl := Option.some.inj hstep
      rw [sound_afterMaking_iff (s := .unmade) trivial]
      exact iff_of_true (Vector.ofSize_makes grant) trivial
  | constructList initList grant =>
      obtain rfl := Option.some.inj hstep
      rw [sound_afterMaking_iff (s := .unmade) trivial]
      exact Vector.ofList_makes_iff initList.property
  | _ => cases hstep

/-- **What a call on a vector does.** -/
theorem Stage.next_made_iff (h : v.Represents l) (hstep : Stage.after sizeOfT (.made v l) call = some t) :
    t.Sound ↔ Stage.Careful sizeOfT (.made v l) call := by
  cases call with
  | copyConstruct grant =>
      obtain rfl := Option.some.inj hstep
      rw [sound_afterMaking_iff (s := .made v l) (Vector.refines_iff.mpr h)]
      exact Vector.copy_makes_iff h
  | pushBack item grant =>
      obtain ⟨x, hx, rfl⟩ := Option.map_eq_some_iff.mp hstep
      rw [sound_afterCall_iff]
      exact Vector.pushBack_meets_iff h (h.itemOf_eq hx)
  | emplaceBack item grant =>
      obtain ⟨x, hx, rfl⟩ := Option.map_eq_some_iff.mp hstep
      rw [sound_afterCall_iff]
      exact Vector.addBack_meets_iff h (h.itemOf_eq hx)
  | popBack =>
      obtain rfl := Option.some.inj hstep
      rw [sound_afterCall_iff]
      exact iff_of_true h.popBack_meets trivial
  | resize size grant =>
      obtain rfl := Option.some.inj hstep
      rw [sound_afterCall_iff]
      exact Vector.resize_meets_iff h size
  | shrinkToFit =>
      obtain rfl := Option.some.inj hstep
      exact iff_of_true (Vector.refines_iff.mpr h.shrinkToFit) trivial
  | atIndex index =>
      obtain rfl := Option.some.inj hstep
      exact iff_of_true (sound_afterAccess h _ index) trivial
  | subscript index =>
      obtain rfl := Option.some.inj hstep
      exact iff_of_true (sound_afterAccess h _ index) trivial
  | _ => cases hstep

theorem Stage.Sound.next_iff (hs : s.Sound) (hstep : (vectorUses T sizeOfT).next s call t) :
    t.Sound ↔ s.Careful sizeOfT call := by
  cases s with
  | unmade => exact next_unmade_iff hstep
  | made v l => exact next_made_iff (Vector.refines_iff.mp hs) hstep
  | outside => exact absurd hs id

end Refinement

/-! ## Runs -/

/-- **When a vector refines its list.** In every run, from its construction on and over copies, for
elements of any type and size: after every call, exactly when no call is one that goes wrong. -/
theorem refines_iff_careful {sizeOfT : UInt64} {calls : List (VectorCall T)} {t : Stage T}
    (hr : (vectorUses T sizeOfT).Run .unmade calls t) :
    (∀ before behind s, calls = before ++ behind → (vectorUses T sizeOfT).Run .unmade before s →
        s.Sound) ↔
      ((vectorUses T sizeOfT).only (Stage.Careful sizeOfT)).Run .unmade calls t := by
  refine System.Run.always_iff ?_ ?_ ?_ (fun s hs => hs) hr trivial
  · intro s call t u ht hu
    exact Option.some.inj (ht.symm.trans hu)
  · intro s call t hs hstep hcareful
    exact (hs.next_iff hstep).mpr hcareful
  · intro s call t hs hstep ht
    exact (hs.next_iff hstep).mp ht

/-- A vector of elements of two bytes that is filled beyond its capacity, grown, copied, and given one of its
elements again. With two elements in it, `emplace_back` counts to the slot behind them. -/
theorem refines_iff_careful_filled :
    ∃ t, (vectorUses UInt16 2).Run .unmade
        [.construct (some fun _ => 0), .pushBack (.value 1) none, .pushBack (.value 2) (some fun _ => 0),
          .resize 3 (some fun _ => 0), .emplaceBack (.value 5) none, .copyConstruct (some fun _ => 7),
          .pushBack (.element 0) none] t ∧ t.Sound := by
  let uses := (vectorUses UInt16 2).only (Stage.Careful 2)
  have hconstruct : uses.next .unmade (.construct (some fun _ => 0)) (.made ⟨0, 1, [0]⟩ []) := ⟨trivial, rfl⟩
  have hfirst : uses.next (.made ⟨0, 1, [0]⟩ []) (.pushBack (.value 1) none) (.made ⟨1, 1, [1]⟩ [1]) :=
    ⟨Or.inl (by decide), rfl⟩
  have hsecond : uses.next (.made ⟨1, 1, [1]⟩ [1]) (.pushBack (.value 2) (some fun _ => 0))
      (.made ⟨2, 2, [1, 2]⟩ [1, 2]) := ⟨Or.inr (Or.inr ⟨⟨2, rfl⟩, by decide⟩), rfl⟩
  have hgrown : uses.next (.made ⟨2, 2, [1, 2]⟩ [1, 2]) (.resize 3 (some fun _ => 0))
      (.made ⟨2, 6, [1, 2, 0, 0, 0, 0]⟩ [1, 2]) := by
    refine ⟨?_, rfl⟩
    rw [Stage.Careful, if_pos (by decide)]
    exact ⟨by decide, fun h => by cases h⟩
  have hemplaced : uses.next (.made ⟨2, 6, [1, 2, 0, 0, 0, 0]⟩ [1, 2]) (.emplaceBack (.value 5) none)
      (.made ⟨3, 6, [1, 2, 5, 0, 0, 0]⟩ [1, 2, 5]) := by
    refine ⟨?_, rfl⟩
    rw [Stage.Careful, Vector.AddsBehind, if_pos (by decide)]
    exact ⟨5, rfl, landsBehind_self.mpr (by decide)⟩
  have hcopied : uses.next (.made ⟨3, 6, [1, 2, 5, 0, 0, 0]⟩ [1, 2, 5]) (.copyConstruct (some fun _ => 7))
      (.made ⟨3, 6, [1, 2, 5, 0, 7, 7]⟩ [1, 2, 5]) := ⟨Or.inr (by decide), rfl⟩
  have hagain : uses.next (.made ⟨3, 6, [1, 2, 5, 0, 7, 7]⟩ [1, 2, 5]) (.pushBack (.element 0) none)
      (.made ⟨4, 6, [1, 2, 5, 1, 7, 7]⟩ [1, 2, 5, 1]) := ⟨Or.inl (by decide), rfl⟩
  have hrun := System.Run.cons hconstruct (.cons hfirst (.cons hsecond (.cons hgrown
    (.cons hemplaced (.cons hcopied (.single hagain))))))
  refine ⟨_, hrun.of_only, ?_⟩
  exact (refines_iff_careful hrun.of_only).mpr hrun _ [] _ (List.append_nil _).symm hrun.of_only

/-- **`emplace_back` on an empty vector** of ints stores far outside the block. -/
theorem emplaceBack_empty_outside :
    (vectorUses UInt32 4).Run .unmade
        [.construct (some fun _ => 0), .emplaceBack (.value 5) none] .outside ∧
      ¬ (Stage.outside : Stage UInt32).Sound := by
  refine ⟨.cons rfl (.single ?_), id⟩
  rfl

end Blueth.Containers
