/-
# Blueth.Containers.Vector — `container::vector` and its operations (`containers/vector.hpp`).

The elements are of a trivially copyable type `T` of `sizeof(T)` bytes, so `std::destroy_at` does nothing
and the loops that call it are left out. A `Vector` is the two `size_t` members, which wrap, and the block
`object` points to, as the list of its slots. An access outside the block has no result; otherwise an
operation returns or throws, and leaves a vector either way. `new T[n]` is given its answer: `none` is
`std::bad_alloc`, else it says what the fresh slots happen to hold.

An item is passed by reference, and the reference may be to an element of the vector itself. Where the
operation has freed the block by the time it looks at the item, that reference dangles.
-/
import Mathlib.Algebra.Ring.Nat
import Blueth.Containers.Block

set_option autoImplicit false

namespace Blueth.Containers

variable {T : Type*}

/-! ## The object -/

/-- `container::vector<T>`. -/
structure Vector (T : Type*) where
  size : UInt64
  capacity : UInt64
  object : List T
  deriving DecidableEq, Repr

/-- What an operation throws. -/
inductive VectorError where
  | badAlloc
  | outOfRange (what : String)
  deriving DecidableEq, Repr

/-- The answer of `new T[n]`. -/
abbrev Grant (T : Type*) := Option (ℕ → T)

/-- How an operation ends; `none` is an access outside the block. -/
abbrev Outcome (T α : Type*) := Option (Except VectorError α × Vector T)

/-- An argument of type `const T &` or `T &&`. -/
inductive Item (T : Type*) where
  /-- an object outside the vector -/
  | value (x : T)
  /-- the element of the vector with this index -/
  | element (index : UInt64)
  deriving DecidableEq, Repr

namespace Vector

/-- The element list the vector stands for. -/
def elements (v : Vector T) : List T := v.object.take v.size.toNat

/-! ## Construction -/

/-- `vector(init_size)`. -/
def ofSize (grant : Grant T) (initSize : UInt64) : Except VectorError (Vector T) :=
  match grant with
  | none => .error .badAlloc
  | some junk => .ok { size := initSize, capacity := 1, object := newArray junk 1 }

/-- `vector(init_list)`. -/
def ofList (grant : Grant T) (initList : List T) : Option (Except VectorError (Vector T)) :=
  let size := UInt64.ofNat initList.length
  match grant with
  | none => some (.error .badAlloc)
  | some junk =>
    (storeLoop (fun index => initList[index]?) 0 (newArray junk (size * 2).toNat) size.toNat).map
      fun object => .ok { size := size, capacity := size * 2, object := object }

/-- `vector(rhs)`: its loop runs up to `index <= m_size`. -/
def copy (grant : Grant T) (rhs : Vector T) : Option (Except VectorError (Vector T)) :=
  match grant with
  | none => some (.error .badAlloc)
  | some junk =>
    (storeLoop (fun index => rhs.object[index]?) 0 (newArray junk rhs.capacity.toNat)
        (rhs.size.toNat + 1)).map
      fun object => .ok { size := rhs.size, capacity := rhs.capacity, object := object }

/-! ## Access -/

/-- `at` and `operator[]`, which differ in what they throw. -/
def access (what : String) (v : Vector T) (index : UInt64) : Option (Except VectorError T) :=
  if v.size > index then v.object[index.toNat]?.map .ok else some (.error (.outOfRange what))

/-- `at(index)`. -/
def atIndex (v : Vector T) (index : UInt64) : Option (Except VectorError T) :=
  access "at() out of bound" v index

/-- `operator[](index)`. -/
def subscript (v : Vector T) (index : UInt64) : Option (Except VectorError T) :=
  access "operator[] out of bound" v index

/-! ## Growing and shrinking -/

/-- `m_reserve(allocation_size)`. -/
def reserve (grant : Grant T) (v : Vector T) (allocationSize : UInt64) : Outcome T Unit :=
  match grant with
  | none => some (.error .badAlloc, v)
  | some junk =>
    (storeLoop (fun index => v.object[index]?) 0 (newArray junk allocationSize.toNat) v.size.toNat).map
      fun object => (.ok (), { v with object := object, capacity := allocationSize })

/-- The item behind the argument, while the block of `v` is there. -/
def itemOf (v : Vector T) : Item T → Option T
  | .value x => some x
  | .element index => v.object[index.toNat]?

/-- The item, once the block its reference may be into has been freed. -/
def itemAfterFree : Item T → Option T
  | .value x => some x
  | .element _ => none

/-- The item stored at a slot, and one element more. -/
def storeNext (v : Vector T) (slot : UInt64) (item : Option T) : Outcome T Unit :=
  item.bind fun x =>
    (store v.object slot.toNat x).map fun object =>
      (.ok (), { v with object := object, size := v.size + 1 })

/-- `push_back` and `emplace_back`, which differ in the slot they use for a vector of this size. -/
def addBack (slot : UInt64 → UInt64) (grant : Grant T) (v : Vector T) (item : Item T) : Outcome T Unit :=
  if v.capacity > v.size then storeNext v (slot v.size) (itemOf v item)
  else
    match reserve grant v (v.capacity * 2) with
    | some (.ok (), grown) => storeNext grown (slot grown.size) (itemAfterFree item)
    | failed => failed

/-- `push_back(item)`, of both kinds. -/
def pushBack (grant : Grant T) (v : Vector T) (item : Item T) : Outcome T Unit :=
  addBack (fun size => size) grant v item

/-- `emplace_back(args...)`, with the item the arguments construct; `object + (m_size - 1) * sizeof(T)`
counts in slots. -/
def emplaceBack (sizeOfT : UInt64) (grant : Grant T) (v : Vector T) (item : Item T) : Outcome T Unit :=
  addBack (fun size => (size - 1) * sizeOfT) grant v item

/-- `pop_back()`. -/
def popBack (v : Vector T) : Outcome T Unit :=
  if v.size ≠ 0 then some (.ok (), { v with size := v.size - 1 })
  else some (.error (.outOfRange "calling pop_back() on empty container"), v)

/-- `resize(size)`. -/
def resize (grant : Grant T) (v : Vector T) (size : UInt64) : Outcome T Unit :=
  if size > v.capacity then reserve grant { v with capacity := size * 2 } (size * 2)
  else some (.ok (), { v with size := size, capacity := size })

/-- `shrink_to_fit()`. -/
def shrinkToFit (v : Vector T) : Vector T :=
  if v.size ≠ v.capacity then { v with capacity := v.size } else v

/-! ## The list a vector represents -/

/-- `size() <= capacity() <= ` slots, and the elements are those of the list. -/
structure Represents (v : Vector T) (l : List T) : Prop where
  size_le : v.size ≤ v.capacity
  capacity_le : v.capacity.toNat ≤ v.object.length
  elements_eq : v.elements = l

/-- How an operation is to end: with the list `l'` represented, or for want of memory with the list `l` it
found. -/
def Meets (l l' : List T) : Outcome T Unit → Prop
  | none => False
  | some (.error .badAlloc, v) => v.Represents l
  | some (_, v) => v.Represents l'

variable {v : Vector T} {l : List T} {x : T} {junk : ℕ → T} {n index : UInt64}

theorem length_elements (h : v.size.toNat ≤ v.object.length) : v.elements.length = v.size.toNat := by
  rw [elements, List.length_take, Nat.min_eq_left h]

namespace Represents

theorem size_le_length (h : v.Represents l) : v.size.toNat ≤ v.object.length :=
  le_trans (UInt64.le_iff_toNat_le.mp h.size_le) h.capacity_le

theorem length_eq (h : v.Represents l) : l.length = v.size.toNat := by
  rw [← h.elements_eq, length_elements h.size_le_length]

theorem getElem?_eq (h : v.Represents l) {i : ℕ} (hi : i < v.size.toNat) : v.object[i]? = l[i]? := by
  rw [← h.elements_eq, elements, List.getElem?_take_of_lt hi]

/-- The list is determined by the vector. -/
theorem unique {l' : List T} (h : v.Represents l) (h' : v.Represents l') : l = l' :=
  h.elements_eq.symm.trans h'.elements_eq

/-- **Access** gives the element with the index, or throws. -/
theorem access_eq (h : v.Represents l) (what : String) (index : UInt64) :
    access what v index = some (match l[index.toNat]? with
      | some x => .ok x
      | none => .error (.outOfRange what)) := by
  rw [access]
  split_ifs with hlt
  · have hi : index.toNat < v.size.toNat := UInt64.lt_iff_toNat_lt.mp hlt
    rw [h.getElem?_eq hi, List.getElem?_eq_getElem (by rw [h.length_eq]; exact hi)]
    rfl
  · have hi : v.size.toNat ≤ index.toNat := by
      have := UInt64.lt_iff_toNat_lt.not.mp hlt
      omega
    rw [List.getElem?_eq_none (by rw [h.length_eq]; exact hi)]

theorem popBack_meets (h : v.Represents l) : Meets l l.dropLast (popBack v) := by
  have hlen := h.length_eq
  rw [popBack]
  split_ifs with hzero
  · have hpos : 1 ≤ v.size := by
      rw [UInt64.le_iff_toNat_le]
      have hne : v.size.toNat ≠ 0 := fun e => hzero (UInt64.toNat_inj.mp e)
      show 1 ≤ v.size.toNat
      omega
    have hsub : (v.size - 1).toNat = v.size.toNat - 1 := UInt64.toNat_sub_of_le _ _ hpos
    have hsize := UInt64.le_iff_toNat_le.mp h.size_le
    refine ⟨?_, h.capacity_le, ?_⟩
    · rw [UInt64.le_iff_toNat_le]
      show (v.size - 1).toNat ≤ v.capacity.toNat
      omega
    · show v.object.take (v.size - 1).toNat = l.dropLast
      rw [hsub, List.dropLast_eq_take, hlen, ← h.elements_eq, elements, List.take_take]
      congr 1
      omega
  · rw [not_not] at hzero
    have hnil : l = [] := by
      apply List.eq_nil_of_length_eq_zero
      rw [hlen, hzero]
      rfl
    subst hnil
    exact h

theorem popBack_eq (h : v.Represents []) :
    popBack v = some (.error (.outOfRange "calling pop_back() on empty container"), v) := by
  have hzero : v.size = 0 := UInt64.toNat_inj.mp h.length_eq.symm
  rw [popBack, if_neg (not_not.mpr hzero)]

theorem shrinkToFit (h : v.Represents l) : v.shrinkToFit.Represents l := by
  rw [Vector.shrinkToFit]
  split_ifs
  · exact ⟨UInt64.le_refl _, h.size_le_length, h.elements_eq⟩
  · exact h

end Represents

/-! ## What the operations make of it -/

/-- The block after `m_reserve(n)`. -/
def grownObject (v : Vector T) (junk : ℕ → T) (n : UInt64) : List T :=
  v.elements ++ (newArray junk n.toNat).drop v.size.toNat

/-- **`m_reserve`**: right if the new block is large enough for the elements. -/
theorem reserve_eq (h : v.size.toNat ≤ v.object.length) (junk : ℕ → T) (n : UInt64) :
    reserve (some junk) v n =
      if v.size ≤ n then some (.ok (), { v with object := v.grownObject junk n, capacity := n })
      else none := by
  simp only [reserve]
  split_ifs with hn
  · rw [storeLoop_copy h (by rw [length_newArray]; exact UInt64.le_iff_toNat_le.mp hn)]
    rfl
  · have hlt : n.toNat < v.size.toNat := by
      have := UInt64.le_iff_toNat_le.not.mp hn
      omega
    rw [storeLoop_eq_none (by omega) (by rw [length_newArray]; omega)]
    rfl

theorem length_grownObject (h : v.size.toNat ≤ v.object.length) (hn : v.size ≤ n) :
    (v.grownObject junk n).length = n.toNat := by
  have hn' := UInt64.le_iff_toNat_le.mp hn
  rw [grownObject, List.length_append, length_elements h, List.length_drop, length_newArray]
  omega

/-- A vector that has grown represents the same list. -/
theorem Represents.grown (hsize : v.size.toNat ≤ v.object.length) (hl : v.elements = l) (hn : v.size ≤ n) :
    Represents { v with object := v.grownObject junk n, capacity := n } l := by
  refine ⟨hn, Nat.le_of_eq (length_grownObject hsize hn).symm, ?_⟩
  rw [← hl]
  show (v.elements ++ _).take v.size.toNat = v.elements
  rw [← length_elements hsize, List.take_left']
  rfl

theorem toNat_succ {size capacity : UInt64} (h : size < capacity) : (size + 1).toNat = size.toNat + 1 := by
  have hlt := UInt64.lt_iff_toNat_lt.mp h
  have hcapacity := capacity.toNat_lt
  rw [UInt64.toNat_add]
  show (size.toNat + 1) % 2 ^ 64 = size.toNat + 1
  omega

/-- **One element more.** With room for it, the item is added exactly when its store lands behind the
elements. -/
theorem storeNext_meets_iff (h : v.Represents l)
    (hroom : v.size < v.capacity ∨ v.capacity.toNat = v.object.length) (slot : UInt64) (x : T) :
    Meets l (l ++ [x]) (storeNext v slot (some x)) ↔
      LandsBehind v.object v.size.toNat slot.toNat x := by
  by_cases hslot : slot.toNat < v.object.length
  · rw [← take_set_iff hslot]
    simp only [storeNext, Option.bind_some, store_eq hslot, Option.map_some]
    rw [show v.object.take v.size.toNat = l from h.elements_eq]
    constructor
    · intro hmeets
      replace hmeets : Represents ⟨v.size + 1, v.capacity, v.object.set slot.toNat x⟩ (l ++ [x]) := hmeets
      have hsize : v.size.toNat + 1 = (v.size + 1).toNat := by
        rw [← hmeets.length_eq, List.length_append, h.length_eq]
        rfl
      rw [hsize]
      exact hmeets.elements_eq
    · intro htake
      have hlt : v.size < v.capacity := by
        rcases hroom with hroom | hroom
        · exact hroom
        · rw [UInt64.lt_iff_toNat_lt, hroom, ← h.length_eq]
          have hlength := congrArg List.length htake
          rw [List.length_append, List.length_take, List.length_set, List.length_singleton] at hlength
          omega
      refine ⟨?_, ?_, ?_⟩
      · rw [UInt64.le_iff_toNat_le, toNat_succ hlt]
        exact UInt64.lt_iff_toNat_lt.mp hlt
      · rw [List.length_set]
        exact h.capacity_le
      · show (v.object.set slot.toNat x).take (v.size + 1).toNat = l ++ [x]
        rw [toNat_succ hlt, htake]
  · have hnone : storeNext v slot (some x) = none := by
      simp only [storeNext, Option.bind_some, store_eq_none (Nat.le_of_not_lt hslot), Option.map_none]
    rw [hnone]
    exact iff_of_false id fun hlands => hslot hlands.inside

/-- The vector after a granted `m_reserve(capacity() * 2)`. -/
def grown (v : Vector T) (junk : ℕ → T) : Vector T :=
  { v with object := v.grownObject junk (v.capacity * 2), capacity := v.capacity * 2 }

/-- The item of an `addBack` lands behind the elements: where there is room, in the block; where there is
none, in the new block, which has to be large enough for the elements, and the item must not have been in
the old one. -/
def AddsBehind (slot : UInt64 → UInt64) (grant : Grant T) (v : Vector T) (item : Item T) : Prop :=
  if v.size < v.capacity then
    ∃ x, itemOf v item = some x ∧ LandsBehind v.object v.size.toNat (slot v.size).toNat x
  else
    ∀ junk, grant = some junk → ∃ x, itemAfterFree item = some x ∧ v.size ≤ v.capacity * 2 ∧
      LandsBehind (v.grown junk).object v.size.toNat (slot v.size).toNat x

/-- **`push_back` and `emplace_back`** add the item at the end exactly when it lands there. -/
theorem addBack_meets_iff {slot : UInt64 → UInt64} {grant : Grant T} {item : Item T}
    (h : v.Represents l) (hx : itemOf v item = some x) :
    Meets l (l ++ [x]) (addBack slot grant v item) ↔ AddsBehind slot grant v item := by
  rw [addBack, AddsBehind]
  by_cases hroom : v.size < v.capacity
  · rw [if_pos hroom, if_pos hroom, hx, storeNext_meets_iff h (Or.inl hroom)]
    simp only [Option.some.injEq, exists_eq_left']
  · rw [if_neg hroom, if_neg hroom]
    cases grant with
    | none => exact iff_of_true h fun junk hgrant => by cases hgrant
    | some junk =>
        rw [reserve_eq h.size_le_length]
        simp only [Option.some.injEq, forall_eq']
        split_ifs with hsize
        · show Meets l (l ++ [x]) (storeNext (v.grown junk) (slot v.size) (itemAfterFree item)) ↔ _
          have hgrown : (v.grown junk).Represents l :=
            Represents.grown h.size_le_length h.elements_eq hsize
          have hfull : (v.grown junk).capacity.toNat = (v.grown junk).object.length :=
            (length_grownObject h.size_le_length hsize).symm
          cases item with
          | value y =>
              obtain rfl : y = x := Option.some.inj hx
              rw [itemAfterFree, storeNext_meets_iff hgrown (Or.inr hfull)]
              constructor
              · intro hlands
                exact ⟨y, rfl, hsize, hlands⟩
              · rintro ⟨z, hz, -, hlands⟩
                obtain rfl := Option.some.inj hz
                exact hlands
          | element index =>
              refine iff_of_false id ?_
              rintro ⟨y, hy, -⟩
              cases hy
        · refine iff_of_false id ?_
          rintro ⟨y, -, hle, -⟩
          exact hsize hle

/-- `push_back` fails to double a capacity of 0 (or one that doubles out of range), and an item in the
block it frees. -/
theorem pushBack_meets_iff {grant : Grant T} {item : Item T} (h : v.Represents l)
    (hx : itemOf v item = some x) :
    Meets l (l ++ [x]) (pushBack grant v item) ↔
      v.size < v.capacity ∨ grant = none ∨ ((∃ y, item = .value y) ∧ v.size < v.capacity * 2) := by
  rw [pushBack, addBack_meets_iff h hx, AddsBehind]
  by_cases hroom : v.size < v.capacity
  · have hlt := UInt64.lt_iff_toNat_lt.mp hroom
    rw [if_pos hroom]
    exact iff_of_true ⟨x, hx, landsBehind_self.mpr (lt_of_lt_of_le hlt h.capacity_le)⟩ (Or.inl hroom)
  · rw [if_neg hroom, or_iff_right hroom]
    cases grant with
    | none => exact iff_of_true (fun junk hgrant => by cases hgrant) (Or.inl rfl)
    | some junk =>
        rw [or_iff_right (Option.some_ne_none junk)]
        constructor
        · intro hadds
          obtain ⟨y, hy, hle, hlands⟩ := hadds junk rfl
          cases item with
          | value z =>
              refine ⟨⟨z, rfl⟩, ?_⟩
              rw [UInt64.lt_iff_toNat_lt, ← length_grownObject h.size_le_length hle]
              exact hlands.size_lt
          | element index => cases hy
        · rintro ⟨⟨y, rfl⟩, hlt⟩ junk' -
          have hle := UInt64.le_of_lt hlt
          refine ⟨y, rfl, hle, landsBehind_self.mpr ?_⟩
          show v.size.toNat < (v.grownObject junk' (v.capacity * 2)).length
          rw [length_grownObject h.size_le_length hle]
          exact UInt64.lt_iff_toNat_lt.mp hlt

/-- **`resize`** represents the list cut to the new size, unless the new size is behind the elements and
within the capacity, twice the new size is too little, or there is no memory: then the capacity has been
set all the same, and has to be covered by the old block. -/
theorem resize_meets_iff {grant : Grant T} (h : v.Represents l) (n : UInt64) :
    Meets l (l.take n.toNat) (resize grant v n) ↔
      if n > v.capacity then
        v.size ≤ n * 2 ∧ (grant = none → (n * 2).toNat ≤ v.object.length)
      else n ≤ v.size := by
  rw [resize]
  split_ifs with hn
  · have htake : l.take n.toNat = l := by
      apply List.take_of_length_le
      have hsize := UInt64.le_iff_toNat_le.mp h.size_le
      have hcapacity := UInt64.lt_iff_toNat_lt.mp hn
      rw [h.length_eq]
      omega
    rw [htake]
    cases grant with
    | none =>
        constructor
        · intro hmeets
          exact ⟨hmeets.size_le, fun _ => hmeets.capacity_le⟩
        · rintro ⟨hsize, hblock⟩
          exact ⟨hsize, hblock rfl, h.elements_eq⟩
    | some junk =>
        have hlength : (⟨v.size, n * 2, v.object⟩ : Vector T).size.toNat ≤ v.object.length :=
          h.size_le_length
        rw [reserve_eq hlength, and_iff_left (by intro hgrant; cases hgrant)]
        split_ifs with hle
        · exact iff_of_true (Represents.grown hlength h.elements_eq hle) hle
        · exact iff_of_false id hle
  · have hcapacity : n.toNat ≤ v.capacity.toNat := by
      have := UInt64.lt_iff_toNat_lt.not.mp hn
      omega
    rw [UInt64.le_iff_toNat_le]
    constructor
    · intro hmeets
      replace hmeets : Represents ⟨n, n, v.object⟩ (l.take n.toNat) := hmeets
      have hlength : min n.toNat v.size.toNat = n.toNat := by
        rw [← h.length_eq, ← List.length_take]
        exact hmeets.length_eq
      omega
    · intro hle
      refine ⟨UInt64.le_refl n, le_trans hcapacity h.capacity_le, ?_⟩
      show v.object.take n.toNat = l.take n.toNat
      rw [← h.elements_eq, elements, List.take_take, Nat.min_eq_left hle]

/-- How a constructor is to end: with a vector that represents `l`, or for want of memory with none. -/
def Makes (l : List T) : Option (Except VectorError (Vector T)) → Prop
  | none => False
  | some (.error _) => True
  | some (.ok v) => v.Represents l

theorem ofSize_makes (grant : Grant T) : Makes [] (some (ofSize grant 0)) := by
  cases grant with
  | none => exact trivial
  | some junk => exact ⟨UInt64.zero_le, Nat.le_of_eq length_newArray.symm, rfl⟩

/-- **The copy constructor** copies one slot more than there are elements, so it needs room for one. -/
theorem copy_makes_iff {grant : Grant T} (h : v.Represents l) :
    Makes l (copy grant v) ↔ grant = none ∨ v.size < v.capacity := by
  cases grant with
  | none => exact iff_of_true trivial (Or.inl rfl)
  | some junk =>
      have hcapacity := h.capacity_le
      rw [or_iff_right (Option.some_ne_none junk), UInt64.lt_iff_toNat_lt]
      simp only [copy]
      by_cases hlt : v.size.toNat < v.capacity.toNat
      · rw [storeLoop_copy (by omega) (by rw [length_newArray]; omega)]
        refine iff_of_true ⟨h.size_le, ?_, ?_⟩ hlt
        · show v.capacity.toNat ≤ _
          rw [List.length_append, List.length_take, List.length_drop, length_newArray]
          omega
        · show List.take v.size.toNat (v.object.take (v.size.toNat + 1) ++ _) = l
          rw [List.take_append_of_le_length (by rw [List.length_take]; omega), List.take_take,
            Nat.min_eq_left (by omega)]
          exact h.elements_eq
      · rw [storeLoop_eq_none (by omega) (by rw [length_newArray]; omega)]
        exact iff_of_false id hlt

/-- **The initializer-list constructor** doubles the size of the list. -/
theorem ofList_makes_iff {grant : Grant T} {initList : List T} (hlength : initList.length < 2 ^ 64) :
    Makes initList (ofList grant initList) ↔
      grant = none ∨ UInt64.ofNat initList.length ≤ UInt64.ofNat initList.length * 2 := by
  have hsize : (UInt64.ofNat initList.length).toNat = initList.length :=
    UInt64.toNat_ofNat_of_lt hlength
  cases grant with
  | none => exact iff_of_true trivial (Or.inl rfl)
  | some junk =>
      rw [or_iff_right (Option.some_ne_none junk), UInt64.le_iff_toNat_le]
      simp only [ofList]
      by_cases hle : (UInt64.ofNat initList.length).toNat ≤ (UInt64.ofNat initList.length * 2).toNat
      · rw [storeLoop_copy (by omega) (by rw [length_newArray]; exact hle)]
        refine iff_of_true ⟨UInt64.le_iff_toNat_le.mpr hle, ?_, ?_⟩ hle
        · show (UInt64.ofNat initList.length * 2).toNat ≤ _
          rw [List.length_append, List.length_take, List.length_drop, length_newArray]
          omega
        · show List.take (UInt64.ofNat initList.length).toNat (initList.take _ ++ _) = initList
          rw [hsize, List.take_length, List.take_left']
          rfl
      · rw [storeLoop_eq_none (by omega) (by rw [length_newArray]; omega)]
        exact iff_of_false id hle

end Vector

end Blueth.Containers
