/-
# Blueth.Containers.Block — loops that store into a block of memory, slot after slot.

A block is the list of its slots. A store outside it has no result (`store`), and neither has a loop one of
whose stores is outside or has no value to store (`storeLoop`). What such a loop leaves is said slot by slot
(`exists_storeLoop`): the slots it went over hold what was stored there, the others what they held. A loop
that runs over the end of the block has no result whatever it stores (`storeLoop_eq_none`).
-/
import Mathlib.Data.List.Basic
import Mathlib.Tactic.Common

set_option autoImplicit false

namespace Blueth.Containers

variable {T : Type*}

/-- The slots of a new block: what the memory happens to hold. -/
def newArray (junk : ℕ → T) (size : ℕ) : List T := (List.range size).map junk

/-- `*(block + index) = x`. -/
def store (block : List T) (index : ℕ) (x : T) : Option (List T) :=
  if index < block.length then some (block.set index x) else none

/-- `value index` stored at each of the `count` indices from `start` on. -/
def storeLoop (value : ℕ → Option T) (start : ℕ) (block : List T) : ℕ → Option (List T)
  | 0 => some block
  | count + 1 =>
    (storeLoop value start block count).bind fun stored =>
      (value (start + count)).bind fun x => store stored (start + count) x

variable {junk : ℕ → T} {value : ℕ → Option T} {block stored : List T} {start count index n : ℕ} {x : T}

@[simp] theorem length_newArray : (newArray junk n).length = n := by simp [newArray]

theorem getElem?_newArray : (newArray junk n)[index]? = if index < n then some (junk index) else none := by
  by_cases h : index < n
  · simp [newArray, h]
  · simp [newArray, h]

theorem store_eq (h : index < block.length) : store block index x = some (block.set index x) := if_pos h

theorem store_eq_none (h : block.length ≤ index) : store block index x = none := if_neg (by omega)

theorem length_of_store (h : store block index x = some stored) : stored.length = block.length := by
  rw [store] at h
  split_ifs at h
  cases h
  exact List.length_set

theorem length_of_storeLoop (h : storeLoop value start block count = some stored) :
    stored.length = block.length := by
  induction count generalizing stored with
  | zero =>
      cases h
      rfl
  | succ count ih =>
      rw [storeLoop] at h
      obtain ⟨before, hbefore, h⟩ := Option.bind_eq_some_iff.mp h
      obtain ⟨x, -, h⟩ := Option.bind_eq_some_iff.mp h
      rw [length_of_store h, ih hbefore]

/-- **What a loop leaves**, slot by slot. -/
theorem exists_storeLoop (hvalue : ∀ i, start ≤ i → i < start + count → value i ≠ none)
    (hfit : start + count ≤ block.length) :
    ∃ stored, storeLoop value start block count = some stored ∧
      ∀ i, stored[i]? = if start ≤ i ∧ i < start + count then value i else block[i]? := by
  induction count with
  | zero =>
      refine ⟨block, rfl, ?_⟩
      intro i
      rw [if_neg (by omega)]
  | succ count ih =>
      obtain ⟨before, hbefore, hslots⟩ := ih (fun i h1 h2 => hvalue i h1 (by omega)) (by omega)
      have hlength := length_of_storeLoop hbefore
      obtain ⟨x, hx⟩ := Option.ne_none_iff_exists'.mp (hvalue (start + count) (by omega) (by omega))
      refine ⟨before.set (start + count) x, ?_, ?_⟩
      · simp only [storeLoop, hbefore, hx, Option.bind_some]
        exact store_eq (by omega)
      · intro i
        by_cases hi : i = start + count
        · subst hi
          rw [List.getElem?_set_self (by omega), if_pos (by omega), hx]
        · rw [List.getElem?_set_ne (by omega), hslots i]
          congr 1
          apply propext
          omega

/-- **Over the end** nothing can be stored. -/
theorem storeLoop_eq_none (hcount : 0 < count) (hover : block.length < start + count) :
    storeLoop value start block count = none := by
  obtain ⟨count, rfl⟩ := Nat.exists_eq_add_one.mpr hcount
  rw [storeLoop]
  cases hbefore : storeLoop value start block count with
  | none => rfl
  | some before =>
      have hlength := length_of_storeLoop hbefore
      cases value (start + count) with
      | none => rfl
      | some x => exact store_eq_none (by omega)

/-- A loop that copies the first slots of another block. -/
theorem storeLoop_copy {source : List T} (hsource : n ≤ source.length) (hfit : n ≤ block.length) :
    storeLoop (fun i => source[i]?) 0 block n = some (source.take n ++ block.drop n) := by
  have hread : ∀ i, 0 ≤ i → i < 0 + n → source[i]? ≠ none := by
    intro i _ hi
    simp
    omega
  have hfit' : 0 + n ≤ block.length := by omega
  obtain ⟨stored, hstored, hslots⟩ := exists_storeLoop hread hfit'
  rw [hstored]
  congr 1
  apply List.ext_getElem?
  intro i
  rw [hslots i, List.getElem?_append, List.length_take, Nat.min_eq_left hsource]
  by_cases hi : i < n
  · rw [if_pos (by omega), if_pos hi, List.getElem?_take_of_lt hi]
  · rw [if_neg (by omega), if_neg hi, List.getElem?_drop]
    congr 1
    omega

/-! ## A store behind the first slots -/

/-- Storing `x` at the slot makes it the one behind the first `size`: it is stored there, or was there
already and the store does no harm. -/
structure LandsBehind (block : List T) (size slot : ℕ) (x : T) : Prop where
  inside : slot < block.length
  lands : slot = size ∨ (block[size]? = some x ∧ (size < slot ∨ block[slot]? = some x))

variable {size slot : ℕ}

theorem landsBehind_self : LandsBehind block size size x ↔ size < block.length :=
  ⟨fun h => h.inside, fun h => ⟨h, Or.inl rfl⟩⟩

theorem LandsBehind.size_lt (h : LandsBehind block size slot x) : size < block.length := by
  rcases h.lands with heq | ⟨hx, -⟩
  · exact heq ▸ h.inside
  · exact (List.getElem?_eq_some_iff.mp hx).1

/-- **Where a store has to go** to add `x` to the first slots. -/
theorem take_set_iff (hslot : slot < block.length) :
    (block.set slot x).take (size + 1) = block.take size ++ [x] ↔ LandsBehind block size slot x := by
  have hsplit : (block.set slot x).take (size + 1) = block.take size ++ [x] ↔
      (block.take size).set slot x = block.take size ∧ (block.set slot x)[size]? = some x := by
    rw [List.take_add_one, List.take_set, ← Option.toList_eq_singleton_iff]
    constructor
    · intro h
      exact List.append_inj h List.length_set
    · rintro ⟨hsame, hx⟩
      rw [hsame, hx]
  rw [hsplit, List.getElem?_set, if_pos hslot]
  constructor
  · rintro ⟨hsame, hx⟩
    refine ⟨hslot, ?_⟩
    by_cases heq : slot = size
    · exact Or.inl heq
    · rw [if_neg heq] at hx
      refine Or.inr ⟨hx, ?_⟩
      by_cases hlt : slot < size
      · right
        rw [← List.getElem?_take_of_lt hlt, ← hsame, List.getElem?_set_self]
        rw [List.length_take]
        omega
      · left
        omega
  · intro h
    rcases h.lands with rfl | ⟨hx, hout | hin⟩
    · refine ⟨List.set_eq_of_length_le ?_, if_pos rfl⟩
      exact List.length_take_le _ _
    · refine ⟨List.set_eq_of_length_le ?_, ?_⟩
      · have := List.length_take_le size block
        omega
      · rw [if_neg (by omega), hx]
    · refine ⟨?_, by rw [hx, ite_self]⟩
      apply List.ext_getElem?
      intro i
      rw [List.getElem?_set, List.length_take]
      split_ifs with hi hlt
      · subst hi
        rw [List.getElem?_take_of_lt (by omega), hin]
      · subst hi
        rw [List.getElem?_take_eq_none (by omega)]
      · rfl

end Blueth.Containers
