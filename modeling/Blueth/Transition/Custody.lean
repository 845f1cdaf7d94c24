/-
# Blueth.Transition.Custody — names that are handed out and handed back, and who holds them meanwhile.

An authority (an allocator, a kernel) hands out names and takes them back; between the two, holders pass
them around. `Entry` is the authority's record, latest entry first, and `out` the names it has handed out
and not got back. Two things can go wrong, and they are independent:

* the RECORD is not `Exact`: a name is handed back that is not out (twice, or never handed out);
* the HOLDERS are not `HeldOnce`: a name that is out has no holder (it will never be handed back) or two
  (it will be handed back twice).

The lemmas say exactly which changes of the holders keep `HeldOnce`; exchanging what two holders hold
always does (`heldOnce_comp_equiv`), a new holder or a departing one needs a side condition. Where moreover
nobody holds a name that is not out (`HeldExactly`), a name must be handed out to a holder and handed back by it.

An operation of one holder may be many dealings with the authority, one after the other. `Trades` is what they
come to when each is made for the holder, and `HeldExactly.trades` is the rule for all of them at once.
-/
import Mathlib.Data.Finset.Basic
import Mathlib.Logic.Equiv.Basic
import Mathlib.Tactic.Common

set_option autoImplicit false

namespace Blueth.Transition

/-! ## The record -/

/-- An entry of the record. -/
inductive Entry (δ : Type*) where
  | handedOut (name : δ)
  | handedBack (name : δ)
  deriving DecidableEq, Repr

namespace Entry

variable {δ : Type*} [DecidableEq δ]

/-- The names handed out and not handed back since. -/
def out : List (Entry δ) → Finset δ
  | [] => ∅
  | handedOut d :: record => insert d (out record)
  | handedBack d :: record => (out record).erase d

/-- No name is handed out while it is out, none is handed back while it is not. -/
def Exact : List (Entry δ) → Prop
  | [] => True
  | handedOut d :: record => d ∉ out record ∧ Exact record
  | handedBack d :: record => d ∈ out record ∧ Exact record

variable {record : List (Entry δ)} {d : δ}

/-- **The balance of an exact record**: a name was handed back as often as it was handed out, but for the
one time it is still out. -/
theorem Exact.balance (h : Exact record) (d : δ) :
    record.count (handedOut d) = record.count (handedBack d) + if d ∈ out record then 1 else 0 := by
  induction record with
  | nil => rfl
  | cons e record ih =>
      have ih' := ih (by cases e <;> exact h.2)
      by_cases hed : e = handedOut d ∨ e = handedBack d
      · rcases hed with rfl | rfl
        · have hfree : d ∉ out record := h.1
          rw [if_neg hfree] at ih'
          simp [out, ih']
        · have htaken : d ∈ out record := h.1
          rw [if_pos htaken] at ih'
          simp [out, ih']
      · rw [not_or] at hed
        rw [List.count_cons_of_ne hed.1, List.count_cons_of_ne hed.2, ih']
        congr 1
        cases e with
        | handedOut c =>
            have hne : d ≠ c := fun e => hed.1 (e ▸ rfl)
            simp [out, hne]
        | handedBack c =>
            have hne : d ≠ c := fun e => hed.2 (e ▸ rfl)
            simp [out, hne]

/-- Once nothing is out, every name was handed back as often as it was handed out. -/
theorem Exact.count_eq (h : Exact record) (hd : d ∉ out record) :
    record.count (handedOut d) = record.count (handedBack d) := by
  rw [h.balance d, if_neg hd, Nat.add_zero]

end Entry

/-! ## The holders -/

section Holders

variable {ι δ : Type*} {holds : ι → Option δ} {o : Finset δ} {i : ι} {d : δ}

/-- Every name of `o` has exactly one holder. -/
def HeldOnce (holds : ι → Option δ) (o : Finset δ) : Prop := ∀ d ∈ o, ∃! i, holds i = some d

/-- **Holders and names belong together**, one to one: and nobody holds a name that is not out. -/
structure HeldExactly (holds : ι → Option δ) (o : Finset δ) : Prop where
  once : HeldOnce holds o
  backed : ∀ i d, holds i = some d → d ∈ o

theorem HeldOnce.eq {j : ι} (h : HeldOnce holds o) (hd : d ∈ o) (hi : holds i = some d)
    (hj : holds j = some d) : i = j := (h d hd).unique hi hj

/-- Without holders nothing can be out. -/
theorem HeldOnce.not_mem (h : HeldOnce holds o) (hnone : ∀ i, holds i = none) (d : δ) : d ∉ o := by
  intro hd
  obtain ⟨i, hi, -⟩ := h d hd
  rw [hnone i] at hi
  cases hi

theorem ne_of_holds {j : ι} (hi : holds i = none) (hj : holds j = some d) : j ≠ i := by
  rintro rfl
  rw [hi] at hj
  cases hj

/-- A name handed back by a holder that keeps it. -/
theorem HeldExactly.not_erase [DecidableEq δ] (hi : holds i = some d) : ¬ HeldExactly holds (o.erase d) :=
  fun hnew => Finset.notMem_erase d o (hnew.backed i d hi)

/-- A name handed out to nobody. -/
theorem HeldExactly.not_insert [DecidableEq δ] (h : HeldExactly holds o) (hd : d ∉ o) :
    ¬ HeldExactly holds (insert d o) := by
  intro hnew
  obtain ⟨j, hj, -⟩ := hnew.once d (Finset.mem_insert_self d o)
  exact hd (h.backed j d hj)

/-- **Exchanging holders** changes nothing. -/
theorem heldOnce_comp_equiv (e : ι ≃ ι) : HeldOnce (holds ∘ e) o ↔ HeldOnce holds o := by
  apply forall₂_congr
  intro d _
  exact e.existsUnique_congr_right (q := fun i => holds i = some d)

theorem heldExactly_comp_equiv (e : ι ≃ ι) (h : HeldExactly holds o) : HeldExactly (holds ∘ e) o :=
  ⟨(heldOnce_comp_equiv e).mpr h.once, fun i d hi => h.backed (e i) d hi⟩

variable [DecidableEq ι]

theorem eq_some_update_iff {j : ι} {x : Option δ} :
    Function.update holds i x j = some d ↔ (j = i ∧ x = some d) ∨ (j ≠ i ∧ holds j = some d) := by
  by_cases h : j = i
  · subst h
    simp
  · simp [h]

/-- **A new holder** of a name may only come if the name is not out. -/
theorem heldOnce_update_iff (h : HeldOnce holds o) (hi : holds i = none) :
    HeldOnce (Function.update holds i (some d)) o ↔ d ∉ o := by
  constructor
  · intro hnew hd
    obtain ⟨j, hj, -⟩ := h d hd
    apply ne_of_holds hi hj
    apply hnew.eq hd
    · exact eq_some_update_iff.mpr (Or.inr ⟨ne_of_holds hi hj, hj⟩)
    · exact eq_some_update_iff.mpr (Or.inl ⟨rfl, rfl⟩)
  · intro hd c hc
    obtain ⟨j, hj, huniq⟩ := h c hc
    have hcd : c ≠ d := fun e => hd (e ▸ hc)
    refine ⟨j, eq_some_update_iff.mpr (Or.inr ⟨ne_of_holds hi hj, hj⟩), ?_⟩
    intro k hk
    rcases eq_some_update_iff.mp hk with ⟨-, hdc⟩ | ⟨-, hk⟩
    · exact absurd (Option.some.inj hdc).symm hcd
    · exact huniq k hk

variable [DecidableEq δ]

/-- **A name newly handed out** must have had no holder. -/
theorem heldOnce_insert_iff (h : HeldOnce holds o) (hi : holds i = none) (hd : d ∉ o) :
    HeldOnce (Function.update holds i (some d)) (insert d o) ↔ ∀ j, holds j ≠ some d := by
  constructor
  · intro hnew j hj
    apply ne_of_holds hi hj
    apply hnew.eq (Finset.mem_insert_self d o)
    · exact eq_some_update_iff.mpr (Or.inr ⟨ne_of_holds hi hj, hj⟩)
    · exact eq_some_update_iff.mpr (Or.inl ⟨rfl, rfl⟩)
  · intro hfree c hc
    rcases Finset.mem_insert.mp hc with rfl | hc
    · refine ⟨i, eq_some_update_iff.mpr (Or.inl ⟨rfl, rfl⟩), ?_⟩
      intro k hk
      rcases eq_some_update_iff.mp hk with ⟨hki, -⟩ | ⟨-, hk⟩
      · exact hki
      · exact absurd hk (hfree k)
    · exact (heldOnce_update_iff h hi).mpr hd c hc

/-- **A departing holder** hands back what it holds. -/
theorem HeldOnce.erase (h : HeldOnce holds o) (hi : holds i = some d) :
    HeldOnce (Function.update holds i none) (o.erase d) := by
  intro c hc
  obtain ⟨hcd, hc⟩ := Finset.mem_erase.mp hc
  obtain ⟨j, hj, huniq⟩ := h c hc
  refine ⟨j, eq_some_update_iff.mpr (Or.inr ⟨?_, hj⟩), ?_⟩
  · rintro rfl
    exact hcd (Option.some.inj (hj.symm.trans hi))
  · intro k hk
    rcases eq_some_update_iff.mp hk with ⟨-, hnone⟩ | ⟨-, hk⟩
    · cases hnone
    · exact huniq k hk

/-! ### One to one -/

theorem HeldExactly.insert (h : HeldExactly holds o) (hi : holds i = none) (hd : d ∉ o) :
    HeldExactly (Function.update holds i (some d)) (insert d o) := by
  refine ⟨(heldOnce_insert_iff h.once hi hd).mpr fun j hj => hd (h.backed j d hj), ?_⟩
  intro j c hj
  rcases eq_some_update_iff.mp hj with ⟨-, hc⟩ | ⟨-, hj⟩
  · rw [← Option.some.inj hc]
    exact Finset.mem_insert_self d o
  · exact Finset.mem_insert_of_mem (h.backed j c hj)

theorem HeldExactly.erase (h : HeldExactly holds o) (hi : holds i = some d) :
    HeldExactly (Function.update holds i none) (o.erase d) := by
  refine ⟨h.once.erase hi, ?_⟩
  intro j c hj
  rcases eq_some_update_iff.mp hj with ⟨-, hnone⟩ | ⟨hji, hj⟩
  · cases hnone
  · refine Finset.mem_erase.mpr ⟨?_, h.backed j c hj⟩
    rintro rfl
    exact hji (h.once.eq (h.backed i c hi) hj hi)

/-! ### Many dealings of one holder -/

/-- One holder's dealings with the authority: it held `x` and holds `x'` in the end, and the record has come to
be `record'`. -/
inductive Trades : Option δ → List (Entry δ) → Option δ → List (Entry δ) → Prop
  | rest (x : Option δ) (record : List (Entry δ)) : Trades x record x record
  | takes {d : δ} {record : List (Entry δ)} (hd : d ∉ Entry.out record) :
      Trades none record (some d) (.handedOut d :: record)
  | gives (d : δ) (record : List (Entry δ)) : Trades (some d) record none (.handedBack d :: record)
  | andThen {x x' x'' : Option δ} {record record' record'' : List (Entry δ)} (h : Trades x record x' record')
      (h' : Trades x' record' x'' record'') : Trades x record x'' record''

/-- **Dealings keep the books.** -/
theorem HeldExactly.trades {x x' : Option δ} {record record' : List (Entry δ)} (ht : Trades x record x' record')
    (h : HeldExactly holds (Entry.out record)) (hexact : Entry.Exact record) (hi : holds i = x) :
    Entry.Exact record' ∧ HeldExactly (Function.update holds i x') (Entry.out record') := by
  induction ht generalizing holds with
  | rest x record =>
      rw [← hi, Function.update_eq_self]
      exact ⟨hexact, h⟩
  | takes hd => exact ⟨⟨hd, hexact⟩, h.insert hi hd⟩
  | gives d record => exact ⟨⟨h.backed i d hi, hexact⟩, h.erase hi⟩
  | andThen _ _ ih ih' =>
      obtain ⟨hexact', h'⟩ := ih h hexact hi
      have hnext := ih' h' hexact' (Function.update_self i _ holds)
      rwa [Function.update_idem] at hnext

end Holders

end Blueth.Transition
