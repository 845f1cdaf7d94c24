/-
# Blueth.Scan.Memory — memories that can be read in places only.

A `Memory` says for each address what a read there gives; `none` means that a read is not allowed. Code
that only reads is then a function into `Option`: `none` is the run in which some read went where it may
not. Two facts make this enough for statements about WHICH bytes a computation depends on:

* a computation that succeeds on a memory succeeds, with the same value, on every memory that extends it
  (`Extends`, and `Reader`, the computations with this property);
* so success on the memory that holds a word and NOTHING else (`only`) is success, with one value, on all
  memories that hold the word, whatever surrounds it.
-/
import Mathlib.Data.List.Basic
import Mathlib.Tactic.Common

set_option autoImplicit false

namespace Blueth.Scan

variable {α β : Type*}

/-- What a read at each address gives, if it is allowed. -/
abbrev Memory (α : Type*) := ℕ → Option α

namespace Memory

/-! ## Which memory holds what -/

/-- Every address from `start` up to `stop` can be read. -/
def Readable (m : Memory α) (start stop : ℕ) : Prop := ∀ p, start ≤ p → p < stop → ∃ c, m p = some c

/-- The word `w` stands at address `b`. -/
def Holds (m : Memory α) (b : ℕ) (w : List α) : Prop := ∀ i (hi : i < w.length), m (b + i) = some w[i]

/-- The word `w` at address `b`, and nothing else that could be read. -/
def only (b : ℕ) (w : List α) : Memory α := fun p => if b ≤ p then w[p - b]? else none

/-- The same memory with every read outside `start` to `stop` forbidden. -/
def within (m : Memory α) (start stop : ℕ) : Memory α := fun p =>
  if start ≤ p ∧ p < stop then m p else none

/-- Whatever can be read in `m` reads the same in `m'`. -/
def Extends (m' m : Memory α) : Prop := ∀ p c, m p = some c → m' p = some c

section Holds

variable {m m' : Memory α} {b start stop p : ℕ} {c : α} {v w : List α}

theorem holds_nil (m : Memory α) (b : ℕ) : m.Holds b [] := by
  intro i hi
  simp at hi

theorem holds_only (b : ℕ) (w : List α) : (only b w).Holds b w := by
  intro i hi
  simp [only, hi]

theorem Holds.getElem? (h : m.Holds b w) {i : ℕ} (hi : i < w.length) : m (b + i) = w[i]? := by
  rw [h i hi, List.getElem?_eq_getElem hi]

/-- A word stands where its two halves stand. -/
theorem holds_append : m.Holds b (v ++ w) ↔ m.Holds b v ∧ m.Holds (b + v.length) w := by
  constructor
  · intro h
    refine ⟨?_, ?_⟩
    · intro i hi
      have hlt : i < (v ++ w).length := by
        rw [List.length_append]
        omega
      rw [h i hlt, List.getElem_append_left hi]
    · intro i hi
      have hlt : v.length + i < (v ++ w).length := by
        rw [List.length_append]
        omega
      rw [Nat.add_assoc, h _ hlt, List.getElem_append_right (by omega)]
      simp
  · rintro ⟨hv, hw⟩ i hi
    by_cases hlt : i < v.length
    · rw [hv i hlt, List.getElem_append_left hlt]
    · rw [List.length_append] at hi
      have hrest := hw (i - v.length) (by omega)
      rw [show b + v.length + (i - v.length) = b + i by omega] at hrest
      rw [hrest, List.getElem_append_right (by omega)]

theorem holds_cons : m.Holds b (c :: w) ↔ m b = some c ∧ m.Holds (b + 1) w := by
  rw [← List.singleton_append, holds_append]
  simp [Holds]

/-- A memory that holds the word extends the one that holds it and nothing else. -/
theorem Holds.extends_only (h : m.Holds b w) : m.Extends (only b w) := by
  intro p c hp
  unfold only at hp
  split_ifs at hp with hb
  obtain ⟨hi, rfl⟩ := List.getElem?_eq_some_iff.mp hp
  have hread := h (p - b) hi
  rwa [Nat.add_sub_cancel' hb] at hread

theorem only_before (h : p < b) : only b w p = none := if_neg (by omega)

theorem only_end (b : ℕ) (w : List α) : only b w (b + w.length) = none := by
  simp [only]

theorem Holds.readable (h : m.Holds b w) : m.Readable b (b + w.length) := by
  intro p hb hp
  have hread := h (p - b) (by omega)
  rw [Nat.add_sub_cancel' hb] at hread
  exact ⟨_, hread⟩

/-- Forbidding the reads outside a range does no harm inside it. -/
theorem within_of_mem (hs : start ≤ p) (hp : p < stop) : m.within start stop p = m p :=
  if_pos ⟨hs, hp⟩

theorem Readable.within (h : m.Readable start stop) : (m.within start stop).Readable start stop := by
  intro p hs hp
  rw [within_of_mem hs hp]
  exact h p hs hp

end Holds

/-! ## Blocks -/

/-- `n` bytes read at once; the read is allowed when each of them may be read. -/
def load (m : Memory α) (p n : ℕ) : Option (Vector α n) :=
  if h : ∀ i : Fin n, (m (p + i)).isSome then some (Vector.ofFn fun i => (m (p + i)).get (h i)) else none

theorem load_eq_some {m : Memory α} {p n : ℕ} {v : Vector α n} :
    m.load p n = some v ↔ ∀ i (hi : i < n), m (p + i) = some v[i] := by
  unfold load
  constructor
  · intro h i hi
    split_ifs at h with hr
    rw [Option.some.injEq] at h
    subst h
    simp
  · intro h
    have hr : ∀ i : Fin n, (m (p + i)).isSome := by
      intro i
      rw [h i i.isLt]
      rfl
    rw [dif_pos hr, Option.some.injEq]
    apply Vector.ext
    intro i hi
    simp [h i hi]

/-- A block inside a readable range can be loaded. -/
theorem Readable.load {m : Memory α} {start stop p n : ℕ} (h : m.Readable start stop) (hs : start ≤ p)
    (hn : p + n ≤ stop) : ∃ v, m.load p n = some v := by
  have hr : ∀ i : Fin n, (m (p + i)).isSome := by
    intro i
    have hi := i.isLt
    obtain ⟨c, hc⟩ := h (p + i) (by omega) (by omega)
    rw [hc]
    rfl
  exact ⟨_, dif_pos hr⟩

/-! ## Computations that read -/

/-- A computation that depends on nothing but what it has been allowed to read. -/
def Reader (f : Memory α → Option β) : Prop :=
  ∀ ⦃m m' : Memory α⦄, m'.Extends m → ∀ b, f m = some b → f m' = some b

section Reader

variable {γ : Type*}

theorem reader_some (b : β) : Reader fun _ : Memory α => some b := fun _ _ _ _ h => h

theorem reader_read (p : ℕ) : Reader fun m : Memory α => m p := fun _ _ h c hc => h p c hc

theorem reader_load (p n : ℕ) : Reader fun m : Memory α => m.load p n := by
  intro m m' h v hv
  rw [load_eq_some] at hv ⊢
  intro i hi
  exact h _ _ (hv i hi)

/-- One after the other. -/
theorem Reader.bind {f : Memory α → Option β} {g : Memory α → β → Option γ} (hf : Reader f)
    (hg : ∀ b, Reader fun m => g m b) : Reader fun m => (f m).bind (g m) := by
  intro m m' h c hc
  obtain ⟨b, hb, hc⟩ := Option.bind_eq_some_iff.mp hc
  show (f m').bind (g m') = some c
  rw [hf h b hb, Option.bind_some]
  exact hg b h c hc

theorem Reader.ite {p : Prop} [Decidable p] {f g : Memory α → Option β} (hf : Reader f)
    (hg : Reader g) : Reader fun m => if p then f m else g m := by
  by_cases hp : p
  · simpa only [if_pos hp] using hf
  · simpa only [if_neg hp] using hg

end Reader

end Memory

end Blueth.Scan
