/-
# Blueth.Scan.Cuts — cutting pieces off the front until nothing can be cut.

`Cuts cut k fs r`: from `k`, the partial function `cut` takes the pieces `fs` off one after the other and
is stuck at `r`. A run is determined by its start (`Cuts.unique`) and exists where a measure goes down
(`exists_cuts`). The rule for input that arrives in parts is `Cuts.resume`: if more input changes neither
the piece cut off nor, but for the input added to it, what is left, then cutting what there is, and later
cutting on from what was left, is cutting everything at once.

`cutAt a b` is the cut that line formats use: up to the FIRST `a`, provided a `b` follows it.
-/
import Mathlib.Data.List.TakeWhile
import Mathlib.Tactic.Common

set_option autoImplicit false

namespace Blueth.Scan

variable {κ φ α : Type*}

/-! ## Runs of a cut -/

/-- The pieces `cut` takes off, one after the other, and where it is stuck. -/
inductive Cuts (cut : κ → Option (φ × κ)) : κ → List φ → κ → Prop
  | stop {k : κ} (h : cut k = none) : Cuts cut k [] k
  | piece {k k' r : κ} {f : φ} {fs : List φ} (h : cut k = some (f, k')) (hs : Cuts cut k' fs r) :
      Cuts cut k (f :: fs) r

section Runs

variable {cut : κ → Option (φ × κ)} {k r r' : κ} {fs gs : List φ}

theorem Cuts.stuck (h : Cuts cut k fs r) : cut r = none := by
  induction h with
  | stop h => exact h
  | piece _ _ ih => exact ih

/-- The start determines the run. -/
theorem Cuts.unique (h : Cuts cut k fs r) (h' : Cuts cut k gs r') : fs = gs ∧ r = r' := by
  induction h generalizing gs with
  | stop h =>
      cases h' with
      | stop _ => exact ⟨rfl, rfl⟩
      | piece hp _ => simp [h] at hp
  | piece hp _ ih =>
      cases h' with
      | stop h => simp [h] at hp
      | piece hp' hs' =>
          rw [hp, Option.some.injEq, Prod.mk.injEq] at hp'
          obtain ⟨rfl, rfl⟩ := hp'
          obtain ⟨rfl, rfl⟩ := ih hs'
          exact ⟨rfl, rfl⟩

/-- Where each cut makes less of it, the cutting comes to an end. -/
theorem exists_cuts (size : κ → ℕ) (hsize : ∀ k f k', cut k = some (f, k') → size k' < size k) (k : κ) :
    ∃ fs r, Cuts cut k fs r := by
  induction hn : size k using Nat.strongRecOn generalizing k with
  | ind n ih =>
    cases hk : cut k with
    | none => exact ⟨[], k, .stop hk⟩
    | some p =>
        obtain ⟨f, k'⟩ := p
        have hlt := hsize k f k' hk
        obtain ⟨fs, r, h⟩ := ih (size k') (by omega) k' rfl
        exact ⟨f :: fs, r, .piece hk h⟩

/-- **Cutting in two sittings is cutting in one**, where more input (`more`) does not take back a cut. -/
theorem Cuts.resume {more : κ → κ}
    (hmore : ∀ k f k', cut k = some (f, k') → cut (more k) = some (f, more k'))
    (h : Cuts cut k fs r) (h' : Cuts cut (more r) gs r') : Cuts cut (more k) (fs ++ gs) r' := by
  induction h with
  | stop _ => exact h'
  | piece hp _ ih => exact .piece (hmore _ _ _ hp) (ih h')

end Runs

/-! ## The cut of a line format -/

section CutAt

variable [DecidableEq α] {a b : α} {f w v : List α}

/-- The word up to the first `a` and the word behind it, provided the `a` is followed by a `b`. -/
def cutAt (a b : α) (w : List α) : Option (List α × List α) :=
  match w.dropWhile (· != a) with
  | _ :: d :: v => if d = b then some (w.takeWhile (· != a), v) else none
  | _ => none

/-- A word either has no `a` or is cut at its first one. -/
theorem notMem_or_append (a : α) (w : List α) : a ∉ w ∨ ∃ f v, w = f ++ a :: v ∧ a ∉ f := by
  by_cases h : a ∈ w
  · exact .inr (List.eq_append_cons_of_mem h)
  · exact .inl h

theorem takeWhile_ne_append (h : a ∉ f) (v : List α) :
    (f ++ a :: v).takeWhile (· != a) = f ∧ (f ++ a :: v).dropWhile (· != a) = a :: v := by
  have hne : ∀ c ∈ f, (c != a) = true := by
    intro c hc
    simpa using fun hca : c = a => h (hca ▸ hc)
  constructor
  · rw [List.takeWhile_append_of_pos hne]
    simp
  · rw [List.dropWhile_append_of_pos hne]
    simp

theorem takeWhile_ne_of_notMem (h : a ∉ w) :
    w.takeWhile (· != a) = w ∧ w.dropWhile (· != a) = [] := by
  have hne : ∀ c ∈ w, (c != a) = true := by
    intro c hc
    simpa using fun hca : c = a => h (hca ▸ hc)
  exact ⟨List.takeWhile_eq_self_iff.mpr hne, List.dropWhile_eq_nil_iff.mpr hne⟩

theorem cutAt_append (h : a ∉ f) (v : List α) : cutAt a b (f ++ a :: b :: v) = some (f, v) := by
  obtain ⟨ht, hd⟩ := takeWhile_ne_append h (b :: v)
  simp only [cutAt, ht, hd, if_true]

/-- No cut: there is no `a`, or the first one is not followed by a `b`. -/
theorem cutAt_eq_none_iff :
    cutAt a b w = none ↔ a ∉ w ∨ ∃ f v, w = f ++ a :: v ∧ a ∉ f ∧ v.head? ≠ some b := by
  rcases notMem_or_append a w with h | ⟨f, v, rfl, h⟩
  · obtain ⟨-, hd⟩ := takeWhile_ne_of_notMem h
    simp only [cutAt, hd, h, not_false_eq_true, true_or]
  · have hsplit : (∃ g u, f ++ a :: v = g ++ a :: u ∧ a ∉ g ∧ u.head? ≠ some b) ↔ v.head? ≠ some b := by
      constructor
      · rintro ⟨g, u, heq, hg, hu⟩
        obtain ⟨hf, hd⟩ := takeWhile_ne_append h v
        obtain ⟨hf', hd'⟩ := takeWhile_ne_append hg u
        rw [heq, hd', List.cons.injEq] at hd
        rwa [← hd.2]
      · intro hv
        exact ⟨f, v, rfl, h, hv⟩
    obtain ⟨-, hd⟩ := takeWhile_ne_append h v
    rw [hsplit]
    cases v with
    | nil => simp [cutAt, hd]
    | cons d v =>
        by_cases hdb : d = b
        · subst hdb
          rw [cutAt_append h]
          simp
        · simp [cutAt, hd, hdb]

theorem cutAt_eq_some_iff : cutAt a b w = some (f, v) ↔ w = f ++ a :: b :: v ∧ a ∉ f := by
  constructor
  · intro h
    rcases notMem_or_append a w with hw | ⟨g, u, rfl, hg⟩
    · rw [cutAt_eq_none_iff.mpr (.inl hw)] at h
      cases h
    · by_cases hu : u.head? = some b
      · obtain ⟨u', rfl⟩ := List.head?_eq_some_iff.mp hu
        rw [cutAt_append hg, Option.some.injEq, Prod.mk.injEq] at h
        obtain ⟨rfl, rfl⟩ := h
        exact ⟨rfl, hg⟩
      · rw [cutAt_eq_none_iff.mpr (.inr ⟨g, u, rfl, hg, hu⟩)] at h
        cases h
  · rintro ⟨rfl, hf⟩
    exact cutAt_append hf v

/-- **The lines of a word**: the word is the lines, each with its terminator, and what is left; no line
contains an `a`, and nothing can be cut off what is left. -/
theorem cuts_cutAt_iff {fs : List (List α)} {r : List α} :
    Cuts (cutAt a b) w fs r
      ↔ w = fs.flatMap (· ++ [a, b]) ++ r ∧ (∀ f ∈ fs, a ∉ f) ∧ cutAt a b r = none := by
  constructor
  · intro h
    induction h with
    | stop h => exact ⟨rfl, by simp, h⟩
    | piece hp _ ih =>
        obtain ⟨rfl, hf⟩ := cutAt_eq_some_iff.mp hp
        obtain ⟨rfl, hfs, hr⟩ := ih
        refine ⟨by simp, ?_, hr⟩
        intro g hg
        rcases List.mem_cons.mp hg with rfl | hg
        · exact hf
        · exact hfs g hg
  · rintro ⟨rfl, hfs, hr⟩
    induction fs with
    | nil => exact .stop hr
    | cons f fs ih =>
        have hcut : cutAt a b ((f :: fs).flatMap (· ++ [a, b]) ++ r)
            = some (f, fs.flatMap (· ++ [a, b]) ++ r) := by
          rw [cutAt_eq_some_iff]
          exact ⟨by simp, hfs f (by simp)⟩
        exact .piece hcut (ih fun g hg => hfs g (by simp [hg]))

/-- Every word has its lines. -/
theorem exists_cuts_cutAt (a b : α) (w : List α) : ∃ fs r, Cuts (cutAt a b) w fs r := by
  apply exists_cuts List.length
  intro w f v h
  obtain ⟨rfl, -⟩ := cutAt_eq_some_iff.mp h
  simp only [List.length_append, List.length_cons]
  omega

/-- A line that has been cut off stays cut off when the word goes on. -/
theorem cutAt_more (u : List α) (h : cutAt a b w = some (f, v)) :
    cutAt a b (w ++ u) = some (f, v ++ u) := by
  obtain ⟨rfl, hf⟩ := cutAt_eq_some_iff.mp h
  rw [cutAt_eq_some_iff]
  exact ⟨by simp, hf⟩

end CutAt

end Blueth.Scan
