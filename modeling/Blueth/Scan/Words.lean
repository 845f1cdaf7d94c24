/-
# Blueth.Scan.Words — the two shapes a line grammar is made of.

`spanThen P b L`: any number of `P`-symbols, the terminator `b`, then a word of `L`.
`oneThen P L`: exactly one `P`-symbol, then a word of `L`.

Both come with their DERIVATIVE (`spanThen_cons`, `oneThen_cons`), which is how a machine that reads
one symbol at a time meets them, and with `span_inj`: where the terminator is not in the class, the
span is determined by the word.
-/
import Blueth.Scan.Windows

set_option autoImplicit false

namespace Blueth.Scan

variable {σ α : Type*}

/-- Any number of `P`-symbols, the terminator `b`, then a word of `L`. -/
def spanThen (P : α → Prop) (b : α) (L : List α → Prop) (w : List α) : Prop :=
  ∃ x v, w = x ++ b :: v ∧ (∀ c ∈ x, P c) ∧ L v

/-- One `P`-symbol, then a word of `L`. -/
def oneThen (P : α → Prop) (L : List α → Prop) (w : List α) : Prop :=
  ∃ c v, w = c :: v ∧ P c ∧ L v

section Derivatives

variable {P : α → Prop} {b c : α} {L : List α → Prop} {w : List α}

@[simp] theorem not_spanThen_nil : ¬ spanThen P b L [] := by
  rintro ⟨x, v, h, -⟩
  simp at h

theorem spanThen_cons :
    spanThen P b L (c :: w) ↔ (P c ∧ spanThen P b L w) ∨ (c = b ∧ L w) := by
  constructor
  · rintro ⟨x, v, h, hx, hv⟩
    cases x with
    | nil =>
        simp only [List.nil_append, List.cons.injEq] at h
        exact Or.inr ⟨h.1, h.2 ▸ hv⟩
    | cons d x =>
        simp only [List.cons_append, List.cons.injEq] at h
        obtain ⟨rfl, rfl⟩ := h
        exact Or.inl ⟨hx c (by simp), x, v, rfl, fun e he => hx e (by simp [he]), hv⟩
  · rintro (⟨hc, x, v, rfl, hx, hv⟩ | ⟨rfl, hv⟩)
    · refine ⟨c :: x, v, rfl, ?_, hv⟩
      intro e he
      rcases List.mem_cons.mp he with rfl | he
      · exact hc
      · exact hx e he
    · exact ⟨[], w, rfl, by simp, hv⟩

@[simp] theorem not_oneThen_nil : ¬ oneThen P L [] := by
  rintro ⟨d, v, h, -⟩
  simp at h

@[simp] theorem oneThen_cons : oneThen P L (c :: w) ↔ P c ∧ L w := by
  constructor
  · rintro ⟨d, v, h, hd, hv⟩
    simp only [List.cons.injEq] at h
    obtain ⟨rfl, rfl⟩ := h
    exact ⟨hd, hv⟩
  · rintro ⟨hc, hw⟩
    exact ⟨c, w, rfl, hc, hw⟩

end Derivatives

/-- **A span is determined by its word**: a class that contains neither terminator cuts both sides of
an equation at the same place. -/
theorem span_inj {P : α → Prop} {x y u v : List α} {a b : α} (hx : ∀ c ∈ x, P c)
    (hy : ∀ c ∈ y, P c) (ha : ¬ P a) (hb : ¬ P b) (h : x ++ a :: u = y ++ b :: v) :
    x = y ∧ a = b ∧ u = v := by
  induction x generalizing y with
  | nil =>
      cases y with
      | nil => simpa using h
      | cons d y =>
          simp only [List.nil_append, List.cons_append, List.cons.injEq] at h
          exact absurd (hy d (by simp)) (h.1 ▸ ha)
  | cons c x ih =>
      cases y with
      | nil =>
          simp only [List.nil_append, List.cons_append, List.cons.injEq] at h
          exact absurd (hx c (by simp)) (h.1 ▸ hb)
      | cons d y =>
          simp only [List.cons_append, List.cons.injEq] at h
          obtain ⟨hxy, hab, huv⟩ :=
            ih (fun e he => hx e (by simp [he])) (fun e he => hy e (by simp [he])) h.2
          exact ⟨by rw [h.1, hxy], hab, huv⟩

/-- Folding over the second component of a state. -/
theorem foldl_snd {μ : Type*} (g : μ → α → μ) (x : List α) (s : σ) (m : μ) :
    x.foldl (fun t c => (t.1, g t.2 c)) (s, m) = (s, x.foldl g m) := by
  induction x generalizing m with
  | nil => rfl
  | cons c x ih => exact ih (g m c)

/-- Pushing symbols one after another is appending the word, for any field with an append. -/
theorem foldl_push {μ : Type*} {push : μ → α → μ} (append : μ → List α → μ)
    (hnil : ∀ m, append m [] = m) (hcons : ∀ m c x, append (push m c) x = append m (c :: x))
    (x : List α) (m : μ) : x.foldl push m = append m x := by
  induction x generalizing m with
  | nil => exact (hnil m).symm
  | cons c x ih => rw [List.foldl_cons, ih, hcons]

/-- A span read by a machine: the class is folded into the state, the terminator leaves it. -/
theorem feed_span {sc : Scanner σ α} {P : α → Prop} {I : σ → Prop} {g : σ → α → σ} {k : σ → σ} {b : α}
    (hadv : ∀ s p c, I s → P c → sc s p c = .advance (g s c)) (hinv : ∀ s c, I s → I (g s c))
    (hend : ∀ s p, I s → sc s p b = .advance (k s)) {x : List α} (hx : ∀ c ∈ x, P c) {s : σ}
    (hI : I s) (p : Option α) (v : List α) :
    feed sc s p (x ++ b :: v) = feed sc (k (x.foldl g s)) (some b) v := by
  have hI' : I (x.foldl g s) := by
    clear hx
    induction x generalizing s with
    | nil => exact hI
    | cons c x ih => exact ih (hinv s c hI)
  rw [feed_append_of_eq (feed_all hadv hinv hx hI p), feed_cons_of_advance (hend _ _ hI')]

end Blueth.Scan
