/-
# Blueth.Codec.NewLineFrames — what the `NewLineNewLine` loop of `LineBasedFrameDecoder` splits at.

The loop is meant to cut a text at `"\n\n"`. Its look-ahead `*lf != '\n' && *(lf + 1) != '\n'` is false for
the byte the search has just found, so ANY newline ends a frame; the advance then skips the byte behind it,
whatever it is. Only a `'\r'` before the newline stops the loop. `newLineCut` is that cut, and
`decodes_of_newLineCuts` the result of a call in closed form. From there:

* `newLineExact_iff`: the frames are what stands between double newlines only where no frame is emitted;
* `newLineTerminated_iff`: with the lengths put right, the same would hold exactly where each byte skipped
  happens to be a newline.
-/
import Blueth.Codec.LineFrames

set_option autoImplicit false

namespace Blueth.Codec

open Blueth.Scan

/-! ## The cut the loop makes -/

/-- Up to the first `'\n'`, dropping the byte behind it, unless a `'\r'` stands before it. A position is
the byte before it and the bytes from there on; a piece is a line and the byte that was dropped. -/
def newLineCut :
    Option UInt8 × List UInt8 → Option ((List UInt8 × Option UInt8) × (Option UInt8 × List UInt8))
  | (p, w) =>
    match w.dropWhile (· != LF) with
    | [] => none
    | _ :: v =>
      if behind p (w.takeWhile (· != LF)) = some CR then none
      else some ((w.takeWhile (· != LF), v.head?), (v.head?, v.tail))

section Cut

variable {p q : Option UInt8} {x v w : List UInt8}

theorem newLineCut_of_notMem (p : Option UInt8) (h : LF ∉ w) : newLineCut (p, w) = none := by
  obtain ⟨-, hd⟩ := takeWhile_ne_of_notMem h
  simp only [newLineCut, hd]

theorem newLineCut_append (p : Option UInt8) (h : LF ∉ x) (v : List UInt8) :
    newLineCut (p, x ++ LF :: v)
      = if behind p x = some CR then none else some ((x, v.head?), (v.head?, v.tail)) := by
  obtain ⟨ht, hd⟩ := takeWhile_ne_append h v
  simp only [newLineCut, ht, hd]

/-- What has been cut off: a line without a newline in it, its newline, and the byte behind that. -/
theorem newLineCut_eq_some_iff {k : Option UInt8 × List UInt8} :
    newLineCut (p, w) = some ((x, q), k)
      ↔ ∃ v, w = x ++ LF :: v ∧ LF ∉ x ∧ behind p x ≠ some CR ∧ q = v.head? ∧ k = (v.head?, v.tail) := by
  rcases notMem_or_append LF w with hno | ⟨y, u, rfl, hy⟩
  · rw [newLineCut_of_notMem p hno]
    constructor
    · intro h
      cases h
    · rintro ⟨v, rfl, -⟩
      exact absurd (by simp) hno
  · rw [newLineCut_append p hy]
    constructor
    · intro h
      split_ifs at h with hcr
      simp only [Option.some.injEq, Prod.mk.injEq] at h
      obtain ⟨⟨rfl, rfl⟩, rfl⟩ := h
      exact ⟨u, rfl, hy, hcr, rfl, rfl⟩
    · rintro ⟨v, heq, hx, hcr, rfl, rfl⟩
      obtain ⟨hty, hdy⟩ := takeWhile_ne_append hy u
      obtain ⟨htx, hdx⟩ := takeWhile_ne_append hx v
      rw [heq, htx] at hty
      rw [heq, hdx, List.cons.injEq] at hdy
      obtain ⟨rfl, rfl⟩ : x = y ∧ v = u := ⟨hty, hdy.2⟩
      rw [if_neg hcr]

/-- Every text is cut to the end. -/
theorem exists_newLineCuts (k : Option UInt8 × List UInt8) : ∃ cs r, Cuts newLineCut k cs r := by
  apply exists_cuts fun k : Option UInt8 × List UInt8 => k.2.length
  rintro ⟨p, w⟩ ⟨x, q⟩ k' h
  obtain ⟨v, rfl, -, -, -, rfl⟩ := newLineCut_eq_some_iff.mp h
  simp only [List.length_append, List.length_cons, List.length_tail]
  omega

end Cut

/-! ## The loop -/

section Loop

variable {m : Memory UInt8} {b e : ℕ} {p : Option UInt8} {s x : List UInt8}
  {cs : List (List UInt8 × Option UInt8)} {k r : Option UInt8 × List UInt8}

/-- The byte before `begin` may be read, and is `p`, where the loop is about to read it. -/
def BeforeKnown (m : Memory UInt8) (b : ℕ) (p : Option UInt8) (s : List UInt8) : Prop :=
  s.head? = some LF → ∃ c, p = some c ∧ m (b - 1) = some c

/-- So the byte before the newline that ends a line is known. -/
theorem BeforeKnown.read {v : List UInt8} (h : BeforeKnown m b p (x ++ LF :: v)) (hx : m.Holds b x) :
    ∃ c, m (b + x.length - 1) = some c ∧ behind p x = some c := by
  rcases List.eq_nil_or_concat x with rfl | ⟨y, c, rfl⟩
  · obtain ⟨c, hc, hread⟩ := h rfl
    exact ⟨c, by simpa using hread, by simpa using hc⟩
  · rw [List.concat_eq_append] at hx ⊢
    have hlast : behind p (y ++ [c]) = some c := by simp [behind]
    have hsame : behind (m (b - 1)) (y ++ [c]) = some c := by simp [behind]
    exact ⟨c, by rw [read_before rfl hx, hsame], hlast⟩

/-- The loop is about to search from `b`, `k` being the byte before and the bytes from there up to `end`.
Behind a newline that was the last byte of the text it is one byte PAST `end`. -/
structure Position (m : Memory UInt8) (e b : ℕ) (k : Option UInt8 × List UInt8) : Prop where
  holds : m.Holds b k.2
  before : BeforeKnown m b k.1 k.2
  stop : e = b + k.2.length ∨ (k.2 = [] ∧ e ≤ b)

/-- Nothing can be cut: the loop returns. -/
theorem Position.finish (h : Position m e b (p, s)) (hnone : newLineCut (p, s) = none) :
    lfRound m b e = some .finish := by
  rcases h.stop with rfl | ⟨-, hle⟩
  · rcases notMem_or_append LF s with hno | ⟨x, v, rfl, hx⟩
    · exact lfRound_of_notMem h.holds hno
    · obtain ⟨c, hread, hc⟩ := h.before.read (Memory.holds_append.mp h.holds).1
      have hcr : c = CR := by
        by_contra hne
        rw [newLineCut_append p hx, hc, if_neg (by simpa using hne)] at hnone
        cases hnone
      show lfRound m b (b + (x ++ LF :: v).length) = some .finish
      rw [lfRound_of_append h.holds hx, hread, Option.bind_some, if_pos hcr]
  · exact lfRound_of_le hle

/-- A line is cut off: the loop emits a frame and goes on behind the byte it drops. -/
theorem Position.frame {c : List UInt8 × Option UInt8} {k' : Option UInt8 × List UInt8}
    (h : Position m e b k) (hsize : k.2.length < 2 ^ 63) (hcut : newLineCut k = some (c, k')) :
    lfRound m b e = some (.frame ⟨b, UInt64.ofNat c.1.length - 1⟩ (b + c.1.length + 2)) ∧
      Position m e (b + c.1.length + 2) k' ∧ k'.2.length < 2 ^ 63 := by
  obtain ⟨p, s⟩ := k
  obtain ⟨x, q⟩ := c
  obtain ⟨v, rfl, hx, hcr, -, rfl⟩ := newLineCut_eq_some_iff.mp hcut
  obtain ⟨hholds, hbefore, hstop⟩ := h
  obtain rfl : e = b + (x ++ LF :: v).length := by
    rcases hstop with rfl | ⟨hnil, -⟩
    · rfl
    · simp at hnil
  simp only [List.length_append, List.length_cons] at hsize
  obtain ⟨hline, hrest⟩ := Memory.holds_append.mp hholds
  have hbehind := (Memory.holds_cons.mp hrest).2
  refine ⟨?_, ⟨?_, ?_, ?_⟩, ?_⟩
  · obtain ⟨c, hread, hc⟩ := hbefore.read hline
    have hne : c ≠ CR := by
      rintro rfl
      exact hcr hc
    rw [lfRound_of_append hholds hx, hread, Option.bind_some, if_neg hne, frameUpTo_eq b (by omega)]
  · cases v with
    | nil => exact Memory.holds_nil _ _
    | cons d v => exact (Memory.holds_cons.mp hbehind).2
  · intro hlf
    cases v with
    | nil => cases hlf
    | cons d v => exact ⟨d, rfl, (Memory.holds_cons.mp hbehind).1⟩
  · cases v with
    | nil =>
        refine .inr ⟨rfl, ?_⟩
        simp only [List.length_append, List.length_cons, List.length_nil]
        omega
    | cons d v =>
        refine .inl ?_
        simp only [List.length_append, List.length_cons, List.tail_cons]
        omega
  · show v.tail.length < 2 ^ 63
    rw [List.length_tail]
    omega

/-- **The `NewLineNewLine` loop in closed form.** -/
theorem newLine_run (hcuts : Cuts newLineCut k cs r) (hsize : k.2.length < 2 ^ 63)
    (h : Position m e b k) (acc : List StringView) :
    ∃ fuel, lineBasedFrameDecoder m .newLineNewLine e fuel b acc
      = .returned (acc ++ codeViews b (cs.map Prod.fst)) := by
  induction hcuts generalizing b acc with
  | stop hstop =>
      refine ⟨1, ?_⟩
      simp only [lineBasedFrameDecoder, round, h.finish hstop, List.map_nil, codeViews, List.append_nil]
  | @piece k k' r c cs hcut _ ih =>
      obtain ⟨hround, hnext, hsize'⟩ := h.frame hsize hcut
      obtain ⟨fuel, hfuel⟩ := ih hsize' hnext (acc ++ [⟨b, UInt64.ofNat c.1.length - 1⟩])
      refine ⟨fuel + 1, ?_⟩
      simp only [lineBasedFrameDecoder, round, hround, hfuel, List.map_cons, codeViews,
        List.append_assoc, List.singleton_append]

theorem decodes_of_newLineCuts (hcuts : Cuts newLineCut (p, s) cs r) (hsize : s.length < 2 ^ 63)
    (h : m.Holds b s) (hbefore : BeforeKnown m b p s) :
    Decodes m .newLineNewLine b (b + s.length) (codeViews b (cs.map Prod.fst)) := by
  obtain ⟨fuel, hfuel⟩ := newLine_run hcuts hsize ⟨h, hbefore, .inl rfl⟩ []
  exact ⟨fuel, hfuel⟩

/-- A text that begins with a newline makes the loop read the byte before it. -/
theorem not_decodes_of_before (hb : m (b - 1) = none) (h : m.Holds b (LF :: s))
    (fs : List StringView) : ¬ Decodes m .newLineNewLine b (b + (LF :: s).length) fs := by
  have hround : lfRound m b (b + (LF :: s).length) = none := by
    have hstep := lfRound_of_append (x := []) h (by simp)
    rw [List.length_nil, Nat.add_zero, hb] at hstep
    exact hstep
  apply not_decodes_of_fault (n := 1)
  simp only [lineBasedFrameDecoder, round, hround]

end Loop

/-! ## Does it split at double newlines? -/

/-- The frames are what stands between double newlines: each is followed by `'\n' '\n'` in the text, the
next one starts right behind these, and nothing else is skipped. -/
def NewLineExact (b : ℕ) (s : List UInt8) (frames : List StringView) : Prop :=
  ∃ fs rest, s = fs.flatMap (· ++ [LF, LF]) ++ rest ∧ frames = viewsOf b fs

/-- The loop emits no frame: the text has no newline, or a `'\r'` stands before its first one, be it the
byte before the text. -/
def NoNewLineFrame (m : Memory UInt8) (b : ℕ) (s : List UInt8) : Prop :=
  LF ∉ s ∨ ∃ x w, s = x ++ LF :: w ∧ LF ∉ x ∧ m (b + x.length - 1) = some CR

/-- A line viewed one byte short is not followed by a newline: it ends before its text does. -/
theorem not_newLineExact {b : ℕ} {x w : List UInt8} (hx : LF ∉ x) (hsize : (x ++ LF :: w).length < 2 ^ 63)
    (views : List StringView) :
    ¬ NewLineExact b (x ++ LF :: w) (⟨b, UInt64.ofNat x.length - 1⟩ :: views) := by
  rintro ⟨fs, rest, hs, hviews⟩
  cases fs with
  | nil => cases hviews
  | cons f fs =>
      simp only [viewsOf, List.cons.injEq, StringView.mk.injEq, true_and] at hviews
      have hlen := congrArg UInt64.toNat hviews.1
      -- the first newline of the text is not behind the one that ends the first frame
      have hle : x.length ≤ f.length := by
        by_contra hlt
        have hmem : LF ∈ x := by
          have hat := congrArg (·[f.length]?) hs
          rw [List.getElem?_append_left (by omega)] at hat
          simp at hat
          exact List.mem_of_getElem? hat
        exact hx hmem
      have hfit : f.length < 2 ^ 63 := by
        rw [hs] at hsize
        simp only [List.flatMap_cons, List.length_append] at hsize
        omega
      simp only [UInt64.toNat_sub, UInt64.toNat_ofNat', UInt64.reduceToNat] at hlen
      omega

/-- **When the loop splits at double newlines only.** It does exactly where it emits no frame at all. -/
theorem newLineExact_iff (s : Text) {m : Memory UInt8} {b : ℕ} (h : m.Holds b s.bytes) :
    (∃ frames, Decodes m .newLineNewLine b (b + s.bytes.length) frames ∧
        NewLineExact b s.bytes frames) ↔ NoNewLineFrame m b s.bytes := by
  obtain ⟨s, hsize⟩ := s
  constructor
  · rintro ⟨frames, hframes, hexact⟩
    rcases notMem_or_append LF s with hno | ⟨x, w, rfl, hx⟩
    · exact .inl hno
    · refine .inr ⟨x, w, rfl, hx, ?_⟩
      have hbefore : BeforeKnown m b (m (b - 1)) (x ++ LF :: w) := by
        intro hlf
        cases hb : m (b - 1) with
        | some c => exact ⟨c, rfl, rfl⟩
        | none =>
            obtain ⟨w', hw'⟩ := List.head?_eq_some_iff.mp hlf
            simp only [hw'] at h hframes
            exact absurd hframes (not_decodes_of_before hb h frames)
      have hline := (Memory.holds_append.mp h).1
      by_contra hcr
      obtain ⟨cs, r, hcuts⟩ := exists_newLineCuts (m (b - 1), x ++ LF :: w)
      obtain rfl := hframes.unique (decodes_of_newLineCuts hcuts hsize h hbefore)
      rw [read_before rfl hline] at hcr
      cases hcuts with
      | stop hstop =>
          rw [newLineCut_append _ hx, if_neg hcr] at hstop
          cases hstop
      | piece hp _ =>
          rw [newLineCut_append _ hx, if_neg hcr, Option.some.injEq, Prod.mk.injEq] at hp
          obtain ⟨rfl, -⟩ := hp
          exact not_newLineExact hx hsize _ hexact
  · intro hno
    refine ⟨[], ⟨1, ?_⟩, [], s, rfl, rfl⟩
    have hround : lfRound m b (b + s.length) = some .finish := by
      rcases hno with hno | ⟨x, w, rfl, hx, hcr⟩
      · exact lfRound_of_notMem h hno
      · rw [lfRound_of_append h hx, hcr, Option.bind_some, if_pos rfl]
    simp only [lineBasedFrameDecoder, round, hround]

/-- A text that ends in CR LF: the loop stops at the `'\r'`. -/
theorem newLineExact_iff_crlf :
    (∃ frames, Decodes (Memory.only 8 [0x61, CR, LF]) .newLineNewLine 8 11 frames ∧
        NewLineExact 8 [0x61, CR, LF] frames)
      ↔ NoNewLineFrame (Memory.only 8 [0x61, CR, LF]) 8 [0x61, CR, LF] :=
  newLineExact_iff ⟨[0x61, CR, LF], by decide⟩ (Memory.holds_only 8 _)

/-- **A single newline ends a frame**, and the byte after it, `b`, is in no frame. -/
theorem single_newLine_splits :
    Decodes (Memory.only 8 [0x61, LF, 0x62, 0x63]) .newLineNewLine 8 12 [⟨8, 0⟩] ∧
      ¬ NewLineExact 8 [0x61, LF, 0x62, 0x63] [⟨8, 0⟩] := by
  have hcuts : Cuts newLineCut (none, [0x61, LF, 0x62, 0x63]) [([0x61], some 0x62)] (some 0x62, [0x63]) :=
    .piece (by decide) (.stop (by decide))
  refine ⟨decodes_of_newLineCuts hcuts (by decide) (Memory.holds_only 8 _) (by simp [BeforeKnown, LF]), ?_⟩
  exact not_newLineExact (x := [0x61]) (by decide) (by decide) []

/-- The lengths aside, too: the lines cut off are followed by double newlines exactly where every byte
that was dropped is a newline. -/
theorem newLineTerminated_iff {k r : Option UInt8 × List UInt8} {cs : List (List UInt8 × Option UInt8)}
    (hcuts : Cuts newLineCut k cs r) :
    (∃ rest, k.2 = (cs.map Prod.fst).flatMap (· ++ [LF, LF]) ++ rest) ↔ ∀ c ∈ cs, c.2 = some LF := by
  induction hcuts with
  | stop _ => simp
  | @piece k k' r c cs hp _ ih =>
      obtain ⟨p, s⟩ := k
      obtain ⟨x, q⟩ := c
      obtain ⟨v, rfl, -, -, rfl, rfl⟩ := newLineCut_eq_some_iff.mp hp
      rw [List.forall_mem_cons, ← ih]
      cases v with
      | nil => simp
      | cons d v => simp

end Blueth.Codec
