/-
# Blueth.Codec.LineFrames — the frames `LineBasedFrameDecoder` emits at `"\r\n"`, for every text.

`decodes_of_lines` gives the result of a call in closed form: the text is cut at its terminators
(`cutAt CR LF`), and each line becomes one view, `codeViews`, whose length is one short of the line's. From
there:

* `crlfExact_iff`: CRLF framing is exact only where there is nothing to frame;
* `crlf_resumable`: what the loop emits does not depend on where the text is cut into chunks.
-/
import Blueth.Codec.LineBasedFrameDecoder

set_option autoImplicit false

namespace Blueth.Codec

open Blueth.Scan Blueth.Simd

/-! ## Lines as views -/

/-- The views of lines that stand one behind the other from `b` on, each followed by two bytes. -/
def viewsOf (b : ℕ) : List (List UInt8) → List StringView
  | [] => []
  | l :: ls => ⟨b, UInt64.ofNat l.length⟩ :: viewsOf (b + l.length + 2) ls

/-- The same lines as the decoder views them, the length one short. -/
def codeViews (b : ℕ) : List (List UInt8) → List StringView
  | [] => []
  | l :: ls => ⟨b, UInt64.ofNat l.length - 1⟩ :: codeViews (b + l.length + 2) ls

/-- The two differ at the first line. -/
theorem codeViews_ne_viewsOf (b : ℕ) (l : List UInt8) (ls ls' : List (List UInt8)) :
    codeViews b (l :: ls) ≠ viewsOf b (l :: ls') := by
  intro h
  simp only [codeViews, viewsOf, List.cons.injEq, StringView.mk.injEq, true_and] at h
  have hnat := congrArg UInt64.toNat h.1
  simp only [UInt64.toNat_sub, UInt64.toNat_ofNat', UInt64.reduceToNat] at hnat
  omega

/-- The bytes of a list of lines, each with its two terminator bytes. -/
def spanOf : List (List UInt8) → ℕ
  | [] => 0
  | l :: ls => l.length + 2 + spanOf ls

theorem codeViews_append (b : ℕ) (ls ls' : List (List UInt8)) :
    codeViews b (ls ++ ls') = codeViews b ls ++ codeViews (b + spanOf ls) ls' := by
  induction ls generalizing b with
  | nil => rfl
  | cons l ls ih => simp only [List.cons_append, codeViews, ih, spanOf, ← Nat.add_assoc]

theorem length_flatMap_lines (c d : UInt8) (ls : List (List UInt8)) :
    (ls.flatMap (· ++ [c, d])).length = spanOf ls := by
  induction ls with
  | nil => rfl
  | cons l ls ih =>
      rw [List.flatMap_cons, List.length_append, ih]
      simp [spanOf]

/-! ## The CRLF loop -/

section Crlf

variable {m : Memory UInt8} {b : ℕ} {s r : List UInt8} {ls : List (List UInt8)}

/-- The byte behind a text stops a frame that would end there. -/
def StopsBehind (m : Memory UInt8) (e : ℕ) : Prop := ∃ d, m e = some d ∧ d ≠ LF

/-- **What is left of a text has no frame in it**: nothing to cut, and where its first `'\r'` is its very
last byte, the byte behind it is not `'\n'`. -/
theorem crRound_of_rest (h : m.Holds b r) (hr : cutAt CR LF r = none)
    (hend : (∃ x, r = x ++ [CR] ∧ CR ∉ x) → StopsBehind m (b + r.length)) :
    crRound m b (b + r.length) = some .finish := by
  rcases cutAt_eq_none_iff.mp hr with hno | ⟨x, w, rfl, hx, hw⟩
  · exact crRound_of_notMem h hno
  · have hread : ∃ d, m (b + x.length + 1) = some d ∧ d ≠ LF := by
      cases w with
      | nil =>
          have hlast := hend ⟨x, rfl, hx⟩
          simpa [StopsBehind, Nat.add_assoc] using hlast
      | cons d w =>
          have hcr := (Memory.holds_cons.mp (Memory.holds_append.mp h).2).2
          exact ⟨d, (Memory.holds_cons.mp hcr).1, by simpa using hw⟩
    obtain ⟨d, hd, hne⟩ := hread
    rw [crRound_of_append h hx, hd, Option.bind_some, if_pos hne]

theorem crRound_of_line {x w : List UInt8} (hsize : x.length < 2 ^ 63)
    (h : m.Holds b (x ++ CR :: LF :: w)) (hx : CR ∉ x) :
    crRound m b (b + (x ++ CR :: LF :: w).length)
      = some (.frame ⟨b, UInt64.ofNat x.length - 1⟩ (b + x.length + 2)) := by
  have hcr := (Memory.holds_cons.mp (Memory.holds_append.mp h).2).2
  have hlf := (Memory.holds_cons.mp hcr).1
  rw [crRound_of_append h hx, hlf, Option.bind_some, if_neg (by simp), frameUpTo_eq b hsize]

/-- The complete lines, one time around the loop for each. Whatever stands behind the text is not read. -/
theorem crlf_lines (hcuts : Cuts (cutAt CR LF) s ls r) (hsize : s.length < 2 ^ 63) (h : m.Holds b s)
    (fuel : ℕ) (acc : List StringView) :
    lineBasedFrameDecoder m .carriageReturnNewLine (b + s.length) (fuel + ls.length) b acc
      = lineBasedFrameDecoder m .carriageReturnNewLine (b + s.length) fuel (b + spanOf ls)
          (acc ++ codeViews b ls) := by
  induction hcuts generalizing b acc with
  | stop _ => simp only [List.length_nil, Nat.add_zero, spanOf, codeViews, List.append_nil]
  | @piece w v r f fs hp _ ih =>
      obtain ⟨rfl, hf⟩ := cutAt_eq_some_iff.mp hp
      simp only [List.length_append, List.length_cons] at hsize
      have hround := crRound_of_line (by omega) h hf
      have hv : m.Holds (b + f.length + 2) v := by
        have hcr := (Memory.holds_cons.mp (Memory.holds_append.mp h).2).2
        exact (Memory.holds_cons.mp hcr).2
      have hstop : b + (f ++ CR :: LF :: v).length = b + f.length + 2 + v.length := by
        simp only [List.length_append, List.length_cons]
        omega
      have hnext : b + spanOf (f :: fs) = b + f.length + 2 + spanOf fs := by
        rw [spanOf]
        omega
      rw [hstop] at hround ⊢
      rw [List.length_cons, ← Nat.add_assoc, lineBasedFrameDecoder]
      simp only [round, hround, ih (by omega) hv, hnext, codeViews, List.append_assoc,
        List.singleton_append]

/-- What is left when the lines are cut off stands behind them. -/
theorem rest_of_lines (hcuts : Cuts (cutAt CR LF) s ls r) (h : m.Holds b s) :
    m.Holds (b + spanOf ls) r ∧ b + s.length = b + spanOf ls + r.length := by
  obtain ⟨rfl, -, -⟩ := cuts_cutAt_iff.mp hcuts
  rw [Memory.holds_append, length_flatMap_lines] at h
  refine ⟨h.2, ?_⟩
  rw [List.length_append, length_flatMap_lines]
  omega

/-- **The CRLF loop in closed form.** -/
theorem decodes_of_lines (hcuts : Cuts (cutAt CR LF) s ls r) (hsize : s.length < 2 ^ 63)
    (h : m.Holds b s) (hend : (∃ x, r = x ++ [CR] ∧ CR ∉ x) → StopsBehind m (b + s.length)) :
    Decodes m .carriageReturnNewLine b (b + s.length) (codeViews b ls) := by
  obtain ⟨hr, hstop⟩ := rest_of_lines hcuts h
  refine ⟨1 + ls.length, ?_⟩
  rw [crlf_lines hcuts hsize h, hstop]
  rw [hstop] at hend
  simp only [lineBasedFrameDecoder, round, crRound_of_rest hr hcuts.stuck hend, List.nil_append]

/-- A `'\r'` that is the last byte, and the only one of what is left, has the loop read the byte at `end`. -/
theorem not_decodes_of_last (hcuts : Cuts (cutAt CR LF) s ls r) (hsize : s.length < 2 ^ 63)
    (h : m.Holds b s) (hend : m (b + s.length) = none) {x : List UInt8} (hr : r = x ++ [CR])
    (hx : CR ∉ x) (fs : List StringView) :
    ¬ Decodes m .carriageReturnNewLine b (b + s.length) fs := by
  obtain ⟨hrest, hstop⟩ := rest_of_lines hcuts h
  subst hr
  have hround : crRound m (b + spanOf ls) (b + s.length) = none := by
    rw [hstop] at hend ⊢
    rw [crRound_of_append hrest hx, Option.bind_eq_none_iff]
    intro d hd
    rw [List.length_append, List.length_singleton, ← Nat.add_assoc, hd] at hend
    cases hend
  apply not_decodes_of_fault (n := 1 + ls.length)
  rw [crlf_lines hcuts hsize h]
  simp only [lineBasedFrameDecoder, round, hround]

end Crlf

/-! ## Is CRLF framing exact? -/

/-- The frames are the lines of the text: it is the lines, each with its CR LF, and a rest that has no
complete line in it; each view has the bytes and the length of its line. -/
def CrlfExact (b : ℕ) (s : List UInt8) (frames : List StringView) : Prop :=
  ∃ ls rest, s = ls.flatMap (· ++ [CR, LF]) ++ rest ∧ (∀ l ∈ ls, CR ∉ l) ∧
    cutAt CR LF rest = none ∧ frames = viewsOf b ls

/-- There is no line to frame: the text has no `'\r'`, or its first one is not followed by `'\n'` in it. -/
def NoCompleteLine (s : List UInt8) : Prop :=
  CR ∉ s ∨ ∃ x w, s = x ++ CR :: w ∧ CR ∉ x ∧ w.head? ≠ some LF

/-- **When CRLF framing is exact.** For every text followed by a byte other than `'\n'`: the frames are
its lines exactly when it has no complete line, so that there are no frames. -/
theorem crlfExact_iff (s : Text) {m : Memory UInt8} {b : ℕ} (h : m.Holds b s.bytes)
    (hbehind : StopsBehind m (b + s.bytes.length)) :
    (∃ frames, Decodes m .carriageReturnNewLine b (b + s.bytes.length) frames ∧
        CrlfExact b s.bytes frames) ↔ NoCompleteLine s.bytes := by
  obtain ⟨ls, r, hcuts⟩ := exists_cuts_cutAt CR LF s.bytes
  have hdec := decodes_of_lines hcuts s.addressable h fun _ => hbehind
  have hno : NoCompleteLine s.bytes ↔ ls = [] := by
    rw [NoCompleteLine, ← cutAt_eq_none_iff]
    constructor
    · intro hnone
      exact (hcuts.unique (.stop hnone)).1
    · rintro rfl
      cases hcuts with
      | stop hstop => exact hstop
  rw [hno]
  constructor
  · rintro ⟨frames, hframes, ls', rest, hs, hls', hrest, hviews⟩
    obtain rfl := hframes.unique hdec
    obtain ⟨rfl, -⟩ := hcuts.unique (cuts_cutAt_iff.mpr ⟨hs, hls', hrest⟩)
    cases ls with
    | nil => rfl
    | cons l ls => exact absurd hviews (codeViews_ne_viewsOf b l ls ls)
  · rintro rfl
    refine ⟨_, hdec, [], s.bytes, rfl, by simp, ?_, rfl⟩
    cases hcuts with
    | stop hstop => exact hstop

/-- A lone `'\r'` followed by a NUL: nothing to frame, and no frames. -/
theorem crlfExact_iff_lone_cr :
    (∃ frames, Decodes (Memory.only 8 [0x61, CR, 0]) .carriageReturnNewLine 8 10 frames ∧
        CrlfExact 8 [0x61, CR] frames) ↔ NoCompleteLine [0x61, CR] := by
  have h : (Memory.only 8 [0x61, CR, 0]).Holds 8 [0x61, CR] :=
    (Memory.holds_append.mp (Memory.holds_only 8 ([0x61, CR] ++ [0]))).1
  exact crlfExact_iff ⟨[0x61, CR], by decide⟩ h ⟨0, by decide, by decide⟩

/-- **The last character is lost**: the line `ab` CR LF comes out as a view of length 1. -/
theorem line_loses_its_last_byte :
    StopsBehind (Memory.only 8 [0x61, 0x62, CR, LF, 0]) 12 ∧
      Decodes (Memory.only 8 [0x61, 0x62, CR, LF, 0]) .carriageReturnNewLine 8 12 [⟨8, 1⟩] ∧
      ¬ CrlfExact 8 [0x61, 0x62, CR, LF] [⟨8, 1⟩] := by
  have hcuts : Cuts (cutAt CR LF) [0x61, 0x62, CR, LF] [[0x61, 0x62]] [] :=
    .piece (by decide) (.stop (by decide))
  have h : (Memory.only 8 [0x61, 0x62, CR, LF, 0]).Holds 8 [0x61, 0x62, CR, LF] :=
    (Memory.holds_append.mp (Memory.holds_only 8 ([0x61, 0x62, CR, LF] ++ [0]))).1
  have hend : StopsBehind (Memory.only 8 [0x61, 0x62, CR, LF, 0]) 12 := ⟨0, by decide, by decide⟩
  refine ⟨hend, decodes_of_lines hcuts (by decide) h fun _ => hend, ?_⟩
  rintro ⟨ls, rest, hs, hls, hrest, hviews⟩
  obtain ⟨rfl, -⟩ := hcuts.unique (cuts_cutAt_iff.mpr ⟨hs, hls, hrest⟩)
  exact absurd hviews (by decide)

/-! ## Resuming -/

/-- `p` is the position right behind the terminator of the last of the frames, `b` if there is none. -/
def BehindLast (m : Memory UInt8) (b : ℕ) (frames : List StringView) (p : ℕ) : Prop :=
  match frames.getLast? with
  | none => p = b
  | some v => ∃ l, m.Holds v.data (l ++ [CR, LF]) ∧ CR ∉ l ∧ p = v.data + l.length + 2

/-- What a caller on a non-blocking socket has: one chunk after another, each stored right behind those
before it, and some byte other than `'\n'` behind the last. The memory may be another one at each call. -/
def Delivered (b : ℕ) : List UInt8 → List (Memory UInt8 × List UInt8) → Prop
  | _, [] => True
  | got, (m, t) :: chunks =>
    m.Holds b (got ++ t) ∧ StopsBehind m (b + (got ++ t).length) ∧ Delivered b (got ++ t) chunks

/-- One call for each chunk, from where the last frame of the calls before it ended. -/
inductive ResumedCalls (b : ℕ) : ℕ → List UInt8 → List (Memory UInt8 × List UInt8) → List StringView → Prop
  | done (p : ℕ) (got : List UInt8) : ResumedCalls b p got [] []
  | call {p p' : ℕ} {got t : List UInt8} {m : Memory UInt8} {chunks : List (Memory UInt8 × List UInt8)}
      {fs gs : List StringView}
      (hcall : Decodes m .carriageReturnNewLine p (b + (got ++ t).length) fs)
      (hp : BehindLast m p fs p') (hs : ResumedCalls b p' (got ++ t) chunks gs) :
      ResumedCalls b p got ((m, t) :: chunks) (fs ++ gs)

section Resume

variable {m : Memory UInt8} {b p p' : ℕ} {got : List UInt8}
  {chunks : List (Memory UInt8 × List UInt8)} {frames frames' : List StringView}

/-- A line at an address is no longer than another word there up to its `'\r'`. -/
theorem length_le_of_line {l l' v w : List UInt8} {a : ℕ} (h : m.Holds a (l ++ CR :: v))
    (h' : m.Holds a (l' ++ w)) (hl' : CR ∉ l') : l'.length ≤ l.length := by
  by_contra hlt
  have hcr := (Memory.holds_cons.mp (Memory.holds_append.mp h).2).1
  rw [(Memory.holds_append.mp h').1 l.length (by omega), Option.some.injEq] at hcr
  exact hl' (hcr ▸ List.getElem_mem _)

theorem BehindLast.unique (h : BehindLast m b frames p) (h' : BehindLast m b frames p') : p = p' := by
  unfold BehindLast at h h'
  cases hlast : frames.getLast? with
  | none =>
      rw [hlast] at h h'
      exact h.trans h'.symm
  | some v =>
      rw [hlast] at h h'
      obtain ⟨l, hl, hcr, rfl⟩ := h
      obtain ⟨l', hl', hcr', rfl⟩ := h'
      have h₁ := length_le_of_line hl hl' hcr'
      have h₂ := length_le_of_line hl' hl hcr
      omega

/-- Behind the last of a list of lines. -/
theorem behindLast_codeViews {ls : List (List UInt8)} {r : List UInt8}
    (h : m.Holds b (ls.flatMap (· ++ [CR, LF]) ++ r)) (hls : ∀ l ∈ ls, CR ∉ l) :
    BehindLast m b (codeViews b ls) (b + spanOf ls) := by
  rcases List.eq_nil_or_concat ls with rfl | ⟨ls, l, rfl⟩
  · rfl
  · rw [List.concat_eq_append] at h hls ⊢
    have hlines := (Memory.holds_append.mp h).1
    rw [List.flatMap_append, Memory.holds_append, length_flatMap_lines] at hlines
    have hspan : spanOf (ls ++ [l]) = spanOf ls + (l.length + 2) := by
      rw [← length_flatMap_lines CR LF, List.flatMap_append, List.length_append, length_flatMap_lines]
      simp
    have hlast : (codeViews b (ls ++ [l])).getLast?
        = some ⟨b + spanOf ls, UInt64.ofNat l.length - 1⟩ := by
      rw [codeViews_append]
      simp [codeViews]
    unfold BehindLast
    rw [hlast, hspan]
    refine ⟨l, by simpa using hlines.2, hls l (by simp), ?_⟩
    show b + (spanOf ls + (l.length + 2)) = b + spanOf ls + l.length + 2
    omega

theorem ResumedCalls.unique (h : ResumedCalls b p got chunks frames)
    (h' : ResumedCalls b p got chunks frames') : frames = frames' := by
  induction h generalizing frames' with
  | done p got =>
      cases h' with
      | done _ _ => rfl
  | call hcall hp _ ih =>
      cases h' with
      | call hcall' hp' hs' =>
          obtain rfl := hcall.unique hcall'
          obtain rfl := hp.unique hp'
          rw [ih hs']

/-- **The calls, chunk by chunk.** `r` is what the calls so far have left of the bytes received. -/
theorem resumedCalls_of_lines {u r r' : List UInt8} {gs : List (List UInt8)}
    (hdel : Delivered b (u ++ r) chunks) (hr : cutAt CR LF r = none)
    (hcuts : Cuts (cutAt CR LF) (r ++ (chunks.map Prod.snd).flatten) gs r')
    (hsize : (r ++ (chunks.map Prod.snd).flatten).length < 2 ^ 63) :
    ResumedCalls b (b + u.length) (u ++ r) chunks (codeViews (b + u.length) gs) := by
  induction chunks generalizing u r gs with
  | nil =>
      rw [List.map_nil, List.flatten_nil, List.append_nil] at hcuts
      obtain ⟨rfl, -⟩ := hcuts.unique (.stop hr)
      exact .done _ _
  | cons chunk chunks ih =>
      obtain ⟨m, t⟩ := chunk
      obtain ⟨hm, hend, hdel⟩ := hdel
      rw [List.map_cons, List.flatten_cons, ← List.append_assoc] at hcuts hsize
      obtain ⟨fs, q, hfs⟩ := exists_cuts_cutAt CR LF (r ++ t)
      obtain ⟨hs, hcr, hq⟩ := cuts_cutAt_iff.mp hfs
      obtain ⟨gs', q', hgs'⟩ := exists_cuts_cutAt CR LF (q ++ (chunks.map Prod.snd).flatten)
      -- cutting on from what this call leaves is cutting everything at once
      have hmore : ∀ w f v, cutAt CR LF w = some (f, v) →
          cutAt CR LF (w ++ (chunks.map Prod.snd).flatten)
            = some (f, v ++ (chunks.map Prod.snd).flatten) := fun _ _ _ hw => cutAt_more _ hw
      have hall := Cuts.resume hmore hfs hgs'
      obtain ⟨rfl, rfl⟩ := hcuts.unique hall
      rw [List.append_assoc] at hm hend hdel
      have hhere := (Memory.holds_append.mp hm).2
      have hlen : b + (u ++ (r ++ t)).length = b + u.length + (r ++ t).length := by
        simp only [List.length_append]
        omega
      have hcall : Decodes m .carriageReturnNewLine (b + u.length) (b + (u ++ (r ++ t)).length)
          (codeViews (b + u.length) fs) := by
        rw [hlen] at hend ⊢
        refine decodes_of_lines hfs ?_ hhere fun _ => hend
        simp only [List.length_append] at hsize ⊢
        omega
      rw [hs] at hhere
      have hp := behindLast_codeViews hhere hcr
      have hgot : u ++ r ++ t = u ++ fs.flatMap (· ++ [CR, LF]) ++ q := by
        rw [List.append_assoc, hs, List.append_assoc]
      have hnext : b + (u ++ fs.flatMap (· ++ [CR, LF])).length = b + u.length + spanOf fs := by
        rw [List.length_append, length_flatMap_lines]
        omega
      have hrest := ih (u := u ++ fs.flatMap (· ++ [CR, LF])) (r := q) ?_ hq hgs' ?_
      · rw [codeViews_append]
        refine .call ?_ hp ?_
        · rwa [List.append_assoc]
        · rwa [hgot, ← hnext]
      · rwa [← hgot, List.append_assoc]
      · rw [hs, List.append_assoc, List.length_append] at hsize
        omega

/-- **CRLF decoding can be resumed.** However a text arrives in chunks, one call for each of them, from
where the last frame so far ended, gives the frames of a single call over the whole text. -/
theorem crlf_resumable (s : Text) (hs : s.bytes = (chunks.map Prod.snd).flatten)
    (hdel : Delivered b [] chunks) (h : m.Holds b s.bytes)
    (hbehind : StopsBehind m (b + s.bytes.length)) :
    ∃ frames, Decodes m .carriageReturnNewLine b (b + s.bytes.length) frames ∧
      ∀ frames', ResumedCalls b b [] chunks frames' ↔ frames' = frames := by
  obtain ⟨ls, r, hcuts⟩ := exists_cuts_cutAt CR LF s.bytes
  have hcalls : ResumedCalls b b [] chunks (codeViews b ls) := by
    apply resumedCalls_of_lines (u := []) (r := []) hdel (by simp [cutAt])
    · rwa [List.nil_append, ← hs]
    · rw [List.nil_append, ← hs]
      exact s.addressable
  refine ⟨codeViews b ls, decodes_of_lines hcuts s.addressable h fun _ => hbehind, ?_⟩
  intro frames'
  constructor
  · intro h'
    exact h'.unique hcalls
  · rintro rfl
    exact hcalls

end Resume

/-- `a` CR LF `b` CR LF cut between the CR and the LF of the first line. -/
theorem crlf_resumable_cut_in_crlf :
    ∃ frames, Decodes (Memory.only 8 [0x61, CR, LF, 0x62, CR, LF, 0]) .carriageReturnNewLine 8 14 frames ∧
      ∀ frames', ResumedCalls 8 8 [] [(Memory.only 8 [0x61, CR, 0], [0x61, CR]),
          (Memory.only 8 [0x61, CR, LF, 0x62, CR, LF, 0], [LF, 0x62, CR, LF])] frames'
        ↔ frames' = frames := by
  have h : (Memory.only 8 [0x61, CR, LF, 0x62, CR, LF, 0]).Holds 8 [0x61, CR, LF, 0x62, CR, LF] :=
    (Memory.holds_append.mp (Memory.holds_only 8 ([0x61, CR, LF, 0x62, CR, LF] ++ [0]))).1
  have h₁ : (Memory.only 8 [0x61, CR, 0]).Holds 8 [0x61, CR] :=
    (Memory.holds_append.mp (Memory.holds_only 8 ([0x61, CR] ++ [0]))).1
  have hend : StopsBehind (Memory.only 8 [0x61, CR, LF, 0x62, CR, LF, 0]) 14 := ⟨0, by decide, by decide⟩
  exact crlf_resumable ⟨[0x61, CR, LF, 0x62, CR, LF], by decide⟩ rfl
    ⟨h₁, ⟨0, by decide, by decide⟩, h, hend, trivial⟩ h hend

end Blueth.Codec
