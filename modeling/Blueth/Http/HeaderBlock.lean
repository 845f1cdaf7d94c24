/-
# Blueth.Http.HeaderBlock — the header lines of a message head, as words.

Both parsers read the same block after the start line: lines `name ":" text CRLF`, and in the end a
CR LF. What they accept before that last CR is more than nothing: `HeaderName` serves both as "start
of a line" and as "inside a name", so bytes of a name may stand there (`trailing`), and a line may
start with its colon (an EMPTY name). The grammar here is the one of the code; a head that ends in a
real blank line is one with `trailing = []`.
-/
import Blueth.Http.Headers
import Blueth.Scan.Words

set_option autoImplicit false

namespace Blueth.Http

open Blueth.Scan

/-- `name ":" text CRLF`. -/
structure HeaderLine where
  name : List UInt8
  text : List UInt8
  deriving DecidableEq, Repr

namespace HeaderLine

def bytes (l : HeaderLine) : List UInt8 := l.name ++ ch ':' :: (l.text ++ [CR, LF])

/-- Token bytes before the colon, text bytes after it. -/
structure Shaped (l : HeaderLine) : Prop where
  name_token : ∀ c ∈ l.name, isToken c
  text_text : ∀ c ∈ l.text, isText c

instance (l : HeaderLine) : Decidable l.Shaped :=
  decidable_of_iff (l.name.all isToken = true ∧ l.text.all isText = true)
    ⟨fun h => ⟨List.all_eq_true.mp h.1, List.all_eq_true.mp h.2⟩,
      fun h => ⟨List.all_eq_true.mpr h.1, List.all_eq_true.mpr h.2⟩⟩

end HeaderLine

/-- The text of the first line with this name. -/
def firstText (lines : List HeaderLine) (name : List UInt8) : Option (List UInt8) :=
  (lines.map fun l => (l.name, l.text)).lookup name

/-- **What a parser stores for a name** when it adds one pair a line and records `f text` of each: the
first text given for the name, as recorded. -/
theorem getHeaderValue_of_lines (f : List UInt8 → List UInt8) (lines : List HeaderLine)
    (name : List UInt8) :
    (HTTPHeaders.empty.addHeaders (lines.map fun l => (l.name, f l.text))).getHeaderValue name
      = (firstText lines name).map f := by
  have hpairs : (lines.map fun l => (l.name, f l.text))
      = (lines.map fun l => (l.name, l.text)).map fun p => (p.1, f p.2) := by
    rw [List.map_map]
    rfl
  rw [HTTPHeaders.getHeaderValue_addHeaders, HTTPHeaders.getHeaderValue_empty, Option.none_or, hpairs,
    HTTPHeaders.lookup_map_snd]
  rfl

/-- The line `l` is the first one with its name. -/
def IsFirstLine (lines : List HeaderLine) (l : HeaderLine) : Prop :=
  ∃ before after, lines = before ++ l :: after ∧ ∀ k ∈ before, k.name ≠ l.name

theorem IsFirstLine.firstText {lines : List HeaderLine} {l : HeaderLine} (h : IsFirstLine lines l) :
    firstText lines l.name = some l.text := by
  obtain ⟨before, after, rfl, hbefore⟩ := h
  unfold Http.firstText
  rw [List.lookup_eq_some_iff]
  refine ⟨before.map fun l => (l.name, l.text), after.map fun l => (l.name, l.text), by simp, ?_⟩
  intro p hp
  obtain ⟨k, hk, rfl⟩ := List.mem_map.mp hp
  simpa using (hbefore k hk).symm

/-- The header lines and whatever stands before the CR that ends the head, that CR included. -/
def blockBytes (lines : List HeaderLine) (trailing : List UInt8) : List UInt8 :=
  lines.flatMap HeaderLine.bytes ++ (trailing ++ [CR])

@[simp] theorem blockBytes_nil (trailing : List UInt8) : blockBytes [] trailing = trailing ++ [CR] := by
  simp [blockBytes]

theorem blockBytes_cons (l : HeaderLine) (lines : List HeaderLine) (trailing : List UInt8) :
    blockBytes (l :: lines) trailing
      = l.name ++ ch ':' :: (l.text ++ CR :: LF :: blockBytes lines trailing) := by
  simp [blockBytes, HeaderLine.bytes]

theorem colon_not_token : ¬ (isToken (ch ':') = true) := by decide

theorem cr_not_token : ¬ (isToken CR = true) := by decide

theorem cr_not_text : ¬ (isText CR = true) := by decide

/-- **The block determines its lines.** -/
theorem blockBytes_inj {ls ls' : List HeaderLine} {t t' r r' : List UInt8}
    (hls : ∀ l ∈ ls, l.Shaped) (hls' : ∀ l ∈ ls', l.Shaped) (ht : ∀ c ∈ t, isToken c)
    (ht' : ∀ c ∈ t', isToken c) (h : blockBytes ls t ++ r = blockBytes ls' t' ++ r') :
    ls = ls' ∧ t = t' ∧ r = r' := by
  induction ls generalizing ls' with
  | nil =>
      cases ls' with
      | nil =>
          simp only [blockBytes_nil, List.append_assoc, List.singleton_append] at h
          obtain ⟨htt, -, hr⟩ := span_inj ht ht' cr_not_token cr_not_token h
          exact ⟨rfl, htt, hr⟩
      | cons l ls' =>
          -- the left line ends at a CR where the right one has its colon
          simp only [blockBytes_nil, blockBytes_cons, List.append_assoc, List.cons_append] at h
          have hl := (hls' l (by simp)).name_token
          have hcr := (span_inj ht hl cr_not_token colon_not_token h).2.1
          exact absurd hcr (by decide)
  | cons l ls ih =>
      cases ls' with
      | nil =>
          simp only [blockBytes_nil, blockBytes_cons, List.append_assoc, List.cons_append] at h
          have hl := (hls l (by simp)).name_token
          have hcr := (span_inj hl ht' colon_not_token cr_not_token h).2.1
          exact absurd hcr (by decide)
      | cons l' ls' =>
          simp only [blockBytes_cons, List.append_assoc, List.cons_append] at h
          have hs := hls l (by simp)
          have hs' := hls' l' (by simp)
          obtain ⟨hname, -, h⟩ :=
            span_inj hs.name_token hs'.name_token colon_not_token colon_not_token h
          obtain ⟨htext, -, h⟩ := span_inj hs.text_text hs'.text_text cr_not_text cr_not_text h
          rw [List.cons.injEq] at h
          obtain ⟨hrest, htt, hr⟩ :=
            ih (fun k hk => hls k (by simp [hk])) (fun k hk => hls' k (by simp [hk])) h.2
          refine ⟨?_, htt, hr⟩
          rw [hrest]
          obtain ⟨n, x⟩ := l
          obtain ⟨n', x'⟩ := l'
          simp only at hname htext
          rw [hname, htext]

/-! ## The block `buildRawHeader` writes -/

/-- The line `buildRawHeader` writes for a pair: the text is the value behind one space. -/
def HeaderLine.ofHeader (header : List UInt8 × List UInt8) : HeaderLine := ⟨header.1, SP :: header.2⟩

theorem HeaderLine.ofHeader_bytes (header : List UInt8 × List UInt8) :
    (HeaderLine.ofHeader header).bytes = HTTPHeaders.rawHeaderLine header := by
  have hcolon : str ": " = [ch ':', SP] := by decide
  have hcrlf : str "\r\n" = [CR, LF] := by decide
  simp [HeaderLine.bytes, HeaderLine.ofHeader, HTTPHeaders.rawHeaderLine, hcolon, hcrlf]

/-- **The serialised headers are a block** with nothing before its last CR. -/
theorem buildRawHeader_eq (h : HTTPHeaders) (it : h.Iteration) :
    h.buildRawHeader it = blockBytes (it.order.map HeaderLine.ofHeader) [] ++ [LF] := by
  have hcrlf : str "\r\n" = [CR, LF] := by decide
  have hlines : (it.order.map HeaderLine.ofHeader).flatMap HeaderLine.bytes
      = it.order.flatMap HTTPHeaders.rawHeaderLine := by
    rw [List.flatMap_map]
    simp only [HeaderLine.ofHeader_bytes]
  rw [HTTPHeaders.buildRawHeader, blockBytes, hlines, hcrlf]
  simp

/-- Lines written for token names and text values are shaped. -/
theorem ofHeader_shaped {headers : List (List UInt8 × List UInt8)}
    (hname : ∀ p ∈ headers, ∀ c ∈ p.1, isToken c) (hvalue : ∀ p ∈ headers, ∀ c ∈ p.2, isText c) :
    ∀ l ∈ headers.map HeaderLine.ofHeader, l.Shaped := by
  intro l hl
  obtain ⟨p, hp, rfl⟩ := List.mem_map.mp hl
  refine ⟨hname p hp, ?_⟩
  intro c hc
  rcases List.mem_cons.mp hc with rfl | hc
  · decide
  · exact hvalue p hp c hc

/-- The line of a name, as it stands in the text: the value behind one space. -/
theorem firstText_ofHeader (h : HTTPHeaders) (it : h.Iteration) (name : List UInt8) :
    firstText (it.order.map HeaderLine.ofHeader) name = (h.getHeaderValue name).map (SP :: ·) := by
  have hpairs : ((it.order.map HeaderLine.ofHeader).map fun l => (l.name, l.text))
      = it.order.map fun p => (p.1, SP :: p.2) := by
    rw [List.map_map]
    rfl
  rw [firstText, hpairs, HTTPHeaders.lookup_map_snd (fun value => SP :: value),
    HTTPHeaders.lookup_perm it.perm h.nodup_names]
  rfl

/-- **The header map comes back** when every value is recorded whole from the line written for it. -/
theorem sameMap_of_lines {f : List UInt8 → List UInt8} {h : HTTPHeaders} (it : h.Iteration)
    (hf : ∀ p ∈ h.httpHeaders, f (SP :: p.2) = p.2) :
    (HTTPHeaders.empty.addHeaders
      ((it.order.map HeaderLine.ofHeader).map fun l => (l.name, f l.text))).SameMap h := by
  have hlines : (it.order.map HeaderLine.ofHeader).map (fun l => (l.name, f l.text)) = it.order := by
    rw [List.map_map]
    conv_rhs => rw [← List.map_id it.order]
    refine List.map_congr_left ?_
    intro p hp
    show (p.1, f (SP :: p.2)) = p
    rw [hf p (it.perm.mem_iff.mp hp)]
  rw [hlines]
  exact HTTPHeaders.addHeaders_iteration h it

/-! ## The block, one byte at a time -/

/-- A word made of header lines whose texts satisfy `T` (as a function of the byte before the text),
and of name bytes before the final CR. -/
def IsBlock (T : Option UInt8 → List UInt8 → Prop) (w : List UInt8) : Prop :=
  ∃ lines trailing, (∀ l ∈ lines, l.Shaped ∧ T (some (ch ':')) l.text) ∧
    (∀ c ∈ trailing, isToken c) ∧ w = blockBytes lines trailing

/-- The rest of a header value, its CR LF and the lines after it. -/
def IsValueTail (T : Option UInt8 → List UInt8 → Prop) (p : Option UInt8) (w : List UInt8) : Prop :=
  ∃ text v, w = text ++ CR :: LF :: v ∧ (∀ c ∈ text, isText c) ∧ T p text ∧ IsBlock T v

section Derivatives

variable {T : Option UInt8 → List UInt8 → Prop} {c : UInt8} {w : List UInt8}

@[simp] theorem not_isBlock_nil : ¬ IsBlock T [] := by
  rintro ⟨lines, trailing, -, -, h⟩
  simp [blockBytes] at h

theorem isBlock_cons : IsBlock T (c :: w)
    ↔ (isToken c ∧ IsBlock T w) ∨ (c = ch ':' ∧ IsValueTail T (some (ch ':')) w) ∨ (c = CR ∧ w = []) := by
  constructor
  · rintro ⟨lines, trailing, hl, ht, h⟩
    cases lines with
    | nil =>
        rw [blockBytes_nil] at h
        cases trailing with
        | nil =>
            simp only [List.nil_append, List.cons.injEq] at h
            exact Or.inr (Or.inr h)
        | cons d trailing =>
            simp only [List.cons_append, List.cons.injEq] at h
            obtain ⟨rfl, rfl⟩ := h
            refine Or.inl ⟨ht c (by simp), [], trailing, by simp, ?_, by rw [blockBytes_nil]⟩
            exact fun e he => ht e (by simp [he])
    | cons l lines =>
        rw [blockBytes_cons] at h
        obtain ⟨hs, hT⟩ := hl l (by simp)
        have hrest : ∀ k ∈ lines, k.Shaped ∧ T (some (ch ':')) k.text := fun k hk => hl k (by simp [hk])
        cases hn : l.name with
        | nil =>
            rw [hn, List.nil_append, List.cons.injEq] at h
            exact Or.inr (Or.inl ⟨h.1, l.text, blockBytes lines trailing, h.2, hs.text_text, hT,
              lines, trailing, hrest, ht, rfl⟩)
        | cons d name =>
            rw [hn, List.cons_append, List.cons.injEq] at h
            obtain ⟨rfl, h⟩ := h
            have htok := hs.name_token
            rw [hn] at htok
            refine Or.inl ⟨htok c (by simp), ⟨name, l.text⟩ :: lines, trailing, ?_, ht, ?_⟩
            · intro k hk
              rcases List.mem_cons.mp hk with rfl | hk
              · exact ⟨⟨fun e he => htok e (by simp [he]), hs.text_text⟩, hT⟩
              · exact hrest k hk
            · rw [blockBytes_cons]
              exact h
  · rintro (⟨hc, lines, trailing, hl, ht, rfl⟩ | ⟨rfl, text, v, rfl, htext, hT, lines, trailing, hl, ht,
      rfl⟩ | ⟨rfl, rfl⟩)
    · -- a name byte joins the first line's name, or the trailing bytes
      cases lines with
      | nil =>
          refine ⟨[], c :: trailing, by simp, ?_, by simp⟩
          intro e he
          rcases List.mem_cons.mp he with rfl | he
          · exact hc
          · exact ht e he
      | cons l lines =>
          refine ⟨⟨c :: l.name, l.text⟩ :: lines, trailing, ?_, ht, by simp [blockBytes_cons]⟩
          intro k hk
          rcases List.mem_cons.mp hk with rfl | hk
          · obtain ⟨hs, hT⟩ := hl l (by simp)
            refine ⟨⟨?_, hs.text_text⟩, hT⟩
            intro e he
            rcases List.mem_cons.mp he with rfl | he
            · exact hc
            · exact hs.name_token e he
          · exact hl k (by simp [hk])
    · refine ⟨⟨[], text⟩ :: lines, trailing, ?_, ht, by simp [blockBytes_cons]⟩
      intro k hk
      rcases List.mem_cons.mp hk with rfl | hk
      · exact ⟨⟨by simp, htext⟩, hT⟩
      · exact hl k hk
    · exact ⟨[], [], by simp, by simp, by simp⟩

@[simp] theorem not_isValueTail_nil {p : Option UInt8} : ¬ IsValueTail T p [] := by
  rintro ⟨text, v, h, -⟩
  simp at h

/-- A value byte is CR (the value ends here) or a text byte; `T` is read one byte at a time too. -/
theorem isValueTail_cons {p : Option UInt8} {A : Option UInt8 → UInt8 → Prop} (hnil : ∀ p, T p [])
    (hcons : ∀ p c w, T p (c :: w) ↔ A p c ∧ T (some c) w) :
    IsValueTail T p (c :: w)
      ↔ (c = CR ∧ oneThen (· = LF) (IsBlock T) w) ∨ (isText c ∧ A p c ∧ IsValueTail T (some c) w) := by
  constructor
  · rintro ⟨text, v, h, htext, hT, hv⟩
    cases text with
    | nil =>
        simp only [List.nil_append, List.cons.injEq] at h
        exact Or.inl ⟨h.1, LF, v, h.2, rfl, hv⟩
    | cons d text =>
        simp only [List.cons_append, List.cons.injEq] at h
        obtain ⟨rfl, rfl⟩ := h
        obtain ⟨hA, hT⟩ := (hcons p c text).mp hT
        exact Or.inr ⟨htext c (by simp), hA, text, v, rfl, fun e he => htext e (by simp [he]), hT, hv⟩
  · rintro (⟨rfl, e, v, rfl, rfl, hv⟩ | ⟨hc, hA, text, v, rfl, htext, hT, hv⟩)
    · exact ⟨[], v, rfl, by simp, hnil p, hv⟩
    · refine ⟨c :: text, v, rfl, ?_, (hcons p c text).mpr ⟨hA, hT⟩, hv⟩
      intro e he
      rcases List.mem_cons.mp he with rfl | he
      · exact hc
      · exact htext e he

end Derivatives

end Blueth.Http
