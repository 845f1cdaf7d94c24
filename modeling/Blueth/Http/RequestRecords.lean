/-
# Blueth.Http.RequestRecords — the method and the header values the request parser records.

Both are collected byte by byte, and both come out wrong on texts the parser accepts:

* the method is compared by its first three or four bytes only, so a token that starts with a known name
  is taken for it; `requestType_exact_iff` says that the type is right exactly where the token IS one of
  the four names;
* in a value, a space is dropped behind ANY colon, not only behind the one that ends the header's name;
  `requestValue_faithful_iff` says that a value is recorded faithfully exactly where the text has no space
  but, possibly, its first byte.
-/
import Blueth.Http.HeaderValues
import Blueth.Http.RequestRuns

set_option autoImplicit false

namespace Blueth.Http

open Blueth.Scan Blueth.Io

/-! ## The method -/

/-- The request types of the four methods and their names. -/
def methodNames : List (HTTPRequestType × List UInt8) :=
  [(.get, str "GET"), (.post, str "POST"), (.put, str "PUT"), (.head, str "HEAD")]

/-- The type is the one the method token stands for. -/
def TypedByToken (token : List UInt8) (type : HTTPRequestType) : Prop :=
  ∀ p ∈ methodNames, type = p.1 ↔ token = p.2

/-- What stands before the first space of a request. -/
def firstToken (w : List UInt8) : List UInt8 := w.takeWhile (· != SP)

/-- The NUL behind a string is none of the bytes of a name. -/
theorem cStrAt_eq_iff {s : List UInt8} {i : ℕ} {c : UInt8} (hc : c ≠ 0) :
    cStrAt s i = c ↔ s[i]? = some c := by
  rw [cStrAt, List.getD_eq_getElem?_getD]
  cases s[i]? with
  | none => simpa using hc.symm
  | some d => simp

theorem str3cmp_iff_begins {s : List UInt8} {a b c : UInt8} (ha : a ≠ 0) (hb : b ≠ 0) (hc : c ≠ 0) :
    str3cmp s [a, b, c] = true ↔ [a, b, c] <+: s := by
  have hcmp : str3cmp s [a, b, c] = true ↔ (cStrAt s 0 = a ∧ cStrAt s 1 = b) ∧ cStrAt s 2 = c := by
    simp [str3cmp, cStrAt]
  rw [hcmp, cStrAt_eq_iff ha, cStrAt_eq_iff hb, cStrAt_eq_iff hc, List.prefix_iff_getElem?]
  constructor
  · rintro ⟨⟨h₀, h₁⟩, h₂⟩ i hi
    match i, hi with
    | 0, _ => exact h₀
    | 1, _ => exact h₁
    | 2, _ => exact h₂
  · intro h
    exact ⟨⟨h 0 (by simp), h 1 (by simp)⟩, h 2 (by simp)⟩

theorem str4cmp_iff_begins {s : List UInt8} {a b c d : UInt8} (ha : a ≠ 0) (hb : b ≠ 0) (hc : c ≠ 0)
    (hd : d ≠ 0) : str4cmp s [a, b, c, d] = true ↔ [a, b, c, d] <+: s := by
  have hcmp : str4cmp s [a, b, c, d] = true
      ↔ ((cStrAt s 0 = a ∧ cStrAt s 1 = b) ∧ cStrAt s 2 = c) ∧ cStrAt s 3 = d := by
    simp [str4cmp, cStrAt]
  rw [hcmp, cStrAt_eq_iff ha, cStrAt_eq_iff hb, cStrAt_eq_iff hc, cStrAt_eq_iff hd,
    List.prefix_iff_getElem?]
  constructor
  · rintro ⟨⟨⟨h₀, h₁⟩, h₂⟩, h₃⟩ i hi
    match i, hi with
    | 0, _ => exact h₀
    | 1, _ => exact h₁
    | 2, _ => exact h₂
    | 3, _ => exact h₃
  · intro h
    exact ⟨⟨⟨h 0 (by simp), h 1 (by simp)⟩, h 2 (by simp)⟩, h 3 (by simp)⟩

/-- None of the four names is the beginning of another. -/
theorem methodNames_prefix_free :
    ∀ p ∈ methodNames, ∀ q ∈ methodNames, p.2 <+: q.2 → p = q := by
  decide

/-- **What the comparison sees**: the name that the token STARTS with. -/
theorem recognise_begins {token : List UInt8} {st : ParserState} {type : HTTPRequestType}
    (h : recognise token = some (st, type)) : ∃ p ∈ methodNames, p.1 = type ∧ p.2 <+: token := by
  unfold recognise at h
  split_ifs at h with hget hpost hput hhead
  all_goals simp only [Option.some.injEq, Prod.mk.injEq] at h
  · refine ⟨(.get, str "GET"), by decide, h.2, ?_⟩
    exact (str3cmp_iff_begins (by decide) (by decide) (by decide)).mp hget
  · refine ⟨(.post, str "POST"), by decide, h.2, ?_⟩
    exact (str4cmp_iff_begins (by decide) (by decide) (by decide) (by decide)).mp hpost
  · refine ⟨(.put, str "PUT"), by decide, h.2, ?_⟩
    exact (str3cmp_iff_begins (by decide) (by decide) (by decide)).mp hput
  · refine ⟨(.head, str "HEAD"), by decide, h.2, ?_⟩
    exact (str4cmp_iff_begins (by decide) (by decide) (by decide) (by decide)).mp hhead

/-- The type is right exactly where the token is no longer than the name it starts with. -/
theorem typedByToken_iff {token : List UInt8} {st : ParserState} {type : HTTPRequestType}
    (h : recognise token = some (st, type)) :
    TypedByToken token type ↔ token ∈ methodNames.map Prod.snd := by
  obtain ⟨p, hp, rfl, hprefix⟩ := recognise_begins h
  constructor
  · intro htyped
    rw [(htyped p hp).mp rfl]
    exact List.mem_map_of_mem hp
  · intro hmem q hq
    obtain ⟨r, hr, rfl⟩ := List.mem_map.mp hmem
    obtain rfl := methodNames_prefix_free p hp r hr hprefix
    constructor
    · intro htype
      have hinj : ∀ p ∈ methodNames, ∀ q ∈ methodNames, p.1 = q.1 → p.2 = q.2 := by decide
      exact hinj p hp q hq htype
    · intro hname
      rw [methodNames_prefix_free p hp q hq (hname ▸ List.prefix_refl p.2)]

/-- The method token of an accepted head. -/
theorem firstToken_bytes {h : RequestHead} (hs : h.Shaped) (rest : List UInt8) :
    firstToken (h.bytes ++ rest) = h.method := by
  unfold firstToken RequestHead.bytes RequestHead.toLastCR
  rw [List.append_assoc, List.append_assoc, List.takeWhile_append_of_pos]
  · simp
  · intro c hc
    simpa using isToken_ne_sp (hs.method_token c hc)

/-- **When methods are recognised exactly.** For every accepted request, in one call or several: the
recorded type is that of the complete method token exactly where the token is one of the four names. -/
theorem requestType_exact_iff {b : IOBuffer} (hb : b.WellFormed) {windows : List ℕ}
    (hsum : windows.sum = b.getDataSize) {st : ParserState} {m : HTTPRequestMessage}
    (hret : RequestWindowsReturn b windows st m) (hacc : st.Accepting) :
    TypedByToken (firstToken b.data) m.requestType
      ↔ firstToken b.data ∈ methodNames.map Prod.snd := by
  rw [requestWindowsReturn_iff hb hsum] at hret
  obtain ⟨h, type, rest, hh, hdata, rfl⟩ := requestAccepts_iff.mp ⟨hret, hacc⟩
  rw [hdata, firstToken_bytes hh.shaped]
  exact typedByToken_iff hh.recognised

/-- `method / HTTP/1.1 CRLF lines CRLF`. -/
def rootHead (method : List UInt8) (lines : List HeaderLine) : RequestHead :=
  ⟨method, str "/", ch '1', str "1", lines, []⟩

/-- The call on such a head, for a method without a body, returns its message. -/
theorem requestReturns_rootHead {method : List UInt8} {lines : List HeaderLine} {type : HTTPRequestType}
    (hh : (rootHead method lines).Accepted .parsingDone type) :
    RequestReturns (.holding [] (rootHead method lines).bytes) .requestLineBegin .create .parsingDone
      ((rootHead method lines).result .parsingDone type []) :=
  (requestAccepts_iff.mpr ⟨_, type, [], hh, by rw [IOBuffer.data_holding, List.append_nil], rfl⟩).1

/-- A GET, cut in the method. -/
theorem requestType_exact_iff_get :
    TypedByToken (firstToken (IOBuffer.holding [] (rootHead (str "GET") []).bytes).data) .get
      ↔ firstToken (IOBuffer.holding [] (rootHead (str "GET") []).bytes).data
          ∈ methodNames.map Prod.snd := by
  have hb := IOBuffer.holding_wellFormed [] (rootHead (str "GET") []).bytes
  have hh : (rootHead (str "GET") []).Accepted .parsingDone .get := ⟨by decide, by decide, by decide⟩
  have hret : RequestWindowsReturn (.holding [] (rootHead (str "GET") []).bytes) [2, 16] .parsingDone
      ((rootHead (str "GET") []).result .parsingDone .get []) :=
    (requestWindowsReturn_iff hb (by decide)).mpr (requestReturns_rootHead hh)
  exact requestType_exact_iff hb (by decide) hret (.inl rfl)

/-- **`GETX` is taken for GET.** -/
theorem longer_token_is_get :
    ∃ m, RequestWindowsReturn (.holding [] (str "GETX / HTTP/1.1\r\n\r\n")) [19] .parsingDone m ∧
      m.requestType = .get ∧
      ¬ TypedByToken (firstToken (IOBuffer.holding [] (str "GETX / HTTP/1.1\r\n\r\n")).data)
          m.requestType := by
  have hbytes : str "GETX / HTTP/1.1\r\n\r\n" = (rootHead (str "GETX") []).bytes := by decide
  have hh : (rootHead (str "GETX") []).Accepted .parsingDone .get := ⟨by decide, by decide, by decide⟩
  have hb := IOBuffer.holding_wellFormed [] (rootHead (str "GETX") []).bytes
  rw [hbytes]
  refine ⟨_, (requestWindowsReturn_iff hb (by decide)).mpr (requestReturns_rootHead hh), rfl, ?_⟩
  intro htyped
  have hget := (htyped (.get, str "GET") (by decide)).mp rfl
  revert hget
  decide

/-! ## Header values -/

/-- A text without its spaces is faithful exactly where its first byte is the only one that may be a
space. -/
theorem faithful_filter_iff {text : List UInt8} :
    FaithfulValue text (text.filter (· != SP)) ↔ SP ∉ text.tail := by
  have hkeep : ∀ w : List UInt8, w.filter (· != SP) = w ↔ SP ∉ w := by
    intro w
    rw [List.filter_eq_self]
    constructor
    · intro h hsp
      simpa using h SP hsp
    · intro h c hc
      simpa using fun hcs : c = SP => h (hcs ▸ hc)
  unfold FaithfulValue
  cases text with
  | nil => simp
  | cons c w =>
      by_cases hc : c = SP
      · subst hc
        have hdrop : (SP :: w).filter (· != SP) = w.filter (· != SP) := by simp
        -- the leading space is dropped, so the value cannot be the whole text
        have hne : w.filter (· != SP) ≠ SP :: w := by
          intro h
          have hlen := List.length_filter_le (· != SP) w
          rw [h, List.length_cons] at hlen
          omega
        rw [hdrop, List.tail_cons, ← hkeep w, List.cons.injEq]
        constructor
        · rintro (h | ⟨-, h⟩)
          · exact absurd h hne
          · exact h.symm
        · intro h
          exact .inr ⟨rfl, h.symm⟩
      · have hstay : (c :: w).filter (· != SP) = c :: w.filter (· != SP) := by simp [hc]
        rw [hstay, List.tail_cons, ← hkeep w, List.cons.injEq, List.cons.injEq]
        constructor
        · rintro (⟨-, h⟩ | ⟨h, -⟩)
          · exact h
          · exact absurd h hc
        · intro h
          exact .inl ⟨rfl, h⟩

/-- **When a request header value is recorded faithfully.** For every accepted request and every first
line of its name: the stored value is the text, with at most one leading space removed, exactly when no
byte of the text but the first is a space. -/
theorem requestValue_faithful_iff {b : IOBuffer} {st : ParserState} {m : HTTPRequestMessage}
    (hret : RequestReturns b .requestLineBegin .create st m) (hacc : st.Accepting)
    {h : RequestHead} (hs : h.Shaped) {rest : List UInt8} (hdata : b.data = h.bytes ++ rest)
    {l : HeaderLine} (hl : IsFirstLine h.lines l) :
    (∃ value, m.getHeaderValue l.name = some value ∧ FaithfulValue l.text value)
      ↔ SP ∉ l.text.tail := by
  obtain ⟨g, type, rest', hg, hdata', rfl⟩ := requestAccepts_iff.mp ⟨hret, hacc⟩
  obtain ⟨rfl, rfl⟩ := RequestHead.bytes_inj hg.shaped hs (hdata'.symm.trans hdata)
  have hvalue : (g.result st type rest').getHeaderValue l.name = some (l.text.filter (· != SP)) := by
    have hlines := getHeaderValue_of_lines (fun text => text.filter (· != SP)) g.lines l.name
    rw [hl.firstText] at hlines
    exact hlines
  rw [hvalue, ← faithful_filter_iff]
  simp

/-- A plain value behind a space is stored as it is. -/
theorem requestValue_faithful_iff_host :
    ∃ value, ((rootHead (str "GET") [⟨str "Host", str " x"⟩]).result .parsingDone .get []).getHeaderValue
      (str "Host") = some value ∧ FaithfulValue (str " x") value := by
  have hh : (rootHead (str "GET") [⟨str "Host", str " x"⟩]).Accepted .parsingDone .get :=
    ⟨by decide, by decide, by decide⟩
  have hl : IsFirstLine (rootHead (str "GET") [⟨str "Host", str " x"⟩]).lines ⟨str "Host", str " x"⟩ :=
    ⟨[], [], rfl, by simp⟩
  have hdata : (IOBuffer.holding [] (rootHead (str "GET") [⟨str "Host", str " x"⟩]).bytes).data
      = (rootHead (str "GET") [⟨str "Host", str " x"⟩]).bytes ++ [] := by
    rw [IOBuffer.data_holding, List.append_nil]
  exact (requestValue_faithful_iff (requestReturns_rootHead hh) (.inl rfl) hh.shaped hdata hl).mpr
    (by decide)

/-- **A space inside a value disappears**: `X: a: b` is stored as `a:b`. -/
theorem inner_space_disappears :
    RequestReturns (.holding [] (str "GET / HTTP/1.1\r\nX: a: b\r\n\r\n")) .requestLineBegin .create
        .parsingDone ((rootHead (str "GET") [⟨str "X", str " a: b"⟩]).result .parsingDone .get []) ∧
      IsFirstLine (rootHead (str "GET") [⟨str "X", str " a: b"⟩]).lines ⟨str "X", str " a: b"⟩ ∧
      ((rootHead (str "GET") [⟨str "X", str " a: b"⟩]).result .parsingDone .get []).getHeaderValue (str "X")
        = some (str "a:b") ∧
      ¬ FaithfulValue (str " a: b") (str "a:b") := by
  have hh : (rootHead (str "GET") [⟨str "X", str " a: b"⟩]).Accepted .parsingDone .get :=
    ⟨by decide, by decide, by decide⟩
  have hbytes : str "GET / HTTP/1.1\r\nX: a: b\r\n\r\n"
      = (rootHead (str "GET") [⟨str "X", str " a: b"⟩]).bytes := by decide
  rw [hbytes]
  refine ⟨requestReturns_rootHead hh, ⟨[], [], rfl, by simp⟩, by decide, ?_⟩
  unfold FaithfulValue
  decide

end Blueth.Http
