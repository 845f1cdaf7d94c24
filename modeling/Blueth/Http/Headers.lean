/-
# Blueth.Http.Headers — the header store (`http/HTTPHeaders.hpp`).

`HTTPHeaders` wraps a `std::unordered_map<std::string, std::string>`. The model keeps the pairs in the
order they were inserted, together with the PROOF that no name occurs twice; the order in which the
container would iterate is unspecified, so everything that iterates takes an `Iteration`, any
arrangement of the pairs. `addHeader` is `emplace`: the FIRST value of a name stays.
-/
import Blueth.Http.ParserCommon

set_option autoImplicit false

namespace Blueth.Http

/-- The map: its name/value pairs, each name once. -/
structure HTTPHeaders where
  httpHeaders : List (List UInt8 × List UInt8)
  nodup_names : (httpHeaders.map Prod.fst).Nodup
  deriving DecidableEq

namespace HTTPHeaders

@[ext] theorem ext {h h' : HTTPHeaders} (e : h.httpHeaders = h'.httpHeaders) : h = h' := by
  cases h
  cases h'
  cases e
  rfl

/-- `HTTPHeaders() {}`. -/
def empty : HTTPHeaders := ⟨[], by simp⟩

/-- `headerContains`. -/
def headerContains (h : HTTPHeaders) (headerName : List UInt8) : Bool :=
  headerName ∈ h.httpHeaders.map Prod.fst

/-- `getHeaderValue`. -/
def getHeaderValue (h : HTTPHeaders) (headerName : List UInt8) : Option (List UInt8) :=
  h.httpHeaders.lookup headerName

/-- `addHeader`, i.e. `emplace`: does nothing when the name is already there. -/
def addHeader (h : HTTPHeaders) (headerPair : List UInt8 × List UInt8) : HTTPHeaders :=
  if hc : h.headerContains headerPair.1 then h
  else
    { httpHeaders := h.httpHeaders ++ [headerPair]
      nodup_names := by
        have hn : headerPair.1 ∉ h.httpHeaders.map Prod.fst := by
          simpa [headerContains] using hc
        rw [List.map_append, List.nodup_append]
        refine ⟨h.nodup_names, by simp, ?_⟩
        intro a ha b hb
        simp only [List.map_cons, List.map_nil, List.mem_singleton] at hb
        rintro rfl
        exact hn (hb ▸ ha) }

/-- `removeHeader`: whether the name was there, and the map without it. -/
def removeHeader (h : HTTPHeaders) (headerName : List UInt8) : Bool × HTTPHeaders :=
  if !h.headerContains headerName then (false, h)
  else
    (true,
      { httpHeaders := h.httpHeaders.filter fun header => header.1 != headerName
        nodup_names := h.nodup_names.sublist (List.filter_sublist.map Prod.fst) })

/-- `headerCount`. -/
def headerCount (h : HTTPHeaders) : ℕ := h.httpHeaders.length

/-- An order in which the container may hand out its pairs. -/
structure Iteration (h : HTTPHeaders) where
  order : List (List UInt8 × List UInt8)
  perm : order.Perm h.httpHeaders

/-- The order of insertion is one. -/
def Iteration.ofInsertion (h : HTTPHeaders) : h.Iteration := ⟨h.httpHeaders, List.Perm.refl _⟩

/-- One line of `buildRawHeader`. -/
def rawHeaderLine (header : List UInt8 × List UInt8) : List UInt8 :=
  header.1 ++ str ": " ++ header.2 ++ str "\r\n"

/-- `buildRawHeader`: one line a pair, then the empty line. -/
def buildRawHeader (h : HTTPHeaders) (it : h.Iteration) : List UInt8 :=
  it.order.flatMap rawHeaderLine ++ str "\r\n"

/-- Two stores are the same map: same names, same values. -/
def SameMap (h h' : HTTPHeaders) : Prop := ∀ name, h.getHeaderValue name = h'.getHeaderValue name

/-! ## Lookup -/

/-- Lookup in what is left when the pairs are filtered by their names. -/
theorem lookup_filter_fst (q : List UInt8 → Bool) (l : List (List UInt8 × List UInt8))
    (name : List UInt8) :
    (l.filter fun p => q p.1).lookup name = if q name then l.lookup name else none := by
  induction l with
  | nil => simp
  | cons p l ih =>
      obtain ⟨n, v⟩ := p
      rw [List.filter_cons, List.lookup_cons]
      by_cases hk : name = n
      · subst hk
        cases hq : q name <;> simp [hq, ih]
      · cases hq : q n <;> simp [List.lookup_cons, beq_false_of_ne hk, ih]

theorem headerContains_iff {h : HTTPHeaders} {name : List UInt8} :
    h.headerContains name = true ↔ (h.getHeaderValue name).isSome := by
  simp only [headerContains, getHeaderValue, decide_eq_true_eq, List.lookup_isSome_iff, List.mem_map,
    beq_iff_eq]
  constructor
  · rintro ⟨p, hp, rfl⟩
    exact ⟨p, hp, rfl⟩
  · rintro ⟨p, hp, rfl⟩
    exact ⟨p, hp, rfl⟩

/-- The same map contains the same names. -/
theorem SameMap.headerContains {h h' : HTTPHeaders} (hs : h.SameMap h') (name : List UInt8) :
    h.headerContains name = h'.headerContains name := by
  rw [Bool.eq_iff_iff, headerContains_iff, headerContains_iff, hs name]

theorem getHeaderValue_addHeader (h : HTTPHeaders) (name value key : List UInt8) :
    (h.addHeader (name, value)).getHeaderValue key
      = (h.getHeaderValue key).or (if key = name then some value else none) := by
  unfold addHeader
  by_cases hc : h.headerContains name
  · rw [dif_pos hc]
    by_cases hk : key = name
    · subst hk
      rw [headerContains_iff] at hc
      obtain ⟨v, hv⟩ := Option.isSome_iff_exists.mp hc
      rw [hv, Option.some_or]
    · rw [if_neg hk, Option.or_none]
  · rw [dif_neg hc]
    simp only [getHeaderValue, List.lookup_append, List.lookup_singleton, beq_iff_eq]

/-- With the name there or not: a removal takes out what is stored under the name and nothing else. -/
theorem getHeaderValue_removeHeader (h : HTTPHeaders) (name key : List UInt8) :
    (h.removeHeader name).2.getHeaderValue key
      = if key = name then none else h.getHeaderValue key := by
  by_cases hc : h.headerContains name = true
  · have hr : (h.removeHeader name).2.httpHeaders
        = h.httpHeaders.filter fun header => header.1 != name := by
      simp [removeHeader, hc]
    rw [getHeaderValue, hr, lookup_filter_fst (fun n => n != name)]
    by_cases hk : key = name
    · simp [hk]
    · simp [hk, getHeaderValue]
  · have hr : (h.removeHeader name).2 = h := by simp [removeHeader, hc]
    rw [hr]
    by_cases hk : key = name
    · rw [if_pos hk, hk]
      rw [headerContains_iff] at hc
      exact Option.not_isSome_iff_eq_none.mp hc
    · rw [if_neg hk]

/-- Add pairs one after another. -/
def addHeaders (h : HTTPHeaders) (pairs : List (List UInt8 × List UInt8)) : HTTPHeaders :=
  pairs.foldl addHeader h

/-- **First wins.** After adding pairs one after another, a name maps to what it mapped to before,
or else to the first value given for it. -/
theorem getHeaderValue_addHeaders (h : HTTPHeaders) (pairs : List (List UInt8 × List UInt8))
    (key : List UInt8) :
    (h.addHeaders pairs).getHeaderValue key = (h.getHeaderValue key).or (pairs.lookup key) := by
  induction pairs generalizing h with
  | nil => simp [addHeaders]
  | cons p pairs ih =>
      obtain ⟨name, value⟩ := p
      have hstep := ih (h.addHeader (name, value))
      simp only [addHeaders, List.foldl_cons] at hstep ⊢
      rw [hstep, getHeaderValue_addHeader, Option.or_assoc, List.lookup_cons]
      by_cases hk : key = name
      · simp [hk]
      · rw [if_neg hk, Option.none_or, beq_false_of_ne hk]

theorem getHeaderValue_empty (key : List UInt8) : empty.getHeaderValue key = none := rfl

/-- With each name once, a pair is in the list exactly when lookup finds it. -/
theorem lookup_eq_some_of_nodup {l : List (List UInt8 × List UInt8)}
    (hn : (l.map Prod.fst).Nodup) {name value : List UInt8} :
    l.lookup name = some value ↔ (name, value) ∈ l := by
  induction l with
  | nil => simp
  | cons p l ih =>
      obtain ⟨n, v⟩ := p
      rw [List.map_cons, List.nodup_cons] at hn
      rw [List.lookup_cons]
      by_cases hk : name = n
      · subst hk
        have hnot : (name, value) ∉ l := fun hm => hn.1 (List.mem_map.mpr ⟨_, hm, rfl⟩)
        simp [hnot, eq_comm]
      · simp [beq_false_of_ne hk, hk, ih hn.2]

/-- Lookup does not see the order. -/
theorem lookup_perm {l l' : List (List UInt8 × List UInt8)} (hp : l.Perm l')
    (hn : (l'.map Prod.fst).Nodup) (name : List UInt8) : l.lookup name = l'.lookup name := by
  have hn' : (l.map Prod.fst).Nodup := (hp.map Prod.fst).nodup_iff.mpr hn
  apply Option.ext
  intro value
  rw [lookup_eq_some_of_nodup hn', lookup_eq_some_of_nodup hn, hp.mem_iff]

/-- Lookup commutes with a change of the values. -/
theorem lookup_map_snd (f : List UInt8 → List UInt8) (l : List (List UInt8 × List UInt8))
    (name : List UInt8) : (l.map fun p => (p.1, f p.2)).lookup name = (l.lookup name).map f := by
  induction l with
  | nil => rfl
  | cons p l ih =>
      obtain ⟨n, v⟩ := p
      rw [List.map_cons, List.lookup_cons, List.lookup_cons]
      by_cases hk : name = n
      · simp [hk]
      · rw [beq_false_of_ne hk]
        exact ih

/-- No pair comes from nowhere. -/
theorem mem_addHeaders {h : HTTPHeaders} {pairs : List (List UInt8 × List UInt8)}
    {p : List UInt8 × List UInt8} (hp : p ∈ (h.addHeaders pairs).httpHeaders) :
    p ∈ h.httpHeaders ∨ p ∈ pairs := by
  induction pairs generalizing h with
  | nil => exact Or.inl hp
  | cons q pairs ih =>
      rcases ih hp with h' | h'
      · unfold addHeader at h'
        split at h'
        · exact Or.inl h'
        · rcases List.mem_append.mp h' with h' | h'
          · exact Or.inl h'
          · exact Or.inr (List.mem_cons.mpr (Or.inl (List.mem_singleton.mp h')))
      · exact Or.inr (List.mem_cons_of_mem q h')

/-- Adding the pairs of an iteration to an empty store gives the store back, as a map. -/
theorem addHeaders_iteration (h : HTTPHeaders) (it : h.Iteration) :
    (empty.addHeaders it.order).SameMap h := by
  intro name
  rw [getHeaderValue_addHeaders, getHeaderValue_empty, Option.none_or]
  exact lookup_perm it.perm h.nodup_names name

end HTTPHeaders

end Blueth.Http
