/-
# Blueth.Http.HeaderHistory — the header store over whole histories of `addHeader` and `removeHeader`.

The store is compared with the first-wins map of `Blueth.Transition.FirstWins`: `getHeaderValue` answers
like the map and each call acts like the map's, so after ANY history a name has the value of the earliest
`addHeader` since its last `removeHeader`. The other observers are then read off the lookup: membership,
the count, and `buildRawHeader`, which writes each present name on one line, in an order the container
chooses. A message only forwards to its store (`httpHeaders_calls`).
-/
import Mathlib.Data.Set.Card
import Blueth.Http.Message
import Blueth.Transition.FirstWins

set_option autoImplicit false

namespace Blueth.Http

open Blueth.Transition MapCall

/-- A call of a history: `addHeader` or `removeHeader`. -/
abbrev HeaderCall := MapCall (List UInt8) (List UInt8)

namespace HTTPHeaders

/-- What the call leaves of the store. -/
def call (h : HTTPHeaders) : HeaderCall → HTTPHeaders
  | .add headerName headerValue => h.addHeader (headerName, headerValue)
  | .remove headerName => (h.removeHeader headerName).2

/-- The store after a history, from a fresh one. -/
def after (calls : List HeaderCall) : HTTPHeaders := calls.foldl call empty

/-- A text that writes each name of the map once, with its value, and then the empty line. -/
def WritesEachOnce (m : List UInt8 → Option (List UInt8)) (raw : List UInt8) : Prop :=
  ∃ order : List (List UInt8 × List UInt8), (order.map Prod.fst).Nodup ∧
    (∀ header, header ∈ order ↔ m header.1 = some header.2) ∧
    raw = order.flatMap rawHeaderLine ++ str "\r\n"

theorem getHeaderValue_call (h : HTTPHeaders) (c : HeaderCall) :
    (h.call c).getHeaderValue = act h.getHeaderValue c := by
  funext key
  cases c with
  | add name value => exact getHeaderValue_addHeader h name value key
  | remove name => exact getHeaderValue_removeHeader h name key

/-- **The store is the first-wins map.** -/
theorem getHeaderValue_after (calls : List HeaderCall) (name : List UInt8) :
    (after calls).getHeaderValue name = earliest name (sinceRemoval name calls) := by
  rw [← content_eq]
  exact congrFun (content_of_simulation getHeaderValue call empty getHeaderValue_empty
    getHeaderValue_call calls) name

theorem removeHeader_fst (h : HTTPHeaders) (name : List UInt8) :
    (h.removeHeader name).1 = h.headerContains name := by
  cases hc : h.headerContains name <;> simp [removeHeader, hc]

/-- Each name is counted once, and nothing but names. -/
theorem headerCount_eq_ncard (h : HTTPHeaders) :
    h.headerCount = {name | (h.getHeaderValue name).isSome}.ncard := by
  have hset : {name | (h.getHeaderValue name).isSome}
      = ((h.httpHeaders.map Prod.fst).toFinset : Set (List UInt8)) := by
    ext name
    show (h.getHeaderValue name).isSome = true ↔ _
    rw [← headerContains_iff]
    simp [headerContains]
  rw [hset, Set.ncard_coe_finset, List.toFinset_card_of_nodup h.nodup_names, List.length_map]
  rfl

theorem mem_order_iff {h : HTTPHeaders} (it : h.Iteration) (header : List UInt8 × List UInt8) :
    header ∈ it.order ↔ h.getHeaderValue header.1 = some header.2 := by
  rw [it.perm.mem_iff]
  exact (lookup_eq_some_of_nodup h.nodup_names).symm

theorem nodup_order {h : HTTPHeaders} (it : h.Iteration) : (it.order.map Prod.fst).Nodup :=
  (it.perm.map Prod.fst).nodup_iff.mpr h.nodup_names

theorem buildRawHeader_writesEachOnce (h : HTTPHeaders) (it : h.Iteration) :
    WritesEachOnce h.getHeaderValue (h.buildRawHeader it) :=
  ⟨it.order, nodup_order it, mem_order_iff it, rfl⟩

/-- The same map is iterated in some other order. -/
theorem SameMap.order_perm {h h' : HTTPHeaders} (hs : h.SameMap h') (it : h.Iteration)
    (it' : h'.Iteration) : it.order.Perm it'.order := by
  apply (List.perm_ext_iff_of_nodup (nodup_order it).of_map (nodup_order it').of_map).mpr
  intro header
  rw [mem_order_iff, mem_order_iff, hs header.1]

/-- **The header store is a first-wins finite map**, and its observers and its text say the same. -/
theorem headers_first_wins (calls : List HeaderCall) :
    (∀ name, (after calls).getHeaderValue name = earliest name (sinceRemoval name calls)) ∧
    (∀ name, (after calls).headerContains name = true
      ↔ ((after calls).getHeaderValue name).isSome) ∧
    (∀ name, (((after calls).removeHeader name).1 = true
        ↔ ((after calls).getHeaderValue name).isSome) ∧
      ((after calls).removeHeader name).2.getHeaderValue name = none ∧
      ∀ other, other ≠ name → ((after calls).removeHeader name).2.getHeaderValue other
        = (after calls).getHeaderValue other) ∧
    (after calls).headerCount = {name | ((after calls).getHeaderValue name).isSome}.ncard ∧
    (∀ it, WritesEachOnce (after calls).getHeaderValue ((after calls).buildRawHeader it)) ∧
    ∀ calls', (after calls).SameMap (after calls') →
      ∀ (it : (after calls).Iteration) (it' : (after calls').Iteration),
        (it.order.map rawHeaderLine).Perm (it'.order.map rawHeaderLine) := by
  refine ⟨getHeaderValue_after calls, fun name => headerContains_iff, ?_, headerCount_eq_ncard _,
    buildRawHeader_writesEachOnce _, ?_⟩
  · intro name
    refine ⟨?_, ?_, ?_⟩
    · rw [removeHeader_fst]
      exact headerContains_iff
    · rw [getHeaderValue_removeHeader, if_pos rfl]
    · intro other hne
      rw [getHeaderValue_removeHeader, if_neg hne]
  · intro calls' hs it it'
    exact (hs.order_perm it it').map rawHeaderLine

example : (after [.add (str "Host") (str "a"), .add (str "Host") (str "b")]).getHeaderValue (str "Host")
    = some (str "a") := by decide

end HTTPHeaders

/-! ## The two messages forward -/

/-- `addHeader` and `removeHeader` of a request. -/
def HTTPRequestMessage.headerCall (m : HTTPRequestMessage) : HeaderCall → HTTPRequestMessage
  | .add headerName headerValue => m.addHeader headerName headerValue
  | .remove headerName => (m.removeHeader headerName).2

/-- `addHeader` and `removeHeader` of a response. -/
def HTTPResponseMessage.headerCall (m : HTTPResponseMessage) : HeaderCall → HTTPResponseMessage
  | .add headerName headerValue => m.addHeader headerName headerValue
  | .remove headerName => (m.removeHeader headerName).2

/-- A history of header calls on a message is that history on its store. -/
theorem HTTPRequestMessage.httpHeaders_calls (m : HTTPRequestMessage) (calls : List HeaderCall) :
    (calls.foldl headerCall m).httpHeaders = calls.foldl HTTPHeaders.call m.httpHeaders := by
  refine (List.foldl_hom HTTPRequestMessage.httpHeaders ?_).symm
  intro m c
  cases c <;> rfl

theorem HTTPResponseMessage.httpHeaders_calls (m : HTTPResponseMessage) (calls : List HeaderCall) :
    (calls.foldl headerCall m).httpHeaders = calls.foldl HTTPHeaders.call m.httpHeaders := by
  refine (List.foldl_hom HTTPResponseMessage.httpHeaders ?_).symm
  intro m c
  cases c <;> rfl

end Blueth.Http
