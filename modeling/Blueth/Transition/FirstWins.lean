/-
# Blueth.Transition.FirstWins — finite maps whose insertion never overwrites, over histories of calls.

A history is a list of `add key value` and `remove key`. Two ways to say what a key maps to after it:

* OPERATIONALLY, `content`: each call acts on the map, an `add` only where the key is still free;
* DECLARATIVELY, `earliest key (sinceRemoval key calls)`: cut the history after its last removal of the
  key and take the first value added for it in what is left.

`content_eq` is their agreement, by induction on the history from its END: the last call is either the
removal that cuts everything before it away, or one more candidate behind the earlier ones.
-/
import Mathlib.Data.List.Induction
import Mathlib.Tactic.Common

set_option autoImplicit false

namespace Blueth.Transition

/-- A call on such a map. -/
inductive MapCall (K V : Type*)
  | add (key : K) (value : V)
  | remove (key : K)
  deriving DecidableEq, Repr

namespace MapCall

variable {K V : Type*} [DecidableEq K]

/-- What a call makes of the map. -/
def act (m : K → Option V) : MapCall K V → K → Option V
  | add key value => fun k => (m k).or (if k = key then some value else none)
  | remove key => fun k => if k = key then none else m k

/-- The map after a history, from the empty one. -/
def content (calls : List (MapCall K V)) : K → Option V := calls.foldl act fun _ => none

/-- The call removes this key. -/
def removes (key : K) : MapCall K V → Bool
  | add _ _ => false
  | remove k => k = key

/-- The value the call adds for this key. -/
def added (key : K) : MapCall K V → Option V
  | add k value => if key = k then some value else none
  | remove _ => none

/-- The calls after the last removal of `key`. -/
def sinceRemoval (key : K) (calls : List (MapCall K V)) : List (MapCall K V) :=
  (calls.reverse.takeWhile fun c => !removes key c).reverse

/-- The first value the calls add for `key`. -/
def earliest (key : K) (calls : List (MapCall K V)) : Option V := calls.findSome? (added key)

variable {key : K} {calls : List (MapCall K V)} {c : MapCall K V}

@[simp] theorem content_nil : content ([] : List (MapCall K V)) = fun _ => none := rfl

theorem content_concat : content (calls ++ [c]) = act (content calls) c := by
  simp [content]

theorem sinceRemoval_concat_removes (h : removes key c = true) :
    sinceRemoval key (calls ++ [c]) = [] := by
  simp [sinceRemoval, h]

theorem sinceRemoval_concat_keeps (h : removes key c = false) :
    sinceRemoval key (calls ++ [c]) = sinceRemoval key calls ++ [c] := by
  simp [sinceRemoval, h]

theorem earliest_concat : earliest key (calls ++ [c]) = (earliest key calls).or (added key c) := by
  rw [earliest, List.findSome?_append, List.findSome?_singleton]
  rfl

/-- A call that does not remove the key offers its value behind what is there. -/
theorem act_keeps {m : K → Option V} (h : removes key c = false) :
    act m c key = (m key).or (added key c) := by
  cases c with
  | add k value => rfl
  | remove k =>
      have hne : key ≠ k := by
        intro e
        simp [removes, e] at h
      simp [act, added, hne]

theorem act_removes {m : K → Option V} (h : removes key c = true) : act m c key = none := by
  cases c with
  | add k value => simp [removes] at h
  | remove k =>
      have hk : k = key := by simpa [removes] using h
      simp [act, hk]

/-- **First wins, since the last removal.** -/
theorem content_eq (calls : List (MapCall K V)) (key : K) :
    content calls key = earliest key (sinceRemoval key calls) := by
  induction calls using List.reverseRecOn with
  | nil => rfl
  | append_singleton calls c ih =>
      rw [content_concat]
      cases h : removes key c with
      | true =>
          rw [act_removes h, sinceRemoval_concat_removes h]
          rfl
      | false => rw [act_keeps h, sinceRemoval_concat_keeps h, earliest_concat, ih]

/-- A store that answers lookups like a map and whose calls act like the map's holds, after any
history, what the map holds. -/
theorem content_of_simulation {σ : Type*} (look : σ → K → Option V) (call : σ → MapCall K V → σ)
    (empty : σ) (hempty : ∀ k, look empty k = none) (hcall : ∀ s c, look (call s c) = act (look s) c)
    (calls : List (MapCall K V)) : look (calls.foldl call empty) = content calls := by
  induction calls using List.reverseRecOn with
  | nil => exact funext hempty
  | append_singleton calls c ih =>
      rw [List.foldl_append, List.foldl_cons, List.foldl_nil, hcall, ih, content_concat]

end MapCall

end Blueth.Transition
