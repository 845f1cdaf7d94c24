/-
# Blueth.Utils.Base64Decode — `b64decode` (`utils/Base64.hpp`), and how it undoes `base64_encode`.

The function takes a pointer and a length and trusts the length to be that of a base64 text: it computes
from it how many blocks of four there are, and whether an incomplete one follows (`pad`), and reads. Every
read is modelled with its bound, so `none` is a read behind the end.

* `b64decode_reads_iff`: that happens for the lengths one above a multiple of four, and for no others;
* `b64decode_encode`: decoding undoes encoding, with the `=` at the end or without them;
* `canonical_iff`: the texts that encoding undoes in turn are the ones that `base64_encode` writes.
-/
import Blueth.Utils.Base64
import Mathlib.Algebra.Ring.Nat
import Mathlib.Data.Nat.Bitwise

set_option autoImplicit false

namespace Blueth.Base64

open Blueth.Http (ch str)

/-! ## The function -/

/-- The entries of `B64index` that are written out; behind them all are 0. -/
def b64Entries : List ℕ :=
  [0, 0, 0, 0, 0, 0, 0, 0, 0, 0, 0, 0,
    0, 0, 0, 0, 0, 0, 0, 0, 0, 0, 0, 0, 0, 0, 0, 0, 0, 0, 0, 0,
    0, 0, 0, 0, 0, 0, 0, 0, 0, 0, 0, 62, 63, 62, 62, 63, 52, 53, 54, 55,
    56, 57, 58, 59, 60, 61, 0, 0, 0, 0, 0, 0, 0, 0, 1, 2, 3, 4, 5, 6,
    7, 8, 9, 10, 11, 12, 13, 14, 15, 16, 17, 18, 19, 20, 21, 22, 23, 24, 25, 0,
    0, 0, 0, 63, 0, 26, 27, 28, 29, 30, 31, 32, 33, 34, 35, 36, 37, 38, 39, 40,
    41, 42, 43, 44, 45, 46, 47, 48, 49, 50, 51]

/-- `B64index[c]`. -/
def b64Index (c : UInt8) : ℕ := b64Entries.getD c.toNat 0

/-- The main loop, from index `i` on: four reads, three bytes written. -/
def decodeLoop (p : List UInt8) (i : ℕ) : ℕ → Option (List UInt8)
  | 0 => some []
  | blocks + 1 => do
    let n := b64Index (← p[i]?) <<< 18 ||| b64Index (← p[i + 1]?) <<< 12 |||
      b64Index (← p[i + 2]?) <<< 6 ||| b64Index (← p[i + 3]?)
    let rest ← decodeLoop p (i + 4) blocks
    return UInt8.ofNat (n >>> 16) :: UInt8.ofNat (n >>> 8 &&& 0xFF) :: UInt8.ofNat (n &&& 0xFF) :: rest

/-- `pad`: an incomplete block follows the complete ones. -/
def pad (p : List UInt8) : ℕ :=
  if p.length > 0 ∧ (p.length % 4 ≠ 0 ∨ p.getLast? = some (ch '=')) then 1 else 0

/-- The incomplete block at index `l`: its first byte, and the second if there is one. -/
def decodePadded (p : List UInt8) (l : ℕ) : Option (List UInt8) := do
  let n := b64Index (← p[l]?) <<< 18 ||| b64Index (← p[l + 1]?) <<< 12
  let first := UInt8.ofNat (n >>> 16)
  if p.length > l + 2 then
    let c ← p[l + 2]?
    if c ≠ ch '=' then
      let n := n ||| b64Index c <<< 6
      return [first, UInt8.ofNat (n >>> 8 &&& 0xFF)]
    else return [first]
  else return [first]

/-- `L`: what the complete blocks take up. -/
def whole (p : List UInt8) : ℕ := ((p.length + 3) / 4 - pad p) * 4

/-- `b64decode`. -/
def b64decode (p : List UInt8) : Option (List UInt8) := do
  let l := whole p
  let decoded ← decodeLoop p 0 (l / 4)
  if pad p = 1 then return decoded ++ (← decodePadded p l)
  else return decoded

example : b64decode (str "dXNlcjpwYXNzMQ==") = some (str "user:pass1") := by decide

example : b64decode (str "dXNlcjpwYXNzMQ") = some (str "user:pass1") := by decide

/-! ## Six bits and eight bits -/

section Bits

variable {v₀ v₁ v₂ v₃ : ℕ}

/-- Four times six bits, side by side. -/
theorem pack_eq (h₁ : v₁ < 64) (h₂ : v₂ < 64) (h₃ : v₃ < 64) :
    v₀ <<< 18 ||| v₁ <<< 12 ||| v₂ <<< 6 ||| v₃ = v₀ * 262144 + v₁ * 4096 + v₂ * 64 + v₃ := by
  have e₁ : v₀ <<< 18 ||| v₁ <<< 12 = v₀ <<< 18 + v₁ <<< 12 :=
    (Nat.shiftLeft_add_eq_or_of_lt (by rw [Nat.shiftLeft_eq]; omega) v₀).symm
  have e₂ : (v₀ <<< 18 + v₁ <<< 12) = (v₀ <<< 6 + v₁) <<< 12 := by
    simp only [Nat.shiftLeft_eq]
    omega
  have e₃ : (v₀ <<< 6 + v₁) <<< 12 ||| v₂ <<< 6 = (v₀ <<< 6 + v₁) <<< 12 + v₂ <<< 6 :=
    (Nat.shiftLeft_add_eq_or_of_lt (by rw [Nat.shiftLeft_eq]; omega) _).symm
  have e₄ : (v₀ <<< 6 + v₁) <<< 12 + v₂ <<< 6 = ((v₀ <<< 6 + v₁) <<< 6 + v₂) <<< 6 := by
    simp only [Nat.shiftLeft_eq]
    omega
  rw [e₁, e₂, e₃, e₄, ← Nat.shiftLeft_add_eq_or_of_lt (by omega)]
  simp only [Nat.shiftLeft_eq]
  omega

/-- The three bytes in them. -/
theorem unpack (h₁ : v₁ < 64) (h₂ : v₂ < 64) (h₃ : v₃ < 64) :
    let n := v₀ <<< 18 ||| v₁ <<< 12 ||| v₂ <<< 6 ||| v₃
    n >>> 16 = v₀ * 4 + v₁ / 16 ∧ n >>> 8 &&& 0xFF = v₁ % 16 * 16 + v₂ / 4 ∧
      n &&& 0xFF = v₂ % 4 * 64 + v₃ := by
  intro n
  have hn : n = v₀ * 262144 + v₁ * 4096 + v₂ * 64 + v₃ := pack_eq h₁ h₂ h₃
  have hmask : ∀ k : ℕ, k &&& 0xFF = k % 256 := fun k => Nat.and_two_pow_sub_one_eq_mod k 8
  rw [hmask, hmask, hn, Nat.shiftRight_eq_div_pow, Nat.shiftRight_eq_div_pow]
  omega

end Bits

set_option maxRecDepth 4000 in
/-- The six bits of a digit are found again, and no digit is a `=`. -/
theorem b64Index_getD : ∀ n < 64, b64Index (base64Table.getD n 0) = n ∧ base64Table.getD n 0 ≠ ch '=' := by
  decide

theorem b64Index_digit {v : UInt8} (h : v.toNat < 64) : b64Index (digit v) = v.toNat :=
  (b64Index_getD v.toNat h).1

theorem digit_ne_pad {v : UInt8} (h : v.toNat < 64) : digit v ≠ ch '=' := (b64Index_getD v.toNat h).2

/-! The six bits that `base64_encode` looks up. -/

section Sextets

variable (a b c : UInt8)

theorem toNat_first : (a >>> 2).toNat = a.toNat / 4 := by
  rw [UInt8.toNat_shiftRight, Nat.shiftRight_eq_div_pow]
  rfl

theorem toNat_low_two : ((a &&& 0x03) <<< 4).toNat = a.toNat % 4 * 16 := by
  rw [UInt8.toNat_shiftLeft, UInt8.toNat_and]
  have hmask : a.toNat &&& UInt8.toNat 0x03 = a.toNat % 4 := Nat.and_two_pow_sub_one_eq_mod _ 2
  rw [hmask, Nat.shiftLeft_eq]
  show a.toNat % 4 * 16 % 256 = _
  omega

theorem toNat_second : (((a &&& 0x03) <<< 4) ||| (b >>> 4)).toNat = a.toNat % 4 * 16 + b.toNat / 16 := by
  have hlow : (b >>> 4).toNat = b.toNat / 16 := by
    rw [UInt8.toNat_shiftRight, Nat.shiftRight_eq_div_pow]
    rfl
  have hb := b.toNat_lt
  rw [UInt8.toNat_or, toNat_low_two, hlow, ← Nat.shiftLeft_eq _ 4,
    ← Nat.shiftLeft_add_eq_or_of_lt (by omega), Nat.shiftLeft_eq]

theorem toNat_low_four : ((b &&& 0x0f) <<< 2).toNat = b.toNat % 16 * 4 := by
  rw [UInt8.toNat_shiftLeft, UInt8.toNat_and]
  have hmask : b.toNat &&& UInt8.toNat 0x0f = b.toNat % 16 := Nat.and_two_pow_sub_one_eq_mod _ 4
  rw [hmask, Nat.shiftLeft_eq]
  show b.toNat % 16 * 4 % 256 = _
  omega

theorem toNat_third : (((b &&& 0x0f) <<< 2) ||| (c >>> 6)).toNat = b.toNat % 16 * 4 + c.toNat / 64 := by
  have hlow : (c >>> 6).toNat = c.toNat / 64 := by
    rw [UInt8.toNat_shiftRight, Nat.shiftRight_eq_div_pow]
    rfl
  have hc := c.toNat_lt
  rw [UInt8.toNat_or, toNat_low_four, hlow, ← Nat.shiftLeft_eq _ 2,
    ← Nat.shiftLeft_add_eq_or_of_lt (by omega), Nat.shiftLeft_eq]

theorem toNat_fourth : (c &&& 0x3f).toNat = c.toNat % 64 := by
  rw [UInt8.toNat_and]
  exact Nat.and_two_pow_sub_one_eq_mod _ 6

end Sextets

/-! ## The loop on the list -/

/-- The three bytes of a complete block. -/
def quadBytes (c₀ c₁ c₂ c₃ : UInt8) : List UInt8 :=
  let n := b64Index c₀ <<< 18 ||| b64Index c₁ <<< 12 ||| b64Index c₂ <<< 6 ||| b64Index c₃
  [UInt8.ofNat (n >>> 16), UInt8.ofNat (n >>> 8 &&& 0xFF), UInt8.ofNat (n &&& 0xFF)]

/-- The bytes of all complete blocks. -/
def decodeQuads : List UInt8 → List UInt8
  | c₀ :: c₁ :: c₂ :: c₃ :: rest => quadBytes c₀ c₁ c₂ c₃ ++ decodeQuads rest
  | _ => []

/-- The bytes of an incomplete block. -/
def tailBytes : List UInt8 → List UInt8
  | c₀ :: c₁ :: rest =>
    let n := b64Index c₀ <<< 18 ||| b64Index c₁ <<< 12
    match rest with
    | [] => [UInt8.ofNat (n >>> 16)]
    | c₂ :: _ =>
      if c₂ ≠ ch '=' then
        [UInt8.ofNat (n >>> 16), UInt8.ofNat ((n ||| b64Index c₂ <<< 6) >>> 8 &&& 0xFF)]
      else [UInt8.ofNat (n >>> 16)]
  | _ => []

section Loop

variable {p body tail : List UInt8} {i blocks : ℕ}

/-- Whole blocks from `i` on are read, or the loop leaves the text. -/
theorem decodeLoop_eq (p : List UInt8) (i blocks : ℕ) (h : i + 4 * blocks ≤ p.length) :
    decodeLoop p i blocks = some (decodeQuads ((p.drop i).take (4 * blocks))) := by
  induction blocks generalizing i with
  | zero => rfl
  | succ blocks ih =>
      have hdrop : p.drop i = p[i] :: p[i + 1] :: p[i + 2] :: p[i + 3] :: p.drop (i + 4) := by
        rw [List.drop_eq_getElem_cons (i := i) (by omega), List.drop_eq_getElem_cons (i := i + 1) (by omega),
          List.drop_eq_getElem_cons (i := i + 2) (by omega), List.drop_eq_getElem_cons (i := i + 3) (by omega)]
      have htake : 4 * (blocks + 1) = 4 * blocks + 4 := by omega
      rw [decodeLoop, hdrop, htake, List.getElem?_eq_getElem (by omega), List.getElem?_eq_getElem (by omega),
        List.getElem?_eq_getElem (by omega), List.getElem?_eq_getElem (by omega), ih (i + 4) (by omega)]
      rfl

theorem decodePadded_eq (p : List UInt8) (l : ℕ) (h : l + 2 ≤ p.length) :
    decodePadded p l = some (tailBytes (p.drop l)) := by
  have hdrop : p.drop l = p[l] :: p[l + 1] :: p.drop (l + 2) := by
    rw [List.drop_eq_getElem_cons (i := l) (by omega), List.drop_eq_getElem_cons (i := l + 1) (by omega)]
  rw [decodePadded, hdrop, List.getElem?_eq_getElem (by omega), List.getElem?_eq_getElem (by omega)]
  by_cases hlen : p.length > l + 2
  · rw [List.drop_eq_getElem_cons hlen, List.getElem?_eq_getElem hlen]
    simp only [Option.bind_eq_bind, Option.bind_some, if_pos hlen, tailBytes]
    split_ifs <;> rfl
  · rw [List.drop_eq_nil_of_le (by omega)]
    simp only [Option.bind_eq_bind, Option.bind_some, if_neg hlen, tailBytes]
    rfl

/-- How a text divides: all of it is complete blocks; or the last block ends in a `=`; or the last block
is short. -/
theorem whole_cases (p : List UInt8) :
    (pad p = 0 ∧ whole p = p.length ∧ p.length % 4 = 0) ∨
      (pad p = 1 ∧ whole p + 4 = p.length ∧ p.length % 4 = 0) ∨
      (pad p = 1 ∧ whole p + p.length % 4 = p.length ∧ p.length % 4 ≠ 0) := by
  unfold whole pad
  split_ifs with h
  · by_cases hmod : p.length % 4 = 0
    · refine .inr (.inl ⟨rfl, ?_, hmod⟩)
      omega
    · refine .inr (.inr ⟨rfl, ?_, hmod⟩)
      omega
  · refine .inl ⟨rfl, ?_, ?_⟩
    · by_cases hlen : p.length > 0
      · have hmod : p.length % 4 = 0 := by
          by_contra hmod
          exact h ⟨hlen, .inl hmod⟩
        omega
      · omega
    · by_contra hmod
      exact h ⟨by omega, .inl hmod⟩

/-- **What `b64decode` computes.** -/
theorem b64decode_eq (p : List UInt8) :
    b64decode p =
      if p.length % 4 = 1 then none
      else some (decodeQuads (p.take (whole p)) ++ tailBytes (p.drop (whole p))) := by
  have hloop : decodeLoop p 0 (whole p / 4) = some (decodeQuads (p.take (whole p))) := by
    have hfour : 4 * (whole p / 4) = whole p := by
      unfold whole
      omega
    have hle : whole p ≤ p.length := by
      rcases whole_cases p with h | h | h <;> omega
    rw [decodeLoop_eq p 0 _ (by omega), List.drop_zero, hfour]
  unfold b64decode
  simp only [hloop, Option.bind_eq_bind, Option.bind_some]
  rcases whole_cases p with ⟨hpad, hwhole, hmod⟩ | ⟨hpad, hwhole, hmod⟩ | ⟨hpad, hwhole, hmod⟩
  · rw [if_neg (by omega), if_neg (by omega), hwhole, List.drop_length]
    simp [tailBytes]
  · rw [if_pos hpad, if_neg (by omega), decodePadded_eq p _ (by omega)]
    rfl
  · rw [if_pos hpad]
    by_cases hone : p.length % 4 = 1
    · -- one character is left, and two are read
      have hbehind : p[whole p + 1]? = none := List.getElem?_eq_none (by omega)
      rw [if_pos hone, decodePadded, hbehind]
      cases p[whole p]? <;> rfl
    · rw [if_neg hone, decodePadded_eq p _ (by omega)]
      rfl

/-- **The reads stay inside the text** unless its length is one above a multiple of four. -/
theorem b64decode_reads_iff (p : List UInt8) : (b64decode p).isSome ↔ p.length % 4 ≠ 1 := by
  rw [b64decode_eq]
  split_ifs with h
  · simp [h]
  · simp [h]

/-- Complete blocks, and behind them an incomplete one. -/
theorem b64decode_append (hbody : body.length % 4 = 0)
    (htail : tail.length = 2 ∨ tail.length = 3 ∨ (tail.length = 4 ∧ tail.getLast? = some (ch '='))) :
    b64decode (body ++ tail) = some (decodeQuads body ++ tailBytes tail) := by
  have hlen : (body ++ tail).length = body.length + tail.length := List.length_append
  have hlast : (body ++ tail).getLast? = tail.getLast? := by
    refine List.getLast?_append_of_ne_nil body ?_
    rintro rfl
    simp at htail
  have hpad : pad (body ++ tail) = 1 := by
    unfold pad
    rw [hlast]
    rcases htail with h | h | ⟨h, heq⟩
    · exact if_pos ⟨by omega, .inl (by omega)⟩
    · exact if_pos ⟨by omega, .inl (by omega)⟩
    · exact if_pos ⟨by omega, .inr heq⟩
  have hwhole : whole (body ++ tail) = body.length := by
    unfold whole
    rw [hpad]
    omega
  rw [b64decode_eq, if_neg (by omega), hwhole, List.take_left, List.drop_left]

/-- Complete blocks only. -/
theorem b64decode_whole (hbody : body.length % 4 = 0) (hlast : body.getLast? ≠ some (ch '=')) :
    b64decode body = some (decodeQuads body) := by
  have hwhole : whole body = body.length := by
    unfold whole pad
    rw [if_neg (by simp [hbody, hlast])]
    omega
  rw [b64decode_eq, if_neg (by omega), hwhole, List.take_length, List.drop_length]
  simp [tailBytes]

end Loop

/-! ## Decoding undoes encoding -/

section RoundTrip

variable {c₀ c₁ c₂ c₃ : UInt8} {v₀ v₁ v₂ v₃ : ℕ}

theorem quadBytes_eq (h₀ : b64Index c₀ = v₀) (h₁ : b64Index c₁ = v₁) (h₂ : b64Index c₂ = v₂)
    (h₃ : b64Index c₃ = v₃) (l₁ : v₁ < 64) (l₂ : v₂ < 64) (l₃ : v₃ < 64) :
    quadBytes c₀ c₁ c₂ c₃ =
      [UInt8.ofNat (v₀ * 4 + v₁ / 16), UInt8.ofNat (v₁ % 16 * 16 + v₂ / 4), UInt8.ofNat (v₂ % 4 * 64 + v₃)] := by
  obtain ⟨e₁, e₂, e₃⟩ := @unpack v₀ v₁ v₂ v₃ l₁ l₂ l₃
  simp only [quadBytes, h₀, h₁, h₂, h₃, e₁, e₂, e₃]

/-- The first byte of an incomplete block. -/
theorem pack_two (l₁ : v₁ < 64) : (v₀ <<< 18 ||| v₁ <<< 12) >>> 16 = v₀ * 4 + v₁ / 16 := by
  have h := (@unpack v₀ v₁ 0 0 l₁ (by omega) (by omega)).1
  simpa using h

/-- Its second byte. -/
theorem pack_three (l₁ : v₁ < 64) (l₂ : v₂ < 64) :
    (v₀ <<< 18 ||| v₁ <<< 12 ||| v₂ <<< 6) >>> 8 &&& 0xFF = v₁ % 16 * 16 + v₂ / 4 := by
  have h := (@unpack v₀ v₁ v₂ 0 l₁ l₂ (by omega)).2.1
  simpa using h

/-- Two characters, whatever follows them as long as it is not a digit. -/
theorem tailBytes_two (h₀ : b64Index c₀ = v₀) (h₁ : b64Index c₁ = v₁) (l₁ : v₁ < 64) {rest : List UInt8}
    (hrest : rest.head? = none ∨ rest.head? = some (ch '=')) :
    tailBytes (c₀ :: c₁ :: rest) = [UInt8.ofNat (v₀ * 4 + v₁ / 16)] := by
  cases rest with
  | nil => simp only [tailBytes, h₀, h₁, pack_two l₁]
  | cons c rest =>
      have hc : c = ch '=' := by simpa using hrest
      simp only [tailBytes, h₀, h₁, pack_two l₁, hc, ne_eq, not_true_eq_false, if_false]

theorem tailBytes_three (h₀ : b64Index c₀ = v₀) (h₁ : b64Index c₁ = v₁) (h₂ : b64Index c₂ = v₂)
    (l₁ : v₁ < 64) (l₂ : v₂ < 64) (hc : c₂ ≠ ch '=') (rest : List UInt8) :
    tailBytes (c₀ :: c₁ :: c₂ :: rest) =
      [UInt8.ofNat (v₀ * 4 + v₁ / 16), UInt8.ofNat (v₁ % 16 * 16 + v₂ / 4)] := by
  simp only [tailBytes, h₀, h₁, h₂, pack_two l₁, pack_three l₁ l₂, if_pos hc]

/-! The digits of bytes. -/

theorem b64Index_first (a : UInt8) : b64Index (digit (a >>> 2)) = a.toNat / 4 := by
  have ha := a.toNat_lt
  rw [b64Index_digit (by rw [toNat_first]; omega), toNat_first]

theorem b64Index_low_two (a : UInt8) : b64Index (digit ((a &&& 0x03) <<< 4)) = a.toNat % 4 * 16 := by
  rw [b64Index_digit (by rw [toNat_low_two]; omega), toNat_low_two]

theorem b64Index_second (a b : UInt8) :
    b64Index (digit (((a &&& 0x03) <<< 4) ||| (b >>> 4))) = a.toNat % 4 * 16 + b.toNat / 16 := by
  have hb := b.toNat_lt
  rw [b64Index_digit (by rw [toNat_second]; omega), toNat_second]

theorem b64Index_low_four (b : UInt8) : b64Index (digit ((b &&& 0x0f) <<< 2)) = b.toNat % 16 * 4 := by
  rw [b64Index_digit (by rw [toNat_low_four]; omega), toNat_low_four]

theorem b64Index_third (b c : UInt8) :
    b64Index (digit (((b &&& 0x0f) <<< 2) ||| (c >>> 6))) = b.toNat % 16 * 4 + c.toNat / 64 := by
  have hc := c.toNat_lt
  rw [b64Index_digit (by rw [toNat_third]; omega), toNat_third]

theorem b64Index_fourth (c : UInt8) : b64Index (digit (c &&& 0x3f)) = c.toNat % 64 := by
  rw [b64Index_digit (by rw [toNat_fourth]; omega), toNat_fourth]

theorem ofNat_eq {a : UInt8} {n : ℕ} (h : n = a.toNat) : UInt8.ofNat n = a := by
  rw [h, UInt8.ofNat_toNat]

/-- Four digits of three bytes give them back. -/
theorem quadBytes_encode (a b c : UInt8) :
    quadBytes (digit (a >>> 2)) (digit (((a &&& 0x03) <<< 4) ||| (b >>> 4)))
      (digit (((b &&& 0x0f) <<< 2) ||| (c >>> 6))) (digit (c &&& 0x3f)) = [a, b, c] := by
  have hb := b.toNat_lt
  have hc := c.toNat_lt
  rw [quadBytes_eq (b64Index_first a) (b64Index_second a b) (b64Index_third b c) (b64Index_fourth c)
    (by omega) (by omega) (by omega), ofNat_eq (a := a) (by omega), ofNat_eq (a := b) (by omega),
    ofNat_eq (a := c) (by omega)]

/-- Whole blocks, three bytes each. -/
theorem decodeQuads_encodeBlocks {full : List UInt8} (h : full.length % 3 = 0) :
    decodeQuads (encodeBlocks full) = full := by
  induction full using encodeBlocks.induct with
  | case1 a b c rest ih =>
      rw [encodeBlocks, decodeQuads, quadBytes_encode, ih (by simp only [List.length_cons] at h; omega)]
      rfl
  | case2 a b => simp at h
  | case3 a => simp at h
  | case4 => rfl

theorem encodeBlocks_append {full : List UInt8} (h : full.length % 3 = 0) (rest : List UInt8) :
    encodeBlocks (full ++ rest) = encodeBlocks full ++ encodeBlocks rest := by
  induction full using encodeBlocks.induct with
  | case1 a b c full ih =>
      simp only [List.cons_append, encodeBlocks, ih (by simp only [List.length_cons] at h; omega)]
  | case2 a b => simp at h
  | case3 a => simp at h
  | case4 => rfl

/-- What is written for whole blocks contains no `=`. -/
theorem pad_notMem_encodeBlocks {full : List UInt8} (h : full.length % 3 = 0) :
    ch '=' ∉ encodeBlocks full := by
  induction full using encodeBlocks.induct with
  | case1 a b c full ih =>
      have ha := a.toNat_lt
      have hb := b.toNat_lt
      have hc := c.toNat_lt
      simp only [encodeBlocks, List.mem_cons, not_or]
      refine ⟨?_, ?_, ?_, ?_, ih (by simp only [List.length_cons] at h; omega)⟩
      · exact (digit_ne_pad (by rw [toNat_first]; omega)).symm
      · exact (digit_ne_pad (by rw [toNat_second]; omega)).symm
      · exact (digit_ne_pad (by rw [toNat_third]; omega)).symm
      · exact (digit_ne_pad (by rw [toNat_fourth]; omega)).symm
  | case2 a b => simp at h
  | case3 a => simp at h
  | case4 => exact List.not_mem_nil

/-- Taking `=` away from the end of a text takes away its padding. -/
theorem strip_pads {body t : List UInt8} {k m : ℕ} (hbody : body.getLast? ≠ some (ch '='))
    (h : t ++ List.replicate k (ch '=') = body ++ List.replicate m (ch '=')) :
    k ≤ m ∧ t = body ++ List.replicate (m - k) (ch '=') := by
  induction k generalizing m with
  | zero => exact ⟨Nat.zero_le m, by simpa using h⟩
  | succ k ih =>
      cases m with
      | zero =>
          rw [List.replicate_zero, List.append_nil, List.replicate_succ', ← List.append_assoc] at h
          rw [← h] at hbody
          simp at hbody
      | succ m =>
          rw [List.replicate_succ', List.replicate_succ', ← List.append_assoc, ← List.append_assoc] at h
          obtain ⟨hle, ht⟩ := ih (List.append_cancel_right h)
          refine ⟨Nat.succ_le_succ hle, ?_⟩
          rw [ht, Nat.succ_sub_succ]

/-- One byte left over. -/
theorem b64decode_one {full t : List UInt8} {a : UInt8} {k : ℕ} (hfull : full.length % 3 = 0)
    (h : t ++ List.replicate k (ch '=') = encodeBlocks (full ++ [a])) : b64decode t = some (full ++ [a]) := by
  have ha := a.toNat_lt
  have hpads : t ++ List.replicate k (ch '=') = (encodeBlocks full ++
      [digit (a >>> 2), digit ((a &&& 0x03) <<< 4)]) ++ List.replicate 2 (ch '=') := by
    rw [h, encodeBlocks_append hfull, List.append_assoc]
    rfl
  obtain ⟨hk, rfl⟩ := strip_pads (by
    simpa using digit_ne_pad (toNat_low_two a ▸ (by omega : a.toNat % 4 * 16 < 64))) hpads
  have hbody : (encodeBlocks full).length % 4 = 0 := by
    rw [length_encodeBlocks]
    omega
  rw [List.append_assoc, b64decode_append hbody, decodeQuads_encodeBlocks hfull, List.cons_append,
    List.cons_append, List.nil_append, tailBytes_two (b64Index_first a) (b64Index_low_two a) (by omega),
    ofNat_eq (a := a) (by omega)]
  · cases 2 - k with
    | zero => exact .inl rfl
    | succ n => exact .inr rfl
  · obtain rfl | rfl | rfl : k = 0 ∨ k = 1 ∨ k = 2 := by omega
    · exact .inr (.inr ⟨rfl, rfl⟩)
    · exact .inr (.inl rfl)
    · exact .inl rfl

/-- Two bytes left over. -/
theorem b64decode_two {full t : List UInt8} {a b : UInt8} {k : ℕ} (hfull : full.length % 3 = 0)
    (h : t ++ List.replicate k (ch '=') = encodeBlocks (full ++ [a, b])) :
    b64decode t = some (full ++ [a, b]) := by
  have hb := b.toNat_lt
  have hdigit := digit_ne_pad (toNat_low_four b ▸ (by omega : b.toNat % 16 * 4 < 64))
  have hpads : t ++ List.replicate k (ch '=') = (encodeBlocks full ++ [digit (a >>> 2),
      digit (((a &&& 0x03) <<< 4) ||| (b >>> 4)), digit ((b &&& 0x0f) <<< 2)]) ++
      List.replicate 1 (ch '=') := by
    rw [h, encodeBlocks_append hfull, List.append_assoc]
    rfl
  obtain ⟨hk, rfl⟩ := strip_pads (by simpa using hdigit) hpads
  have hbody : (encodeBlocks full).length % 4 = 0 := by
    rw [length_encodeBlocks]
    omega
  rw [List.append_assoc, b64decode_append hbody, decodeQuads_encodeBlocks hfull, List.cons_append,
    List.cons_append, List.cons_append, List.nil_append, tailBytes_three (b64Index_first a)
    (b64Index_second a b) (b64Index_low_four b) (by omega) (by omega) hdigit, ofNat_eq (a := a) (by omega),
    ofNat_eq (a := b) (by omega)]
  obtain rfl | rfl : k = 0 ∨ k = 1 := by omega
  · exact .inr (.inr ⟨rfl, rfl⟩)
  · exact .inr (.inl rfl)

/-- The blocks, with as many of the `=` behind them as one likes. -/
theorem b64decode_encodeBlocks {src t : List UInt8} {k : ℕ}
    (h : t ++ List.replicate k (ch '=') = encodeBlocks src) : b64decode t = some src := by
  obtain ⟨full, rest, rfl, hfull, hrest⟩ :
      ∃ full rest, src = full ++ rest ∧ full.length % 3 = 0 ∧ rest.length < 3 := by
    refine ⟨src.take (3 * (src.length / 3)), src.drop (3 * (src.length / 3)),
      (List.take_append_drop ..).symm, ?_, ?_⟩
    · rw [List.length_take]
      omega
    · rw [List.length_drop]
      omega
  match rest, hrest with
  | [], _ =>
      rw [List.append_nil] at h ⊢
      have hlast : (encodeBlocks full).getLast? ≠ some (ch '=') := fun hl =>
        pad_notMem_encodeBlocks hfull (List.mem_of_getLast? hl)
      obtain ⟨hk, rfl⟩ := strip_pads (m := 0) hlast (by simpa using h)
      rw [Nat.zero_sub, List.replicate_zero, List.append_nil, b64decode_whole _ hlast,
        decodeQuads_encodeBlocks hfull]
      rw [length_encodeBlocks]
      omega
  | [a], _ => exact b64decode_one hfull h
  | [a, b], _ => exact b64decode_two hfull h

/-- No object is as long as `PTRDIFF_MAX`, so the size does not wrap. -/
theorem base64Encode_eq {src : List UInt8} (h : src.length < 2 ^ 63) : base64Encode src = encodeBlocks src := by
  unfold base64Encode
  refine if_neg ?_
  rw [UInt64.lt_iff_toNat_lt, UInt64.toNat_mul, UInt64.toNat_div, UInt64.toNat_add, UInt64.toNat_ofNat']
  have e₄ : UInt64.toNat 4 = 4 := rfl
  have e₃ : UInt64.toNat 3 = 3 := rfl
  have e₂ : UInt64.toNat 2 = 2 := rfl
  rw [e₄, e₃, e₂]
  omega

/-- **Decoding undoes encoding**, whether the `=` at the end are all there or not. -/
theorem b64decode_encode {src t : List UInt8} {k : ℕ} (hsrc : src.length < 2 ^ 63)
    (h : t ++ List.replicate k (ch '=') = base64Encode src) : b64decode t = some src :=
  b64decode_encodeBlocks (base64Encode_eq hsrc ▸ h)

theorem b64decode_encode_stripped : b64decode (str "dXNlcjpwYXNzMQ=") = some (str "user:pass1") :=
  b64decode_encode (k := 1) (by decide) (by decide)

end RoundTrip

/-! ## Encoding undoes decoding -/

/-- **A text that `base64_encode` writes**: digits in fours, and at the end perhaps an incomplete block,
whose padding stands for bits that are zero. -/
inductive Canonical : List UInt8 → Prop
  | nil : Canonical []
  | one {c₀ c₁ : UInt8} (h₀ : c₀ ∈ base64Table) (h₁ : c₁ ∈ base64Table) (hzero : b64Index c₁ % 16 = 0) :
      Canonical [c₀, c₁, ch '=', ch '=']
  | two {c₀ c₁ c₂ : UInt8} (h₀ : c₀ ∈ base64Table) (h₁ : c₁ ∈ base64Table) (h₂ : c₂ ∈ base64Table)
      (hzero : b64Index c₂ % 4 = 0) : Canonical [c₀, c₁, c₂, ch '=']
  | four {c₀ c₁ c₂ c₃ : UInt8} {rest : List UInt8} (h₀ : c₀ ∈ base64Table) (h₁ : c₁ ∈ base64Table)
      (h₂ : c₂ ∈ base64Table) (h₃ : c₃ ∈ base64Table) (hrest : Canonical rest) :
      Canonical (c₀ :: c₁ :: c₂ :: c₃ :: rest)

section Canonical

variable {c c₀ c₁ c₂ c₃ u : UInt8} {n : ℕ}

theorem digit_mem (h : u.toNat < 64) : digit u ∈ base64Table := by
  have hlen : base64Table.length = 64 := by decide
  unfold digit
  rw [List.getD_eq_getElem _ _ (by omega)]
  exact List.getElem_mem _

set_option maxRecDepth 4000 in
/-- Every character of the table is the digit of its index. -/
theorem getD_b64Index (h : c ∈ base64Table) : b64Index c < 64 ∧ base64Table.getD (b64Index c) 0 = c := by
  have hall : (base64Table.all fun c => b64Index c < 64 && base64Table.getD (b64Index c) 0 == c) = true := by
    decide
  simpa using List.all_eq_true.mp hall c h

theorem digit_eq (hc : c ∈ base64Table) (hu : u.toNat = b64Index c) : digit u = c := by
  unfold digit
  rw [hu]
  exact (getD_b64Index hc).2

theorem toNat_ofNat (h : n < 256) : (UInt8.ofNat n).toNat = n := by
  rw [UInt8.toNat_ofNat']
  exact Nat.mod_eq_of_lt h

/-- The text of any bytes is canonical. -/
theorem canonical_encodeBlocks (src : List UInt8) : Canonical (encodeBlocks src) := by
  induction src using encodeBlocks.induct with
  | case1 a b c rest ih =>
      have ha := a.toNat_lt
      have hb := b.toNat_lt
      have hc := c.toNat_lt
      refine .four (digit_mem ?_) (digit_mem ?_) (digit_mem ?_) (digit_mem ?_) ih
      · rw [toNat_first]
        omega
      · rw [toNat_second]
        omega
      · rw [toNat_third]
        omega
      · rw [toNat_fourth]
        omega
  | case2 a b =>
      have ha := a.toNat_lt
      have hb := b.toNat_lt
      refine .two (digit_mem ?_) (digit_mem ?_) (digit_mem ?_) ?_
      · rw [toNat_first]
        omega
      · rw [toNat_second]
        omega
      · rw [toNat_low_four]
        omega
      · rw [b64Index_low_four]
        omega
  | case3 a =>
      have ha := a.toNat_lt
      refine .one (digit_mem ?_) (digit_mem ?_) ?_
      · rw [toNat_first]
        omega
      · rw [toNat_low_two]
        omega
      · rw [b64Index_low_two]
        omega
  | case4 => exact .nil

/-- Nothing but digits and padding is written. -/
theorem Canonical.mem {t : List UInt8} (h : Canonical t) (hc : c ∈ t) : c ∈ base64Table ∨ c = ch '=' := by
  induction h with
  | nil => cases hc
  | one h₀ h₁ _ =>
      simp only [List.mem_cons, List.not_mem_nil, or_false] at hc
      rcases hc with rfl | rfl | rfl | rfl
      · exact .inl h₀
      · exact .inl h₁
      · exact .inr rfl
      · exact .inr rfl
  | two h₀ h₁ h₂ _ =>
      simp only [List.mem_cons, List.not_mem_nil, or_false] at hc
      rcases hc with rfl | rfl | rfl | rfl
      · exact .inl h₀
      · exact .inl h₁
      · exact .inl h₂
      · exact .inr rfl
  | four h₀ h₁ h₂ h₃ _ ih =>
      simp only [List.mem_cons] at hc
      rcases hc with rfl | rfl | rfl | rfl | hc
      · exact .inl h₀
      · exact .inl h₁
      · exact .inl h₂
      · exact .inl h₃
      · exact ih hc

/-- A canonical text is the text of some bytes. -/
theorem Canonical.exists_encodeBlocks {t : List UInt8} (h : Canonical t) : ∃ x, encodeBlocks x = t := by
  induction h with
  | nil => exact ⟨[], rfl⟩
  | @one c₀ c₁ h₀ h₁ hzero =>
      have l₀ := (getD_b64Index h₀).1
      have l₁ := (getD_b64Index h₁).1
      refine ⟨[UInt8.ofNat (b64Index c₀ * 4 + b64Index c₁ / 16)], ?_⟩
      have ha := toNat_ofNat (by omega : b64Index c₀ * 4 + b64Index c₁ / 16 < 256)
      rw [encodeBlocks, digit_eq h₀ (by rw [toNat_first, ha]; omega),
        digit_eq h₁ (by rw [toNat_low_two, ha]; omega)]
  | @two c₀ c₁ c₂ h₀ h₁ h₂ hzero =>
      have l₀ := (getD_b64Index h₀).1
      have l₁ := (getD_b64Index h₁).1
      have l₂ := (getD_b64Index h₂).1
      refine ⟨[UInt8.ofNat (b64Index c₀ * 4 + b64Index c₁ / 16),
        UInt8.ofNat (b64Index c₁ % 16 * 16 + b64Index c₂ / 4)], ?_⟩
      have ha := toNat_ofNat (by omega : b64Index c₀ * 4 + b64Index c₁ / 16 < 256)
      have hb := toNat_ofNat (by omega : b64Index c₁ % 16 * 16 + b64Index c₂ / 4 < 256)
      rw [encodeBlocks, digit_eq h₀ (by rw [toNat_first, ha]; omega),
        digit_eq h₁ (by rw [toNat_second, ha, hb]; omega), digit_eq h₂ (by rw [toNat_low_four, hb]; omega)]
  | @four c₀ c₁ c₂ c₃ rest h₀ h₁ h₂ h₃ _ ih =>
      obtain ⟨x, rfl⟩ := ih
      have l₀ := (getD_b64Index h₀).1
      have l₁ := (getD_b64Index h₁).1
      have l₂ := (getD_b64Index h₂).1
      have l₃ := (getD_b64Index h₃).1
      refine ⟨UInt8.ofNat (b64Index c₀ * 4 + b64Index c₁ / 16) ::
        UInt8.ofNat (b64Index c₁ % 16 * 16 + b64Index c₂ / 4) ::
        UInt8.ofNat (b64Index c₂ % 4 * 64 + b64Index c₃) :: x, ?_⟩
      have ha := toNat_ofNat (by omega : b64Index c₀ * 4 + b64Index c₁ / 16 < 256)
      have hb := toNat_ofNat (by omega : b64Index c₁ % 16 * 16 + b64Index c₂ / 4 < 256)
      have hc := toNat_ofNat (by omega : b64Index c₂ % 4 * 64 + b64Index c₃ < 256)
      rw [encodeBlocks, digit_eq h₀ (by rw [toNat_first, ha]; omega),
        digit_eq h₁ (by rw [toNat_second, ha, hb]; omega), digit_eq h₂ (by rw [toNat_third, hb, hc]; omega),
        digit_eq h₃ (by rw [toNat_fourth, hc]; omega)]

/-- **Encoding undoes decoding exactly on the canonical texts**, so the two functions are inverse to each
other between byte strings and these. -/
theorem canonical_iff {t : List UInt8} (ht : t.length < 2 ^ 63) :
    Canonical t ↔ ∃ x, b64decode t = some x ∧ base64Encode x = t := by
  have hsmall : ∀ x, encodeBlocks x = t → x.length < 2 ^ 63 := by
    intro x hx
    have hlen := length_encodeBlocks x
    rw [hx] at hlen
    omega
  constructor
  · intro h
    obtain ⟨x, hx⟩ := h.exists_encodeBlocks
    refine ⟨x, b64decode_encodeBlocks (k := 0) (by simp [hx]), ?_⟩
    rw [base64Encode_eq (hsmall x hx), hx]
  · rintro ⟨x, -, hx⟩
    unfold base64Encode at hx
    dsimp only at hx
    split_ifs at hx
    · exact hx ▸ .nil
    · exact hx ▸ canonical_encodeBlocks x

theorem canonical_iff_credentials :
    Canonical (str "dXNlcg==") ↔ ∃ x, b64decode (str "dXNlcg==") = some x ∧ base64Encode x = str "dXNlcg==" :=
  canonical_iff (by decide)

end Canonical

end Blueth.Base64
