/-
# Blueth.Codec.LineBasedFrameDecoder — `LineBasedFrameDecoder` (`codec/LineBasedFrameDecoder.hpp`).

The function takes two pointers and appends a `string_view` for each frame it finds between them. Its two
loops (`goto FIND_IT_AGAIN_CR`, `goto FIND_IT_AGAIN_LF`) search the next `'\r'` or `'\n'`, look at a byte
beside it, and go on behind the terminator. One time around is a `Round`; a read of memory that may not be
read is a fault, which is what `none` stands for in `crRound` and `lfRound`.

What the code computes, taken literally:

* the length of a frame is `cr - begin - 1`, one LESS than the bytes before the terminator, as a `size_t`:
  a frame before which nothing stands gets the length `2 ^ 64 - 1`;
* the search goes on at `begin + length + 3`, two bytes behind the byte found;
* the CR loop reads the byte BEHIND the one found, also when that is the byte at `end`;
* the LF loop reads the byte BEFORE the one found, also when that is the byte before `begin`. The byte
  behind it is never read: `*lf != '\n' && …` is false for the byte that was searched.
-/
import Mathlib.Algebra.Ring.Nat
import Blueth.Scan.Cuts
import Blueth.Scan.Machine
import Blueth.Utils.Simd

set_option autoImplicit false

namespace Blueth.Codec

open Blueth.Scan Blueth.Simd

/-! ## The function -/

inductive TerminatorType where
  /-- `\r\n` -/
  | carriageReturnNewLine
  /-- `\n\n` -/
  | newLineNewLine
  deriving DecidableEq, Repr

/-- `'\r'` -/
def CR : UInt8 := 0x0D

/-- `'\n'` -/
def LF : UInt8 := 0x0A

/-- `std::string_view`: a pointer and a `size_t`. -/
structure StringView where
  data : ℕ
  length : UInt64
  deriving DecidableEq, Repr

/-- One time around the `goto` loop: return, or append a view and go on with a new `begin`. -/
inductive Round where
  | finish
  | frame (view : StringView) (begin_ : ℕ)
  deriving DecidableEq, Repr

/-- The end of both loops, `terminator` being the pointer found. -/
def frameUpTo (begin_ terminator : ℕ) : Round :=
  let offsetLength : UInt64 := UInt64.ofNat (terminator - begin_) - 1
  .frame ⟨begin_, offsetLength⟩ (begin_ + (offsetLength + 3).toNat)

/-- `FIND_IT_AGAIN_CR`. -/
def crRound (m : Memory UInt8) (begin_ end_ : ℕ) : Option Round :=
  (findChar128Sse4_2 m end_ CR begin_).bind fun cr =>
    if cr = end_ then some .finish
    else
      (m cr).bind fun c =>
        if c ≠ CR then some .finish
        else
          (m (cr + 1)).bind fun d =>
            if d ≠ LF then some .finish else some (frameUpTo begin_ cr)

/-- `FIND_IT_AGAIN_LF`. -/
def lfRound (m : Memory UInt8) (begin_ end_ : ℕ) : Option Round :=
  (findChar128Sse4_2 m end_ LF begin_).bind fun lf =>
    if lf = end_ then some .finish
    else
      (m lf).bind fun c =>
        -- `*lf != '\n' && *(lf + 1) != '\n'`
        (if c ≠ LF then (m (lf + 1)).map fun d => decide (d ≠ LF) else some false).bind fun alone =>
          if alone then some .finish
          else
            (m (lf - 1)).bind fun b =>
              if b = CR then some .finish else some (frameUpTo begin_ lf)

def round (m : Memory UInt8) (type : TerminatorType) (begin_ end_ : ℕ) : Option Round :=
  match type with
  | .carriageReturnNewLine => crRound m begin_ end_
  | .newLineNewLine => lfRound m begin_ end_

/-- How far a call has got. -/
inductive Decoding where
  | running
  | returned (results : List StringView)
  | fault
  deriving DecidableEq, Repr

/-- `LineBasedFrameDecoder`, `fuel` times around its loop. -/
def lineBasedFrameDecoder (m : Memory UInt8) (type : TerminatorType) (end_ : ℕ) :
    ℕ → ℕ → List StringView → Decoding
  | 0, _, _ => .running
  | fuel + 1, begin_, results =>
    match round m type begin_ end_ with
    | none => .fault
    | some .finish => .returned results
    | some (.frame view next) => lineBasedFrameDecoder m type end_ fuel next (results ++ [view])

/-- The call on `[begin, end)` comes back, having appended `frames`. -/
def Decodes (m : Memory UInt8) (type : TerminatorType) (begin_ end_ : ℕ) (frames : List StringView) :
    Prop :=
  ∃ fuel, lineBasedFrameDecoder m type end_ fuel begin_ [] = .returned frames

/-- The bytes of one object in memory. Two pointers into it differ by a `ptrdiff_t`, so there are fewer
than `2 ^ 63` of them. -/
structure Text where
  bytes : List UInt8
  addressable : bytes.length < 2 ^ 63

/-! ## The loop -/

section Loop

variable {m : Memory UInt8} {type : TerminatorType} {begin_ end_ : ℕ} {results : List StringView}

/-- More fuel does not change a result that has been seen. -/
theorem lineBasedFrameDecoder_mono {n k : ℕ} (hnk : n ≤ k)
    (h : lineBasedFrameDecoder m type end_ n begin_ results ≠ .running) :
    lineBasedFrameDecoder m type end_ k begin_ results
      = lineBasedFrameDecoder m type end_ n begin_ results := by
  induction n generalizing k begin_ results with
  | zero => exact absurd rfl h
  | succ n ih =>
      obtain ⟨k, rfl⟩ : ∃ j, k = j + 1 := ⟨k - 1, by omega⟩
      cases hr : round m type begin_ end_ with
      | none => simp only [lineBasedFrameDecoder, hr]
      | some r =>
          cases r with
          | finish => simp only [lineBasedFrameDecoder, hr]
          | frame view next =>
              simp only [lineBasedFrameDecoder, hr] at h ⊢
              exact ih (by omega) h

/-- The frames of a call are determined. -/
theorem Decodes.unique {fs gs : List StringView} (h : Decodes m type begin_ end_ fs)
    (h' : Decodes m type begin_ end_ gs) : fs = gs := by
  obtain ⟨n, hn⟩ := h
  obtain ⟨k, hk⟩ := h'
  have hmax := lineBasedFrameDecoder_mono (Nat.le_max_left n k) (by rw [hn]; simp)
  rw [lineBasedFrameDecoder_mono (Nat.le_max_right n k) (by rw [hk]; simp), hn, hk,
    Decoding.returned.injEq] at hmax
  exact hmax.symm

/-- A call that faults does not come back. -/
theorem not_decodes_of_fault {n : ℕ}
    (h : lineBasedFrameDecoder m type end_ n begin_ [] = .fault) (fs : List StringView) :
    ¬ Decodes m type begin_ end_ fs := by
  rintro ⟨k, hk⟩
  have hmax := lineBasedFrameDecoder_mono (Nat.le_max_left n k) (by rw [h]; simp)
  rw [lineBasedFrameDecoder_mono (Nat.le_max_right n k) (by rw [hk]; simp), h, hk] at hmax
  cases hmax

end Loop

/-! ## The function as a computation that reads -/

theorem reader_crRound (begin_ end_ : ℕ) : Memory.Reader fun m => crRound m begin_ end_ := by
  unfold crRound
  apply (reader_findChar128Sse4_2 end_ CR begin_).bind
  intro cr
  refine (Memory.reader_some _).ite ?_
  apply (Memory.reader_read cr).bind
  intro c
  refine (Memory.reader_some _).ite ?_
  apply (Memory.reader_read (cr + 1)).bind
  intro d
  exact (Memory.reader_some _).ite (Memory.reader_some _)

theorem reader_lfRound (begin_ end_ : ℕ) : Memory.Reader fun m => lfRound m begin_ end_ := by
  unfold lfRound
  apply (reader_findChar128Sse4_2 end_ LF begin_).bind
  intro lf
  refine (Memory.reader_some _).ite ?_
  apply (Memory.reader_read lf).bind
  intro c
  refine Memory.Reader.bind ?_ ?_
  · refine Memory.Reader.ite ?_ (Memory.reader_some false)
    simp only [Option.map_eq_bind]
    exact (Memory.reader_read (lf + 1)).bind fun d => Memory.reader_some _
  · intro alone
    refine (Memory.reader_some _).ite ?_
    apply (Memory.reader_read (lf - 1)).bind
    intro b
    exact (Memory.reader_some _).ite (Memory.reader_some _)

/-- **A call depends on nothing but what it reads**: it gives the same frames on every memory that
extends one it succeeds on. -/
theorem Decodes.extends {m m' : Memory UInt8} {type : TerminatorType} {begin_ end_ : ℕ}
    {fs : List StringView} (hm : m'.Extends m) (h : Decodes m type begin_ end_ fs) :
    Decodes m' type begin_ end_ fs := by
  obtain ⟨n, hn⟩ := h
  refine ⟨n, ?_⟩
  have hround : ∀ b r, round m type b end_ = some r → round m' type b end_ = some r := by
    intro b r hr
    cases type with
    | carriageReturnNewLine => exact reader_crRound b end_ hm r hr
    | newLineNewLine => exact reader_lfRound b end_ hm r hr
  have key : ∀ acc, lineBasedFrameDecoder m type end_ n begin_ acc = .returned fs →
      lineBasedFrameDecoder m' type end_ n begin_ acc = .returned fs := by
    clear hn
    induction n generalizing begin_ with
    | zero =>
        intro acc h0
        cases h0
    | succ n ih =>
        intro acc h
        cases hr : round m type begin_ end_ with
        | none => simp [lineBasedFrameDecoder, hr] at h
        | some r =>
            have hr' := hround begin_ r hr
            cases r with
            | finish =>
                simp only [lineBasedFrameDecoder, hr] at h
                simpa only [lineBasedFrameDecoder, hr'] using h
            | frame view next =>
                simp only [lineBasedFrameDecoder, hr] at h
                simp only [lineBasedFrameDecoder, hr']
                exact ih _ h
  exact key [] hn

/-! ## One round -/

section Round

variable {m : Memory UInt8} {b : ℕ} {x w : List UInt8}

/-- The arithmetic of a frame: the length is one short, the next `begin` is right. -/
theorem frameUpTo_eq (b : ℕ) {n : ℕ} (hn : n < 2 ^ 63) :
    frameUpTo b (b + n) = .frame ⟨b, UInt64.ofNat n - 1⟩ (b + n + 2) := by
  have hnext : (UInt64.ofNat n - 1 + 3).toNat = n + 2 := by
    have hthree : UInt64.ofNat n - 1 + 3 = UInt64.ofNat (n + 2) := by
      rw [← UInt64.toNat_inj]
      simp only [UInt64.toNat_add, UInt64.toNat_sub, UInt64.toNat_ofNat', UInt64.reduceToNat]
      omega
    rw [hthree, UInt64.toNat_ofNat']
    omega
  rw [frameUpTo, Nat.add_sub_cancel_left]
  simp only [hnext, Nat.add_assoc]

/-- Nothing to be found, or nothing to search. -/
theorem crRound_of_notMem (h : m.Holds b w) (hw : CR ∉ w) :
    crRound m b (b + w.length) = some .finish := by
  rw [crRound, findChar_of_notMem h hw, Option.bind_some, if_pos rfl]

theorem lfRound_of_notMem (h : m.Holds b w) (hw : LF ∉ w) :
    lfRound m b (b + w.length) = some .finish := by
  rw [lfRound, findChar_of_notMem h hw, Option.bind_some, if_pos rfl]

theorem lfRound_of_le {e : ℕ} (h : e ≤ b) : lfRound m b e = some .finish := by
  rw [lfRound, findChar_of_le h, Option.bind_some, if_pos rfl]

/-- A `'\r'`: the byte behind it decides. -/
theorem crRound_of_append (h : m.Holds b (x ++ CR :: w)) (hx : CR ∉ x) :
    crRound m b (b + (x ++ CR :: w).length) =
      (m (b + x.length + 1)).bind fun d =>
        if d ≠ LF then some .finish else some (frameUpTo b (b + x.length)) := by
  have hne : b + x.length ≠ b + (x ++ CR :: w).length := by
    simp only [List.length_append, List.length_cons]
    omega
  have hread : m (b + x.length) = some CR :=
    (Memory.holds_cons.mp (Memory.holds_append.mp h).2).1
  rw [crRound, findChar_of_append h hx, Option.bind_some, if_neg hne, hread, Option.bind_some,
    if_neg (by simp)]

/-- A `'\n'`: the byte before it decides. -/
theorem lfRound_of_append (h : m.Holds b (x ++ LF :: w)) (hx : LF ∉ x) :
    lfRound m b (b + (x ++ LF :: w).length) =
      (m (b + x.length - 1)).bind fun c =>
        if c = CR then some .finish else some (frameUpTo b (b + x.length)) := by
  have hne : b + x.length ≠ b + (x ++ LF :: w).length := by
    simp only [List.length_append, List.length_cons]
    omega
  have hread : m (b + x.length) = some LF :=
    (Memory.holds_cons.mp (Memory.holds_append.mp h).2).1
  rw [lfRound, findChar_of_append h hx, Option.bind_some, if_neg hne, hread, Option.bind_some,
    if_neg (by simp), Option.bind_some, if_neg (by simp)]

/-- The byte before a position inside a word: the last byte passed, or the byte before the word. -/
theorem read_before {p : Option UInt8} (hp : m (b - 1) = p) (h : m.Holds b x) :
    m (b + x.length - 1) = behind p x := by
  rcases List.eq_nil_or_concat x with rfl | ⟨y, c, rfl⟩
  · simpa using hp
  · rw [List.concat_eq_append] at h ⊢
    have hc := (Memory.holds_cons.mp (Memory.holds_append.mp h).2).1
    simpa [behind, ← Nat.add_assoc] using hc

end Round

end Blueth.Codec
