/-
# Blueth.Concurrency.PeerScan — a parser behind one buffer behind a peer.

The asynchronous way to read a message, as the tests of the parsers simulate it and a read callback of the
event loop does it: bytes come in, by `appendRawBytes` or by `readFromPeer`; the parser is called on the
window of the buffer; the bytes it was shown are passed over, by `modifyStartOffset` or by `clear`, and
more bytes may have come in before they are. `connection` is all of it, in any order, on the buffer as it
lies in memory, with any scanner for the parser and any answers of the allocator and the kernel.

What a connection is for is said without a buffer: a `Stream` of the bytes shown to the parser so far and
the bytes waiting. `connection_follows` is the invariant that ties the two: the parser is where ONE call on
everything it has been shown would have left it, and the window holds what is waiting behind what has not
been passed over.
-/
import Blueth.Concurrency.PeerIo
import Blueth.Io.BufferScan
import Blueth.Scan.Resume

set_option autoImplicit false

namespace Blueth.Io.RawIOBuffer

variable {b b' : RawIOBuffer} {bytes : List UInt8}

/-! ## What lies in front of an offset -/

/-- The bytes up to `end_offset_`: consumed ones, and behind them the window. -/
def filled (b : RawIOBuffer) : List UInt8 := b.block.take b.endOffset.toNat

theorem data_eq_filled (b : RawIOBuffer) : b.data = b.filled.drop b.startOffset.toNat := rfl

theorem length_filled (h : b.WellFormed) : b.filled.length = b.endOffset.toNat := by
  have h1 := endOffset_le h
  have h2 := length_block h
  rw [filled, List.length_take]
  omega

/-- The byte a parser finds before the window. -/
theorem byteBefore_eq (h : b.WellFormed) :
    b.toIOBuffer.byteBefore = (b.block.take b.startOffset.toNat).getLast? := by
  have h1 := startOffset_le h
  have h2 := endOffset_le h
  have h3 := length_block h
  rw [IOBuffer.byteBefore, show b.toIOBuffer.startOffset = b.startOffset.toNat from rfl]
  cases hn : b.startOffset.toNat with
  | zero => rfl
  | succ n =>
      have hlen : (b.block.take (n + 1)).length = n + 1 := by
        rw [List.length_take]
        omega
      rw [List.getLast?_eq_getElem?, hlen, Nat.add_sub_cancel, List.getElem?_take_of_lt (by omega)]
      rfl

/-- The buffer `b'` goes on where `b` was, with `more` behind it. -/
structure Extends (b b' : RawIOBuffer) (more : List UInt8) : Prop where
  wellFormed : b'.WellFormed
  startOffset : b'.startOffset = b.startOffset
  data : b'.data = b.data ++ more
  before : b'.block.take b.startOffset.toNat = b.block.take b.startOffset.toNat

theorem Extends.byteBefore (h : b.WellFormed) {more : List UInt8} (he : Extends b b' more) :
    b'.toIOBuffer.byteBefore = b.toIOBuffer.byteBefore := by
  rw [byteBefore_eq h, byteBefore_eq he.wellFormed, he.startOffset, he.before]

theorem extends_of_filled (h : b.WellFormed) (h' : b'.WellFormed) {more : List UInt8}
    (hstart : b'.startOffset = b.startOffset) (hfilled : b'.filled = b.filled ++ more) :
    Extends b b' more := by
  have h1 := startOffset_le h
  have h1' := startOffset_le h'
  have hlen := length_filled h
  refine ⟨h', hstart, ?_, ?_⟩
  · rw [data_eq_filled, hstart, hfilled, List.drop_append_of_le_length (by omega), data_eq_filled]
  · -- both sides are the beginning of what is filled
    have hcut : ∀ c : RawIOBuffer, b.startOffset.toNat ≤ c.endOffset.toNat →
        c.block.take b.startOffset.toNat = c.filled.take b.startOffset.toNat := by
      intro c hc
      rw [filled, List.take_take, Nat.min_eq_left hc]
    rw [hcut b' (by rw [← hstart]; exact h1'), hcut b h1, hfilled,
      List.take_append_of_le_length (by omega)]

/-! ## Appends -/

theorem filled_grown {memSize : UInt64} (h : b.WellFormed) (hend : b.endOffset ≤ memSize)
    (junk : ℕ → UInt8) : (b.grown memSize junk).filled = b.filled := by
  have h1 := endOffset_le h
  have h2 := length_block h
  have hlen : b.endOffset.toNat ≤ b.block.length := by omega
  exact take_reallocated junk (UInt64.le_iff_toNat_le.mp hend) hlen

theorem filled_copyToEnd (h : b.WellFormed) (hret : b.copyToEnd bytes = .returned b') :
    b'.filled = b.filled ++ bytes := by
  have hblock := length_block h
  by_cases hfit : b.endOffset.toNat + bytes.length ≤ b.capacity.toNat
  · have hcap := b.capacity.toNat_lt
    have hlen := length_filled h
    have hend : (b.endOffset + UInt64.ofNat bytes.length).toNat = b.endOffset.toNat + bytes.length := by
      rw [UInt64.toNat_add, UInt64.toNat_ofNat']
      omega
    obtain ⟨c, hc, hcblock, -⟩ := write_eq_some (b := b) bytes b.endOffset.toNat (by omega)
    rw [copyToEnd, hc] at hret
    cases hret
    show c.block.take (b.endOffset + UInt64.ofNat bytes.length).toNat = _
    rw [hend, hcblock, ← filled, List.take_append_of_le_length (by rw [List.length_append]; omega),
      List.take_of_length_le (by rw [List.length_append]; omega)]
  · rw [copyToEnd_fault (by omega)] at hret
    cases hret

/-- **An append that is back** has put its bytes behind the others if it returned, and nothing if it threw;
also when a sum of sizes has wrapped. -/
theorem appendRawBytes_filled {depth : ℕ} {grants : ℕ → Grant} (h : b.WellFormed)
    (hlen : bytes.length < 2 ^ 64) :
    (appendRawBytes depth grants b bytes = .returned b' → b'.filled = b.filled ++ bytes) ∧
      (appendRawBytes depth grants b bytes = .badAlloc b' → b'.filled = b.filled) := by
  induction depth generalizing b grants with
  | zero => constructor <;> (intro hc; cases hc)
  | succ depth ih =>
      rw [appendRawBytes]
      split_ifs with hfull
      · refine ⟨filled_copyToEnd h, fun hc => ?_⟩
        rw [copyToEnd] at hc
        split at hc <;> cases hc
      · generalize hr : reserve (grants 0) b (b.capacity + UInt64.ofNat bytes.length) = reserved
        cases reserved with
        | returned r =>
            rcases reserve_leaves (.inl hr) with ⟨hthrown, -⟩ | ⟨junk, -, hgrown⟩
            · rw [hthrown] at hr
              cases hr
            · subst hgrown
              rw [Call.andThen_returned]
              generalize hsize : (if b.capacity + UInt64.ofNat bytes.length = 0 then b.capacity * 2
                else b.capacity + UInt64.ofNat bytes.length) = memSize
              by_cases hend : b.endOffset ≤ memSize
              · have hback := @ih _ (fun i => grants (i + 1)) (wellFormed_grown h hend junk)
                rw [filled_grown h hend junk] at hback
                exact hback
              · -- too small for what it holds: the call is never back
                have hnot : ∀ c, ¬ (appendRawBytes depth (fun i => grants (i + 1))
                    (b.grown memSize junk) bytes).Leaves c := by
                  intro c
                  refine not_leaves_of_outside ?_ (roomy_of_wrapped h hlen hfull hsize.symm hend)
                  rw [UInt64.le_iff_toNat_le, Nat.not_le] at hend
                  exact Nat.lt_of_le_of_lt (Nat.le_of_eq (length_reallocated ..)) hend
                exact ⟨fun hc => absurd (.inl hc) (hnot b'), fun hc => absurd (.inr hc) (hnot b')⟩
        | badAlloc r =>
            rcases reserve_leaves (.inr hr) with ⟨-, rfl⟩ | ⟨junk, hret, -⟩
            · constructor <;> intro hc <;> cases hc
              rfl
            · rw [hret] at hr
              cases hr
        | fault => constructor <;> (intro hc; cases hc)
        | calling => constructor <;> (intro hc; cases hc)

theorem extends_of_append {depth : ℕ} {grants : ℕ → Grant} (h : b.WellFormed)
    (hlen : bytes.length < 2 ^ 64) (hback : appendRawBytes depth grants b bytes = .returned b') :
    Extends b b' bytes := by
  obtain ⟨hwf, hstart⟩ := appendRawBytes_keeps h hlen (.inl hback)
  exact extends_of_filled h hwf hstart ((appendRawBytes_filled h hlen).1 hback)

theorem extends_of_badAlloc {depth : ℕ} {grants : ℕ → Grant} (h : b.WellFormed)
    (hlen : bytes.length < 2 ^ 64) (hback : appendRawBytes depth grants b bytes = .badAlloc b') :
    Extends b b' [] := by
  obtain ⟨hwf, hstart⟩ := appendRawBytes_keeps h hlen (.inr hback)
  refine extends_of_filled h hwf hstart ?_
  rw [(appendRawBytes_filled h hlen).2 hback, List.append_nil]

end Blueth.Io.RawIOBuffer

namespace Blueth.Concurrency

open Blueth.Scan Blueth.Io Blueth.Io.RawIOBuffer
open Blueth.Transition (System)

/-! ## Reads -/

/-- `recv` stores at `start_offset_`: whatever it answers, what lies in front of it stays. -/
theorem readFromPeer_before {b b' : RawIOBuffer} {recv : RecvAnswer}
    (hsafe : (readFromPeer recv (some b)).reply ≠ .fault)
    (hb' : (readFromPeer recv (some b)).ioBuffer = some b') :
    b'.startOffset = b.startOffset ∧
      b'.block.take b.startOffset.toNat = b.block.take b.startOffset.toNat := by
  by_cases hroom : b.getAvailableSpace = 0
  · rw [readFromPeer, if_pos hroom] at hb'
    cases hb'
    exact ⟨rfl, rfl⟩
  · by_cases hfit : b.startOffset.toNat + recv.stored.length ≤ b.block.length
    · obtain ⟨c, hc, hblock, hstart, -⟩ := write_eq_some (b := b) recv.stored b.startOffset.toNat hfit
      have hkept : c.block.take b.startOffset.toNat = b.block.take b.startOffset.toNat := by
        have hlen : (b.block.take b.startOffset.toNat).length = b.startOffset.toNat := by
          rw [List.length_take]
          omega
        rw [hblock, List.append_assoc, List.take_append_of_le_length (by omega),
          List.take_of_length_le (by omega)]
      rw [readFromPeer_of_stored hroom hc] at hb'
      split at hb' <;> cases hb' <;> exact ⟨hstart, hkept⟩
    · refine absurd ?_ hsafe
      rw [readFromPeer, if_neg hroom, write_eq_none (by omega)]

theorem extends_of_read {b b' : RawIOBuffer} {recv : RecvAnswer} (h : b.WellFormed)
    (ha : recv.Allowed b.getAvailableSpace.toNat) (hempty : ReadsIntoEmpty b recv)
    (hb' : (readFromPeer recv (some b)).ioBuffer = some b') :
    Extends b b' (readFromPeer recv (some b)).bytes := by
  have hread := readExact_of_readsIntoEmpty h ha hempty
  obtain ⟨c, hc, hwf, hdata, -⟩ := hread.appended
  rw [hb'] at hc
  cases hc
  obtain ⟨hstart, hbefore⟩ := readFromPeer_before hread.safe hb'
  exact ⟨hwf, hstart, hdata, hbefore⟩

/-! ## The connection -/

/-- A connection that is read: the buffer, the parser's state and message, and the size of the window the
last call was shown, as long as it has not been passed over. -/
structure Connection (σ : Type*) where
  buffer : RawIOBuffer
  parser : σ
  shown : Option UInt64

/-- What may happen to it. -/
inductive Arrival where
  /-- `appendRawBytes` returns -/
  | appended (bytes : List UInt8)
  /-- `appendRawBytes` throws -/
  | refused (bytes : List UInt8)
  /-- `readFromPeer`, which has stored these bytes -/
  | read (bytes : List UInt8)
  /-- the parser is called and comes back -/
  | parsed
  /-- `modifyStartOffset`, by the size of the window the parser was shown -/
  | passed
  /-- `clear` -/
  | cleared
  deriving DecidableEq

/-- **What a connection is for**: the bytes the parser has been shown, and those waiting for it. -/
structure Stream where
  scanned : List UInt8
  waiting : List UInt8
  deriving DecidableEq

namespace Stream

def empty : Stream := ⟨[], []⟩

/-- Everything received. -/
def received (q : Stream) : List UInt8 := q.scanned ++ q.waiting

/-- What each step is to do. -/
def after (q : Stream) : Arrival → Stream
  | .appended bytes => { q with waiting := q.waiting ++ bytes }
  | .read bytes => { q with waiting := q.waiting ++ bytes }
  | .parsed => ⟨q.scanned ++ q.waiting, []⟩
  | .refused _ => q
  | .passed => q
  | .cleared => q

end Stream

/-- Any steps in any order. A read is into an empty window, if it stores anything; the parser is not called
again on bytes it has been shown; the argument of `modifyStartOffset` is an `int`; and nothing that has come
in since the call is cleared away. -/
def connection {σ : Type*} (sc : Scanner σ UInt8) (s₀ : σ) : System (Connection σ) Arrival where
  init c := (∃ grant capacity, create grant capacity = .returned c.buffer) ∧ c.parser = s₀ ∧ c.shown = none
  next c arrival c' :=
    match arrival with
    | .appended bytes =>
      bytes.length < 2 ^ 64 ∧ c'.parser = c.parser ∧ c'.shown = c.shown ∧
        ∃ depth grants, appendRawBytes depth grants c.buffer bytes = .returned c'.buffer
    | .refused bytes =>
      bytes.length < 2 ^ 64 ∧ c'.parser = c.parser ∧ c'.shown = c.shown ∧
        ∃ depth grants, appendRawBytes depth grants c.buffer bytes = .badAlloc c'.buffer
    | .read bytes =>
      c'.parser = c.parser ∧ c'.shown = c.shown ∧
        ∃ recv : RecvAnswer, recv.Allowed c.buffer.getAvailableSpace.toNat ∧
          ReadsIntoEmpty c.buffer recv ∧ (readFromPeer recv (some c.buffer)).ioBuffer = some c'.buffer ∧
          (readFromPeer recv (some c.buffer)).bytes = bytes
    | .parsed =>
      c.shown = none ∧ c'.shown = some c.buffer.getDataSize ∧ c'.buffer = c.buffer ∧
        Returns sc c.buffer.toIOBuffer c.parser c'.parser
    | .passed =>
      ∃ n, c.shown = some n ∧ n.toNat < 2 ^ 31 ∧ c'.shown = none ∧ c'.parser = c.parser ∧
        c'.buffer = c.buffer.modifyStartOffset (toInt n)
    | .cleared =>
      c.shown = some c.buffer.getDataSize ∧ c'.shown = none ∧ c'.parser = c.parser ∧
        c'.buffer = c.buffer.clear

/-- The invariant. Behind the bytes passed over (`past`) lie those the last call was shown (`last`), and then
those waiting; a look behind finds the last byte passed over, unless the buffer has been cleared since. -/
structure Follows {σ : Type*} (sc : Scanner σ UInt8) (s₀ : σ) (c : Connection σ) (q : Stream) : Prop where
  wellFormed : c.buffer.WellFormed
  parser : ∃ left, outcome sc q.scanned s₀ none = .returned c.parser left
  window : ∃ past last, q.scanned = past ++ last ∧ last.length = (c.shown.getD 0).toNat ∧
    c.buffer.data = last ++ q.waiting ∧
    (c.buffer.toIOBuffer.byteBefore = behind none past ∨ c.buffer.startOffset = 0)

section Steps

variable {σ : Type*} {sc : Scanner σ UInt8} {L : σ → UInt8 → Prop} {s₀ : σ} {c c' : Connection σ} {q : Stream}

/-- A call on the window, against one call on everything received. -/
theorem Follows.returns_iff (hs : Settles sc) (hfin : FinishStable sc) (hL : LooksBehind sc L)
    (h : Follows sc s₀ c q) (hshown : c.shown = none) (hrest : Resumable sc q.received s₀ none) {t : σ} :
    Returns sc c.buffer.toIOBuffer c.parser t ↔
      (∃ left, outcome sc q.received s₀ none = .returned t left) ∧
        (c.buffer.startOffset = 0 → ∀ d ∈ q.waiting.head?, ¬ L c.parser d) := by
  obtain ⟨left, ho⟩ := h.parser
  obtain ⟨past, last, hscanned, hlast, hdata, hbefore⟩ := h.window
  rw [hshown, Option.getD_none, UInt64.toNat_zero] at hlast
  obtain rfl := List.eq_nil_of_length_eq_zero hlast
  rw [List.append_nil] at hscanned
  rw [List.nil_append] at hdata
  subst hscanned
  have hnone : c.buffer.toIOBuffer.byteBefore = none ↔ c.buffer.startOffset = 0 := by
    rw [IOBuffer.byteBefore_eq_none_iff h.wellFormed, eq_zero_iff_toNat]
    rfl
  rw [Io.returns_iff hs, show c.buffer.toIOBuffer.data = _ from hdata, ← hnone]
  exact hL.resumed_iff hfin hrest ho (hbefore.imp_right hnone.mpr)

theorem Follows.extended {b' : RawIOBuffer} {more : List UInt8} (h : Follows sc s₀ c q)
    (he : Extends c.buffer b' more) :
    Follows sc s₀ ⟨b', c.parser, c.shown⟩ { q with waiting := q.waiting ++ more } := by
  obtain ⟨past, last, hscanned, hlast, hdata, hbefore⟩ := h.window
  refine ⟨he.wellFormed, h.parser, past, last, hscanned, hlast, ?_, ?_⟩
  · rw [he.data, hdata, List.append_assoc]
  · rw [he.byteBefore h.wellFormed, he.startOffset]
    exact hbefore

theorem Follows.shownWindow (h : Follows sc s₀ c q) (hshown : c.shown = none) {t : σ} {left : List UInt8}
    (ho : outcome sc q.received s₀ none = .returned t left) :
    Follows sc s₀ ⟨c.buffer, t, some c.buffer.getDataSize⟩ ⟨q.received, []⟩ := by
  obtain ⟨past, last, hscanned, hlast, hdata, hbefore⟩ := h.window
  rw [hshown, Option.getD_none, UInt64.toNat_zero] at hlast
  obtain rfl := List.eq_nil_of_length_eq_zero hlast
  rw [List.append_nil] at hscanned
  rw [List.nil_append] at hdata
  refine ⟨h.wellFormed, ⟨left, ho⟩, past, q.waiting, ?_, ?_, ?_, hbefore⟩
  · rw [Stream.received, hscanned]
  · rw [← hdata, length_data h.wellFormed, Option.getD_some]
  · rw [hdata, List.append_nil]

/-- A size that fits in an `int` is the same number there. -/
theorem toInt_toInt {n : UInt64} (hn : n.toNat < 2 ^ 31) : (toInt n).toInt = n.toNat := by
  rw [toInt, Int32.toInt_ofNat_of_lt hn]

theorem Follows.passed {n : UInt64} (h : Follows sc s₀ c q) (hshown : c.shown = some n)
    (hn : n.toNat < 2 ^ 31) : Follows sc s₀ ⟨c.buffer.modifyStartOffset (toInt n), c.parser, none⟩ q := by
  obtain ⟨past, last, hscanned, hlast, hdata, hbefore⟩ := h.window
  have hview : c.buffer.toIOBuffer.data = last ++ q.waiting := hdata
  rw [hshown, Option.getD_some] at hlast
  have hint := toInt_toInt hn
  have hsize : n.toNat ≤ c.buffer.getDataSize.toNat := by
    rw [← length_data h.wellFormed, hdata, List.length_append]
    omega
  have hnonneg : 0 ≤ (toInt n).toInt := by omega
  have hle : (toInt n).toInt ≤ c.buffer.getDataSize.toNat := by omega
  obtain ⟨hwf, hdropped⟩ := modifyStartOffset_spec h.wellFormed hnonneg hle
  have hstart := toNat_modifyStartOffset h.wellFormed hnonneg hle
  have hnat : (toInt n).toInt.toNat = last.length := by omega
  rw [hnat] at hdropped hstart
  -- what is passed over is what the last call was shown
  have hconsume : (c.buffer.modifyStartOffset (toInt n)).toIOBuffer
      = c.buffer.toIOBuffer.consume last.length := by
    show IOBuffer.mk _ (c.buffer.modifyStartOffset (toInt n)).startOffset.toNat _ _ = _
    rw [hstart]
    rfl
  have hbehind : (c.buffer.modifyStartOffset (toInt n)).toIOBuffer.byteBefore
      = behind c.buffer.toIOBuffer.byteBefore last := by
    have hwindow : last.length ≤ c.buffer.toIOBuffer.getDataSize := by
      rw [← IOBuffer.length_data h.wellFormed, hview, List.length_append]
      omega
    rw [hconsume, IOBuffer.byteBefore_consume h.wellFormed hwindow, hview, List.take_left]
  refine ⟨hwf, h.parser, past ++ last, [], by rw [hscanned, List.append_nil], rfl, ?_, ?_⟩
  · rw [hdropped, hdata, List.drop_left, List.nil_append]
  · rw [hbehind, behind_append]
    rcases hbefore with hbefore | hzero
    · exact .inl (by rw [hbefore])
    · cases last with
      | nil =>
          right
          rw [eq_zero_iff_toNat, hstart, hzero]
          rfl
      | cons d last => exact .inl (by rw [behind_cons, behind_cons])

theorem Follows.cleared (h : Follows sc s₀ c q) (hshown : c.shown = some c.buffer.getDataSize) :
    Follows sc s₀ ⟨c.buffer.clear, c.parser, none⟩ q := by
  obtain ⟨past, last, hscanned, hlast, hdata, -⟩ := h.window
  obtain ⟨hwf, hcleared⟩ := clear_spec h.wellFormed
  -- nothing is waiting that could be cleared away
  have hwaiting : q.waiting = [] := by
    have hlen := congrArg List.length hdata
    rw [length_data h.wellFormed, List.length_append, hlast, hshown, Option.getD_some] at hlen
    exact List.eq_nil_of_length_eq_zero (by omega)
  refine ⟨hwf, h.parser, past ++ last, [], by rw [hscanned, List.append_nil], rfl, ?_, .inr rfl⟩
  rw [hcleared, hwaiting, List.append_nil]

/-- **One step.** -/
theorem Follows.step (hs : Settles sc) (hfin : FinishStable sc) (hL : LooksBehind sc L) {arrival : Arrival}
    (h : Follows sc s₀ c q) (hrest : Resumable sc (q.after arrival).scanned s₀ none)
    (hn : (connection sc s₀).next c arrival c') : Follows sc s₀ c' (q.after arrival) := by
  obtain ⟨b', parser', shown'⟩ := c'
  cases arrival with
  | appended bytes =>
      obtain ⟨hlen, rfl, rfl, depth, grants, hback⟩ := hn
      exact h.extended (extends_of_append h.wellFormed hlen hback)
  | refused bytes =>
      obtain ⟨hlen, rfl, rfl, depth, grants, hback⟩ := hn
      have hkept := h.extended (extends_of_badAlloc h.wellFormed hlen hback)
      rw [List.append_nil] at hkept
      exact hkept
  | read bytes =>
      obtain ⟨rfl, rfl, recv, ha, hempty, hb', rfl⟩ := hn
      exact h.extended (extends_of_read h.wellFormed ha hempty hb')
  | parsed =>
      obtain ⟨hshown, rfl, rfl, hret⟩ := hn
      obtain ⟨⟨left, ho⟩, -⟩ := (h.returns_iff hs hfin hL hshown hrest).mp hret
      exact h.shownWindow hshown ho
  | passed =>
      obtain ⟨n, hshown, hn, rfl, rfl, rfl⟩ := hn
      exact h.passed hshown hn
  | cleared =>
      obtain ⟨hshown, rfl, rfl, rfl⟩ := hn
      exact h.cleared hshown

theorem follows_of_init (h : (connection sc s₀).init c) : Follows sc s₀ c .empty := by
  obtain ⟨⟨grant, capacity, hcreate⟩, hparser, hshown⟩ := h
  obtain ⟨hwf, hdata, -⟩ := wellFormed_of_create hcreate
  have hzero : c.buffer.startOffset = 0 := by
    rcases reserve_leaves (.inl hcreate) with ⟨hthrown, -⟩ | ⟨junk, -, hb⟩
    · rw [show reserve grant fresh capacity = _ from hcreate] at hthrown
      cases hthrown
    · rw [hb]
      rfl
  refine ⟨hwf, ⟨[], by rw [hparser]; rfl⟩, [], [], rfl, by rw [hshown]; rfl, ?_, .inr hzero⟩
  rw [hdata]
  rfl

end Steps

/-! ## Runs -/

section Runs

variable {σ : Type*} {sc : Scanner σ UInt8} {L : σ → UInt8 → Prop} {s₀ : σ} {c₀ c : Connection σ}
  {arrivals : List Arrival}

/-- What a run is to have done. -/
def streamOf (arrivals : List Arrival) : Stream := arrivals.foldl Stream.after .empty

theorem scanned_grows (q : Stream) (arrival : Arrival) :
    ∃ more, (q.after arrival).scanned = q.scanned ++ more := by
  cases arrival with
  | parsed => exact ⟨q.waiting, rfl⟩
  | _ => exact ⟨[], (List.append_nil _).symm⟩

/-- **Every run is followed**, as long as what the parser has been shown can be scanned in pieces. -/
theorem connection_follows (hs : Settles sc) (hfin : FinishStable sc) (hL : LooksBehind sc L)
    (h₀ : (connection sc s₀).init c₀) (hr : (connection sc s₀).Run c₀ arrivals c)
    (hrest : Resumable sc (streamOf arrivals).scanned s₀ none) : Follows sc s₀ c (streamOf arrivals) := by
  have key : Resumable sc (streamOf arrivals).scanned s₀ none → Follows sc s₀ c (streamOf arrivals) := by
    refine hr.foldl_spec (R := fun c q => Resumable sc q.scanned s₀ none → Follows sc s₀ c q) ?_
      fun _ => follows_of_init h₀
    intro c arrival c' q hq hn hrest
    obtain ⟨more, hmore⟩ := scanned_grows q arrival
    exact (hq (hmore ▸ hrest).of_append).step hs hfin hL hrest hn
  exact key hrest

end Runs

end Blueth.Concurrency
