/-
# Blueth.Concurrency.PeerIo — `writeToPeer` and `readFromPeer` on a non-blocking socket
(`concurrency/AsyncEventLoop.hpp`).

The kernel's side of a call is its answer: the `ssize_t` that `send` or `recv` returns, and whether
`errno` reads `EAGAIN` / `EWOULDBLOCK` when the code looks at it. What `send` transmits is the first
`ret` bytes it was given, what `recv` stores is part of its answer. Which descriptor is meant only
selects the socket, so the holder is left out.

Both functions are off by one quantity. `writeToPeer` advances the buffer by the size it REQUESTED, as
an `int`, and returns that, whatever `send_ret` says. `readFromPeer` hands `recv` the START offset's
pointer, so what arrives overwrites the unread bytes, while `end_offset_` is advanced as if it had been
appended. The module says which answers of the kernel leave no trace of this, and proves over whole runs
that under those answers no byte is lost in either direction.
-/
import Blueth.Io.ByteQueue
import Blueth.Io.BufferObjects

set_option autoImplicit false

namespace Blueth.Concurrency

open Blueth.Io
open Blueth.Io.RawIOBuffer
open Blueth.Transition (System)

/-! ## The two functions -/

/-- How a call ends for the caller. -/
inductive Reply where
  /-- it returns this `int` -/
  | returned (value : Int32)
  /-- it throws `std::runtime_error` with this text -/
  | threw (what : String)
  /-- it makes the kernel read or write outside the buffer's block -/
  | fault
  deriving DecidableEq, Repr

/-- A finished call: its reply, the buffer it leaves behind the `shared_ptr`, and the bytes that went
over the socket. -/
structure Transfer where
  reply : Reply
  ioBuffer : Option RawIOBuffer
  bytes : List UInt8
  deriving DecidableEq, Repr

/-- The answer of `send`. -/
structure SendAnswer where
  /-- the `ssize_t` returned -/
  ret : Int
  /-- `errno` is `EAGAIN` or `EWOULDBLOCK` afterwards -/
  wouldBlock : Bool
  deriving DecidableEq, Repr

/-- The answer of `recv`, with the bytes it stored at the pointer it was given. -/
structure RecvAnswer where
  ret : Int
  wouldBlock : Bool
  stored : List UInt8
  deriving DecidableEq, Repr

/-- `writeToPeer(peer_state_holder, io_buffer)`. -/
def writeToPeer (send : SendAnswer) : Option RawIOBuffer → Transfer
  | none => ⟨.threw "Invalid IOBuffer passed onto the writeToPeer handler", none, []⟩
  | some b =>
    if b.getDataSize = 0 then ⟨.returned 0, some b, []⟩
    else
      match b.readData with
      | none => ⟨.fault, some b, []⟩
      | some window =>
        let numBytesToSend := b.getDataSize
        let sendRet := Int32.ofInt send.ret
        let sent := window.take send.ret.toNat
        if sendRet < 0 then
          if send.wouldBlock then ⟨.returned 0, some b, sent⟩ else ⟨.threw "", some b, sent⟩
        else ⟨.returned (toInt numBytesToSend), some (b.modifyStartOffset (toInt numBytesToSend)), sent⟩

/-- `readFromPeer(peer_state_holder, io_buffer)`: `recv` gets `getStartOffsetPointer()`. -/
def readFromPeer (recv : RecvAnswer) : Option RawIOBuffer → Transfer
  | none => ⟨.threw "Invalid IOBuffer passed onto the readFromPeer handler", none, []⟩
  | some b =>
    if b.getAvailableSpace = 0 then ⟨.returned 0, some b, []⟩
    else
      match b.write b.startOffset.toNat recv.stored with
      | none => ⟨.fault, some b, recv.stored⟩
      | some b' =>
        let recvRet := Int32.ofInt recv.ret
        if recvRet < 0 then
          if recv.wouldBlock then ⟨.returned 0, some b', recv.stored⟩
          else ⟨.threw "", some b', recv.stored⟩
        else ⟨.returned recvRet, some (b'.modifyEndOffset recvRet), recv.stored⟩

/-- What `send` may answer a request for `requested` bytes: an error, or that it took some of them. -/
def SendAnswer.Allowed (send : SendAnswer) (requested : ℕ) : Prop :=
  send.ret = -1 ∨ (1 ≤ send.ret ∧ send.ret ≤ requested)

/-- What `recv` may answer a request for `requested` bytes: an error, or the count it stored. -/
def RecvAnswer.Allowed (recv : RecvAnswer) (requested : ℕ) : Prop :=
  (recv.ret = -1 ∧ recv.stored = []) ∨
    (recv.ret = recv.stored.length ∧ recv.stored.length ≤ requested)

instance (send : SendAnswer) (n : ℕ) : Decidable (send.Allowed n) :=
  inferInstanceAs (Decidable (_ ∨ _))

instance (recv : RecvAnswer) (n : ℕ) : Decidable (recv.Allowed n) :=
  inferInstanceAs (Decidable (_ ∨ _))

/-! ## Writing -/

/-- What one `writeToPeer` is to do: the bytes sent and the bytes left are the bytes that were there, a
returned value is the number of bytes sent, and an error of `send` leaves the buffer as it was. -/
structure WriteExact (b : RawIOBuffer) (send : SendAnswer) : Prop where
  safe : (writeToPeer send (some b)).reply ≠ .fault
  conserved : ∃ b', (writeToPeer send (some b)).ioBuffer = some b' ∧ b'.WellFormed ∧
    (writeToPeer send (some b)).bytes ++ b'.data = b.data
  counted : ∀ n, (writeToPeer send (some b)).reply = .returned n →
    n.toInt = (writeToPeer send (some b)).bytes.length
  refused : send.ret = -1 → (writeToPeer send (some b)).ioBuffer = some b ∧
    (send.wouldBlock = true → (writeToPeer send (some b)).reply = .returned 0)

/-- **The condition on `send`**: if it takes bytes at all, it takes `(int)getDataSize()` of them. For a
window that fits in an `int` that is the whole window. -/
def TakesWindow (b : RawIOBuffer) (send : SendAnswer) : Prop :=
  b.getDataSize ≠ 0 → 0 < send.ret → send.ret = (toInt b.getDataSize).toInt

instance (b : RawIOBuffer) (send : SendAnswer) : Decidable (TakesWindow b send) :=
  inferInstanceAs (Decidable (_ → _))

section Write

variable {b : RawIOBuffer} {send : SendAnswer}

theorem writeToPeer_of_empty (send : SendAnswer) (hsize : b.getDataSize = 0) :
    writeToPeer send (some b) = ⟨.returned 0, some b, []⟩ := by
  rw [writeToPeer, if_pos hsize]

/-- `send_ret`, as an `int`, is negative. -/
theorem writeToPeer_of_neg (h : b.WellFormed) (hsize : b.getDataSize ≠ 0)
    (hneg : Int32.ofInt send.ret < 0) :
    writeToPeer send (some b) =
      ⟨if send.wouldBlock then .returned 0 else .threw "", some b, b.data.take send.ret.toNat⟩ := by
  rw [writeToPeer, if_neg hsize, readData_eq h]
  simp only [if_pos hneg]
  cases send.wouldBlock <;> rfl

theorem writeToPeer_of_nonneg (h : b.WellFormed) (hsize : b.getDataSize ≠ 0)
    (hneg : ¬ Int32.ofInt send.ret < 0) :
    writeToPeer send (some b) =
      ⟨.returned (toInt b.getDataSize), some (b.modifyStartOffset (toInt b.getDataSize)),
        b.data.take send.ret.toNat⟩ := by
  rw [writeToPeer, if_neg hsize, readData_eq h]
  simp only [if_neg hneg]

theorem length_take_ret (h : b.WellFormed) (h1 : 0 < send.ret)
    (hle : send.ret ≤ b.getDataSize.toNat) : ((b.data.take send.ret.toNat).length : Int) = send.ret := by
  have hlen := length_data h
  rw [List.length_take]
  omega

/-- Bytes that are sent and not taken off the window, or not counted, are seen. -/
theorem takesWindow_of_writeExact (h : b.WellFormed) (ha : send.Allowed b.getDataSize.toNat)
    (hw : WriteExact b send) : TakesWindow b send := by
  intro hsize hpos
  have hle : send.ret ≤ b.getDataSize.toNat := by
    rcases ha with ha | ha
    · omega
    · exact ha.2
  have hlen := length_take_ret h hpos hle
  by_cases hneg : Int32.ofInt send.ret < 0
  · -- the bytes are gone and the window still has them
    have hcall := writeToPeer_of_neg h hsize hneg
    obtain ⟨b', hb', -, hdata⟩ := hw.conserved
    rw [hcall] at hb' hdata
    cases hb'
    have htwice : (b.data.take send.ret.toNat ++ b.data).length = b.data.length :=
      congrArg List.length hdata
    rw [List.length_append] at htwice
    omega
  · have hcall := writeToPeer_of_nonneg h hsize hneg
    have hcount := hw.counted (toInt b.getDataSize) (by rw [hcall])
    rw [hcall, hlen] at hcount
    exact hcount.symm

theorem writeExact_of_empty (h : b.WellFormed) (hsize : b.getDataSize = 0) : WriteExact b send := by
  have hcall := writeToPeer_of_empty send hsize
  constructor <;> rw [hcall]
  · intro h0
    cases h0
  · exact ⟨b, rfl, h, rfl⟩
  · intro n hn
    cases hn
    rfl
  · intro _
    exact ⟨rfl, fun _ => rfl⟩

/-- An error: nothing was sent, nothing moves. -/
theorem writeExact_of_refused (h : b.WellFormed) (hsize : b.getDataSize ≠ 0) (hret : send.ret = -1) :
    WriteExact b send := by
  have hneg : Int32.ofInt send.ret < 0 := by
    rw [hret]
    decide
  have hcall := writeToPeer_of_neg h hsize hneg
  have hnone : b.data.take send.ret.toNat = [] := by
    rw [hret]
    rfl
  rw [hnone] at hcall
  constructor <;> rw [hcall]
  · cases send.wouldBlock <;> intro h0 <;> cases h0
  · exact ⟨b, rfl, h, rfl⟩
  · intro n hn
    cases hb : send.wouldBlock <;> rw [hb] at hn <;> cases hn
    rfl
  · intro _
    refine ⟨rfl, fun hb => ?_⟩
    rw [hb]
    rfl

/-- What is taken off the window is what was sent. -/
theorem writeExact_of_window (h : b.WellFormed) (hsize : b.getDataSize ≠ 0) (hpos : 0 < send.ret)
    (hle : send.ret ≤ b.getDataSize.toNat) (hk : send.ret = (toInt b.getDataSize).toInt) :
    WriteExact b send := by
  have hnn : ¬ Int32.ofInt send.ret < 0 := by
    rw [hk, Int32.ofInt_toInt, Int32.lt_iff_toInt_lt, ← hk]
    simp only [Int32.toInt_zero]
    omega
  have hcall := writeToPeer_of_nonneg h hsize hnn
  obtain ⟨hwf, hdata⟩ := modifyStartOffset_spec h (k := toInt b.getDataSize) (by omega) (by omega)
  constructor <;> rw [hcall]
  · intro h0
    cases h0
  · refine ⟨_, rfl, hwf, ?_⟩
    rw [hdata, ← hk, List.take_append_drop]
  · intro n hn
    cases hn
    rw [length_take_ret h hpos hle, hk]
  · intro hret
    omega

/-- **`writeToPeer` is exact if and only if `send` takes nothing or `(int)getDataSize()` bytes.** -/
theorem writeExact_iff (h : b.WellFormed) (ha : send.Allowed b.getDataSize.toNat) :
    WriteExact b send ↔ TakesWindow b send := by
  constructor
  · exact takesWindow_of_writeExact h ha
  · intro htakes
    by_cases hsize : b.getDataSize = 0
    · exact writeExact_of_empty h hsize
    · rcases ha with hret | ⟨hpos, hle⟩
      · exact writeExact_of_refused h hsize hret
      · exact writeExact_of_window h hsize (by omega) hle (htakes hsize (by omega))

end Write

/-- A buffer that is filled and written to a peer: what went over the wire, and all that was appended. -/
structure Outbox where
  buffer : RawIOBuffer
  wire : List UInt8
  appended : List UInt8
  deriving DecidableEq

/-- What may happen to it. -/
inductive OutCall where
  | append (data : List UInt8)
  | write (send : SendAnswer)

/-- Appends and writes in any order, the allocator and the kernel answering as they like. -/
def outbox : System Outbox OutCall where
  init o := (∃ grant capacity, create grant capacity = .returned o.buffer) ∧ o.wire = [] ∧
    o.appended = []
  next o call o' :=
    match call with
    | .append data =>
      o.buffer.Permits (.appendRawBytes data) ∧ o'.wire = o.wire ∧ ∃ depth grants,
        (appendRawBytes depth grants o.buffer data = .returned o'.buffer ∧
          o'.appended = o.appended ++ data) ∨
        (appendRawBytes depth grants o.buffer data = .badAlloc o'.buffer ∧ o'.appended = o.appended)
    | .write send =>
      send.Allowed o.buffer.getDataSize.toNat ∧
        (writeToPeer send (some o.buffer)).reply ≠ .fault ∧
        (writeToPeer send (some o.buffer)).ioBuffer = some o'.buffer ∧
        o'.wire = o.wire ++ (writeToPeer send (some o.buffer)).bytes ∧ o'.appended = o.appended

/-- The steps whose `send`, if it takes bytes, takes `(int)getDataSize()` of them. -/
def SendsWindow (o : Outbox) : OutCall → Prop
  | .append _ => True
  | .write send => TakesWindow o.buffer send

/-- Nothing is lost between the appends and the wire. -/
structure Outbox.Exact (o : Outbox) : Prop where
  wellFormed : o.buffer.WellFormed
  conserved : o.wire ++ o.buffer.data = o.appended

theorem outbox_step {o o' : Outbox} {call : OutCall} (h : o.Exact) (hc : SendsWindow o call)
    (hn : outbox.next o call o') : o'.Exact := by
  cases call with
  | append data =>
      obtain ⟨hp, hwire, depth, grants, hend⟩ := hn
      have hcases := append_cases h.wellFormed hp depth grants
      rcases hend with ⟨heq, happ⟩ | ⟨heq, happ⟩ <;> rw [heq] at hcases
      · rcases hcases with hc | hc | ⟨b', hc, hwf, hdata⟩ <;> cases hc
        refine ⟨hwf, ?_⟩
        rw [hwire, happ, hdata, ← List.append_assoc, h.conserved]
      · rcases hcases with hc | hc | ⟨b', hc, -, -⟩
        · cases hc
        · injection hc with hbuf
          exact ⟨by rw [hbuf]; exact h.wellFormed, by rw [hwire, happ, hbuf, h.conserved]⟩
        · cases hc
  | write send =>
      obtain ⟨ha, -, hbuf, hwire, happ⟩ := hn
      have hw := (writeExact_iff h.wellFormed ha).mpr hc
      obtain ⟨b', hb', hwf, hdata⟩ := hw.conserved
      rw [hbuf] at hb'
      cases hb'
      refine ⟨hwf, ?_⟩
      rw [hwire, happ, List.append_assoc, hdata, h.conserved]

/-- **No byte is lost on the way out**, in every run whose `send`s take nothing or the window: what went
over the wire and what is left in the buffer are what was appended, and the next such write is exact. -/
theorem outbox_loses_nothing {o : Outbox} (h : (outbox.only SendsWindow).Reachable o) :
    o.wire ++ o.buffer.data = o.appended ∧
      ∀ send, send.Allowed o.buffer.getDataSize.toNat → TakesWindow o.buffer send →
        WriteExact o.buffer send := by
  have key : o.Exact := by
    apply h.invariant
    · intro o h₀
      obtain ⟨⟨grant, capacity, hb⟩, hwire, happ⟩ := h₀
      obtain ⟨hwf, hdata, -⟩ := wellFormed_of_create hb
      refine ⟨hwf, ?_⟩
      rw [hwire, happ, hdata]
      rfl
    · intro o call o' _ ho hn
      exact outbox_step ho hn.1 hn.2
  refine ⟨key.conserved, ?_⟩
  intro send ha hc
  exact (writeExact_iff key.wellFormed ha).mpr hc

/-- A run with a refused and a whole write. -/
theorem outbox_loses_nothing_whole :
    let o : Outbox := ⟨⟨some [1, 2, 3, 0], 3, 3, 4⟩, [1, 2, 3], [1, 2, 3]⟩
    (outbox.only SendsWindow).Reachable o ∧ o.wire ++ o.buffer.data = o.appended := by
  intro o
  have h₀ : outbox.init ⟨⟨some [0, 0, 0, 0], 0, 0, 4⟩, [], []⟩ :=
    ⟨⟨some fun _ => 0, 4, by decide⟩, rfl, rfl⟩
  have h1 : (outbox.only SendsWindow).next ⟨⟨some [0, 0, 0, 0], 0, 0, 4⟩, [], []⟩
      (.append [1, 2, 3]) ⟨⟨some [1, 2, 3, 0], 0, 3, 4⟩, [], [1, 2, 3]⟩ :=
    ⟨trivial, by decide, rfl, 1, fun _ => none, .inl ⟨by decide, rfl⟩⟩
  have h2 : (outbox.only SendsWindow).next ⟨⟨some [1, 2, 3, 0], 0, 3, 4⟩, [], [1, 2, 3]⟩
      (.write ⟨-1, true⟩) ⟨⟨some [1, 2, 3, 0], 0, 3, 4⟩, [], [1, 2, 3]⟩ :=
    ⟨by show TakesWindow _ _; decide, by decide, by decide, by decide, by decide, rfl⟩
  have h3 : (outbox.only SendsWindow).next ⟨⟨some [1, 2, 3, 0], 0, 3, 4⟩, [], [1, 2, 3]⟩
      (.write ⟨3, false⟩) o :=
    ⟨by show TakesWindow _ _; decide, by decide, by decide, by decide, by decide, rfl⟩
  have hreach : (outbox.only SendsWindow).Reachable o :=
    ⟨_, _, h₀, .cons h1 (.cons h2 (.single h3))⟩
  exact ⟨hreach, (outbox_loses_nothing hreach).1⟩

/-- **`send` takes 1 byte of 3**: the other two are gone, and 3 is returned. -/
theorem partial_send_loses_bytes :
    let o : Outbox := ⟨⟨some [1, 2, 3, 0], 3, 3, 4⟩, [1], [1, 2, 3]⟩
    outbox.Reachable o ∧ o.wire ++ o.buffer.data ≠ o.appended := by
  intro o
  have h₀ : outbox.init ⟨⟨some [0, 0, 0, 0], 0, 0, 4⟩, [], []⟩ :=
    ⟨⟨some fun _ => 0, 4, by decide⟩, rfl, rfl⟩
  have h1 : outbox.next ⟨⟨some [0, 0, 0, 0], 0, 0, 4⟩, [], []⟩ (.append [1, 2, 3])
      ⟨⟨some [1, 2, 3, 0], 0, 3, 4⟩, [], [1, 2, 3]⟩ :=
    ⟨by decide, rfl, 1, fun _ => none, .inl ⟨by decide, rfl⟩⟩
  have h2 : outbox.next ⟨⟨some [1, 2, 3, 0], 0, 3, 4⟩, [], [1, 2, 3]⟩ (.write ⟨1, false⟩) o :=
    ⟨by decide, by decide, by decide, by decide, rfl⟩
  exact ⟨⟨_, _, h₀, .cons h1 (.single h2)⟩, by decide⟩

/-! ## Reading -/

/-- What one `readFromPeer` is to do: the window is the window that was there and then the bytes
received, and no byte that was in the window has been touched. -/
structure ReadExact (b : RawIOBuffer) (recv : RecvAnswer) : Prop where
  safe : (readFromPeer recv (some b)).reply ≠ .fault
  appended : ∃ b', (readFromPeer recv (some b)).ioBuffer = some b' ∧ b'.WellFormed ∧
    b'.data = b.data ++ (readFromPeer recv (some b)).bytes ∧
    ∀ i, b.startOffset.toNat ≤ i → i < b.endOffset.toNat → b'.block[i]? = b.block[i]?

/-- **The condition on a read**: if `recv` is called and stores bytes, there was nothing unread, and the
count it returns fits in an `int`. -/
def ReadsIntoEmpty (b : RawIOBuffer) (recv : RecvAnswer) : Prop :=
  b.getAvailableSpace ≠ 0 → recv.stored ≠ [] →
    b.getDataSize = 0 ∧ recv.stored.length < 2 ^ 31

instance (b : RawIOBuffer) (recv : RecvAnswer) : Decidable (ReadsIntoEmpty b recv) :=
  inferInstanceAs (Decidable (_ → _))

section Read

variable {b : RawIOBuffer} {recv : RecvAnswer}

/-- Without room nothing is read. -/
theorem readExact_of_full (h : b.WellFormed) (hfull : b.getAvailableSpace = 0) : ReadExact b recv := by
  have hcall : readFromPeer recv (some b) = ⟨.returned 0, some b, []⟩ := by
    rw [readFromPeer, if_pos hfull]
  constructor <;> rw [hcall]
  · intro h0
    cases h0
  · exact ⟨b, rfl, h, (List.append_nil _).symm, fun _ _ _ => rfl⟩

theorem readFromPeer_of_stored {b' : RawIOBuffer} (hroom : b.getAvailableSpace ≠ 0)
    (hb' : b.write b.startOffset.toNat recv.stored = some b') :
    readFromPeer recv (some b) =
      if Int32.ofInt recv.ret < 0 then
        ⟨if recv.wouldBlock then .returned 0 else .threw "", some b', recv.stored⟩
      else ⟨.returned (Int32.ofInt recv.ret), some (b'.modifyEndOffset (Int32.ofInt recv.ret)),
        recv.stored⟩ := by
  rw [readFromPeer, if_neg hroom, hb']
  cases recv.wouldBlock <;> rfl

/-- When `recv` stores nothing (an error, or the end of the stream), the window stays. -/
theorem readExact_of_nothing (h : b.WellFormed) (hroom : b.getAvailableSpace ≠ 0)
    (ha : recv.Allowed b.getAvailableSpace.toNat) (hnil : recv.stored = []) : ReadExact b recv := by
  have h1 := startOffset_le h
  have h2 := endOffset_le h
  have h3 := length_block h
  obtain ⟨b', hb', hblock, hstart, hend, hcap⟩ := write_eq_some (b := b) recv.stored
    b.startOffset.toNat (by rw [hnil, List.length_nil]; omega)
  have hsame : b'.block = b.block := by
    rw [hblock, hnil]
    simp
  have hwf' : b'.WellFormed := by
    constructor
    · show b'.startOffset.toNat ≤ b'.endOffset.toNat
      rw [hstart, hend]
      exact h1
    · show b'.endOffset.toNat ≤ b'.capacity.toNat
      rw [hend, hcap]
      exact h2
    · show b'.capacity.toNat = b'.block.length
      rw [hsame, hcap, h3]
  have hdata' : b'.data = b.data := by rw [data_eq, data_eq, hsame, hstart, hend]
  have hkept : ∀ i, b.startOffset.toNat ≤ i → i < b.endOffset.toNat → b'.block[i]? = b.block[i]? :=
    fun i _ _ => by rw [hsame]
  have hcall := readFromPeer_of_stored hroom hb'
  rw [hnil] at hcall
  by_cases hneg : Int32.ofInt recv.ret < 0
  · rw [if_pos hneg] at hcall
    constructor <;> rw [hcall]
    · cases recv.wouldBlock <;> intro h0 <;> cases h0
    · exact ⟨b', rfl, hwf', by rw [hdata', List.append_nil], hkept⟩
  · rw [if_neg hneg] at hcall
    have hret : recv.ret = 0 := by
      rcases ha with ⟨hret, -⟩ | ⟨hret, -⟩
      · rw [hret] at hneg
        exact absurd (by decide) hneg
      · rw [hret, hnil]
        rfl
    have hzero : b'.modifyEndOffset (Int32.ofInt recv.ret) = b' := by
      rw [hret]
      show { b' with endOffset := b'.endOffset + 0 } = b'
      rw [UInt64.add_zero]
    rw [hzero] at hcall
    constructor <;> rw [hcall]
    · intro h0
      cases h0
    · exact ⟨b', rfl, hwf', by rw [hdata', List.append_nil], hkept⟩

/-- Into an empty window the bytes are stored where they belong: start and end offset are the same. -/
theorem readExact_of_empty (h : b.WellFormed) (hroom : b.getAvailableSpace ≠ 0)
    (ha : recv.Allowed b.getAvailableSpace.toNat) (hne : recv.stored ≠ []) (hempty : b.getDataSize = 0)
    (hint : recv.stored.length < 2 ^ 31) : ReadExact b recv := by
  have h1 := startOffset_le h
  have h2 := endOffset_le h
  have h3 := length_block h
  have hsize := toNat_getDataSize h
  rw [hempty, UInt64.toNat_zero] at hsize
  have hsame : b.startOffset.toNat = b.endOffset.toNat := by omega
  obtain ⟨hret, hle⟩ : recv.ret = recv.stored.length ∧
      recv.stored.length ≤ b.getAvailableSpace.toNat := by
    rcases ha with ⟨-, hnil⟩ | ha
    · exact absurd hnil hne
    · exact ha
  rw [toNat_getAvailableSpace h] at hle
  obtain ⟨b', hb', -, -, hend, -⟩ := write_eq_some (b := b) recv.stored
    b.endOffset.toNat (by omega)
  -- from here on it is the fast path of `appendRawBytes`
  obtain ⟨b'', hb'', hwf, hdata, -, -⟩ := copyToEnd_spec recv.stored h (by omega)
  rw [copyToEnd, hb'] at hb''
  have hstored : b.write b.startOffset.toNat recv.stored = some b' := by rw [hsame, hb']
  have hk : (Int32.ofInt recv.ret).toInt = recv.stored.length := by
    rw [hret, Int32.toInt_ofInt_of_le] <;> omega
  have hneg : ¬ Int32.ofInt recv.ret < 0 := by
    rw [Int32.lt_iff_toInt_lt, hk]
    simp only [Int32.toInt_zero]
    omega
  have hadvance : b'.modifyEndOffset (Int32.ofInt recv.ret)
      = { b' with endOffset := b.endOffset + UInt64.ofNat recv.stored.length } := by
    rw [modifyEndOffset, hend, toSize_of_nat hk]
  have hcall := readFromPeer_of_stored hroom hstored
  rw [if_neg hneg, hadvance] at hcall
  cases hb''
  constructor <;> rw [hcall]
  · intro h0
    cases h0
  · refine ⟨_, rfl, hwf, hdata, ?_⟩
    intro i hi hi'
    omega

/-- **A read that stores nothing, or stores into an empty window, is exact.** -/
theorem readExact_of_readsIntoEmpty (h : b.WellFormed) (ha : recv.Allowed b.getAvailableSpace.toNat)
    (hc : ReadsIntoEmpty b recv) : ReadExact b recv := by
  by_cases hroom : b.getAvailableSpace = 0
  · exact readExact_of_full h hroom
  · by_cases hnil : recv.stored = []
    · exact readExact_of_nothing h hroom ha hnil
    · obtain ⟨hempty, hint⟩ := hc hroom hnil
      exact readExact_of_empty h hroom ha hnil hempty hint

end Read

/-- A buffer that is read into and consumed from, with the bytes received and not yet consumed. -/
structure Inbox where
  buffer : RawIOBuffer
  unread : List UInt8
  deriving DecidableEq

/-- What may happen to it. -/
inductive InCall where
  | read (recv : RecvAnswer)
  | consume (offsetLen : Int32)

/-- Reads and consumption in any order, from any well-formed buffer. -/
def inbox : System Inbox InCall where
  init i := i.buffer.WellFormed ∧ i.unread = i.buffer.data
  next i call i' :=
    match call with
    | .read recv =>
      recv.Allowed i.buffer.getAvailableSpace.toNat ∧
        (readFromPeer recv (some i.buffer)).reply ≠ .fault ∧
        (readFromPeer recv (some i.buffer)).ioBuffer = some i'.buffer ∧
        i'.unread = i.unread ++ (readFromPeer recv (some i.buffer)).bytes
    | .consume offsetLen =>
      i.buffer.Permits (.modifyStartOffset offsetLen) ∧
        i'.buffer = i.buffer.modifyStartOffset offsetLen ∧
        i'.unread = i.unread.drop offsetLen.toInt.toNat

/-- The steps whose `recv`, if it stores bytes, stores them into an empty window. -/
def ReceivesIntoEmpty (i : Inbox) : InCall → Prop
  | .read recv => ReadsIntoEmpty i.buffer recv
  | .consume _ => True

/-- The window is what was received and not consumed. -/
structure Inbox.Exact (i : Inbox) : Prop where
  wellFormed : i.buffer.WellFormed
  window : i.buffer.data = i.unread

theorem inbox_step {i i' : Inbox} {call : InCall} (h : i.Exact) (hc : ReceivesIntoEmpty i call)
    (hn : inbox.next i call i') : i'.Exact := by
  cases call with
  | read recv =>
      obtain ⟨ha, -, hbuf, hunread⟩ := hn
      have hr := readExact_of_readsIntoEmpty h.wellFormed ha hc
      obtain ⟨b', hb', hwf, hdata, -⟩ := hr.appended
      rw [hbuf] at hb'
      cases hb'
      exact ⟨hwf, by rw [hdata, hunread, h.window]⟩
  | consume k =>
      obtain ⟨hp, hbuf, hunread⟩ := hn
      obtain ⟨hwf, hdata⟩ := modifyStartOffset_spec h.wellFormed hp.1 hp.2
      rw [← hbuf] at hwf hdata
      exact ⟨hwf, by rw [hdata, hunread, h.window]⟩

/-- **Reads append**, in every run whose `recv`s store nothing or store into an empty window: the window
is what was received and not yet consumed, and the next such read appends what it receives. -/
theorem inbox_appends {i : Inbox} (h : (inbox.only ReceivesIntoEmpty).Reachable i) :
    i.buffer.WellFormed ∧ i.buffer.data = i.unread ∧
      ∀ recv, recv.Allowed i.buffer.getAvailableSpace.toNat → ReadsIntoEmpty i.buffer recv →
        ReadExact i.buffer recv := by
  have key : i.Exact := by
    apply h.invariant
    · intro i h₀
      exact ⟨h₀.1, h₀.2.symm⟩
    · intro i call i' _ hi hn
      exact inbox_step hi hn.1 hn.2
  refine ⟨key.wellFormed, key.window, ?_⟩
  intro recv ha hc
  exact readExact_of_readsIntoEmpty key.wellFormed ha hc

/-- A run that reads 2 bytes, consumes them and reads 1 more. -/
theorem inbox_appends_alternating :
    let i : Inbox := ⟨⟨some [7, 8, 9, 0], 2, 3, 4⟩, [9]⟩
    (inbox.only ReceivesIntoEmpty).Reachable i ∧ i.buffer.data = i.unread := by
  intro i
  have h₀ : inbox.init ⟨⟨some [0, 0, 0, 0], 0, 0, 4⟩, []⟩ := ⟨by decide, by decide⟩
  have h1 : (inbox.only ReceivesIntoEmpty).next ⟨⟨some [0, 0, 0, 0], 0, 0, 4⟩, []⟩
      (.read ⟨2, false, [7, 8]⟩) ⟨⟨some [7, 8, 0, 0], 0, 2, 4⟩, [7, 8]⟩ :=
    ⟨by show ReadsIntoEmpty _ _; decide, by decide, by decide, by decide, by decide⟩
  have h2 : (inbox.only ReceivesIntoEmpty).next ⟨⟨some [7, 8, 0, 0], 0, 2, 4⟩, [7, 8]⟩
      (.consume 2) ⟨⟨some [7, 8, 0, 0], 2, 2, 4⟩, []⟩ :=
    ⟨trivial, by decide, by decide, by decide⟩
  have h3 : (inbox.only ReceivesIntoEmpty).next ⟨⟨some [7, 8, 0, 0], 2, 2, 4⟩, []⟩
      (.read ⟨1, false, [9]⟩) i :=
    ⟨by show ReadsIntoEmpty _ _; decide, by decide, by decide, by decide, by decide⟩
  have hreach : (inbox.only ReceivesIntoEmpty).Reachable i :=
    ⟨_, _, h₀, .cons h1 (.cons h2 (.single h3))⟩
  exact ⟨hreach, (inbox_appends hreach).2.1⟩

/-- **A byte is read while one is unread**: it is stored over it, and a byte of the block that was never
received appears behind it. -/
theorem read_overwrites_unread :
    let i : Inbox := ⟨⟨some [8, 0, 0, 0], 0, 2, 4⟩, [7, 8]⟩
    inbox.Reachable i ∧ i.buffer.data ≠ i.unread := by
  intro i
  have h₀ : inbox.init ⟨⟨some [0, 0, 0, 0], 0, 0, 4⟩, []⟩ := ⟨by decide, by decide⟩
  have h1 : inbox.next ⟨⟨some [0, 0, 0, 0], 0, 0, 4⟩, []⟩ (.read ⟨1, false, [7]⟩)
      ⟨⟨some [7, 0, 0, 0], 0, 1, 4⟩, [7]⟩ := ⟨by decide, by decide, by decide, by decide⟩
  have h2 : inbox.next ⟨⟨some [7, 0, 0, 0], 0, 1, 4⟩, [7]⟩ (.read ⟨1, false, [8]⟩) i :=
    ⟨by decide, by decide, by decide, by decide⟩
  exact ⟨⟨_, _, h₀, .cons h1 (.single h2)⟩, by decide⟩

end Blueth.Concurrency
