/-
# Blueth.Net.SyncNetworkStreamClient — the blocking TCP stream (`net/SyncNetworkStreamClient.hpp`).

What lies below the object is a `Transport`: `realloc`, `recv` and `send`, over a state of their own.
`Transport.Lawful` is what their documentation says of them, with `incoming`, the bytes the peer has sent
and nobody has received. The object's methods form a `NetworkStream` over the pair of both states, and
`contract` says that it keeps the contract of one.

The callbacks of the object are handed the buffer; which buffers they were handed is recorded, what they do
with them is not modelled.
-/
import Blueth.Net.NetworkStream

set_option autoImplicit false

namespace Blueth.Net

open Blueth.Io
open Blueth.Io.RawIOBuffer

/-! ## Below the object -/

/-- What `recv` gives: the `ssize_t`, and the bytes it stored in the buffer it was handed. -/
structure RecvResult where
  ret : Int
  stored : List UInt8
  deriving DecidableEq, Repr

/-- The calls the object makes. -/
structure Transport (ω : Type*) where
  realloc : UInt64 → ω → Grant × ω
  recv : UInt64 → ω → RecvResult × ω
  send : List UInt8 → ω → Int × ω

/-- Those, and what `closeConnection` needs: `close` on the descriptor, and the text of `errno`. -/
structure Kernel (ω : Type*) extends Transport ω where
  close : ω → Int × ω
  strerror : ω → String

variable {ω : Type*}

/-- The documented behaviour of the three. No block is larger than `PTRDIFF_MAX`. `recv` fails with -1, or
stores the next bytes, no more than it was asked for and no more than `0x7ffff000`. `send` returns -1 or
the number of bytes sent, and the peer may answer. -/
structure Transport.Lawful (t : Transport ω) (incoming : ω → List UInt8) : Prop where
  realloc_limit : ∀ n e, 2 ^ 63 ≤ n.toNat → (t.realloc n e).1 = none
  realloc_incoming : ∀ n e, incoming (t.realloc n e).2 = incoming e
  recv : ∀ n e,
    ((t.recv n e).1.ret = -1 ∧ incoming (t.recv n e).2 = incoming e) ∨
      ((t.recv n e).1.ret = (t.recv n e).1.stored.length ∧ (t.recv n e).1.stored.length ≤ n.toNat ∧
        (t.recv n e).1.stored.length ≤ 0x7ffff000 ∧
        incoming e = (t.recv n e).1.stored ++ incoming (t.recv n e).2)
  send_incoming : ∀ data e, ∃ reply, incoming (t.send data e).2 = incoming e ++ reply

/-! ## The object -/

/-- The fields its methods use. -/
structure SyncNetworkStreamClient where
  /-- a read callback is registered -/
  readCallback : Bool
  /-- a write callback is registered -/
  writeCallback : Bool
  ioBuffer : Option RawIOBuffer
  isConnected : Bool
  /-- the buffers the callbacks have been handed so far -/
  handed : List (Option RawIOBuffer)

namespace SyncNetworkStreamClient

/-- `if (callback) callback(io_buffer_)`. -/
def invoke (callback : Bool) (c : SyncNetworkStreamClient) : SyncNetworkStreamClient :=
  if callback then { c with handed := c.handed ++ [c.ioBuffer] } else c

/-- `if (read_length > getAvailableSpace()) reserve(getCapacity() + read_length)`. -/
def reserveFor (t : Transport ω) (readLength : UInt64) (b : RawIOBuffer) (e : ω) :
    Call RawIOBuffer × ω :=
  if b.getAvailableSpace < readLength then
    let memSize := b.capacity + readLength
    let granted := t.realloc (if memSize = 0 then b.capacity * 2 else memSize) e
    (b.reserve granted.1 memSize, granted.2)
  else (.returned b, e)

/-- The rest of `streamRead`: `recv` into a local array of that length, and append what it stored. -/
def receive (t : Transport ω) (readLength : UInt64) (c : SyncNetworkStreamClient) (b : RawIOBuffer) (e : ω) :
    Answer Int32 × (SyncNetworkStreamClient × ω) :=
  -- no array can be that long
  if 2 ^ 63 ≤ readLength.toNat then (.fault, ({ c with ioBuffer := some b }, e))
  else
    let received := t.recv readLength e
    let readRet := Int32.ofInt received.1.ret
    if readRet < 0 then (.returned readRet, ({ c with ioBuffer := some b }, received.2))
    else if received.1.stored.length < readRet.toInt.toNat then
      -- bytes of the array that nobody has written
      (.fault, ({ c with ioBuffer := some b }, received.2))
    else
      let bytes := received.1.stored.take readRet.toInt.toNat
      let grant := (t.realloc (b.capacity + UInt64.ofNat bytes.length) received.2).1
      match b.appendRawBytes 2 (fun _ => grant) bytes with
      | .returned b' =>
        (.returned readRet, (invoke c.readCallback { c with ioBuffer := some b' }, received.2))
      | .badAlloc b' => (.threw "std::bad_alloc", ({ c with ioBuffer := some b' }, received.2))
      | .fault => (.fault, ({ c with ioBuffer := some b }, received.2))
      | .calling => (.fault, ({ c with ioBuffer := some b }, received.2))

/-- `streamRead`. -/
def streamRead (t : Transport ω) (readLength : UInt64) :
    SyncNetworkStreamClient × ω → Answer Int32 × (SyncNetworkStreamClient × ω)
  | (c, e) =>
    match c.ioBuffer, c.isConnected with
    | some b, true =>
      match reserveFor t readLength b e with
      | (.returned b', e') => receive t readLength c b' e'
      | (.badAlloc b', e') => (.threw "std::bad_alloc", ({ c with ioBuffer := some b' }, e'))
      | (.fault, e') => (.fault, (c, e'))
      | (.calling, e') => (.fault, (c, e'))
    | _, _ => (.threw "invalid IOBuffer or the connection to the endpoint is closed", (c, e))

/-- `streamWrite`. -/
def streamWrite (t : Transport ω) (data : List UInt8) :
    SyncNetworkStreamClient × ω → Answer Int32 × (SyncNetworkStreamClient × ω)
  | (c, e) =>
    if c.isConnected = false then
      (.threw "The TCP connection to the endpoint is not connected", (c, e))
    else if data = [] then (.returned 0, (c, e))
    else
      let sent := t.send data e
      (.returned (Int32.ofInt sent.1), (invoke c.writeCallback c, sent.2))

def getIOBuffer : SyncNetworkStreamClient × ω → Option RawIOBuffer × (SyncNetworkStreamClient × ω)
  | (c, e) => (c.ioBuffer, ({ c with ioBuffer := none }, e))

def constGetIOBuffer : SyncNetworkStreamClient × ω → Answer (Option RawIOBuffer)
  | (c, _) => .returned c.ioBuffer

def setIOBuffer (ioBuffer : Option RawIOBuffer) :
    SyncNetworkStreamClient × ω → SyncNetworkStreamClient × ω
  | (c, e) => ({ c with ioBuffer := ioBuffer }, e)

/-- `flushBuffer`. -/
def flushBuffer : SyncNetworkStreamClient × ω → Answer Unit × (SyncNetworkStreamClient × ω)
  | (c, e) =>
    match c.ioBuffer with
    | none => (.threw "invalid IOBuffer", (c, e))
    | some b => (.returned (), ({ c with ioBuffer := some b.clear }, e))

/-- `closeConnection`. -/
def closeConnection (k : Kernel ω) :
    SyncNetworkStreamClient × ω → Answer Unit × (SyncNetworkStreamClient × ω)
  | (c, e) =>
    if c.isConnected then
      let closed := k.close e
      if closed.1 < 0 then (.threw (k.strerror closed.2), (c, closed.2))
      else (.returned (), ({ c with isConnected := false }, closed.2))
    else (.returned (), (c, e))

/-- The object as a `NetworkStream`. -/
def stream (t : Transport ω) : NetworkStream (SyncNetworkStreamClient × ω) where
  streamRead := streamRead t
  streamWrite := streamWrite t
  constGetIOBuffer := constGetIOBuffer
  getIOBuffer := getIOBuffer
  setIOBuffer := setIOBuffer

/-- The object as a `BufferedStream`. -/
def bufferedStream (k : Kernel ω) : BufferedStream (SyncNetworkStreamClient × ω) where
  toNetworkStream := stream k.toTransport
  flushBuffer := flushBuffer
  closeConnection := closeConnection k

/-! ## It keeps the contract -/

/-- Connected, with a well-formed buffer that the allocator can have given. -/
structure IsStream (incoming : ω → List UInt8) (s : SyncNetworkStreamClient × ω)
    (window arriving : List UInt8) : Prop where
  connected : s.1.isConnected = true
  buffer : ∃ b, s.1.ioBuffer = some b ∧ b.WellFormed ∧ b.capacity.toNat < 2 ^ 63 ∧ b.data = window
  incoming_eq : incoming s.2 = arriving

section Contract

variable {t : Transport ω} {incoming : ω → List UInt8} {c : SyncNetworkStreamClient} {b : RawIOBuffer}
  {e : ω} {n : UInt64}

@[simp] theorem invoke_ioBuffer (callback : Bool) (c : SyncNetworkStreamClient) :
    (invoke callback c).ioBuffer = c.ioBuffer := by
  unfold invoke
  split_ifs <;> rfl

@[simp] theorem invoke_isConnected (callback : Bool) (c : SyncNetworkStreamClient) :
    (invoke callback c).isConnected = c.isConnected := by
  unfold invoke
  split_ifs <;> rfl

/-- A reservation receives nothing, and one that is refused changes nothing. -/
theorem reserveFor_keeps (L : t.Lawful incoming) (n : UInt64) (b : RawIOBuffer) (e : ω) :
    incoming (reserveFor t n b e).2 = incoming e ∧
      ∀ b', (reserveFor t n b e).1 = .badAlloc b' → b' = b := by
  unfold reserveFor
  split_ifs
  · refine ⟨L.realloc_incoming _ _, ?_⟩
    intro b' hb'
    simp only [reserve] at hb'
    split_ifs at hb'
    all_goals
      split at hb'
      · rw [Call.badAlloc.injEq] at hb'
        exact hb'.symm
      · cases hb'
  · refine ⟨rfl, ?_⟩
    intro b' hb'
    cases hb'

/-- **The reservation is enough**: unless the allocator refuses, the length asked for is available
afterwards, and window and offsets are as before. -/
theorem reserveFor_room (h : b.WellFormed) (hsize : b.capacity.toNat + n.toNat < 2 ^ 64) :
    ((t.realloc (b.capacity + n) e).1 = none ∧ (reserveFor t n b e).1 = .badAlloc b) ∨
      ∃ b', (reserveFor t n b e).1 = .returned b' ∧ b'.WellFormed ∧ b'.data = b.data ∧
        b'.startOffset = b.startOffset ∧ b'.endOffset = b.endOffset ∧
        b'.endOffset.toNat + n.toNat ≤ b'.capacity.toNat ∧
        (b'.capacity = b.capacity ∨
          (b'.capacity = b.capacity + n ∧ (t.realloc (b.capacity + n) e).1 ≠ none)) := by
  have hend := endOffset_le h
  have havail := toNat_getAvailableSpace h
  unfold reserveFor
  by_cases hfull : b.getAvailableSpace < n
  · have hlt := UInt64.lt_iff_toNat_lt.mp hfull
    have hsum : (b.capacity + n).toNat = b.capacity.toNat + n.toNat := by
      rw [UInt64.toNat_add]
      omega
    have hne : b.capacity + n ≠ 0 := ne_zero_of_toNat_pos (by omega)
    simp only [if_pos hfull, if_neg hne]
    cases hgrant : (t.realloc (b.capacity + n) e).1 with
    | none => exact .inl ⟨rfl, reserve_refused hne⟩
    | some junk =>
        have hle : b.endOffset ≤ b.capacity + n := by
          rw [UInt64.le_iff_toNat_le]
          omega
        refine .inr ⟨_, reserve_granted hne junk, wellFormed_grown h hle junk, data_grown h hle junk,
          rfl, rfl, ?_, .inr ⟨rfl, by simp⟩⟩
        show b.endOffset.toNat + n.toNat ≤ (b.capacity + n).toNat
        omega
  · have hle : ¬ b.getAvailableSpace.toNat < n.toNat := fun hlt =>
      hfull (UInt64.lt_iff_toNat_lt.mpr hlt)
    rw [if_neg hfull]
    exact .inr ⟨b, rfl, h, rfl, rfl, rfl, by omega, .inl rfl⟩

/-- On a lawful transport, for a length that an array can have. -/
theorem reserveFor_spec (L : t.Lawful incoming) (h : b.WellFormed) (hcap : b.capacity.toNat < 2 ^ 63)
    (hn : n.toNat < 2 ^ 63) :
    (reserveFor t n b e).1 = .badAlloc b ∨
      ∃ b', (reserveFor t n b e).1 = .returned b' ∧ b'.WellFormed ∧ b'.capacity.toNat < 2 ^ 63 ∧
        b'.data = b.data ∧ b'.endOffset.toNat + n.toNat ≤ b'.capacity.toNat := by
  rcases reserveFor_room (t := t) (e := e) h (by omega : b.capacity.toNat + n.toNat < 2 ^ 64) with
    ⟨-, hrefused⟩ | ⟨b', hret, hwf', hdata, -, -, hroom, hgrown⟩
  · exact .inl hrefused
  · refine .inr ⟨b', hret, hwf', ?_, hdata, hroom⟩
    rcases hgrown with hsame | ⟨hcap', hgrant⟩
    · rwa [hsame]
    · -- a granted size is below the limit
      by_contra hge
      exact hgrant (L.realloc_limit _ e (by rw [← hcap']; omega))

/-- A `recv` that fails leaves the buffer alone. -/
theorem receive_failed (hn : n.toNat < 2 ^ 63) (hneg : Int32.ofInt (t.recv n e).1.ret < 0) :
    receive t n c b e = (.returned (Int32.ofInt (t.recv n e).1.ret),
      ({ c with ioBuffer := some b }, (t.recv n e).2)) := by
  unfold receive
  rw [if_neg (by omega)]
  simp only [if_pos hneg]

/-- The count survives the conversion to `int`. -/
theorem toInt_ret (hret : (t.recv n e).1.ret = (t.recv n e).1.stored.length)
    (hlen : (t.recv n e).1.stored.length < 2 ^ 31) :
    (Int32.ofInt (t.recv n e).1.ret).toInt = (t.recv n e).1.stored.length := by
  rw [hret, Int32.toInt_ofInt_of_le] <;> omega

/-- **What arrives comes to stand behind what is in the buffer**, where there is room for it: the buffer
does not have to grow again. -/
theorem receive_received (hn : n.toNat < 2 ^ 63)
    (hret : (t.recv n e).1.ret = (t.recv n e).1.stored.length)
    (hlen : (t.recv n e).1.stored.length < 2 ^ 31) (h : b.WellFormed)
    (hroom : b.endOffset.toNat + (t.recv n e).1.stored.length ≤ b.capacity.toNat) :
    ∃ b', b.copyToEnd (t.recv n e).1.stored = .returned b' ∧ b'.WellFormed ∧
      b'.data = b.data ++ (t.recv n e).1.stored ∧ b'.capacity = b.capacity ∧
      receive t n c b e = (.returned (Int32.ofInt (t.recv n e).1.ret),
        (invoke c.readCallback { c with ioBuffer := some b' }, (t.recv n e).2)) := by
  have hint := toInt_ret hret hlen
  have hneg : ¬ Int32.ofInt (t.recv n e).1.ret < 0 := by
    rw [Int32.lt_iff_toInt_lt, hint]
    simp only [Int32.toInt_zero]
    omega
  have hcount : (Int32.ofInt (t.recv n e).1.ret).toInt.toNat = (t.recv n e).1.stored.length := by
    rw [hint, Int.toNat_natCast]
  obtain ⟨b', hb', hwf', hdata, -, hcap'⟩ := copyToEnd_spec (t.recv n e).1.stored h hroom
  have happend : ∀ grants, b.appendRawBytes 2 grants (t.recv n e).1.stored = .returned b' :=
    fun grants => (appendRawBytes_of_fits h (by omega) hroom 1 grants).trans hb'
  refine ⟨b', hb', hwf', hdata, hcap', ?_⟩
  unfold receive
  rw [if_neg (by omega)]
  simp only [if_neg hneg, hcount, Nat.lt_irrefl, if_false, List.take_length, happend]

/-- A lawful `recv` into a buffer with room for it. -/
theorem receive_spec (L : t.Lawful incoming) (hconn : c.isConnected = true) (h : b.WellFormed)
    (hcap : b.capacity.toNat < 2 ^ 63) (hn : n.toNat < 2 ^ 63)
    (hroom : b.endOffset.toNat + n.toNat ≤ b.capacity.toNat) :
    ∃ window' arriving', ReadEffect b.data (incoming e) (receive t n c b e).1 window' arriving' ∧
      IsStream incoming (receive t n c b e).2 window' arriving' := by
  rcases L.recv n e with ⟨hret, hsame⟩ | ⟨hret, hlen, hlimit, hincoming⟩
  · have hneg : Int32.ofInt (t.recv n e).1.ret < 0 := by
      rw [hret]
      decide
    rw [receive_failed hn hneg]
    exact ⟨_, _, .failed hneg, hconn, ⟨b, rfl, h, hcap, rfl⟩, hsame⟩
  · have hint := toInt_ret hret (by omega)
    obtain ⟨b', -, hwf', hdata, hcap', heq⟩ :=
      receive_received (c := c) hn hret (by omega) h (by omega)
    have hneg : ¬ Int32.ofInt (t.recv n e).1.ret < 0 := by
      rw [Int32.lt_iff_toInt_lt, hint]
      simp only [Int32.toInt_zero]
      omega
    have hcount : (Int32.ofInt (t.recv n e).1.ret).toInt.toNat = (t.recv n e).1.stored.length := by
      rw [hint, Int.toNat_natCast]
    have heffect : ReadEffect b.data (incoming e) (.returned (Int32.ofInt (t.recv n e).1.ret))
        (b.data ++ (t.recv n e).1.stored) (incoming (t.recv n e).2) := by
      have hle : (Int32.ofInt (t.recv n e).1.ret).toInt.toNat ≤ (incoming e).length := by
        rw [hcount, hincoming, List.length_append]
        omega
      have hmoved : ReadEffect b.data (incoming e) (.returned (Int32.ofInt (t.recv n e).1.ret)) _ _ :=
        .received hneg hle
      rw [hcount, hincoming, List.take_left, List.drop_left] at hmoved
      rwa [hincoming]
    rw [heq]
    refine ⟨_, _, heffect, ?_, ⟨b', ?_, hwf', ?_, hdata⟩, rfl⟩
    · rw [invoke_isConnected]
      exact hconn
    · rw [invoke_ioBuffer]
    · rwa [hcap']

/-- A read of a connected object: an effect the contract allows, unless the length is one that no local
array can have. -/
theorem streamRead_spec (L : t.Lawful incoming) (hconn : c.isConnected = true) (hb : c.ioBuffer = some b)
    (h : b.WellFormed) (hcap : b.capacity.toNat < 2 ^ 63)
    (hfault : (streamRead t n (c, e)).1 ≠ .fault) :
    ∃ window' arriving', ReadEffect b.data (incoming e) (streamRead t n (c, e)).1 window' arriving' ∧
      IsStream incoming (streamRead t n (c, e)).2 window' arriving' := by
  have hread : streamRead t n (c, e) =
      match reserveFor t n b e with
      | (.returned b', e') => receive t n c b' e'
      | (.badAlloc b', e') => (.threw "std::bad_alloc", ({ c with ioBuffer := some b' }, e'))
      | (.fault, e') => (.fault, (c, e'))
      | (.calling, e') => (.fault, (c, e')) := by
    simp only [streamRead, hb, hconn]
  rw [hread] at hfault ⊢
  obtain ⟨hsame, hrefusal⟩ := reserveFor_keeps L n b e
  by_cases hn : n.toNat < 2 ^ 63
  · have hreserved := reserveFor_spec (e := e) L h hcap hn
    generalize reserveFor t n b e = r at hsame hreserved
    obtain ⟨reserved, e'⟩ := r
    rcases hreserved with rfl | ⟨b', rfl, hwf', hcap', hdata, hroom⟩
    · exact ⟨_, _, .threw _, hconn, ⟨b, rfl, h, hcap, rfl⟩, hsame⟩
    · obtain ⟨window', arriving', heffect, hstream⟩ := receive_spec (e := e') L hconn hwf' hcap' hn hroom
      rw [hdata, hsame] at heffect
      exact ⟨window', arriving', heffect, hstream⟩
  · -- the allocator may still refuse before the array faults
    generalize reserveFor t n b e = r at hfault hsame hrefusal
    obtain ⟨reserved, e'⟩ := r
    cases reserved with
    | returned b' =>
        have harray : (receive t n c b' e').1 = .fault := by
          rw [receive, if_pos (by omega)]
        exact absurd harray hfault
    | badAlloc b' =>
        obtain rfl := hrefusal b' rfl
        exact ⟨_, _, .threw _, hconn, ⟨b', rfl, h, hcap, rfl⟩, hsame⟩
    | fault => exact absurd rfl hfault
    | calling => exact absurd rfl hfault

theorem streamWrite_spec (L : t.Lawful incoming) {window : List UInt8} (hconn : c.isConnected = true)
    (hbuffer : ∃ b, c.ioBuffer = some b ∧ b.WellFormed ∧ b.capacity.toNat < 2 ^ 63 ∧ b.data = window)
    {data : List UInt8} :
    ∃ reply, IsStream incoming (streamWrite t data (c, e)).2 window (incoming e ++ reply) := by
  have hnot : ¬ c.isConnected = false := by simp [hconn]
  simp only [streamWrite, if_neg hnot]
  split_ifs
  · exact ⟨[], hconn, hbuffer, by simp⟩
  · obtain ⟨reply, hreply⟩ := L.send_incoming data e
    refine ⟨reply, ?_, ?_, hreply⟩
    · show (invoke c.writeCallback c).isConnected = true
      rw [invoke_isConnected, hconn]
    · obtain ⟨b, hb⟩ := hbuffer
      refine ⟨b, ?_, hb.2⟩
      show (invoke c.writeCallback c).ioBuffer = some b
      rw [invoke_ioBuffer, hb.1]

/-- **The object keeps the contract of a stream**, on every lawful transport. -/
def contract (L : t.Lawful incoming) : Contract (stream t) where
  IsStream := IsStream incoming
  constGetIOBuffer := by
    rintro ⟨c, e⟩ window arriving ⟨-, ⟨b, hb, hwf, -, hdata⟩, -⟩
    exact ⟨b, congrArg Answer.returned hb, hwf, hdata⟩
  getIOBuffer := by
    rintro ⟨c, e⟩ window arriving ⟨hconn, ⟨b, hb, hwf, hcap, hdata⟩, hincoming⟩
    refine ⟨b, ({ c with ioBuffer := none }, e), by rw [← hb]; rfl, hwf, hdata, ?_⟩
    intro b' hwf' hcap'
    exact ⟨hconn, ⟨b', rfl, hwf', by rwa [hcap'], rfl⟩, hincoming⟩
  streamRead := by
    rintro ⟨c, e⟩ window arriving n ⟨hconn, ⟨b, hb, hwf, hcap, rfl⟩, rfl⟩ hfault
    exact streamRead_spec L hconn hb hwf hcap hfault
  streamWrite := by
    rintro ⟨c, e⟩ window arriving data ⟨hconn, hbuffer, rfl⟩ -
    exact streamWrite_spec L hconn hbuffer

end Contract

/-! ## A peer -/

/-- A peer that sends `reply` for whatever it is sent, with memory that is never short below the limit. The
state is what it has sent and nobody has received. -/
def answering (reply : List UInt8) : Transport (List UInt8) where
  realloc n sent := (if n.toNat < 2 ^ 63 then some fun _ => 0 else none, sent)
  recv n sent :=
    (⟨(sent.take (min n.toNat 0x7ffff000)).length, sent.take (min n.toNat 0x7ffff000)⟩,
      sent.drop (min n.toNat 0x7ffff000))
  send data sent := (data.length, sent ++ reply)

theorem answering_lawful (reply : List UInt8) : (answering reply).Lawful id where
  realloc_limit n sent hn := if_neg (Nat.not_lt.mpr hn)
  realloc_incoming _ _ := rfl
  recv n sent := by
    have hlen := List.length_take_le (min n.toNat 0x7ffff000) sent
    refine .inr ⟨rfl, ?_, ?_, (List.take_append_drop _ _).symm⟩
    · exact Nat.le_trans hlen (Nat.min_le_left _ _)
    · exact Nat.le_trans hlen (Nat.min_le_right _ _)
  send_incoming _ _ := ⟨reply, rfl⟩

/-- The object in front of such a peer. -/
abbrev answeredBy (reply : List UInt8) : NetworkStream (SyncNetworkStreamClient × List UInt8) :=
  stream (answering reply)

def answeredByContract (reply : List UInt8) : Contract (answeredBy reply) :=
  contract (answering_lawful reply)

/-- A connected object without callbacks, its buffer filled with `window`. -/
def holding (window : List UInt8) : SyncNetworkStreamClient where
  readCallback := false
  writeCallback := false
  ioBuffer := some ⟨some window, 0, UInt64.ofNat window.length, UInt64.ofNat window.length⟩
  isConnected := true
  handed := []

theorem holding_isStream {window : List UInt8} (h : window.length < 2 ^ 63) (reply sent : List UInt8) :
    (answeredByContract reply).IsStream (holding window, sent) window sent := by
  have hlen : (UInt64.ofNat window.length).toNat = window.length := by
    rw [UInt64.toNat_ofNat', Nat.mod_eq_of_lt (by omega)]
  refine ⟨rfl, ⟨_, rfl, ⟨?_, ?_, ?_⟩, ?_, ?_⟩, rfl⟩
  · exact Nat.zero_le _
  · exact Nat.le_refl _
  · exact hlen
  · rwa [hlen]
  · show (window.take (UInt64.ofNat window.length).toNat).drop 0 = window
    rw [hlen, List.take_length, List.drop_zero]

end SyncNetworkStreamClient

end Blueth.Net
