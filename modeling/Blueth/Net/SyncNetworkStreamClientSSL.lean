/-
# Blueth.Net.SyncNetworkStreamClientSSL — the TLS stream (`net/SyncNetworkStreamClientSSL.hpp`).

A second copy of `SyncNetworkStreamClient`, with `wolfSSL_read` and `wolfSSL_write` in the place of `recv`
and `send` (they are the `recv` and `send` of its `Transport`, the session is part of the state below) and
with two texts of its own. The methods are written down here as this class has them; `Mirrors` says that
each does on its object what the method of the TCP client does on the same fields, text aside.
-/
import Blueth.Net.SyncNetworkStreamClient

set_option autoImplicit false

namespace Blueth.Net

open Blueth.Io
open Blueth.Io.RawIOBuffer

/-- The fields its methods use. -/
structure SyncNetworkStreamClientSSL where
  /-- a read callback is registered -/
  readCallback : Bool
  /-- a write callback is registered -/
  writeCallback : Bool
  ioBuffer : Option RawIOBuffer
  isConnected : Bool
  /-- the buffers the callbacks have been handed so far -/
  handed : List (Option RawIOBuffer)

namespace SyncNetworkStreamClientSSL

variable {ω : Type*}

/-- `if (callback) callback(io_buffer_)`. -/
def invoke (callback : Bool) (c : SyncNetworkStreamClientSSL) : SyncNetworkStreamClientSSL :=
  if callback then { c with handed := c.handed ++ [c.ioBuffer] } else c

/-- `if (read_length > getAvailableSpace()) reserve(getCapacity() + read_length)`. -/
def reserveFor (t : Transport ω) (readLength : UInt64) (b : RawIOBuffer) (e : ω) :
    Call RawIOBuffer × ω :=
  if b.getAvailableSpace < readLength then
    let memSize := b.capacity + readLength
    let granted := t.realloc (if memSize = 0 then b.capacity * 2 else memSize) e
    (b.reserve granted.1 memSize, granted.2)
  else (.returned b, e)

/-- The rest of `streamRead`: `wolfSSL_read` into a local array, and append what it stored. -/
def receive (t : Transport ω) (readLength : UInt64) (c : SyncNetworkStreamClientSSL) (b : RawIOBuffer)
    (e : ω) : Answer Int32 × (SyncNetworkStreamClientSSL × ω) :=
  -- no array can be that long
  if 2 ^ 63 ≤ readLength.toNat then (.fault, ({ c with ioBuffer := some b }, e))
  else
    let received := t.recv readLength e
    let readRet := Int32.ofInt received.1.ret
    if readRet < 0 then (.returned readRet, ({ c with ioBuffer := some b }, received.2))
    else if received.1.stored.length < readRet.toInt.toNat then
      -- bytes of the array that nobody has written
      (.fault, ({ c with ioBuffer := some b }, received.2))
    else
      let bytes := received.1.stored.take readRet.toInt.toNat
      let grant := (t.realloc (b.capacity + UInt64.ofNat bytes.length) received.2).1
      match b.appendRawBytes 2 (fun _ => grant) bytes with
      | .returned b' =>
        (.returned readRet, (invoke c.readCallback { c with ioBuffer := some b' }, received.2))
      | .badAlloc b' => (.threw "std::bad_alloc", ({ c with ioBuffer := some b' }, received.2))
      | .fault => (.fault, ({ c with ioBuffer := some b }, received.2))
      | .calling => (.fault, ({ c with ioBuffer := some b }, received.2))

/-- `streamRead`. -/
def streamRead (t : Transport ω) (readLength : UInt64) :
    SyncNetworkStreamClientSSL × ω → Answer Int32 × (SyncNetworkStreamClientSSL × ω)
  | (c, e) =>
    match c.ioBuffer, c.isConnected with
    | some b, true =>
      match reserveFor t readLength b e with
      | (.returned b', e') => receive t readLength c b' e'
      | (.badAlloc b', e') => (.threw "std::bad_alloc", ({ c with ioBuffer := some b' }, e'))
      | (.fault, e') => (.fault, (c, e'))
      | (.calling, e') => (.fault, (c, e'))
    | _, _ => (.threw "invalid IOBuffer or the connection to the SSL endpoint is closed", (c, e))

/-- `streamWrite`. -/
def streamWrite (t : Transport ω) (data : List UInt8) :
    SyncNetworkStreamClientSSL × ω → Answer Int32 × (SyncNetworkStreamClientSSL × ω)
  | (c, e) =>
    if c.isConnected = false then (.threw "The connection to the SSL endpoint is closed", (c, e))
    else if data = [] then (.returned 0, (c, e))
    else
      let sent := t.send data e
      (.returned (Int32.ofInt sent.1), (invoke c.writeCallback c, sent.2))

/-- `flushBuffer`. -/
def flushBuffer : SyncNetworkStreamClientSSL × ω → Answer Unit × (SyncNetworkStreamClientSSL × ω)
  | (c, e) =>
    match c.ioBuffer with
    | none => (.threw "invalid IOBuffer", (c, e))
    | some b => (.returned (), ({ c with ioBuffer := some b.clear }, e))

def getIOBuffer :
    SyncNetworkStreamClientSSL × ω → Option RawIOBuffer × (SyncNetworkStreamClientSSL × ω)
  | (c, e) => (c.ioBuffer, ({ c with ioBuffer := none }, e))

def constGetIOBuffer : SyncNetworkStreamClientSSL × ω → Answer (Option RawIOBuffer)
  | (c, _) => .returned c.ioBuffer

def setIOBuffer (ioBuffer : Option RawIOBuffer) :
    SyncNetworkStreamClientSSL × ω → SyncNetworkStreamClientSSL × ω
  | (c, e) => ({ c with ioBuffer := ioBuffer }, e)

/-- `closeConnection`. -/
def closeConnection (k : Kernel ω) :
    SyncNetworkStreamClientSSL × ω → Answer Unit × (SyncNetworkStreamClientSSL × ω)
  | (c, e) =>
    if c.isConnected then
      let closed := k.close e
      if closed.1 < 0 then (.threw (k.strerror closed.2), (c, closed.2))
      else (.returned (), ({ c with isConnected := false }, closed.2))
    else (.returned (), (c, e))

/-- The object as a `BufferedStream`. -/
def bufferedStream (k : Kernel ω) : BufferedStream (SyncNetworkStreamClientSSL × ω) where
  streamRead := streamRead k.toTransport
  streamWrite := streamWrite k.toTransport
  constGetIOBuffer := constGetIOBuffer
  getIOBuffer := getIOBuffer
  setIOBuffer := setIOBuffer
  flushBuffer := flushBuffer
  closeConnection := closeConnection k

/-! ## In step with the TCP client -/

/-- The TCP client with the same fields. -/
def plain (c : SyncNetworkStreamClientSSL) : SyncNetworkStreamClient :=
  ⟨c.readCallback, c.writeCallback, c.ioBuffer, c.isConnected, c.handed⟩

/-- The same answer, where two texts of `std::runtime_error`s count as the same. -/
inductive SameAnswer {α : Type*} : Answer α → Answer α → Prop
  | returned (value : α) : SameAnswer (.returned value) (.returned value)
  | badAlloc : SameAnswer (.threw "std::bad_alloc") (.threw "std::bad_alloc")
  | runtimeError {what what' : String} (h : what ≠ "std::bad_alloc") (h' : what' ≠ "std::bad_alloc") :
      SameAnswer (.threw what) (.threw what')
  | fault : SameAnswer .fault .fault

/-- A method of this class against the method of the TCP client: the same answer, and the same fields and
the same world afterwards. -/
structure Mirrors {α : Type*} (r : Answer α × (SyncNetworkStreamClientSSL × ω))
    (r' : Answer α × (SyncNetworkStreamClient × ω)) : Prop where
  answer : SameAnswer r.1 r'.1
  client : r.2.1.plain = r'.2.1
  below : r.2.2 = r'.2.2

section Mirrors

variable {α : Type*} {r : Answer α × (SyncNetworkStreamClientSSL × ω)}
  {r' : Answer α × (SyncNetworkStreamClient × ω)}

theorem Mirrors.returned (h : Mirrors r r') {value : α} (hr : r'.1 = .returned value) :
    r.1 = .returned value := by
  have hanswer := h.answer
  rw [hr] at hanswer
  generalize r.1 = a at hanswer
  cases hanswer
  rfl

theorem Mirrors.ioBuffer (h : Mirrors r r') : r.2.1.ioBuffer = r'.2.1.ioBuffer :=
  congrArg SyncNetworkStreamClient.ioBuffer h.client

theorem Mirrors.isConnected (h : Mirrors r r') : r.2.1.isConnected = r'.2.1.isConnected :=
  congrArg SyncNetworkStreamClient.isConnected h.client

end Mirrors

section Mirror

variable {t : Transport ω} (c : SyncNetworkStreamClientSSL) (e : ω)

theorem plain_invoke (callback : Bool) (c : SyncNetworkStreamClientSSL) :
    (invoke callback c).plain = SyncNetworkStreamClient.invoke callback c.plain := by
  cases callback <;> rfl

theorem receive_mirrors (n : UInt64) (b : RawIOBuffer) :
    Mirrors (receive t n c b e) (SyncNetworkStreamClient.receive t n c.plain b e) := by
  unfold receive SyncNetworkStreamClient.receive
  split_ifs with hn
  · exact ⟨.fault, rfl, rfl⟩
  · simp only
    split_ifs with hneg hshort
    · exact ⟨.returned _, rfl, rfl⟩
    · exact ⟨.fault, rfl, rfl⟩
    · generalize appendRawBytes 2 _ b _ = appended
      cases appended with
      | returned b' => exact ⟨.returned _, plain_invoke _ _, rfl⟩
      | badAlloc b' => exact ⟨.badAlloc, rfl, rfl⟩
      | fault => exact ⟨.fault, rfl, rfl⟩
      | calling => exact ⟨.fault, rfl, rfl⟩

theorem streamRead_mirrors (n : UInt64) :
    Mirrors (streamRead t n (c, e)) (SyncNetworkStreamClient.streamRead t n (c.plain, e)) := by
  obtain ⟨readCallback, writeCallback, ioBuffer, isConnected, handed⟩ := c
  have hclosed : SameAnswer (α := Int32)
      (.threw "invalid IOBuffer or the connection to the SSL endpoint is closed")
      (.threw "invalid IOBuffer or the connection to the endpoint is closed") :=
    .runtimeError (by decide) (by decide)
  cases ioBuffer with
  | none => exact ⟨hclosed, rfl, rfl⟩
  | some b =>
      cases isConnected with
      | false => exact ⟨hclosed, rfl, rfl⟩
      | true =>
          simp only [streamRead, SyncNetworkStreamClient.streamRead, plain]
          -- the reservation is the same, word for word
          show Mirrors _ (match reserveFor t n b e with
            | (.returned b', e') => _
            | (.badAlloc b', e') => _
            | (.fault, e') => _
            | (.calling, e') => _)
          obtain ⟨reserved, e'⟩ := reserveFor t n b e
          cases reserved with
          | returned b' => exact receive_mirrors _ e' n b'
          | badAlloc b' => exact ⟨.badAlloc, rfl, rfl⟩
          | fault => exact ⟨.fault, rfl, rfl⟩
          | calling => exact ⟨.fault, rfl, rfl⟩

theorem streamWrite_mirrors (data : List UInt8) :
    Mirrors (streamWrite t data (c, e)) (SyncNetworkStreamClient.streamWrite t data (c.plain, e)) := by
  simp only [streamWrite, SyncNetworkStreamClient.streamWrite]
  show Mirrors _ (if c.isConnected = false then _ else _)
  split_ifs
  · exact ⟨.runtimeError (by decide) (by decide), rfl, rfl⟩
  · exact ⟨.returned _, rfl, rfl⟩
  · exact ⟨.returned _, plain_invoke _ _, rfl⟩

theorem flushBuffer_mirrors :
    Mirrors (flushBuffer (c, e)) (SyncNetworkStreamClient.flushBuffer (c.plain, e)) := by
  obtain ⟨readCallback, writeCallback, ioBuffer, isConnected, handed⟩ := c
  cases ioBuffer with
  | none => exact ⟨.runtimeError (by decide) (by decide), rfl, rfl⟩
  | some b => exact ⟨.returned (), rfl, rfl⟩

theorem closeConnection_mirrors (k : Kernel ω) :
    Mirrors (closeConnection k (c, e)) (SyncNetworkStreamClient.closeConnection k (c.plain, e)) := by
  simp only [closeConnection, SyncNetworkStreamClient.closeConnection]
  show Mirrors _ (if c.isConnected = true then _ else _)
  split_ifs with hconn hneg
  · by_cases hwhat : k.strerror (k.close e).2 = "std::bad_alloc"
    · rw [hwhat]
      exact ⟨.badAlloc, rfl, rfl⟩
    · exact ⟨.runtimeError hwhat hwhat, rfl, rfl⟩
  · exact ⟨.returned (), rfl, rfl⟩
  · exact ⟨.returned (), rfl, rfl⟩

end Mirror

end SyncNetworkStreamClientSSL

end Blueth.Net
