/-
# Blueth.Net.NetworkStream — the interface `NetworkStream<char>` (`net/NetworkStream.hpp`), and its contract.

A client of the interface holds an object it knows nothing of but the virtual methods. Here the object is a
state of an arbitrary type `σ`, and `NetworkStream σ` is the table of those methods that such a client
calls. The state takes in whatever the answers depend on, the kernel and the peer included, so statements
about every `NetworkStream σ` are statements about any behaviour of the stream.

`Contract` is what the interface documents of a stream that is connected: ONE buffer, which reading appends
to and nothing else changes, and whose ownership can be taken out and put back.
-/
import Blueth.Io.BufferObjects

set_option autoImplicit false

namespace Blueth.Net

open Blueth.Io

/-- How a call of a method ends. -/
inductive Answer (α : Type*) where
  | returned (value : α)
  /-- it throws an exception with this text -/
  | threw (what : String)
  /-- it touches memory it must not touch: the behaviour is undefined from here on -/
  | fault
  deriving DecidableEq, Repr

/-- The answer with its value changed. -/
def Answer.map {α β : Type*} (f : α → β) : Answer α → Answer β
  | .returned value => .returned (f value)
  | .threw what => .threw what
  | .fault => .fault

/-- An exception of type `std::runtime_error`; the only other one that comes out of a stream is the
`std::bad_alloc` of its buffer. -/
def Answer.RuntimeError {α : Type*} (a : Answer α) : Prop := ∃ what, what ≠ "std::bad_alloc" ∧ a = .threw what

/-- The virtual methods of `NetworkStream<char>` a tunnel uses. -/
structure NetworkStream (σ : Type*) where
  streamRead : UInt64 → σ → Answer Int32 × σ
  streamWrite : List UInt8 → σ → Answer Int32 × σ
  constGetIOBuffer : σ → Answer (Option RawIOBuffer)
  getIOBuffer : σ → Option RawIOBuffer × σ
  setIOBuffer : Option RawIOBuffer → σ → σ

/-- Those, and the two others that look at the state of the object. -/
structure BufferedStream (σ : Type*) extends NetworkStream σ where
  flushBuffer : σ → Answer Unit × σ
  closeConnection : σ → Answer Unit × σ

variable {σ : Type*}

/-- What one `streamRead` may do to the bytes in the buffer and to those on their way. A failure, be it a
negative result or an exception, does nothing to them; otherwise that many of the next bytes of the peer
are now behind those that were in the buffer. -/
inductive ReadEffect (window incoming : List UInt8) : Answer Int32 → List UInt8 → List UInt8 → Prop
  | failed {ret : Int32} (h : ret < 0) : ReadEffect window incoming (.returned ret) window incoming
  | threw (what : String) : ReadEffect window incoming (.threw what) window incoming
  | received {ret : Int32} (h : ¬ ret < 0) (hle : ret.toInt.toNat ≤ incoming.length) :
      ReadEffect window incoming (.returned ret) (window ++ incoming.take ret.toInt.toNat)
        (incoming.drop ret.toInt.toNat)

/-- **The contract of a stream.** `IsStream s window incoming`: in the state `s` the stream is connected
and holds a buffer with the bytes `window`, and `incoming` is what the peer sends behind these, on its way
already or still to be sent, as long as nothing is written to it. -/
structure Contract (net : NetworkStream σ) where
  IsStream : σ → List UInt8 → List UInt8 → Prop
  /-- a look at the buffer -/
  constGetIOBuffer : ∀ {s window incoming}, IsStream s window incoming →
    ∃ b, net.constGetIOBuffer s = .returned (some b) ∧ b.WellFormed ∧ b.data = window
  /-- the buffer handed out, and the same object put back with its window changed -/
  getIOBuffer : ∀ {s window incoming}, IsStream s window incoming →
    ∃ b s', net.getIOBuffer s = (some b, s') ∧ b.WellFormed ∧ b.data = window ∧
      ∀ b' : RawIOBuffer, b'.WellFormed → b'.capacity = b.capacity →
        IsStream (net.setIOBuffer (some b') s') b'.data incoming
  streamRead : ∀ {s window incoming} (n : UInt64), IsStream s window incoming →
    (net.streamRead n s).1 ≠ .fault → ∃ window' incoming',
      ReadEffect window incoming (net.streamRead n s).1 window' incoming' ∧
      IsStream (net.streamRead n s).2 window' incoming'
  /-- writing leaves the buffer alone; the peer may answer -/
  streamWrite : ∀ {s window incoming} (data : List UInt8), IsStream s window incoming →
    (net.streamWrite data s).1 ≠ .fault →
      ∃ reply, IsStream (net.streamWrite data s).2 window (incoming ++ reply)

end Blueth.Net
