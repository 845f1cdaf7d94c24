/-
# Blueth.Net.StreamReads — what a run of reads leaves in the buffer of the two blocking clients.

Both clients are run side by side, on two copies of one world: whatever `realloc` and `recv` answer the
one, they answer the other. `Kernel.logged` writes down every call of `recv`, what was asked for and what was
answered. The bytes in that log, from the last flush on, are what the buffer ought to hold (`Accumulates`),
and the last answer in it is what `streamRead` ought to return (`ReadDone`). The step lemma rests on
`reserveFor_room`: after the reservation the bytes of any answer fit, so that the append never has to grow the
buffer.
-/
import Blueth.Net.SyncNetworkStreamClientSSL
import Blueth.Transition.System

set_option autoImplicit false

namespace Blueth.Net

open Blueth.Io Blueth.Transition
open Blueth.Io.RawIOBuffer

variable {σ ω : Type*}

/-! ## Below the clients -/

/-- The allocator grants what it is asked for, and `recv` gives an error or some bytes, no more than it was
asked for. -/
structure Transport.ReadsUpTo (t : Transport ω) : Prop where
  realloc : ∀ n e, (t.realloc n e).1 ≠ none
  recv : ∀ n e, (-2 ^ 31 ≤ (t.recv n e).1.ret ∧ (t.recv n e).1.ret < 0) ∨
    ((t.recv n e).1.ret = (t.recv n e).1.stored.length ∧ (t.recv n e).1.stored.length ≤ n.toNat)

/-- What `streamRead` makes of the answer, an `int`, is the answer. -/
theorem Transport.ReadsUpTo.toInt_ret {t : Transport ω} (R : t.ReadsUpTo) {n : UInt64} (hn : n.toNat < 2 ^ 31)
    (e : ω) : (Int32.ofInt (t.recv n e).1.ret).toInt = (t.recv n e).1.ret := by
  apply Int32.toInt_ofInt_of_le
  · rcases R.recv n e with ⟨hlow, -⟩ | ⟨hret, -⟩ <;> omega
  · rcases R.recv n e with ⟨-, hneg⟩ | ⟨hret, hlen⟩ <;> omega

/-- The calls of `recv` so far: the length asked for, and the answer. -/
abbrev RecvLog := List (UInt64 × RecvResult)

/-- The bytes that an answer delivers. -/
def RecvResult.bytes (answer : RecvResult) : List UInt8 := if answer.ret < 0 then [] else answer.stored

/-- All the bytes received. -/
def bytesOf (log : RecvLog) : List UInt8 := log.flatMap fun call => call.2.bytes

theorem bytesOf_append (log : RecvLog) (n : UInt64) (answer : RecvResult) :
    bytesOf (log ++ [(n, answer)]) = bytesOf log ++ answer.bytes := by
  simp [bytesOf]

/-- The same world, with that log. -/
def Kernel.logged (k : Kernel ω) : Kernel (ω × RecvLog) where
  realloc n e := ((k.realloc n e.1).1, ((k.realloc n e.1).2, e.2))
  recv n e := ((k.recv n e.1).1, ((k.recv n e.1).2, e.2 ++ [(n, (k.recv n e.1).1)]))
  send data e := ((k.send data e.1).1, ((k.send data e.1).2, e.2))
  close e := ((k.close e.1).1, ((k.close e.1).2, e.2))
  strerror e := k.strerror e.1

theorem logged_readsUpTo {k : Kernel ω} (R : k.toTransport.ReadsUpTo) :
    k.logged.toTransport.ReadsUpTo where
  realloc n e := R.realloc n e.1
  recv n e := R.recv n e.1

/-! ## The clients side by side -/

/-- A call of a run. -/
inductive ReadingCall where
  | streamRead (readLength : UInt64)
  | flushBuffer
  /-- `getIOBuffer`, and `setIOBuffer` of what it gave -/
  | passBuffer
  deriving DecidableEq, Repr

/-- The call made on a stream; what `streamRead` returns is kept. -/
def ReadingCall.perform (net : BufferedStream σ) : ReadingCall → σ → Answer (Option Int32) × σ
  | .streamRead n, s => ((net.streamRead n s).1.map some, (net.streamRead n s).2)
  | .flushBuffer, s => ((net.flushBuffer s).1.map fun _ => none, (net.flushBuffer s).2)
  | .passBuffer, s => (.returned none, net.setIOBuffer (net.getIOBuffer s).1 (net.getIOBuffer s).2)

/-- Both clients, each with its world and its log. -/
structure TwoClients (ω : Type*) where
  tcp : SyncNetworkStreamClient × (ω × RecvLog)
  ssl : SyncNetworkStreamClientSSL × (ω × RecvLog)
  /-- how many bytes had been received at the last flush -/
  flushed : ℕ

namespace TwoClients

/-- The calls of `recv` so far. -/
def log (s : TwoClients ω) : RecvLog := s.tcp.2.2

/-- The bytes received so far. -/
def received (s : TwoClients ω) : List UInt8 := bytesOf s.log

/-- The bytes received since the last flush. -/
def sinceFlush (s : TwoClients ω) : List UInt8 := s.received.drop s.flushed

/-- The answer of the TCP client, and that of the TLS client. -/
def tcpAnswer (k : Kernel ω) (s : TwoClients ω) (call : ReadingCall) : Answer (Option Int32) :=
  (call.perform (SyncNetworkStreamClient.bufferedStream k.logged) s.tcp).1

def sslAnswer (k : Kernel ω) (s : TwoClients ω) (call : ReadingCall) : Answer (Option Int32) :=
  (call.perform (SyncNetworkStreamClientSSL.bufferedStream k.logged) s.ssl).1

/-- The same call made on both. -/
def after (k : Kernel ω) (s : TwoClients ω) (call : ReadingCall) : TwoClients ω where
  tcp := (call.perform (SyncNetworkStreamClient.bufferedStream k.logged) s.tcp).2
  ssl := (call.perform (SyncNetworkStreamClientSSL.bufferedStream k.logged) s.ssl).2
  flushed := if call = .flushBuffer then s.received.length else s.flushed

/-- Two clients as their constructors leave them, whatever callbacks are registered then. -/
def Connected (s : TwoClients ω) : Prop :=
  ∃ junk b e read write read' write', RawIOBuffer.create (some junk) 2048 = .returned b ∧
    s = ⟨(⟨read, write, some b, true, []⟩, (e, [])), (⟨read', write', some b, true, []⟩, (e, [])), 0⟩

end TwoClients

/-- The two clients in use, one call a step. -/
def twoClients (k : Kernel ω) : System (TwoClients ω) ReadingCall where
  init := TwoClients.Connected
  next s call t := t = s.after k call

/-- A length that fits in an `int`, and a buffer that stays below `2^64` bytes when it grows by it. -/
def Fits (s : TwoClients ω) : ReadingCall → Prop
  | .streamRead n =>
    n.toNat < 2 ^ 31 ∧ ∀ b, s.tcp.1.ioBuffer = some b → b.capacity.toNat + n.toNat < 2 ^ 64
  | .flushBuffer => True
  | .passBuffer => True

/-- Both clients hold the same well-formed buffer, and its window is what has been received since the last
flush. -/
structure Accumulates (s : TwoClients ω) : Prop where
  buffer : ∃ b, s.tcp.1.ioBuffer = some b ∧ s.ssl.1.ioBuffer = some b ∧ b.WellFormed ∧
    b.data = s.sinceFlush
  tcpConnected : s.tcp.1.isConnected = true
  sslConnected : s.ssl.1.isConnected = true
  below : s.ssl.2 = s.tcp.2
  flushed_le : s.flushed ≤ s.received.length

/-- What a `streamRead(n)` has done: it has called `recv` once, for `n` bytes, and returned what that answered.
Where this is an error, it has returned a negative number and left window and offsets as they were; where it is
not, the number of the bytes received. -/
structure ReadDone (s t : TwoClients ω) (n : UInt64) (ret : Int32) (answer : RecvResult) : Prop where
  asked : t.log = s.log ++ [(n, answer)]
  returned : ret.toInt = answer.ret
  failed : answer.ret < 0 → ret < 0 ∧ ∃ b b', s.tcp.1.ioBuffer = some b ∧ t.tcp.1.ioBuffer = some b' ∧
    b'.data = b.data ∧ b'.startOffset = b.startOffset ∧ b'.endOffset = b.endOffset
  counted : ¬ answer.ret < 0 → ret.toInt = answer.stored.length

/-- What a call is to have done when it has answered `value`: only a read returns a number, and only a read
receives anything. -/
def Done (k : Kernel ω) (s : TwoClients ω) : ReadingCall → Option Int32 → Prop
  | .streamRead n, value => ∃ ret answer, value = some ret ∧ ReadDone s (s.after k (.streamRead n)) n ret answer
  | .flushBuffer, value => value = none ∧ (s.after k .flushBuffer).log = s.log
  | .passBuffer, value => value = none ∧ (s.after k .passBuffer).log = s.log

/-- What a `streamRead` reserves has room for all the bytes that it asks for, in both clients. -/
def ReservesEnough (k : Kernel ω) (s : TwoClients ω) : ReadingCall → Prop
  | .streamRead n => ∀ b, s.tcp.1.ioBuffer = some b → ∃ b',
      (SyncNetworkStreamClient.reserveFor k.logged.toTransport n b s.tcp.2).1 = .returned b' ∧
      (SyncNetworkStreamClientSSL.reserveFor k.logged.toTransport n b s.ssl.2).1 = .returned b' ∧
      b'.WellFormed ∧ b'.endOffset.toNat + n.toNat ≤ b'.capacity.toNat
  | .flushBuffer => True
  | .passBuffer => True

/-! ## One read -/

section Read

variable {t : Transport ω} {b : RawIOBuffer} {n : UInt64} {e : ω}

open SyncNetworkStreamClient in
/-- **A read, whatever else the client holds**: what it returns, the buffer it leaves and the world it leaves
are functions of the buffer and the world it finds. -/
theorem streamRead_returns (R : t.ReadsUpTo) (h : b.WellFormed) (hn : n.toNat < 2 ^ 31)
    (hsize : b.capacity.toNat + n.toNat < 2 ^ 64) :
    ∃ b', (∀ c, c.ioBuffer = some b → c.isConnected = true →
        (streamRead t n (c, e)).1
            = .returned (Int32.ofInt (t.recv n (reserveFor t n b e).2).1.ret) ∧
          (streamRead t n (c, e)).2.1.ioBuffer = some b' ∧
          (streamRead t n (c, e)).2.1.isConnected = true ∧
          (streamRead t n (c, e)).2.2 = (t.recv n (reserveFor t n b e).2).2) ∧
      b'.WellFormed ∧
      (((t.recv n (reserveFor t n b e).2).1.ret < 0 ∧
          Int32.ofInt (t.recv n (reserveFor t n b e).2).1.ret < 0 ∧ b'.data = b.data ∧
          b'.startOffset = b.startOffset ∧ b'.endOffset = b.endOffset) ∨
        (¬ (t.recv n (reserveFor t n b e).2).1.ret < 0 ∧
          (Int32.ofInt (t.recv n (reserveFor t n b e).2).1.ret).toInt
            = (t.recv n (reserveFor t n b e).2).1.stored.length ∧
          b'.data = b.data ++ (t.recv n (reserveFor t n b e).2).1.stored)) := by
  rcases reserveFor_room (t := t) (e := e) h hsize with
    ⟨hnone, -⟩ | ⟨b₁, hreserved, hwf₁, hdata₁, hstart₁, hend₁, hroom, -⟩
  · exact absurd hnone (R.realloc _ _)
  -- the call is the part behind the reservation
  have hread : ∀ c : SyncNetworkStreamClient, c.ioBuffer = some b → c.isConnected = true →
      streamRead t n (c, e) = receive t n c b₁ (reserveFor t n b e).2 := by
    intro c hc hconn
    simp only [streamRead, hc, hconn]
    generalize reserveFor t n b e = r at hreserved
    obtain ⟨reserved, e₁⟩ := r
    obtain rfl : reserved = .returned b₁ := hreserved
    rfl
  generalize (reserveFor t n b e).2 = e₁ at hread
  rcases R.recv n e₁ with ⟨hlow, hneg⟩ | ⟨hret, hlen⟩
  · have hneg' : Int32.ofInt (t.recv n e₁).1.ret < 0 := by
      rw [Int32.lt_iff_toInt_lt, Int32.toInt_ofInt_of_le (by omega) (by omega)]
      exact hneg
    refine ⟨b₁, ?_, hwf₁, .inl ⟨hneg, hneg', hdata₁, hstart₁, hend₁⟩⟩
    intro c hc hconn
    rw [hread c hc hconn, receive_failed (by omega) hneg']
    exact ⟨rfl, rfl, hconn, rfl⟩
  · have hint := toInt_ret hret (by omega)
    obtain ⟨b', hb', hwf', hdata', -, -⟩ := receive_received (c := ⟨false, false, none, true, []⟩)
      (by omega) hret (by omega) hwf₁ (by omega)
    refine ⟨b', ?_, hwf', .inr ⟨by omega, hint, by rw [hdata', hdata₁]⟩⟩
    intro c hc hconn
    obtain ⟨b'', hb'', -, -, -, heq⟩ :=
      receive_received (c := c) (by omega) hret (by omega) hwf₁ (by omega)
    obtain rfl : b' = b'' := Call.returned.inj (hb'.symm.trans hb'')
    rw [hread c hc hconn, heq]
    exact ⟨rfl, by rw [invoke_ioBuffer], by rw [invoke_isConnected]; exact hconn, rfl⟩

/-- The reservation writes nothing into the log. -/
theorem reserveFor_logged (k : Kernel ω) (n : UInt64) (b : RawIOBuffer) (e : ω × RecvLog) :
    (SyncNetworkStreamClient.reserveFor k.logged.toTransport n b e).2.2 = e.2 := by
  unfold SyncNetworkStreamClient.reserveFor
  split_ifs <;> rfl

open SyncNetworkStreamClient in
/-- **One answer is logged and returned**, and the buffer grows by what it delivers. -/
theorem streamRead_logged {k : Kernel ω} {e : ω × RecvLog} (R : k.toTransport.ReadsUpTo)
    (h : b.WellFormed) (hn : n.toNat < 2 ^ 31) (hsize : b.capacity.toNat + n.toNat < 2 ^ 64) :
    ∃ b' ret e' answer, (∀ c, c.ioBuffer = some b → c.isConnected = true →
        (streamRead k.logged.toTransport n (c, e)).1 = .returned ret ∧
          (streamRead k.logged.toTransport n (c, e)).2.1.ioBuffer = some b' ∧
          (streamRead k.logged.toTransport n (c, e)).2.1.isConnected = true ∧
          (streamRead k.logged.toTransport n (c, e)).2.2 = e') ∧
      b'.WellFormed ∧ e'.2 = e.2 ++ [(n, answer)] ∧ ret.toInt = answer.ret ∧
      b'.data = b.data ++ answer.bytes ∧
      (answer.ret < 0 → ret < 0 ∧ b'.startOffset = b.startOffset ∧ b'.endOffset = b.endOffset) ∧
      (¬ answer.ret < 0 → ret.toInt = answer.stored.length) := by
  obtain ⟨b', hread, hwf', hcases⟩ := streamRead_returns (logged_readsUpTo R) h hn hsize (e := e)
  have hlog := reserveFor_logged k n b e
  generalize (reserveFor k.logged.toTransport n b e).2 = e₁ at *
  refine ⟨b', _, _, (k.logged.recv n e₁).1, hread, hwf', ?_, (logged_readsUpTo R).toInt_ret hn e₁, ?_⟩
  · show e₁.2 ++ [(n, (k.logged.recv n e₁).1)] = _
    rw [hlog]
  · rw [RecvResult.bytes]
    rcases hcases with ⟨hneg, hret, hsame, hstart, hend⟩ | ⟨hneg, hret, hmore⟩
    · rw [if_pos hneg, List.append_nil]
      exact ⟨hsame, fun _ => ⟨hret, hstart, hend⟩, fun hnot => absurd hneg hnot⟩
    · rw [if_neg hneg]
      exact ⟨hmore, fun hlt => absurd hlt hneg, fun _ => hret⟩

end Read

/-! ## A step of both -/

section Step

variable {k : Kernel ω} {s : TwoClients ω} {call : ReadingCall}

/-- The reservation has the room, whatever has been read before. -/
theorem Accumulates.reservesEnough (R : k.toTransport.ReadsUpTo) (h : Accumulates s)
    (hfits : Fits s call) : ReservesEnough k s call := by
  cases call with
  | streamRead n =>
      rintro b hb
      obtain ⟨b₀, hb₀, -, hwf, -⟩ := h.buffer
      obtain rfl : b₀ = b := Option.some.inj (hb₀.symm.trans hb)
      rcases SyncNetworkStreamClient.reserveFor_room (t := k.logged.toTransport) (e := s.tcp.2) hwf
          (hfits.2 _ hb) with
        ⟨hnone, -⟩ | ⟨b', hreserved, hwf', -, -, -, hroom, -⟩
      · exact absurd hnone ((logged_readsUpTo R).realloc _ _)
      · refine ⟨b', hreserved, ?_, hwf', hroom⟩
        rw [h.below]
        exact hreserved
  | flushBuffer => trivial
  | passBuffer => trivial

open SyncNetworkStreamClientSSL in
/-- A read of both clients from a common buffer and a common world. -/
theorem Accumulates.streamRead (R : k.toTransport.ReadsUpTo) (h : Accumulates s) {n : UInt64}
    (hfits : Fits s (.streamRead n)) :
    Accumulates (s.after k (.streamRead n)) ∧
      ∃ ret answer, s.tcpAnswer k (.streamRead n) = .returned (some ret) ∧
        s.sslAnswer k (.streamRead n) = .returned (some ret) ∧
        ReadDone s (s.after k (.streamRead n)) n ret answer := by
  obtain ⟨⟨c, e⟩, ⟨cs, es⟩, flushed⟩ := s
  obtain ⟨⟨b, hb, hbs, hwf, hdata⟩, hconn, hconns, hbelow, hle⟩ := h
  obtain rfl : es = e := hbelow
  replace hdata : b.data = (bytesOf es.2).drop flushed := hdata
  replace hle : flushed ≤ (bytesOf es.2).length := hle
  obtain ⟨b', ret, e', answer, hread, hwf', hlog, hret, hgrown, hfailed, hcounted⟩ :=
    streamRead_logged R hwf hfits.1 (hfits.2 b hb) (e := es)
  obtain ⟨htcp, hbuf, hup, hworld⟩ := hread c hb hconn
  -- the TLS client does the same on the same fields
  have hmirror := streamRead_mirrors (t := k.logged.toTransport) cs es n
  obtain ⟨htcp', hbuf', hup', hworld'⟩ := hread cs.plain hbs hconns
  have hlog' : ((TwoClients.mk (c, es) (cs, es) flushed).after k (.streamRead n)).log = es.2 ++ [(n, answer)] :=
    (congrArg Prod.snd hworld).trans hlog
  have hreceived : ((TwoClients.mk (c, es) (cs, es) flushed).after k (.streamRead n)).received
      = bytesOf es.2 ++ answer.bytes := by
    rw [TwoClients.received, hlog', bytesOf_append]
  refine ⟨⟨⟨b', hbuf, hmirror.ioBuffer.trans hbuf', hwf', ?_⟩, hup, hmirror.isConnected.trans hup',
    hmirror.below.trans (hworld'.trans hworld.symm), ?_⟩,
    ret, answer, congrArg (Answer.map some) htcp, congrArg (Answer.map some) (hmirror.returned htcp'),
    hlog', hret, ?_, hcounted⟩
  · rw [TwoClients.sinceFlush, hreceived, hgrown, hdata]
    exact (List.drop_append_of_le_length hle).symm
  · rw [hreceived, List.length_append]
    exact Nat.le_add_right_of_le hle
  · intro hneg
    obtain ⟨hlt, hstart, hend⟩ := hfailed hneg
    refine ⟨hlt, b, b', hb, hbuf, ?_, hstart, hend⟩
    rw [hgrown, RecvResult.bytes, if_pos hneg, List.append_nil]

/-- A flush empties both buffers and receives nothing. -/
theorem Accumulates.flushBuffer (h : Accumulates s) :
    Accumulates (s.after k .flushBuffer) ∧ s.tcpAnswer k .flushBuffer = .returned none ∧
      s.sslAnswer k .flushBuffer = .returned none ∧ (s.after k .flushBuffer).log = s.log := by
  obtain ⟨⟨c, e⟩, ⟨cs, es⟩, flushed⟩ := s
  obtain ⟨⟨b, hb, hbs, hwf, hdata⟩, hconn, hconns, hbelow, hle⟩ := h
  obtain ⟨hwf', hempty⟩ := clear_spec hwf
  have htcp : SyncNetworkStreamClient.flushBuffer (c, e)
      = (.returned (), ({ c with ioBuffer := some b.clear }, e)) := by
    simp only [SyncNetworkStreamClient.flushBuffer, show c.ioBuffer = some b from hb]
  have hssl : SyncNetworkStreamClientSSL.flushBuffer (cs, es)
      = (.returned (), ({ cs with ioBuffer := some b.clear }, es)) := by
    simp only [SyncNetworkStreamClientSSL.flushBuffer, show cs.ioBuffer = some b from hbs]
  have hafter : TwoClients.after k ⟨(c, e), (cs, es), flushed⟩ .flushBuffer
      = ⟨({ c with ioBuffer := some b.clear }, e), ({ cs with ioBuffer := some b.clear }, es),
          (bytesOf e.2).length⟩ := by
    show TwoClients.mk (SyncNetworkStreamClient.flushBuffer (c, e)).2
      (SyncNetworkStreamClientSSL.flushBuffer (cs, es)).2 (bytesOf e.2).length = _
    rw [htcp, hssl]
  refine ⟨?_, ?_, ?_, by rw [hafter]; rfl⟩
  · rw [hafter]
    refine ⟨⟨b.clear, rfl, rfl, hwf', ?_⟩, hconn, hconns, hbelow, Nat.le_refl _⟩
    show b.clear.data = (bytesOf e.2).drop (bytesOf e.2).length
    rw [hempty, List.drop_length]
  · show (SyncNetworkStreamClient.flushBuffer (c, e)).1.map _ = _
    rw [htcp]
    rfl
  · show (SyncNetworkStreamClientSSL.flushBuffer (cs, es)).1.map _ = _
    rw [hssl]
    rfl

/-- **A step keeps it**, and answers the two alike. -/
theorem Accumulates.step (R : k.toTransport.ReadsUpTo) (h : Accumulates s) (hfits : Fits s call) :
    Accumulates (s.after k call) ∧
      ∃ value, s.tcpAnswer k call = .returned value ∧ s.sslAnswer k call = .returned value ∧
        Done k s call value := by
  cases call with
  | streamRead n =>
      obtain ⟨hnext, ret, answer, htcp, hssl, hdone⟩ := h.streamRead R hfits
      exact ⟨hnext, some ret, htcp, hssl, ret, answer, rfl, hdone⟩
  | flushBuffer =>
      obtain ⟨hnext, htcp, hssl, hlog⟩ := h.flushBuffer
      exact ⟨hnext, none, htcp, hssl, rfl, hlog⟩
  | passBuffer => exact ⟨h, none, rfl, rfl, rfl, rfl⟩

/-- The constructors leave empty buffers, and nothing has been received. -/
theorem accumulates_of_connected (h : s.Connected) : Accumulates s := by
  obtain ⟨junk, b, e, read, write, read', write', hcreate, rfl⟩ := h
  have hwf : (RawIOBuffer.fresh).WellFormed := ⟨Nat.le_refl _, Nat.le_refl _, rfl⟩
  have hle : RawIOBuffer.fresh.endOffset ≤ 2048 := by decide
  rw [RawIOBuffer.create, reserve_granted (by decide) junk, Call.returned.injEq] at hcreate
  subst hcreate
  refine ⟨⟨_, rfl, rfl, wellFormed_grown hwf hle junk, ?_⟩, rfl, rfl, rfl, Nat.le_refl _⟩
  rw [data_grown hwf hle junk]
  rfl

/-- **Reads accumulate exactly what arrived.** In every run of reads, flushes and handings over, whatever
the transport answers: both clients hold a well-formed buffer with the bytes received since the last flush;
what a read reserves is enough for its append; no call throws or faults; a read asks the transport once and
returns its answer, a negative number if it has failed, with window and offsets as they were; and both clients
have the same buffer, and return the same, at every step. -/
theorem reads_accumulate (R : k.toTransport.ReadsUpTo) (h : ((twoClients k).only Fits).Reachable s) :
    Accumulates s ∧ ∀ call, Fits s call → ReservesEnough k s call ∧
      ∃ value, s.tcpAnswer k call = .returned value ∧ s.sslAnswer k call = .returned value ∧
        Done k s call value := by
  have hinv : Accumulates s := by
    apply System.Reachable.invariant (fun s hs => accumulates_of_connected hs) _ h
    rintro s call t - hs ⟨hfits, rfl⟩
    exact (hs.step R hfits).1
  exact ⟨hinv, fun call hfits => ⟨hinv.reservesEnough R hfits, (hinv.step R hfits).2⟩⟩

end Step

/-! ### A run -/

/-- Memory that is never short, and a line that fails from time to time: what it is still going to answer, `none`
being an error. -/
def faltering : Kernel (List (Option (List UInt8))) where
  realloc _ line := (some fun _ => 0, line)
  recv n line :=
    match line with
    | [] => (⟨0, []⟩, [])
    | none :: rest => (⟨-1, []⟩, rest)
    | some sent :: rest => (⟨(sent.take n.toNat).length, sent.take n.toNat⟩, rest)
  send data line := (data.length, line)
  close line := (0, line)
  strerror _ := ""

theorem faltering_readsUpTo : faltering.toTransport.ReadsUpTo where
  realloc _ _ := nofun
  recv n line := by
    match line with
    | [] => exact .inr ⟨rfl, Nat.zero_le _⟩
    | none :: rest => exact .inl (show (-2 ^ 31 : Int) ≤ -1 ∧ (-1 : Int) < 0 by decide)
    | some sent :: rest => exact .inr ⟨rfl, List.length_take_le _ _⟩

/-- New clients, and what the line is going to answer them. -/
def newClients : TwoClients (List (Option (List UInt8))) :=
  let b := RawIOBuffer.fresh.grown 2048 fun _ => 0
  let line := [some [1, 2, 3], none, some [4, 5], some [6]]
  ⟨(⟨true, false, some b, true, []⟩, (line, [])), (⟨false, false, some b, true, []⟩, (line, [])), 0⟩

theorem fits_of_capacity {s : TwoClients ω} {n : UInt64} (capacity : UInt64) (hn : n.toNat < 2 ^ 31)
    (hcapacity : s.tcp.1.ioBuffer.map RawIOBuffer.capacity = some capacity)
    (hsize : capacity.toNat + n.toNat < 2 ^ 64) : Fits s (.streamRead n) := by
  refine ⟨hn, ?_⟩
  intro b hb
  rw [hb, Option.map_some, Option.some.injEq] at hcapacity
  rw [hcapacity]
  exact hsize

/-- Three bytes and a flush, a read that fails, and two that do not. -/
theorem reads_accumulate_short :
    let s := (newClients.after faltering (.streamRead 3)).after faltering .flushBuffer
    let t := ((s.after faltering (.streamRead 8)).after faltering (.streamRead 8)).after faltering (.streamRead 8)
    (∃ ret, s.tcpAnswer faltering (.streamRead 8) = .returned (some ret) ∧
      s.sslAnswer faltering (.streamRead 8) = .returned (some ret) ∧ ret < 0) ∧
    Accumulates t ∧ t.sinceFlush = [4, 5, 6] := by
  intro s t
  have hinit : newClients.Connected := ⟨fun _ => 0, _, _, _, _, _, _, rfl, rfl⟩
  have hread : ∀ u : TwoClients (List (Option (List UInt8))),
      u.tcp.1.ioBuffer.map RawIOBuffer.capacity = some 2048 → Fits u (.streamRead 8) :=
    fun u hu => fits_of_capacity 2048 (by decide) hu (by decide)
  have hs : ((twoClients faltering).only Fits).Reachable s :=
    ⟨newClients, [.streamRead 3, .flushBuffer], hinit,
      .cons ⟨fits_of_capacity 2048 (by decide) rfl (by decide), rfl⟩ (.single ⟨trivial, rfl⟩)⟩
  have ht : ((twoClients faltering).only Fits).Reachable t := by
    obtain ⟨_, calls, hu, hr⟩ := hs
    have hrest : ((twoClients faltering).only Fits).Run s [.streamRead 8, .streamRead 8, .streamRead 8] t :=
      .cons ⟨hread _ (by decide +kernel), rfl⟩ (.cons ⟨hread _ (by decide +kernel), rfl⟩
        (.single ⟨hread _ (by decide +kernel), rfl⟩))
    exact ⟨_, _, hu, hr.append hrest⟩
  refine ⟨?_, (reads_accumulate faltering_readsUpTo ht).1, by decide +kernel⟩
  obtain ⟨-, value, htcp, hssl, ret, answer, rfl, hdone⟩ :=
    (reads_accumulate faltering_readsUpTo hs).2 (.streamRead 8) (hread s (by decide +kernel))
  -- the answer that has been logged is the error
  have hlog : (s.after faltering (.streamRead 8)).log = s.log ++ [(8, ⟨-1, []⟩)] := by decide +kernel
  have hanswer := hdone.asked.symm.trans hlog
  rw [List.append_cancel_left_eq, List.singleton_inj, Prod.mk.injEq] at hanswer
  exact ⟨ret, htcp, hssl, (hdone.failed (by rw [hanswer.2]; decide)).1⟩

end Blueth.Net
