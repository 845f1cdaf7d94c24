/-
# Blueth.Http.ProxyTunnel — what comes out of the tunnel (`HTTPProxyClient::readProxy`).

`makeConnection` parses the response head in the stream's buffer and leaves it there. `readProxy` appends to
that buffer, hands out everything in it, and clears it. So the first read that succeeds hands out the
proxy's own response in front of the bytes that came through the tunnel, every later one hands out what it
has received, and reads that fail change nothing: `delivered_eq` says exactly what a reader gets to see, on
any stream that keeps its contract.
-/
import Blueth.Http.ProxyHandshake
import Blueth.Transition.System

set_option autoImplicit false

namespace Blueth.Http

open Blueth.Io Blueth.Net
open Blueth.Transition (System)
open HTTPProxyClient
open SyncNetworkStreamClient (answeredBy answeredByContract holding_isStream)

variable {σ : Type*}

/-! ## Reading from the tunnel -/

/-- The string a `readProxy` returns; a call that throws returns none. -/
def returnedText : Answer (List UInt8) → List UInt8
  | .returned bytes => bytes
  | .threw _ => []
  | .fault => []

/-- What a `streamRead` says it has received, if it succeeds. -/
def receivedCount : Answer Int32 → Option ℕ
  | .returned ret => if ret < 0 then none else some ret.toInt.toNat
  | .threw _ => none
  | .fault => none

/-- The object while it is read from, and what the reads have given. -/
structure Relay (σ : Type*) where
  client : HTTPProxyClient σ
  /-- the strings `readProxy` has returned, one behind the other -/
  delivered : List UInt8
  /-- the counts of the successful reads of the stream, in order -/
  received : List ℕ

/-- After a `readProxy`. -/
def Relay.after (net : NetworkStream σ) (r : Relay σ) (n : UInt64) : Relay σ where
  client := (readProxy net n r.client).2
  delivered := r.delivered ++ returnedText (readProxy net n r.client).1
  received := r.received ++ (receivedCount (net.streamRead n r.client.networkHandler).1).toList

/-- `readProxy` again and again, from where a `makeConnection` that was a success leaves the object. -/
def relaySystem (net : NetworkStream σ) : System (Relay σ) UInt64 where
  init r := ∃ args c, makeConnection net args c = (.returned .connectionSuccess, r.client) ∧
    r.delivered = [] ∧ r.received = []
  next r n r' := (readProxy net n r.client).1 ≠ .fault ∧ r' = r.after net n

/-- What a reader is to have: nothing before a read has succeeded, and from then on the bytes that follow
the head, `rest` of them in the buffer already and `arriving` on their way, up to those received. -/
def owed (rest arriving : List UInt8) (received : List ℕ) : List UInt8 :=
  if received = [] then [] else rest ++ arriving.take received.sum

/-! ## One read -/

section Tunnel

variable {net : NetworkStream σ} {K : Contract net} {c : HTTPProxyClient σ} {r s t : Relay σ}
  {w arriving : List UInt8} {n : UInt64}

/-- **A read**: nothing received, nothing returned, nothing changed; or all of the buffer and what was
received behind it returned, and the buffer empty. -/
theorem readProxy_spec (hmade : c.connectedToProxy = true) (hs : K.IsStream c.networkHandler w arriving)
    (hfault : (readProxy net n c).1 ≠ .fault) :
    (receivedCount (net.streamRead n c.networkHandler).1 = none ∧
      returnedText (readProxy net n c).1 = [] ∧
      K.IsStream (readProxy net n c).2.networkHandler w arriving) ∨
    ∃ k, k ≤ arriving.length ∧ receivedCount (net.streamRead n c.networkHandler).1 = some k ∧
      returnedText (readProxy net n c).1 = w ++ arriving.take k ∧
      K.IsStream (readProxy net n c).2.networkHandler [] (arriving.drop k) := by
  have hup : ¬ c.proxyConnectionMade = false := by
    rw [Bool.not_eq_false]
    exact hmade
  have hread := K.streamRead n hs
  unfold readProxy at hfault ⊢
  rw [if_neg hup] at hfault ⊢
  generalize net.streamRead n c.networkHandler = reading at hread hfault
  obtain ⟨answer, s⟩ := reading
  cases answer with
  | fault => exact absurd rfl hfault
  | threw what =>
      obtain ⟨_, _, heffect, hstream⟩ := hread (by simp)
      cases heffect
      exact .inl ⟨rfl, rfl, hstream⟩
  | returned ret =>
      obtain ⟨_, _, heffect, hstream⟩ := hread (by simp)
      cases heffect with
      | failed hneg =>
          simp only [if_pos hneg]
          exact .inl ⟨if_pos hneg, rfl, hstream⟩
      | received hneg hle =>
          obtain ⟨b, hb, hwf, hdata⟩ := K.constGetIOBuffer hstream
          obtain ⟨b₂, s₂, hget, hwf₂, -, hset⟩ := K.getIOBuffer hstream
          simp only [if_neg hneg, hb, RawIOBuffer.pointedData_eq hwf, hget]
          refine .inr ⟨_, hle, if_neg hneg, hdata, ?_⟩
          obtain ⟨hwf₃, hempty⟩ := RawIOBuffer.clear_spec hwf₂
          have hcleared := hset b₂.clear hwf₃ rfl
          rwa [hempty] at hcleared

/-! ## Any number of reads -/

/-- `w` was in the buffer when the reading began, and `arriving` on its way. -/
structure Relayed (K : Contract net) (w arriving : List UInt8) (r : Relay σ) : Prop where
  connected : r.client.connectedToProxy = true
  stream : K.IsStream r.client.networkHandler (if r.received = [] then w else [])
    (arriving.drop r.received.sum)
  delivered : r.delivered = owed w arriving r.received

theorem Relayed.step (h : Relayed K w arriving r) (hstep : (relaySystem net).next r n s) :
    Relayed K w arriving s := by
  obtain ⟨hfault, rfl⟩ := hstep
  have hconnected : (r.after net n).client.connectedToProxy = true := by
    obtain ⟨handler, heq⟩ := readProxy_keeps net n r.client
    show (readProxy net n r.client).2.connectedToProxy = true
    rw [heq]
    exact h.connected
  rcases readProxy_spec h.connected h.stream hfault with
    ⟨hnone, htext, hstream⟩ | ⟨k, hle, hsome, htext, hstream⟩
  · have hreceived : (r.after net n).received = r.received := by
      simp only [Relay.after, hnone, Option.toList_none, List.append_nil]
    refine ⟨hconnected, ?_, ?_⟩
    · rw [hreceived]
      exact hstream
    · rw [hreceived, ← h.delivered]
      show r.delivered ++ returnedText (readProxy net n r.client).1 = r.delivered
      rw [htext, List.append_nil]
  · have hreceived : (r.after net n).received = r.received ++ [k] := by
      simp only [Relay.after, hsome, Option.toList_some]
    have hne : r.received ++ [k] ≠ [] := by simp
    have hsum : (r.received ++ [k]).sum = r.received.sum + k := by simp
    refine ⟨hconnected, ?_, ?_⟩
    · rw [hreceived, if_neg hne, hsum, ← List.drop_drop]
      exact hstream
    · show r.delivered ++ returnedText (readProxy net n r.client).1 = owed w arriving _
      rw [hreceived, htext, h.delivered, owed, owed, if_neg hne, hsum, List.take_add]
      -- the first success hands out what was in the buffer
      by_cases hfirst : r.received = []
      · simp [hfirst]
      · simp [hfirst]

theorem Relayed.run {lengths : List UInt64} (hinit : (relaySystem net).init s)
    (hs : K.IsStream s.client.networkHandler w arriving) (hr : (relaySystem net).Run s lengths t) :
    Relayed K w arriving t := by
  obtain ⟨args, c, hmade, hdelivered, hreceived⟩ := hinit
  refine hr.preserves (fun r n r' hrel hstep => hrel.step hstep) ⟨?_, ?_, ?_⟩
  · have hconnected := makeConnection_connectedToProxy net args c
    rw [← makeConnection_answer, hmade] at hconnected
    exact hconnected.mpr (.inr rfl)
  · rw [hreceived, if_pos rfl]
    exact hs
  · rw [hdelivered, hreceived]
    rfl

/-! ## What a reader gets -/

variable {h : ResponseHead} {rest : List UInt8} {lengths : List UInt64}

/-- A success leaves a complete head at the front of the buffer, its status read as 200. -/
theorem exists_head_of_success {args : ConnectArgs} {client : HTTPProxyClient σ} {incoming : List UInt8}
    (hs : K.IsStream c.networkHandler w incoming)
    (hmade : makeConnection net args c = (.returned .connectionSuccess, client)) :
    ∃ (h : ResponseHead) (rest arriving : List UInt8), h.Shaped ∧ w = h.bytes ++ rest ∧
      (h.message args.uninit).responseCode = HTTPResponseCodes.ok.value ∧
      K.IsStream client.networkHandler w arriving := by
  have hanswer := makeConnection_answer net args c
  have hhandler := makeConnection_networkHandler net args c
  rw [hmade] at hanswer hhandler
  obtain ⟨ret, s, b, v, hwrite, -, hb, hv, hok⟩ := attempt_success_iff.mp hanswer.symm
  obtain ⟨reply, hreply⟩ := K.streamWrite (connectBytes args) hs (by simp [hwrite])
  -- the bytes that were judged are those that were there before
  have hvw : v = w := by
    obtain ⟨b₂, hb₂, hwf, hdata⟩ := K.constGetIOBuffer hreply
    rw [hwrite, hb, Answer.returned.injEq, Option.some.injEq] at hb₂
    subst hb₂
    rw [← RawIOBuffer.data_of_pointedData hv, hdata]
  obtain ⟨h, rest, hshaped, hhead, -, hcode⟩ := hok
  exact ⟨h, rest, _, hshaped, hvw ▸ hhead, hcode, hhandler ▸ hreply⟩

/-- **The proxy's own response comes out of the tunnel**, in front of everything else, with the first read
that succeeds. Apart from it a reader gets what it is owed. -/
theorem delivered_eq (hinit : (relaySystem net).init s)
    (hs : K.IsStream s.client.networkHandler (h.bytes ++ rest) arriving)
    (hr : (relaySystem net).Run s lengths t) :
    t.delivered = (if t.received = [] then [] else h.bytes) ++ owed rest arriving t.received := by
  rw [(Relayed.run hinit hs hr).delivered, owed, owed]
  split_ifs
  · rfl
  · exact List.append_assoc _ _ _

/-- **When the tunnel is transparent.** After a success on the head `h`, a reader has got exactly what it is
owed as long as no read of the stream has succeeded, and at no time after. -/
theorem transparent_iff (hinit : (relaySystem net).init s)
    (hs : K.IsStream s.client.networkHandler (h.bytes ++ rest) arriving)
    (hr : (relaySystem net).Run s lengths t) :
    t.delivered = owed rest arriving t.received ↔ t.received = [] := by
  have hhead : h.bytes ≠ [] := by simp [ResponseHead.bytes]
  rw [delivered_eq hinit hs hr, List.append_left_eq_self]
  split_ifs with hnone
  · exact ⟨fun _ => hnone, fun _ => rfl⟩
  · exact ⟨fun h => absurd h hhead, fun h => absurd h hnone⟩

end Tunnel

/-! ### A greeting through the tunnel -/

def greeting : List UInt8 := str "hello"

/-- A proxy has granted the tunnel, and the origin server's greeting is on its way. -/
def greeted : Relay (SyncNetworkStreamClient × List UInt8) where
  client := (makeConnection (answeredBy greeting) plainConnect (newClient okHead.bytes)).2
  delivered := []
  received := []

theorem greeted_init : (relaySystem (answeredBy greeting)).init greeted := by
  have hsuccess : (makeConnection (answeredBy greeting) plainConnect (newClient okHead.bytes)).1
      = .returned .connectionSuccess := by decide +kernel
  refine ⟨plainConnect, newClient okHead.bytes, ?_, rfl, rfl⟩
  rw [← hsuccess, greeted]

theorem greeted_isStream :
    (answeredByContract greeting).IsStream greeted.client.networkHandler (okHead.bytes ++ []) greeting := by
  have hhandler : greeted.client.networkHandler = (.holding okHead.bytes, [] ++ greeting) := by
    rw [greeted, makeConnection_networkHandler, newClient, HTTPProxyClient.create,
      streamWrite_plainConnect]
  rw [hhandler, List.append_nil]
  exact holding_isStream (by decide) greeting greeting

theorem greeted_run :
    (relaySystem (answeredBy greeting)).Run greeted [5] (greeted.after (answeredBy greeting) 5) := by
  apply System.Run.single
  refine ⟨?_, rfl⟩
  decide +kernel

theorem transparent_iff_greeting :
    (greeted.after (answeredBy greeting) 5).delivered =
        owed [] greeting (greeted.after (answeredBy greeting) 5).received ↔
      (greeted.after (answeredBy greeting) 5).received = [] :=
  transparent_iff greeted_init greeted_isStream greeted_run

/-- **The greeting arrives behind the proxy's head**: one read of 5 bytes returns 24. -/
theorem head_comes_out_of_tunnel :
    ∃ t, (relaySystem (answeredBy greeting)).init greeted ∧
      (answeredByContract greeting).IsStream greeted.client.networkHandler (okHead.bytes ++ []) greeting ∧
      (relaySystem (answeredBy greeting)).Run greeted [5] t ∧ t.received = [5] ∧
      t.delivered = str "HTTP/1.1 200 OK\r\n\r\nhello" ∧
      t.delivered ≠ owed [] greeting t.received :=
  ⟨_, greeted_init, greeted_isStream, greeted_run, by decide +kernel, by decide +kernel,
    by decide +kernel⟩

end Blueth.Http
