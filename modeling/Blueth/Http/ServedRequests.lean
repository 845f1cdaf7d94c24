/-
# Blueth.Http.ServedRequests — a server of requests on the event loop.

Everything from the listening socket to the parser: `startEventloop` with any number of peers, callbacks that
read with `readFromPeer` into the peer's own buffer, call `ParseHTTP1_1RequestMessage` on it, append an answer to
a second buffer and send it with `writeToPeer`, any of this in any order at any call. `served_requests` says what
each client gets from it: its requests are parsed as if it were the only one, from what came over its own
connection, and what goes out over that connection is what was answered to it.
-/
import Blueth.Concurrency.PeerSessions
import Blueth.Http.PeerMessages

set_option autoImplicit false

namespace Blueth.Http

open Blueth.Scan Blueth.Io Blueth.Io.RawIOBuffer Blueth.Concurrency
open Blueth.Transition (System)
open Blueth.Transition.System (Simulation)

/-! ## A peer -/

/-- What passes over a peer's socket. -/
inductive Passage where
  | received (bytes : List UInt8)
  | sent (bytes : List UInt8)
  deriving DecidableEq

def Passage.bytesReceived : Passage → List UInt8
  | .received bytes => bytes
  | .sent _ => []

def Passage.bytesSent : Passage → List UInt8
  | .received _ => []
  | .sent bytes => bytes

/-- A `PeerState`: a buffer with a parser behind it, and a buffer that answers are sent from. -/
structure HttpPeer where
  inbound : Connection RequestState
  outbound : Outbox

/-- What a callback may do, in any order. -/
inductive PeerStep where
  /-- `readFromPeer`, which has stored these bytes -/
  | read (bytes : List UInt8)
  /-- `ParseHTTP1_1RequestMessage` on the buffer -/
  | parsed
  /-- `modifyStartOffset`, by the size of the window the parser was shown -/
  | passed
  /-- `clear` -/
  | cleared
  /-- `appendRawBytes` to the second buffer -/
  | answer (data : List UInt8)
  /-- `writeToPeer`, which has sent these bytes -/
  | write (send : SendAnswer) (bytes : List UInt8)

namespace PeerStep

/-- What the step does to the first buffer. -/
def arrival : PeerStep → Option Arrival
  | .read bytes => some (.read bytes)
  | .parsed => some .parsed
  | .passed => some .passed
  | .cleared => some .cleared
  | _ => none

/-- What the step does to the second buffer. -/
def outCall : PeerStep → Option OutCall
  | .answer data => some (.append data)
  | .write send _ => some (.write send)
  | _ => none

/-- What the step passes over the socket. -/
def passages : PeerStep → List Passage
  | .read bytes => [.received bytes]
  | .write _ bytes => [.sent bytes]
  | _ => []

end PeerStep

/-- A peer of the server. A `send` takes nothing or the window. -/
def httpPeer : System HttpPeer PeerStep where
  init p := requestConnection.init p.inbound ∧ outbox.init p.outbound
  next p step p' :=
    (match step.arrival with
      | some arrival => requestConnection.next p.inbound arrival p'.inbound
      | none => p'.inbound = p.inbound) ∧
    (match step.outCall with
      | some call => (outbox.only SendsWindow).next p.outbound call p'.outbound
      | none => p'.outbound = p.outbound) ∧
    p'.outbound.wire = p.outbound.wire ++ step.passages.flatMap Passage.bytesSent

/-! ## Its two directions -/

section Directions

variable {p p' : HttpPeer} {steps : List PeerStep}

/-- What happens to the first buffer is a connection that is read for a request. -/
theorem httpPeer_inbound : Simulation httpPeer requestConnection PeerStep.arrival (fun p c => c = p.inbound) where
  init := fun p h => ⟨p.inbound, h.1, rfl⟩
  step := by
    rintro p step p' c rfl ⟨hin, -, -⟩
    refine ⟨p'.inbound, ?_, rfl⟩
    cases hstep : step.arrival with
    | some arrival =>
        rw [hstep] at hin
        exact .single hin
    | none =>
        rw [hstep] at hin
        dsimp only at hin
        rw [hin]
        exact .nil _

/-- What happens to the second one is a buffer that is written to a peer. -/
theorem httpPeer_outbound :
    Simulation httpPeer (outbox.only SendsWindow) PeerStep.outCall (fun p o => o = p.outbound) where
  init := fun p h => ⟨p.outbound, h.2, rfl⟩
  step := by
    rintro p step p' o rfl ⟨-, hout, -⟩
    refine ⟨p'.outbound, ?_, rfl⟩
    cases hstep : step.outCall with
    | some call =>
        rw [hstep] at hout
        exact .single hout
    | none =>
        rw [hstep] at hout
        dsimp only at hout
        rw [hout]
        exact .nil _

theorem received_step (q : Stream) (step : PeerStep) :
    (step.arrival.toList.foldl Stream.after q).received =
      q.received ++ step.passages.flatMap Passage.bytesReceived := by
  cases step <;> simp [PeerStep.arrival, PeerStep.passages, Passage.bytesReceived, Stream.after, Stream.received]

/-- The parser's connection has received what passed over the socket. -/
theorem received_steps (steps : List PeerStep) :
    (streamOf (steps.filterMap PeerStep.arrival)).received =
      (steps.flatMap PeerStep.passages).flatMap Passage.bytesReceived := by
  have key : ∀ q : Stream, ((steps.flatMap fun step => step.arrival.toList).foldl Stream.after q).received =
      q.received ++ (steps.flatMap PeerStep.passages).flatMap Passage.bytesReceived := by
    induction steps with
    | nil => exact fun q => (List.append_nil _).symm
    | cons step steps ih =>
        intro q
        rw [List.flatMap_cons, List.foldl_append, ih, received_step, List.flatMap_cons, List.flatMap_append,
          List.append_assoc]
  rw [streamOf, List.filterMap_eq_flatMap_toList]
  exact key .empty

/-- The wire is what passed over the socket. -/
theorem wire_steps (hr : httpPeer.Run p steps p') :
    p'.outbound.wire = p.outbound.wire ++ (steps.flatMap PeerStep.passages).flatMap Passage.bytesSent := by
  induction hr with
  | nil p => exact (List.append_nil _).symm
  | cons hn _ ih => rw [ih, hn.2.2, List.flatMap_cons, List.flatMap_append, List.append_assoc]

end Directions

/-! ## The server -/

section Served

variable {γ : Type*}

/-- What has come in over the connection of the holder `k`. -/
def receivedOn (k : ℕ) (labels : List (ServerLabel γ Passage)) : List UInt8 :=
  ((visitsOn k labels).flatMap Visit.transfers).flatMap Passage.bytesReceived

/-- What has gone out over it. -/
def sentOn (k : ℕ) (labels : List (ServerLabel γ Passage)) : List UInt8 :=
  ((visitsOn k labels).flatMap Visit.transfers).flatMap Passage.bytesSent

/-- The loop with callbacks of such steps, on a new `HttpPeer` for each connection. -/
abbrev httpServer (socketFd : ℕ) (regs : List (γ × EventType)) (new : HttpPeer) :
    System (Server γ HttpPeer) (ServerLabel γ Passage) :=
  server socketFd regs (performs httpPeer PeerStep.passages) new

variable {socketFd : ℕ} {regs : List (γ × EventType)} {new : HttpPeer} {s₀ s : Server γ HttpPeer}
  {labels : List (ServerLabel γ Passage)} {k : ℕ} {c : Holder}

/-- The peer, with what it has to do with what has passed over a connection: the parser is where one call on the
bytes `shown` would be, the bytes `waiting` lie behind what has not been passed over, and whatever was answered
has been sent or is left. -/
structure HttpPeer.Serves (p : HttpPeer) (received sent shown waiting : List UInt8) : Prop where
  received_eq : received = shown ++ waiting
  parsed : RequestIn shown p.inbound.parser.1 p.inbound.parser.2
  window : ∃ last, last <:+ shown ∧ last.length = (p.inbound.shown.getD 0).toNat ∧
    p.inbound.buffer.data = last ++ waiting
  answered : sent ++ p.outbound.buffer.data = p.outbound.appended

/-- A peer that has come from a new one serves what passed over its socket meanwhile. -/
theorem serves_of_run {p : HttpPeer} {steps : List PeerStep} (hnew : httpPeer.init new)
    (hr : httpPeer.Run new steps p) :
    ∃ shown waiting, p.Serves ((steps.flatMap PeerStep.passages).flatMap Passage.bytesReceived)
      ((steps.flatMap PeerStep.passages).flatMap Passage.bytesSent) shown waiting := by
  obtain ⟨_, hin, rfl⟩ := httpPeer_inbound.run hr rfl
  obtain ⟨_, hout, rfl⟩ := httpPeer_outbound.run hr rfl
  have hfollows := request_follows hnew.1 hin
  have hexact := outbox_exact ⟨_, _, hnew.2, hout⟩
  obtain ⟨past, last, hscanned, hlast, hdata, -⟩ := hfollows.window
  refine ⟨_, _, (received_steps steps).symm, requestIn_iff.mpr hfollows.parser,
    ⟨last, ⟨past, hscanned.symm⟩, hlast, hdata⟩, ?_⟩
  have hwire := wire_steps hr
  rw [hnew.2.2.1, List.nil_append] at hwire
  rw [← hwire]
  exact hexact.conserved

/-- **Requests are served apart.** In every run of the server, every connection it has accepted is served as if
it were the only one, from what has come in over this connection and with what has gone out over it. If its
client has sent a beginning of the text of a request, nothing is decided before the whole head has been shown to
the parser; from then on it has accepted, and the message is the request of this client, with as much of the body
as has been shown. -/
theorem served_requests (hnew : httpPeer.init new) (h₀ : (httpServer socketFd regs new).init s₀)
    (hr : (httpServer socketFd regs new).Run s₀ labels s) (hk : k ≠ 0)
    (hc : s.loop.holders[k]? = some c) :
    ∃ p shown waiting, s.peerStates[k]? = some p ∧
      p.Serves (receivedOn k labels) (sentOn k labels) shown waiting ∧
      ∀ (m : HTTPRequestMessage) (it : m.httpHeaders.Iteration), m.Plain →
        receivedOn k labels <+: m.buildRawMessage it →
        (shown.length < (headOf m it).bytes.length →
          ¬ p.inbound.parser.1.Accepting ∧ p.inbound.parser.1 ≠ .protocolError) ∧
        ((headOf m it).bytes.length ≤ shown.length →
          p.inbound.parser.1 = endState m.requestType ∧
          SameRequest (m.withBodyUpTo (shown.length - (headOf m it).bytes.length)) p.inbound.parser.2) := by
  obtain ⟨p, steps, hp, hrun, htransfers⟩ := peer_runs h₀ hr hk hc
  obtain ⟨shown, waiting, hrest⟩ := serves_of_run hnew hrun
  have hserves : p.Serves (receivedOn k labels) (sentOn k labels) shown waiting := by
    rw [receivedOn, sentOn, htransfers]
    exact hrest
  refine ⟨p, shown, waiting, hp, hserves, ?_⟩
  intro m it hm hbegins
  rw [hserves.received_eq] at hbegins
  exact requestIn_beginning hm it ((List.prefix_append _ _).trans hbegins) hserves.parsed

/-- A new peer has two buffers of 18 bytes. -/
def newPeer18 : HttpPeer := ⟨asyncStart, ⟨fresh.grown 18 fun _ => 0, [], []⟩⟩

def bareGetText : List UInt8 := bareGet.buildRawMessage (.ofInsertion _)

/-- It has read a request and called the parser. -/
def bareGetRead : HttpPeer := ⟨⟨⟨some bareGetText, 0, 18, 18⟩, asyncEnd.parser, some 18⟩, newPeer18.outbound⟩

theorem newPeer18_init : httpPeer.init newPeer18 := ⟨async_init, ⟨some fun _ => 0, 18, by decide⟩, rfl, rfl⟩

theorem bareGetRead_run : httpPeer.Run newPeer18 [.read bareGetText, .parsed] bareGetRead := by
  let filled : HttpPeer := ⟨⟨⟨some bareGetText, 0, 18, 18⟩, asyncStart.parser, none⟩, newPeer18.outbound⟩
  have h1 : httpPeer.next newPeer18 (.read bareGetText) filled := by
    refine ⟨⟨rfl, rfl, ⟨18, false, bareGetText⟩, ?_, ?_, ?_, ?_⟩, rfl, rfl⟩ <;> decide
  have h2 : httpPeer.next filled .parsed bareGetRead := by
    refine ⟨⟨rfl, ?_, rfl, 20, [], ?_⟩, rfl, rfl⟩ <;> decide
  exact .cons h1 (.single h2)

/-- One peer is accepted on descriptor 4 and served. -/
def oneServed : Server ℕ HttpPeer := ⟨peerServed threeHandlers 2, [newPeer18, bareGetRead]⟩

def oneServedLabels : List (ServerLabel ℕ Passage) :=
  [.wait [⟨3, 0, epollIn⟩], .called ⟨.connected 4, ⟨true, false⟩, true⟩ 1 0 [],
    .wait [⟨4, 1, epollIn⟩], .called ⟨.wouldBlock, ⟨true, false⟩, true⟩ 1 2 [.received bareGetText]]

theorem oneServed_run : (httpServer 3 threeHandlers newPeer18).Run ⟨LoopState.start 3 threeHandlers, [newPeer18]⟩
    oneServedLabels oneServed := by
  have hwait := @wait_one _ _ _ 3 threeHandlers (performs httpPeer PeerStep.passages) newPeer18
  refine .cons (hwait rfl rfl) (.cons (t := ⟨onePeer threeHandlers, [newPeer18, newPeer18]⟩) ?_
    (.cons (hwait rfl rfl) (.single ?_)))
  · refine ⟨⟨?_, _, [], rfl, rfl⟩, _, [], _, _, ⟨4, 0, 0, none⟩, newPeer18, newPeer18, rfl, rfl, rfl, rfl, rfl,
      rfl, ⟨[], .nil _, rfl⟩, rfl⟩
    intro fd hfd
    cases hfd
    rfl
  · exact ⟨⟨nofun, _, [], rfl, rfl⟩, _, [], _, _, ⟨4, 0, 0, some ⟨true, false⟩⟩, newPeer18, bareGetRead, rfl, rfl,
      rfl, rfl, rfl, rfl, ⟨_, bareGetRead_run, rfl⟩, rfl⟩

/-- The peer's request has arrived. -/
theorem served_requests_bareGet : bareGetRead.inbound.parser.1 = endState .get ∧
    ∃ n, SameRequest (bareGet.withBodyUpTo n) bareGetRead.inbound.parser.2 := by
  obtain ⟨p, shown, waiting, hp, hserves, hparsed⟩ := served_requests (k := 1)
    (c := ⟨4, 0, 0, some ⟨true, false⟩⟩) newPeer18_init ⟨rfl, rfl⟩ oneServed_run (by decide) rfl
  cases hp
  obtain ⟨last, hsuffix, hlast, -⟩ := hserves.window
  have hlong : (headOf bareGet (.ofInsertion _)).bytes.length ≤ shown.length :=
    le_of_eq_of_le hlast.symm hsuffix.length_le
  obtain ⟨hstate, hsame⟩ := (hparsed bareGet (.ofInsertion _) bareGet_plain (List.prefix_refl _)).2 hlong
  exact ⟨hstate, _, hsame⟩

end Served

end Blueth.Http
