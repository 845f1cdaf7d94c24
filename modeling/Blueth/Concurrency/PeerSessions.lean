/-
# Blueth.Concurrency.PeerSessions — the peers of one event loop, each with a session of its own
(`concurrency/AsyncEventLoop.hpp`, `concurrency/internal/EventLoopBase.hpp`).

`server` is the loop of `Blueth.Concurrency.EventLoop` together with what its callbacks do. A callback is the
user's: it works on the `PeerState` of the holder it is handed, and what it reads and writes passes over the
socket that the holder's DESCRIPTOR stands for while it runs. The objects are found by a pointer, the socket by
a number that the kernel gives to the next connection as soon as a peer is closed.

A `session` knows neither: it is one connection, which is accepted, then served until a callback wants nothing.
`sessions_apart` says that a run of the server is nothing but sessions side by side. The calls made for a holder
and what passes over the socket it was made for are one session, from a new `PeerState` on, whoever else is
served in between and whichever descriptors are used again.
-/
import Blueth.Concurrency.EventDispatch
import Blueth.Transition.Simulation

set_option autoImplicit false

namespace Blueth.Concurrency

open Blueth.Transition (System)
open Blueth.Transition.System (copies ofCopy Simulation)
open LoopState

variable {γ σ β : Type*}

/-! ## The loop with its callbacks at work -/

/-- What the callbacks do: called for a peer in the first state, a callback may leave the second one and return
the status, with these transfers on the descriptor of the holder it was handed. -/
abbrev Behaviour (γ σ β : Type*) := γ → σ → List β → σ → FDStatus → Prop

/-- The loop, and the `PeerState` of every holder ever made. -/
structure Server (γ σ : Type*) where
  loop : LoopState γ
  peerStates : List σ

inductive ServerLabel (γ β : Type*) where
  | wait (ready : List EpollEvent)
  /-- a report is dispatched and no callback is called -/
  | idle (ans : Answers)
  /-- a callback is called; `socket` is the one its holder's descriptor stands for, by the holder made for it -/
  | called (ans : Answers) (socket : ℕ) (callback : γ) (transfers : List β)

/-- The loop when a dispatch has come to its callback, and the holder it hands over: that of the connection it
has just accepted, or the one the report points to. -/
def LoopState.atCall (s : LoopState γ) (e : EpollEvent) (ans : Answers) : LoopState γ × ℕ :=
  if (s.deref e.ptr).map Holder.fd = some s.socketFd then
    match ans.accept with
    | .connected clientFd => (s.newPeer clientFd, s.holders.length)
    | _ => (s, e.ptr)
  else (s, e.ptr)

/-- `startEventloop`, with callbacks that behave as given. `new` is what `new PeerState()` makes. -/
def server (socketFd : ℕ) (regs : List (γ × EventType)) (behaves : Behaviour γ σ β) (new : σ) :
    System (Server γ σ) (ServerLabel γ β) where
  init s := s.loop = start socketFd regs ∧ s.peerStates = [new]
  next s label s' :=
    match label with
    | .wait ready => (eventLoop socketFd regs).next s.loop (.wait ready) s'.loop ∧ s'.peerStates = s.peerStates
    | .idle ans =>
      (eventLoop socketFd regs).next s.loop (.dispatch ans) s'.loop ∧ s'.loop.invoked = s.loop.invoked ∧
        s'.peerStates = s.peerStates
    | .called ans socket callback transfers =>
      (eventLoop socketFd regs).next s.loop (.dispatch ans) s'.loop ∧
        ∃ e rest meanwhile holder c x x', s.loop.batch = e :: rest ∧
          s.loop.atCall e ans = (meanwhile, holder) ∧
          s'.loop.invoked = s.loop.invoked ++ [⟨callback, holder⟩] ∧
          meanwhile.holders[holder]? = some c ∧ meanwhile.openFds c.fd = some socket ∧
          -- a `PeerState` for each holder made in between
          (s.peerStates ++ List.replicate (meanwhile.holders.length - s.peerStates.length) new)[holder]?
            = some x ∧
          behaves callback x transfers x' ans.status ∧
          s'.peerStates =
            (s.peerStates ++ List.replicate (meanwhile.holders.length - s.peerStates.length) new).set holder x'

/-! ## One connection by itself -/

inductive Phase where
  | unaccepted
  | connected
  | over
  deriving DecidableEq, Repr

/-- A connection, with the state the program keeps for it. -/
structure Session (σ : Type*) where
  peerState : σ
  phase : Phase
  deriving DecidableEq, Repr

/-- A call made for a connection. -/
structure Visit (γ β : Type*) where
  callback : γ
  transfers : List β
  status : FDStatus

/-- **A session**: the accept callback on a new state, whatever it wants; then one of the other two callbacks at
a time, up to the one that wants nothing. -/
def session (slots : Callbacks γ) (behaves : Behaviour γ σ β) (new : σ) : System (Session σ) (Visit γ β) where
  init x := x = ⟨new, .unaccepted⟩
  next x visit x' :=
    behaves visit.callback x.peerState visit.transfers x'.peerState visit.status ∧
      match x.phase with
      | .unaccepted => slots.onAccept = some visit.callback ∧ x'.phase = .connected
      | .connected => (slots.onRead = some visit.callback ∨ slots.onWrite = some visit.callback) ∧
        x'.phase = if visit.status.Wants then .connected else .over
      | .over => False

/-- The session a step of the server belongs to, by the socket, and the call it is there. -/
def ServerLabel.visit : ServerLabel γ β → Option (ℕ × Visit γ β)
  | .wait _ => none
  | .idle _ => none
  | .called ans socket callback transfers => some (socket, ⟨callback, transfers, ans.status⟩)

/-- The calls during which the socket `k` was used. -/
def visitsOn (k : ℕ) (labels : List (ServerLabel γ β)) : List (Visit γ β) :=
  ofCopy k (labels.filterMap ServerLabel.visit)

/-- What the holder `k` and the table of descriptors say about the session `k`. -/
def Server.sessionOf (new : σ) (s : Server γ σ) (k : ℕ) : Session σ :=
  match s.loop.holders[k]?, s.peerStates[k]? with
  | some c, some x =>
    if k = 0 then ⟨new, .unaccepted⟩
    else ⟨x, if s.loop.openFds c.fd = some k then .connected else .over⟩
  | _, _ => ⟨new, .unaccepted⟩

section Apart

variable {socketFd : ℕ} {regs : List (γ × EventType)} {behaves : Behaviour γ σ β} {new : σ}
  {s s' s₀ : Server γ σ} {ptr fd k : ℕ} {c : Holder} {x : σ}

theorem sessionOf_eq (hc : s.loop.holders[k]? = some c) (hx : s.peerStates[k]? = some x) (hk : k ≠ 0) :
    s.sessionOf new k = ⟨x, if s.loop.openFds c.fd = some k then .connected else .over⟩ := by
  rw [Server.sessionOf, hc, hx]
  exact if_neg hk

theorem sessionOf_of_none (hc : s.loop.holders[k]? = none) : s.sessionOf new k = ⟨new, .unaccepted⟩ := by
  rw [Server.sessionOf, hc]

/-- **The other sessions do not notice** a step that changes one holder and one descriptor, which is nobody
else's before or after. -/
theorem sessionOf_of_agreesOff {batch : List EpollEvent}
    (ha : AgreesOff { s.loop with batch := batch } s'.loop ptr fd)
    (hbefore : s.loop.openFds fd = some ptr ∨ s.loop.openFds fd = none)
    (hafter : s'.loop.openFds fd = some ptr ∨ s'.loop.openFds fd = none)
    (hstates : s'.peerStates[k]? = s.peerStates[k]?) (hk : k ≠ ptr) :
    s'.sessionOf new k = s.sessionOf new k := by
  have hother : ∀ {t : Option ℕ}, t = some ptr ∨ t = none → t ≠ some k := by
    rintro t (rfl | rfl) hopen
    · cases hopen
      exact hk rfl
    · cases hopen
  have hphase : ∀ f, s'.loop.openFds f = some k ↔ s.loop.openFds f = some k := by
    intro f
    by_cases hf : f = fd
    · subst hf
      exact iff_of_false (hother hafter) (hother hbefore)
    · rw [ha.openFds f hf]
  simp only [Server.sessionOf, ha.holders k hk, hstates, hphase]

/-- What the server adds to the invariant of the loop. -/
structure Server.Inv (regs : List (γ × EventType)) (s : Server γ σ) : Prop where
  loop : s.loop.LoopInv
  callbacks : s.loop.callbacks = registerAll regs
  length_eq : s.peerStates.length = s.loop.holders.length

/-! ### What a call finds -/

variable {e : EpollEvent} {rest : List EpollEvent} {ans : Answers}

theorem atCall_accepted {clientFd : ℕ} (hderef : s.loop.deref e.ptr = some c) (hfd : c.fd = s.loop.socketFd)
    (haccept : ans.accept = .connected clientFd) :
    s.loop.atCall e ans = (s.loop.newPeer clientFd, s.loop.holders.length) := by
  rw [LoopState.atCall, hderef, Option.map_some, if_pos (congrArg some hfd), haccept]

theorem atCall_served (hderef : s.loop.deref e.ptr = some c) (hfd : c.fd ≠ s.loop.socketFd) :
    s.loop.atCall e ans = (s.loop, e.ptr) := by
  rw [LoopState.atCall, hderef, Option.map_some, if_neg fun h => hfd (Option.some.inj h)]

/-- **A connection is accepted**: its session has begun, on a new state. -/
theorem accepted_step (h : s.Inv regs) {clientFd : ℕ} {callback : γ} {transfers : List β}
    (hclosed : s.loop.openFds clientFd = none) (hslot : s.loop.callbacks.onAccept = some callback)
    (hbehaves : behaves callback new transfers x ans.status)
    (hholders : s'.loop.holders[s.loop.holders.length]? = some ⟨clientFd, 0, 0, some ans.status⟩)
    (hopen : s'.loop.openFds clientFd = some s.loop.holders.length)
    (ha : AgreesOff { s.loop with batch := rest } s'.loop s.loop.holders.length clientFd)
    (hstates : s'.peerStates = s.peerStates ++ [x]) :
    (copies ℕ (session (registerAll regs) behaves new)).Run (s.sessionOf new)
      [(s.loop.holders.length, ⟨callback, transfers, ans.status⟩)] (s'.sessionOf new) := by
  have hpos : s.loop.holders.length ≠ 0 := by
    intro h0
    have hl := h.loop.listener
    rw [List.getElem?_eq_none (by omega)] at hl
    cases hl
  have hx : s'.peerStates[s.loop.holders.length]? = some x := by
    rw [hstates, ← h.length_eq, List.getElem?_append_right (Nat.le_refl _), Nat.sub_self]
    rfl
  apply System.Run.single
  refine ⟨?_, ?_⟩
  · show (session (registerAll regs) behaves new).next (s.sessionOf new _) _ (s'.sessionOf new _)
    rw [sessionOf_of_none (List.getElem?_eq_none (Nat.le_refl _)), sessionOf_eq hholders hx hpos,
      if_pos hopen]
    exact ⟨hbehaves, h.callbacks ▸ hslot, rfl⟩
  · intro k hk
    apply sessionOf_of_agreesOff ha (.inr hclosed) (.inl hopen) _ hk
    rw [hstates]
    -- the holders in front of the new one have their states in front of it
    by_cases hlt : k < s.peerStates.length
    · exact List.getElem?_append_left hlt
    · have hlen := h.length_eq
      have hk' : k ≠ s.loop.holders.length := hk
      rw [List.getElem?_eq_none (by rw [List.length_append, List.length_singleton]; omega),
        List.getElem?_eq_none (by omega)]

/-- **A peer is served**: its session goes on, or is over. -/
theorem served_step (h : s.Inv regs) {callback : γ} {transfers : List β} {socket : ℕ} {x' : σ} {c' : Holder}
    (hc : s.loop.holders[ptr]? = some c) (halive : s.loop.Alive ptr c) (hpeer : c.fd ≠ s.loop.socketFd)
    (hslot : s.loop.callbacks.onRead = some callback ∨ s.loop.callbacks.onWrite = some callback)
    (hsocket : s.loop.openFds c.fd = some socket) (hx : s.peerStates[ptr]? = some x)
    (hbehaves : behaves callback x transfers x' ans.status)
    (hc' : s'.loop.holders[ptr]? = some c') (hfd : c'.fd = c.fd)
    (hopen : s'.loop.openFds c.fd = if ans.status.Wants then some ptr else none)
    (ha : AgreesOff { s.loop with batch := rest } s'.loop ptr c.fd)
    (hstates : s'.peerStates = s.peerStates.set ptr x') :
    (copies ℕ (session (registerAll regs) behaves new)).Run (s.sessionOf new)
      [(socket, ⟨callback, transfers, ans.status⟩)] (s'.sessionOf new) := by
  have hne : ptr ≠ 0 := fun h0 => hpeer ((h.loop.listener_iff hc halive).mpr h0)
  have hx' : s'.peerStates[ptr]? = some x' := by
    rw [hstates, List.getElem?_set_self (List.getElem?_eq_some_iff.mp hx).1]
  -- the descriptor stands for the socket the holder was made for
  cases halive.opened.symm.trans hsocket
  apply System.Run.single
  refine ⟨?_, ?_⟩
  · show (session (registerAll regs) behaves new).next (s.sessionOf new _) _ (s'.sessionOf new _)
    rw [sessionOf_eq hc hx hne, if_pos halive.opened, sessionOf_eq hc' hx' hne, hfd, hopen]
    refine ⟨hbehaves, h.callbacks ▸ hslot, ?_⟩
    by_cases hwants : ans.status.Wants <;> simp [hwants]
  · intro k hk
    refine sessionOf_of_agreesOff ha (.inl halive.opened) ?_ ?_ hk
    · rw [hopen]
      split
      · exact .inl rfl
      · exact .inr rfl
    · rw [hstates, List.getElem?_set_ne (Ne.symm hk)]

/-- The newest holder is the one made for the accepted descriptor. -/
theorem getElem?_newPeer (s : LoopState γ) (clientFd : ℕ) :
    (s.newPeer clientFd).holders[s.holders.length]? = some ⟨clientFd, 0, 0, none⟩ := by
  rw [newPeer, List.getElem?_append_right (Nat.le_refl _), Nat.sub_self]
  rfl

/-- A call is a step of the session of the socket it uses. -/
theorem called_step {socket : ℕ} {callback : γ} {transfers : List β} (h : s.Inv regs)
    (hn : (server socketFd regs behaves new).next s (.called ans socket callback transfers) s') :
    s'.peerStates.length = s'.loop.holders.length ∧
      (copies ℕ (session (registerAll regs) behaves new)).Run (s.sessionOf new)
        [(socket, ⟨callback, transfers, ans.status⟩)] (s'.sessionOf new) := by
  obtain ⟨⟨hfresh, e, rest, hb, hstep⟩, e', rest', meanwhile, holder, c, x, x', hb', hcall, hinvoked, hc,
    hsocket, hx, hbehaves, hstates⟩ := hn
  rw [hb] at hb'
  cases hb'
  obtain ⟨c₀, hc₀, -, halive, hd⟩ := h.loop.dispatched hb hstep
  have hderef : s.loop.deref e.ptr = some c₀ := deref_of_kept hc₀ halive.holder_kept
  have hlen := h.length_eq
  obtain ⟨loop', states'⟩ := s'
  cases hd with
  | idle _ => exact absurd hinvoked.symm (by simp)
  | @accepted clientFd callback' hlisten haccept hslot =>
      rw [atCall_accepted hderef hlisten haccept] at hcall
      cases hcall
      cases List.append_cancel_left hinvoked
      have hone : (s.loop.newPeer clientFd).holders.length - s.peerStates.length = 1 := by
        rw [newPeer, List.length_append, List.length_singleton]
        omega
      rw [hone, List.replicate_one, ← hlen] at hx hstates
      rw [List.getElem?_append_right (Nat.le_refl _), Nat.sub_self] at hx
      rw [List.set_append_right _ _ (Nat.le_refl _), Nat.sub_self] at hstates
      cases hx
      -- the socket is the one the new descriptor has just been opened for
      cases (getElem?_newPeer s.loop clientFd).symm.trans hc
      have hopen : (s.loop.newPeer clientFd).openFds clientFd = some s.loop.holders.length :=
        Function.update_self ..
      cases hopen.symm.trans hsocket
      refine ⟨?_, ?_⟩
      · have hstates' : states' = s.peerStates ++ [x'] := hstates
        simp [hstates', hlen, LoopState.invoke, newPeer]
      · exact accepted_step h (hfresh clientFd haccept) hslot hbehaves
          (holders_accepted_self _ clientFd callback ans.status) hopen
          (agreesOff_accepted _ clientFd callback ans.status) hstates
  | closed hpeer hslot hwants =>
      rw [atCall_served hderef hpeer] at hcall
      cases hcall
      cases List.append_cancel_left hinvoked
      cases hc₀.symm.trans hc
      rw [hlen, Nat.sub_self, List.replicate_zero, List.append_nil] at hx hstates
      refine ⟨?_, ?_⟩
      · have hstates' : states' = s.peerStates.set e.ptr x' := hstates
        simp [hstates', hlen, LoopState.invoke]
      · refine served_step h hc halive hpeer (hslot.imp And.right fun h => h.2.2) hsocket hx hbehaves
          (holders_closePeer_self (holders_invoke_self callback hc ans.status)) rfl ?_
          (agreesOff_closed _ e.ptr c.fd callback ans.status) hstates
        rw [if_neg hwants]
        exact Function.update_self ..
  | kept hpeer hslot hwants =>
      rw [atCall_served hderef hpeer] at hcall
      cases hcall
      cases List.append_cancel_left hinvoked
      cases hc₀.symm.trans hc
      rw [hlen, Nat.sub_self, List.replicate_zero, List.append_nil] at hx hstates
      refine ⟨?_, ?_⟩
      · have hstates' : states' = s.peerStates.set e.ptr x' := hstates
        simp [hstates', hlen, LoopState.invoke]
      · refine served_step h hc halive hpeer (hslot.imp And.right fun h => h.2.2) hsocket hx hbehaves
          (holders_invoke_self callback hc ans.status) rfl ?_
          (agreesOff_kept _ e.ptr c.fd callback ans.status) hstates
        rw [if_pos hwants]
        exact halive.opened

/-- A step without a call leaves all sessions as they are. -/
theorem quiet_step {batch : List EpollEvent} (h : s.Inv regs)
    (hloop : s'.loop = { s.loop with batch := batch }) (hstates : s'.peerStates = s.peerStates) :
    s'.peerStates.length = s'.loop.holders.length ∧ s'.sessionOf new = s.sessionOf new := by
  refine ⟨?_, ?_⟩
  · rw [hstates, hloop]
    exact h.length_eq
  · funext k
    rw [Server.sessionOf, Server.sessionOf, hloop, hstates]

/-- **One step of the server** is a step of one session, or of none. -/
theorem server_step {label : ServerLabel γ β} (h : s.Inv regs)
    (hn : (server socketFd regs behaves new).next s label s') :
    s'.Inv regs ∧ (copies ℕ (session (registerAll regs) behaves new)).Run (s.sessionOf new)
      label.visit.toList (s'.sessionOf new) := by
  have hinv : ∀ {l : LoopLabel}, (eventLoop socketFd regs).next s.loop l s'.loop →
      s'.peerStates.length = s'.loop.holders.length → s'.Inv regs :=
    fun hl hlen => ⟨loopInv_step h.loop hl, (callbacks_step hl).trans h.callbacks, hlen⟩
  cases label with
  | wait ready =>
      obtain ⟨hl, hstates⟩ := hn
      obtain ⟨hlen, hsame⟩ : _ ∧ s'.sessionOf new = s.sessionOf new := quiet_step h hl.2.2.2.2 hstates
      exact ⟨hinv hl hlen, hsame ▸ .nil _⟩
  | idle ans =>
      obtain ⟨hl, hinvoked, hstates⟩ := hn
      obtain ⟨-, e, rest, hb, hstep⟩ := id hl
      obtain ⟨c, -, -, -, hd⟩ := h.loop.dispatched hb hstep
      have hloop : s'.loop = { s.loop with batch := rest } := by
        obtain ⟨loop', states'⟩ := s'
        cases hd with
        | idle _ => rfl
        | accepted _ _ _ => exact absurd hinvoked (by simp [LoopState.invoke, newPeer])
        | closed _ _ _ => exact absurd hinvoked (by simp [LoopState.invoke])
        | kept _ _ _ => exact absurd hinvoked (by simp [LoopState.invoke])
      obtain ⟨hlen, hsame⟩ : _ ∧ s'.sessionOf new = s.sessionOf new := quiet_step h hloop hstates
      exact ⟨hinv hl hlen, hsame ▸ .nil _⟩
  | called ans socket callback transfers =>
      obtain ⟨hlen, hrun⟩ := called_step h hn
      exact ⟨hinv hn.1 hlen, hrun⟩

/-- **The server is sessions side by side.** -/
theorem server_simulates : Simulation (server socketFd regs behaves new)
    (copies ℕ (session (registerAll regs) behaves new)) ServerLabel.visit
    (fun s f => s.Inv regs ∧ f = s.sessionOf new) where
  init := by
    rintro ⟨loop, states⟩ ⟨rfl, rfl⟩
    refine ⟨_, ?_, ⟨loopInv_start socketFd regs, rfl, rfl⟩, rfl⟩
    intro k
    cases k with
    | zero => rfl
    | succ k => rfl
  step := by
    rintro s label s' f ⟨h, rfl⟩ hn
    obtain ⟨h', hrun⟩ := server_step h hn
    exact ⟨_, hrun, h', rfl⟩

/-- A session that a call has been made for has been accepted. -/
theorem visits_eq_nil {slots : Callbacks γ} {visits : List (Visit γ β)} {y y' : Session σ}
    (hr : (session slots behaves new).Run y visits y') (hy' : y'.phase = .unaccepted) : visits = [] := by
  cases hr with
  | nil => rfl
  | @cons _ t _ visit visits hn hr =>
      have hphase : ∀ {u u' : Session σ} {v : Visit γ β}, (session slots behaves new).next u v u' →
          u'.phase ≠ .unaccepted := by
        rintro u u' v ⟨-, hv⟩ hu'
        cases hu : u.phase <;> rw [hu] at hv
        · cases hv.2.symm.trans hu'
        · obtain ⟨-, hv⟩ := hv
          rw [hu'] at hv
          split at hv <;> cases hv
        · exact hv
      have hlast : y'.phase ≠ .unaccepted :=
        hr.preserves (I := fun u => u.phase ≠ .unaccepted) (fun _ _ _ _ => hphase) (hphase hn)
      exact absurd hy' hlast

/-- The run taken apart. -/
theorem session_runs {labels : List (ServerLabel γ β)} (h₀ : (server socketFd regs behaves new).init s₀)
    (hr : (server socketFd regs behaves new).Run s₀ labels s) :
    s.Inv regs ∧ ∀ k, (session (registerAll regs) behaves new).Run ⟨new, .unaccepted⟩ (visitsOn k labels)
      (s.sessionOf new k) := by
  obtain ⟨f, ⟨hinv, rfl⟩, hruns⟩ := server_simulates.run_copies h₀ hr
  refine ⟨hinv, ?_⟩
  intro k
  obtain ⟨y, rfl, hrun⟩ := hruns k
  exact hrun

theorem peerState_of_holder (h : s.Inv regs) (hc : s.loop.holders[k]? = some c) :
    ∃ x, s.peerStates[k]? = some x := by
  have hlt : k < s.peerStates.length := by
    rw [h.length_eq]
    exact (List.getElem?_eq_some_iff.mp hc).1
  exact ⟨_, List.getElem?_eq_getElem hlt⟩

/-- **Sessions apart.** In every run, whatever the kernel reports and in which order, whichever descriptors it
uses again and whatever the callbacks do with the peer they are called for: the calls during which the socket of
the holder `k` was used, with what passed over it, are a session by themselves, and the `PeerState` of the holder
is the one this session leaves. A socket no holder was made for is never used, and the listening one neither. -/
theorem sessions_apart {labels : List (ServerLabel γ β)} (h₀ : (server socketFd regs behaves new).init s₀)
    (hr : (server socketFd regs behaves new).Run s₀ labels s) :
    (∀ k c, k ≠ 0 → s.loop.holders[k]? = some c → ∃ x, s.peerStates[k]? = some x ∧
      (session (registerAll regs) behaves new).Run ⟨new, .unaccepted⟩ (visitsOn k labels)
        ⟨x, if s.loop.openFds c.fd = some k then .connected else .over⟩) ∧
    ∀ k, k = 0 ∨ s.loop.holders[k]? = none → visitsOn k labels = [] := by
  obtain ⟨hinv, hruns⟩ := session_runs h₀ hr
  constructor
  · intro k c hk hc
    obtain ⟨x, hx⟩ := peerState_of_holder hinv hc
    refine ⟨x, hx, ?_⟩
    rw [← sessionOf_eq hc hx hk]
    exact hruns k
  · rintro k hk
    apply visits_eq_nil (hruns k)
    rcases hk with rfl | hnone
    · rw [Server.sessionOf]
      split <;> rfl
    · rw [sessionOf_of_none hnone]

/-! ### Callbacks that are made of steps -/

variable {α : Type*} {S : System σ α} {passes : α → List β}

/-- A callback that takes any steps of a system, some of which pass something over the socket. -/
def performs (S : System σ α) (passes : α → List β) : Behaviour γ σ β :=
  fun _ x transfers x' _ => ∃ as, S.Run x as x' ∧ transfers = as.flatMap passes

theorem session_performs {slots : Callbacks γ} {visits : List (Visit γ β)} {y y' : Session σ}
    (hr : (session slots (performs S passes) new).Run y visits y') :
    ∃ as, S.Run y.peerState as y'.peerState ∧ visits.flatMap Visit.transfers = as.flatMap passes := by
  induction hr with
  | nil y => exact ⟨[], .nil _, rfl⟩
  | cons hn _ ih =>
      obtain ⟨⟨as, has, htransfers⟩, -⟩ := hn
      obtain ⟨bs, hbs, hrest⟩ := ih
      refine ⟨as ++ bs, has.append hbs, ?_⟩
      rw [List.flatMap_cons, List.flatMap_append, htransfers, hrest]

/-- **Each peer runs by itself**: its state is where a run from a new one leads, and what this run passes over
the socket is what passed over this peer's. -/
theorem peer_runs {labels : List (ServerLabel γ β)}
    (h₀ : (server socketFd regs (performs S passes) new).init s₀)
    (hr : (server socketFd regs (performs S passes) new).Run s₀ labels s) (hk : k ≠ 0)
    (hc : s.loop.holders[k]? = some c) :
    ∃ x as, s.peerStates[k]? = some x ∧ S.Run new as x ∧
      (visitsOn k labels).flatMap Visit.transfers = as.flatMap passes := by
  obtain ⟨hinv, hruns⟩ := session_runs h₀ hr
  obtain ⟨x, hx⟩ := peerState_of_holder hinv hc
  obtain ⟨as, has, htransfers⟩ := session_performs (hruns k)
  rw [sessionOf_eq hc hx hk] at has
  exact ⟨x, as, hx, has, htransfers⟩

end Apart

/-- `epoll_wait` reports one descriptor. -/
theorem wait_one (socketFd : ℕ) (regs : List (γ × EventType)) (behaves : Behaviour γ σ β) (new : σ)
    {l : LoopState γ} {states : List σ} {e : EpollEvent} {events : UInt32} (hb : l.batch = [])
    (hw : l.interest e.about = some (e.ptr, events)) :
    (server socketFd regs behaves new).next ⟨l, states⟩ (.wait [e]) ⟨{ l with batch := [e] }, states⟩ :=
  ⟨next_wait_one hb hw, rfl⟩

/-! ## Two peers on one descriptor -/

/-- A callback that keeps what it has received. -/
def keeps : Behaviour ℕ (List ℕ) ℕ := fun _ x transfers x' _ => x' = x ++ transfers

/-- The first peer, on descriptor 4, is over. -/
def firstOver : LoopState ℕ := ((onePeer threeHandlers).invoke 2 1 ⟨false, false⟩).closePeer 4 1

/-- A second one has been accepted on descriptor 4. -/
def secondAccepted : LoopState ℕ := ((firstOver.newPeer 4).invoke 0 2 ⟨true, false⟩).watch 4 2 epollIn

/-- And served. -/
def secondServed : LoopState ℕ := (secondAccepted.invoke 2 2 ⟨true, false⟩).watch 4 2 epollIn

def reusedLabels : List (ServerLabel ℕ ℕ) :=
  [.wait [⟨3, 0, epollIn⟩], .called ⟨.connected 4, ⟨true, false⟩, true⟩ 1 0 [],
    .wait [⟨4, 1, epollIn⟩], .called ⟨.wouldBlock, ⟨false, false⟩, true⟩ 1 2 [7],
    .wait [⟨3, 0, epollIn⟩], .called ⟨.connected 4, ⟨true, false⟩, true⟩ 2 0 [],
    .wait [⟨4, 2, epollIn⟩], .called ⟨.wouldBlock, ⟨true, false⟩, true⟩ 2 2 [8]]

theorem reused_run : (server 3 threeHandlers keeps []).Run ⟨start 3 threeHandlers, [[]]⟩ reusedLabels
    ⟨secondServed, [[], [7], [8]]⟩ := by
  have hfree : ∀ {l : LoopState ℕ}, l.openFds 4 = none →
      ∀ fd, AcceptAnswer.connected 4 = .connected fd → l.openFds fd = none := by
    intro l hl fd hfd
    cases hfd
    exact hl
  have hwait := @wait_one ℕ (List ℕ) ℕ 3 threeHandlers keeps []
  refine .cons (hwait rfl rfl) (.cons (t := ⟨onePeer threeHandlers, [[], []]⟩) ?_
    (.cons (hwait rfl rfl) (.cons (t := ⟨firstOver, [[], [7]]⟩) ?_
      (.cons (hwait rfl rfl) (.cons (t := ⟨secondAccepted, [[], [7], []]⟩) ?_
        (.cons (hwait rfl rfl) (.single ?_)))))))
  · exact ⟨⟨hfree rfl, _, [], rfl, rfl⟩, _, [], _, _, ⟨4, 0, 0, none⟩, [], [], rfl, rfl, rfl, rfl, rfl, rfl,
      rfl, rfl⟩
  · exact ⟨⟨nofun, _, [], rfl, rfl⟩, _, [], _, _, ⟨4, 0, 0, some ⟨true, false⟩⟩, [], [7], rfl, rfl, rfl, rfl,
      rfl, rfl, rfl, rfl⟩
  · exact ⟨⟨hfree rfl, _, [], rfl, rfl⟩, _, [], _, _, ⟨4, 0, 0, none⟩, [], [], rfl, rfl, rfl, rfl, rfl, rfl,
      rfl, rfl⟩
  · exact ⟨⟨nofun, _, [], rfl, rfl⟩, _, [], _, _, ⟨4, 0, 0, some ⟨true, false⟩⟩, [], [8], rfl, rfl, rfl, rfl,
      rfl, rfl, rfl, rfl⟩

/-- The second peer's session has nothing of the first one's. -/
theorem sessions_apart_reused : (session (registerAll threeHandlers) keeps []).Run ⟨[], .unaccepted⟩
    [⟨0, [], ⟨true, false⟩⟩, ⟨2, [8], ⟨true, false⟩⟩] ⟨[8], .connected⟩ := by
  obtain ⟨x, hx, hrun⟩ := (sessions_apart ⟨rfl, rfl⟩ reused_run).1 2 ⟨4, 0, 0, some ⟨true, false⟩⟩
    (by decide) rfl
  cases hx
  exact hrun

end Blueth.Concurrency
