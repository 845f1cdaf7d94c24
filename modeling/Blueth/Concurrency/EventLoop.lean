/-
# Blueth.Concurrency.EventLoop — `AsyncEpollEventLoop`: registration and dispatch
(`concurrency/AsyncEventLoop.hpp`, `concurrency/internal/EventLoopBase.hpp`).

The state holds both sides of the loop. Of the kernel: the table of open descriptors, with the socket
each of them stands for, and the epoll interest table with the `data.ptr` of every entry. Of the program:
the three callback slots, the `PeerStateHolder` objects ever made (a pointer is an index, an object is
never made twice, a deletion is counted) and what is left of the batch `epoll_wait` filled in.

One step of `eventLoop` is a return of `epoll_wait` or the dispatch of ONE entry of the batch. The
environment chooses the ready descriptors, the answer of `accept`, the `FDStatus` a callback returns and
whether `epoll_ctl` succeeds. A callback is a value of an arbitrary type: only which one is called, and
with which holder, matters. Reading a deleted holder is `LoopStep.fault`.

The read and the write branch of the dispatch are the same code up to the slot they call, so they are one
definition here (`servePeer`). The `else` of `registerCallbackForEvent` is for values outside the
enumeration, which `EventType` does not have.
-/
import Blueth.Transition.System
import Mathlib.Logic.Function.Basic

set_option autoImplicit false

namespace Blueth.Concurrency

open Blueth.Transition (System)

/-! ## Statuses, events, registration -/

/-- `FDStatus`: what a callback wants its descriptor to be watched for. -/
structure FDStatus where
  wantRead : Bool
  wantWrite : Bool
  deriving DecidableEq, Repr

/-- `EPOLLIN`. -/
def epollIn : UInt32 := 0x001

/-- `EPOLLOUT`. -/
def epollOut : UInt32 := 0x004

/-- The interest set of a status. -/
def FDStatus.events (status : FDStatus) : UInt32 :=
  (if status.wantRead then epollIn else 0) ||| (if status.wantWrite then epollOut else 0)

/-- The status wants something. -/
def FDStatus.Wants (status : FDStatus) : Prop := status.wantRead = true ∨ status.wantWrite = true

instance (status : FDStatus) : Decidable status.Wants := inferInstanceAs (Decidable (_ ∨ _))

theorem FDStatus.events_eq_zero_iff (status : FDStatus) : status.events = 0 ↔ ¬ status.Wants := by
  obtain ⟨r, w⟩ := status
  cases r <;> cases w <;> decide

inductive EventType where
  | writeEvent
  | readEvent
  | acceptEvent
  deriving DecidableEq, Repr

variable {γ : Type*}

/-- The three slots; an empty `std::function` is `none`. -/
structure Callbacks (γ : Type*) where
  onAccept : Option γ
  onRead : Option γ
  onWrite : Option γ

/-- `registerCallbackForEvent(callback, event)`. -/
def registerCallbackForEvent (slots : Callbacks γ) (callback : γ) : EventType → Callbacks γ
  | .readEvent => { slots with onWrite := some callback }
  | .writeEvent => { slots with onRead := some callback }
  | .acceptEvent => { slots with onAccept := some callback }

/-- The slots after a sequence of registrations. -/
def registerAll (regs : List (γ × EventType)) : Callbacks γ :=
  regs.foldl (fun slots reg => registerCallbackForEvent slots reg.1 reg.2) ⟨none, none, none⟩

/-! ## The state of the loop -/

/-- A `PeerStateHolder`, with the deletions of it and of its `PeerState`, and the last status a callback
returned for it (none for the listening socket's holder, which no callback gets). -/
structure Holder where
  fd : ℕ
  holderDeletes : ℕ
  peerStateDeletes : ℕ
  last : Option FDStatus
  deriving DecidableEq, Repr

/-- An `epoll_event` as `epoll_wait` fills it in, with the descriptor it is about. -/
structure EpollEvent where
  about : ℕ
  ptr : ℕ
  events : UInt32
  deriving DecidableEq, Repr

/-- A call of a callback: which one, and with which holder. -/
structure Invocation (γ : Type*) where
  callback : γ
  holder : ℕ
  deriving DecidableEq, Repr

structure LoopState (γ : Type*) where
  callbacks : Callbacks γ
  socketFd : ℕ
  /-- every `PeerStateHolder` made so far, in order; the first is the listening socket's -/
  holders : List Holder
  /-- the open descriptors, each with the holder made for the socket it stands for -/
  openFds : ℕ → Option ℕ
  /-- the epoll table: `data.ptr` and the interest set of each watched descriptor -/
  interest : ℕ → Option (ℕ × UInt32)
  /-- what is left of `events_` -/
  batch : List EpollEvent
  invoked : List (Invocation γ)

/-- The answer of `accept`. -/
inductive AcceptAnswer where
  | connected (fd : ℕ)
  | wouldBlock
  | failed
  deriving DecidableEq, Repr

/-- The environment's side of the dispatch of one entry. -/
structure Answers where
  accept : AcceptAnswer
  /-- what the callback returns, if one is called -/
  status : FDStatus
  /-- whether `epoll_ctl` has the memory it needs -/
  ctl : Bool
  deriving DecidableEq, Repr

/-- How a dispatch ends. -/
inductive LoopStep (γ : Type*) where
  | next (s : LoopState γ)
  /-- an exception leaves `startEventloop` -/
  | threw (what : String)
  | fault

namespace LoopState

/-- The holder behind a pointer, unless it has been deleted. -/
def deref (s : LoopState γ) (ptr : ℕ) : Option Holder :=
  (s.holders[ptr]?).filter fun holder => holder.holderDeletes = 0

/-- `callback(peer_state, ev_loop)` returns `status`. -/
def invoke (s : LoopState γ) (callback : γ) (ptr : ℕ) (status : FDStatus) : LoopState γ :=
  { s with
    holders := s.holders.modify ptr fun holder => { holder with last := some status }
    invoked := s.invoked ++ [⟨callback, ptr⟩] }

/-- `new PeerStateHolder` and `new PeerState` for an accepted descriptor. -/
def newPeer (s : LoopState γ) (clientFd : ℕ) : LoopState γ :=
  { s with
    holders := s.holders ++ [⟨clientFd, 0, 0, none⟩]
    openFds := Function.update s.openFds clientFd (some s.holders.length) }

/-- `epoll_ctl` with `EPOLL_CTL_ADD` or `EPOLL_CTL_MOD`, once it succeeds. -/
def watch (s : LoopState γ) (fd ptr : ℕ) (events : UInt32) : LoopState γ :=
  { s with interest := Function.update s.interest fd (some (ptr, events)) }

/-- `close(fd)`, which also takes the descriptor out of the epoll table, and the two `delete`s. -/
def closePeer (s : LoopState γ) (fd ptr : ℕ) : LoopState γ :=
  { s with
    openFds := Function.update s.openFds fd none
    interest := Function.update s.interest fd none
    holders := s.holders.modify ptr fun holder =>
      { holder with
        holderDeletes := holder.holderDeletes + 1
        peerStateDeletes := holder.peerStateDeletes + 1 } }

/-- A new connection on the listening socket. -/
def acceptPeer (s : LoopState γ) (ans : Answers) : LoopStep γ :=
  match ans.accept with
  | .wouldBlock => .next s
  | .failed => .threw ""
  | .connected clientFd =>
    match s.callbacks.onAccept with
    | none => .threw "bad_function_call"
    | some callback =>
      -- `EPOLL_CTL_ADD` of a descriptor that is watched already fails with `EEXIST`
      if ans.ctl ∧ s.interest clientFd = none then
        .next (((s.newPeer clientFd).invoke callback s.holders.length ans.status).watch clientFd
          s.holders.length ans.status.events)
      else .threw ""

/-- A peer that is ready: call the slot, then close the peer or watch it for what it wants. -/
def servePeer (s : LoopState γ) (slot : Option γ) (fd ptr : ℕ) (ans : Answers) : LoopStep γ :=
  match slot with
  | none => .threw "bad_function_call"
  | some callback =>
    let s' := s.invoke callback ptr ans.status
    if ans.status.events = 0 then .next (s'.closePeer fd ptr)
    -- `EPOLL_CTL_MOD` of a descriptor that is not watched fails with `ENOENT`
    else if ans.ctl ∧ s.interest fd ≠ none then .next (s'.watch fd ptr ans.status.events)
    else .threw ""

/-- The body of the inner loop of `startEventloop`. -/
def dispatch (s : LoopState γ) (e : EpollEvent) (ans : Answers) : LoopStep γ :=
  match s.deref e.ptr with
  | none => .fault
  | some holder =>
    if holder.fd = s.socketFd then s.acceptPeer ans
    else if e.events &&& epollIn ≠ 0 then s.servePeer s.callbacks.onRead holder.fd e.ptr ans
    else if e.events &&& epollOut ≠ 0 then s.servePeer s.callbacks.onWrite holder.fd e.ptr ans
    else .next s

/-- The loop as the constructor and the registrations leave it. -/
def start (socketFd : ℕ) (regs : List (γ × EventType)) : LoopState γ where
  callbacks := registerAll regs
  socketFd := socketFd
  holders := [⟨socketFd, 0, 0, none⟩]
  openFds := Function.update (fun _ => none) socketFd (some 0)
  interest := Function.update (fun _ => none) socketFd (some (0, epollIn))
  batch := []
  invoked := []

end LoopState

/-- What can happen: `epoll_wait` reports descriptors, or the next reported one is dispatched. -/
inductive LoopLabel where
  | wait (ready : List EpollEvent)
  | dispatch (ans : Answers)

/-- `startEventloop`. A batch is not empty (an empty one ends the loop), names each descriptor at most
once and only watched ones, and carries the `data.ptr` the descriptor is watched with. `accept` returns a
descriptor that is not open. -/
def eventLoop (socketFd : ℕ) (regs : List (γ × EventType)) : System (LoopState γ) LoopLabel where
  init s := s = LoopState.start socketFd regs
  next s label s' :=
    match label with
    | .wait ready =>
      s.batch = [] ∧ ready ≠ [] ∧ (ready.map EpollEvent.about).Nodup ∧
        (∀ e ∈ ready, ∃ events, s.interest e.about = some (e.ptr, events)) ∧
        s' = { s with batch := ready }
    | .dispatch ans =>
      (∀ fd, ans.accept = .connected fd → s.openFds fd = none) ∧
        ∃ e rest, s.batch = e :: rest ∧ ({ s with batch := rest }).dispatch e ans = .next s'

namespace LoopState

/-! ## What one dispatch can do -/

/-- Everything a dispatch that goes on can have done. -/
inductive Dispatched (s : LoopState γ) (e : EpollEvent) (ans : Answers) (holder : Holder) :
    LoopState γ → Prop
  /-- nobody to accept, or a report that is neither `EPOLLIN` nor `EPOLLOUT` -/
  | idle (h : holder.fd = s.socketFd ∧ ans.accept = .wouldBlock ∨
      holder.fd ≠ s.socketFd ∧ e.events &&& epollIn = 0 ∧ e.events &&& epollOut = 0) :
      Dispatched s e ans holder s
  | accepted {clientFd : ℕ} {callback : γ} (hfd : holder.fd = s.socketFd)
      (haccept : ans.accept = .connected clientFd) (hslot : s.callbacks.onAccept = some callback) :
      Dispatched s e ans holder
        (((s.newPeer clientFd).invoke callback s.holders.length ans.status).watch clientFd
          s.holders.length ans.status.events)
  | closed {callback : γ} (hfd : holder.fd ≠ s.socketFd)
      (hslot : e.events &&& epollIn ≠ 0 ∧ s.callbacks.onRead = some callback ∨
        e.events &&& epollIn = 0 ∧ e.events &&& epollOut ≠ 0 ∧ s.callbacks.onWrite = some callback)
      (hwants : ¬ ans.status.Wants) :
      Dispatched s e ans holder ((s.invoke callback e.ptr ans.status).closePeer holder.fd e.ptr)
  | kept {callback : γ} (hfd : holder.fd ≠ s.socketFd)
      (hslot : e.events &&& epollIn ≠ 0 ∧ s.callbacks.onRead = some callback ∨
        e.events &&& epollIn = 0 ∧ e.events &&& epollOut ≠ 0 ∧ s.callbacks.onWrite = some callback)
      (hwants : ans.status.Wants) :
      Dispatched s e ans holder
        ((s.invoke callback e.ptr ans.status).watch holder.fd e.ptr ans.status.events)

variable {s s' : LoopState γ} {e : EpollEvent} {ans : Answers}

theorem servePeer_eq_next {slot : Option γ} {fd ptr : ℕ} (h : s.servePeer slot fd ptr ans = .next s') :
    ∃ callback, slot = some callback ∧
      ((¬ ans.status.Wants ∧ s' = (s.invoke callback ptr ans.status).closePeer fd ptr) ∨
        (ans.status.Wants ∧
          s' = (s.invoke callback ptr ans.status).watch fd ptr ans.status.events)) := by
  cases slot with
  | none => cases h
  | some callback =>
      refine ⟨callback, rfl, ?_⟩
      rw [servePeer] at h
      by_cases hzero : ans.status.events = 0
      · simp only [if_pos hzero] at h
        cases h
        exact .inl ⟨(ans.status.events_eq_zero_iff).mp hzero, rfl⟩
      · simp only [if_neg hzero] at h
        split at h
        · cases h
          refine .inr ⟨?_, rfl⟩
          by_contra hnot
          exact hzero ((ans.status.events_eq_zero_iff).mpr hnot)
        · cases h

/-- **The inversion of a dispatch.** -/
theorem dispatch_eq_next (h : s.dispatch e ans = .next s') :
    ∃ holder, s.deref e.ptr = some holder ∧ s.Dispatched e ans holder s' := by
  cases hd : s.deref e.ptr with
  | none => simp [dispatch, hd] at h
  | some holder =>
      refine ⟨holder, rfl, ?_⟩
      simp only [dispatch, hd] at h
      by_cases hfd : holder.fd = s.socketFd
      · rw [if_pos hfd, acceptPeer] at h
        cases haccept : ans.accept with
        | wouldBlock =>
            rw [haccept] at h
            cases h
            exact .idle (.inl ⟨hfd, haccept⟩)
        | failed =>
            rw [haccept] at h
            cases h
        | connected clientFd =>
            rw [haccept] at h
            cases hslot : s.callbacks.onAccept with
            | none => simp [hslot] at h
            | some callback =>
                simp only [hslot] at h
                split at h
                · cases h
                  exact .accepted hfd haccept hslot
                · cases h
      · rw [if_neg hfd] at h
        by_cases hin : e.events &&& epollIn ≠ 0
        · rw [if_pos hin] at h
          obtain ⟨callback, hslot, ⟨hw, rfl⟩ | ⟨hw, rfl⟩⟩ := servePeer_eq_next h
          · exact .closed hfd (.inl ⟨hin, hslot⟩) hw
          · exact .kept hfd (.inl ⟨hin, hslot⟩) hw
        · rw [if_neg hin] at h
          have hin0 : e.events &&& epollIn = 0 := not_not.mp hin
          by_cases hout : e.events &&& epollOut ≠ 0
          · rw [if_pos hout] at h
            obtain ⟨callback, hslot, ⟨hw, rfl⟩ | ⟨hw, rfl⟩⟩ := servePeer_eq_next h
            · exact .closed hfd (.inr ⟨hin0, hout, hslot⟩) hw
            · exact .kept hfd (.inr ⟨hin0, hout, hslot⟩) hw
          · rw [if_neg hout] at h
            cases h
            exact .idle (.inr ⟨hfd, hin0, not_not.mp hout⟩)

end LoopState

end Blueth.Concurrency
