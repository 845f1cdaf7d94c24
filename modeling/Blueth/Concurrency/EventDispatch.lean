/-
# Blueth.Concurrency.EventDispatch — which callback a ready descriptor reaches.

`registerCallbackForEvent` stores the callback for `ReadEvent` in `on_write_callback_` and the one for
`WriteEvent` in `on_read_callback_`; the dispatch calls `on_read_callback_` for `EPOLLIN`. Two case
analyses over three slots that are to be inverse to each other, and are with two wires crossed.

`observed` runs the loop beside a log of the calls that SHOULD be made: for each dispatched report the
callback last registered for its event, with the holder of the very descriptor it is about. The two logs
agree exactly as long as no ready peer has been served, or the two crossed callbacks are the same.
-/
import Blueth.Concurrency.PeerLifeCycle
import Mathlib.Data.List.Induction

set_option autoImplicit false

namespace Blueth.Concurrency

open Blueth.Transition (System)
open LoopState

variable {γ : Type*}

/-! ## Registration -/

/-- The callback last registered for an event. -/
def lastRegistered (regs : List (γ × EventType)) (event : EventType) : Option γ :=
  ((regs.filter fun reg => reg.2 = event).getLast?).map Prod.fst

theorem lastRegistered_append (regs : List (γ × EventType)) (callback : γ) (registered event : EventType) :
    lastRegistered (regs ++ [(callback, registered)]) event =
      if registered = event then some callback else lastRegistered regs event := by
  unfold lastRegistered
  by_cases h : registered = event
  · simp [List.filter_append, h]
  · simp [List.filter_append, h]

/-- **Where the registrations end up.** -/
theorem registerAll_eq (regs : List (γ × EventType)) :
    registerAll regs =
      ⟨lastRegistered regs .acceptEvent, lastRegistered regs .writeEvent,
        lastRegistered regs .readEvent⟩ := by
  induction regs using List.reverseRecOn with
  | nil => rfl
  | append_singleton regs reg ih =>
      obtain ⟨callback, registered⟩ := reg
      rw [registerAll, List.foldl_append]
      show registerCallbackForEvent (registerAll regs) callback registered = _
      simp only [lastRegistered_append, ih]
      cases registered <;> simp [registerCallbackForEvent]

/-! ## The calls that should be made -/

/-- A call, if there is a callback and a holder for it. -/
def call (callback : Option γ) (holder : Option ℕ) : List (Invocation γ) :=
  match callback, holder with
  | some callback, some holder => [⟨callback, holder⟩]
  | _, _ => []

/-- The report is of a peer, for reading or writing. -/
def ServesPeer (s : LoopState γ) (e : EpollEvent) : Prop :=
  e.about ≠ s.socketFd ∧ (e.events &&& epollIn ≠ 0 ∨ e.events &&& epollOut ≠ 0)

instance (s : LoopState γ) (e : EpollEvent) : Decidable (ServesPeer s e) :=
  inferInstanceAs (Decidable (_ ∧ _))

/-- **The call a report is to lead to.** On the listening socket, if there is a connection to accept, the
callback last registered for `AcceptEvent`, with the holder made for the connection; on a peer the one
last registered for `ReadEvent` or else `WriteEvent`, with the holder of the descriptor. -/
def expectedCall (regs : List (γ × EventType)) (s : LoopState γ) (e : EpollEvent) (ans : Answers) :
    List (Invocation γ) :=
  if e.about = s.socketFd then
    match ans.accept with
    | .connected _ => call (lastRegistered regs .acceptEvent) (some s.holders.length)
    | _ => []
  else if e.events &&& epollIn ≠ 0 then call (lastRegistered regs .readEvent) (s.openFds e.about)
  else if e.events &&& epollOut ≠ 0 then call (lastRegistered regs .writeEvent) (s.openFds e.about)
  else []

/-- The loop, the calls that should have been made so far, and how many ready peers were served. -/
structure Observed (γ : Type*) where
  loop : LoopState γ
  expected : List (Invocation γ)
  served : ℕ

/-- The event loop with its observer. -/
def observed (socketFd : ℕ) (regs : List (γ × EventType)) : System (Observed γ) LoopLabel where
  init o := o.loop = start socketFd regs ∧ o.expected = [] ∧ o.served = 0
  next o label o' :=
    (eventLoop socketFd regs).next o.loop label o'.loop ∧
      match label with
      | .wait _ => o'.expected = o.expected ∧ o'.served = o.served
      | .dispatch ans => ∃ e rest, o.loop.batch = e :: rest ∧
        o'.expected = o.expected ++ expectedCall regs o.loop e ans ∧
        o'.served = o.served + if ServesPeer o.loop e then 1 else 0

section Dispatch

variable {socketFd : ℕ} {regs : List (γ × EventType)}

variable {s s' : LoopState γ} {e : EpollEvent} {rest : List EpollEvent} {ans : Answers}

/-- **A report that serves no peer** leads to the call it should lead to, or to none. -/
theorem invoked_of_not_serves (h : s.LoopInv) (hcb : s.callbacks = registerAll regs)
    (hb : s.batch = e :: rest) (hstep : ({ s with batch := rest } : LoopState γ).dispatch e ans = .next s')
    (hserves : ¬ ServesPeer s e) : s'.invoked = s.invoked ++ expectedCall regs s e ans := by
  obtain ⟨c, hc, hfd, ha, hd⟩ := h.dispatched hb hstep
  rw [registerAll_eq] at hcb
  cases hd with
  | idle hidle =>
      show s.invoked = s.invoked ++ expectedCall regs s e ans
      rcases hidle with ⟨hlisten, haccept⟩ | ⟨hpeer, hin, hout⟩
      · rw [expectedCall, if_pos (hfd.symm.trans hlisten), haccept, List.append_nil]
      · have hne : e.about ≠ s.socketFd := fun heq => hpeer (hfd.trans heq)
        rw [expectedCall, if_neg hne, if_neg (not_not.mpr hin), if_neg (not_not.mpr hout),
          List.append_nil]
  | @accepted clientFd callback hlisten haccept hslot =>
      have hslot' : lastRegistered regs .acceptEvent = some callback :=
        (congrArg Callbacks.onAccept hcb).symm.trans hslot
      rw [expectedCall, if_pos (hfd.symm.trans hlisten), haccept, hslot']
      rfl
  | closed hpeer hslot _ =>
      refine absurd ⟨fun heq => hpeer (hfd.trans heq), ?_⟩ hserves
      exact hslot.imp And.left fun h => h.2.1
  | kept hpeer hslot _ =>
      refine absurd ⟨fun heq => hpeer (hfd.trans heq), ?_⟩ hserves
      exact hslot.imp And.left fun h => h.2.1

/-- **A report that serves a peer** leads to one call with the peer's own holder, but of the callback
registered for the other event. -/
theorem invoked_of_serves (h : s.LoopInv) (hcb : s.callbacks = registerAll regs)
    (hreg : ∀ event, lastRegistered regs event ≠ none) (hb : s.batch = e :: rest)
    (hstep : ({ s with batch := rest } : LoopState γ).dispatch e ans = .next s')
    (hserves : ServesPeer s e) :
    ∃ called wanted, s'.invoked = s.invoked ++ [⟨called, e.ptr⟩] ∧
      expectedCall regs s e ans = [⟨wanted, e.ptr⟩] ∧
      (called = wanted ↔ lastRegistered regs .readEvent = lastRegistered regs .writeEvent) := by
  obtain ⟨c, hc, hfd, ha, hd⟩ := h.dispatched hb hstep
  obtain ⟨reader, hreader⟩ := Option.ne_none_iff_exists'.mp (hreg .readEvent)
  obtain ⟨writer, hwriter⟩ := Option.ne_none_iff_exists'.mp (hreg .writeEvent)
  rw [registerAll_eq, hreader, hwriter] at hcb
  have hopen : s.openFds e.about = some e.ptr := by
    rw [← hfd]
    exact ha.opened
  have hslots : ∀ {callback : γ},
      (e.events &&& epollIn ≠ 0 ∧ s.callbacks.onRead = some callback ∨
        e.events &&& epollIn = 0 ∧ e.events &&& epollOut ≠ 0 ∧ s.callbacks.onWrite = some callback) →
      ∃ wanted, expectedCall regs s e ans = [⟨wanted, e.ptr⟩] ∧
        (callback = wanted ↔ lastRegistered regs .readEvent = lastRegistered regs .writeEvent) := by
    intro callback hslot
    rw [expectedCall, if_neg hserves.1, hopen, hreader, hwriter]
    rcases hslot with ⟨hin, hslot⟩ | ⟨hin, hout, hslot⟩
    · rw [hcb] at hslot
      cases hslot
      refine ⟨reader, by rw [if_pos hin]; rfl, ?_⟩
      rw [Option.some_inj, eq_comm]
    · rw [hcb] at hslot
      cases hslot
      refine ⟨writer, by rw [if_neg (not_not.mpr hin), if_pos hout]; rfl, ?_⟩
      rw [Option.some_inj]
  cases hd with
  | idle hidle =>
      rcases hidle with ⟨hlisten, -⟩ | ⟨-, hin, hout⟩
      · exact absurd (hfd.symm.trans hlisten) hserves.1
      · exact absurd hserves.2 (not_or.mpr ⟨not_not.mpr hin, not_not.mpr hout⟩)
  | accepted hlisten _ _ => exact absurd (hfd.symm.trans hlisten) hserves.1
  | closed _ hslot _ =>
      obtain ⟨wanted, hexpected, hiff⟩ := hslots hslot
      exact ⟨_, wanted, rfl, hexpected, hiff⟩
  | kept _ hslot _ =>
      obtain ⟨wanted, hexpected, hiff⟩ := hslots hslot
      exact ⟨_, wanted, rfl, hexpected, hiff⟩

/-- The slots do not change while the loop runs. -/
theorem callbacks_step {label : LoopLabel} (hn : (eventLoop socketFd regs).next s label s') :
    s'.callbacks = s.callbacks := by
  cases label with
  | wait ready =>
      obtain ⟨-, -, -, -, rfl⟩ := hn
      rfl
  | dispatch ans =>
      obtain ⟨-, e, rest, -, hstep⟩ := hn
      obtain ⟨holder, -, hd⟩ := dispatch_eq_next hstep
      cases hd <;> rfl

/-- What the observer adds to the invariant of the loop. -/
structure Observed.Inv (regs : List (γ × EventType)) (o : Observed γ) : Prop where
  loop : o.loop.LoopInv
  callbacks : o.loop.callbacks = registerAll regs
  length_eq : o.loop.invoked.length = o.expected.length
  agree_iff : o.loop.invoked = o.expected ↔
    lastRegistered regs .readEvent = lastRegistered regs .writeEvent ∨ o.served = 0

theorem observed_step {o o' : Observed γ} {label : LoopLabel} (h : o.Inv regs)
    (hreg : ∀ event, lastRegistered regs event ≠ none)
    (hn : (observed socketFd regs).next o label o') : o'.Inv regs := by
  obtain ⟨hloop, hobs⟩ := hn
  have hinv' := loopInv_step h.loop hloop
  have hcb' := (callbacks_step hloop).trans h.callbacks
  cases label with
  | wait ready =>
      obtain ⟨hexpected, hserved⟩ := hobs
      obtain ⟨-, -, -, -, heq⟩ := hloop
      have hinvoked : o'.loop.invoked = o.loop.invoked := by rw [heq]
      refine ⟨hinv', hcb', ?_, ?_⟩
      · rw [hinvoked, hexpected]
        exact h.length_eq
      · rw [hinvoked, hexpected, hserved]
        exact h.agree_iff
  | dispatch ans =>
      obtain ⟨-, e, rest, hb, hstep⟩ := hloop
      obtain ⟨e', rest', hb', hexpected, hserved⟩ := hobs
      rw [hb] at hb'
      cases hb'
      by_cases hserves : ServesPeer o.loop e
      · obtain ⟨called, wanted, hinvoked, hcall, hiff⟩ :=
          invoked_of_serves h.loop h.callbacks hreg hb hstep hserves
        rw [hcall] at hexpected
        rw [if_pos hserves] at hserved
        refine ⟨hinv', hcb', ?_, ?_⟩
        · rw [hinvoked, hexpected, List.length_append, List.length_append, h.length_eq]
          rfl
        · rw [hinvoked, hexpected, hserved]
          constructor
          · intro heq
            obtain ⟨-, hlast⟩ := List.append_inj heq h.length_eq
            cases hlast
            exact .inl (hiff.mp rfl)
          · intro hcond
            have hsame := hcond.resolve_right (Nat.succ_ne_zero _)
            rw [h.agree_iff.mpr (.inl hsame), hiff.mpr hsame]
      · have hinvoked := invoked_of_not_serves h.loop h.callbacks hb hstep hserves
        rw [if_neg hserves, Nat.add_zero] at hserved
        refine ⟨hinv', hcb', ?_, ?_⟩
        · rw [hinvoked, hexpected, List.length_append, List.length_append, h.length_eq]
        · rw [hinvoked, hexpected, hserved, ← h.agree_iff]
          exact List.append_left_inj _

/-- **When events reach the callbacks registered for them**: in a run of a loop with a callback
registered for every event, the calls made are the calls that should be made if and only if no ready
peer has been served yet or the last callbacks for `ReadEvent` and `WriteEvent` are the same. -/
theorem invoked_eq_expected_iff (hreg : ∀ event, lastRegistered regs event ≠ none) {o : Observed γ}
    (h : (observed socketFd regs).Reachable o) :
    o.loop.invoked = o.expected ↔
      lastRegistered regs .readEvent = lastRegistered regs .writeEvent ∨ o.served = 0 := by
  have key : o.Inv regs := by
    apply h.invariant
    · intro o h₀
      obtain ⟨hloop, hexpected, hserved⟩ := h₀
      refine ⟨?_, ?_, ?_, ?_⟩
      · rw [hloop]
        exact loopInv_start socketFd regs
      · rw [hloop]
        rfl
      · rw [hloop, hexpected]
        rfl
      · rw [hloop, hexpected, hserved]
        exact ⟨fun _ => .inr rfl, fun _ => rfl⟩
    · intro o label o' _ ho hn
      exact observed_step ho hreg hn
  exact key.agree_iff

end Dispatch

/-- Read, write and accept callbacks 1, 2 and 0, the read callback being registered for writing too. -/
def oneHandler : List (ℕ × EventType) := [(1, .readEvent), (1, .writeEvent), (0, .acceptEvent)]

/-- Callbacks 1 for reading, 2 for writing, 0 for accepting. -/
def threeHandlers : List (ℕ × EventType) := [(1, .readEvent), (2, .writeEvent), (0, .acceptEvent)]

/-- A loop with one connected peer, on descriptor 4, whose accept callback wanted to read. -/
def onePeer (regs : List (ℕ × EventType)) : LoopState ℕ :=
  (((start 3 regs).newPeer 4).invoke 0 1 ⟨true, false⟩).watch 4 1 epollIn

/-- The peer is readable: the callback `called` is invoked for it, and wants to read on. -/
def peerServed (regs : List (ℕ × EventType)) (called : ℕ) : LoopState ℕ :=
  ((onePeer regs).invoke called 1 ⟨true, false⟩).watch 4 1 epollIn

/-- The run that accepts the peer and serves it once, for either list of registrations. -/
theorem peerServed_reachable {regs : List (ℕ × EventType)} {called wanted : ℕ}
    (hregs : regs = oneHandler ∧ called = 1 ∧ wanted = 1 ∨ regs = threeHandlers ∧ called = 2 ∧ wanted = 1) :
    (observed 3 regs).Reachable ⟨peerServed regs called, [⟨0, 1⟩, ⟨wanted, 1⟩], 1⟩ := by
  have h1 : (observed 3 regs).next ⟨start 3 regs, [], 0⟩ (.wait [⟨3, 0, epollIn⟩])
      ⟨{ start 3 regs with batch := [⟨3, 0, epollIn⟩] }, [], 0⟩ := ⟨next_wait_one rfl rfl, rfl, rfl⟩
  have h2 : (observed 3 regs).next ⟨{ start 3 regs with batch := [⟨3, 0, epollIn⟩] }, [], 0⟩
      (.dispatch ⟨.connected 4, ⟨true, false⟩, true⟩) ⟨onePeer regs, [⟨0, 1⟩], 0⟩ := by
    refine ⟨⟨?_, ⟨3, 0, epollIn⟩, [], rfl, ?_⟩, ⟨3, 0, epollIn⟩, [], rfl, ?_, ?_⟩
    · intro fd hfd
      cases hfd
      rfl
    · rcases hregs with ⟨rfl, -, -⟩ | ⟨rfl, -, -⟩ <;> rfl
    · rcases hregs with ⟨rfl, -, -⟩ | ⟨rfl, -, -⟩ <;> rfl
    · rfl
  have h3 : (observed 3 regs).next ⟨onePeer regs, [⟨0, 1⟩], 0⟩ (.wait [⟨4, 1, epollIn⟩])
      ⟨{ onePeer regs with batch := [⟨4, 1, epollIn⟩] }, [⟨0, 1⟩], 0⟩ := ⟨next_wait_one rfl rfl, rfl, rfl⟩
  have h4 : (observed 3 regs).next ⟨{ onePeer regs with batch := [⟨4, 1, epollIn⟩] }, [⟨0, 1⟩], 0⟩
      (.dispatch ⟨.wouldBlock, ⟨true, false⟩, true⟩)
      ⟨peerServed regs called, [⟨0, 1⟩, ⟨wanted, 1⟩], 1⟩ := by
    refine ⟨⟨nofun, ⟨4, 1, epollIn⟩, [], rfl, ?_⟩, ⟨4, 1, epollIn⟩, [], rfl, ?_, ?_⟩
    · rcases hregs with ⟨rfl, rfl, -⟩ | ⟨rfl, rfl, -⟩ <;> rfl
    · rcases hregs with ⟨rfl, -, rfl⟩ | ⟨rfl, -, rfl⟩ <;> rfl
    · rfl
  exact ⟨_, _, ⟨rfl, rfl, rfl⟩, .cons h1 (.cons h2 (.cons h3 (.single h4)))⟩

/-- With one callback for reading and writing the crossing does not show. -/
theorem invoked_eq_expected_oneHandler :
    (peerServed oneHandler 1).invoked = [⟨0, 1⟩, ⟨1, 1⟩] := by
  have hreg : ∀ event, lastRegistered oneHandler event ≠ none := by
    intro event
    cases event <;> decide
  exact (invoked_eq_expected_iff hreg
    (peerServed_reachable (.inl ⟨rfl, rfl, rfl⟩))).mpr (.inl rfl)

/-- **A readable peer reaches the callback registered for writing.** -/
theorem readable_peer_reaches_write_callback :
    (observed 3 threeHandlers).Reachable ⟨peerServed threeHandlers 2, [⟨0, 1⟩, ⟨1, 1⟩], 1⟩ ∧
      (peerServed threeHandlers 2).invoked ≠ [⟨0, 1⟩, ⟨1, 1⟩] :=
  ⟨peerServed_reachable (.inr ⟨rfl, rfl, rfl⟩), by decide⟩

end Blueth.Concurrency
