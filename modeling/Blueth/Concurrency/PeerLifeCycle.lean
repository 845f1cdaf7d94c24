/-
# Blueth.Concurrency.PeerLifeCycle — what becomes of an accepted peer.

`LoopInv` holds in every reachable state, whatever the environment does: a holder is either `Alive` (never
deleted, its descriptor open and watched for what its last callback wanted) or `Gone` (deleted once with
its peer state, its descriptor closed, its last callback having wanted nothing). So the only way in which
a peer can be open with a last status that wants nothing is the one the read and write branches close:
`on_accept_callback_` returning `WantNoReadWrite` gets its descriptor added to the epoll table with an
EMPTY interest set. The life cycle is exact in every run in which no accept callback does that.
-/
import Blueth.Concurrency.EventLoop
import Mathlib.Data.List.Nodup

set_option autoImplicit false

namespace Blueth.Concurrency

open Blueth.Transition (System)

variable {γ : Type*}

/-! ## The invariant -/

/-- What a holder's descriptor is watched for: the listening socket for connections, a peer for what its
last callback wanted. -/
def Holder.watchedFor (c : Holder) : UInt32 :=
  match c.last with
  | none => epollIn
  | some status => status.events

namespace LoopState

/-- The holder is in use: not deleted, its descriptor open and watched with a pointer back to it. -/
structure Alive (s : LoopState γ) (ptr : ℕ) (c : Holder) : Prop where
  holder_kept : c.holderDeletes = 0
  peerState_kept : c.peerStateDeletes = 0
  opened : s.openFds c.fd = some ptr
  watched : s.interest c.fd = some (ptr, c.watchedFor)

/-- The peer is over: its descriptor is closed and both objects are deleted, once. -/
structure Gone (s : LoopState γ) (ptr : ℕ) (c : Holder) : Prop where
  holder_deleted : c.holderDeletes = 1
  peerState_deleted : c.peerStateDeletes = 1
  closed : s.openFds c.fd ≠ some ptr
  ended : ∃ status, c.last = some status ∧ ¬ status.Wants

/-- **The invariant of the loop.** -/
structure LoopInv (s : LoopState γ) : Prop where
  listener : s.holders[0]? = some ⟨s.socketFd, 0, 0, none⟩
  cells : ∀ ptr c, s.holders[ptr]? = some c → s.Alive ptr c ∨ s.Gone ptr c
  answered : ∀ ptr c, s.holders[ptr]? = some c → c.last = none → ptr = 0
  table : ∀ fd ptr events, s.interest fd = some (ptr, events) →
    ∃ c, s.holders[ptr]? = some c ∧ c.fd = fd ∧ s.openFds fd = some ptr
  pending : ∀ e ∈ s.batch, ∃ c, s.holders[e.ptr]? = some c ∧ c.fd = e.about ∧
    s.openFds e.about = some e.ptr
  distinct : (s.batch.map EpollEvent.about).Nodup

/-- Two states that differ at most in one holder and one descriptor. -/
structure AgreesOff (s s' : LoopState γ) (ptr fd : ℕ) : Prop where
  socketFd : s'.socketFd = s.socketFd
  batch : s'.batch = s.batch
  holders : ∀ k, k ≠ ptr → s'.holders[k]? = s.holders[k]?
  openFds : ∀ f, f ≠ fd → s'.openFds f = s.openFds f
  interest : ∀ f, f ≠ fd → s'.interest f = s.interest f

section Invariant

variable {s s' : LoopState γ} {ptr fd : ℕ}

theorem LoopInv.alive (h : s.LoopInv) {c : Holder} (hc : s.holders[ptr]? = some c)
    (hopen : s.openFds c.fd = some ptr) : s.Alive ptr c :=
  (h.cells ptr c hc).resolve_right fun hgone => hgone.closed hopen

/-- Whoever has another descriptor is as alive as before. -/
theorem Alive.of_agreesOff {k : ℕ} {c : Holder} (h : s.Alive k c) (ha : AgreesOff s s' ptr fd)
    (hfd : c.fd ≠ fd) : s'.Alive k c := by
  refine ⟨h.holder_kept, h.peerState_kept, ?_, ?_⟩
  · rw [ha.openFds _ hfd]
    exact h.opened
  · rw [ha.interest _ hfd]
    exact h.watched

/-- Whoever is gone stays gone, unless the changed descriptor is given to it again. -/
theorem Gone.of_agreesOff {k : ℕ} {c : Holder} (h : s.Gone k c) (ha : AgreesOff s s' ptr fd)
    (hnot : s'.openFds fd ≠ some k) : s'.Gone k c := by
  refine ⟨h.holder_deleted, h.peerState_deleted, ?_, h.ended⟩
  by_cases hfd : c.fd = fd
  · rw [hfd]
    exact hnot
  · rw [ha.openFds _ hfd]
    exact h.closed

/-- **One holder and its descriptor change.** If the changed holder is in order again and nothing pending
is about its descriptor, the invariant is back: the others neither share the descriptor nor notice. -/
theorem LoopInv.of_agreesOff (h : s.LoopInv) (ha : AgreesOff s s' ptr fd) (hne : ptr ≠ 0)
    (howner : s.openFds fd = some ptr ∨ s.openFds fd = none)
    (hold : ∀ c, s.holders[ptr]? = some c → c.fd = fd)
    (hnew : ∃ c, s'.holders[ptr]? = some c ∧ c.fd = fd ∧ c.last ≠ none ∧
      (s'.Alive ptr c ∨ s'.Gone ptr c ∧ s'.openFds fd = none ∧ s'.interest fd = none))
    (hbatch : ∀ e ∈ s.batch, e.about ≠ fd) : s'.LoopInv := by
  obtain ⟨c₀, hc₀, hfd₀, hlast₀, hcell₀⟩ := hnew
  -- nobody else owns the descriptor, before or after
  have howner' : ∀ k, k ≠ ptr → s'.openFds fd ≠ some k := by
    intro k hk hopen
    rcases hcell₀ with halive | ⟨-, hnone, -⟩
    · have hself := halive.opened
      rw [hfd₀, hopen] at hself
      cases hself
      exact hk rfl
    · rw [hnone] at hopen
      cases hopen
  have hother : ∀ {k c}, k ≠ ptr → s.openFds c = some k → c ≠ fd := by
    intro k c hk hopen heq
    rw [heq] at hopen
    rcases howner with h0 | h0 <;> rw [h0] at hopen <;> cases hopen
    exact hk rfl
  have hpending : ∀ e ∈ s.batch, e.ptr ≠ ptr := by
    intro e he heq
    obtain ⟨c, hc, hcfd, -⟩ := h.pending e he
    rw [heq] at hc
    exact hbatch e he (hcfd.symm.trans (hold c hc))
  constructor
  · rw [ha.holders 0 (Ne.symm hne), ha.socketFd]
    exact h.listener
  · intro k c hc
    by_cases hk : k = ptr
    · subst hk
      rw [hc₀] at hc
      cases hc
      exact hcell₀.imp_right And.left
    · rw [ha.holders k hk] at hc
      rcases h.cells k c hc with halive | hgone
      · exact .inl (halive.of_agreesOff ha (hother hk halive.opened))
      · exact .inr (hgone.of_agreesOff ha (howner' k hk))
  · intro k c hc hnone
    by_cases hk : k = ptr
    · subst hk
      rw [hc₀] at hc
      cases hc
      exact absurd hnone hlast₀
    · rw [ha.holders k hk] at hc
      exact h.answered k c hc hnone
  · intro f k events hf
    by_cases hfd : f = fd
    · subst hfd
      rcases hcell₀ with halive | ⟨-, -, hnone⟩
      · have hwatch := halive.watched
        rw [hfd₀, hf] at hwatch
        cases hwatch
        exact ⟨c₀, hc₀, hfd₀, by rw [← hfd₀]; exact halive.opened⟩
      · rw [hnone] at hf
        cases hf
    · rw [ha.interest f hfd] at hf
      obtain ⟨c, hc, hcfd, hopen⟩ := h.table f k events hf
      have hk : k ≠ ptr := by
        intro heq
        rw [heq] at hc
        exact hfd (hcfd.symm.trans (hold c hc))
      exact ⟨c, by rw [ha.holders k hk]; exact hc, hcfd, by rw [ha.openFds f hfd]; exact hopen⟩
  · intro e he
    rw [ha.batch] at he
    obtain ⟨c, hc, hcfd, hopen⟩ := h.pending e he
    exact ⟨c, by rw [ha.holders _ (hpending e he)]; exact hc, hcfd,
      by rw [ha.openFds _ (hbatch e he)]; exact hopen⟩
  · rw [ha.batch]
    exact h.distinct

theorem openFds_start (socketFd : ℕ) (regs : List (γ × EventType)) :
    (start socketFd regs).openFds = Function.update (fun _ => none) socketFd (some 0) := rfl

theorem interest_start (socketFd : ℕ) (regs : List (γ × EventType)) :
    (start socketFd regs).interest = Function.update (fun _ => none) socketFd (some (0, epollIn)) := rfl

theorem loopInv_start (socketFd : ℕ) (regs : List (γ × EventType)) :
    (start socketFd regs).LoopInv := by
  have honly : ∀ k c, (start socketFd regs).holders[k]? = some c →
      k = 0 ∧ c = ⟨socketFd, 0, 0, none⟩ := by
    intro k c hc
    cases k with
    | zero =>
        cases hc
        exact ⟨rfl, rfl⟩
    | succ k => simp [start] at hc
  have hopen : (start socketFd regs).openFds socketFd = some 0 := by
    rw [openFds_start, Function.update_self]
  have hwatch : (start socketFd regs).interest socketFd = some (0, epollIn) := by
    rw [interest_start, Function.update_self]
  constructor
  · rfl
  · intro k c hc
    obtain ⟨rfl, rfl⟩ := honly k c hc
    exact .inl ⟨rfl, rfl, hopen, hwatch⟩
  · intro k c hc _
    exact (honly k c hc).1
  · intro fd k events hf
    by_cases hfd : fd = socketFd
    · rw [hfd, hwatch] at hf
      cases hf
      exact ⟨_, rfl, hfd.symm, by rw [hfd]; exact hopen⟩
    · rw [interest_start, Function.update_of_ne hfd] at hf
      cases hf
  · intro e he
    cases he
  · exact List.nodup_nil

/-- Only the last two clauses are about the batch. -/
theorem LoopInv.with_batch (h : s.LoopInv) {batch : List EpollEvent}
    (hpending : ∀ e ∈ batch, ∃ c, s.holders[e.ptr]? = some c ∧ c.fd = e.about ∧
      s.openFds e.about = some e.ptr)
    (hdistinct : (batch.map EpollEvent.about).Nodup) : ({ s with batch := batch } : LoopState γ).LoopInv where
  listener := h.listener
  cells := by
    intro k c hc
    rcases h.cells k c hc with ha | hg
    · exact .inl ⟨ha.holder_kept, ha.peerState_kept, ha.opened, ha.watched⟩
    · exact .inr ⟨hg.holder_deleted, hg.peerState_deleted, hg.closed, hg.ended⟩
  answered := h.answered
  table := h.table
  pending := hpending
  distinct := hdistinct

/-- `epoll_wait` reports watched descriptors, each once. -/
theorem LoopInv.wait (h : s.LoopInv) {ready : List EpollEvent}
    (hnodup : (ready.map EpollEvent.about).Nodup)
    (hready : ∀ e ∈ ready, ∃ events, s.interest e.about = some (e.ptr, events)) :
    ({ s with batch := ready } : LoopState γ).LoopInv := by
  apply h.with_batch _ hnodup
  intro e he
  obtain ⟨events, hw⟩ := hready e he
  exact h.table e.about e.ptr events hw

/-- The head of the batch is alive, and the rest of the batch is about other descriptors. -/
theorem LoopInv.head (h : s.LoopInv) {e : EpollEvent} {rest : List EpollEvent}
    (hb : s.batch = e :: rest) :
    ∃ c, s.holders[e.ptr]? = some c ∧ c.fd = e.about ∧ s.Alive e.ptr c ∧
      (∀ e' ∈ rest, e'.about ≠ c.fd) ∧ ({ s with batch := rest } : LoopState γ).LoopInv := by
  obtain ⟨c, hc, hfd, hopen⟩ := h.pending e (by rw [hb]; exact List.mem_cons_self)
  have hdistinct := h.distinct
  rw [hb, List.map_cons, List.nodup_cons] at hdistinct
  refine ⟨c, hc, hfd, h.alive hc (by rw [hfd]; exact hopen), ?_, ?_⟩
  · intro e' he' heq
    exact hdistinct.1 (List.mem_map.mpr ⟨e', he', heq.trans hfd⟩)
  · apply h.with_batch _ hdistinct.2
    intro e' he'
    exact h.pending e' (by rw [hb]; exact List.mem_cons_of_mem _ he')

/-- A holder that has not been deleted can be dereferenced. -/
theorem deref_of_kept {c : Holder} (hc : s.holders[ptr]? = some c) (h0 : c.holderDeletes = 0) :
    s.deref ptr = some c := by
  rw [deref, hc, Option.filter_some, if_pos (by simpa using h0)]

/-- **A dispatch that goes on**, with the holder it is about identified: the head of the batch was alive,
and is the holder the dispatch read. -/
theorem LoopInv.dispatched (h : s.LoopInv) {e : EpollEvent} {rest : List EpollEvent} {ans : Answers}
    (hb : s.batch = e :: rest) (hstep : ({ s with batch := rest } : LoopState γ).dispatch e ans = .next s') :
    ∃ c, s.holders[e.ptr]? = some c ∧ c.fd = e.about ∧ s.Alive e.ptr c ∧
      ({ s with batch := rest } : LoopState γ).Dispatched e ans c s' := by
  obtain ⟨c, hc, hfd, ha, -, -⟩ := h.head hb
  obtain ⟨holder, hderef, hd⟩ := dispatch_eq_next hstep
  have hself : ({ s with batch := rest } : LoopState γ).deref e.ptr = some c :=
    deref_of_kept hc ha.holder_kept
  rw [hself] at hderef
  cases hderef
  exact ⟨c, hc, hfd, ha, hd⟩

theorem holders_invoke (callback : γ) (k : ℕ) (status : FDStatus) (hk : k ≠ ptr) :
    (s.invoke callback ptr status).holders[k]? = s.holders[k]? :=
  List.getElem?_modify_ne _ _ (Ne.symm hk)

theorem holders_invoke_self (callback : γ) {c : Holder} (hc : s.holders[ptr]? = some c)
    (status : FDStatus) :
    (s.invoke callback ptr status).holders[ptr]? = some { c with last := some status } := by
  rw [invoke, List.getElem?_modify_eq, hc]
  rfl

theorem holders_closePeer_self {c : Holder} (hc : s.holders[ptr]? = some c) :
    (s.closePeer fd ptr).holders[ptr]? =
      some ⟨c.fd, c.holderDeletes + 1, c.peerStateDeletes + 1, c.last⟩ := by
  rw [closePeer, List.getElem?_modify_eq, hc]
  rfl

theorem holders_newPeer {k : ℕ} (hk : k ≠ s.holders.length) :
    (s.newPeer fd).holders[k]? = s.holders[k]? := by
  show (s.holders ++ [⟨fd, 0, 0, none⟩])[k]? = s.holders[k]?
  by_cases hlt : k < s.holders.length
  · exact List.getElem?_append_left hlt
  · have hlen : (s.holders ++ [(⟨fd, 0, 0, none⟩ : Holder)]).length ≤ k := by
      rw [List.length_append, List.length_singleton]
      omega
    rw [List.getElem?_eq_none hlen, List.getElem?_eq_none (by omega)]

theorem agreesOff_accepted (s : LoopState γ) (clientFd : ℕ) (callback : γ) (status : FDStatus) :
    AgreesOff s (((s.newPeer clientFd).invoke callback s.holders.length status).watch clientFd
      s.holders.length status.events) s.holders.length clientFd where
  socketFd := rfl
  batch := rfl
  holders := by
    intro k hk
    show ((s.newPeer clientFd).invoke callback s.holders.length status).holders[k]? = _
    rw [holders_invoke _ _ _ hk]
    exact holders_newPeer hk
  openFds := fun _ hf => Function.update_of_ne hf ..
  interest := fun _ hf => Function.update_of_ne hf ..

theorem agreesOff_kept (s : LoopState γ) (ptr fd : ℕ) (callback : γ) (status : FDStatus) :
    AgreesOff s ((s.invoke callback ptr status).watch fd ptr status.events) ptr fd where
  socketFd := rfl
  batch := rfl
  holders := fun k hk => holders_invoke callback k status hk
  openFds := fun _ _ => rfl
  interest := fun _ hf => Function.update_of_ne hf ..

theorem agreesOff_closed (s : LoopState γ) (ptr fd : ℕ) (callback : γ) (status : FDStatus) :
    AgreesOff s ((s.invoke callback ptr status).closePeer fd ptr) ptr fd where
  socketFd := rfl
  batch := rfl
  holders := by
    intro k hk
    rw [closePeer, List.getElem?_modify_ne _ _ (Ne.symm hk)]
    exact holders_invoke callback k status hk
  openFds := fun _ hf => Function.update_of_ne hf ..
  interest := fun _ hf => Function.update_of_ne hf ..

theorem holders_accepted_self (s : LoopState γ) (clientFd : ℕ) (callback : γ) (status : FDStatus) :
    ((s.newPeer clientFd).invoke callback s.holders.length status).holders[s.holders.length]?
      = some ⟨clientFd, 0, 0, some status⟩ := by
  have hnew : (s.newPeer clientFd).holders[s.holders.length]? = some ⟨clientFd, 0, 0, none⟩ := by
    rw [newPeer, List.getElem?_append_right (Nat.le_refl _), Nat.sub_self]
    rfl
  exact holders_invoke_self callback hnew status

/-- **A connection is accepted.** -/
theorem LoopInv.accepted (h : s.LoopInv) {clientFd : ℕ} (hclosed : s.openFds clientFd = none)
    (callback : γ) (status : FDStatus) :
    (((s.newPeer clientFd).invoke callback s.holders.length status).watch clientFd s.holders.length
      status.events).LoopInv := by
  have hpos : s.holders.length ≠ 0 := by
    intro h0
    have hl := h.listener
    rw [List.getElem?_eq_none (by omega)] at hl
    cases hl
  have hnone : s.holders[s.holders.length]? = none := List.getElem?_eq_none (Nat.le_refl _)
  apply h.of_agreesOff (agreesOff_accepted s clientFd callback status) hpos
  · exact .inr hclosed
  · intro c hc
    rw [hnone] at hc
    cases hc
  · refine ⟨_, holders_accepted_self s clientFd callback status, rfl, nofun,
      .inl ⟨rfl, rfl, ?_, ?_⟩⟩
    · exact Function.update_self ..
    · exact Function.update_self ..
  · intro e he heq
    obtain ⟨c, -, -, hopen⟩ := h.pending e he
    rw [heq, hclosed] at hopen
    cases hopen

/-- **A peer's callback wants something**: it is watched for that. -/
theorem LoopInv.kept (h : s.LoopInv) {c : Holder} (hc : s.holders[ptr]? = some c) (ha : s.Alive ptr c)
    (hne : ptr ≠ 0) (hbatch : ∀ e ∈ s.batch, e.about ≠ c.fd) (callback : γ) (status : FDStatus) :
    ((s.invoke callback ptr status).watch c.fd ptr status.events).LoopInv := by
  apply h.of_agreesOff (agreesOff_kept s ptr c.fd callback status) hne
  · exact .inl ha.opened
  · intro c' hc'
    rw [hc] at hc'
    cases hc'
    rfl
  · refine ⟨{ c with last := some status }, holders_invoke_self callback hc status, rfl, nofun,
      .inl ⟨ha.holder_kept, ha.peerState_kept, ha.opened, ?_⟩⟩
    exact Function.update_self ..
  · exact hbatch

/-- **A peer's callback wants nothing**: it is closed and deleted. -/
theorem LoopInv.closed (h : s.LoopInv) {c : Holder} (hc : s.holders[ptr]? = some c) (ha : s.Alive ptr c)
    (hne : ptr ≠ 0) (hbatch : ∀ e ∈ s.batch, e.about ≠ c.fd) (callback : γ) {status : FDStatus}
    (hwants : ¬ status.Wants) :
    ((s.invoke callback ptr status).closePeer c.fd ptr).LoopInv := by
  have hself := holders_invoke_self callback hc status
  have hopen : ((s.invoke callback ptr status).closePeer c.fd ptr).openFds c.fd = none :=
    Function.update_self ..
  have hwatch : ((s.invoke callback ptr status).closePeer c.fd ptr).interest c.fd = none :=
    Function.update_self ..
  apply h.of_agreesOff (agreesOff_closed s ptr c.fd callback status) hne
  · exact .inl ha.opened
  · intro c' hc'
    rw [hc] at hc'
    cases hc'
    rfl
  · refine ⟨_, holders_closePeer_self hself, rfl, nofun,
      .inr ⟨⟨?_, ?_, ?_, status, rfl, hwants⟩, hopen, hwatch⟩⟩
    · show c.holderDeletes + 1 = 1
      rw [ha.holder_kept]
    · show c.peerStateDeletes + 1 = 1
      rw [ha.peerState_kept]
    · show ((s.invoke callback ptr status).closePeer c.fd ptr).openFds c.fd ≠ some ptr
      rw [hopen]
      nofun
  · exact hbatch

end Invariant

end LoopState

/-! ## Runs -/

open LoopState

section Runs

variable {socketFd : ℕ} {regs : List (γ × EventType)} {s s' : LoopState γ}

/-- The listening socket's holder is the only one with its descriptor that is in use. -/
theorem LoopState.LoopInv.listener_iff (h : s.LoopInv) {ptr : ℕ} {c : Holder}
    (hc : s.holders[ptr]? = some c) (ha : s.Alive ptr c) : c.fd = s.socketFd ↔ ptr = 0 := by
  have hl := (h.cells 0 _ h.listener).resolve_right fun hgone => by
    obtain ⟨status, hlast, -⟩ := hgone.ended
    cases hlast
  constructor
  · intro hfd
    have hopen := ha.opened
    rw [hfd, hl.opened] at hopen
    cases hopen
    rfl
  · intro h0
    subst h0
    rw [h.listener] at hc
    cases hc
    rfl

/-- What a step of the loop is, once the invariant has identified the holders it meets. -/
theorem loopInv_step {label : LoopLabel} (h : s.LoopInv) (hn : (eventLoop socketFd regs).next s label s') :
    s'.LoopInv := by
  cases label with
  | wait ready =>
      obtain ⟨-, -, hnodup, hready, rfl⟩ := hn
      exact h.wait hnodup hready
  | dispatch ans =>
      obtain ⟨hfresh, e, rest, hb, hstep⟩ := hn
      obtain ⟨c, hc, hfd, ha, hd⟩ := h.dispatched hb hstep
      obtain ⟨_, hc₁, -, -, hrest, hinv⟩ := h.head hb
      cases hc₁.symm.trans hc
      have ha' : ({ s with batch := rest } : LoopState γ).Alive e.ptr c := ⟨ha.1, ha.2, ha.3, ha.4⟩
      have hne : c.fd ≠ s.socketFd → e.ptr ≠ 0 := fun hfd' h0 => hfd' ((h.listener_iff hc ha).mpr h0)
      cases hd with
      | idle _ => exact hinv
      | accepted _ haccept _ => exact hinv.accepted (hfresh _ haccept) _ _
      | closed hfd' _ hwants => exact hinv.closed hc ha' (hne hfd') hrest _ hwants
      | kept hfd' _ _ => exact hinv.kept hc ha' (hne hfd') hrest _ _

theorem loopInv_of_reachable (h : (eventLoop socketFd regs).Reachable s) : s.LoopInv := by
  apply h.invariant
  · intro s h₀
    rw [h₀]
    exact loopInv_start socketFd regs
  · intro s label s' _ hs hn
    exact loopInv_step hs hn

/-- **No dispatch reads a deleted holder**, in any run. -/
theorem dispatch_ne_fault (h : s.LoopInv) {e : EpollEvent} {rest : List EpollEvent}
    (hb : s.batch = e :: rest) (ans : Answers) :
    ({ s with batch := rest } : LoopState γ).dispatch e ans ≠ .fault := by
  obtain ⟨c, hc, -, ha, -, -⟩ := h.head hb
  have hderef : ({ s with batch := rest } : LoopState γ).deref e.ptr = some c := deref_of_kept hc ha.holder_kept
  have hserve : ∀ slot fd, ({ s with batch := rest } : LoopState γ).servePeer slot fd e.ptr ans ≠ .fault := by
    intro slot fd
    unfold servePeer
    split
    · nofun
    · dsimp only
      split
      · nofun
      · split <;> nofun
  unfold dispatch
  rw [hderef]
  dsimp only
  split
  · unfold acceptPeer
    split
    · nofun
    · nofun
    · split
      · nofun
      · split <;> nofun
  · split
    · exact hserve _ _
    · split
      · exact hserve _ _
      · nofun

/-! ## The life cycle -/

/-- **The life cycle of a peer**, by the last status a callback returned for it: wanting something it is
open, watched for exactly that, and neither object is deleted; wanting nothing it is closed, and both
objects are deleted once. -/
structure InOrder (s : LoopState γ) (ptr : ℕ) (c : Holder) (status : FDStatus) : Prop where
  open_iff : s.openFds c.fd = some ptr ↔ status.Wants
  kept : status.Wants → s.interest c.fd = some (ptr, status.events) ∧ c.holderDeletes = 0 ∧
    c.peerStateDeletes = 0
  ended : ¬ status.Wants → c.holderDeletes = 1 ∧ c.peerStateDeletes = 1

/-- Every peer a callback has been called for is in order. -/
def LifeCycle (s : LoopState γ) : Prop :=
  ∀ ptr c status, s.holders[ptr]? = some c → c.last = some status → InOrder s ptr c status

/-- No peer is open with a last status that wants nothing. -/
def OpenWant (s : LoopState γ) : Prop :=
  ∀ ptr c status, s.holders[ptr]? = some c → c.last = some status → s.openFds c.fd = some ptr →
    status.Wants

/-- **All that can be wrong**: in any reachable state the life cycle is exact unless some peer is open
with the empty interest set. -/
theorem lifeCycle_iff (h : s.LoopInv) : LifeCycle s ↔ OpenWant s := by
  constructor
  · intro hl ptr c status hc hlast hopen
    exact ((hl ptr c status hc hlast).open_iff).mp hopen
  · intro ho ptr c status hc hlast
    rcases h.cells ptr c hc with ha | hg
    · have hwants := ho ptr c status hc hlast ha.opened
      have hwatch := ha.watched
      rw [Holder.watchedFor, hlast] at hwatch
      exact ⟨⟨fun _ => hwants, fun _ => ha.opened⟩,
        fun _ => ⟨hwatch, ha.holder_kept, ha.peerState_kept⟩, fun hnot => absurd hwants hnot⟩
    · obtain ⟨status', hlast', hnot⟩ := hg.ended
      rw [hlast] at hlast'
      cases hlast'
      exact ⟨⟨fun hopen => absurd hopen hg.closed, fun hwants => absurd hwants hnot⟩,
        fun hwants => absurd hwants hnot, fun _ => ⟨hg.holder_deleted, hg.peerState_deleted⟩⟩

/-- The steps in which `on_accept_callback_`, if it is called, wants something. -/
def AcceptWants (s : LoopState γ) : LoopLabel → Prop
  | .wait _ => True
  | .dispatch ans =>
    ∀ e rest clientFd, s.batch = e :: rest → e.about = s.socketFd → ans.accept = .connected clientFd →
      ans.status.Wants

theorem openWant_of_agreesOff {ptr fd : ℕ} (h : OpenWant s) (ha : AgreesOff s s' ptr fd)
    (howner : ∀ k, k ≠ ptr → s'.openFds fd ≠ some k)
    (hnew : ∀ c status, s'.holders[ptr]? = some c → c.last = some status →
      s'.openFds c.fd = some ptr → status.Wants) : OpenWant s' := by
  intro k c status hc hlast hopen
  by_cases hk : k = ptr
  · subst hk
    exact hnew c status hc hlast hopen
  · have hfd : c.fd ≠ fd := by
      intro heq
      rw [heq] at hopen
      exact howner k hk hopen
    rw [ha.holders k hk] at hc
    rw [ha.openFds _ hfd] at hopen
    exact h k c status hc hlast hopen

theorem OpenWant.accepted (h : OpenWant s) (clientFd : ℕ) (callback : γ) {status : FDStatus}
    (hwants : status.Wants) :
    OpenWant (((s.newPeer clientFd).invoke callback s.holders.length status).watch clientFd
      s.holders.length status.events) := by
  apply openWant_of_agreesOff h (agreesOff_accepted s clientFd callback status)
  · intro k hk hopen
    have hself : Function.update s.openFds clientFd (some s.holders.length) clientFd = some k := hopen
    rw [Function.update_self] at hself
    cases hself
    exact hk rfl
  · intro c status' hc hlast _
    have hself := (holders_accepted_self s clientFd callback status).symm.trans hc
    cases hself
    cases hlast
    exact hwants

theorem OpenWant.kept (h : OpenWant s) {ptr : ℕ} {c : Holder} (hc : s.holders[ptr]? = some c)
    (ha : s.Alive ptr c) (callback : γ) {status : FDStatus} (hwants : status.Wants) :
    OpenWant ((s.invoke callback ptr status).watch c.fd ptr status.events) := by
  apply openWant_of_agreesOff h (agreesOff_kept s ptr c.fd callback status)
  · intro k hk hopen
    have hsame : s.openFds c.fd = some k := hopen
    rw [ha.opened] at hsame
    cases hsame
    exact hk rfl
  · intro c' status' hc' hlast _
    have hself := (holders_invoke_self callback hc status).symm.trans hc'
    cases hself
    cases hlast
    exact hwants

theorem OpenWant.closed (h : OpenWant s) {ptr : ℕ} {c : Holder} (hc : s.holders[ptr]? = some c)
    (callback : γ) (status : FDStatus) :
    OpenWant ((s.invoke callback ptr status).closePeer c.fd ptr) := by
  have hnone : ((s.invoke callback ptr status).closePeer c.fd ptr).openFds c.fd = none :=
    Function.update_self ..
  apply openWant_of_agreesOff h (agreesOff_closed s ptr c.fd callback status)
  · intro k _ hopen
    rw [hnone] at hopen
    cases hopen
  · intro c' status' hc' _ hopen
    have hself := (holders_closePeer_self (holders_invoke_self callback hc status)).symm.trans hc'
    cases hself
    rw [show _ = none from hnone] at hopen
    cases hopen

theorem openWant_step {label : LoopLabel} (hinv : s.LoopInv) (h : OpenWant s)
    (hcond : AcceptWants s label) (hn : (eventLoop socketFd regs).next s label s') : OpenWant s' := by
  cases label with
  | wait ready =>
      obtain ⟨-, -, -, -, rfl⟩ := hn
      exact h
  | dispatch ans =>
      obtain ⟨-, e, rest, hb, hstep⟩ := hn
      obtain ⟨c, hc, hfd, ha, hd⟩ := hinv.dispatched hb hstep
      have hrest : OpenWant ({ s with batch := rest } : LoopState γ) := h
      have ha' : ({ s with batch := rest } : LoopState γ).Alive e.ptr c := ⟨ha.1, ha.2, ha.3, ha.4⟩
      cases hd with
      | idle _ => exact h
      | accepted hfd' haccept _ =>
          exact hrest.accepted _ _ (hcond e rest _ hb (hfd.symm.trans hfd') haccept)
      | closed _ _ _ => exact hrest.closed hc _ _
      | kept _ _ hwants => exact hrest.kept hc ha' _ hwants

/-- **The peer life cycle**, in every run whose accept callbacks all want something: each peer is in
order in every state between two dispatches, and the next dispatch does not read a deleted holder. -/
theorem peer_life_cycle (h : ((eventLoop socketFd regs).only AcceptWants).Reachable s) :
    LifeCycle s ∧ ∀ e rest, s.batch = e :: rest → ∀ ans,
      ({ s with batch := rest } : LoopState γ).dispatch e ans ≠ .fault := by
  have hinv := loopInv_of_reachable h.of_only
  have hopen : OpenWant s := by
    apply h.invariant
    · intro s h₀
      rw [show s = _ from h₀]
      intro ptr c status hc hlast
      cases ptr with
      | zero =>
          cases hc
          cases hlast
      | succ ptr => simp [start] at hc
    · intro s label s' hs ho hn
      exact openWant_step (loopInv_of_reachable hs.of_only) ho hn.1 hn.2
  refine ⟨(lifeCycle_iff hinv).mpr hopen, ?_⟩
  intro e rest hb ans
  exact dispatch_ne_fault hinv hb ans

end Runs

/-- `epoll_wait` reports one descriptor. -/
theorem next_wait_one {socketFd : ℕ} {regs : List (γ × EventType)} {s : LoopState γ} {e : EpollEvent}
    {events : UInt32} (hb : s.batch = []) (hw : s.interest e.about = some (e.ptr, events)) :
    (eventLoop socketFd regs).next s (.wait [e]) { s with batch := [e] } := by
  refine ⟨hb, List.cons_ne_nil _ _, List.nodup_singleton _, ?_, rfl⟩
  intro e' he'
  cases List.mem_singleton.mp he'
  exact ⟨events, hw⟩

/-- Callback 0 accepts; callback 1 is registered for writing, and is called when a peer is readable. -/
def acceptAndRead : List (ℕ × EventType) := [(0, .acceptEvent), (1, .writeEvent)]

/-- A peer that wants to read, on descriptor 4, and another on descriptor 5. -/
def firstPeer : LoopState ℕ := (((start 3 acceptAndRead).newPeer 4).invoke 0 1 ⟨true, false⟩).watch 4 1 epollIn

def twoPeers : LoopState ℕ := ((firstPeer.newPeer 5).invoke 0 2 ⟨true, false⟩).watch 5 2 epollIn

/-- The first has been served, and goes on to write; -/
def firstServed : LoopState ℕ := (twoPeers.invoke 1 1 ⟨false, true⟩).watch 4 1 epollOut

/-- the second wants nothing more. -/
def secondOver : LoopState ℕ := (firstServed.invoke 1 2 ⟨false, false⟩).closePeer 5 2

theorem secondOver_reachable : ((eventLoop 3 acceptAndRead).only AcceptWants).Reachable
    { secondOver with batch := [⟨4, 1, epollOut⟩] } := by
  have hwait : ∀ {s : LoopState ℕ} (e : EpollEvent) (events : UInt32), s.batch = [] →
      s.interest e.about = some (e.ptr, events) →
      ((eventLoop 3 acceptAndRead).only AcceptWants).next s (.wait [e]) { s with batch := [e] } :=
    fun _ _ hb hw => ⟨trivial, next_wait_one hb hw⟩
  have hfree : ∀ {s : LoopState ℕ} {fd : ℕ}, s.openFds fd = none →
      ∀ fd', AcceptAnswer.connected fd = .connected fd' → s.openFds fd' = none := by
    intro s fd hs fd' hfd
    cases hfd
    exact hs
  have hboth : ((eventLoop 3 acceptAndRead).only AcceptWants).next twoPeers
      (.wait [⟨4, 1, epollIn⟩, ⟨5, 2, epollIn⟩])
      { twoPeers with batch := [⟨4, 1, epollIn⟩, ⟨5, 2, epollIn⟩] } := by
    refine ⟨trivial, rfl, nofun, by decide, ?_, rfl⟩
    rw [List.forall_mem_cons, List.forall_mem_singleton]
    exact ⟨⟨epollIn, rfl⟩, ⟨epollIn, rfl⟩⟩
  refine ⟨_, [_, .dispatch ⟨.connected 4, ⟨true, false⟩, true⟩, _, .dispatch ⟨.connected 5, ⟨true, false⟩, true⟩,
      _, .dispatch ⟨.wouldBlock, ⟨false, true⟩, true⟩, .dispatch ⟨.wouldBlock, ⟨false, false⟩, true⟩, _], rfl,
    .cons (hwait ⟨3, 0, epollIn⟩ epollIn rfl rfl) (.cons (t := firstPeer) ?_
      (.cons (hwait ⟨3, 0, epollIn⟩ epollIn rfl rfl) (.cons (t := twoPeers) ?_
        (.cons hboth (.cons (t := { firstServed with batch := [⟨5, 2, epollIn⟩] }) ?_
          (.cons (t := secondOver) ?_ (.single (hwait ⟨4, 1, epollOut⟩ epollOut rfl rfl))))))))⟩
  · exact ⟨fun _ _ _ _ _ _ => .inl rfl, hfree rfl, ⟨3, 0, epollIn⟩, [], rfl, rfl⟩
  · exact ⟨fun _ _ _ _ _ _ => .inl rfl, hfree rfl, ⟨3, 0, epollIn⟩, [], rfl, rfl⟩
  · exact ⟨nofun, nofun, ⟨4, 1, epollIn⟩, _, rfl, rfl⟩
  · exact ⟨nofun, nofun, ⟨5, 2, epollIn⟩, [], rfl, rfl⟩

/-- Two peers accepted with `WantRead`, one of them kept and one closed: both are in order, and the one that is
left can be dispatched. -/
theorem peer_life_cycle_wantRead :
    secondOver.holders = [⟨3, 0, 0, none⟩, ⟨4, 0, 0, some ⟨false, true⟩⟩, ⟨5, 1, 1, some ⟨false, false⟩⟩] ∧
      LifeCycle { secondOver with batch := [⟨4, 1, epollOut⟩] } ∧
      ∀ ans, secondOver.dispatch ⟨4, 1, epollOut⟩ ans ≠ .fault :=
  ⟨by decide, (peer_life_cycle secondOver_reachable).1, (peer_life_cycle secondOver_reachable).2 _ _ rfl⟩

/-- A loop on descriptor 3 with a connection waiting. -/
def oneWaiting : LoopState ℕ := { start 3 [(0, .acceptEvent)] with batch := [⟨3, 0, epollIn⟩] }

/-- It is accepted as descriptor 4, and the accept callback returns `status`. -/
def oneAccepted (status : FDStatus) : LoopState ℕ :=
  (((start 3 [(0, .acceptEvent)]).newPeer 4).invoke 0 1 status).watch 4 1 status.events

theorem next_oneAccepted (status : FDStatus) : (eventLoop 3 [(0, .acceptEvent)]).next oneWaiting
    (.dispatch ⟨.connected 4, status, true⟩) (oneAccepted status) := by
  refine ⟨?_, ⟨3, 0, epollIn⟩, [], rfl, rfl⟩
  intro fd hfd
  cases hfd
  rfl

/-- **`on_accept_callback_` returns `WantNoReadWrite`**: the peer stays open, watched for nothing, and
neither of its objects is deleted. -/
theorem accept_wants_nothing :
    (eventLoop 3 [(0, .acceptEvent)]).Reachable (oneAccepted ⟨false, false⟩) ∧
      ¬ LifeCycle (oneAccepted ⟨false, false⟩) := by
  refine ⟨⟨_, _, rfl, .cons (next_wait_one rfl rfl) (.single (next_oneAccepted _))⟩, ?_⟩
  intro h
  have hopen := ((h 1 ⟨4, 0, 0, some ⟨false, false⟩⟩ ⟨false, false⟩ rfl rfl).open_iff).mp rfl
  exact absurd hopen (by decide)

end Blueth.Concurrency
