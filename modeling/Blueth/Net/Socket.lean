/-
# Blueth.Net.Socket — which descriptors the `Socket` objects of a process close (`net/Socket.hpp`).

A `Socket` owns the descriptor `::socket` returned to its constructor: copying is deleted, moving swaps
every member, and `~Socket` calls `::close(_file_des)`. The owned descriptors are therefore names in
custody (`Blueth.Transition.Custody`), with the kernel's record on one side and the live objects on the
other. What spoils it is the object WITHOUT a descriptor. A default-constructed or moved-from `Socket`
does not say so: its `_file_des` is 0, which is a descriptor like any other, and its destructor closes it.

`_socket_sockaddr` is left out: it is written by `m_create_socket` and swapped like the rest, and none of
the operations here reads it. So are the operations that neither make nor close a descriptor held here.
-/
import Blueth.Transition.System
import Blueth.Transition.Custody
import Mathlib.Data.Int.Basic

set_option autoImplicit false

namespace Blueth.Net

open Blueth.Transition

/-! ## The objects -/

/-- The address families. -/
inductive Domain where
  | unix
  | ipv4
  | ipv6
  deriving DecidableEq, Repr

/-- The socket types. -/
inductive SockType where
  | stream
  | datagram
  deriving DecidableEq, Repr

/-- The members; a default is what the member is before a constructor's body runs, and `none` stands for
the indeterminate value of an enumeration that has no initialiser. -/
structure Socket where
  ipAddr : String := ""
  port : UInt16 := 0
  endpointBacklog : Int32 := 0
  domain : Option Domain := none
  fileDes : ℤ := 0
  sockType : Option SockType := none
  endpointSockaddrLen : UInt32 := 0
  deriving DecidableEq, Repr

namespace Socket

/-- `m_create_socket`, where `answer` is what `::socket` returned; on an error `err_check` ends the
process. -/
def createSocket (s : Socket) (answer : ℤ) : Option Socket :=
  if answer < 0 then none
  else some { s with fileDes := answer, endpointSockaddrLen := 16 }

/-- `Socket(IP_addr, port, backlog, communication_domain, socket_type)`. -/
def withAddress (ipAddr : String) (port : UInt16) (backlog : Int32) (communicationDomain : Domain)
    (socketType : SockType) (answer : ℤ) : Option Socket :=
  createSocket
    { ipAddr := ipAddr, port := port, endpointBacklog := backlog, domain := some communicationDomain,
      sockType := some socketType } answer

/-- The swaps of both move operations, on the target and the source. -/
def swapMembers (target source : Socket) : Socket × Socket :=
  ({ ipAddr := source.ipAddr
     port := source.port
     endpointBacklog := source.endpointBacklog
     domain := source.domain
     fileDes := source.fileDes
     sockType := source.sockType
     endpointSockaddrLen := source.endpointSockaddrLen },
   { ipAddr := target.ipAddr
     port := target.port
     endpointBacklog := target.endpointBacklog
     domain := target.domain
     fileDes := target.fileDes
     sockType := target.sockType
     endpointSockaddrLen := target.endpointSockaddrLen })

/-- No member is left out. -/
@[simp] theorem swapMembers_eq (target source : Socket) : swapMembers target source = (source, target) :=
  rfl

theorem fileDes_withAddress {ipAddr : String} {port : UInt16} {backlog : Int32} {domain : Domain}
    {sockType : SockType} {answer : ℤ} {s : Socket}
    (h : withAddress ipAddr port backlog domain sockType answer = some s) : s.fileDes = answer := by
  rw [withAddress, createSocket] at h
  split_ifs at h
  cases h
  rfl

end Socket

/-! ## The process -/

variable {ι : Type*}

/-- The objects that are alive, and the kernel's record of the descriptors `::socket` returned and
`::close` was called on, latest first. -/
structure Process (ι : Type*) where
  objects : ι → Option Socket
  record : List (Entry ℤ)

namespace Process

/-- The descriptors obtained from `::socket` and not closed since. -/
def owned (p : Process ι) : Finset ℤ := Entry.out p.record

/-- The value of `_file_des` in a live object. -/
def fileDes (p : Process ι) (i : ι) : Option ℤ := (p.objects i).map Socket.fileDes

/-- **The ownership of descriptors, at one moment.** -/
structure OwnedOnce (p : Process ι) : Prop where
  /-- `::close` was only called on descriptors obtained from `::socket` and not closed since -/
  exact : Entry.Exact p.record
  /-- each of these is held by exactly one live object, whose destructor is going to close it -/
  held : HeldOnce p.fileDes p.owned
  /-- when no object is left, each descriptor was closed as often as `::socket` returned it -/
  settled : (∀ i, p.objects i = none) →
    ∀ d, p.record.count (.handedOut d) = p.record.count (.handedBack d)

variable {p : Process ι} {i : ι} {s : Socket}

theorem fileDes_eq_none_iff : p.fileDes i = none ↔ p.objects i = none := by
  simp [fileDes]

theorem fileDes_of_objects (h : p.objects i = some s) : p.fileDes i = some s.fileDes := by
  simp [fileDes, h]

/-- The third clause follows from the first two. -/
theorem ownedOnce_iff : p.OwnedOnce ↔ Entry.Exact p.record ∧ HeldOnce p.fileDes p.owned := by
  constructor
  · exact fun h => ⟨h.exact, h.held⟩
  · rintro ⟨hexact, hheld⟩
    refine ⟨hexact, hheld, ?_⟩
    intro hnone d
    apply hexact.count_eq
    exact hheld.not_mem (fun i => fileDes_eq_none_iff.mpr (hnone i)) d

end Process

/-! ## What the program does with its objects -/

/-- An action; `answer` is what `::socket` returns. -/
inductive SocketAction (ι : Type*) where
  | defaultConstruct (target : ι)
  | construct (target : ι) (ipAddr : String) (port : UInt16) (backlog : Int32)
      (communicationDomain : Domain) (socketType : SockType) (answer : ℤ)
  | moveConstruct (target source : ι)
  | moveAssign (target source : ι)
  | destroy (target : ι)
  deriving DecidableEq

variable [DecidableEq ι]

namespace Process

/-- The process after one action, unless it ends or the objects are not there for it. -/
def act (p : Process ι) : SocketAction ι → Option (Process ι)
  | .defaultConstruct target =>
    match p.objects target with
    | some _ => none
    | none => some { p with objects := Function.update p.objects target (some {}) }
  | .construct target ipAddr port backlog communicationDomain socketType answer =>
    match p.objects target, Socket.withAddress ipAddr port backlog communicationDomain socketType answer with
    | none, some s =>
      some { objects := Function.update p.objects target (some s)
             record := .handedOut answer :: p.record }
    | _, _ => none
  | .moveConstruct target source =>
    match p.objects target, p.objects source with
    | none, some s =>
      let swapped := Socket.swapMembers {} s
      some { p with
        objects := Function.update (Function.update p.objects target (some swapped.1)) source
          (some swapped.2) }
    | _, _ => none
  | .moveAssign target source =>
    match p.objects target, p.objects source with
    | some t, some s =>
      let swapped := Socket.swapMembers t s
      some { p with
        objects := Function.update (Function.update p.objects target (some swapped.1)) source
          (some swapped.2) }
    | _, _ => none
  | .destroy target =>
    match p.objects target with
    | none => none
    | some s =>
      some { objects := Function.update p.objects target none
             record := .handedBack s.fileDes :: p.record }

/-- `::socket` does not return a descriptor that is open. -/
def FreshAnswer (p : Process ι) : SocketAction ι → Prop
  | .construct _ _ _ _ _ _ answer => answer ∉ p.owned
  | _ => True

end Process

/-- The actions of a program one a step, from no objects and no descriptors. -/
def socketUses (ι : Type*) [DecidableEq ι] : System (Process ι) (SocketAction ι) where
  init p := p = ⟨fun _ => none, []⟩
  next p action p' := p.FreshAnswer action ∧ p.act action = some p'

/-! ## Which actions keep the ownership -/

namespace Process

/-- The action does not mistake the 0 of an object without a descriptor for a descriptor. -/
def Careful (p : Process ι) : SocketAction ι → Prop
  | .defaultConstruct _ => 0 ∉ p.owned
  | .moveConstruct _ _ => 0 ∉ p.owned
  | .construct _ _ _ _ _ _ answer => ∀ i, p.fileDes i ≠ some answer
  | .moveAssign _ _ => True
  | .destroy target => ∀ d, p.fileDes target = some d → d ∈ p.owned

variable {p p' : Process ι} {action : SocketAction ι} {i j : ι}

theorem fileDes_update (o : Option Socket) (record : List (Entry ℤ)) :
    fileDes ⟨Function.update p.objects i o, record⟩
      = Function.update p.fileDes i (o.map Socket.fileDes) :=
  Function.comp_update _ _ _ _

/-- What the swaps do to the descriptors held. -/
theorem fileDes_swap {target source : Socket} (htarget : p.fileDes i = some target.fileDes)
    (hsource : p.fileDes j = some source.fileDes) (record : List (Entry ℤ)) :
    fileDes ⟨Function.update (Function.update p.objects i (some source)) j (some target), record⟩
      = p.fileDes ∘ Equiv.swap j i := by
  rw [Equiv.comp_swap_eq_update, hsource, htarget]
  funext k
  simp only [fileDes, Function.update_apply]
  split_ifs <;> rfl

theorem OwnedOnce.defaultConstruct_iff (h : p.OwnedOnce) (hact : p.act (.defaultConstruct i) = some p') :
    p'.OwnedOnce ↔ 0 ∉ p.owned := by
  simp only [act] at hact
  split at hact
  · cases hact
  · rename_i hnone
    cases hact
    rw [ownedOnce_iff, fileDes_update]
    apply (and_iff_right h.exact).trans
    exact heldOnce_update_iff h.held (fileDes_eq_none_iff.mpr hnone)

theorem OwnedOnce.construct_iff {ipAddr : String} {port : UInt16} {backlog : Int32} {domain : Domain}
    {sockType : SockType} {answer : ℤ} (h : p.OwnedOnce) (hfresh : answer ∉ p.owned)
    (hact : p.act (.construct i ipAddr port backlog domain sockType answer) = some p') :
    p'.OwnedOnce ↔ ∀ j, p.fileDes j ≠ some answer := by
  simp only [act] at hact
  split at hact
  · rename_i s hnone hs
    cases hact
    rw [ownedOnce_iff, fileDes_update, Option.map_some, Socket.fileDes_withAddress hs]
    show (answer ∉ p.owned ∧ Entry.Exact p.record) ∧ HeldOnce _ (insert answer p.owned) ↔ _
    apply (and_iff_right ⟨hfresh, h.exact⟩).trans
    exact heldOnce_insert_iff h.held (fileDes_eq_none_iff.mpr hnone) hfresh
  · cases hact

/-- Move assignment never matters, also not to the object itself. -/
theorem moveAssign_iff (hact : p.act (.moveAssign i j) = some p') : p'.OwnedOnce ↔ p.OwnedOnce := by
  simp only [act] at hact
  split at hact
  · rename_i target source htarget hsource
    cases hact
    simp only [Socket.swapMembers_eq]
    rw [ownedOnce_iff, ownedOnce_iff,
      fileDes_swap (fileDes_of_objects htarget) (fileDes_of_objects hsource)]
    exact and_congr_right fun _ => heldOnce_comp_equiv _
  · cases hact

/-- Move construction is default construction and a move assignment. -/
theorem act_moveConstruct (hact : p.act (.moveConstruct i j) = some p') :
    ∃ q, p.act (.defaultConstruct i) = some q ∧ q.act (.moveAssign i j) = some p' := by
  simp only [act] at hact
  split at hact
  · rename_i s hnone hs
    cases hact
    have hne : j ≠ i := by
      rintro rfl
      rw [hnone] at hs
      cases hs
    refine ⟨{ p with objects := Function.update p.objects i (some {}) }, ?_, ?_⟩
    · simp only [act, hnone]
    · simp only [act, Function.update_self, Function.update_of_ne hne, hs, Socket.swapMembers_eq,
        Function.update_idem]
  · cases hact

/-- A descriptor is closed that is not owned, or one that only this object held. -/
theorem OwnedOnce.destroy_iff (h : p.OwnedOnce) (hact : p.act (.destroy i) = some p') :
    p'.OwnedOnce ↔ ∀ d, p.fileDes i = some d → d ∈ p.owned := by
  simp only [act] at hact
  split at hact
  · cases hact
  · rename_i s hs
    cases hact
    have hi := fileDes_of_objects hs
    rw [ownedOnce_iff, fileDes_update, hi]
    show (s.fileDes ∈ p.owned ∧ Entry.Exact p.record) ∧
      HeldOnce (Function.update p.fileDes i none) (p.owned.erase s.fileDes) ↔ _
    constructor
    · rintro ⟨⟨hd, -⟩, -⟩ d hsd
      obtain rfl := Option.some.inj hsd
      exact hd
    · intro howned
      exact ⟨⟨howned _ rfl, h.exact⟩, h.held.erase hi⟩

/-- **What an action does to the ownership.** -/
theorem OwnedOnce.next_iff (h : p.OwnedOnce) (hstep : (socketUses ι).next p action p') :
    p'.OwnedOnce ↔ p.Careful action := by
  obtain ⟨hfresh, hact⟩ := hstep
  cases action with
  | defaultConstruct target => exact h.defaultConstruct_iff hact
  | construct target ipAddr port backlog communicationDomain socketType answer =>
      exact h.construct_iff hfresh hact
  | moveConstruct target source =>
      obtain ⟨q, hdefault, hassign⟩ := act_moveConstruct hact
      exact (moveAssign_iff hassign).trans (h.defaultConstruct_iff hdefault)
  | moveAssign target source => exact iff_of_true ((moveAssign_iff hact).mpr h) trivial
  | destroy target => exact h.destroy_iff hact

/-- Without objects and without descriptors there is nothing to lose. -/
theorem ownedOnce_init (h : (socketUses ι).init p) : p.OwnedOnce := by
  obtain rfl := h
  rw [ownedOnce_iff]
  refine ⟨trivial, ?_⟩
  intro d hd
  exact absurd hd (Finset.notMem_empty d)

end Process

/-! ## Runs -/

/-- **When descriptors are owned exactly once.** In every run, over any number of objects: in every state
it goes through, exactly when every object destroyed holds a descriptor of its own, no object without a
descriptor comes to life while descriptor 0 is owned, and `::socket` returns no number a live object
already has in its `_file_des`. -/
theorem ownedOnce_iff_careful {ι : Type*} [DecidableEq ι] {p p' : Process ι}
    {actions : List (SocketAction ι)} (hinit : (socketUses ι).init p)
    (hr : (socketUses ι).Run p actions p') :
    (∀ before behind q, actions = before ++ behind → (socketUses ι).Run p before q → q.OwnedOnce) ↔
      ((socketUses ι).only Process.Careful).Run p actions p' := by
  refine System.Run.always_iff ?_ ?_ ?_ (fun q hq => hq) hr (Process.ownedOnce_init hinit)
  · rintro q action r u ⟨-, hr⟩ ⟨-, hu⟩
    exact Option.some.inj (hr.symm.trans hu)
  · intro q action r hq hstep hcareful
    exact (hq.next_iff hstep).mpr hcareful
  · intro q action r hq hstep hr
    exact (hq.next_iff hstep).mp hr

/-- A `Socket` made for descriptor 3. -/
def servingSocket : Socket := ⟨"127.0.0.1", 8080, 10, some .ipv4, 3, some .stream, 16⟩

/-- Moved to a second object, its descriptor is closed by that one. -/
theorem ownedOnce_iff_careful_moved :
    ∃ p', (socketUses ℕ).Run ⟨fun _ => none, []⟩
        [.construct 0 "127.0.0.1" 8080 10 .ipv4 .stream 3, .moveConstruct 1 0, .destroy 1] p' ∧
      p'.record = [.handedBack 3, .handedOut 3] ∧ p'.OwnedOnce := by
  let made : Process ℕ := ⟨Function.update (fun _ => none) 0 (some servingSocket), [.handedOut 3]⟩
  let moved : Process ℕ :=
    ⟨Function.update (Function.update made.objects 1 (some servingSocket)) 0 (some {}), [.handedOut 3]⟩
  let closed : Process ℕ :=
    ⟨Function.update moved.objects 1 none, [.handedBack 3, .handedOut 3]⟩
  have hmake : ((socketUses ℕ).only Process.Careful).next ⟨fun _ => none, []⟩
      (.construct 0 "127.0.0.1" 8080 10 .ipv4 .stream 3) made := by
    refine ⟨fun _ h => ?_, Finset.notMem_empty (3 : ℤ), rfl⟩
    cases h
  have hmove : ((socketUses ℕ).only Process.Careful).next made (.moveConstruct 1 0) moved :=
    ⟨show (0 : ℤ) ∉ Entry.out [.handedOut 3] by decide, trivial, rfl⟩
  have hclose : ((socketUses ℕ).only Process.Careful).next moved (.destroy 1) closed := by
    refine ⟨fun d h => ?_, trivial, rfl⟩
    obtain rfl : 3 = d := Option.some.inj h
    exact Finset.mem_insert_self (3 : ℤ) ∅
  have hrun := System.Run.cons hmake (.cons hmove (.single hclose))
  refine ⟨closed, hrun.of_only, rfl, ?_⟩
  exact (ownedOnce_iff_careful rfl hrun.of_only).mpr hrun _ [] _ (List.append_nil _).symm hrun.of_only

/-- **An object without a descriptor**: a `Socket` default-constructed and destroyed closes descriptor 0,
which `::socket` never returned. -/
theorem default_socket_closes_zero :
    ∃ p', (socketUses ℕ).Run ⟨fun _ => none, []⟩ [.defaultConstruct 0, .destroy 0] p' ∧
      p'.record = [.handedBack 0] ∧ ¬ p'.OwnedOnce := by
  refine ⟨_, .cons ⟨trivial, rfl⟩ (.single ⟨trivial, rfl⟩), rfl, ?_⟩
  exact fun h => absurd h.exact.1 (by decide)

end Blueth.Net
