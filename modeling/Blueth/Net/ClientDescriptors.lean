/-
# Blueth.Net.ClientDescriptors — which descriptors the stream clients of a process open, hold and close.

Both clients open a descriptor in the middle of their constructor and close it in `closeConnection`, which the
destructor calls. Between the two, `is_connected_` says whether the object has one to close. A constructor that
throws leaves no object behind, so what it has opened it must close itself: the TLS client does in the six steps
that are wolfSSL's, and not where `inet_pton` or `::connect` fails or the buffer cannot be allocated; the TCP
client never does. And `closeConnection` leaves `is_connected_` set where `::close` reports an error, though the
descriptor is gone then.

The kernel's record is the state below the objects (`Entry`, latest first). A call of `::close` hands the
descriptor back whatever it returns. Neither class can be copied or moved: a destructor is declared, and
`io_buffer_` cannot be copied. The sessions `ctx_` and `ssl_` hold no descriptor and are left out.
-/
import Blueth.Net.SyncNetworkStreamClientSSL
import Blueth.Transition.System
import Blueth.Transition.Custody
import Mathlib.Data.Int.Basic

set_option autoImplicit false

namespace Blueth.Net

open Blueth.Io Blueth.Transition

/-! ## The objects -/

inductive StreamProtocol where
  | tcp
  | udp
  deriving DecidableEq, Repr

/-- A client of either class: what the constructor is told and what it opens, and the fields the methods use. -/
structure StreamClient where
  /-- `endpoint_host_`, or `endpoint_ip_` -/
  endpoint : String
  endpointPort : UInt16
  endpointFd : ℤ
  streamProtocol : StreamProtocol
  stream : SyncNetworkStreamClient ⊕ SyncNetworkStreamClientSSL

namespace StreamClient

def isConnected (c : StreamClient) : Bool :=
  match c.stream with
  | .inl plain => plain.isConnected
  | .inr ssl => ssl.isConnected

/-- The descriptor the object is going to close. -/
def holds (c : StreamClient) : Option ℤ := if c.isConnected then some c.endpointFd else none

/-- `default_io_buffer_size`, in both classes. -/
def defaultIoBufferSize : UInt64 := 2048

end StreamClient

/-! ## Constructors -/

/-- What the constructor of the TCP client is answered, and the text of `errno` where it throws it. -/
structure TcpAnswers where
  /-- `::gethostbyname` found the host -/
  hostFound : Bool
  socket : ℤ
  connect : ℤ
  /-- the allocation of the buffer -/
  grant : Grant
  strerror : String

/-- `SyncNetworkStreamClient(endpoint_host, endpoint_port, stream_protocol)`. -/
def SyncNetworkStreamClient.construct (endpointHost : String) (endpointPort : UInt16)
    (streamProtocol : StreamProtocol) (k : TcpAnswers) (record : List (Entry ℤ)) :
    Answer StreamClient × List (Entry ℤ) :=
  if k.hostFound = false then (.threw k.strerror, record)
  else
    match streamProtocol with
    | .udp => (.threw "umimplemented error", record)
    | .tcp =>
      if k.socket < 0 then (.threw k.strerror, record)
      else if k.connect < 0 then (.threw k.strerror, .handedOut k.socket :: record)
      else
        match RawIOBuffer.create k.grant StreamClient.defaultIoBufferSize with
        | .returned b =>
          (.returned ⟨endpointHost, endpointPort, k.socket, streamProtocol, .inl ⟨false, false, some b, true, []⟩⟩,
            .handedOut k.socket :: record)
        | _ => (.threw "std::bad_alloc", .handedOut k.socket :: record)

/-- What the constructor of the TLS client is answered. `WOLFSSL_SUCCESS` and `SSL_SUCCESS` are 1. -/
structure SslAnswers where
  socket : ℤ
  inetPton : ℤ
  connect : ℤ
  wolfSslInit : ℤ
  /-- `wolfSSL_CTX_new` returned an object -/
  ctxNew : Bool
  loadVerifyLocations : ℤ
  /-- `wolfSSL_new` returned an object -/
  sslNew : Bool
  setFd : ℤ
  sslConnect : ℤ
  /-- the allocation of the buffer -/
  grant : Grant
  strerror : String

/-- The first of wolfSSL's steps that fails, by the text that is thrown. -/
def SslAnswers.failedStep (k : SslAnswers) : Option String :=
  if k.wolfSslInit ≠ 1 then some "wolfSSL_Init()"
  else if k.ctxNew = false then some "wolfSSL_CTX_new()"
  else if k.loadVerifyLocations ≠ 1 then some "wolfSSL_CTX_load_verify_locations"
  else if k.sslNew = false then some "wolfSSL_new()"
  else if k.setFd ≠ 1 then some "wolfSSL_set_fd()"
  else if k.sslConnect ≠ 1 then some "wolfSSL_connect()"
  else none

/-- `SyncNetworkStreamClientSSL(endpoint_ip, endpoint_port, stream_protocol, ca_cert_path)`; the path goes to
wolfSSL, and the protocol is not looked at. -/
def SyncNetworkStreamClientSSL.construct (endpointIp : String) (endpointPort : UInt16)
    (streamProtocol : StreamProtocol) (k : SslAnswers) (record : List (Entry ℤ)) :
    Answer StreamClient × List (Entry ℤ) :=
  if k.socket = -1 then (.threw "socket()", record)
  else if k.inetPton ≠ 1 then (.threw "inet_pton()", .handedOut k.socket :: record)
  else if k.connect < 0 then (.threw k.strerror, .handedOut k.socket :: record)
  else
    match k.failedStep with
    | some step => (.threw step, .handedBack k.socket :: .handedOut k.socket :: record)
    | none =>
      match RawIOBuffer.create k.grant StreamClient.defaultIoBufferSize with
      | .returned b =>
        (.returned ⟨endpointIp, endpointPort, k.socket, streamProtocol, .inr ⟨false, false, some b, true, []⟩⟩,
          .handedOut k.socket :: record)
      | _ => (.threw "std::bad_alloc", .handedOut k.socket :: record)

/-! ## `closeConnection` -/

/-- The kernel as `closeConnection` meets it: `::close` on this descriptor is recorded, and returns `ret`. -/
def closing (fd ret : ℤ) (strerror : String) : Kernel (List (Entry ℤ)) where
  realloc _ record := (none, record)
  recv _ record := (⟨-1, []⟩, record)
  send _ record := (-1, record)
  close record := (ret, .handedBack fd :: record)
  strerror _ := strerror

/-- `closeConnection`, of either class. -/
def StreamClient.closeConnection (c : StreamClient) (ret : ℤ) (strerror : String) (record : List (Entry ℤ)) :
    Answer Unit × StreamClient × List (Entry ℤ) :=
  match c.stream with
  | .inl plain =>
    let closed := SyncNetworkStreamClient.closeConnection (closing c.endpointFd ret strerror) (plain, record)
    (closed.1, { c with stream := .inl closed.2.1 }, closed.2.2)
  | .inr ssl =>
    let closed := SyncNetworkStreamClientSSL.closeConnection (closing c.endpointFd ret strerror) (ssl, record)
    (closed.1, { c with stream := .inr closed.2.1 }, closed.2.2)

/-! ## The process -/

/-- The objects that are alive, the kernel's record, and whether an exception has ended the process. -/
structure ClientProcess (ι : Type*) where
  objects : ι → Option StreamClient
  record : List (Entry ℤ)
  terminated : Bool

/-- What the program does with its clients, and what the kernel answers. -/
inductive ClientAction (ι : Type*) where
  | construct (target : ι) (endpointHost : String) (endpointPort : UInt16) (streamProtocol : StreamProtocol)
      (answers : TcpAnswers)
  | constructSsl (target : ι) (endpointIp : String) (endpointPort : UInt16) (streamProtocol : StreamProtocol)
      (answers : SslAnswers)
  | closeConnection (target : ι) (ret : ℤ) (strerror : String)
  | destroy (target : ι) (ret : ℤ) (strerror : String)

variable {ι : Type*} [DecidableEq ι]

namespace ClientProcess

/-- A constructor has run: there is an object, or the exception is on its way and there is none. -/
def constructed (p : ClientProcess ι) (target : ι) :
    Answer StreamClient × List (Entry ℤ) → ClientProcess ι
  | (.returned c, record) => { p with objects := Function.update p.objects target (some c), record := record }
  | (_, record) => { p with record := record }

/-- The process after one action, unless the objects are not there for it. -/
def act (p : ClientProcess ι) : ClientAction ι → Option (ClientProcess ι)
  | .construct target endpointHost endpointPort streamProtocol answers =>
    match p.terminated, p.objects target with
    | false, none =>
      some (p.constructed target
        (SyncNetworkStreamClient.construct endpointHost endpointPort streamProtocol answers p.record))
    | _, _ => none
  | .constructSsl target endpointIp endpointPort streamProtocol answers =>
    match p.terminated, p.objects target with
    | false, none =>
      some (p.constructed target
        (SyncNetworkStreamClientSSL.construct endpointIp endpointPort streamProtocol answers p.record))
    | _, _ => none
  | .closeConnection target ret strerror =>
    match p.terminated, p.objects target with
    | false, some c =>
      let closed := c.closeConnection ret strerror p.record
      some { p with objects := Function.update p.objects target (some closed.2.1), record := closed.2.2 }
    | _, _ => none
  | .destroy target ret strerror =>
    match p.terminated, p.objects target with
    | false, some c =>
      match c.closeConnection ret strerror p.record with
      -- an exception cannot leave a destructor
      | (.threw _, c', record) =>
        some { objects := Function.update p.objects target (some c'), record := record, terminated := true }
      | (_, _, record) => some { p with objects := Function.update p.objects target none, record := record }
    | _, _ => none

/-- The descriptors obtained from `::socket` and not closed since. -/
def owned (p : ClientProcess ι) : Finset ℤ := Entry.out p.record

/-- What a live object is going to close. -/
def held (p : ClientProcess ι) (i : ι) : Option ℤ := (p.objects i).bind StreamClient.holds

/-- `::socket` fails, or returns a descriptor that is not in use. -/
def FreshAnswer (p : ClientProcess ι) (answer : ℤ) : Prop := answer = -1 ∨ (0 ≤ answer ∧ answer ∉ p.owned)

/-- What the kernel is documented to answer. -/
def Answers (p : ClientProcess ι) : ClientAction ι → Prop
  | .construct _ _ _ _ k => p.FreshAnswer k.socket
  | .constructSsl _ _ _ _ k => p.FreshAnswer k.socket
  | _ => True

end ClientProcess

/-- **The system**: any number of clients, made and destroyed in any order. -/
def clientUses (ι : Type*) [DecidableEq ι] : System (ClientProcess ι) (ClientAction ι) where
  init p := p = ⟨fun _ => none, [], false⟩
  next p action p' := p.Answers action ∧ p.act action = some p'

namespace StreamClient

variable {c : StreamClient} {ret : ℤ} {strerror : String} {record : List (Entry ℤ)}

/-- Without a connection nothing is closed. -/
theorem closeConnection_of_not_connected (h : c.isConnected = false) :
    c.closeConnection ret strerror record = (.returned (), c, record) := by
  obtain ⟨endpoint, port, fd, protocol, plain | ssl⟩ := c
  · have hplain : plain.isConnected = false := h
    simp [closeConnection, SyncNetworkStreamClient.closeConnection, hplain]
  · have hssl : ssl.isConnected = false := h
    simp [closeConnection, SyncNetworkStreamClientSSL.closeConnection, hssl]

/-- Where `::close` fails the object goes on as if the descriptor were open. -/
theorem closeConnection_of_error (h : c.isConnected = true) (hret : ret < 0) :
    c.closeConnection ret strerror record = (.threw strerror, c, .handedBack c.endpointFd :: record) := by
  obtain ⟨endpoint, port, fd, protocol, plain | ssl⟩ := c
  · have hplain : plain.isConnected = true := h
    simp [closeConnection, SyncNetworkStreamClient.closeConnection, closing, hplain, hret]
  · have hssl : ssl.isConnected = true := h
    simp [closeConnection, SyncNetworkStreamClientSSL.closeConnection, closing, hssl, hret]

theorem closeConnection_of_closed (h : c.isConnected = true) (hret : 0 ≤ ret) :
    ∃ c', c.closeConnection ret strerror record = (.returned (), c', .handedBack c.endpointFd :: record) ∧
      c'.isConnected = false := by
  obtain ⟨endpoint, port, fd, protocol, plain | ssl⟩ := c
  · have hplain : plain.isConnected = true := h
    refine ⟨⟨endpoint, port, fd, protocol, .inl { plain with isConnected := false }⟩, ?_, rfl⟩
    simp [closeConnection, SyncNetworkStreamClient.closeConnection, closing, hplain, Int.not_lt.mpr hret]
  · have hssl : ssl.isConnected = true := h
    refine ⟨⟨endpoint, port, fd, protocol, .inr { ssl with isConnected := false }⟩, ?_, rfl⟩
    simp [closeConnection, SyncNetworkStreamClientSSL.closeConnection, closing, hssl, Int.not_lt.mpr hret]

theorem holds_eq_none_iff : c.holds = none ↔ c.isConnected = false := by
  unfold holds
  split_ifs with h <;> simp [h]

theorem holds_of_connected (h : c.isConnected = true) : c.holds = some c.endpointFd := if_pos h

end StreamClient

/-! ## What a constructor comes to -/

/-- A constructor that has an object for its descriptor, or has closed it, or has not got any. -/
inductive Settled (fd : ℤ) (record : List (Entry ℤ)) : Answer StreamClient × List (Entry ℤ) → Prop
  | made (c : StreamClient) (hfd : fd ≠ -1) (hholds : c.holds = some fd) :
      Settled fd record (.returned c, .handedOut fd :: record)
  | refused (what : String) : Settled fd record (.threw what, record)
  | closed (what : String) (hfd : fd ≠ -1) :
      Settled fd record (.threw what, .handedBack fd :: .handedOut fd :: record)

/-- One that has opened a descriptor and leaves it behind. -/
def Leaked (fd : ℤ) (record : List (Entry ℤ)) (r : Answer StreamClient × List (Entry ℤ)) : Prop :=
  fd ≠ -1 ∧ ∃ what, r = (.threw what, .handedOut fd :: record)

/-- Nothing fails behind `::socket`. -/
def TcpAnswers.Clean (k : TcpAnswers) (streamProtocol : StreamProtocol) : Prop :=
  k.hostFound = true → streamProtocol = .tcp → 0 ≤ k.socket → 0 ≤ k.connect ∧ k.grant.isSome

/-- Nothing fails behind `::socket` but a step of wolfSSL's. -/
def SslAnswers.Clean (k : SslAnswers) : Prop :=
  k.socket ≠ -1 → k.inetPton = 1 ∧ 0 ≤ k.connect ∧ (k.failedStep = none → k.grant.isSome)

section Constructors

variable {endpoint : String} {port : UInt16} {streamProtocol : StreamProtocol} {record : List (Entry ℤ)}

theorem create_granted {grant : Grant} (h : grant.isSome) :
    ∃ b, RawIOBuffer.create grant StreamClient.defaultIoBufferSize = .returned b := by
  obtain ⟨junk, rfl⟩ := Option.isSome_iff_exists.mp h
  exact ⟨_, RawIOBuffer.reserve_granted (by decide) junk⟩

theorem create_refused : RawIOBuffer.create none StreamClient.defaultIoBufferSize = .badAlloc .fresh :=
  RawIOBuffer.reserve_refused (by decide)

/-- The last step of both constructors. -/
theorem allocation_settles {fd : ℤ} (hfd : fd ≠ -1) (record : List (Entry ℤ)) (grant : Grant) (make : RawIOBuffer → StreamClient)
    (hmake : ∀ b, (make b).holds = some fd) :
    let r : Answer StreamClient × List (Entry ℤ) :=
      match RawIOBuffer.create grant StreamClient.defaultIoBufferSize with
      | .returned b => (.returned (make b), .handedOut fd :: record)
      | _ => (.threw "std::bad_alloc", .handedOut fd :: record)
    (grant.isSome → Settled fd record r) ∧ (grant = none → Leaked fd record r) := by
  constructor
  · intro hgrant
    obtain ⟨b, hb⟩ := create_granted hgrant
    simp only [hb]
    exact .made (make b) hfd (hmake b)
  · rintro rfl
    simp only [create_refused]
    exact ⟨hfd, _, rfl⟩

theorem construct_settles (k : TcpAnswers) :
    let r := SyncNetworkStreamClient.construct endpoint port streamProtocol k record
    (k.Clean streamProtocol → Settled k.socket record r) ∧
      (¬ k.Clean streamProtocol → Leaked k.socket record r) := by
  unfold SyncNetworkStreamClient.construct TcpAnswers.Clean
  cases hfound : k.hostFound with
  | false => exact ⟨fun _ => .refused _, fun h => absurd (fun hf => absurd hf Bool.false_ne_true) h⟩
  | true =>
    rw [if_neg (by decide)]
    cases streamProtocol with
    | udp => exact ⟨fun _ => .refused _, fun h => absurd (fun _ hp => nomatch hp) h⟩
    | tcp =>
      by_cases hsocket : k.socket < 0
      · rw [if_pos hsocket]
        exact ⟨fun _ => .refused _, fun h => absurd (fun _ _ hs => absurd hs (Int.not_le.mpr hsocket)) h⟩
      · have hfd : k.socket ≠ -1 := by omega
        rw [if_neg hsocket]
        by_cases hconnect : k.connect < 0
        · rw [if_pos hconnect]
          refine ⟨fun h => ?_, fun _ => ⟨hfd, _, rfl⟩⟩
          have hle := (h rfl rfl (Int.not_lt.mp hsocket)).1
          omega
        · rw [if_neg hconnect]
          obtain ⟨hsettled, hleaked⟩ := allocation_settles hfd record k.grant
            (fun b => ⟨endpoint, port, k.socket, .tcp, .inl ⟨false, false, some b, true, []⟩⟩) fun _ => rfl
          refine ⟨fun h => hsettled (h rfl rfl (Int.not_lt.mp hsocket)).2, fun h => hleaked ?_⟩
          by_contra hgrant
          exact h fun _ _ _ => ⟨Int.not_lt.mp hconnect, Option.isSome_iff_ne_none.mpr hgrant⟩

theorem constructSsl_settles (k : SslAnswers) :
    let r := SyncNetworkStreamClientSSL.construct endpoint port streamProtocol k record
    (k.Clean → Settled k.socket record r) ∧ (¬ k.Clean → Leaked k.socket record r) := by
  unfold SyncNetworkStreamClientSSL.construct SslAnswers.Clean
  by_cases hfd : k.socket = -1
  · rw [if_pos hfd]
    exact ⟨fun _ => .refused _, fun h => absurd (fun hs => absurd hfd hs) h⟩
  · rw [if_neg hfd]
    by_cases hpton : k.inetPton ≠ 1
    · rw [if_pos hpton]
      exact ⟨fun h => absurd (h hfd).1 hpton, fun _ => ⟨hfd, _, rfl⟩⟩
    · rw [if_neg hpton]
      rw [not_not] at hpton
      by_cases hconnect : k.connect < 0
      · rw [if_pos hconnect]
        exact ⟨fun h => absurd (h hfd).2.1 (Int.not_le.mpr hconnect), fun _ => ⟨hfd, _, rfl⟩⟩
      · rw [if_neg hconnect]
        rw [Int.not_lt] at hconnect
        cases hstep : k.failedStep with
        | some step => exact ⟨fun _ => .closed step hfd, fun h => absurd (fun _ => ⟨hpton, hconnect, nofun⟩) h⟩
        | none =>
          obtain ⟨hsettled, hleaked⟩ := allocation_settles hfd record k.grant
            (fun b => ⟨endpoint, port, k.socket, streamProtocol, .inr ⟨false, false, some b, true, []⟩⟩) fun _ => rfl
          refine ⟨fun h => hsettled ((h hfd).2.2 rfl), fun h => hleaked ?_⟩
          by_contra hgrant
          exact h fun _ => ⟨hpton, hconnect, fun _ => Option.isSome_iff_ne_none.mpr hgrant⟩

end Constructors

/-! ## The accounts of a process -/

namespace ClientProcess

/-- **The descriptors, at one moment**, in a process that no exception has ended. -/
structure Accounted (p : ClientProcess ι) : Prop where
  running : p.terminated = false
  /-- `::close` was only called on descriptors that were open -/
  exact : Entry.Exact p.record
  /-- the open descriptors and the connected clients belong together, one to one -/
  held : HeldExactly p.held p.owned
  /-- when no client is left no descriptor is open -/
  settled : (∀ i, p.objects i = none) → p.owned = ∅

/-- Nothing fails that a client cannot make good. -/
def Careful (p : ClientProcess ι) : ClientAction ι → Prop
  | .construct _ _ _ streamProtocol k => k.Clean streamProtocol
  | .constructSsl _ _ _ _ k => k.Clean
  | .closeConnection target ret _ => p.held target = none ∨ 0 ≤ ret
  | .destroy target ret _ => p.held target = none ∨ 0 ≤ ret

variable {p p' : ClientProcess ι} {action : ClientAction ι} {i : ι} {c : StreamClient}

omit [DecidableEq ι] in
/-- The fourth clause follows from the others. -/
theorem accounted_iff :
    p.Accounted ↔ p.terminated = false ∧ Entry.Exact p.record ∧ HeldExactly p.held p.owned := by
  constructor
  · exact fun h => ⟨h.running, h.exact, h.held⟩
  · rintro ⟨hrunning, hexact, hheld⟩
    refine ⟨hrunning, hexact, hheld, ?_⟩
    intro hnone
    apply Finset.eq_empty_of_forall_notMem
    apply hheld.once.not_mem
    intro i
    rw [held, hnone i, Option.bind_none]

theorem held_update (o : Option StreamClient) (record : List (Entry ℤ)) (terminated : Bool) :
    held ⟨Function.update p.objects i o, record, terminated⟩
      = Function.update p.held i (o.bind StreamClient.holds) :=
  Function.comp_update (fun o : Option StreamClient => o.bind StreamClient.holds) _ _ _

omit [DecidableEq ι] in
theorem held_of_objects (h : p.objects i = some c) : p.held i = c.holds := by
  rw [held, h, Option.bind_some]

omit [DecidableEq ι] in
theorem held_of_none (h : p.objects i = none) : p.held i = none := by
  rw [held, h, Option.bind_none]

/-- An object in whose place comes one that holds the same. -/
theorem held_replaced {o : Option StreamClient} (h : p.held i = o.bind StreamClient.holds)
    (record : List (Entry ℤ)) (terminated : Bool) :
    held ⟨Function.update p.objects i o, record, terminated⟩ = p.held := by
  rw [held_update, ← h, Function.update_eq_self]

omit [DecidableEq ι] in
theorem FreshAnswer.notMem {answer : ℤ} (h : p.FreshAnswer answer) (hne : answer ≠ -1) : answer ∉ p.owned :=
  (h.resolve_left hne).2

/-- **A constructor** that settles keeps the accounts. -/
theorem Accounted.settled_constructor {fd : ℤ} {r : Answer StreamClient × List (Entry ℤ)} (h : p.Accounted)
    (hfresh : p.FreshAnswer fd) (hnone : p.objects i = none) (hr : Settled fd p.record r) :
    (p.constructed i r).Accounted := by
  rw [accounted_iff]
  cases hr with
  | made c hfd hholds =>
    have hout := hfresh.notMem hfd
    refine ⟨h.running, ⟨hout, h.exact⟩, ?_⟩
    show HeldExactly (ClientProcess.held ⟨Function.update p.objects i (some c), _, _⟩) (insert fd p.owned)
    rw [held_update, Option.bind_some, hholds]
    exact h.held.insert (held_of_none hnone) hout
  | refused what => exact ⟨h.running, h.exact, h.held⟩
  | closed what hfd =>
    have hout := hfresh.notMem hfd
    refine ⟨h.running, ⟨Finset.mem_insert_self fd _, hout, h.exact⟩, ?_⟩
    show HeldExactly p.held ((insert fd p.owned).erase fd)
    rw [Finset.erase_insert hout]
    exact h.held

/-- One that leaves its descriptor behind does not. -/
theorem Accounted.leaked_constructor {fd : ℤ} {r : Answer StreamClient × List (Entry ℤ)} (h : p.Accounted)
    (hfresh : p.FreshAnswer fd) (hr : Leaked fd p.record r) : ¬ (p.constructed i r).Accounted := by
  obtain ⟨hfd, what, rfl⟩ := hr
  intro hnew
  have hheld : HeldExactly p.held (insert fd p.owned) := hnew.held
  exact h.held.not_insert (hfresh.notMem hfd) hheld

theorem Accounted.constructor_iff {fd : ℤ} {r : Answer StreamClient × List (Entry ℤ)} {Clean : Prop}
    (h : p.Accounted) (hfresh : p.FreshAnswer fd) (hnone : p.objects i = none)
    (hr : (Clean → Settled fd p.record r) ∧ (¬ Clean → Leaked fd p.record r)) :
    (p.constructed i r).Accounted ↔ Clean := by
  constructor
  · intro hnew
    by_contra hnot
    exact h.leaked_constructor hfresh (hr.2 hnot) hnew
  · exact fun hclean => h.settled_constructor hfresh hnone (hr.1 hclean)

/-- The call of `::close` on the descriptor of a connected client: with the object connected no more the accounts
are kept, with the object as it was they are not. -/
theorem Accounted.closed (h : p.Accounted) (hi : p.held i = some c.endpointFd) {o : Option StreamClient}
    (ho : o.bind StreamClient.holds = none) :
    Accounted ⟨Function.update p.objects i o, .handedBack c.endpointFd :: p.record, p.terminated⟩ := by
  rw [accounted_iff]
  refine ⟨h.running, ⟨h.held.backed i _ hi, h.exact⟩, ?_⟩
  rw [held_update, ho]
  exact h.held.erase hi

theorem not_accounted_closed (hi : p.held i = some c.endpointFd) {o : Option StreamClient}
    (ho : o.bind StreamClient.holds = some c.endpointFd) {terminated : Bool} :
    ¬ Accounted ⟨Function.update p.objects i o, .handedBack c.endpointFd :: p.record, terminated⟩ := by
  intro hnew
  have hheld := hnew.held
  rw [held_replaced (hi.trans ho.symm)] at hheld
  exact HeldExactly.not_erase hi hheld

/-- **`closeConnection`.** -/
theorem Accounted.closeConnection_iff {ret : ℤ} {strerror : String} (h : p.Accounted)
    (hact : p.act (.closeConnection i ret strerror) = some p') :
    p'.Accounted ↔ p.held i = none ∨ 0 ≤ ret := by
  simp only [act] at hact
  split at hact
  · rename_i c hrunning hc
    cases hact
    cases hconn : c.isConnected with
    | false =>
      have hholds := StreamClient.holds_eq_none_iff.mpr hconn
      rw [StreamClient.closeConnection_of_not_connected hconn]
      refine iff_of_true ?_ (.inl ((held_of_objects hc).trans hholds))
      rw [accounted_iff, held_replaced (held_of_objects hc)]
      exact ⟨h.running, h.exact, h.held⟩
    | true =>
      have hi := (held_of_objects hc).trans (StreamClient.holds_of_connected hconn)
      by_cases hret : 0 ≤ ret
      · obtain ⟨c', hclose, hconn'⟩ := StreamClient.closeConnection_of_closed hconn hret
        rw [hclose]
        exact iff_of_true (h.closed hi (StreamClient.holds_eq_none_iff.mpr hconn')) (.inr hret)
      · rw [StreamClient.closeConnection_of_error hconn (Int.not_le.mp hret)]
        refine iff_of_false (not_accounted_closed (o := some c) hi (StreamClient.holds_of_connected hconn)) ?_
        rw [hi]
        exact not_or.mpr ⟨nofun, hret⟩
  · cases hact

/-- **The destructor.** -/
theorem Accounted.destroy_iff {ret : ℤ} {strerror : String} (h : p.Accounted)
    (hact : p.act (.destroy i ret strerror) = some p') :
    p'.Accounted ↔ p.held i = none ∨ 0 ≤ ret := by
  simp only [act] at hact
  split at hact
  · rename_i c hrunning hc
    cases hconn : c.isConnected with
    | false =>
      have hholds := StreamClient.holds_eq_none_iff.mpr hconn
      rw [StreamClient.closeConnection_of_not_connected hconn] at hact
      cases hact
      refine iff_of_true ?_ (.inl ((held_of_objects hc).trans hholds))
      rw [accounted_iff, held_replaced (o := none) ((held_of_objects hc).trans hholds)]
      exact ⟨h.running, h.exact, h.held⟩
    | true =>
      have hi := (held_of_objects hc).trans (StreamClient.holds_of_connected hconn)
      by_cases hret : 0 ≤ ret
      · obtain ⟨c', hclose, -⟩ := StreamClient.closeConnection_of_closed hconn hret
        rw [hclose] at hact
        cases hact
        exact iff_of_true (h.closed hi rfl) (.inr hret)
      · rw [StreamClient.closeConnection_of_error hconn (Int.not_le.mp hret)] at hact
        cases hact
        refine iff_of_false (not_accounted_closed (o := some c) hi (StreamClient.holds_of_connected hconn)) ?_
        rw [hi]
        exact not_or.mpr ⟨nofun, hret⟩
  · cases hact

/-- **What an action does to the accounts.** -/
theorem Accounted.next_iff (h : p.Accounted) (hstep : (clientUses ι).next p action p') :
    p'.Accounted ↔ p.Careful action := by
  obtain ⟨hanswers, hact⟩ := hstep
  cases action with
  | construct target endpointHost endpointPort streamProtocol k =>
    simp only [act] at hact
    split at hact
    · rename_i hrunning hnone
      cases hact
      exact h.constructor_iff hanswers hnone (construct_settles k)
    · cases hact
  | constructSsl target endpointIp endpointPort streamProtocol k =>
    simp only [act] at hact
    split at hact
    · rename_i hrunning hnone
      cases hact
      exact h.constructor_iff hanswers hnone (constructSsl_settles k)
    · cases hact
  | closeConnection target ret strerror => exact h.closeConnection_iff hact
  | destroy target ret strerror => exact h.destroy_iff hact

theorem accounted_init (h : (clientUses ι).init p) : p.Accounted := by
  obtain rfl := h
  exact accounted_iff.mpr ⟨rfl, trivial, fun d hd => absurd hd (Finset.notMem_empty d), nofun⟩

end ClientProcess

/-! ## Runs -/

/-- **When the clients keep their accounts.** In every run, over any number of clients of both classes: all along,
the process runs on, `::close` is only called on open descriptors, and these and the connected clients belong
together one to one, exactly when no constructor fails behind `::socket`, but in a step of wolfSSL's, and no
`::close` of a connected client reports an error. -/
theorem clients_accounted_iff {p p' : ClientProcess ι} {actions : List (ClientAction ι)}
    (hinit : (clientUses ι).init p) (hr : (clientUses ι).Run p actions p') :
    (∀ before behind q, actions = before ++ behind → (clientUses ι).Run p before q → q.Accounted) ↔
      ((clientUses ι).only ClientProcess.Careful).Run p actions p' := by
  refine System.Run.always_iff ?_ ?_ ?_ (fun q hq => hq) hr (ClientProcess.accounted_init hinit)
  · rintro q action r u ⟨-, hr⟩ ⟨-, hu⟩
    exact Option.some.inj (hr.symm.trans hu)
  · intro q action r hq hstep hcareful
    exact (hq.next_iff hstep).mpr hcareful
  · intro q action r hq hstep hr
    exact (hq.next_iff hstep).mp hr

/-- A TLS client whose handshake fails, and a TCP client that is made, closed and destroyed. -/
theorem clients_accounted_iff_handshake : ∃ p' : ClientProcess ℕ,
    (clientUses ℕ).Run ⟨fun _ => none, [], false⟩
      [.constructSsl 0 "10.0.0.1" 443 .tcp ⟨3, 1, 0, 1, true, 1, true, 1, -1, some fun _ => 0, ""⟩,
        .construct 0 "localhost" 80 .tcp ⟨true, 3, 0, some fun _ => 0, ""⟩, .closeConnection 0 0 "",
        .destroy 0 0 ""] p' ∧
      p'.record = [.handedBack 3, .handedOut 3, .handedBack 3, .handedOut 3] ∧ p'.Accounted := by
  let failed : ClientProcess ℕ := ⟨fun _ => none, [.handedBack 3, .handedOut 3], false⟩
  let client : StreamClient := ⟨"localhost", 80, 3, .tcp,
    .inl ⟨false, false, some (RawIOBuffer.fresh.grown 2048 fun _ => 0), true, []⟩⟩
  let made : ClientProcess ℕ :=
    ⟨Function.update failed.objects 0 (some client), .handedOut 3 :: failed.record, false⟩
  let closed : ClientProcess ℕ := ⟨Function.update made.objects 0 (some
    { client with stream := .inl ⟨false, false, some (RawIOBuffer.fresh.grown 2048 fun _ => 0), false, []⟩ }),
    .handedBack 3 :: made.record, false⟩
  let gone : ClientProcess ℕ := ⟨Function.update closed.objects 0 none, closed.record, false⟩
  have h1 : ((clientUses ℕ).only ClientProcess.Careful).next ⟨fun _ => none, [], false⟩
      (.constructSsl 0 "10.0.0.1" 443 .tcp ⟨3, 1, 0, 1, true, 1, true, 1, -1, some fun _ => 0, ""⟩) failed :=
    ⟨fun _ => ⟨rfl, by decide, fun _ => rfl⟩, .inr ⟨by decide, Finset.notMem_empty (3 : ℤ)⟩, rfl⟩
  have h2 : ((clientUses ℕ).only ClientProcess.Careful).next failed
      (.construct 0 "localhost" 80 .tcp ⟨true, 3, 0, some fun _ => 0, ""⟩) made :=
    ⟨fun _ _ _ => ⟨by decide, rfl⟩,
      .inr ⟨by decide, show (3 : ℤ) ∉ Entry.out [.handedBack 3, .handedOut 3] by decide⟩, rfl⟩
  have h3 : ((clientUses ℕ).only ClientProcess.Careful).next made (.closeConnection 0 0 "") closed :=
    ⟨.inr (Int.le_refl 0), trivial, rfl⟩
  have h4 : ((clientUses ℕ).only ClientProcess.Careful).next closed (.destroy 0 0 "") gone :=
    ⟨.inr (Int.le_refl 0), trivial, rfl⟩
  have hrun := System.Run.cons h1 (.cons h2 (.cons h3 (.single h4)))
  refine ⟨gone, hrun.of_only, rfl, ?_⟩
  exact (clients_accounted_iff rfl hrun.of_only).mpr hrun _ [] _ (List.append_nil _).symm hrun.of_only

end Blueth.Net
