/-
# Blueth.Http.ProxyFlag — does `connectedToProxy()` tell the truth?

An `HTTPProxyClient` in use: `makeConnection`, `readProxy` and `writeProxy` in any order, with any arguments,
on a stream of any behaviour. Next to the object a `Session` remembers what the object itself does not: how
the most recent attempt ended, and which endpoint the most recent successful one asked for.

The flag is raised by a success and never taken back, while host and port are overwritten by every attempt
before anything can fail. So it is one kind of call that makes the flag lie: an attempt that fails while the
flag is up. `truthful_iff` says that there is no other.
-/
import Blueth.Http.ProxyHandshake
import Blueth.Transition.System

set_option autoImplicit false

namespace Blueth.Http

open Blueth.Io Blueth.Net
open Blueth.Transition (System)
open HTTPProxyClient
open SyncNetworkStreamClient (answeredBy)

variable {σ : Type*}

/-! ## The object in use -/

inductive ProxyCall where
  | makeConnection (args : ConnectArgs)
  | readProxy (readLength : UInt64)
  | writeProxy (data : List UInt8)

/-- The object, and what has happened to it. -/
structure Session (σ : Type*) where
  client : HTTPProxyClient σ
  /-- how the most recent `makeConnection` ended -/
  lastAttempt : Option (Answer HTTPProxyReturnCode)
  /-- the endpoint of the most recent `makeConnection` that was a success -/
  tunnel : Option (List UInt8 × UInt16)

namespace Session

/-- A new object. -/
def start (networkHandler : σ) (uninitPort : UInt16) : Session σ :=
  ⟨.create networkHandler uninitPort, none, none⟩

/-- The call makes the behaviour undefined. -/
def Faults (net : NetworkStream σ) (s : Session σ) : ProxyCall → Prop
  | .makeConnection args => (makeConnection net args s.client).1 = .fault
  | .readProxy n => (readProxy net n s.client).1 = .fault
  | .writeProxy data => (writeProxy net data s.client).1 = .fault

/-- The session after a call. -/
def after (net : NetworkStream σ) (s : Session σ) : ProxyCall → Session σ
  | .makeConnection args =>
    { client := (makeConnection net args s.client).2
      lastAttempt := some (makeConnection net args s.client).1
      tunnel :=
        if (makeConnection net args s.client).1 = .returned .connectionSuccess then
          some (args.originServerHostname, args.originServerPort)
        else s.tunnel }
  | .readProxy n => { s with client := (readProxy net n s.client).2 }
  | .writeProxy data => { s with client := (writeProxy net data s.client).2 }

end Session

/-- The object in use, one call a step. -/
def proxySystem (net : NetworkStream σ) : System (Session σ) ProxyCall where
  init s := ∃ networkHandler uninitPort, s = .start networkHandler uninitPort
  next s call t := ¬ s.Faults net call ∧ t = s.after net call

/-! ## The truth -/

/-- `readProxy` comes back with a string, or `writeProxy` with a count. -/
def Tunnels (net : NetworkStream σ) (c : HTTPProxyClient σ) : Prop :=
  (∃ n bytes, (readProxy net n c).1 = .returned bytes) ∨ ∃ data ret, (writeProxy net data c).1 = .returned ret

/-- The flag tells the truth: it is up exactly when the most recent attempt was a success; otherwise
`readProxy` and `writeProxy` throw and leave the stream alone; and when one of them does not throw, the
tunnel it uses is the one to the host and port the object gives. -/
structure Truthful (net : NetworkStream σ) (s : Session σ) : Prop where
  flag : s.client.connectedToProxy = true ↔ s.lastAttempt = some (.returned .connectionSuccess)
  refuses : s.lastAttempt ≠ some (.returned .connectionSuccess) →
    (∀ n, readProxy net n s.client = (.threw noProxyConnection, s.client)) ∧
      ∀ data, writeProxy net data s.client = (.threw noProxyConnection, s.client)
  endpoint : Tunnels net s.client →
    s.tunnel = some (s.client.getOriginServerHost, s.client.getOriginServerPort)

/-- What is behind it. -/
structure FlagInvariant (s : Session σ) : Prop where
  flag : s.client.connectedToProxy = true ↔ s.lastAttempt = some (.returned .connectionSuccess)
  endpoint : s.client.connectedToProxy = true →
    s.tunnel = some (s.client.getOriginServerHost, s.client.getOriginServerPort)

/-- An attempt is made while the flag is down, or it is granted. -/
def FlagDownOrGranted (net : NetworkStream σ) (s : Session σ) : ProxyCall → Prop
  | .makeConnection args =>
    s.client.connectedToProxy = false ∨ Granted net args s.client.networkHandler
  | .readProxy _ => True
  | .writeProxy _ => True

section Truthful

variable {net : NetworkStream σ} {s t : Session σ} {call : ProxyCall} {args : ConnectArgs}

/-- The invariant is the truth. -/
theorem FlagInvariant.truthful (h : FlagInvariant s) : Truthful net s where
  flag := h.flag
  refuses := by
    intro hlast
    have hdown : s.client.connectedToProxy = false := by
      rw [← Bool.not_eq_true, h.flag]
      exact hlast
    constructor
    · intro n
      exact readProxy_of_not_connected hdown n
    · intro data
      exact writeProxy_of_not_connected hdown data
  endpoint := by
    intro htunnels
    apply h.endpoint
    by_contra hdown
    rw [Bool.not_eq_true] at hdown
    rcases htunnels with ⟨n, bytes, hread⟩ | ⟨data, ret, hwrite⟩
    · rw [readProxy_of_not_connected hdown] at hread
      cases hread
    · rw [writeProxy_of_not_connected hdown] at hwrite
      cases hwrite

/-- Nothing but an attempt can change what the invariant is about. -/
theorem FlagInvariant.onStream (h : FlagInvariant s) (handler : σ) :
    FlagInvariant { s with client := s.client.onStream handler } := ⟨h.flag, h.endpoint⟩

/-- **An attempt**: the flag afterwards is the flag before, or the success. -/
theorem after_makeConnection (net : NetworkStream σ) (s : Session σ) (args : ConnectArgs) :
    ((s.after net (.makeConnection args)).client.connectedToProxy = true ↔
        s.client.connectedToProxy = true ∨ Granted net args s.client.networkHandler) ∧
      ((s.after net (.makeConnection args)).lastAttempt = some (.returned .connectionSuccess) ↔
        Granted net args s.client.networkHandler) ∧
      (Granted net args s.client.networkHandler →
        (s.after net (.makeConnection args)).tunnel =
          some ((s.after net (.makeConnection args)).client.getOriginServerHost,
            (s.after net (.makeConnection args)).client.getOriginServerPort)) := by
  have hsuccess : (makeConnection net args s.client).1 = .returned .connectionSuccess ↔
      Granted net args s.client.networkHandler := by
    rw [makeConnection_answer, attempt_success_iff]
  refine ⟨?_, ?_, ?_⟩
  · show (makeConnection net args s.client).2.connectedToProxy = true ↔ _
    rw [makeConnection_connectedToProxy, attempt_success_iff]
  · show some (makeConnection net args s.client).1 = some _ ↔ _
    rw [Option.some.injEq, hsuccess]
  · intro hgranted
    show (if (makeConnection net args s.client).1 = .returned .connectionSuccess then _ else _) =
      some ((makeConnection net args s.client).2.getOriginServerHost,
        (makeConnection net args s.client).2.getOriginServerPort)
    rw [if_pos (hsuccess.mpr hgranted), makeConnection_endpoint]

/-- **What a step keeps.** -/
theorem FlagInvariant.step (h : FlagInvariant s) (hstep : (proxySystem net).next s call t)
    (hcall : FlagDownOrGranted net s call) : FlagInvariant t := by
  obtain ⟨-, rfl⟩ := hstep
  cases call with
  | makeConnection args =>
      obtain ⟨hflag, hlast, htunnel⟩ := after_makeConnection net s args
      have hup : (s.after net (.makeConnection args)).client.connectedToProxy = true ↔
          Granted net args s.client.networkHandler := by
        rw [hflag]
        constructor
        · intro hor
          rcases hcall with hdown | hgranted
          · exact hor.resolve_left (by simp [hdown])
          · exact hgranted
        · exact Or.inr
      exact ⟨hup.trans hlast.symm, fun hc => htunnel (hup.mp hc)⟩
  | readProxy n =>
      obtain ⟨handler, heq⟩ := readProxy_keeps net n s.client
      show FlagInvariant { s with client := (readProxy net n s.client).2 }
      rw [heq]
      exact h.onStream handler
  | writeProxy data =>
      obtain ⟨handler, heq⟩ := writeProxy_keeps net data s.client
      show FlagInvariant { s with client := (writeProxy net data s.client).2 }
      rw [heq]
      exact h.onStream handler

/-- **An attempt that fails while the flag is up** makes it lie. -/
theorem flagDownOrGranted_of_truthful (hstep : (proxySystem net).next s call t) (ht : Truthful net t) :
    FlagDownOrGranted net s call := by
  obtain ⟨-, rfl⟩ := hstep
  cases call with
  | makeConnection args =>
      obtain ⟨hflag, hlast, -⟩ := after_makeConnection net s args
      cases hup : s.client.connectedToProxy with
      | false => exact .inl hup
      | true => exact .inr (hlast.mp (ht.flag.mp (hflag.mpr (.inl hup))))
  | readProxy n => trivial
  | writeProxy data => trivial

/-- **When the flag tells the truth.** It does so all along a run, from a new object on and whatever the
stream does, exactly when every `makeConnection` of the run is called while the flag is down, or is
granted. -/
theorem truthful_iff {calls : List ProxyCall} (hinit : (proxySystem net).init s)
    (hr : (proxySystem net).Run s calls t) :
    (∀ before behind u, calls = before ++ behind → (proxySystem net).Run s before u → Truthful net u) ↔
      ((proxySystem net).only (FlagDownOrGranted net)).Run s calls t := by
  have hstart : FlagInvariant s := by
    obtain ⟨handler, uninitPort, rfl⟩ := hinit
    refine ⟨?_, ?_⟩ <;> simp [Session.start, HTTPProxyClient.create, connectedToProxy]
  refine System.Run.always_iff ?_ ?_ ?_ ?_ hr hstart
  · rintro s call t u ⟨-, rfl⟩ ⟨-, rfl⟩
    rfl
  · exact fun s call t hs hstep hcall => hs.step hstep hcall
  · exact fun s call t _ hstep ht => flagDownOrGranted_of_truthful hstep ht
  · exact fun s hs => hs.truthful

end Truthful

/-! ### A second attempt -/

/-- A stream on which the answer to an earlier CONNECT is still in the buffer, and a peer that sends nothing
more. -/
def answeredBefore : Session (SyncNetworkStreamClient × List UInt8) := .start (.holding okHead.bytes, []) 0

/-- One successful attempt, a read, and an attempt at another endpoint. -/
def secondAttempt : List ProxyCall :=
  [.makeConnection plainConnect, .readProxy 1,
    .makeConnection { plainConnect with originServerHostname := str "elsewhere" }]

theorem secondAttempt_run :
    (proxySystem (answeredBy [])).Run answeredBefore secondAttempt
      (secondAttempt.foldl (Session.after (answeredBy [])) answeredBefore) := by
  refine .cons ⟨?_, rfl⟩ (.cons ⟨?_, rfl⟩ (.single ⟨?_, rfl⟩))
  · show ¬ (makeConnection _ _ _).1 = _
    decide +kernel
  · show ¬ (readProxy _ _ _).1 = _
    decide +kernel
  · show ¬ (makeConnection _ _ _).1 = _
    decide +kernel

theorem truthful_iff_secondAttempt :
    (∀ before behind u, secondAttempt = before ++ behind →
        (proxySystem (answeredBy [])).Run answeredBefore before u → Truthful (answeredBy []) u) ↔
      ((proxySystem (answeredBy [])).only (FlagDownOrGranted (answeredBy []))).Run answeredBefore
        secondAttempt (secondAttempt.foldl (Session.after (answeredBy [])) answeredBefore) :=
  truthful_iff ⟨_, _, rfl⟩ secondAttempt_run

/-- **The flag outlives the success.** After an attempt that failed it is still up, `writeProxy` sends
through the tunnel to the endpoint of the attempt before, and the object gives the endpoint of the failed
one. -/
theorem flag_outlives_success :
    ∃ t, (proxySystem (answeredBy [])).init answeredBefore ∧
      (proxySystem (answeredBy [])).Run answeredBefore secondAttempt t ∧
      t.lastAttempt = some (.returned .invalidResponse) ∧ t.client.connectedToProxy = true ∧
      (writeProxy (answeredBy []) (str "x") t.client).1 = .returned 1 ∧
      t.tunnel = some (str "origin", 80) ∧ t.client.getOriginServerHost = str "elsewhere" ∧
      ¬ Truthful (answeredBy []) t := by
  refine ⟨_, ⟨_, _, rfl⟩, secondAttempt_run, by decide +kernel, by decide +kernel, by decide +kernel,
    by decide +kernel, by decide +kernel, ?_⟩
  intro h
  have hup := h.flag.mp (by decide +kernel)
  exact absurd hup (by decide +kernel)

end Blueth.Http
