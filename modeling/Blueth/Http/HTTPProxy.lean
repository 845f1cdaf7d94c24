/-
# Blueth.Http.HTTPProxy — `HTTPProxyClient` (`http/HTTPProxy.hpp`), over any `NetworkStream`.

`makeConnection` sends a CONNECT and parses what is in the stream's buffer; `readProxy` and `writeProxy`
refuse to touch the stream until one attempt has succeeded. Three things the code does NOT do shape all
that follows:

* it never reads from the stream before it parses, so the answer it judges was in the buffer before;
* it never takes the parsed head out of the buffer, so the first `readProxy` finds it there;
* it never takes the flag `proxy_connection_made_` back.
-/
import Blueth.Http.ResponseHead
import Blueth.Net.NetworkStream
import Blueth.Utils.Base64

set_option autoImplicit false

namespace Blueth.Http

open Blueth.Io Blueth.Net Blueth.Scan
open Blueth.Base64 (base64Encode)

/-! ## The class -/

inductive HTTPProxyReturnCode where
  | proxyAuthRequired | connectionSuccess | noProxySupport | authFailed | networkError | invalidResponse
  deriving DecidableEq, Repr

/-- The object. What is behind `network_handler_` is a state of the stream. -/
structure HTTPProxyClient (σ : Type*) where
  networkHandler : σ
  originServerHostname : List UInt8
  originServerPort : UInt16
  proxyUsername : Option (List UInt8)
  proxyPassphrase : Option (List UInt8)
  proxyConnectionMade : Bool

/-- The arguments of `makeConnection`, and two things the language leaves open: the order in which the
header map is iterated, and the bytes of the status-code holder that its constructor does not write. -/
structure ConnectArgs where
  originServerHostname : List UInt8
  originServerPort : UInt16
  proxyUsername : Option (List UInt8)
  proxyPassphrase : Option (List UInt8)
  order : ∀ h : HTTPHeaders, h.Iteration
  uninit : UInt8 × UInt8 × UInt8

/-- The CONNECT request. -/
def connectRequestMessage (args : ConnectArgs) : HTTPRequestMessage :=
  let hostnameAndPort :=
    args.originServerHostname ++ str ":" ++ str (toString args.originServerPort.toNat)
  let message :=
    (((((HTTPRequestMessage.create.setRequestType .connect).setHTTPTargetResource hostnameAndPort).setHTTPVersion
      .http1_1).addHeader (str "Host") hostnameAndPort).addHeader (str "User-Agent")
        (str "blueth/http-client")).addHeader (str "Proxy-Connection") (str "Keep-Alive")
  match args.proxyUsername, args.proxyPassphrase with
  | some username, some passphrase =>
    message.addHeader (str "Proxy-Authorization")
      (str "Basic " ++ base64Encode (username ++ str ":" ++ passphrase))
  | _, _ => message

/-- The bytes that are written. -/
def connectBytes (args : ConnectArgs) : List UInt8 :=
  (connectRequestMessage args).buildRawMessage (args.order (connectRequestMessage args).httpHeaders)

/-- What `makeConnection` makes of the state and the message the parser leaves. -/
def returnCode : ResponseState → HTTPProxyReturnCode
  | (.protocolError, _) => .invalidResponse
  | (.parsingDone, parsedMessage) =>
    if parsedMessage.responseCode = HTTPResponseCodes.unauthorized.value then .proxyAuthRequired
    else if parsedMessage.responseCode = HTTPResponseCodes.ok.value then .connectionSuccess
    else .noProxySupport
  | _ => .invalidResponse

namespace HTTPProxyClient

variable {σ : Type*}

/-- The constructor. It leaves the port uninitialised. -/
def create (networkHandler : σ) (uninitPort : UInt16) : HTTPProxyClient σ where
  networkHandler := networkHandler
  originServerHostname := []
  originServerPort := uninitPort
  proxyUsername := none
  proxyPassphrase := none
  proxyConnectionMade := false

/-- The four assignments before anything can fail. -/
def setEndpoint (c : HTTPProxyClient σ) (args : ConnectArgs) : HTTPProxyClient σ :=
  { c with
    originServerHostname := args.originServerHostname
    originServerPort := args.originServerPort
    proxyUsername := args.proxyUsername
    proxyPassphrase := args.proxyPassphrase }

def onStream (c : HTTPProxyClient σ) (s : σ) : HTTPProxyClient σ := { c with networkHandler := s }

/-- The second half of `makeConnection`, from `constGetIOBuffer` on: parse what is in the stream's buffer
from a fresh message, and judge what the parser leaves. Its loop is given passes to spare. -/
def judgeProxyResponse (net : NetworkStream σ) (uninit : UInt8 × UInt8 × UInt8) (s : σ) :
    Answer HTTPProxyReturnCode :=
  match net.constGetIOBuffer s with
  | .threw what => .threw what
  | .fault => .fault
  -- the parser goes through the pointer at once
  | .returned none => .fault
  | .returned (some proxyResponse) =>
    match proxyResponse.pointedData with
    | none => .fault
    | some window =>
      match parseHTTP1_1ResponseMessage (window.length + 3) proxyResponse.toIOBuffer .responseProtocolH
        (.create uninit) with
      | .running => .fault
      | .fault => .fault
      | .returned parsed _ => .returned (returnCode parsed)

/-- `makeConnection`. -/
def makeConnection (net : NetworkStream σ) (args : ConnectArgs) (c : HTTPProxyClient σ) :
    Answer HTTPProxyReturnCode × HTTPProxyClient σ :=
  match net.streamWrite (connectBytes args) c.networkHandler with
  | (.threw what, s) => (.threw what, (c.setEndpoint args).onStream s)
  | (.fault, s) => (.fault, (c.setEndpoint args).onStream s)
  | (.returned writeRet, s) =>
    if writeRet < 0 then (.returned .networkError, (c.setEndpoint args).onStream s)
    else
      match judgeProxyResponse net args.uninit s with
      | .returned .connectionSuccess =>
        (.returned .connectionSuccess,
          { (c.setEndpoint args).onStream s with proxyConnectionMade := true })
      | answer => (answer, (c.setEndpoint args).onStream s)

/-- The exception of `readProxy` and `writeProxy`. -/
def noProxyConnection : String := "No proxy connection to the origin-server"

/-- `readProxy`. -/
def readProxy (net : NetworkStream σ) (readLength : UInt64) (c : HTTPProxyClient σ) :
    Answer (List UInt8) × HTTPProxyClient σ :=
  if c.proxyConnectionMade = false then (.threw noProxyConnection, c)
  else
    match net.streamRead readLength c.networkHandler with
    | (.threw what, s) => (.threw what, c.onStream s)
    | (.fault, s) => (.fault, c.onStream s)
    | (.returned ret, s) =>
      if ret < 0 then (.returned [], c.onStream s)
      else
        match net.constGetIOBuffer s with
        | .threw what => (.threw what, c.onStream s)
        | .fault => (.fault, c.onStream s)
        | .returned none => (.fault, c.onStream s)
        | .returned (some b) =>
          match b.pointedData, net.getIOBuffer s with
          | none, _ => (.fault, c.onStream s)
          | some _, (none, s) => (.fault, c.onStream s)
          | some returner, (some ioBuffer, s) =>
            (.returned returner, c.onStream (net.setIOBuffer (some ioBuffer.clear) s))

/-- `writeProxy`. -/
def writeProxy (net : NetworkStream σ) (data : List UInt8) (c : HTTPProxyClient σ) :
    Answer Int32 × HTTPProxyClient σ :=
  if c.proxyConnectionMade = false then (.threw noProxyConnection, c)
  else
    match net.streamWrite data c.networkHandler with
    | (answer, s) => (answer, c.onStream s)

def getOriginServerHost (c : HTTPProxyClient σ) : List UInt8 := c.originServerHostname

def getOriginServerPort (c : HTTPProxyClient σ) : UInt16 := c.originServerPort

def connectedToProxy (c : HTTPProxyClient σ) : Bool := c.proxyConnectionMade

/-! ## What each method does to the object -/

section Methods

variable {net : NetworkStream σ} {c : HTTPProxyClient σ}

/-- How an attempt ends, apart from the object. -/
def attempt (net : NetworkStream σ) (args : ConnectArgs) (s : σ) : Answer HTTPProxyReturnCode :=
  match net.streamWrite (connectBytes args) s with
  | (.threw what, _) => .threw what
  | (.fault, _) => .fault
  | (.returned writeRet, s') =>
    if writeRet < 0 then .returned .networkError else judgeProxyResponse net args.uninit s'

/-- **What `makeConnection` does.** The answer depends on the stream alone. Whatever it is, the object
remembers the endpoint of THIS attempt; a success raises the flag, and nothing takes it back. -/
theorem makeConnection_eq (net : NetworkStream σ) (args : ConnectArgs) (c : HTTPProxyClient σ) :
    makeConnection net args c =
      (attempt net args c.networkHandler,
        { (c.setEndpoint args).onStream (net.streamWrite (connectBytes args) c.networkHandler).2 with
          proxyConnectionMade :=
            c.proxyConnectionMade || attempt net args c.networkHandler = .returned .connectionSuccess }) := by
  unfold makeConnection attempt
  obtain ⟨answer, s⟩ := net.streamWrite (connectBytes args) c.networkHandler
  cases answer with
  | threw what => simp [onStream, setEndpoint]
  | fault => simp [onStream, setEndpoint]
  | returned writeRet =>
      by_cases hneg : writeRet < 0
      · simp [onStream, setEndpoint, hneg]
      · simp only [if_neg hneg]
        cases judgeProxyResponse net args.uninit s with
        | threw what => simp [onStream, setEndpoint]
        | fault => simp [onStream, setEndpoint]
        | returned code => cases code <;> simp [onStream, setEndpoint]

/-! The equation, field by field. -/

theorem makeConnection_answer (net : NetworkStream σ) (args : ConnectArgs) (c : HTTPProxyClient σ) :
    (makeConnection net args c).1 = attempt net args c.networkHandler := by
  rw [makeConnection_eq]

theorem makeConnection_networkHandler (net : NetworkStream σ) (args : ConnectArgs) (c : HTTPProxyClient σ) :
    (makeConnection net args c).2.networkHandler =
      (net.streamWrite (connectBytes args) c.networkHandler).2 := by
  rw [makeConnection_eq]
  rfl

theorem makeConnection_connectedToProxy (net : NetworkStream σ) (args : ConnectArgs)
    (c : HTTPProxyClient σ) :
    (makeConnection net args c).2.connectedToProxy = true ↔
      c.connectedToProxy = true ∨ attempt net args c.networkHandler = .returned .connectionSuccess := by
  rw [makeConnection_eq]
  show (c.proxyConnectionMade || decide _) = true ↔ _
  rw [Bool.or_eq_true, decide_eq_true_eq]
  rfl

theorem makeConnection_endpoint (net : NetworkStream σ) (args : ConnectArgs) (c : HTTPProxyClient σ) :
    ((makeConnection net args c).2.getOriginServerHost, (makeConnection net args c).2.getOriginServerPort) =
      (args.originServerHostname, args.originServerPort) := by
  rw [makeConnection_eq]
  rfl

/-- Without a connection `readProxy` and `writeProxy` throw, and the stream is not touched. -/
theorem readProxy_of_not_connected (h : c.connectedToProxy = false) (n : UInt64) :
    readProxy net n c = (.threw noProxyConnection, c) := if_pos h

theorem writeProxy_of_not_connected (h : c.connectedToProxy = false) (data : List UInt8) :
    writeProxy net data c = (.threw noProxyConnection, c) := if_pos h

/-- Neither of them changes anything but the stream. -/
theorem readProxy_keeps (net : NetworkStream σ) (n : UInt64) (c : HTTPProxyClient σ) :
    ∃ s, (readProxy net n c).2 = c.onStream s := by
  unfold readProxy
  split_ifs
  · exact ⟨_, rfl⟩
  · obtain ⟨answer, s⟩ := net.streamRead n c.networkHandler
    cases answer with
    | threw what => exact ⟨_, rfl⟩
    | fault => exact ⟨_, rfl⟩
    | returned ret =>
        dsimp only
        split_ifs
        · exact ⟨_, rfl⟩
        · split
          · exact ⟨_, rfl⟩
          · exact ⟨_, rfl⟩
          · exact ⟨_, rfl⟩
          · split <;> exact ⟨_, rfl⟩

theorem writeProxy_keeps (net : NetworkStream σ) (data : List UInt8) (c : HTTPProxyClient σ) :
    ∃ s, (writeProxy net data c).2 = c.onStream s := by
  unfold writeProxy
  split_ifs
  · exact ⟨_, rfl⟩
  · exact ⟨_, rfl⟩

end Methods

end HTTPProxyClient

end Blueth.Http
