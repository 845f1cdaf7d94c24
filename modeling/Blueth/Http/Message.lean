/-
# Blueth.Http.Message — request and response messages (`http/HTTPMessage.hpp`).

A message is the product of the parser and the input of the serialiser. Each class keeps its public
part (type or code, version, target, header map, body) and the `temp_*` holders that only the
state-machine parser touches. The raw body is the DATA WINDOW of its `IOBuffer`: messages only append
to it, clear it and read it from begin to end, i.e. use it as a byte queue.

`http_code_holder` is four `char`s of which the constructor sets only the last (to NUL), and no
method writes that one again; the model carries this as a field, and `create` takes the three bytes
that are still uninitialised as an argument.
-/
import Blueth.Http.Headers

set_option autoImplicit false

namespace Blueth.Http

/-! ## `HTTPRequestMessage` -/

structure HTTPRequestMessage where
  httpHeaders : HTTPHeaders
  rawBody : List UInt8
  requestType : HTTPRequestType
  httpMessageVersion : HTTPVersion
  targetResource : List UInt8
  tempHeaderValueHolder : List UInt8
  tempHeaderNameHolder : List UInt8
  tempHttpMethodHolder : List UInt8
  deriving DecidableEq

namespace HTTPRequestMessage

/-- The constructor. -/
def create : HTTPRequestMessage where
  httpHeaders := .empty
  rawBody := []
  requestType := .unsupported
  httpMessageVersion := .http1_1
  targetResource := []
  tempHeaderValueHolder := []
  tempHeaderNameHolder := []
  tempHttpMethodHolder := []

def addHeader (m : HTTPRequestMessage) (headerName headerValue : List UInt8) : HTTPRequestMessage :=
  { m with httpHeaders := m.httpHeaders.addHeader (headerName, headerValue) }

def removeHeader (m : HTTPRequestMessage) (headerName : List UInt8) : Bool × HTTPRequestMessage :=
  ((m.httpHeaders.removeHeader headerName).1,
    { m with httpHeaders := (m.httpHeaders.removeHeader headerName).2 })

def setRequestType (m : HTTPRequestMessage) (type : HTTPRequestType) : HTTPRequestMessage :=
  { m with requestType := type }

def setHTTPVersion (m : HTTPRequestMessage) (version : HTTPVersion) : HTTPRequestMessage :=
  { m with httpMessageVersion := version }

/-- `target_resource_ += target_resource`: the setter appends. -/
def setHTTPTargetResource (m : HTTPRequestMessage) (targetResource : List UInt8) :
    HTTPRequestMessage :=
  { m with targetResource := m.targetResource ++ targetResource }

def setRawBody (m : HTTPRequestMessage) (body : List UInt8) : HTTPRequestMessage :=
  { m with rawBody := body }

def getHeaderValue (m : HTTPRequestMessage) (headerName : List UInt8) : Option (List UInt8) :=
  m.httpHeaders.getHeaderValue headerName

/-- The method word of `buildRawMessage`, with its trailing space. -/
def methodWord : HTTPRequestType → List UInt8
  | .get => str "GET "
  | .post => str "POST "
  | .head => str "HEAD "
  | .put => str "PUT "
  | .connect => str "CONNECT "
  | .unsupported => str "UNSUPPORTED "

/-- `buildRawMessage`. The version written is ALWAYS `HTTP/1.1`, whatever the message says. -/
def buildRawMessage (m : HTTPRequestMessage) (it : m.httpHeaders.Iteration) : List UInt8 :=
  methodWord m.requestType ++ m.targetResource ++ str " " ++ str "HTTP/1.1" ++ str "\r\n" ++
    m.httpHeaders.buildRawHeader it ++ m.rawBody

/-! ### Parser hooks -/

def pushBackHeaderValue (m : HTTPRequestMessage) (charVal : UInt8) : HTTPRequestMessage :=
  { m with tempHeaderValueHolder := m.tempHeaderValueHolder ++ [charVal] }

def pushBackHeaderName (m : HTTPRequestMessage) (charVal : UInt8) : HTTPRequestMessage :=
  { m with tempHeaderNameHolder := m.tempHeaderNameHolder ++ [charVal] }

def addTempHeadersHolderToMessage (m : HTTPRequestMessage) : HTTPRequestMessage :=
  { m with
    httpHeaders := m.httpHeaders.addHeader (m.tempHeaderNameHolder, m.tempHeaderValueHolder)
    tempHeaderNameHolder := []
    tempHeaderValueHolder := [] }

def pushBackRawBody (m : HTTPRequestMessage) (rawBody : List UInt8) : HTTPRequestMessage :=
  { m with rawBody := m.rawBody ++ rawBody }

def pushBackTargetResource (m : HTTPRequestMessage) (charVal : UInt8) : HTTPRequestMessage :=
  { m with targetResource := m.targetResource ++ [charVal] }

def pushBackRequestMethod (m : HTTPRequestMessage) (charVal : UInt8) : HTTPRequestMessage :=
  { m with tempHttpMethodHolder := m.tempHttpMethodHolder ++ [charVal] }

def getTempRequestMethod (m : HTTPRequestMessage) : List UInt8 := m.tempHttpMethodHolder

end HTTPRequestMessage

/-! ## `HTTPResponseMessage` -/

/-- `temp_http_status_code_holder_`: a C string of at most three digits under construction. -/
structure StatusCodeHolder where
  httpCodeHolder : Vector UInt8 4
  currentIndex : ℕ
  terminated : httpCodeHolder[3] = 0
  deriving DecidableEq

/-- The holder as constructed: index 0, NUL at the end, three uninitialised bytes before it. -/
def StatusCodeHolder.create (uninit : UInt8 × UInt8 × UInt8) : StatusCodeHolder where
  httpCodeHolder := #v[uninit.1, uninit.2.1, uninit.2.2, 0]
  currentIndex := 0
  terminated := rfl

/-- Store a digit while there is room; further digits are dropped. -/
def StatusCodeHolder.push (h : StatusCodeHolder) (charValue : UInt8) : StatusCodeHolder :=
  if hi : h.currentIndex ≤ 2 then
    { httpCodeHolder := h.httpCodeHolder.set h.currentIndex charValue
      currentIndex := h.currentIndex + 1
      terminated := by
        rw [Vector.getElem_set_ne _ _ (by omega)]
        exact h.terminated }
  else h

structure HTTPResponseMessage where
  httpHeaders : HTTPHeaders
  rawBody : List UInt8
  /-- any `int`: the parser casts whatever `atoi` gives -/
  responseCode : Int
  httpMessageVersion : HTTPVersion
  tempHeaderValueHolder : List UInt8
  tempHeaderNameHolder : List UInt8
  tempHttpStatusCodeHolder : StatusCodeHolder
  deriving DecidableEq

namespace HTTPResponseMessage

/-- The constructor; `uninit` are the bytes of `http_code_holder` it leaves uninitialised. -/
def create (uninit : UInt8 × UInt8 × UInt8) : HTTPResponseMessage where
  httpHeaders := .empty
  rawBody := []
  responseCode := HTTPResponseCodes.badRequest.value
  httpMessageVersion := .http1_1
  tempHeaderValueHolder := []
  tempHeaderNameHolder := []
  tempHttpStatusCodeHolder := .create uninit

def addHeader (m : HTTPResponseMessage) (headerName headerValue : List UInt8) : HTTPResponseMessage :=
  { m with httpHeaders := m.httpHeaders.addHeader (headerName, headerValue) }

def removeHeader (m : HTTPResponseMessage) (headerName : List UInt8) : Bool × HTTPResponseMessage :=
  ((m.httpHeaders.removeHeader headerName).1,
    { m with httpHeaders := (m.httpHeaders.removeHeader headerName).2 })

def setResponseCode (m : HTTPResponseMessage) (code : Int) : HTTPResponseMessage :=
  { m with responseCode := code }

def setHTTPVersion (m : HTTPResponseMessage) (version : HTTPVersion) : HTTPResponseMessage :=
  { m with httpMessageVersion := version }

def setRawBody (m : HTTPResponseMessage) (body : List UInt8) : HTTPResponseMessage :=
  { m with rawBody := body }

def getHeaderValue (m : HTTPResponseMessage) (headerName : List UInt8) : Option (List UInt8) :=
  m.httpHeaders.getHeaderValue headerName

/-- The code whose text a case of `buildRawMessage` looks up: its own, EXCEPT that the case of
`TemporaryRedirect` asks for the text of `UseProxy`. -/
def phraseCode : HTTPResponseCodes → HTTPResponseCodes
  | .temporaryRedirect => .useProxy
  | code => code

/-- What the case of an enumerator appends: number, space, text. -/
def statusText (code : HTTPResponseCodes) : List UInt8 :=
  str (toString code.value) ++ str " " ++ (stringFromResponseCode (phraseCode code)).getD []

/-- `buildRawMessage`. Nothing is written for another version or for `InvalidHttpCode`; an `int` that
is no enumerator takes no case of the `switch`, and the status line stays without number and text. -/
def buildRawMessage (m : HTTPResponseMessage) (it : m.httpHeaders.Iteration) : List UInt8 :=
  match m.httpMessageVersion with
  | .http_2 => []
  | .http1_1 =>
    match HTTPResponseCodes.ofValue? m.responseCode with
    | some .invalidHttpCode => []
    | some code =>
        str "HTTP/1.1 " ++ statusText code ++ str "\r\n" ++ m.httpHeaders.buildRawHeader it ++ m.rawBody
    | none => str "HTTP/1.1 " ++ str "\r\n" ++ m.httpHeaders.buildRawHeader it ++ m.rawBody

/-! ### Parser hooks -/

def pushBackHeaderValue (m : HTTPResponseMessage) (charVal : UInt8) : HTTPResponseMessage :=
  { m with tempHeaderValueHolder := m.tempHeaderValueHolder ++ [charVal] }

def pushBackHeaderName (m : HTTPResponseMessage) (charVal : UInt8) : HTTPResponseMessage :=
  { m with tempHeaderNameHolder := m.tempHeaderNameHolder ++ [charVal] }

def addTempHeadersHolderToMessage (m : HTTPResponseMessage) : HTTPResponseMessage :=
  { m with
    httpHeaders := m.httpHeaders.addHeader (m.tempHeaderNameHolder, m.tempHeaderValueHolder)
    tempHeaderNameHolder := []
    tempHeaderValueHolder := [] }

def pushBackRawBody (m : HTTPResponseMessage) (rawBody : List UInt8) : HTTPResponseMessage :=
  { m with rawBody := m.rawBody ++ rawBody }

def pushBackResponseCode (m : HTTPResponseMessage) (charValue : UInt8) : HTTPResponseMessage :=
  { m with tempHttpStatusCodeHolder := m.tempHttpStatusCodeHolder.push charValue }

/-- `getTempStatusCode`, the holder as a C string. -/
def getTempStatusCode (m : HTTPResponseMessage) : List UInt8 :=
  m.tempHttpStatusCodeHolder.httpCodeHolder.toList

end HTTPResponseMessage

end Blueth.Http
