/-
# Blueth.Http.ParserCommon — enumerations, character classes and status texts
(`http/HTTPConstants.hpp`, `http/HTTPParserCommon.hpp`).

`std::string` and `char` buffers are lists of bytes. Plain `char` is signed on the usual targets, but
every test below gives the same answer for either signedness: a byte `>= 0x80` is negative or above
127, so it is never `is_char`, never `is_control`, and `isprint`/`isdigit` (C locale) refuse it.
-/
import Mathlib.Data.List.Basic
import Mathlib.Tactic.Common

set_option autoImplicit false

namespace Blueth.Http

/-! ## Bytes of character and string literals -/

/-- The byte of a character literal. -/
def ch (c : Char) : UInt8 := c.toUInt8

/-- The bytes of a string literal. -/
def str (s : String) : List UInt8 := s.toList.map Char.toUInt8

/-! ## `HTTPConstants.hpp` -/

/-- `enum class LexConsts`. -/
def CR : UInt8 := 0x0D
def LF : UInt8 := 0x0A
def SP : UInt8 := 0x20
def HT : UInt8 := 0x09

inductive HTTPRequestType where
  | get | post | head | put | unsupported | connect
  deriving DecidableEq, Repr

inductive HTTPVersion where
  | http1_1 | http_2
  deriving DecidableEq, Repr

inductive ParserState where
  | protocolError
  -- Request-Line states
  | requestLineBegin | requestMethod | requestResource
  | requestProtocolH | requestProtocolT1 | requestProtocolT2 | requestProtocolP
  | requestProtocolSlash | requestProtocolVersionMajor | requestProtocolDot
  | requestProtocolVersionMinor | requestLineLF
  -- HTTP 1.x header states
  | headerName | headerValue | headerValueLF | headerEndLF
  -- Request body state
  | messageBody
  -- Final state, indicates success in parsing
  | parsingDone
  deriving DecidableEq, Repr

inductive ResponseParserState where
  | protocolError
  -- Status-line states
  | responseProtocolH | responseProtocolT1 | responseProtocolT2 | responseProtocolP
  | responseProtocolSlash | responseProtocolVersionMajor | responseProtocolDot
  | responseProtocolVersionMinor | statusCode | responseReasonPhrase | statusLineLF
  -- HTTP 1.x header states
  | headerName | headerValue | headerValueLF | headerEndLF
  -- Response body state
  | responseMessageBody
  -- Final state, indicates success in parsing
  | parsingDone
  deriving DecidableEq, Repr

/-- The enumerators of `enum class HTTPResponseCodes`. The underlying type is `int`, so an OBJECT of
the C++ type can hold any `int`; a message keeps its code as an integer and these are its names. -/
inductive HTTPResponseCodes where
  | continue_ | switchingProtocols
  | ok | created | accepted | nonAuthoritativeInformation | noContent | resetContent
  | partialContent
  | multipleChoices | movedPermanently | found | seeOther | notModified | useProxy
  | temporaryRedirect
  | badRequest | unauthorized | paymentRequired | forbidden | notFound | methodNotAllowed
  | notAcceptable | proxyAuthenticationRequired | requestTimeOut | conflict | gone
  | lengthRequired | preconditionFailed | requestEntityTooLarge | requestURITooLarge
  | unsupportedMediaType | requestRangeNotSatisfiable | expectationFailed
  | internalServerError | notImplemented | badGateway | serviceUnavailable | gatewayTimeOut
  | httpVersionNotSupported | invalidHttpCode
  deriving DecidableEq, Repr

namespace HTTPResponseCodes

/-- The number an enumerator stands for. -/
def value : HTTPResponseCodes → Int
  | continue_ => 100
  | switchingProtocols => 101
  | ok => 200
  | created => 201
  | accepted => 202
  | nonAuthoritativeInformation => 203
  | noContent => 204
  | resetContent => 205
  | partialContent => 206
  | multipleChoices => 300
  | movedPermanently => 301
  | found => 302
  | seeOther => 303
  | notModified => 304
  | useProxy => 305
  | temporaryRedirect => 307
  | badRequest => 400
  | unauthorized => 401
  | paymentRequired => 402
  | forbidden => 403
  | notFound => 404
  | methodNotAllowed => 405
  | notAcceptable => 406
  | proxyAuthenticationRequired => 407
  | requestTimeOut => 408
  | conflict => 409
  | gone => 410
  | lengthRequired => 411
  | preconditionFailed => 412
  | requestEntityTooLarge => 413
  | requestURITooLarge => 414
  | unsupportedMediaType => 415
  | requestRangeNotSatisfiable => 416
  | expectationFailed => 417
  | internalServerError => 500
  | notImplemented => 501
  | badGateway => 502
  | serviceUnavailable => 503
  | gatewayTimeOut => 504
  | httpVersionNotSupported => 505
  | invalidHttpCode => 506

/-- Every enumerator, in the order of declaration. -/
def all : List HTTPResponseCodes :=
  [continue_, switchingProtocols, ok, created, accepted, nonAuthoritativeInformation, noContent,
    resetContent, partialContent, multipleChoices, movedPermanently, found, seeOther, notModified,
    useProxy, temporaryRedirect, badRequest, unauthorized, paymentRequired, forbidden, notFound,
    methodNotAllowed, notAcceptable, proxyAuthenticationRequired, requestTimeOut, conflict, gone,
    lengthRequired, preconditionFailed, requestEntityTooLarge, requestURITooLarge,
    unsupportedMediaType, requestRangeNotSatisfiable, expectationFailed, internalServerError,
    notImplemented, badGateway, serviceUnavailable, gatewayTimeOut, httpVersionNotSupported,
    invalidHttpCode]

/-- The enumerator a `switch` over an `int` of this type selects, if any. -/
def ofValue? (n : Int) : Option HTTPResponseCodes := all.find? fun c => c.value = n

theorem ofValue?_value (c : HTTPResponseCodes) : ofValue? c.value = some c := by
  cases c <;> decide

end HTTPResponseCodes

/-! ## `HTTPParserCommon.hpp` -/

/-- The byte at `s.c_str() + i`; the string is NUL-terminated. -/
def cStrAt (s : List UInt8) (i : ℕ) : UInt8 := s.getD i 0

/-- `str3cmp`: the first THREE bytes agree. Nothing is asked of the bytes after them. -/
def str3cmp (ptr cmp : List UInt8) : Bool :=
  cStrAt ptr 0 == cStrAt cmp 0 && cStrAt ptr 1 == cStrAt cmp 1 && cStrAt ptr 2 == cStrAt cmp 2

/-- `str4cmp`: the first FOUR bytes agree. -/
def str4cmp (ptr cmp : List UInt8) : Bool :=
  cStrAt ptr 0 == cStrAt cmp 0 && cStrAt ptr 1 == cStrAt cmp 1 && cStrAt ptr 2 == cStrAt cmp 2 &&
    cStrAt ptr 3 == cStrAt cmp 3

def isSeparator (value : UInt8) : Bool :=
  (str "()<>@,;:\\\"/[]?=\x7b\x7d").contains value || value == SP || value == HT

def isChar (value : UInt8) : Bool := value.toNat ≤ 127

def isControl (value : UInt8) : Bool := value.toNat ≤ 31 || value == 127

def isToken (value : UInt8) : Bool := isChar value && !(isControl value || isSeparator value)

def isText (value : UInt8) : Bool := !isControl value || (value == SP || value == HT)

/-- `std::isprint` in the C locale. -/
def isPrint (value : UInt8) : Bool := 0x20 ≤ value.toNat && value.toNat ≤ 0x7e

/-- `std::isdigit` in the C locale. -/
def isDigit (value : UInt8) : Bool := 0x30 ≤ value.toNat && value.toNat ≤ 0x39

/-- `std::isspace` in the C locale. -/
def isSpace (value : UInt8) : Bool := value == SP || (0x09 ≤ value.toNat && value.toNat ≤ 0x0d)

/-- The digits of `s` up to the first other byte, read in base ten. -/
def leadingDigits (acc : Int) : List UInt8 → Int
  | [] => acc
  | c :: s => if isDigit c then leadingDigits (10 * acc + (c.toNat - 0x30 : ℕ)) s else acc

/-- `std::atoi`: white space, an optional sign, digits up to the first other byte. -/
def atoi (s : List UInt8) : Int :=
  match s.dropWhile isSpace with
  | [] => 0
  | c :: s =>
    if c = ch '-' then -leadingDigits 0 s
    else if c = ch '+' then leadingDigits 0 s
    else leadingDigits 0 (c :: s)

/-- `string_from_response_code`. -/
def stringFromResponseCode : HTTPResponseCodes → Option (List UInt8)
  | .continue_ => some (str "Continue")
  | .switchingProtocols => some (str "Switching Protocols")
  | .ok => some (str "OK")
  | .created => some (str "Created")
  | .accepted => some (str "Accepted")
  | .nonAuthoritativeInformation => some (str "Non-Authoritative Information")
  | .noContent => some (str "No Content")
  | .resetContent => some (str "Reset Content")
  | .partialContent => some (str "Partial Content")
  | .multipleChoices => some (str "Multiple Choices")
  | .movedPermanently => some (str "Moved Permanently")
  | .found => some (str "Found")
  | .seeOther => some (str "See Other")
  | .notModified => some (str "Not Modified")
  | .useProxy => some (str "Use Proxy")
  | .temporaryRedirect => some (str "Temporary Redirect")
  | .badRequest => some (str "Bad Request")
  | .unauthorized => some (str "Unauthorized")
  | .paymentRequired => some (str "Payment Required")
  | .forbidden => some (str "Forbidden")
  | .notFound => some (str "Not Found")
  | .methodNotAllowed => some (str "Method Not Allowed")
  | .notAcceptable => some (str "Not Acceptable")
  | .proxyAuthenticationRequired => some (str "Proxy Authentication Required")
  | .requestTimeOut => some (str "Request Time-out")
  | .conflict => some (str "Conflict")
  | .gone => some (str "Gone")
  | .lengthRequired => some (str "Length Required")
  | .preconditionFailed => some (str "Precondition Failed")
  | .requestEntityTooLarge => some (str "Request Entity Too Large")
  | .requestURITooLarge => some (str "Request-URI Too Large")
  | .unsupportedMediaType => some (str "Unsupported Media Type")
  | .requestRangeNotSatisfiable => some (str "Requested range not satisfiable")
  | .expectationFailed => some (str "Expectation Failed")
  | .internalServerError => some (str "Internal Server Error")
  | .notImplemented => some (str "Not Implemented")
  | .badGateway => some (str "Bad Gateway")
  | .serviceUnavailable => some (str "Service Unavailable")
  | .gatewayTimeOut => some (str "Gateway Time-out")
  | .httpVersionNotSupported => some (str "HTTP Version not supported")
  | .invalidHttpCode => none

/-! ## What the classes exclude -/

section Classes

variable {c : UInt8}

theorem isToken_ne_sp (h : isToken c) : c ≠ SP := by
  rintro rfl; revert h; decide

theorem isToken_ne_cr (h : isToken c) : c ≠ CR := by
  rintro rfl; revert h; decide

theorem isToken_ne_colon (h : isToken c) : c ≠ ch ':' := by
  rintro rfl; revert h; decide

theorem isText_ne_cr (h : isText c) : c ≠ CR := by
  rintro rfl; revert h; decide

theorem isDigit_ne_colon (h : isDigit c) : c ≠ ch ':' := by
  rintro rfl; revert h; decide

theorem isPrint_of_isDigit (h : isDigit c) : isPrint c := by
  simp only [isDigit, isPrint, Bool.and_eq_true, decide_eq_true_eq] at h ⊢
  omega

theorem isText_of_isPrint (h : isPrint c) : isText c := by
  simp only [isPrint, Bool.and_eq_true, decide_eq_true_eq] at h
  have hne : c ≠ 127 := by
    rintro rfl
    exact absurd h.2 (by decide)
  simp only [isText, isControl, Bool.or_eq_true, Bool.not_eq_true', Bool.or_eq_false_iff,
    decide_eq_false_iff_not, beq_eq_false_iff_ne, ne_eq]
  exact .inl ⟨by omega, hne⟩

end Classes

end Blueth.Http
