/-
# Blueth.Http.ProxyHandshake — what `makeConnection` judges (`http/HTTPProxy.hpp`).

`makeConnection` writes the CONNECT and parses what is in the stream's buffer, without a `streamRead` in
between. So its verdict is on the bytes that were there before it wrote, `Verdict` says which one that is,
and the peer's answer plays no part: `judgesAnswer_iff` is the exact account of when the verdict on the
leftovers happens to be the right one on the answer.
-/
import Blueth.Http.HTTPProxy
import Blueth.Http.HeadSoundness
import Blueth.Net.SyncNetworkStreamClient

set_option autoImplicit false

namespace Blueth.Http

open Blueth.Io Blueth.Net Blueth.Scan
open HTTPProxyClient
open SyncNetworkStreamClient (answering answeredBy answeredByContract streamWrite holding_isStream)

/-! ## The verdict on a buffer -/

/-- The window starts with a complete response head whose status is read as `code`, and where that head
announces a body there is some of it. -/
def StartsWithCode (uninit : UInt8 × UInt8 × UInt8) (w : List UInt8) (code : Int) : Prop :=
  ∃ (h : ResponseHead) (rest : List UInt8), h.Shaped ∧ w = h.bytes ++ rest ∧
    (afterBlankLine h.headers = .responseMessageBody → rest ≠ []) ∧ (h.message uninit).responseCode = code

/-- What a window is worth as the answer of a proxy. -/
inductive Verdict (uninit : UInt8 × UInt8 × UInt8) (w : List UInt8) : HTTPProxyReturnCode → Prop
  | granted (h : StartsWithCode uninit w HTTPResponseCodes.ok.value) : Verdict uninit w .connectionSuccess
  | unauthorized (h : StartsWithCode uninit w HTTPResponseCodes.unauthorized.value) :
      Verdict uninit w .proxyAuthRequired
  | refused {code : Int} (h : StartsWithCode uninit w code) (hok : code ≠ HTTPResponseCodes.ok.value)
      (hun : code ≠ HTTPResponseCodes.unauthorized.value) : Verdict uninit w .noProxySupport
  | noHead (h : ∀ code, ¬ StartsWithCode uninit w code) : Verdict uninit w .invalidResponse

section Verdict

variable {uninit : UInt8 × UInt8 × UInt8} {w : List UInt8}

/-- A window starts with one code at most. -/
theorem StartsWithCode.unique {code code₂ : Int} (h : StartsWithCode uninit w code)
    (h₂ : StartsWithCode uninit w code₂) : code = code₂ := by
  obtain ⟨g, rest, hg, rfl, -, rfl⟩ := h
  obtain ⟨g₂, rest₂, hg₂, hw, -, rfl⟩ := h₂
  obtain ⟨rfl, -⟩ := ResponseHead.bytes_inj hg hg₂ hw
  rfl

theorem Verdict.unique {v v₂ : HTTPProxyReturnCode} (h : Verdict uninit w v) (h₂ : Verdict uninit w v₂) :
    v = v₂ := by
  have hne : HTTPResponseCodes.ok.value ≠ HTTPResponseCodes.unauthorized.value := by decide
  cases h with
  | granted h =>
      cases h₂ with
      | granted => rfl
      | unauthorized h₂ => exact absurd (h.unique h₂) hne
      | refused h₂ hok => exact absurd (h₂.unique h) hok
      | noHead h₂ => exact absurd h (h₂ _)
  | unauthorized h =>
      cases h₂ with
      | granted h₂ => exact absurd (h₂.unique h) hne
      | unauthorized => rfl
      | refused h₂ _ hun => exact absurd (h₂.unique h) hun
      | noHead h₂ => exact absurd h (h₂ _)
  | refused h hok hun =>
      cases h₂ with
      | granted h₂ => exact absurd (h.unique h₂) hok
      | unauthorized h₂ => exact absurd (h.unique h₂) hun
      | refused => rfl
      | noHead h₂ => exact absurd h (h₂ _)
  | noHead h =>
      cases h₂ with
      | granted h₂ => exact absurd h₂ (h _)
      | unauthorized h₂ => exact absurd h₂ (h _)
      | refused h₂ => exact absurd h₂ (h _)
      | noHead => rfl

/-- `ConnectionSuccess` is the verdict on a 200 only. -/
theorem verdict_success_iff :
    Verdict uninit w .connectionSuccess ↔ StartsWithCode uninit w HTTPResponseCodes.ok.value := by
  constructor
  · intro h
    cases h with
    | granted h => exact h
  · exact Verdict.granted

/-- A parsed message whose code is the one the window starts with gets the window's verdict. -/
theorem verdict_returnCode {m : HTTPResponseMessage} (h : StartsWithCode uninit w m.responseCode) :
    Verdict uninit w (returnCode (.parsingDone, m)) := by
  simp only [returnCode]
  split_ifs with hun hok
  · exact .unauthorized (hun ▸ h)
  · exact .granted (hok ▸ h)
  · exact .refused h hok hun

/-- Behind a head, the parser's result is the window's verdict. -/
theorem verdict_result {h : ResponseHead} (hs : h.Shaped) (rest : List UInt8) :
    Verdict uninit (h.bytes ++ rest) (returnCode (h.result uninit rest)) := by
  unfold ResponseHead.result
  split_ifs with hbody
  · -- a body that has begun
    exact verdict_returnCode ⟨h, rest, hs, rfl, fun _ => hbody.2, rfl⟩
  · rcases afterBlankLine_accepting h.headers with hdone | hwaits
    · rw [hdone]
      exact verdict_returnCode ⟨h, rest, hs, rfl, by simp [hdone], rfl⟩
    · -- a body that is still to come
      rw [hwaits]
      refine .noHead ?_
      rintro code ⟨g, rest₂, hg, hw, hrest, -⟩
      obtain ⟨rfl, rfl⟩ := ResponseHead.bytes_inj hs hg hw
      exact hbody ⟨hwaits, hrest hwaits⟩

theorem returnCode_of_not_accepting {st : ResponseParserState} {m : HTTPResponseMessage}
    (h : ¬ st.Accepting) : returnCode (st, m) = .invalidResponse := by
  unfold returnCode
  split
  · rfl
  · rename_i heq
    rw [Prod.mk.injEq] at heq
    exact absurd (.inl heq.1) h
  · rfl

/-- **The parser's result, judged.** -/
theorem verdict_of_outcome {b : IOBuffer} {t : ResponseState} {left : List UInt8}
    (h : outcome responsePass b.data (.responseProtocolH, .create uninit) b.byteBefore = .returned t left) :
    Verdict uninit b.data (returnCode t) := by
  obtain ⟨st, m⟩ := t
  have hm : ResponseReturns b .responseProtocolH (.create uninit) st m :=
    (returns_iff responsePass_settles).mpr ⟨left, h⟩
  by_cases hacc : st.Accepting
  · obtain ⟨g, rest, hg, hdata, hres⟩ := responseAccepts_iff.mp ⟨hm, hacc⟩
    rw [hdata, hres]
    exact verdict_result hg rest
  · -- were there a head, the parser would have got to its end
    rw [returnCode_of_not_accepting hacc]
    refine .noHead ?_
    rintro code ⟨g, rest, hg, hw, -, -⟩
    obtain ⟨hm₂, hacc₂⟩ := responseAccepts_iff.mpr ⟨g, rest, hg, hw, rfl⟩
    have heq := returns_unique responsePass_settles hm hm₂
    rw [Prod.mk.injEq] at heq
    exact hacc (heq.1 ▸ hacc₂)

end Verdict

variable {σ : Type*} {net : NetworkStream σ}

/-- **`makeConnection` judges the buffer.** -/
theorem judgeProxyResponse_verdict (uninit : UInt8 × UInt8 × UInt8) {s : σ} {b : RawIOBuffer}
    {w : List UInt8} (hb : net.constGetIOBuffer s = .returned (some b)) (hw : b.pointedData = some w) :
    ∃ code, judgeProxyResponse net uninit s = .returned code ∧ Verdict uninit w code := by
  obtain rfl := RawIOBuffer.data_of_pointedData hw
  obtain ⟨t, left, ht⟩ := outcome_responsePass_returned (p := b.toIOBuffer.byteBefore)
    (.inl (by simp : ResponseParserState.responseProtocolH ≠ .headerValue)) (.create uninit) b.data
  refine ⟨returnCode t, ?_, verdict_of_outcome ht⟩
  simp only [judgeProxyResponse, hb, hw, parseHTTP1_1ResponseMessage, scanBuffer]
  rw [loop_eq_outcome responsePass_settles (Nat.le_refl _), ht]

/-- A code is returned exactly for a buffer with a window that gets this verdict. -/
theorem judgeProxyResponse_returned_iff {uninit : UInt8 × UInt8 × UInt8} {s : σ} {code : HTTPProxyReturnCode} :
    judgeProxyResponse net uninit s = .returned code ↔
      ∃ b w, net.constGetIOBuffer s = .returned (some b) ∧ b.pointedData = some w ∧ Verdict uninit w code := by
  constructor
  · intro h
    cases hb : net.constGetIOBuffer s with
    | threw what => simp only [judgeProxyResponse, hb, reduceCtorEq] at h
    | fault => simp only [judgeProxyResponse, hb, reduceCtorEq] at h
    | returned buffer =>
        cases buffer with
        | none => simp only [judgeProxyResponse, hb, reduceCtorEq] at h
        | some b =>
            cases hw : b.pointedData with
            | none => simp only [judgeProxyResponse, hb, hw, reduceCtorEq] at h
            | some w =>
                obtain ⟨code₂, hcode₂, hverdict⟩ := judgeProxyResponse_verdict uninit hb hw
                rw [hcode₂, Answer.returned.injEq] at h
                exact ⟨b, w, rfl, hw, h ▸ hverdict⟩
  · intro h
    obtain ⟨b, w, hb, hw, hverdict⟩ := h
    obtain ⟨code₂, hcode₂, hverdict₂⟩ := judgeProxyResponse_verdict uninit hb hw
    rw [hcode₂, hverdict₂.unique hverdict]

/-- The CONNECT is written, and the buffer then starts with a complete head whose status is a 200. -/
def Granted (net : NetworkStream σ) (args : ConnectArgs) (s : σ) : Prop :=
  ∃ ret s' b w, net.streamWrite (connectBytes args) s = (.returned ret, s') ∧ ¬ ret < 0 ∧
    net.constGetIOBuffer s' = .returned (some b) ∧ b.pointedData = some w ∧
    StartsWithCode args.uninit w HTTPResponseCodes.ok.value

/-- An attempt is a success exactly when it is granted. -/
theorem attempt_success_iff {args : ConnectArgs} {handler : σ} :
    attempt net args handler = .returned .connectionSuccess ↔ Granted net args handler := by
  unfold attempt Granted
  cases hwrite : net.streamWrite (connectBytes args) handler with
  | mk answer s' =>
      cases answer with
      | threw what => simp
      | fault => simp
      | returned ret =>
          by_cases hneg : ret < 0
          · simp only [if_pos hneg]
            constructor
            · intro h
              cases h
            · intro h
              obtain ⟨ret₂, s₂, b, w, heq, hnonneg, -⟩ := h
              cases heq
              exact absurd hneg hnonneg
          · simp only [if_neg hneg, judgeProxyResponse_returned_iff, verdict_success_iff]
            constructor
            · intro h
              obtain ⟨b, w, hb, hw, hok⟩ := h
              exact ⟨ret, s', b, w, rfl, hneg, hb, hw, hok⟩
            · intro h
              obtain ⟨ret₂, s₂, b, w, heq, -, hb, hw, hok⟩ := h
              cases heq
              exact ⟨b, w, hb, hw, hok⟩

/-! ## The answer of the peer -/

/-- A complete response without a body that grants the tunnel: a well-formed head with a status 2xx. -/
def GrantsTunnel (r : List UInt8) : Prop :=
  ∃ h : ResponseHead, h.Shaped ∧ h.Strict ∧ r = h.bytes ∧ ∃ d e, h.status = [ch '2', d, e]

/-- A connected stream with `leftover` in its buffer, and a peer that has sent nothing else so far and
answers the CONNECT with `r`. -/
structure Answered (K : Contract net) (args : ConnectArgs) (s : σ) (leftover r : List UInt8) : Prop where
  before : K.IsStream s leftover []
  sent : ∃ ret, (net.streamWrite (connectBytes args) s).1 = .returned ret ∧ ¬ ret < 0
  answered : K.IsStream (net.streamWrite (connectBytes args) s).2 leftover r

/-- The verdict is on the answer: success exactly for a response that grants the tunnel, a failure code
otherwise. -/
def JudgesAnswer (net : NetworkStream σ) (args : ConnectArgs) (c : HTTPProxyClient σ) (r : List UInt8) :
    Prop :=
  ∃ code, (makeConnection net args c).1 = .returned code ∧ (code = .connectionSuccess ↔ GrantsTunnel r)

section Handshake

variable {K : Contract net} {args : ConnectArgs} {c c₂ : HTTPProxyClient σ} {w w₂ r : List UInt8}

/-- **The answer is not looked at**: `makeConnection` returns the verdict on the leftovers. -/
theorem makeConnection_of_answered (h : Answered K args c.networkHandler w r) :
    ∃ code, (makeConnection net args c).1 = .returned code ∧ Verdict args.uninit w code := by
  obtain ⟨ret, hret, hnonneg⟩ := h.sent
  obtain ⟨b, hb, hwf, rfl⟩ := K.constGetIOBuffer h.answered
  obtain ⟨code, hcode, hverdict⟩ :=
    judgeProxyResponse_verdict args.uninit hb (RawIOBuffer.pointedData_eq hwf)
  refine ⟨code, ?_, hverdict⟩
  rw [makeConnection_answer, attempt]
  generalize net.streamWrite (connectBytes args) c.networkHandler = written at hret hcode
  obtain ⟨answer, s⟩ := written
  subst hret
  simp only [if_neg hnonneg]
  exact hcode

/-- The verdict on the leftovers is right on the answer exactly when they start with a 200 exactly for an
answer that grants the tunnel. -/
theorem judgesAnswer_iff_startsWithOk (h : Answered K args c.networkHandler w r) :
    JudgesAnswer net args c r ↔
      (StartsWithCode args.uninit w HTTPResponseCodes.ok.value ↔ GrantsTunnel r) := by
  obtain ⟨code, hcode, hverdict⟩ := makeConnection_of_answered h
  have hsuccess : code = .connectionSuccess ↔ StartsWithCode args.uninit w HTTPResponseCodes.ok.value := by
    rw [← verdict_success_iff]
    constructor
    · intro heq
      exact heq ▸ hverdict
    · exact hverdict.unique
  unfold JudgesAnswer
  rw [hcode, ← hsuccess]
  constructor
  · intro hjudges
    obtain ⟨code₂, heq, hiff⟩ := hjudges
    cases heq
    exact hiff
  · intro hiff
    exact ⟨code, rfl, hiff⟩

/-- **When the proxy's answer is judged.** Two attempts get the same answer `r` on streams with different
leftovers. The verdict is right and does not depend on the leftovers exactly when those of the first start
with a 200 just in case `r` grants the tunnel, and those of the second are worth the same. -/
theorem judgesAnswer_iff (h : Answered K args c.networkHandler w r)
    (h₂ : Answered K args c₂.networkHandler w₂ r) :
    (JudgesAnswer net args c r ∧ (makeConnection net args c₂).1 = (makeConnection net args c).1) ↔
      ((StartsWithCode args.uninit w HTTPResponseCodes.ok.value ↔ GrantsTunnel r) ∧
        ∀ v, Verdict args.uninit w v ↔ Verdict args.uninit w₂ v) := by
  rw [judgesAnswer_iff_startsWithOk h]
  apply and_congr_right
  intro _
  obtain ⟨code, hcode, hverdict⟩ := makeConnection_of_answered h
  obtain ⟨code₂, hcode₂, hverdict₂⟩ := makeConnection_of_answered h₂
  rw [hcode, hcode₂, Answer.returned.injEq]
  constructor
  · rintro rfl v
    constructor
    · intro hv
      exact hverdict.unique hv ▸ hverdict₂
    · intro hv
      exact hverdict₂.unique hv ▸ hverdict
  · intro hsame
    exact hverdict₂.unique ((hsame code).mp hverdict)

end Handshake

/-! ### Two runs -/

/-- A CONNECT without credentials. -/
def plainConnect : ConnectArgs where
  originServerHostname := str "origin"
  originServerPort := 80
  proxyUsername := none
  proxyPassphrase := none
  order := HTTPHeaders.Iteration.ofInsertion
  uninit := (0, 0, 0)

/-- The shortest answer that grants the tunnel. -/
def okHead : ResponseHead := ⟨str "1", str "200", str "OK", [], []⟩

theorem okHead_shaped : okHead.Shaped := by decide

theorem okHead_grants : GrantsTunnel okHead.bytes := by
  refine ⟨okHead, okHead_shaped, ⟨by decide, by decide, by decide, rfl⟩, rfl, ch '0', ch '0', rfl⟩

/-- A refusal. -/
def forbiddenHead : ResponseHead := ⟨str "1", str "403", str "Forbidden", [], []⟩

/-- An object that has just been constructed, on a stream with `leftover` in its buffer. -/
def newClient (leftover : List UInt8) : HTTPProxyClient (SyncNetworkStreamClient × List UInt8) :=
  .create (.holding leftover, []) 0

/-- The peer has the whole CONNECT and answers it. -/
theorem streamWrite_plainConnect (leftover sent r : List UInt8) :
    (answeredBy r).streamWrite (connectBytes plainConnect) (.holding leftover, sent) =
      (.returned 109, (.holding leftover, sent ++ r)) := by
  have hlen : (connectBytes plainConnect).length = 109 := by decide +kernel
  have hne : connectBytes plainConnect ≠ [] := by
    intro hnil
    rw [hnil] at hlen
    cases hlen
  show streamWrite (answering r) (connectBytes plainConnect) (.holding leftover, sent) = _
  simp only [streamWrite, answering, if_neg hne, hlen]
  rfl

theorem newClient_answered {leftover : List UInt8} (hlen : leftover.length < 2 ^ 63) (r : List UInt8) :
    Answered (answeredByContract r) plainConnect (newClient leftover).networkHandler leftover r where
  before := holding_isStream hlen r []
  sent := ⟨109, congrArg Prod.fst (streamWrite_plainConnect leftover [] r), by decide⟩
  answered := by
    rw [show (newClient leftover).networkHandler = (.holding leftover, []) from rfl,
      streamWrite_plainConnect]
    exact holding_isStream hlen r r

/-- One attempt behind another, and a fresh one, the peer granting the tunnel to both. -/
theorem judgesAnswer_iff_leftover :
    (JudgesAnswer (answeredBy okHead.bytes) plainConnect (newClient okHead.bytes) okHead.bytes ∧
        (makeConnection (answeredBy okHead.bytes) plainConnect (newClient [])).1 =
          (makeConnection (answeredBy okHead.bytes) plainConnect (newClient okHead.bytes)).1) ↔
      ((StartsWithCode (0, 0, 0) okHead.bytes HTTPResponseCodes.ok.value ↔ GrantsTunnel okHead.bytes) ∧
        ∀ v, Verdict (0, 0, 0) okHead.bytes v ↔ Verdict (0, 0, 0) [] v) :=
  judgesAnswer_iff (newClient_answered (by decide) okHead.bytes)
    (newClient_answered (by decide) okHead.bytes)

/-- **The answer stays unread.** A peer that grants the tunnel to a fresh connection gets the verdict
`InvalidResponse`. A peer that refuses gets it too, unless the answer to an earlier attempt is still in the
buffer: then the refused attempt is a success. -/
theorem answer_stays_unread :
    Answered (answeredByContract okHead.bytes) plainConnect (newClient []).networkHandler []
        okHead.bytes ∧
      GrantsTunnel okHead.bytes ∧
      ¬ JudgesAnswer (answeredBy okHead.bytes) plainConnect (newClient []) okHead.bytes ∧
      (makeConnection (answeredBy okHead.bytes) plainConnect (newClient [])).1 = .returned .invalidResponse ∧
      (makeConnection (answeredBy forbiddenHead.bytes) plainConnect (newClient [])).1
        = .returned .invalidResponse ∧
      (makeConnection (answeredBy forbiddenHead.bytes) plainConnect (newClient okHead.bytes)).1
        = .returned .connectionSuccess := by
  have hfresh : (makeConnection (answeredBy okHead.bytes) plainConnect (newClient [])).1
      = .returned .invalidResponse := by decide +kernel
  refine ⟨newClient_answered (by decide) _, okHead_grants, ?_, hfresh, by decide +kernel,
    by decide +kernel⟩
  intro h
  obtain ⟨code, hcode, hiff⟩ := h
  rw [hfresh] at hcode
  cases hcode
  exact absurd (hiff.mpr okHead_grants) (by decide)

end Blueth.Http
