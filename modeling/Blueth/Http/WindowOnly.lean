/-
# Blueth.Http.WindowOnly — do the parsers depend on anything but their window?

A call that resumes in `HeaderValue` looks at `*(start_buffer - 1)` with its very FIRST byte, which lies
before the window: a consumed byte if the caller advances the start offset, whatever was left there if
the buffer is reused, and no byte of the allocation at all when the window starts at offset 0, as it does
after `IOBuffer::clear`. `parsers_windowOnly_iff` says that this is the only leak, and exactly when it
opens: at a space for requests, at any text byte for responses.
-/
import Blueth.Http.RequestParser
import Blueth.Http.ResponseParser

set_option autoImplicit false

namespace Blueth.Http

open Blueth.Scan Blueth.Io

/-- One request call gives the same on every buffer with this window, and reads no byte outside. -/
def RequestWindowOnly (st : ParserState) (m : HTTPRequestMessage) (w : List UInt8) : Prop :=
  (∀ b₁ b₂ : IOBuffer, b₁.WellFormed → b₂.WellFormed → b₁.data = w → b₂.data = w → ∀ fuel,
    parseHTTP1_1RequestMessage fuel b₁ st m = parseHTTP1_1RequestMessage fuel b₂ st m) ∧
  ∀ b : IOBuffer, b.WellFormed → b.data = w → ∀ fuel, parseHTTP1_1RequestMessage fuel b st m ≠ .fault

/-- One response call gives the same on every buffer with this window, and reads no byte outside. -/
def ResponseWindowOnly (st : ResponseParserState) (m : HTTPResponseMessage) (w : List UInt8) : Prop :=
  (∀ b₁ b₂ : IOBuffer, b₁.WellFormed → b₂.WellFormed → b₁.data = w → b₂.data = w → ∀ fuel,
    parseHTTP1_1ResponseMessage fuel b₁ st m = parseHTTP1_1ResponseMessage fuel b₂ st m) ∧
  ∀ b : IOBuffer, b.WellFormed → b.data = w → ∀ fuel, parseHTTP1_1ResponseMessage fuel b st m ≠ .fault

/-- The request pass does not look behind, unless it is `HeaderValue` at a space. -/
theorem requestPass_behind (s : RequestState) (p p' : Option UInt8) (c : UInt8)
    (h : ¬ (s.1 = .headerValue ∧ c = SP)) : requestPass s p c = requestPass s p' c := by
  obtain ⟨st, m⟩ := s
  cases st with
  | headerValue =>
      have hc : c ≠ SP := fun hc => h ⟨rfl, hc⟩
      simp only [requestPass, if_neg hc]
  | _ => rfl

/-- The response pass does not look behind, unless it is `HeaderValue` at a text byte. -/
theorem responsePass_behind (s : ResponseState) (p p' : Option UInt8) (c : UInt8)
    (h : ¬ (s.1 = .headerValue ∧ isText c)) : responsePass s p c = responsePass s p' c := by
  obtain ⟨st, m⟩ := s
  cases st with
  | headerValue =>
      have hc : ¬ isText c := fun hc => h ⟨rfl, hc⟩
      simp only [responsePass, if_neg hc]
  | _ => rfl

theorem requestWindowOnly_iff (st : ParserState) (m : HTTPRequestMessage) (w : List UInt8) :
    RequestWindowOnly st m w ↔ ∀ c ∈ w.head?, ¬ (st = .headerValue ∧ c = SP) := by
  show WindowOnly requestPass (st, m) w ↔ _
  refine windowOnly_iff (I := fun (s : RequestState) c => ¬ (s.1 = .headerValue ∧ c = SP)) ?_
    requestPass_behind ?_ ?_
  · rintro ⟨st, m⟩ p c h
    exact (requestPass_fault h).2.2
  · rintro ⟨st, m⟩ p c s' - h
    -- a pass that keeps the pointer goes to `ProtocolError` or stays in `HeaderEndLF`
    rcases requestPass_stay h with ⟨rfl, -⟩ | ⟨-, -, rfl⟩ | ⟨-, -, -, rfl⟩ <;> simp
  · rintro ⟨st, m⟩ c h
    obtain ⟨rfl, rfl⟩ := not_not.mp h
    simp [requestPass, show ¬ SP = CR by decide]

theorem responseWindowOnly_iff (st : ResponseParserState) (m : HTTPResponseMessage) (w : List UInt8) :
    ResponseWindowOnly st m w ↔ ∀ c ∈ w.head?, ¬ (st = .headerValue ∧ isText c) := by
  show WindowOnly responsePass (st, m) w ↔ _
  refine windowOnly_iff (I := fun (s : ResponseState) c => ¬ (s.1 = .headerValue ∧ isText c)) ?_
    responsePass_behind ?_ ?_
  · rintro ⟨st, m⟩ p c h
    exact (responsePass_fault h).2.2
  · rintro ⟨st, m⟩ p c s' - h
    obtain ⟨rfl, -⟩ := responsePass_stay h
    simp
  · rintro ⟨st, m⟩ c h
    obtain ⟨rfl, hc⟩ := not_not.mp h
    simp [responsePass, hc, isText_ne_cr hc]

/-- **When a call depends on its window only.** For every state, message and window: unless the call
starts in `HeaderValue`, at a space (requests) or at a text byte (responses). -/
theorem parsers_windowOnly_iff (st : ParserState) (m : HTTPRequestMessage)
    (st' : ResponseParserState) (m' : HTTPResponseMessage) (w : List UInt8) :
    (RequestWindowOnly st m w ↔ ¬ (st = .headerValue ∧ w.head? = some SP)) ∧
    (ResponseWindowOnly st' m' w ↔ ¬ (st' = .headerValue ∧ ∃ c, w.head? = some c ∧ isText c)) := by
  refine ⟨?_, ?_⟩
  · rw [requestWindowOnly_iff]
    constructor
    · rintro h ⟨hst, hw⟩
      exact h SP hw ⟨hst, rfl⟩
    · rintro h c hc ⟨hst, rfl⟩
      exact h ⟨hst, hc⟩
  · rw [responseWindowOnly_iff]
    constructor
    · rintro h ⟨hst, c, hw, hc⟩
      exact h c hw ⟨hst, hc⟩
    · rintro h c hw ⟨hst, hc⟩
      exact h ⟨hst, c, hw, hc⟩

/-- **The byte before the window shows.** A request call that resumes in `HeaderValue` on the window
`" "` accepts the space behind a colon and refuses it behind an `a`; a response call on the window `"x"`
drops the byte behind a colon and records it behind an `a`. -/
theorem resumed_value_leaks :
    ¬ RequestWindowOnly .headerValue .create (str " ") ∧
      ¬ ResponseWindowOnly .headerValue (.create (0, 0, 0)) (str "x") := by
  have hwf := IOBuffer.holding_wellFormed
  have hdata := IOBuffer.data_holding
  refine ⟨?_, ?_⟩
  · rintro ⟨hsame, -⟩
    have h := hsame (.holding (str ":") _) (.holding (str "a") _) (hwf _ _) (hwf _ _) (hdata _ _)
      (hdata _ _) 3
    revert h
    decide
  · rintro ⟨hsame, -⟩
    have h := hsame (.holding (str ":") _) (.holding (str "a") _) (hwf _ _) (hwf _ _) (hdata _ _)
      (hdata _ _) 3
    revert h
    decide

end Blueth.Http
