/-
# Blueth.Http.ConnectRequest — the CONNECT that `makeConnection` writes, as it is read.

`ReadsConnect` is the proxy's side, written down without looking at the client: a head of the strict
grammar whose method is CONNECT, whose target is a host and a port in decimal, with a `Host` line that says the
same, and whose credentials are those of a `Proxy-Authorization: Basic` line, decoded and divided at the FIRST
colon.

* `connect_read_iff`: the proxy reads what the client was given, whatever the order of the header map,
  exactly when the user name holds no colon. The client joins name and passphrase by a colon and does not
  look whether there is one in the name.
* `connect_ownParser`: this library's own request parser is no such proxy. It never returns from a CONNECT
  without credentials (the method is none of the four it knows), and with credentials it refuses the space
  behind `Basic`.
-/
import Blueth.Scan.Resume
import Blueth.Http.HTTPProxy
import Blueth.Http.HeadSoundness
import Blueth.Http.RequestRoundTrip
import Blueth.Http.ResponseTemplates
import Blueth.Utils.Base64Decode

set_option autoImplicit false

namespace Blueth.Http

open Blueth.Io Blueth.Scan
open Blueth.Base64 (base64Encode b64decode b64decode_encodeBlocks base64Encode_eq)

/-! ## The proxy's side -/

/-- The credentials of a `Basic` authorization: the text behind the word, decoded, and divided at the first
colon. -/
def basicCredentials (text : List UInt8) : Option (List UInt8 × List UInt8) :=
  if str " Basic " <+: text then
    match b64decode (text.drop 7) with
    | some decoded =>
      if ch ':' ∈ decoded then
        some (decoded.takeWhile (· ≠ ch ':'), (decoded.dropWhile (· ≠ ch ':')).drop 1)
      else none
    | none => none
  else none

/-- **A proxy reads `w` as a CONNECT** to this host and port, with these credentials. -/
def ReadsConnect (w hostname : List UInt8) (port : ℕ) (credentials : Option (List UInt8 × List UInt8)) :
    Prop :=
  ∃ g : RequestHead, g.Shaped ∧ g.Strict ∧ w = g.bytes ∧ g.method = str "CONNECT" ∧
    (∃ digits, Decimal digits port ∧ g.target = hostname ++ str ":" ++ digits) ∧
    firstText g.lines (str "Host") = some (SP :: g.target) ∧
    (firstText g.lines (str "Proxy-Authorization")).bind basicCredentials = credentials

/-! ## The client's side -/

/-- The credentials `makeConnection` was given; a user name alone counts for nothing. -/
def ConnectArgs.credentials (args : ConnectArgs) : Option (List UInt8 × List UInt8) :=
  match args.proxyUsername, args.proxyPassphrase with
  | some username, some passphrase => some (username, passphrase)
  | _, _ => none

def ConnectArgs.hostnameAndPort (args : ConnectArgs) : List UInt8 :=
  args.originServerHostname ++ str ":" ++ str (toString args.originServerPort.toNat)

/-- The headers of the CONNECT. -/
def connectHeaders (args : ConnectArgs) : List (List UInt8 × List UInt8) :=
  [(str "Host", args.hostnameAndPort), (str "User-Agent", str "blueth/http-client"),
    (str "Proxy-Connection", str "Keep-Alive")] ++
  (args.credentials.map fun (username, passphrase) =>
    (str "Proxy-Authorization", str "Basic " ++ base64Encode (username ++ str ":" ++ passphrase))).toList

/-- No name is used twice, so each `addHeader` adds. -/
theorem connectRequestMessage_headers (args : ConnectArgs) :
    (connectRequestMessage args).httpHeaders.httpHeaders = connectHeaders args := by
  unfold connectRequestMessage connectHeaders ConnectArgs.credentials
  cases args.proxyUsername with
  | none => rfl
  | some username =>
      cases args.proxyPassphrase with
      | none => rfl
      | some passphrase => rfl

theorem connectRequestMessage_fields (args : ConnectArgs) :
    (connectRequestMessage args).requestType = .connect ∧
      (connectRequestMessage args).targetResource = args.hostnameAndPort ∧
      (connectRequestMessage args).rawBody = [] := by
  unfold connectRequestMessage
  cases args.proxyUsername with
  | none => exact ⟨rfl, rfl, rfl⟩
  | some username =>
      cases args.proxyPassphrase with
      | none => exact ⟨rfl, rfl, rfl⟩
      | some passphrase => exact ⟨rfl, rfl, rfl⟩

/-! ## What stands in it -/

theorem isTargetByte_of_isDigit {c : UInt8} (h : isDigit c) : isTargetByte c := by
  refine ⟨isPrint_of_isDigit h, ?_⟩
  rintro rfl
  exact absurd h (by decide)

set_option maxRecDepth 4000 in
/-- What `base64_encode` writes can stand in a header. -/
theorem isText_base64Encode {c : UInt8} {src : List UInt8} (h : c ∈ base64Encode src) : isText c := by
  have htable : (Base64.base64Table.all isText) = true := by decide
  unfold base64Encode at h
  dsimp only at h
  split_ifs at h
  · cases h
  · rcases (Base64.canonical_encodeBlocks src).mem h with hc | rfl
    · exact List.all_eq_true.mp htable c hc
    · decide

section Head

variable {args : ConnectArgs}

theorem hostnameAndPort_target (hhost : ∀ c ∈ args.originServerHostname, isTargetByte c) :
    ∀ c ∈ args.hostnameAndPort, isTargetByte c := by
  intro c hc
  rcases List.mem_append.mp hc with hc | hc
  · rcases List.mem_append.mp hc with hc | hc
    · exact hhost c hc
    · rw [List.mem_singleton.mp hc]
      decide
  · exact isTargetByte_of_isDigit ((decimal_toString _).digit c hc)

theorem connectHeaders_names {p : List UInt8 × List UInt8} (hp : p ∈ connectHeaders args) :
    p.1 ≠ [] ∧ ∀ c ∈ p.1, isToken c := by
  have hnames : ∀ name ∈ [str "Host", str "User-Agent", str "Proxy-Connection", str "Proxy-Authorization"],
      name ≠ [] ∧ ∀ c ∈ name, isToken c := by
    intro name hname
    simp only [List.mem_cons, List.not_mem_nil, or_false] at hname
    rcases hname with rfl | rfl | rfl | rfl <;>
      exact ⟨by decide, List.all_eq_true.mp (by decide)⟩
  refine hnames p.1 ?_
  unfold connectHeaders at hp
  simp only [List.mem_append, List.mem_cons, List.not_mem_nil, or_false, Option.mem_toList,
    Option.map_eq_some_iff] at hp
  rcases hp with (rfl | rfl | rfl) | ⟨creds, -, rfl⟩ <;> simp

theorem connectHeaders_values (hhost : ∀ c ∈ args.originServerHostname, isTargetByte c)
    {p : List UInt8 × List UInt8} (hp : p ∈ connectHeaders args) : ∀ c ∈ p.2, isText c := by
  unfold connectHeaders at hp
  simp only [List.mem_append, List.mem_cons, List.not_mem_nil, or_false, Option.mem_toList,
    Option.map_eq_some_iff] at hp
  rcases hp with (rfl | rfl | rfl) | ⟨creds, -, rfl⟩
  · exact fun c hc => isText_of_isPrint (hostnameAndPort_target hhost c hc).1
  · exact List.all_eq_true.mp (by decide)
  · exact List.all_eq_true.mp (by decide)
  · intro c hc
    rcases List.mem_append.mp hc with hc | hc
    · exact List.all_eq_true.mp (by decide : (str "Basic ").all isText = true) c hc
    · exact isText_base64Encode hc

/-- The head of the CONNECT. -/
def connectHead (args : ConnectArgs) : RequestHead :=
  headOf (connectRequestMessage args) (args.order (connectRequestMessage args).httpHeaders)

theorem connectBytes_eq (args : ConnectArgs) : connectBytes args = (connectHead args).bytes := by
  rw [connectBytes, buildRawMessage_eq, (connectRequestMessage_fields args).2.2, List.append_nil]
  rfl

theorem connectHead_shaped (hhost : ∀ c ∈ args.originServerHostname, isTargetByte c) :
    (connectHead args).Shaped := by
  obtain ⟨-, htarget, -⟩ := connectRequestMessage_fields args
  refine headOf_shaped _ ?_ ?_ ?_
  · rw [htarget]
    exact hostnameAndPort_target hhost
  · rw [connectRequestMessage_headers]
    exact fun p hp => (connectHeaders_names hp).2
  · rw [connectRequestMessage_headers]
    exact fun p hp => connectHeaders_values hhost hp

theorem connectHead_strict (args : ConnectArgs) : (connectHead args).Strict where
  target_ne := by
    show (connectRequestMessage args).targetResource ≠ []
    rw [(connectRequestMessage_fields args).2.1]
    exact List.append_ne_nil_of_left_ne_nil (List.append_ne_nil_of_right_ne_nil _ (by decide)) _
  minor_ne := by
    show str "1" ≠ []
    decide
  names_ne := by
    intro l hl
    obtain ⟨p, hp, rfl⟩ := List.mem_map.mp hl
    rw [(args.order _).perm.mem_iff, connectRequestMessage_headers] at hp
    exact (connectHeaders_names hp).1
  blank := rfl

theorem connectHead_method (args : ConnectArgs) : (connectHead args).method = str "CONNECT" := by
  show methodToken (connectRequestMessage args).requestType = _
  rw [(connectRequestMessage_fields args).1]
  decide

theorem connectHead_target (args : ConnectArgs) : (connectHead args).target = args.hostnameAndPort :=
  (connectRequestMessage_fields args).2.1

/-- A line of the head is a header, behind a space. -/
theorem firstText_connectHead (args : ConnectArgs) (name : List UInt8) :
    firstText (connectHead args).lines name = ((connectHeaders args).lookup name).map (SP :: ·) := by
  have hlines : (connectHead args).lines =
      (args.order (connectRequestMessage args).httpHeaders).order.map HeaderLine.ofHeader := rfl
  rw [hlines, firstText_ofHeader, HTTPHeaders.getHeaderValue, connectRequestMessage_headers]

theorem connectHead_host (args : ConnectArgs) :
    firstText (connectHead args).lines (str "Host") = some (SP :: (connectHead args).target) := by
  rw [firstText_connectHead, connectHead_target]
  rfl

theorem connectHead_authorization (args : ConnectArgs) :
    firstText (connectHead args).lines (str "Proxy-Authorization") = args.credentials.map
      fun (username, passphrase) => str " Basic " ++ base64Encode (username ++ str ":" ++ passphrase) := by
  rw [firstText_connectHead, connectHeaders]
  cases args.credentials with
  | none => rfl
  | some creds => rfl

end Head

/-! ## The credentials -/

section Credentials

variable {username passphrase : List UInt8}

theorem takeWhile_colon (h : ch ':' ∉ username) (passphrase : List UInt8) :
    (username ++ ch ':' :: passphrase).takeWhile (· ≠ ch ':') = username ∧
      (username ++ ch ':' :: passphrase).dropWhile (· ≠ ch ':') = ch ':' :: passphrase := by
  have hall : ∀ c ∈ username, decide (c ≠ ch ':') = true := by
    intro c hc
    simp only [decide_eq_true_eq]
    rintro rfl
    exact h hc
  constructor
  · rw [List.takeWhile_append_of_pos hall, List.takeWhile_cons_of_neg (by simp), List.append_nil]
  · rw [List.dropWhile_append_of_pos hall, List.dropWhile_cons_of_neg (by simp)]

/-- **The credentials come back** if and only if the user name holds no colon. -/
theorem basicCredentials_iff (hlen : username.length + passphrase.length + 1 < 2 ^ 63) :
    basicCredentials (str " Basic " ++ base64Encode (username ++ str ":" ++ passphrase)) =
      some (username, passphrase) ↔ ch ':' ∉ username := by
  have hcolon : str ":" = [ch ':'] := rfl
  have hjoin : username ++ str ":" ++ passphrase = username ++ ch ':' :: passphrase := by
    rw [hcolon, List.append_assoc, List.singleton_append]
  have hsize : (username ++ ch ':' :: passphrase).length < 2 ^ 63 := by
    rw [List.length_append, List.length_cons]
    omega
  have hdecode : b64decode (base64Encode (username ++ ch ':' :: passphrase)) =
      some (username ++ ch ':' :: passphrase) :=
    b64decode_encodeBlocks (k := 0) (by rw [base64Encode_eq hsize]; simp)
  have hdrop : (str " Basic " ++ base64Encode (username ++ ch ':' :: passphrase)).drop 7 =
      base64Encode (username ++ ch ':' :: passphrase) := rfl
  unfold basicCredentials
  rw [hjoin, if_pos (List.prefix_append _ _), hdrop, hdecode]
  simp only [List.mem_append, List.mem_cons, true_or, or_true, if_true, Option.some.injEq, Prod.mk.injEq]
  constructor
  · rintro ⟨htake, -⟩ hmem
    rw [← htake] at hmem
    simpa using List.mem_takeWhile_imp hmem
  · intro h
    obtain ⟨htake, hdrop⟩ := takeWhile_colon h passphrase
    rw [htake, hdrop]
    exact ⟨rfl, rfl⟩

/-- **What a proxy reads.** The host and the port always, in the target and in the `Host` line; and the
credentials of the client, none if it was not given both, exactly when there is no colon in the user name. -/
theorem connect_read_iff {args : ConnectArgs} (hhost : ∀ c ∈ args.originServerHostname, isTargetByte c)
    (hlen : ∀ creds ∈ args.credentials, creds.1.length + creds.2.length + 1 < 2 ^ 63) :
    ReadsConnect (connectBytes args) args.originServerHostname args.originServerPort.toNat args.credentials ↔
      ∀ creds ∈ args.credentials, ch ':' ∉ creds.1 := by
  have hauth := connectHead_authorization args
  have hread : (firstText (connectHead args).lines (str "Proxy-Authorization")).bind basicCredentials =
      args.credentials ↔ ∀ creds ∈ args.credentials, ch ':' ∉ creds.1 := by
    rw [hauth]
    cases hc : args.credentials with
    | none => simp
    | some creds =>
        rw [hc] at hlen
        show basicCredentials _ = some (creds.1, creds.2) ↔ _
        rw [basicCredentials_iff (hlen creds rfl)]
        simp
  rw [← hread]
  constructor
  · rintro ⟨g, hg, -, hbytes, -, -, -, hcreds⟩
    -- the text is the text of one head only
    rw [connectBytes_eq] at hbytes
    obtain ⟨rfl, -⟩ := RequestHead.bytes_inj (connectHead_shaped hhost) hg
      (congrArg (· ++ ([] : List UInt8)) hbytes)
    exact hcreds
  · intro hcreds
    refine ⟨connectHead args, connectHead_shaped hhost, connectHead_strict args, connectBytes_eq args,
      connectHead_method args, ⟨_, decimal_toString _, connectHead_target args⟩, connectHead_host args, hcreds⟩

theorem connect_read_iff_colon :
    ¬ ReadsConnect (connectBytes ⟨str "example.org", 443, some (str "a:b"), some (str "c"),
        fun h => .ofInsertion h, (0, 0, 0)⟩) (str "example.org") 443 (some (str "a:b", str "c")) := by
  have hhost : ∀ c ∈ str "example.org", isTargetByte c := by
    have hall : ((str "example.org").all fun c => decide (isTargetByte c)) = true := by decide
    exact fun c hc => of_decide_eq_true (List.all_eq_true.mp hall c hc)
  intro h
  refine (@connect_read_iff ⟨_, 443, some (str "a:b"), some (str "c"), _, _⟩ hhost ?_).mp h _ rfl ?_
  · rintro creds hcreds
    cases hcreds
    decide
  · decide

end Credentials

/-! ## The library's own parser -/

section OwnParser

variable {args : ConnectArgs}

/-- The start line, up to its LF. -/
theorem feed_startLine {h : RequestHead} (hs : h.Shaped) (p : Option UInt8) (v : List UInt8) :
    feed requestPass (.requestLineBegin, .create) p (h.method ++ SP :: (h.target ++ SP ::
      (str "HTTP/" ++ h.major :: ch '.' :: (h.minor ++ CR :: LF :: v)))) =
    feed requestPass (.headerName,
      { HTTPRequestMessage.create with targetResource := h.target, tempHttpMethodHolder := h.method })
      (some LF) v := by
  obtain ⟨c, x, hm⟩ := List.exists_cons_of_ne_nil hs.method_ne
  have htok := hs.method_token
  rw [hm] at htok
  have hfirst : requestPass (.requestLineBegin, .create) p c
      = .advance (.requestMethod, HTTPRequestMessage.create.pushBackRequestMethod c) := by
    simp [requestPass, htok c (by simp)]
  rw [hm, List.cons_append, feed_cons_of_advance hfirst, feed_method (fun d hd => htok d (by simp [hd])),
    feed_target hs.target_print, feed_protocol hs.major_digit, feed_minor hs.minor_digit rfl]
  simp [HTTPRequestMessage.pushBackRequestMethod, HTTPRequestMessage.create]

/-- Header lines the parser has nothing against; it is ready for the next. -/
theorem feed_lines {lines : List HeaderLine} (hl : ∀ l ∈ lines, l.Shaped)
    (hs : ∀ l ∈ lines, spacesFollowColon (some (ch ':')) l.text) {m : HTTPRequestMessage}
    (hn : m.tempHeaderNameHolder = []) (hv : m.tempHeaderValueHolder = []) (p : Option UInt8) :
    ∃ m', feed requestPass (.headerName, m) p (lines.flatMap HeaderLine.bytes) = some (.headerName, m') ∧
      m'.tempHeaderNameHolder = [] ∧ m'.tempHeaderValueHolder = [] := by
  induction lines generalizing m p with
  | nil => exact ⟨m, rfl, hn, hv⟩
  | cons l lines ih =>
      have hsh := hl l (by simp)
      have hcolon : ∀ q m', requestPass (.headerName, m') q (ch ':') = .advance (.headerValue, m') := by
        intro q m'
        simp [requestPass, colon_not_token]
      have hlf : ∀ q m', requestPass (.headerValueLF, m') q LF
          = .advance (.headerName, m'.addTempHeadersHolderToMessage) := by
        intro q m'
        simp [requestPass]
      have hbytes : (l :: lines).flatMap HeaderLine.bytes =
          l.name ++ ch ':' :: (l.text ++ CR :: LF :: lines.flatMap HeaderLine.bytes) := by
        simp [HeaderLine.bytes]
      rw [hbytes, feed_append_of_eq (feed_name hsh.name_token m p), feed_cons_of_advance (hcolon _ _),
        feed_text hsh.text_text (hs l (by simp)), feed_cons_of_advance (hlf _ _)]
      exact ih (fun k hk => hl k (by simp [hk])) (fun k hk => hs k (by simp [hk])) rfl rfl _

/-- A value without spaces behind the one that is written first. -/
theorem spacesFollowColon_ofHeader {p : List UInt8 × List UInt8} (hp : SP ∉ p.2) :
    spacesFollowColon (some (ch ':')) (HeaderLine.ofHeader p).text :=
  ⟨fun _ => rfl, spacesFollowColon_of_no_space (fun _ hc h => hp (h ▸ hc)) _⟩

/-- Only the line of the credentials has a space inside its value. -/
theorem connectHeaders_no_space (hhost : ∀ c ∈ args.originServerHostname, isTargetByte c)
    {p : List UInt8 × List UInt8} (hp : p ∈ connectHeaders args)
    (hname : p.1 ≠ str "Proxy-Authorization") : SP ∉ p.2 := by
  unfold connectHeaders at hp
  simp only [List.mem_append, List.mem_cons, List.not_mem_nil, or_false, Option.mem_toList,
    Option.map_eq_some_iff] at hp
  rcases hp with (rfl | rfl | rfl) | ⟨creds, -, rfl⟩
  · exact fun h => (hostnameAndPort_target hhost SP h).2 rfl
  · show SP ∉ str "blueth/http-client"
    decide
  · show SP ∉ str "Keep-Alive"
    decide
  · exact absurd rfl hname

/-- **Without credentials** the parser comes to the end of the head, does not know the method, and stays. -/
theorem connect_running (hhost : ∀ c ∈ args.originServerHostname, isTargetByte c)
    (hcreds : args.credentials = none) (p : Option UInt8) :
    outcome requestPass (connectBytes args) (.requestLineBegin, .create) p = .running := by
  have hspaces : (connectHead args).SpacesOk := by
    intro l hl
    obtain ⟨q, hq, rfl⟩ := List.mem_map.mp hl
    rw [(args.order _).perm.mem_iff, connectRequestMessage_headers] at hq
    refine spacesFollowColon_ofHeader (connectHeaders_no_space hhost hq ?_)
    rintro hname
    unfold connectHeaders at hq
    rw [hcreds] at hq
    simp only [Option.map_none, Option.toList_none, List.append_nil, List.mem_cons, List.not_mem_nil,
      or_false] at hq
    rcases hq with rfl | rfl | rfl
    · exact absurd (show str "Host" = str "Proxy-Authorization" from hname) (by decide)
    · exact absurd (show str "User-Agent" = str "Proxy-Authorization" from hname) (by decide)
    · exact absurd (show str "Proxy-Connection" = str "Proxy-Authorization" from hname) (by decide)
  rw [connectBytes_eq, RequestHead.bytes,
    outcome_append_of_feed (feed_head (connectHead_shaped hhost) hspaces p)]
  refine outcome_headerEndLF_running (.inr ?_) []
  show recognise (connectHead args).method = none
  rw [connectHead_method]
  decide

/-- In the value of the credentials the parser comes as far as the end of the word `Basic`. -/
theorem feed_basic (m : HTTPRequestMessage) :
    ∃ m', feed requestPass (.headerValue, m) (some (ch ':')) (str " Basi" ++ [ch 'c']) =
      some (.headerValue, m') := by
  have hword : str " Basi" ++ [ch 'c'] = [SP, ch 'B', ch 'a', ch 's', ch 'i', ch 'c'] := by decide
  have hspace : ∀ m, requestPass (.headerValue, m) (some (ch ':')) SP = .advance (.headerValue, m) := by
    intro m
    simp [requestPass, show ¬ SP = CR by decide]
  have hletter : ∀ m q, ∀ c ∈ [ch 'B', ch 'a', ch 's', ch 'i', ch 'c'],
      requestPass (.headerValue, m) q c = .advance (.headerValue, m.pushBackHeaderValue c) := by
    intro m q c hc
    simp only [List.mem_cons, List.not_mem_nil, or_false] at hc
    rcases hc with rfl | rfl | rfl | rfl | rfl <;> rfl
  rw [hword, feed_cons_of_advance (hspace m), feed_cons_of_advance (hletter _ _ _ (by simp)),
    feed_cons_of_advance (hletter _ _ _ (by simp)), feed_cons_of_advance (hletter _ _ _ (by simp)),
    feed_cons_of_advance (hletter _ _ _ (by simp)), feed_cons_of_advance (hletter _ _ _ (by simp))]
  exact ⟨_, rfl⟩

/-- The line of the credentials, and what is written before it. -/
theorem exists_credentials_line {creds : List UInt8 × List UInt8} (hcreds : args.credentials = some creds) :
    ∃ before after value, (args.order (connectRequestMessage args).httpHeaders).order =
        before ++ (str "Proxy-Authorization", str "Basic " ++ value) :: after ∧
      (∀ q ∈ before, q ∈ connectHeaders args ∧ q.1 ≠ str "Proxy-Authorization") := by
  have hmem : (str "Proxy-Authorization", str "Basic " ++ base64Encode (creds.1 ++ str ":" ++ creds.2)) ∈
      (args.order (connectRequestMessage args).httpHeaders).order := by
    rw [(args.order _).perm.mem_iff, connectRequestMessage_headers, connectHeaders, hcreds]
    simp
  obtain ⟨before, after, horder⟩ := List.append_of_mem hmem
  refine ⟨before, after, _, horder, fun q hq => ⟨?_, ?_⟩⟩
  · rw [← connectRequestMessage_headers, ← (args.order _).perm.mem_iff, horder]
    exact List.mem_append_left _ hq
  · -- a name stands in the map once
    have hnodup : ((args.order (connectRequestMessage args).httpHeaders).order.map Prod.fst).Nodup :=
      ((args.order _).perm.map Prod.fst).nodup_iff.mpr (connectRequestMessage args).httpHeaders.nodup_names
    rw [horder, List.map_append, List.map_cons] at hnodup
    intro hname
    exact (List.nodup_append.mp hnodup).2.2 q.1 (List.mem_map_of_mem hq) _ List.mem_cons_self hname

/-- The CONNECT up to the word `Basic`, these headers standing in front of the credentials. -/
def upToBasic (args : ConnectArgs) (before : List (List UInt8 × List UInt8)) : List UInt8 :=
  (connectHead args).method ++ SP :: ((connectHead args).target ++ SP ::
    (str "HTTP/" ++ (connectHead args).major :: ch '.' :: ((connectHead args).minor ++ CR :: LF ::
      ((before.map HeaderLine.ofHeader).flatMap HeaderLine.bytes ++ (str "Proxy-Authorization" ++ ch ':' ::
        (str " Basi" ++ [ch 'c']))))))

/-- Behind that word there is a space. -/
theorem connectBytes_upToBasic {before after : List (List UInt8 × List UInt8)} {value : List UInt8}
    (horder : (args.order (connectRequestMessage args).httpHeaders).order =
      before ++ (str "Proxy-Authorization", str "Basic " ++ value) :: after) :
    connectBytes args =
      upToBasic args before ++ SP ::
        (value ++ CR :: LF :: blockBytes (after.map HeaderLine.ofHeader) [] ++ [LF]) := by
  have hlines : (connectHead args).lines = (before.map HeaderLine.ofHeader) ++
      HeaderLine.ofHeader (str "Proxy-Authorization", str "Basic " ++ value) ::
        after.map HeaderLine.ofHeader := by
    show (args.order _).order.map HeaderLine.ofHeader = _
    rw [horder, List.map_append, List.map_cons]
  have hbasic : SP :: (str "Basic " ++ value) = str " Basi" ++ [ch 'c'] ++ SP :: value := by
    have hword : SP :: str "Basic " = str " Basi" ++ [ch 'c', SP] := by decide
    rw [← List.cons_append, hword]
    simp
  rw [connectBytes_eq, upToBasic, RequestHead.bytes, RequestHead.toLastCR, blockBytes, hlines,
    show (connectHead args).trailing = [] from rfl, List.flatMap_append, List.flatMap_cons]
  simp only [HeaderLine.bytes, HeaderLine.ofHeader, blockBytes, hbasic, List.append_assoc, List.cons_append,
    List.nil_append]

/-- Up to there the parser reads on, into the value of the header. -/
theorem feed_upToBasic (hhost : ∀ c ∈ args.originServerHostname, isTargetByte c)
    {before : List (List UInt8 × List UInt8)}
    (hshaped : ∀ l ∈ before.map HeaderLine.ofHeader, l.Shaped)
    (hspaces : ∀ l ∈ before.map HeaderLine.ofHeader, spacesFollowColon (some (ch ':')) l.text)
    (p : Option UInt8) :
    ∃ m, feed requestPass (.requestLineBegin, .create) p (upToBasic args before) = some (.headerValue, m) := by
  rw [upToBasic, feed_startLine (connectHead_shaped hhost)]
  obtain ⟨m', hm', -, -⟩ := feed_lines hshaped hspaces
    (m := { HTTPRequestMessage.create with
      targetResource := (connectHead args).target, tempHttpMethodHolder := (connectHead args).method })
    rfl rfl (some LF)
  have hcolon : ∀ q m, requestPass (.headerName, m) q (ch ':') = .advance (.headerValue, m) := by
    intro q m
    simp [requestPass, colon_not_token]
  have hname : ∀ c ∈ str "Proxy-Authorization", isToken c := List.all_eq_true.mp (by decide)
  rw [feed_append_of_eq hm', feed_append_of_eq (feed_name hname _ _), feed_cons_of_advance (hcolon _ _)]
  exact feed_basic _

/-- **With credentials** it refuses the space behind `Basic`. -/
theorem connect_refused (hhost : ∀ c ∈ args.originServerHostname, isTargetByte c)
    {creds : List UInt8 × List UInt8} (hcreds : args.credentials = some creds) (p : Option UInt8) :
    ∃ m left, outcome requestPass (connectBytes args) (.requestLineBegin, .create) p =
      .returned (.protocolError, m) left := by
  obtain ⟨before, after, value, horder, hbefore⟩ := exists_credentials_line hcreds
  have hshaped : ∀ l ∈ before.map HeaderLine.ofHeader, l.Shaped :=
    ofHeader_shaped (fun q hq => (connectHeaders_names (hbefore q hq).1).2)
      fun q hq => connectHeaders_values hhost (hbefore q hq).1
  have hspaces : ∀ l ∈ before.map HeaderLine.ofHeader, spacesFollowColon (some (ch ':')) l.text := by
    intro l hl
    obtain ⟨q, hq, rfl⟩ := List.mem_map.mp hl
    exact spacesFollowColon_ofHeader (connectHeaders_no_space hhost (hbefore q hq).1 (hbefore q hq).2)
  obtain ⟨m, hm⟩ := feed_upToBasic hhost hshaped hspaces p
  have hbehind : behind p (upToBasic args before) = some (ch 'c') := by
    simp only [upToBasic, behind_append, behind_cons, behind_nil]
  have hstay : requestPass (.headerValue, m) (some (ch 'c')) SP = .stay (.protocolError, m) := by
    simp [requestPass, show ¬ SP = CR by decide, show ¬ ch 'c' = ch ':' by decide]
  refine ⟨m, SP :: (value ++ CR :: LF :: blockBytes (after.map HeaderLine.ofHeader) [] ++ [LF]), ?_⟩
  rw [connectBytes_upToBasic horder, outcome_append_of_feed hm, hbehind]
  exact outcome_stay_finish hstay rfl _

/-- **What the library's own parser makes of a CONNECT**, in however many pieces it arrives: it returns
exactly if there are credentials, and then with an error. -/
theorem connect_ownParser (hhost : ∀ c ∈ args.originServerHostname, isTargetByte c) {b : IOBuffer}
    (hb : b.WellFormed) (hdata : b.data = connectBytes args) {windows : List ℕ}
    (hsum : windows.sum = b.getDataSize) :
    ((∃ st m, RequestWindowsReturn b windows st m) ↔ args.credentials.isSome) ∧
      ∀ st m, RequestWindowsReturn b windows st m → st = .protocolError := by
  have hreturns : ∀ st m, RequestWindowsReturn b windows st m ↔ ∃ left,
      outcome requestPass (connectBytes args) (.requestLineBegin, .create) b.byteBefore =
        .returned (st, m) left := by
    intro st m
    rw [requestWindowsReturn_iff hb hsum, RequestReturns]
    have h := returns_iff requestPass_settles (b := b) (s := (.requestLineBegin, .create)) (t := (st, m))
    rw [hdata] at h
    exact h
  simp only [hreturns]
  cases hcreds : args.credentials with
  | none =>
      rw [connect_running hhost hcreds]
      simp
  | some creds =>
      obtain ⟨m, left, ho⟩ := connect_refused hhost hcreds b.byteBefore
      rw [ho]
      simp only [Option.isSome_some, iff_true, Outcome.returned.injEq, Prod.mk.injEq]
      refine ⟨⟨_, m, left, ⟨rfl, rfl⟩, rfl⟩, ?_⟩
      rintro st m' ⟨left', ⟨rfl, -⟩, -⟩
      rfl

/-- A client without credentials, in front of a server that is made of this library. -/
theorem connect_ownParser_plain :
    ¬ ∃ st m, RequestWindowsReturn (IOBuffer.holding [] (connectBytes ⟨str "h", 80, none, none,
      fun h => .ofInsertion h, (0, 0, 0)⟩)) [20, 79] st m := by
  have hhost : ∀ c ∈ str "h", isTargetByte c := by
    intro c hc
    rw [List.mem_singleton.mp hc]
    decide
  have hlen : (connectBytes ⟨str "h", 80, none, none, fun h => .ofInsertion h, (0, 0, 0)⟩).length = 99 := by
    decide +kernel
  intro h
  have hsome := (@connect_ownParser ⟨str "h", 80, none, none, fun h => .ofInsertion h, (0, 0, 0)⟩
    hhost _ (IOBuffer.holding_wellFormed [] _) (IOBuffer.data_holding [] _) _
    (by rw [← IOBuffer.length_data (IOBuffer.holding_wellFormed [] _), IOBuffer.data_holding, hlen]; rfl)).1.mp h
  cases hsome

end OwnParser

end Blueth.Http
