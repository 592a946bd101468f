import Sshelter.Agent.Session

/-! # What a signing request on a connection means

The two parsers of the agent accept exactly the messages of the protocol: for each
kind that matters here (`BindMessage`, `SignMessage`, `LoginData`) the bytes are
spelled out field by field, and the parser's answer is equivalent to the bytes having
that form, with nothing missing and nothing left over.  The state of a connection is
then a function of the verified binds handled so far, which gives what the authority
can rely on at every request.
-/

namespace Sshelter.Agent

open Wire (Bytes)

variable {KeyData Signature : Type}

/-! ## The messages, field by field -/

section Grammar

variable (c : Crates KeyData Signature)

/-- A field the implementation accepts: not longer than its limit. -/
def Crates.Fits (field : Bytes) : Prop := field.length ≤ c.reader.maxLength

instance (field : Bytes) : Decidable (c.Fits field) :=
  inferInstanceAs (Decidable (field.length ≤ c.reader.maxLength))

/-- A field holding exactly one value. -/
def Crates.Holds {T : Type} (decode : Bytes → Option (T × Bytes)) (field : Bytes) (value : T) : Prop :=
  c.Fits field ∧ decode field = some (value, [])

/-- The bytes of a session-bind. -/
def BindMessage (msg : Bytes) (hostKey : KeyData) (sessionId : Bytes) (signature : Signature)
    (forwarding : Bool) : Prop :=
  ∃ hostBlob signatureBlob flag,
    msg = sshAgentcExtension :: (Wire.string (Wire.textBytes sessionBind) ++
      Wire.string hostBlob ++ Wire.string sessionId ++ Wire.string signatureBlob ++ [flag]) ∧
    c.Fits (Wire.textBytes sessionBind) ∧ c.Holds c.decodeKey hostBlob hostKey ∧
    c.Fits sessionId ∧ c.Holds c.decodeSignature signatureBlob signature ∧
    forwarding = (flag != 0)

/-- A session-bind whose signature over the session id verifies under the host key. -/
def VerifiedBind (msg : Bytes) (hostKey : KeyData) (sessionId : Bytes) (forwarding : Bool) : Prop :=
  ∃ signature, BindMessage c msg hostKey sessionId signature forwarding ∧
    c.verify hostKey sessionId signature = true

/-- The bytes of a sign request. -/
def SignMessage (msg : Bytes) (key : KeyData) (data : Bytes) (flags : UInt32) : Prop :=
  ∃ keyBlob,
    msg = sshAgentcSignRequest :: (Wire.string keyBlob ++ Wire.string data ++
      Wire.word flags.toNat) ∧
    c.Holds c.decodeKey keyBlob key ∧ c.Fits data

/-- The part of the login data before the keys. -/
def loginHead (sessionId : Bytes) (user method algorithm : String) : Bytes :=
  Wire.string sessionId ++ [50] ++ Wire.string (Wire.textBytes user) ++
    Wire.string (Wire.textBytes "ssh-connection") ++ Wire.string (Wire.textBytes method) ++ [1] ++
    Wire.string (Wire.textBytes algorithm)

/-- The bytes after the login's public key: the host key in the host-bound method, nothing in
the plain one. -/
def HostboundTail (method : String) (tail : Bytes) (hostboundHostKey : Option KeyData) : Prop :=
  (method = "publickey" ∧ tail = [] ∧ hostboundHostKey = none) ∨
  (method = "publickey-hostbound-v00@openssh.com" ∧
    ∃ blob host, tail = Wire.string blob ∧ c.Holds c.decodeKey blob host ∧
      hostboundHostKey = some host)

/-- The bytes of a complete public-key login to the `ssh-connection` service. -/
def LoginData (data : Bytes) (u : Userauth KeyData) : Prop :=
  ∃ method algorithm keyBlob tail,
    data = loginHead u.sessionId u.user method algorithm ++ Wire.string keyBlob ++ tail ∧
    c.Fits u.sessionId ∧ c.Fits (Wire.textBytes u.user) ∧
    c.Fits (Wire.textBytes "ssh-connection") ∧ c.Fits (Wire.textBytes method) ∧
    c.Fits (Wire.textBytes algorithm) ∧
    c.Holds c.decodeKey keyBlob u.key ∧ HostboundTail c method tail u.hostboundHostKey

end Grammar

/-! ## The parsers accept exactly these messages -/

section Parsers

variable {c : Crates KeyData Signature} (hr : c.reader.Exact)
include hr

theorem readString_eq_some {input s rest : Bytes} :
    c.reader.readString input = some (s, rest) ↔ c.Fits s ∧ input = Wire.string s ++ rest :=
  hr.string

theorem readPrefixedExact_eq_some {T : Type} {decode : Bytes → Option (T × Bytes)}
    {input rest : Bytes} {value : T} :
    readPrefixedExact c decode input = some (value, rest) ↔
      ∃ blob, c.Holds decode blob value ∧ input = Wire.string blob ++ rest := by
  simp only [readPrefixedExact, Option.bind_eq_bind, Option.bind_eq_some_iff, Prod.exists,
    readString_eq_some hr, Crates.Holds]
  constructor
  · rintro ⟨blob, rest', ⟨hfits, hinput⟩, v, left, hdecode, hdone⟩
    simp only [List.isEmpty_iff, Option.ite_none_right_eq_some, Option.some.injEq,
      Prod.mk.injEq] at hdone
    obtain ⟨rfl, rfl, rfl⟩ := hdone
    exact ⟨blob, ⟨hfits, hdecode⟩, hinput⟩
  · rintro ⟨blob, ⟨hfits, hdecode⟩, hinput⟩
    exact ⟨blob, rest, ⟨hfits, hinput⟩, value, [], hdecode, by simp⟩

theorem readText_eq_some {input rest : Bytes} {text : String} :
    readText c input = some (text, rest) ↔
      c.Fits (Wire.textBytes text) ∧ input = Wire.string (Wire.textBytes text) ++ rest := by
  simp only [readText, Option.bind_eq_bind, Option.bind_eq_some_iff, Prod.exists,
    readString_eq_some hr, Wire.decodeText_eq_some, Option.some.injEq, Prod.mk.injEq]
  constructor
  · rintro ⟨bytes, rest', ⟨hfits, hinput⟩, t, rfl, rfl, rfl⟩
    exact ⟨hfits, hinput⟩
  · rintro ⟨hfits, hinput⟩
    exact ⟨_, rest, ⟨hfits, hinput⟩, text, rfl, rfl, rfl⟩

omit hr in
@[simp] theorem finish_eq_some {T : Type} {input : Bytes} {value result : T} :
    finish input value = some result ↔ input = [] ∧ value = result := by
  simp [finish]

theorem parseSign_eq_some {body : Bytes} {request : Request KeyData Signature} :
    parseSign c body = some request ↔
      ∃ keyBlob key data flags, body = Wire.string keyBlob ++ Wire.string data ++
          Wire.word flags.toNat ∧
        c.Holds c.decodeKey keyBlob key ∧ c.Fits data ∧ request = .Sign key data flags := by
  simp only [parseSign, Option.bind_eq_bind, Option.bind_eq_some_iff, Prod.exists,
    readPrefixedExact_eq_some hr, readString_eq_some hr, hr.word, finish_eq_some]
  constructor
  · rintro ⟨key, _, ⟨keyBlob, hkey, rfl⟩, data, _, ⟨hdata, rfl⟩, flags, _, rfl, rfl, rfl⟩
    exact ⟨keyBlob, key, data, flags, by simp, hkey, hdata, rfl⟩
  · rintro ⟨keyBlob, key, data, flags, rfl, hkey, hdata, rfl⟩
    exact ⟨key, _, ⟨keyBlob, hkey, by rw [List.append_assoc]⟩, data, _, ⟨hdata, rfl⟩, flags, [],
      by simp, rfl, rfl⟩

theorem parseSessionBind_eq_some {body : Bytes} {request : Request KeyData Signature} :
    parseSessionBind c body = some request ↔
      ∃ hostBlob hostKey sessionId signatureBlob signature flag,
        body = Wire.string hostBlob ++ Wire.string sessionId ++ Wire.string signatureBlob ++ [flag] ∧
        c.Holds c.decodeKey hostBlob hostKey ∧ c.Fits sessionId ∧
        c.Holds c.decodeSignature signatureBlob signature ∧
        request = .SessionBind hostKey sessionId signature (flag != 0) := by
  simp only [parseSessionBind, Option.bind_eq_bind, Option.bind_eq_some_iff, Prod.exists,
    readPrefixedExact_eq_some hr, readString_eq_some hr, hr.byte, finish_eq_some]
  constructor
  · rintro ⟨hostKey, _, ⟨hostBlob, hhost, rfl⟩, sessionId, _, ⟨hsession, rfl⟩, signature, _,
      ⟨signatureBlob, hsignature, rfl⟩, flag, _, rfl, rfl, rfl⟩
    exact ⟨hostBlob, hostKey, sessionId, signatureBlob, signature, flag, by simp, hhost, hsession,
      hsignature, rfl⟩
  · rintro ⟨hostBlob, hostKey, sessionId, signatureBlob, signature, flag, rfl, hhost, hsession,
      hsignature, rfl⟩
    exact ⟨hostKey, _, ⟨hostBlob, hhost, by simp only [List.append_assoc]⟩, sessionId, _,
      ⟨hsession, rfl⟩, signature, [flag], ⟨signatureBlob, hsignature, rfl⟩, flag, [], rfl, rfl, rfl⟩

theorem parseExtension_eq_some {body : Bytes} {request : Request KeyData Signature} :
    parseExtension c body = some request ↔
      (∃ name rest, name ≠ sessionBind ∧ c.Fits (Wire.textBytes name) ∧
        body = Wire.string (Wire.textBytes name) ++ rest ∧ request = .Extension name) ∨
      (∃ rest, c.Fits (Wire.textBytes sessionBind) ∧
        body = Wire.string (Wire.textBytes sessionBind) ++ rest ∧
        parseSessionBind c rest = some request) := by
  simp only [parseExtension, Option.bind_eq_bind, Option.bind_eq_some_iff, Prod.exists,
    readText_eq_some hr]
  constructor
  · rintro ⟨name, rest, ⟨hfits, rfl⟩, h⟩
    by_cases hname : name = sessionBind
    · subst hname
      exact .inr ⟨rest, hfits, rfl, by simpa using h⟩
    · have hrequest : Request.Extension name = request := by simpa [hname] using h
      exact .inl ⟨name, rest, hname, hfits, rfl, hrequest.symm⟩
  · rintro (⟨name, rest, hname, hfits, rfl, rfl⟩ | ⟨rest, hfits, rfl, h⟩)
    · exact ⟨name, rest, ⟨hfits, rfl⟩, by simp [hname]⟩
    · exact ⟨sessionBind, rest, ⟨hfits, rfl⟩, by simpa using h⟩

omit hr in
/-- Everything a message can be read as. -/
theorem parseRequest_cases (msg : Bytes) :
    parseRequest c msg = .Unsupported ∨ parseRequest c msg = .Identities ∨
    (∃ body, msg = sshAgentcSignRequest :: body ∧ parseSign c body = some (parseRequest c msg)) ∨
    (∃ body, msg = sshAgentcExtension :: body ∧
      parseExtension c body = some (parseRequest c msg)) := by
  cases msg with
  | nil => exact .inl rfl
  | cons kind body =>
    by_cases hids : kind = sshAgentcRequestIdentities
    · have h : parseRequest c (kind :: body) = (finish body .Identities).getD .Unsupported := by
        simp only [parseRequest, if_pos hids]
      cases hbody : body.isEmpty with
      | true => exact .inr (.inl (by simp [h, finish, hbody]))
      | false => exact .inl (by simp [h, finish, hbody])
    by_cases hsign : kind = sshAgentcSignRequest
    · have h : parseRequest c (kind :: body) = (parseSign c body).getD .Unsupported := by
        simp only [parseRequest, if_neg hids, if_pos hsign]
      cases hbody : parseSign c body with
      | none => exact .inl (by rw [h, hbody]; rfl)
      | some request =>
        refine .inr (.inr (.inl ⟨body, by rw [hsign], ?_⟩))
        rw [h, hbody]
        rfl
    by_cases hext : kind = sshAgentcExtension
    · have h : parseRequest c (kind :: body) = (parseExtension c body).getD .Unsupported := by
        simp only [parseRequest, if_neg hids, if_neg hsign, if_pos hext]
      cases hbody : parseExtension c body with
      | none => exact .inl (by rw [h, hbody]; rfl)
      | some request =>
        refine .inr (.inr (.inr ⟨body, by rw [hext], ?_⟩))
        rw [h, hbody]
        rfl
    · refine .inl ?_
      simp only [parseRequest, if_neg hids, if_neg hsign, if_neg hext]
      rfl

omit hr in
theorem parseRequest_sign {body : Bytes} {request : Request KeyData Signature}
    (h : parseSign c body = some request) :
    parseRequest c (sshAgentcSignRequest :: body) = request := by
  show (parseSign c body).getD .Unsupported = request
  rw [h]
  rfl

omit hr in
theorem parseRequest_extension {body : Bytes} {request : Request KeyData Signature}
    (h : parseExtension c body = some request) :
    parseRequest c (sshAgentcExtension :: body) = request := by
  show (parseExtension c body).getD .Unsupported = request
  rw [h]
  rfl

theorem parseRequest_eq_sessionBind {msg : Bytes} {hostKey : KeyData} {sessionId : Bytes}
    {signature : Signature} {forwarding : Bool} :
    parseRequest c msg = .SessionBind hostKey sessionId signature forwarding ↔
      BindMessage c msg hostKey sessionId signature forwarding := by
  constructor
  · intro h
    rcases parseRequest_cases (c := c) msg with hu | hi | ⟨body, _, hs⟩ | ⟨body, rfl, he⟩
    · rw [h] at hu
      cases hu
    · rw [h] at hi
      cases hi
    · rw [h, parseSign_eq_some hr] at hs
      obtain ⟨_, _, _, _, _, _, _, hs⟩ := hs
      cases hs
    · rw [h, parseExtension_eq_some hr] at he
      obtain ⟨_, _, _, _, _, he⟩ | ⟨rest, hfits, rfl, he⟩ := he
      · cases he
      obtain ⟨hostBlob, _, _, signatureBlob, _, flag, rfl, hhost, hsession, hsignature, he⟩ :=
        (parseSessionBind_eq_some hr).mp he
      cases he
      exact ⟨hostBlob, signatureBlob, flag, by simp, hfits, hhost, hsession, hsignature, rfl⟩
  · rintro ⟨hostBlob, signatureBlob, flag, rfl, hfits, hhost, hsession, hsignature, rfl⟩
    apply parseRequest_extension
    apply (parseExtension_eq_some hr).mpr
    refine .inr ⟨_, hfits, by simp only [List.append_assoc]; rfl, ?_⟩
    apply (parseSessionBind_eq_some hr).mpr
    exact ⟨hostBlob, hostKey, sessionId, signatureBlob, signature, flag, by simp, hhost, hsession,
      hsignature, rfl⟩

theorem parseRequest_eq_sign {msg : Bytes} {key : KeyData} {data : Bytes} {flags : UInt32} :
    parseRequest c msg = .Sign key data flags ↔ SignMessage c msg key data flags := by
  constructor
  · intro h
    rcases parseRequest_cases (c := c) msg with hu | hi | ⟨body, rfl, hs⟩ | ⟨body, _, he⟩
    · rw [h] at hu
      cases hu
    · rw [h] at hi
      cases hi
    · rw [h, parseSign_eq_some hr] at hs
      obtain ⟨keyBlob, _, _, _, rfl, hkey, hdata, hs⟩ := hs
      cases hs
      exact ⟨keyBlob, rfl, hkey, hdata⟩
    · rw [h, parseExtension_eq_some hr] at he
      obtain ⟨_, _, _, _, _, he⟩ | ⟨rest, _, _, he⟩ := he
      · cases he
      obtain ⟨_, _, _, _, _, _, _, _, _, _, he⟩ := (parseSessionBind_eq_some hr).mp he
      cases he
  · rintro ⟨keyBlob, rfl, hkey, hdata⟩
    apply parseRequest_sign
    apply (parseSign_eq_some hr).mpr
    exact ⟨keyBlob, key, data, flags, rfl, hkey, hdata, rfl⟩

theorem readHostboundKey_eq_some {method : String} {hostbound : Bool}
    (hmethod : hostboundMethod method = some hostbound) {input : Bytes}
    {hostboundHostKey : Option KeyData} :
    readHostboundKey c hostbound input = some (hostboundHostKey, []) ↔
      HostboundTail c method input hostboundHostKey := by
  unfold hostboundMethod at hmethod
  by_cases hplain : method = "publickey"
  · rw [if_pos hplain] at hmethod
    cases hmethod
    subst hplain
    simp [readHostboundKey, HostboundTail, and_comm, eq_comm]
  · rw [if_neg hplain] at hmethod
    simp only [Option.ite_none_right_eq_some, Option.some.injEq] at hmethod
    obtain ⟨rfl, rfl⟩ := hmethod
    simp only [readHostboundKey, if_true, Option.map_eq_some_iff, Prod.exists, Prod.mk.injEq,
      readPrefixedExact_eq_some hr, HostboundTail, hplain, false_and, false_or, true_and]
    constructor
    · rintro ⟨host, _, ⟨blob, hholds, rfl⟩, rfl, rfl⟩
      exact ⟨blob, host, by simp, hholds, rfl⟩
    · rintro ⟨blob, host, rfl, hholds, rfl⟩
      exact ⟨host, [], ⟨blob, hholds, by simp⟩, rfl, rfl⟩

omit hr in
theorem hostboundMethod_of_tail {method : String} {tail : Bytes} {hostboundHostKey : Option KeyData}
    (h : HostboundTail c method tail hostboundHostKey) :
    ∃ hostbound, hostboundMethod method = some hostbound := by
  rcases h with ⟨rfl, -, -⟩ | ⟨rfl, -⟩
  · exact ⟨false, rfl⟩
  · exact ⟨true, rfl⟩

theorem parseUserauth_eq_some {data : Bytes} {u : Userauth KeyData} :
    parseUserauth c data = some u ↔ LoginData c data u := by
  simp only [parseUserauth, Option.bind_eq_bind, Option.bind_eq_some_iff, Prod.exists,
    Option.guard_eq_some', exists_and_left, exists_const,
    readPrefixedExact_eq_some hr, readString_eq_some hr, readText_eq_some hr, hr.byte, finish_eq_some]
  constructor
  · rintro ⟨sessionId, _, ⟨hsession, rfl⟩, _, _, rfl, rfl, user, _, ⟨huser, rfl⟩, _, _,
      ⟨hservice, rfl⟩, rfl, method, _, ⟨hmethod, rfl⟩, hostbound, hhostbound, _, _, rfl, rfl,
      algorithm, _, ⟨halgorithm, rfl⟩, key, tail, ⟨keyBlob, hkey, rfl⟩, hostboundHostKey, _,
      htail, rfl, rfl⟩
    refine ⟨method, algorithm, keyBlob, tail, ?_, hsession, huser, hservice, hmethod, halgorithm,
      hkey, (readHostboundKey_eq_some hr hhostbound).mp htail⟩
    simp [loginHead]
  · rintro ⟨method, algorithm, keyBlob, tail, rfl, hsession, huser, hservice, hmethod, halgorithm,
      hkey, htail⟩
    obtain ⟨hostbound, hhostbound⟩ := hostboundMethod_of_tail htail
    refine ⟨u.sessionId, _, ⟨hsession, ?_⟩, 50, _, rfl, rfl, u.user, _, ⟨huser, rfl⟩,
      "ssh-connection", _, ⟨hservice, rfl⟩, rfl, method, _, ⟨hmethod, rfl⟩, hostbound, hhostbound,
      1, _, rfl, rfl, algorithm, _, ⟨halgorithm, rfl⟩, u.key, tail, ⟨keyBlob, hkey, rfl⟩,
      u.hostboundHostKey, [], (readHostboundKey_eq_some hr hhostbound).mpr htail, rfl, rfl⟩
    simp [loginHead]

end Parsers

/-! ## One message -/

section Step

variable [DecidableEq KeyData] {c : Crates KeyData Signature} (hr : c.reader.Exact)
include hr

/-- A verified bind replaces the bound host and keeps the forwarding mark. -/
theorem handle_session_of_bind {msg : Bytes} {hostKey : KeyData} {sessionId : Bytes}
    {forwarding : Bool} (h : VerifiedBind c msg hostKey sessionId forwarding)
    (s : Session KeyData) (authority : SignAuthority KeyData) :
    (s.handle c authority msg).session =
      { bound := some (hostKey, sessionId), forwarded := s.forwarded || forwarding } := by
  obtain ⟨signature, hmsg, hverify⟩ := h
  have hparse := (parseRequest_eq_sessionBind hr).mpr hmsg
  simp only [Session.handle, hparse, hverify, if_true]

/-- Any other message leaves the state as it was: an unsupported kind, a message cut short or
with bytes left over, a bind that does not verify, and every request. -/
theorem handle_session_of_not_bind {msg : Bytes}
    (h : ¬ ∃ hostKey sessionId forwarding, VerifiedBind c msg hostKey sessionId forwarding)
    (s : Session KeyData) (authority : SignAuthority KeyData) :
    (s.handle c authority msg).session = s := by
  unfold Session.handle
  cases hparse : parseRequest c msg with
  | Identities => rfl
  | Sign key data flags => rfl
  | Extension name => rfl
  | Unsupported => rfl
  | SessionBind hostKey sessionId signature forwarding =>
    have hmsg := (parseRequest_eq_sessionBind hr).mp hparse
    have hverify : c.verify hostKey sessionId signature = false := by
      apply Bool.eq_false_iff.mpr
      intro hv
      exact h ⟨hostKey, sessionId, forwarding, signature, hmsg, hv⟩
    simp [hverify]

/-- The request the authority is asked to sign is the one the message carries, under the state
the connection was in. -/
theorem handle_asked {s : Session KeyData} {authority : SignAuthority KeyData} {msg : Bytes}
    {request : SignRequest KeyData} :
    (s.handle c authority msg).asked = some request ↔
      ∃ key data flags, SignMessage c msg key data flags ∧
        request = s.signRequest c key data flags := by
  unfold Session.handle
  cases hparse : parseRequest c msg with
  | Sign key data flags =>
    have hmsg := (parseRequest_eq_sign hr).mp hparse
    constructor
    · intro h
      exact ⟨key, data, flags, hmsg, (Option.some.inj h).symm⟩
    · rintro ⟨key', data', flags', hmsg', rfl⟩
      have hsame := hparse.symm.trans ((parseRequest_eq_sign hr).mpr hmsg')
      cases hsame
      rfl
  | SessionBind hostKey sessionId signature forwarding =>
    constructor
    · intro h
      dsimp only at h
      split at h <;> cases h
    · rintro ⟨key', data', flags', hmsg', rfl⟩
      have hsame := hparse.symm.trans ((parseRequest_eq_sign hr).mpr hmsg')
      cases hsame
  | _ =>
    constructor
    · intro h
      cases h
    · rintro ⟨key', data', flags', hmsg', rfl⟩
      have hsame := hparse.symm.trans ((parseRequest_eq_sign hr).mpr hmsg')
      cases hsame

/-- A known host is the bound one, and the data is a login of this key to that session. -/
theorem signRequest_hostKey {s : Session KeyData} {key : KeyData} {data : Bytes} {flags : UInt32}
    {host : KeyData} (h : (s.signRequest c key data flags).hostKey = some host) :
    ∃ sessionId u, s.bound = some (host, sessionId) ∧ LoginData c data u ∧ u.key = key ∧
      u.sessionId = sessionId ∧ ∀ bound ∈ u.hostboundHostKey, bound = host := by
  simp only [Session.signRequest] at h
  split at h
  next u host' sessionId hfilter hbound =>
    simp only [Option.ite_none_right_eq_some, Option.some.injEq] at h
    obtain ⟨⟨hsession, hhost⟩, rfl⟩ := h
    obtain ⟨hparse, hkey⟩ := Option.filter_eq_some_iff.mp hfilter
    refine ⟨sessionId, u, hbound, (parseUserauth_eq_some hr).mp hparse, by simpa using hkey,
      hsession, ?_⟩
    intro bound hmem
    rw [Option.mem_def] at hmem
    simpa [hmem] using hhost
  next => cases h

end Step

/-! ## Whole connections -/

section Run

variable [DecidableEq KeyData] (c : Crates KeyData Signature)

/-- The message is a bind that succeeds. -/
def Succeeds (msg : Bytes) : Prop :=
  ∃ hostKey sessionId forwarding, VerifiedBind c msg hostKey sessionId forwarding

/-- The last bind that succeeded among the messages was to this host and session. -/
def LastBind (messages : List Bytes) (hostKey : KeyData) (sessionId : Bytes) : Prop :=
  ∃ earlier bind later forwarding, messages = earlier ++ bind :: later ∧
    VerifiedBind c bind hostKey sessionId forwarding ∧ ∀ msg ∈ later, ¬ Succeeds c msg

/-- Some bind that succeeded among the messages had the forwarding flag. -/
def BoundForForwarding (messages : List Bytes) : Prop :=
  ∃ msg ∈ messages, ∃ hostKey sessionId, VerifiedBind c msg hostKey sessionId true

variable {c}

theorem handleAll_append (s : Session KeyData) (first second : List (SignAuthority KeyData × Bytes)) :
    s.handleAll c (first ++ second) = (s.handleAll c first).handleAll c second := by
  induction first generalizing s with
  | nil => rfl
  | cons entry rest ih => exact ih _

omit [DecidableEq KeyData] in
theorem LastBind.snoc_of_not_succeeds {messages : List Bytes} {hostKey : KeyData} {sessionId : Bytes}
    (h : LastBind c messages hostKey sessionId) {msg : Bytes} (hmsg : ¬ Succeeds c msg) :
    LastBind c (messages ++ [msg]) hostKey sessionId := by
  obtain ⟨earlier, bind, later, forwarding, rfl, hbind, hlater⟩ := h
  refine ⟨earlier, bind, later ++ [msg], forwarding, by simp, hbind, ?_⟩
  intro m hm
  rcases List.mem_append.mp hm with hm | hm
  · exact hlater m hm
  · rw [List.mem_singleton.mp hm]
    exact hmsg

section
variable (hr : c.reader.Exact)
include hr

omit [DecidableEq KeyData] in
/-- A bind names one host, session and flag. -/
theorem VerifiedBind.unique {msg : Bytes} {host host' : KeyData} {sid sid' : Bytes} {f f' : Bool}
    (h : VerifiedBind c msg host sid f) (h' : VerifiedBind c msg host' sid' f') :
    host = host' ∧ sid = sid' ∧ f = f' := by
  obtain ⟨signature, hmsg, -⟩ := h
  obtain ⟨signature', hmsg', -⟩ := h'
  have hsame := ((parseRequest_eq_sessionBind hr).mpr hmsg).symm.trans
    ((parseRequest_eq_sessionBind hr).mpr hmsg')
  cases hsame
  exact ⟨rfl, rfl, rfl⟩

/-- After any messages, the connection is bound to the host of the last bind that succeeded. -/
theorem handleAll_bound (run : List (SignAuthority KeyData × Bytes)) {hostKey : KeyData}
    {sessionId : Bytes}
    (h : (Session.handleAll c {} run).bound = some (hostKey, sessionId)) :
    LastBind c (run.map Prod.snd) hostKey sessionId := by
  -- the induction adds one message at the end of the run
  induction run using List.reverseRecOn with
  | nil => cases h
  | append_singleton run entry ih =>
    obtain ⟨authority, msg⟩ := entry
    rw [handleAll_append] at h
    simp only [Session.handleAll] at h
    rw [List.map_append, List.map_singleton]
    by_cases hmsg : Succeeds c msg
    · obtain ⟨host, sid, forwarding, hbind⟩ := hmsg
      rw [handle_session_of_bind hr hbind] at h
      cases h
      exact ⟨run.map Prod.snd, msg, [], forwarding, rfl, hbind, by simp⟩
    · rw [handle_session_of_not_bind hr hmsg] at h
      exact (ih h).snoc_of_not_succeeds hmsg

/-- After any messages, the connection counts as forwarded exactly when some bind said so. -/
theorem handleAll_forwarded (run : List (SignAuthority KeyData × Bytes)) :
    (Session.handleAll c {} run).forwarded = true ↔ BoundForForwarding c (run.map Prod.snd) := by
  induction run using List.reverseRecOn with
  | nil => simp [Session.handleAll, BoundForForwarding]
  | append_singleton run entry ih =>
    obtain ⟨authority, msg⟩ := entry
    rw [handleAll_append]
    simp only [Session.handleAll, BoundForForwarding, List.map_append, List.map_singleton,
      List.mem_append, List.mem_singleton, or_and_right, exists_or, exists_eq_left]
    change _ ↔ BoundForForwarding c (run.map Prod.snd) ∨ _
    rw [← ih]
    by_cases hmsg : Succeeds c msg
    · obtain ⟨host, sid, forwarding, hbind⟩ := hmsg
      rw [handle_session_of_bind hr hbind]
      have hflag : (∃ hostKey sessionId, VerifiedBind c msg hostKey sessionId true) ↔
          forwarding = true := by
        constructor
        · rintro ⟨host', sid', hbind'⟩
          exact (hbind.unique hr hbind').2.2
        · rintro rfl
          exact ⟨host, sid, hbind⟩
      rw [hflag, Bool.or_eq_true]
    · rw [handle_session_of_not_bind hr hmsg]
      have hnone : ¬ ∃ hostKey sessionId, VerifiedBind c msg hostKey sessionId true := by
        rintro ⟨host, sid, hbind⟩
        exact hmsg ⟨host, sid, true, hbind⟩
      simp only [hnone, or_false]

/-- For every sequence of messages and every next message: a request with a known host is a
complete login of the requested key to the session of the last bind that succeeded, made by
that host; a request counts as forwarded exactly when an earlier bind said so; and a message
that is not a verified bind leaves the state unchanged. -/
theorem signing_request_matches_history (before : List (SignAuthority KeyData × Bytes))
    (authority : SignAuthority KeyData) (msg : Bytes) :
    let session := Session.handleAll c {} before
    let handled := session.handle c authority msg
    (∀ request, handled.asked = some request →
      SignMessage c msg request.key request.data request.flags ∧
      (∀ host, request.hostKey = some host →
        ∃ sessionId u, LastBind c (before.map Prod.snd) host sessionId ∧
          LoginData c request.data u ∧ u.key = request.key ∧ u.sessionId = sessionId ∧
          ∀ bound ∈ u.hostboundHostKey, bound = host) ∧
      (request.forwarded = true ↔ BoundForForwarding c (before.map Prod.snd))) ∧
    (¬ Succeeds c msg → handled.session = session) := by
  intro session handled
  constructor
  · intro request hasked
    obtain ⟨key, data, flags, hmsg, rfl⟩ := (handle_asked hr).mp hasked
    refine ⟨hmsg, ?_, handleAll_forwarded hr before⟩
    intro host hhost
    obtain ⟨sessionId, u, hbound, hlogin, hkey, hsession, hhostbound⟩ := signRequest_hostKey hr hhost
    exact ⟨sessionId, u, handleAll_bound hr before hbound, hlogin, hkey, hsession, hhostbound⟩
  · intro hmsg
    exact handle_session_of_not_bind hr hmsg session authority

end

end Run

namespace Sample

/-- Keys and signatures as plain bytes; a signature is the key followed by the message. -/
def crates : Crates Bytes Bytes where
  reader := Wire.strict 0xfffff
  decodeKey := fun bytes => some (bytes, [])
  encodeKey := id
  decodeSignature := fun bytes => some (bytes, [])
  verify := fun key message signature => signature == key ++ message

theorem crates_exact : crates.reader.Exact := Wire.strict_exact (by decide)

/-- The host `[1]` binds session `[7]`, not for forwarding. -/
def bindMessage : Bytes :=
  sshAgentcExtension :: (Wire.string (Wire.textBytes sessionBind) ++ Wire.string [1] ++
    Wire.string [7] ++ Wire.string [1, 7] ++ [0])

/-- A login by key `[2]` to session `[7]`. -/
def loginData : Bytes := loginHead [7] "root" "publickey" "ssh-ed25519" ++ Wire.string [2]

def signMessage : Bytes :=
  sshAgentcSignRequest :: (Wire.string [2] ++ Wire.string loginData ++ Wire.word 0)

def authority : SignAuthority Bytes where
  identities := []
  sign := fun _ => none

theorem bindMessage_verified : VerifiedBind crates bindMessage [1] [7] false :=
  ⟨[1, 7], ⟨[1], [1, 7], 0, rfl, by decide, ⟨by decide, rfl⟩, by decide, ⟨by decide, rfl⟩, rfl⟩, rfl⟩

theorem loginData_login :
    LoginData crates loginData
      { sessionId := [7], user := "root", key := [2], hostboundHostKey := none } :=
  ⟨"publickey", "ssh-ed25519", [2], [], by simp [loginData], by decide, by decide, by decide,
    by decide, by decide, ⟨by decide, rfl⟩, .inl ⟨rfl, rfl, rfl⟩⟩

theorem signMessage_sign : SignMessage crates signMessage [2] loginData 0 :=
  ⟨[2], rfl, ⟨by decide, rfl⟩, by decide⟩

end Sample

theorem signing_request_on_a_bound_session :
    let before := [(Sample.authority, Sample.bindMessage)]
    let handled := (Session.handleAll Sample.crates {} before).handle Sample.crates
      Sample.authority Sample.signMessage
    ∃ request, handled.asked = some request ∧ request.hostKey = some [1] ∧
      (∃ sessionId u, LastBind Sample.crates [Sample.bindMessage] [1] sessionId ∧
        LoginData Sample.crates request.data u ∧ u.key = request.key ∧ u.sessionId = sessionId ∧
        ∀ bound ∈ u.hostboundHostKey, bound = [1]) := by
  intro before handled
  have hstate : Session.handleAll Sample.crates {} before =
      { bound := some ([1], [7]), forwarded := false } := by
    exact handle_session_of_bind Sample.crates_exact Sample.bindMessage_verified {} Sample.authority
  let request := (Session.handleAll Sample.crates {} before).signRequest Sample.crates [2]
    Sample.loginData 0
  have hasked : handled.asked = some request :=
    (handle_asked Sample.crates_exact).mpr ⟨[2], Sample.loginData, 0, Sample.signMessage_sign, rfl⟩
  have hparse := (parseUserauth_eq_some Sample.crates_exact).mpr Sample.loginData_login
  have hhost : request.hostKey = some [1] := by
    simp only [request, Session.signRequest, hstate, hparse]
    decide
  have hall := signing_request_matches_history Sample.crates_exact before Sample.authority
    Sample.signMessage
  exact ⟨request, hasked, hhost, (hall.1 request hasked).2.1 [1] hhost⟩

/-! ## Whole streams -/

section Stream

variable [DecidableEq KeyData] (c : Crates KeyData Signature)

theorem readFrame_writeFrame {msg : Bytes} (hpos : 0 < msg.length) (hmax : msg.length ≤ maxMessage)
    (rest : Bytes) : readFrame (writeFrame msg ++ rest) = .message msg rest := by
  have hvalue : Wire.wordValue _ _ _ _ = msg.length :=
    Wire.wordValue_word (show msg.length < 4294967296 by simp only [maxMessage] at hmax; omega)
  have hzero : ¬ (msg.length = 0 ∨ maxMessage < msg.length) := by omega
  have hfits : ¬ (msg ++ rest).length < msg.length := by
    simp only [List.length_append]
    omega
  simp only [writeFrame, Wire.word, List.cons_append, List.nil_append, readFrame, hvalue]
  rw [if_neg hzero, if_neg hfits, List.take_left, List.drop_left]

/-- The replies to a sequence of messages. -/
def Session.replies (authority : Nat → SignAuthority KeyData) :
    Nat → Session KeyData → List Bytes → List Bytes
  | _, _, [] => []
  | served, session, msg :: rest =>
    let handled := session.handle c (authority served) msg
    handled.reply :: Session.replies authority (served + 1) handled.session rest

/-- On a stream of well-formed frames the connection answers every message in order, under the
state the messages before it left, and ends without an error. -/
theorem serveFrom_frames (authority : Nat → SignAuthority KeyData) (messages : List Bytes)
    (hframes : ∀ msg ∈ messages, 0 < msg.length ∧ msg.length ≤ maxMessage)
    (served : Nat) (session : Session KeyData) :
    serveFrom c authority served session (messages.flatMap writeFrame) =
      { output := (session.replies c authority served messages).flatMap writeFrame
        failed := false } := by
  induction messages generalizing served session with
  | nil =>
    rw [serveFrom]
    rfl
  | cons msg rest ih =>
    obtain ⟨hpos, hmax⟩ := hframes msg List.mem_cons_self
    have hframe := readFrame_writeFrame hpos hmax (rest.flatMap writeFrame)
    have hrest := ih (fun m hm => hframes m (List.mem_cons_of_mem _ hm)) (served + 1)
      (session.handle c (authority served) msg).session
    rw [List.flatMap_cons, serveFrom]
    split
    next heq => rw [hframe] at heq; cases heq
    next heq => rw [hframe] at heq; cases heq
    next msg' rest' heq =>
      rw [hframe] at heq
      cases heq
      simp only [hrest, Session.replies, List.flatMap_cons]

end Stream

end Sshelter.Agent
