import Sshelter.Agent.Protocol

/-! # One agent connection

`agent/session.rs`: a connection remembers the host it was last bound to and whether
it was ever bound for forwarding, and hands every signing request to a
`SignAuthority`.  The authority may answer differently at every message, so a run
pairs each message with the authority that answers it.
-/

namespace Sshelter.Agent

open Wire (Bytes)

variable {KeyData Signature : Type}

/-- A signing request handed to the authority.  The user is known only for login data of this
key; the host only when that login belongs to the session last bound. -/
structure SignRequest (KeyData : Type) where
  key : KeyData
  data : Bytes
  flags : UInt32
  user : Option String
  hostKey : Option KeyData
  forwarded : Bool
deriving DecidableEq, Repr

/-- Decides which keys are offered and whether a request is signed. -/
structure SignAuthority (KeyData : Type) where
  identities : List (KeyData × String)
  sign : SignRequest KeyData → Option Bytes

/-- The last successful bind (host key and session id), and whether the connection was ever
bound for forwarding. -/
structure Session (KeyData : Type) where
  bound : Option (KeyData × Bytes) := none
  forwarded : Bool := false
deriving DecidableEq, Repr

/-- What handling one message does: the next state, the reply, and the request the authority
was asked to sign. -/
structure Handled (KeyData : Type) where
  session : Session KeyData
  reply : Bytes
  asked : Option (SignRequest KeyData) := none
deriving DecidableEq, Repr

section Handle

variable [DecidableEq KeyData] (c : Crates KeyData Signature)

/-- The request built for a sign message: login data must name the requested key, and the host
is known only when the login's session id (and host key, in the host-bound method) are the
bound ones. -/
def Session.signRequest (self : Session KeyData) (key : KeyData) (data : Bytes) (flags : UInt32) :
    SignRequest KeyData :=
  let userauth := (parseUserauth c data).filter (·.key = key)
  let hostKey :=
    match userauth, self.bound with
    | some u, some (host, sid) =>
      if u.sessionId = sid ∧ u.hostboundHostKey.all (· = host) then some host else none
    | _, _ => none
  { key, data, flags, user := userauth.map (·.user), hostKey, forwarded := self.forwarded }

/-- Handles one message. -/
def Session.handle (self : Session KeyData) (authority : SignAuthority KeyData) (msg : Bytes) :
    Handled KeyData :=
  match parseRequest c msg with
  | .Identities => { session := self, reply := identitiesAnswer c authority.identities }
  | .Sign key data flags =>
    let request := self.signRequest c key data flags
    let reply :=
      match authority.sign request with
      | some blob => signResponse blob
      | none => [sshAgentFailure]
    { session := self, reply, asked := some request }
  | .SessionBind hostKey sessionId signature forwarding =>
    if c.verify hostKey sessionId signature then
      { session := { bound := some (hostKey, sessionId), forwarded := self.forwarded || forwarding }
        reply := [sshAgentSuccess] }
    else { session := self, reply := [sshAgentExtensionFailure] }
  | .Extension _ => { session := self, reply := [sshAgentFailure] }
  | .Unsupported => { session := self, reply := [sshAgentFailure] }

/-- The state after a sequence of messages. -/
def Session.handleAll (self : Session KeyData) :
    List (SignAuthority KeyData × Bytes) → Session KeyData
  | [] => self
  | (authority, msg) :: rest => ((self.handle c authority msg).session).handleAll rest

/-- What a connection leaves behind: the bytes written, and whether it ended with an error. -/
structure Served where
  output : Bytes
  failed : Bool
deriving DecidableEq, Repr

theorem readFrame_rest_length {stream msg rest : Bytes} (h : readFrame stream = .message msg rest) :
    rest.length < stream.length := by
  unfold readFrame at h
  split at h
  · dsimp only at h
    split at h
    · cases h
    · split at h
      · cases h
      · cases h
        simp only [List.length_drop, List.length_cons]
        omega
  · cases h

/-- Handles the messages on the stream until the peer closes it or a frame is bad.  The
authority answers by the number of the message. -/
def serveFrom (authority : Nat → SignAuthority KeyData) (served : Nat) (session : Session KeyData)
    (stream : Bytes) : Served :=
  match _h : readFrame stream with
  | .closed => { output := [], failed := false }
  | .broken => { output := [], failed := true }
  | .message msg rest =>
    let handled := session.handle c (authority served) msg
    let later := serveFrom authority (served + 1) handled.session rest
    { later with output := writeFrame handled.reply ++ later.output }
termination_by stream.length
decreasing_by exact readFrame_rest_length _h

def serve (authority : Nat → SignAuthority KeyData) (stream : Bytes) : Served :=
  serveFrom c authority 0 {} stream

end Handle

end Sshelter.Agent
