import Sshelter.Lib.Wire

/-! # What crosses the engine interface

`ssh/types.rs` and `ssh/error.rs`: hosts, keys and login methods as the broker and its engine
name them, and the errors of a connect with the sentences they are shown as.  How long a hop
is waited for is not part of the model: a wait that ends is an answer of the server.
-/

namespace Sshelter.Ssh

open Wire (Bytes)

/-- Which hop a callback or an error is about. -/
structure HopRef where
  id : String
  aliasName : String
  hostname : String
  port : Nat
  user : String
deriving DecidableEq, Repr

structure HostKey where
  algorithm : String
  publicKey : Bytes
  fingerprint : String
deriving DecidableEq, Repr

/-- What a host key policy says about the key a server presented. -/
inductive HostKeyVerdict where
  | Pinned
  | Unknown
  | Mismatch (pinned : HostKey)
deriving DecidableEq, Repr

inductive RsaHash where
  | Sha256
  | Sha512
deriving DecidableEq, Repr

/-- One keyboard-interactive prompt. -/
structure Prompt where
  text : String
  echo : Bool
deriving DecidableEq, Repr

inductive AuthMethod where
  | Key (keyId : String)
  | Password
  | Interactive
deriving DecidableEq, Repr

def AuthMethod.name : AuthMethod → String
  | .Key _ => "publickey"
  | .Password => "password"
  | .Interactive => "keyboard-interactive"

/-- One connection of a chain. -/
structure Hop where
  id : String
  aliasName : String
  hostname : String
  port : Nat
  user : String
  /-- Where the login sequence starts. -/
  auth : AuthMethod
  /-- The key on record for this host. -/
  pinned : Option HostKey
deriving DecidableEq, Repr

namespace Hop

def reference (self : Hop) : HopRef :=
  { id := self.id, aliasName := self.aliasName, hostname := self.hostname, port := self.port, user := self.user }

/-- The methods to try, in order. -/
def authSequence (self : Hop) : List AuthMethod :=
  match self.auth with
  | .Key keyId => [.Key keyId, .Password, .Interactive]
  | .Password => [.Password, .Interactive]
  | .Interactive => [.Interactive]

end Hop

/-- The jump chain and the destination, in the order they are connected. -/
structure Target where
  hops : List Hop
deriving DecidableEq, Repr

/-- Which part of connecting ran out of time. -/
inductive Phase where
  | Tcp
  | Handshake
  | Auth
deriving DecidableEq, Repr

inductive ConnectError where
  | BadJumpChain (why : String)
  | Unreachable (hop : HopRef) (reason : String)
  | Timeout (hop : HopRef) (phase : Phase)
  | HostKeyUnknown (hop : HopRef) (key : HostKey)
  | HostKeyMismatch (hop : HopRef) (key pinned : HostKey)
  | NoCommonHostKeyAlgorithm (hop : HopRef) (ours theirs : List String)
  | AuthFailed (hop : HopRef) (tried : List AuthMethod) (reason : String) (passwordWanted : Bool)
  | AuthAbandoned (hop : HopRef) (reason : String)
  | Protocol (hop : HopRef) (text : String)
deriving DecidableEq, Repr

def phaseText : Phase → String
  | .Tcp => "the TCP connection"
  | .Handshake => "the SSH handshake"
  | .Auth => "login"

def noCommonAlgorithm (hop : HopRef) (ours theirs : List String) : String :=
  "Could not agree on a host key algorithm with " ++ hop.aliasName ++ ": the server offers " ++
    ", ".intercalate theirs ++ ", Lunport accepts " ++ ", ".intercalate ours ++ "."

/-- The sentence for the user. -/
def ConnectError.display : ConnectError → String
  | .BadJumpChain why => "The jump chain cannot be used: " ++ why
  | .Unreachable hop reason => "Could not reach " ++ hop.hostname ++ ":" ++ toString hop.port ++ " (" ++ reason ++ ")."
  | .Timeout hop phase =>
    "Could not reach " ++ hop.hostname ++ ":" ++ toString hop.port ++ " (timed out during " ++ phaseText phase ++ ")."
  | .HostKeyUnknown hop _ => "The host key of " ++ hop.aliasName ++ " has not been confirmed yet."
  | .HostKeyMismatch hop _ _ => "The host key of " ++ hop.aliasName ++ " changed. Connection refused."
  | .NoCommonHostKeyAlgorithm hop ours theirs =>
    if "ssh-rsa" ∈ theirs ∧ "ssh-rsa" ∉ ours then
      noCommonAlgorithm hop ours theirs ++ " Lunport does not use ssh-rsa (SHA-1)."
    else noCommonAlgorithm hop ours theirs
  | .AuthFailed hop tried reason _ =>
    let sentence :=
      if tried.isEmpty then
        "Authentication failed for " ++ hop.user ++ "@" ++ hop.aliasName ++ " (no login method could be tried)."
      else
        "Authentication failed for " ++ hop.user ++ "@" ++ hop.aliasName ++ " (tried: " ++
          ", ".intercalate (tried.map AuthMethod.name) ++ ")."
    if reason.isEmpty then sentence else sentence ++ " " ++ reason
  | .AuthAbandoned hop reason => "Authentication for " ++ hop.aliasName ++ " was abandoned (" ++ reason ++ ")."
  | .Protocol _ text => "SSH error: " ++ text

end Sshelter.Ssh
