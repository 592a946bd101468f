import Sshelter.Lib.BTreeMap
import Sshelter.Lib.Call
import Sshelter.Ssh.Types
import Sshelter.Agent.Broker

/-! # The world of one connect

What `session/connect.rs`, `session/auth.rs` and `ssh/russh_engine.rs` meet on the way to a session:
the servers behind the network, the person at the terminal, the window for host keys, the keychain,
the vault and the saved hosts.  Each of them answers as it likes, and each answer may change all later
ones.  `Run` is what the connect itself keeps, with a log of everything that was asked, answered,
checked and sent; the latest entry of the log comes first.
-/

namespace Sshelter.Session

open Ssh
open Wire (Bytes)

/-! ## Answers of the network -/

/-- How opening a TCP connection ends. -/
inductive TcpEnd where
  | Connected
  | Failed (reason : String)
  | TimedOut
deriving DecidableEq, Repr

/-- How opening a channel through the hop in front ends. -/
inductive TunnelEnd where
  | Connected
  | ConnectFailed
  | AdministrativelyProhibited
  | Refused (why : String)
  | Lost
  | TimedOut
deriving DecidableEq, Repr

/-- How a handshake ends. -/
inductive HandshakeEnd where
  | Connected
  | UnknownKey
  | NoCommonKeyAlgorithm (ours theirs : List String)
  | Io (reason : String)
  | Closed
  | Other (text : String)
  | TimedOut
deriving DecidableEq, Repr

inductive MethodKind where
  | None
  | Password
  | PublicKey
  | HostBased
  | KeyboardInteractive
deriving DecidableEq, Repr

/-- The answer to a login request. -/
inductive LoginAnswer where
  | Success
  | Refused (remaining : List MethodKind)
  | TimedOut
  | Lost
deriving DecidableEq, Repr

/-- What `best_supported_rsa_hash` comes to. -/
inductive RsaSupport where
  | Best (best : Option (Option RsaHash))
  | TimedOut
  | Lost
deriving DecidableEq, Repr

/-- The answer to an offered key: the server may ask for a signature, with a hash that is `none` when it is
neither SHA-256 nor SHA-512. -/
inductive KeyOffer where
  | Answered (answer : LoginAnswer)
  | Sign (hash : Option RsaHash) (data : Bytes)
deriving DecidableEq, Repr

/-- The rest of a keyboard-interactive login, as the server conducts it. -/
inductive Conversation where
  | Success
  | Failure (remaining : List MethodKind)
  | InfoRequest (prompts : List Prompt) (respond : List String → Conversation)
  | TimedOut
  | Lost

/-- What an answer that names no method to go on with came to. -/
inductive EmptyAnswer where
  | NoLoginMethod
  | Lost
  | Refusal
deriving DecidableEq, Repr

/-! ## Answers of the broker's own side -/

inductive QuestionKind where
  | HostKeyNotice
  | Passphrase
  | Password
  | Interactive
deriving DecidableEq, Repr

/-- How a question to the person ended. -/
inductive Reply where
  | Answer (secret : String)
  | Cancelled
  | TimedOut
  | Gone
deriving DecidableEq, Repr

/-- A pinned host key and when it was pinned. -/
structure PinnedKey where
  key : HostKey
  pinnedAtMs : Nat
deriving DecidableEq, Repr

inductive DirectoryError where
  | NotFound (text : String)
  | Ambiguous (text : String)
  | Unsupported (text : String)
  | Failed (text : String)
deriving DecidableEq, Repr

def DirectoryError.display : DirectoryError → String
  | .NotFound text | .Ambiguous text | .Unsupported text | .Failed text => text

/-- The key that was pinned, for a changed-key question. -/
structure PinnedSummary where
  fingerprint : String
  pinnedAtMs : Nat
deriving DecidableEq, Repr

/-- A host key for the person to confirm. -/
structure HostKeyQuestion where
  aliasName : String
  hostname : String
  port : Nat
  algorithm : String
  fingerprint : String
  /-- `none` for a key that has not been seen; for a changed key, the one that is pinned. -/
  changed : Option PinnedSummary
deriving DecidableEq, Repr

/-- A vault key as the broker sees it. -/
structure VaultKey where
  name : String
  publicKey : String
deriving DecidableEq, Repr

/-- Private keys and public key lines, as `vault/material.rs` and the key crates read them. -/
structure KeyMaterial (KeyData Material : Type) extends Agent.KeyParsing KeyData Material where
  /-- The public half of a private key text, readable while it is encrypted. -/
  publicHalf : (text : String) → Option KeyData
  /-- Whether the key of a line the engine can use is an RSA key. -/
  isRsa : (line : String) → Option Bool

/-- Everything outside a connect.  `gone` says whether the session's owner has gone away by now. -/
structure World (σ : Type) where
  tcp : Hop → σ → TcpEnd × σ
  tunnel : Hop → HopRef → σ → TunnelEnd × σ
  /-- The key the server presents; `none` for a certificate, an unreadable key or none at all. -/
  presents : Hop → σ → Option HostKey × σ
  /-- How the handshake ends after the engine has said whether it trusts the key. -/
  shakes : Hop → Bool → σ → HandshakeEnd × σ
  /-- russh completes no handshake with a key that `check_server_key` turned down or never saw. -/
  shakes_distrusted : ∀ hop world, (shakes hop false world).1 ≠ .Connected
  /-- The banners that have arrived since the last look. -/
  banners : Hop → σ → List String × σ
  rsaSupport : Hop → σ → RsaSupport × σ
  offered : Hop → (line : String) → Option RsaHash → σ → KeyOffer × σ
  signed : Hop → (blob : Bytes) → σ → LoginAnswer × σ
  triedPassword : Hop → (password : String) → σ → LoginAnswer × σ
  converses : Hop → σ → Conversation × σ
  triedNone : Hop → σ → LoginAnswer × σ
  emptyAnswer : Hop → σ → EmptyAnswer × σ
  ask : HopRef → QuestionKind → (text : String) → (echo : Bool) → σ → Reply × σ
  /-- Whether the answers to a round of prompts came after the deadline. -/
  overdue : σ → Bool × σ
  hostKeyNotice : (text : String) → σ → Unit × σ
  banner : (text : String) → σ → Unit × σ
  confirm : HostKeyQuestion → σ → Option String × σ
  keychainGet : (account : String) → σ → Except String (Option String) × σ
  keychainDelete : (account : String) → σ → Except String Unit × σ
  key : (keyId : String) → σ → Option VaultKey × σ
  privateText : (keyId : String) → σ → Except String (Option String) × σ
  resolve : σ → Except DirectoryError Target × σ
  pinnedFor : HopRef → σ → Except DirectoryError (Option PinnedKey) × σ
  pinConfirmed : HopRef → (previous : Option HostKey) → HostKey → σ → Except DirectoryError Unit × σ
  passwordAccount : (id : String) → String
  gone : σ → Bool

/-! ## What a connect keeps -/

/-- What is sent to a server to log in. -/
inductive Credential where
  | Password (password : String)
  | Signature (keyId line : String) (hash : Option RsaHash) (data blob : Bytes)
  | Answers (answers : List String)
deriving DecidableEq, Repr

inductive Event where
  /-- The saved host was resolved. -/
  | Resolved (target : Target)
  /-- The directory's record of a pin was read. -/
  | Recorded (hop : HopRef) (record : PinnedKey)
  /-- A saved password was read. -/
  | Saved (account password : String)
  | Connecting (target : Target)
  | Dialing (hop : HopRef)
  | Checked (hop : HopRef) (key : HostKey) (verdict : HostKeyVerdict)
  | Sent (hop : HopRef) (credential : Credential)
  | Asked (hop : HopRef) (kind : QuestionKind) (text : String) (echo : Bool) (reply : Reply)
  | Noticed (text : String)
  /-- A banner that had arrived when the engine looked. -/
  | Arrived (hop : HopRef) (text : String)
  | Bannered (text : String)
  | Confirmed (hop : HopRef) (question : HostKeyQuestion) (trusted : Option String)
  | Pinned (hop : HopRef) (previous : Option HostKey) (key : HostKey) (written : Bool)
  | Opened (target : Target)
  | Closed
  /-- The owner of the session went away. -/
  | Left
deriving DecidableEq, Repr

/-- Where the last password given for a hop came from. -/
inductive PasswordSource where
  | Keychain
  | Typed
deriving DecidableEq, Repr

/-- The host key policy of one connect: the pins of its hops, plus the keys the person trusts while it runs. -/
structure PinPolicy where
  pins : BTreeMap HostKey := ∅

/-- The auth source of one connect. -/
structure BrokerAuth (Material : Type) where
  /-- Keys opened for this connect, with their public key lines. -/
  opened : BTreeMap (Material × String) := ∅
  /-- Passwords the person typed, by hop. -/
  typed : BTreeMap String := ∅
  /-- Hops whose prompt ended without an answer. -/
  cancelled : List String := []
  /-- Where the last password given for each hop came from. -/
  gave : BTreeMap PasswordSource := ∅
  /-- The hops of the target being connected that start with the password method. -/
  passwordFirst : List String := []

/-- The banner text of one hop's login. -/
structure Banners where
  /-- Arrived and not delivered. -/
  pending : String := ""
  /-- Bytes of the server's text accepted so far, delivered or not. -/
  accepted : Nat := 0
  /-- The accepted text ends in the middle of a line. -/
  lineOpen : Bool := false
  /-- The cap was reached. -/
  capped : Bool := false
deriving DecidableEq, Repr

structure Run (σ Material : Type) where
  world : σ
  /-- The cancel token. -/
  cancelled : Bool := false
  log : List Event := []
  policy : PinPolicy := {}
  auth : BrokerAuth Material := {}
  /-- The banners of the hop that is being logged in to. -/
  banners : Banners := {}

section Steps

variable {σ Material ε α : Type}

/-- The beginning of a connect, whose owner may have gone away before it. -/
def Run.start (world : σ) (gone : Bool) : Run σ Material :=
  { world, cancelled := gone, log := if gone then [.Left] else [] }

/-- The run with the world as it is now; the token is set once its owner has gone away. -/
def Run.moved (W : World σ) (run : Run σ Material) (world : σ) : Run σ Material :=
  if W.gone world && !run.cancelled then { run with world, cancelled := true, log := .Left :: run.log }
  else { run with world }

/-- Leaves something to the world, and notes what it answered. -/
def World.act (W : World σ) (answer : σ → α × σ) (note : α → List Event := fun _ => []) :
    Call ε (Run σ Material) α :=
  fun run =>
    (.ok (answer run.world).1,
      { run with log := note (answer run.world).1 ++ run.log }.moved W (answer run.world).2)

def tell (event : Event) : Call ε (Run σ Material) Unit :=
  fun run => (.ok (), { run with log := event :: run.log })

/-- A change of the auth source. -/
def BrokerAuth.change (change : BrokerAuth Material → BrokerAuth Material) : Call ε (Run σ Material) Unit :=
  fun run => (.ok (), { run with auth := change run.auth })

def read (view : Run σ Material → α) : Call ε (Run σ Material) α :=
  fun run => (.ok (view run), run)

end Steps

end Sshelter.Session
