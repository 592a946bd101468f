import Sshelter.Session.Auth

/-! # The engine: connecting a chain of hops

`ssh/russh_engine.rs`: every hop is reached, shows its host key and is logged in to before the next one is
reached through it.  The russh library and the server behind it are the world's answers; what the engine
relies on is that russh completes no handshake with a key it does not trust.
-/

namespace Sshelter.Session

open Ssh
open Wire (Bytes)

variable {σ KeyData Material ε α : Type}

/-! ## Banners -/

/-- The most banner text kept for one hop's connection. -/
def MAX_BANNER_BYTES : Nat := 64 * 1024

/-- The line that ends the banner text when the server sent more. -/
def BANNER_CUT_NOTICE : String := "[Lunport: the rest of the server's banner was dropped.]\n"

/-- The characters at the front that fit in so many bytes. -/
def fitting : (room : Nat) → List Char → List Char
  | _, [] => []
  | room, c :: rest => if c.utf8Size ≤ room then c :: fitting (room - c.utf8Size) rest else []

namespace Banners

def push (self : Banners) (text : String) : Banners :=
  if self.capped then self
  else
    let room := MAX_BANNER_BYTES - self.accepted
    let kept := if text.utf8ByteSize ≤ room then text else String.ofList (fitting room text.toList)
    let lineOpen := (kept.toList.getLast?.map (· != '\n')).getD self.lineOpen
    let pending := self.pending ++ kept
    let accepted := self.accepted + kept.utf8ByteSize
    if kept.utf8ByteSize < text.utf8ByteSize then
      { pending := (if lineOpen then pending ++ "\n" else pending) ++ BANNER_CUT_NOTICE
        accepted, lineOpen, capped := true }
    else { self with pending, accepted, lineOpen }

/-- What arrived since the last call, if anything. -/
def take (self : Banners) : Option String × Banners :=
  if self.pending.isEmpty then (none, self) else (some self.pending, { self with pending := "" })

end Banners

namespace RusshEngine

variable (W : World σ)

/-- Keeps the banners that have arrived, and takes what is pending. -/
def takeBanners (arrived : List String) : Call ε (Run σ Material) (Option String) :=
  fun run => (.ok (arrived.foldl Banners.push run.banners).take.1,
    { run with banners := (arrived.foldl Banners.push run.banners).take.2 })

def deliverBanners (hop : Hop) : Call ε (Run σ Material) Unit := do
  let arrived ← W.act (W.banners hop) fun arrived => (arrived.map (Event.Arrived hop.reference)).reverse
  match ← takeBanners arrived with
  | some text => BrokerAuth.banner W text
  | none => return

/-! ## Reaching a hop -/

/-- Why the jump host could not give us a connection. -/
def tunnelError (hop via : HopRef) : TunnelEnd → Option ConnectError
  | .Connected => none
  | .ConnectFailed => some (.Unreachable hop (via.aliasName ++ " could not connect to it"))
  | .AdministrativelyProhibited => some (.Unreachable hop (via.aliasName ++ " does not allow forwarding"))
  | .Refused why => some (.Unreachable hop (via.aliasName ++ " refused to open the connection (" ++ why ++ ")"))
  | .Lost => some (.Unreachable hop ("the connection to " ++ via.aliasName ++ " was lost"))
  | .TimedOut => some (.Timeout hop .Tcp)

def tcpError (hop : HopRef) : TcpEnd → Option ConnectError
  | .Connected => none
  | .Failed reason => some (.Unreachable hop reason)
  | .TimedOut => some (.Timeout hop .Tcp)

def handshakeError (hop : HopRef) (observed : Option (HostKey × HostKeyVerdict)) : HandshakeEnd → Option ConnectError
  | .Connected => none
  | .UnknownKey =>
    match observed with
    | some (key, .Unknown) => some (.HostKeyUnknown hop key)
    | some (key, .Mismatch pinned) => some (.HostKeyMismatch hop key pinned)
    | some (_, .Pinned) | none => some (.Protocol hop "the server's host key was rejected")
  | .NoCommonKeyAlgorithm ours theirs => some (.NoCommonHostKeyAlgorithm hop ours theirs)
  | .Io reason => some (.Unreachable hop reason)
  | .Closed => some (.Unreachable hop "the connection was closed during the handshake")
  | .Other text => some (.Protocol hop text)
  | .TimedOut => some (.Timeout hop .Handshake)

/-- The policy judges the key the server presents. -/
def checkServerKey (hop : Hop) : Call ε (Run σ Material) (Option (HostKey × HostKeyVerdict)) := do
  match ← W.act (W.presents hop) with
  | none => return none
  | some key =>
    let verdict ← read fun run => run.policy.check hop.reference key
    tell (.Checked hop.reference key verdict)
    return some (key, verdict)

def orThrow : Option ε → Call ε (Run σ Material) Unit
  | none => return
  | some error => throw error

def handshake (hop : Hop) : Call ConnectError (Run σ Material) Unit := do
  let observed ← checkServerKey W hop
  let trusted := observed.any fun observed => observed.2 = .Pinned
  let ended ← W.act (W.shakes hop trusted)
  orThrow (handshakeError hop.reference observed ended)

/-- Over TCP for the first hop, through the hop in front for every later one. -/
def reach (hop : Hop) : (via : Option HopRef) → Call ConnectError (Run σ Material) Unit
  | none => do orThrow (tcpError hop.reference (← W.act (W.tcp hop)))
  | some via => do orThrow (tunnelError hop.reference via (← W.act (W.tunnel hop via)))

/-- A new connection, with banners of its own. -/
def dial (hop : Hop) : Call ε (Run σ Material) Unit :=
  fun run => (.ok (), { run with banners := {}, log := .Dialing hop.reference :: run.log })

def connectHop (hop : Hop) (via : Option HopRef) : Call ConnectError (Run σ Material) Unit := do
  dial hop
  reach W hop via
  handshake W hop

/-! ## Logging in -/

/-- Where a login stands: the methods that were attempted, what those that were skipped had to say, the
methods the server still takes, and the password that was asked for before the hop was connected. -/
structure Login where
  tried : List AuthMethod := []
  reasons : List String := []
  offered : Option (List MethodKind) := none
  prefetched : Option (Option String) := none

/-- What one step of the login came to, when it did not fail. -/
inductive Step where
  | LoggedIn
  | Refused (remaining : List MethodKind)
  | Skipped

def methodKind : AuthMethod → MethodKind
  | .Key _ => .PublicKey
  | .Password => .Password
  | .Interactive => .KeyboardInteractive

def abandoned (hop : Hop) (reason : String) : ConnectError := .AuthAbandoned hop.reference reason

def timedOut (hop : Hop) : ConnectError := .Timeout hop.reference .Auth

def lostDuringLogin (hop : Hop) : ConnectError :=
  .Unreachable hop.reference "the connection was lost during login"

def noLoginMethod (hop : Hop) (login : Login) : ConnectError :=
  .AuthFailed hop.reference login.tried (" ".intercalate (login.reasons ++ ["The server offers no login method."])) false

/-- Settles a refusal that names no method to go on with. -/
def afterEmptyRefusal (hop : Hop) (login : Login) (remaining : List MethodKind) :
    Call ConnectError (Run σ Material) (List MethodKind) := do
  match ← W.act (W.emptyAnswer hop) with
  | .NoLoginMethod => throw (noLoginMethod hop login)
  | .Lost => throw (lostDuringLogin hop)
  | .Refusal => return remaining

def settle (hop : Hop) (login : Login) : LoginAnswer → Call ConnectError (Run σ Material) Step
  | .Success => return .LoggedIn
  | .TimedOut => throw (timedOut hop)
  | .Lost => throw (lostDuringLogin hop)
  | .Refused remaining =>
    if remaining.isEmpty then do return .Refused (← afterEmptyRefusal W hop login remaining)
    else return .Refused remaining

inductive RsaChoice where
  | Use (hash : RsaHash)
  | Sha1Only

def chooseRsaHash : Option (Option RsaHash) → RsaChoice
  | some (some hash) => .Use hash
  | some none => .Sha1Only
  | none => .Use .Sha256

section Key
variable (K : KeyMaterial KeyData Material)

/-- russh's signer: an RSA key signs with SHA-2 only.  Every other key signs without a hash. -/
def authSign (hop : Hop) (keyId line : String) (isRsa : Bool) (hash : Option RsaHash) (data : Bytes) :
    Call ConnectError (Run σ Material) Bytes :=
  if isRsa && hash.isNone then throw (abandoned hop "an RSA signature with SHA-1 was asked for")
  else do
    let rsaHash := if isRsa then hash else none
    match ← read fun run => run.auth.sign K keyId data rsaHash with
    | .error why => throw (abandoned hop why)
    | .ok blob =>
      tell (.Sent hop.reference (.Signature keyId line rsaHash data blob))
      return blob

def offerKey (hop : Hop) (login : Login) (keyId line : String) (isRsa : Bool) (hash : Option RsaHash) :
    Call ConnectError (Run σ Material) Step := do
  match ← W.act (W.offered hop line hash) with
  | .Answered answer => settle W hop login answer
  | .Sign hash data =>
    let blob ← authSign K hop keyId line isRsa hash data
    settle W hop login (← W.act (W.signed hop blob))

/-- The hash for an RSA key; `none` when the server takes only SHA-1. -/
def rsaHash (hop : Hop) : Call ConnectError (Run σ Material) RsaChoice := do
  match ← W.act (W.rsaSupport hop) with
  | .TimedOut => throw (timedOut hop)
  | .Lost => throw (lostDuringLogin hop)
  | .Best best => return chooseRsaHash best

def Login.skip (login : Login) (reason : String) : Login := { login with reasons := login.reasons ++ [reason] }

def Login.try (login : Login) (method : AuthMethod) : Login := { login with tried := login.tried ++ [method] }

def tryKey (hop : Hop) (keyId : String) (login : Login) : Call ConnectError (Run σ Material) (Step × Login) := do
  match ← read fun run => run.auth.publicKey keyId with
  | none => return (.Skipped, login.skip ("The key " ++ keyId ++ " is not available on this computer."))
  | some line =>
    match K.isRsa line with
    | none => return (.Skipped, login.skip ("The key " ++ keyId ++ " is not a public key Lunport can use."))
    | some false =>
      return (← offerKey W K hop (login.try (.Key keyId)) keyId line false none, login.try (.Key keyId))
    | some true =>
      match ← rsaHash W hop with
      | .Sha1Only =>
        return (.Skipped, (login.try (.Key keyId)).skip
          "The server accepts RSA keys only with SHA-1 signatures, which Lunport does not make.")
      | .Use hash =>
        return (← offerKey W K hop (login.try (.Key keyId)) keyId line true (some hash), login.try (.Key keyId))

end Key

/-- The password that was asked for before the connection, else the one the auth source has. -/
def passwordFor (hop : Hop) : Option (Option String) → Call ConnectError (Run σ Material) (Option String)
  | some prefetched => return prefetched
  | none => BrokerAuth.password W hop.reference

def tryPassword (hop : Hop) (login : Login) : Call ConnectError (Run σ Material) (Step × Login) := do
  let given ← passwordFor W hop login.prefetched
  let login := { login with prefetched := none }
  match given with
  | none => return (.Skipped, login.skip "No password was given.")
  | some password =>
    tell (.Sent hop.reference (.Password password))
    let answer ← W.act (W.triedPassword hop password)
    return (← settle W hop (login.try .Password) answer, login.try .Password)

/-- The answers to one round of prompts; a round without prompts is answered at once. -/
def answerRound (hop : Hop) (prompts : List Prompt) : Call ConnectError (Run σ Material) (List String) := do
  if prompts.isEmpty then return []
  else
    deliverBanners W hop
    match ← BrokerAuth.interactive W hop.reference prompts with
    | none => throw (abandoned hop "the prompt was cancelled")
    | some answers =>
      if ← W.act W.overdue then throw (abandoned hop "the prompt was answered after its deadline")
      else if answers.length ≠ prompts.length then throw (abandoned hop "the answers do not match the prompts")
      else return answers

def converse (hop : Hop) : Conversation → Call ConnectError (Run σ Material) Step
  | .Success => return .LoggedIn
  | .Failure remaining => return .Refused remaining
  | .TimedOut => throw (timedOut hop)
  | .Lost => throw (lostDuringLogin hop)
  | .InfoRequest prompts respond => do
    let answers ← answerRound W hop prompts
    tell (.Sent hop.reference (.Answers answers))
    converse hop (respond answers)

def tryInteractive (hop : Hop) (login : Login) : Call ConnectError (Run σ Material) (Step × Login) := do
  let conversation ← W.act (W.converses hop)
  return (← converse W hop conversation, login.try .Interactive)

variable (K : KeyMaterial KeyData Material)

def tryMethod (hop : Hop) (login : Login) : AuthMethod → Call ConnectError (Run σ Material) (Step × Login)
  | .Key keyId => tryKey W K hop keyId login
  | .Password => tryPassword W hop login
  | .Interactive => tryInteractive W hop login

def authFailed (hop : Hop) (login : Login) : ConnectError :=
  .AuthFailed hop.reference login.tried (" ".intercalate login.reasons)
    (login.offered.any (·.contains .Password) && !login.tried.contains .Password)

/-- Asks a server that has not been asked anything what it offers. -/
def askOffered (hop : Hop) (login : Login) : Call ConnectError (Run σ Material) Step := do
  settle W hop login (← W.act (W.triedNone hop))

/-- A method that was skipped before the server was asked anything asks for its methods. -/
def afterSkip (hop : Hop) (login : Login) : Step → Call ConnectError (Run σ Material) Step
  | .Skipped => if login.offered.isNone then askOffered W hop login else return .Skipped
  | step => return step

def authenticateWith (hop : Hop) : List AuthMethod → Login → Call ConnectError (Run σ Material) Unit
  | [], login => throw (authFailed hop login)
  | method :: rest, login =>
    if login.offered.any fun offered => !offered.contains (methodKind method) then authenticateWith hop rest login
    else do
      deliverBanners W hop
      let (step, login) ← tryMethod W K hop login method
      match ← afterSkip W hop login step with
      | .LoggedIn => return
      | .Refused remaining => authenticateWith hop rest { login with offered := some remaining }
      | .Skipped => authenticateWith hop rest login

/-- The methods are tried in order, each only if the server still offers it. -/
def authenticate (hop : Hop) (prefetched : Option (Option String)) : Call ConnectError (Run σ Material) Unit :=
  authenticateWith W K hop hop.authSequence { prefetched }

/-! ## The chain -/

/-- A hop that starts with the password method asks for it before anything is connected. -/
def prefetch (hop : Hop) : Call ConnectError (Run σ Material) (Option (Option String)) :=
  if hop.auth = .Password then do return some (← BrokerAuth.password W hop.reference) else return none

def connectOne (hop : Hop) (via : Option HopRef) : Call ConnectError (Run σ Material) Unit := do
  let prefetched ← prefetch W hop
  connectHop W hop via
  let login ← (authenticate W K hop prefetched).attempt
  deliverBanners W hop
  .of login

def connectHops : (via : Option HopRef) → List Hop → Call ConnectError (Run σ Material) Unit
  | _, [] => return
  | via, hop :: rest => do
    connectOne W K hop via
    connectHops (some hop.reference) rest

/-- The first host that is listed after itself. -/
def listedTwice : (earlier : List String) → List Hop → Option Hop
  | _, [] => none
  | earlier, hop :: rest => if hop.id ∈ earlier then some hop else listedTwice (earlier ++ [hop.id]) rest

/-- A chain needs at least one hop and may not list a host twice. -/
def checkChain (target : Target) : Option ConnectError :=
  if target.hops.isEmpty then some (.BadJumpChain "the target has no hosts")
  else (listedTwice [] target.hops).map fun hop => .BadJumpChain (hop.aliasName ++ " appears twice")

def connect (target : Target) : Call ConnectError (Run σ Material) Unit := do
  orThrow (checkChain target)
  connectHops W K none target.hops

end RusshEngine

end Sshelter.Session
