import Sshelter.Ssh.RusshEngine

/-! # Opening a session

`session/connect.rs`: the broker's connect loop around the engine.  The engine fails fast where a person
must decide; the broker asks and connects again with what it learned.
-/

namespace Sshelter.Session

open Ssh

variable {σ KeyData Material ε : Type}

/-- How many passwords the person may type for one host in one connect. -/
def PASSWORD_PROMPTS : Nat := 3

/-- What one host can ask of a connect, in connects. -/
def ROUNDS_PER_HOP : Nat := 1 + 1 + 1 + PASSWORD_PROMPTS

/-- How many times a connect through the target may go round. -/
def roundLimit (target : Target) : Nat := target.hops.length * ROUNDS_PER_HOP + 1

/-! ## Failures -/

/-- The `kind` words of the error event. -/
inductive FailureKind where
  | Host
  | HostKey
  | Auth
  | Connect
  | Cancelled
deriving DecidableEq, Repr

/-- Why no session was opened. -/
structure ConnectFailure where
  kind : FailureKind
  text : String
deriving DecidableEq, Repr

namespace ConnectFailure

/-- Every failure is made here, so its text is printable. -/
def new (kind : FailureKind) (text : String) : ConnectFailure := { kind, text := printable text }

def cancelled : ConnectFailure := new .Cancelled "The connection was cancelled."

end ConnectFailure

/-- The hop an error is about; `none` for an error about the whole chain. -/
def hopOf : ConnectError → Option HopRef
  | .BadJumpChain _ => none
  | .Unreachable hop _ | .Timeout hop _ | .HostKeyUnknown hop _ | .HostKeyMismatch hop _ _
  | .NoCommonHostKeyAlgorithm hop _ _ | .AuthFailed hop _ _ _ | .AuthAbandoned hop _ | .Protocol hop _ => some hop

/-- A failure on a jump host is said through it. -/
def failureAt (hop : Option HopRef) (target : Target) (kind : FailureKind) (reason : String) : ConnectFailure :=
  match hop with
  | some hop =>
    if some hop.id = target.hops.getLast?.map (·.id) then .new kind reason
    else .new kind ("Could not connect through " ++ hop.aliasName ++ ": " ++ reason)
  | none => .new kind reason

def failureKind : ConnectError → FailureKind
  | .HostKeyUnknown _ _ | .HostKeyMismatch _ _ _ => .HostKey
  | .AuthFailed _ _ _ _ | .AuthAbandoned _ _ => .Auth
  | _ => .Connect

/-- The failure the user sees for an engine error. -/
def failureOf (error : ConnectError) (target : Target) : ConnectFailure :=
  failureAt (hopOf error) target (failureKind error) error.display

def passwordAbandoned (hop : HopRef) (target : Target) : ConnectFailure :=
  failureOf (.AuthAbandoned hop "the password was not given") target

def directoryFailure (error : DirectoryError) : ConnectFailure := .new .Host error.display

def gaveUp (target : Target) : ConnectFailure :=
  .new .Connect ("Lunport gave up connecting to " ++ (target.hops.getLast?.map (·.aliasName)).getD "" ++
    " after too many attempts.")

/-! ## The loop -/

/-- What a connect has done for each host so far, for the things it does only so often. -/
structure Done where
  askedHostKey : List String := []
  unrestricted : List String := []
  passwordsTyped : BTreeMap Nat := ∅

/-- The key of the host has been asked about. -/
def Done.ask (done : Done) (id : String) : Done := { done with askedHostKey := id :: done.askedHostKey }

/-- So many passwords have been asked for. -/
def Done.type (done : Done) (id : String) (typed : Nat) : Done :=
  { done with passwordsTyped := done.passwordsTyped.insert id typed }

/-- The first hop of that id, changed. -/
def updateHop (id : String) (change : Hop → Hop) : List Hop → List Hop
  | [] => []
  | hop :: rest => if hop.id = id then change hop :: rest else hop :: updateHop id change rest

/-- What one pass of the loop came to. -/
inductive Round where
  | Opened
  | Again (target : Target) (done : Done)

namespace Connector

variable (W : World σ)

def fail {α : Type} (failure : ConnectFailure) : Call ConnectFailure (Run σ Material) α := throw failure

/-- Nothing more is done for an owner who went away. -/
def unlessCancelled : Call ConnectFailure (Run σ Material) Unit := do
  if ← read fun run => run.cancelled then throw .cancelled else return

/-- The directory's record of the pin of a hop. -/
def pinnedFor (target : Target) (hop : HopRef) : Call ConnectFailure (Run σ Material) (Option PinnedKey) := do
  match ← W.act (W.pinnedFor hop) fun found => (found.toOption.join.map (Event.Recorded hop)).toList with
  | .error error => throw (failureAt (some hop) target .Host error.display)
  | .ok found => return found

/-- The pinned key as the question about a changed key shows it. -/
def pinnedSummary (target : Target) (hop : HopRef) (pinned : HostKey) :
    Call ConnectFailure (Run σ Material) PinnedSummary := do
  match (← pinnedFor W target hop).filter (·.key.fingerprint = pinned.fingerprint) with
  | some record => return { fingerprint := pinned.fingerprint, pinnedAtMs := record.pinnedAtMs }
  | none =>
    throw (failureAt (some hop) target .Host
      ("Lunport's record of " ++ hop.aliasName ++ "'s host key changed while it was connecting. Connect again."))

/-- The question's part about a changed key. -/
def changedSummary (target : Target) (hop : HopRef) :
    Option HostKey → Call ConnectFailure (Run σ Material) (Option PinnedSummary)
  | none => return none
  | some pinned => do return some (← pinnedSummary W target hop pinned)

def setPin (id : String) (key : HostKey) : Call ε (Run σ Material) Unit :=
  fun run => (.ok (), { run with policy := run.policy.pin id key })

/-- A pin is taken into the policy and into the target. -/
def takePin (target : Target) (done : Done) (hop : HopRef) (key : HostKey) : Call ε (Run σ Material) Round := do
  setPin hop.id key
  return .Again { hops := updateHop hop.id (fun hop => { hop with pinned := some key }) target.hops } done

def hostKeyQuestion (hop : HopRef) (key : HostKey) (changed : Option PinnedSummary) : HostKeyQuestion :=
  { aliasName := hop.aliasName, hostname := hop.hostname, port := hop.port
    algorithm := key.algorithm, fingerprint := key.fingerprint, changed }

def refused (hop : HopRef) (key : HostKey) : Option HostKey → ConnectError
  | none => .HostKeyUnknown hop key
  | some pinned => .HostKeyMismatch hop key pinned

/-- Asks the window about a key, and pins it when the person trusts exactly this key. -/
def askWindow (target : Target) (done : Done) (hop : HopRef) (key : HostKey) (pinned : Option HostKey) :
    Call ConnectFailure (Run σ Material) Round := do
  if hop.id ∈ done.askedHostKey then
    fail (failureAt (some hop) target .HostKey
      ("The host key of " ++ hop.aliasName ++ " kept changing while Lunport was connecting. Connection refused."))
  else
    let done := done.ask hop.id
    let changed ← changedSummary W target hop pinned
    unlessCancelled
    let notice := "Waiting for you to confirm " ++ label hop.aliasName ++ "'s host key in Lunport."
    W.act (W.hostKeyNotice notice) fun _ => [.Noticed notice]
    let question := hostKeyQuestion hop key changed
    let trusted ← W.act (W.confirm question) fun trusted => [.Confirmed hop question trusted]
    unlessCancelled
    if trusted = some key.fingerprint then
      match ← W.act (W.pinConfirmed hop pinned key) fun written => [.Pinned hop pinned key written.toOption.isSome] with
      | .error error => fail (failureAt (some hop) target .HostKey error.display)
      | .ok () => takePin target done hop key
    else fail (failureOf (refused hop key pinned) target)

/-- A key that the policy has no pin for may have been pinned by another connection meanwhile. -/
def confirm (target : Target) (done : Done) (hop : HopRef) (key : HostKey) :
    (pinned : Option HostKey) → Call ConnectFailure (Run σ Material) Round
  | some pinned => askWindow W target done hop key (some pinned)
  | none => do
    match ← pinnedFor W target hop with
    | some record => takePin target done hop record.key
    | none => askWindow W target done hop key none

/-- Once more without the restriction to the pinned key type. -/
def unrestrict (target : Target) (done : Done) (hop : HopRef) : Round :=
  .Again { hops := updateHop hop.id (fun hop => { hop with pinned := none }) target.hops }
    { done with unrestricted := hop.id :: done.unrestricted }

/-- The question for a password, after one that was refused or none. -/
def retryQuestion (hop : HopRef) (refused : Bool) : String :=
  if refused then "That password didn't work. " ++ passwordQuestion hop else passwordQuestion hop

/-- A hop whose methods have no password goes password first. -/
def passwordFirst (hop : Hop) : Hop :=
  if hop.authSequence.contains .Password then hop else { hop with auth := .Password }

/-- The person is asked for a password between two connects. -/
def retype (target : Target) (done : Done) (hop : HopRef) (typed : Nat) (refused : Bool) :
    Call ConnectFailure (Run σ Material) Round := do
  BrokerAuth.forgetTyped hop.id
  let done := done.type hop.id (typed + 1)
  match ← askAt W hop .Password (retryQuestion hop refused) false with
  | .Answer password =>
    BrokerAuth.setTyped hop.id password
    return .Again { hops := updateHop hop.id passwordFirst target.hops } done
  | .Cancelled | .TimedOut => throw (passwordAbandoned hop target)
  | .Gone => throw .cancelled

/-- The passwords the person has been asked for; the first one may have been asked before the connect. -/
def passwordsTyped (done : Done) (source : Option PasswordSource) (id : String) : Nat :=
  done.passwordsTyped[id]?.getD (if source = some .Typed then 1 else 0)

def passwordFailed (target : Target) (done : Done) (hop : HopRef) (tried : List AuthMethod) (reason : String)
    (passwordWanted : Bool) : Call ConnectFailure (Run σ Material) Round := do
  let source ← read fun run => run.auth.passwordSource hop.id
  let refused := tried.contains .Password && source.isSome
  let typed := passwordsTyped done source hop.id
  let known := target.hops.any (·.id = hop.id)
  if (!(passwordWanted || refused)) || PASSWORD_PROMPTS ≤ typed || !known then
    fail (failureOf (.AuthFailed hop tried reason passwordWanted) target)
  else retype W target done hop typed refused

/-- What the broker does about an error of the engine. -/
def answer (target : Target) (done : Done) (error : ConnectError) : Call ConnectFailure (Run σ Material) Round := do
  let unanswered ← read fun run => (hopOf error).any fun hop => run.auth.isCancelled hop.id
  match error with
  | .HostKeyUnknown hop key =>
    if unanswered then fail (passwordAbandoned hop target) else confirm W target done hop key none
  | .HostKeyMismatch hop key pinned =>
    if unanswered then fail (passwordAbandoned hop target) else confirm W target done hop key (some pinned)
  | .NoCommonHostKeyAlgorithm hop ours theirs =>
    if unanswered then fail (passwordAbandoned hop target)
    else if (← read fun run => (run.policy.pinned hop.id).isSome) && !done.unrestricted.contains hop.id then
      return unrestrict target done hop
    else fail (failureOf (.NoCommonHostKeyAlgorithm hop ours theirs) target)
  | .AuthFailed hop tried reason passwordWanted =>
    if unanswered then fail (passwordAbandoned hop target)
    else passwordFailed W target done hop tried reason passwordWanted
  | error => fail (failureOf error target)

variable (K : KeyMaterial KeyData Material)

/-- One connect of the engine, and what follows from it. -/
def round (target : Target) (done : Done) : Call ConnectFailure (Run σ Material) Round := do
  unlessCancelled
  BrokerAuth.prepare target
  tell (.Connecting target)
  match ← (RusshEngine.connect W K target).attempt with
  | .ok () =>
    tell (.Opened target)
    return .Opened
  | .error error => answer W target done error

/-- Connects until a pass is the last one. -/
def rounds : Nat → Target → Done → Call ConnectFailure (Run σ Material) Target
  | 0, target, _ => throw (gaveUp target)
  | left + 1, target, done => do
    match ← round W K target done with
    | .Opened => return target
    | .Again target done => rounds left target done

def resolve : Call ConnectFailure (Run σ Material) Target := do
  match ← W.act W.resolve fun found => (found.toOption.map Event.Resolved).toList with
  | .error error => throw (directoryFailure error)
  | .ok target => return target

variable [DecidableEq KeyData]

def unlock (target : Target) : Call ConnectFailure (Run σ Material) Unit := do
  match ← (BrokerAuth.unlock W K target).attempt with
  | .ok () => return
  | .error text => throw (.new .Auth text)

def startPolicy (target : Target) : Call ε (Run σ Material) Unit :=
  fun run => (.ok (), { run with policy := .fromTarget target })

/-- The connect with the bound on the rounds given. -/
def connectWithin (limit : Target → Nat) : Call ConnectFailure (Run σ Material) Target := do
  unlessCancelled
  let target ← resolve W
  unlock W K target
  startPolicy target
  rounds W K (limit target) target {}

/-- A session that did open is closed. -/
def closeOpened : Except ConnectFailure Target → Call ε (Run σ Material) Unit
  | .ok _ => tell .Closed
  | .error _ => return

/-- Opens a session.  Once the owner has gone away the connect is over, and a session that did open is closed. -/
def connect : Call ConnectFailure (Run σ Material) Target := do
  let result ← (connectWithin W K roundLimit).attempt
  if ← read fun run => run.cancelled then
    closeOpened result
    throw .cancelled
  else .of result

/-- A connect from its beginning. -/
def connectFrom (world : σ) (gone : Bool) : Except ConnectFailure Target × Run σ Material :=
  Call.outcome (connect W K) (.start world gone)

end Connector

end Sshelter.Session
