import Sshelter.Agent.Session
import Sshelter.Agent.Approval

/-! # The broker: who may sign

`agent/broker.rs`.  A `sign` call runs on a thread of its own and shares three locked
maps with every other call: the remembered approvals, the unlocked keys and the
requests being asked about.  Between two locks it calls the host (keys, settings,
clock, vault, keychain, prompts), and anything may happen there.  So a call is a
`Phase`, the place it has reached in the source, and one step runs from one lock or
host call to the next.  The clock and the settings are part of the world and change
under the calls; every other host call is answered by the `Reply` of the step.

A history, newest first, which no code reads, holds what the host said and what the calls
did: the world notes the clock, the settings and the replies, and a step of a call what
it did with them.
-/

namespace Sshelter.Agent

open Wire (Bytes)

/-! ## Keys and prompts -/

inductive OpenError where
  | NeedsPassphrase
  | WrongPassphrase
  | UnsupportedCipher (name : String)
  | Unreadable
deriving DecidableEq, Repr

/-- Key parsing and signing (`vault/material.rs`, over the `ssh-key` and `rsa` crates). -/
structure KeyParsing (KeyData Material : Type) where
  publicKeyData : String → Option KeyData
  agentCanSign : KeyData → Bool
  fingerprint : KeyData → String
  openKey : (text : String) → (passphrase : Option String) → Except OpenError Material
  keyData : Material → KeyData
  sign : Material → (data : Bytes) → (flags : UInt32) → Except String Bytes

def passphraseAttempts : Nat := 3
def wrongPassphrase : String := "That passphrase didn't work."

/-- A key that is only in Lunport on this device. -/
structure VaultKey where
  slotId : String
  name : String
  fingerprint : String
  publicKey : String
  hasPassphrase : Bool
deriving DecidableEq, Repr

/-- The program that sent a request: the names shown, and its identity for remembering. -/
structure Program where
  chain : List String
  identity : String
deriving DecidableEq, Repr

/-- A one-time channel made by Connect: it offers this slot, already approved. -/
structure Grant where
  slotId : String
deriving DecidableEq, Repr

/-- What the approval window shows. -/
structure AgentApprovalRequest where
  id : String
  keyName : String
  keyFingerprint : String
  programChain : List String
  user : Option String
  host : Option String
  hostFingerprint : Option String
  rememberable : Bool
  rememberMinutes : Nat
  needsPassphrase : Bool
  passphraseError : Option String
  /-- Already approved: the window only asks for the passphrase. -/
  preapproved : Bool
deriving DecidableEq, Repr

/-- The window's answer. -/
structure AgentApprovalAnswer where
  allow : Bool
  remember : Bool
  passphrase : Option String
  rememberPassphrase : Bool
deriving DecidableEq, Repr

def maxShownChars : Nat := 256

/-- At most `max` characters, the rest replaced by an ellipsis. -/
def shorten (text : String) (max : Nat) : String :=
  if text.length ≤ max then text else String.ofList (text.toList.take max ++ ['…'])

variable {KeyData Material : Type} [DecidableEq KeyData]

/-- The arguments of one `sign` call. -/
structure Call (KeyData : Type) where
  request : SignRequest KeyData
  program : Option Program
  grant : Option Grant
deriving DecidableEq, Repr

/-- Everything a signing request needs to be shown with. -/
structure Ask (KeyData : Type) where
  key : VaultKey
  request : SignRequest KeyData
  program : Option Program
  hostFingerprint : Option String
  hostDisplay : Option String
  minutes : Nat
deriving DecidableEq, Repr

/-- The public key of a slot, if it is of a kind the agent can sign with. -/
def signablePublicKey (k : KeyParsing KeyData Material) (key : VaultKey) : Option KeyData :=
  (k.publicKeyData key.publicKey).filter k.agentCanSign

/-- The key a call is about.  A grant looks it up by slot, since two slots may hold one public
key; without a grant the first slot holding the requested key is taken. -/
def chooseKey (k : KeyParsing KeyData Material) (call : Call KeyData) (keys : List VaultKey) :
    Option VaultKey :=
  let namesTheRequest (key : VaultKey) : Bool := signablePublicKey k key = some call.request.key
  match call.grant with
  | some grant => (keys.find? (·.slotId = grant.slotId)).filter namesTheRequest
  | none => keys.find? namesTheRequest

namespace Ask

def make (k : KeyParsing KeyData Material) (call : Call KeyData) (key : VaultKey)
    (settings : AgentSettings) (hostName : Option String) : Ask KeyData :=
  let hostFingerprint := call.request.hostKey.map k.fingerprint
  { key
    request := call.request
    program := call.program
    hostFingerprint
    hostDisplay := hostFingerprint.map hostName.getD
    minutes := rememberMinutes settings }

def prompt (self : Ask KeyData) (preapproved needsPassphrase rememberable : Bool)
    (passphraseError : Option String) : AgentApprovalRequest :=
  { id := ""
    keyName := self.key.name
    keyFingerprint := self.key.fingerprint
    programChain := (self.program.map (·.chain)).getD []
    user := self.request.user.map (shorten · maxShownChars)
    host := self.hostDisplay
    hostFingerprint := self.hostFingerprint
    rememberable
    rememberMinutes := self.minutes
    needsPassphrase
    passphraseError
    preapproved }

/-- The opened key is the one the request names. -/
def names (k : KeyParsing KeyData Material) (self : Ask KeyData) (material : Material) : Bool :=
  k.keyData material = self.request.key

/-- What an approval of this request is remembered for; an unknown host or program is never
remembered. -/
def approvalKey (self : Ask KeyData) : Option ApprovalKey :=
  match self.hostFingerprint, self.program with
  | some hostFingerprint, some program =>
    some { keyFingerprint := self.key.fingerprint, hostFingerprint, program := program.identity }
  | _, _ => none

end Ask

/-! ## The shared maps -/

/-- An unlocked private key and when it is forgotten. -/
structure Unlocked (Material : Type) where
  material : Material
  expiresMs : Nat

/-- The unlocked keys by slot. -/
def UnlockedKeys (Material : Type) := String → Option (Unlocked Material)

namespace UnlockedKeys

def empty : UnlockedKeys Material := fun _ => none

def set (self : UnlockedKeys Material) (slotId : String) (entry : Option (Unlocked Material)) :
    UnlockedKeys Material :=
  fun other => if other = slotId then entry else self other

def retainLive (self : UnlockedKeys Material) (now : Nat) : UnlockedKeys Material :=
  fun slotId => (self slotId).filter (now < ·.expiresMs)

/-- The unlocked key of the slot if it is the requested one; an entry for another key is
dropped. -/
def cached (k : KeyParsing KeyData Material) (self : UnlockedKeys Material) (slotId : String)
    (key : KeyData) (now : Nat) : Option Material × UnlockedKeys Material :=
  let live := self.retainLive now
  match live slotId with
  | some opened =>
    if k.keyData opened.material = key then (some opened.material, live)
    else (none, live.set slotId none)
  | none => (none, live)

/-- Keeps the slot's unlocked key at least until then. -/
def extend (self : UnlockedKeys Material) (slotId : String) (until_ : Nat) : UnlockedKeys Material :=
  self.set slotId ((self slotId).map fun entry =>
    { entry with expiresMs := max entry.expiresMs until_ })

end UnlockedKeys

/-- The broker's shared state.  A call creates at most one `Pending`, so a pending question goes
by the number of the call that asks it: `asking` holds that number, and `answers` what the call
left for those that wait for it. -/
structure Broker (Material : Type) where
  approvals : ApprovalCache := .empty
  unlocked : UnlockedKeys Material := .empty
  asking : ApprovalKey → Option Nat := fun _ => none
  answers : Nat → Option Bool := fun _ => none

/-! ## Places in the source -/

/-- What the host returns to a step that called it. -/
inductive Reply where
  | keys (keys : List VaultKey)
  | hostName (name : Option String)
  | privateKey (text : Except String (Option String))
  /-- `remembered_passphrase`. -/
  | passphrase (saved : Option String)
  /-- A keychain write or delete, and whether it worked. -/
  | keychain (ok : Bool)
  | answer (answer : Option AgentApprovalAnswer)
  /-- The step calls no host function, or only the clock or the settings. -/
  | nothing

namespace Reply

def keys? : Reply → Option (List VaultKey)
  | .keys list => some list
  | _ => none

def hostName? : Reply → Option (Option String)
  | .hostName name => some name
  | _ => none

def privateKey? : Reply → Option (Except String (Option String))
  | .privateKey text => some text
  | _ => none

def passphrase? : Reply → Option (Option String)
  | .passphrase saved => some saved
  | _ => none

def keychain? : Reply → Option Bool
  | .keychain ok => some ok
  | _ => none

def answer? : Reply → Option (Option AgentApprovalAnswer)
  | .answer given => some given
  | _ => none

end Reply

/-- Places inside `unlock`.  `supplied` is the passphrase the approval window brought, with its
"remember" mark; `left` counts the attempts still to come. -/
inductive Unlocking (Material : Type) where
  | starting (supplied : Option (String × Bool))
  | looking (supplied : Option (String × Bool)) (now : Nat)
  | fetching (supplied : Option (String × Bool))
  | recalling (text : String)
  | forgetting (text : String)
  | trying (text : String) (supplied : Option (String × Bool)) (left : Nat) (error : Option String)
  | saving (material : Material) (passphrase : String)
  | stamping (material : Material)
  | keeping (material : Material) (expiresMs : Nat)

/-- The call site `unlock` returns to. -/
inductive Caller where
  /-- `sign` with a grant. -/
  | connect
  /-- `approve` with a remembered approval. -/
  | remembered
  /-- `ask_once` after another call's answer. -/
  | shared
  /-- `ask_once` of the first call, whose second look found an approval. -/
  | found (key : ApprovalKey)
  /-- `ask_and_unlock` after an allow answer. -/
  | allowed (first : Option ApprovalKey) (remember : Bool)
deriving DecidableEq, Repr

/-- Places inside `sign` and what it calls.  `first` is the key under which this call leads the
others (`First`), if it does. -/
inductive Phase (KeyData Material : Type) where
  | called
  | picked (key : VaultKey)
  | settled (key : VaultKey) (settings : AgentSettings)
  | approving (ask : Ask KeyData) (settings : AgentSettings)
  | looking (ask : Ask KeyData) (settings : AgentSettings) (now : Nat)
  | joining (ask : Ask KeyData) (key : ApprovalKey)
  | waiting (ask : Ask KeyData) (leader : Nat)
  | leading (ask : Ask KeyData) (key : ApprovalKey)
  | relooking (ask : Ask KeyData) (key : ApprovalKey) (now : Nat)
  | preparing (ask : Ask KeyData) (first : Option ApprovalKey)
  | probing (ask : Ask KeyData) (first : Option ApprovalKey) (now : Nat)
  | consulting (ask : Ask KeyData) (first : Option ApprovalKey)
  | prompting (ask : Ask KeyData) (first : Option ApprovalKey) (needsPassphrase : Bool)
  | unlocking (ask : Ask KeyData) (caller : Caller) (place : Unlocking Material)
  | remembering (ask : Ask KeyData) (key : ApprovalKey) (material : Material)
  | storing (ask : Ask KeyData) (key : ApprovalKey) (material : Material) (now : Nat)
  | extending (ask : Ask KeyData) (key : ApprovalKey) (material : Material) (now : Nat)
  | dropping (ask : Ask KeyData) (key : ApprovalKey) (material : Option Material)
  | finishing (ask : Ask KeyData) (material : Option Material)
  | signing (ask : Ask KeyData) (material : Material)
  | returning (signature : Option Bytes)
  | finished

/-- What is noted in the history. -/
inductive Event (KeyData : Type) where
  /-- From here on the clock shows `now`. -/
  | clock (now : Nat)
  /-- From here on these settings are in force. -/
  | settings (settings : AgentSettings)
  /-- The keys the host listed to the call. -/
  | listed (call : Nat) (keys : List VaultKey)
  /-- What the user chose in the window shown to them for the call. -/
  | chose (call : Nat) (answer : Option AgentApprovalAnswer)
  | began (call : Nat) (arguments : Call KeyData)
  /-- The key the call picked and the settings it read. -/
  | considered (call : Nat) (key : VaultKey) (settings : AgentSettings)
  /-- A look at the cache, made with the clock at `now`, found an approval. -/
  | found (call : Nat) (key : ApprovalKey) (now : Nat)
  /-- The call showed this window and took this answer. -/
  | answered (call : Nat) (prompt : AgentApprovalRequest) (answer : Option AgentApprovalAnswer)
  /-- An approval was stored, with the clock at `now`. -/
  | stored (call : Nat) (key : ApprovalKey) (now minutes : Nat)
  | cleared
  | ended (call : Nat) (signature : Option Bytes)
deriving DecidableEq

/-- What the world notes of a reply before the step that takes it. -/
def Reply.noted (t : Nat) : Reply → List (Event KeyData)
  | .keys list => [.listed t list]
  | .answer given => [.chose t given]
  | _ => []

/-! ## One step of a call -/

/-- What a step inside `unlock` leaves. -/
structure Progress (Material : Type) where
  unlocked : UnlockedKeys Material
  asked : Option (AgentApprovalRequest × Option AgentApprovalAnswer) := none
  /-- The next place, or the result of `unlock`. -/
  next : Unlocking Material ⊕ Option Material

section Step

variable (k : KeyParsing KeyData Material)

/-- One attempt of the passphrase loop.  Nothing is kept of an entry that is not the requested
key. -/
def tryPassphrase (ask : Ask KeyData) (text passphrase : String) (remember : Bool) (left : Nat) :
    Unlocking Material ⊕ Option Material :=
  match k.openKey text (some passphrase) with
  | .ok material =>
    if ask.names k material then
      if remember then .inl (.saving material passphrase) else .inl (.stamping material)
    else .inr none
  | .error .WrongPassphrase => .inl (.trying text none left (some wrongPassphrase))
  | .error _ => .inr none

/-- `unlock`: the unlocked key in memory, then a key without passphrase, then the passphrase in
the keychain, then the passphrase typed in, three times at most. -/
def unlockStep (ask : Ask KeyData) (clock : Nat) (reply : Reply) (unlocked : UnlockedKeys Material) :
    Unlocking Material → Option (Progress Material)
  | .starting supplied => some { unlocked, next := .inl (.looking supplied clock) }
  | .looking supplied now =>
    match unlocked.cached k ask.key.slotId ask.request.key now with
    | (some material, unlocked) => some { unlocked, next := .inr (some material) }
    | (none, unlocked) => some { unlocked, next := .inl (.fetching supplied) }
  | .fetching supplied => do
    let text ← reply.privateKey?
    match text with
    | .ok (some text) =>
      match k.openKey text none with
      | .ok material => some { unlocked, next := .inr (some material) }
      | .error .NeedsPassphrase =>
        if supplied.isNone then some { unlocked, next := .inl (.recalling text) }
        else some { unlocked, next := .inl (.trying text supplied passphraseAttempts none) }
      | .error _ => some { unlocked, next := .inr none }
    | _ => some { unlocked, next := .inr none }
  | .recalling text => do
    let saved ← reply.passphrase?
    match saved with
    | none => some { unlocked, next := .inl (.trying text none passphraseAttempts none) }
    | some saved =>
      match k.openKey text (some saved) with
      | .ok material => some { unlocked, next := .inr (some material) }
      | .error .WrongPassphrase => some { unlocked, next := .inl (.forgetting text) }
      | .error _ => some { unlocked, next := .inr none }
  | .forgetting text => do
    -- a delete that fails is only logged
    let _ ← reply.keychain?
    some { unlocked, next := .inl (.trying text none passphraseAttempts none) }
  | .trying _ _ 0 _ => some { unlocked, next := .inr none }
  | .trying text (some (passphrase, remember)) (left + 1) _ =>
    some { unlocked, next := tryPassphrase k ask text passphrase remember left }
  | .trying text none (left + 1) error => do
    let answer ← reply.answer?
    let prompt := ask.prompt true true false error
    match answer with
    | some answer =>
      if answer.allow then
        some { unlocked, asked := some (prompt, some answer)
               next := tryPassphrase k ask text (answer.passphrase.getD "")
                 answer.rememberPassphrase left }
      else some { unlocked, asked := some (prompt, some answer), next := .inr none }
    | none => some { unlocked, asked := some (prompt, none), next := .inr none }
  | .saving material _ => do
    -- a passphrase in the keychain replaces the unlocked key in memory
    let saved ← reply.keychain?
    if saved then some { unlocked, next := .inr (some material) }
    else some { unlocked, next := .inl (.stamping material) }
  | .stamping material =>
    some { unlocked, next := .inl (.keeping material (expiry clock ask.minutes)) }
  | .keeping material expiresMs =>
    some { unlocked := unlocked.set ask.key.slotId (some { material, expiresMs })
           next := .inr (some material) }

/-- Where a call goes on with a result of `ask_once`'s or `approve`'s last part. -/
def signOrRefuse (ask : Ask KeyData) : Option Material → Phase KeyData Material
  | some material => .signing ask material
  | none => .returning none

/-- Where a call goes on when `unlock` returns. -/
def Caller.resume (ask : Ask KeyData) (result : Option Material) : Caller → Phase KeyData Material
  | .connect => signOrRefuse ask result
  | .remembered => signOrRefuse ask result
  | .shared => signOrRefuse ask result
  | .found key => .dropping ask key result
  | .allowed none _ => signOrRefuse ask result
  | .allowed (some key) remember =>
    match result with
    | some material =>
      if remember then .remembering ask key material else .dropping ask key (some material)
    | none => .dropping ask key none

/-- Where `ask_and_unlock` goes on without a result: the first call still lets the others go. -/
def refuseFirst (ask : Ask KeyData) : Option ApprovalKey → Phase KeyData Material
  | some key => .dropping ask key none
  | none => .returning none

/-- The name known for the host, asked for only when there is a host. -/
def hostNameFor (call : Call KeyData) (reply : Reply) : Option (Option String) :=
  if call.request.hostKey.isSome then reply.hostName? else some none

/-- What one step of a call leaves: its next place, the broker, and what it notes. -/
structure Effect (KeyData Material : Type) where
  phase : Phase KeyData Material
  broker : Broker Material
  events : List (Event KeyData) := []

/-- One step of call `t`, from a lock or host call to the next. -/
def callStep (t : Nat) (call : Call KeyData) (clock : Nat) (settings : AgentSettings) (reply : Reply)
    (broker : Broker Material) : Phase KeyData Material → Option (Effect KeyData Material)
  | .called =>
    -- a forwarded agent is refused before anything is read
    if call.request.forwarded then some { phase := .returning none, broker }
    else do
      let keys ← reply.keys?
      match chooseKey k call keys with
      | some key => some { phase := .picked key, broker }
      | none => some { phase := .returning none, broker }
  | .picked key =>
    some { phase := .settled key settings, broker, events := [.considered t key settings] }
  | .settled key settings => do
    let name ← hostNameFor call reply
    let ask := Ask.make k call key settings name
    if call.grant.isSome then some { phase := .unlocking ask .connect (.starting none), broker }
    else some { phase := .approving ask settings, broker }
  | .approving ask settings => some { phase := .looking ask settings clock, broker }
  | .looking ask settings now =>
    match ask.approvalKey with
    | none =>
      match verdict {} settings false false with
      | .Remembered => some { phase := .unlocking ask .remembered (.starting none), broker }
      | .Ask _ => some { phase := .preparing ask none, broker }
    | some key =>
      let (remembered, approvals) := broker.approvals.isRemembered key now
      let events := if remembered then [.found t key now] else []
      match verdict {} settings true remembered with
      | .Remembered =>
        some { phase := .unlocking ask .remembered (.starting none)
               broker := { broker with approvals }, events }
      | .Ask false => some { phase := .preparing ask none, broker := { broker with approvals }, events }
      | .Ask true => some { phase := .joining ask key, broker := { broker with approvals }, events }
  | .joining ask key =>
    match broker.asking key with
    | some leader => some { phase := .waiting ask leader, broker }
    | none =>
      let asking := fun other => if other = key then some t else broker.asking other
      some { phase := .leading ask key, broker := { broker with asking } }
  | .waiting ask leader => do
    let allowed ← broker.answers leader
    if allowed then some { phase := .unlocking ask .shared (.starting none), broker }
    else some { phase := .returning none, broker }
  | .leading ask key => some { phase := .relooking ask key clock, broker }
  | .relooking ask key now =>
    -- the same request may have been approved since the first look
    let (remembered, approvals) := broker.approvals.isRemembered key now
    if remembered then
      some { phase := .unlocking ask (.found key) (.starting none)
             broker := { broker with approvals }, events := [.found t key now] }
    else some { phase := .preparing ask (some key), broker := { broker with approvals } }
  | .preparing ask first =>
    if ask.key.hasPassphrase then some { phase := .probing ask first clock, broker }
    else some { phase := .prompting ask first false, broker }
  | .probing ask first now =>
    match broker.unlocked.cached k ask.key.slotId ask.request.key now with
    | (some _, unlocked) =>
      some { phase := .prompting ask first false, broker := { broker with unlocked } }
    | (none, unlocked) =>
      some { phase := .consulting ask first, broker := { broker with unlocked } }
  | .consulting ask first => do
    let saved ← reply.passphrase?
    some { phase := .prompting ask first saved.isNone, broker }
  | .prompting ask first needsPassphrase => do
    let answer ← reply.answer?
    let prompt := ask.prompt false needsPassphrase first.isSome none
    match answer with
    | some answer =>
      if answer.allow then
        let supplied := (answer.passphrase.filter fun _ => needsPassphrase).map
          fun passphrase => (passphrase, answer.rememberPassphrase)
        some { phase := .unlocking ask (.allowed first answer.remember) (.starting supplied)
               broker, events := [.answered t prompt (some answer)] }
      else some { phase := refuseFirst ask first, broker, events := [.answered t prompt (some answer)] }
    | none => some { phase := refuseFirst ask first, broker, events := [.answered t prompt none] }
  | .unlocking ask caller place => do
    let progress ← unlockStep k ask clock reply broker.unlocked place
    let events := match progress.asked with
      | some (prompt, answer) => [.answered t prompt answer]
      | none => []
    let phase := match progress.next with
      | .inl place => .unlocking ask caller place
      | .inr result => caller.resume ask result
    some { phase, broker := { broker with unlocked := progress.unlocked }, events }
  | .remembering ask key material => some { phase := .storing ask key material clock, broker }
  | .storing ask key material now =>
    some { phase := .extending ask key material now
           broker := { broker with approvals := broker.approvals.remember key now ask.minutes }
           events := [.stored t key now ask.minutes] }
  | .extending ask key material now =>
    let unlocked := broker.unlocked.extend ask.key.slotId (expiry now ask.minutes)
    some { phase := .dropping ask key (some material), broker := { broker with unlocked } }
  | .dropping ask key material =>
    let asking := fun other => if other = key then none else broker.asking other
    some { phase := .finishing ask material, broker := { broker with asking } }
  | .finishing ask material =>
    let answers := fun other => if other = t then some material.isSome else broker.answers other
    some { phase := signOrRefuse ask material, broker := { broker with answers } }
  | .signing ask material =>
    if ask.names k material then
      match k.sign material ask.request.data ask.request.flags with
      | .ok blob => some { phase := .returning (some blob), broker }
      | .error _ => some { phase := .returning none, broker }
    else some { phase := .returning none, broker }
  | .returning signature => some { phase := .finished, broker, events := [.ended t signature] }
  | .finished => none

/-- The key this call leads others under, while it is in `asking`. -/
def Phase.first : Phase KeyData Material → Option ApprovalKey
  | .leading _ key => some key
  | .relooking _ key _ => some key
  | .preparing _ first => first
  | .probing _ first _ => first
  | .consulting _ first => first
  | .prompting _ first _ => first
  | .unlocking _ (.found key) _ => some key
  | .unlocking _ (.allowed first _) _ => first
  | .remembering _ key _ => some key
  | .storing _ key _ _ => some key
  | .extending _ key _ _ => some key
  | .dropping _ key _ => some key
  | _ => none

/-- The request a call shows, once it has one. -/
def Phase.ask : Phase KeyData Material → Option (Ask KeyData)
  | .called => none
  | .picked _ => none
  | .settled _ _ => none
  | .approving ask _ => some ask
  | .looking ask _ _ => some ask
  | .joining ask _ => some ask
  | .waiting ask _ => some ask
  | .leading ask _ => some ask
  | .relooking ask _ _ => some ask
  | .preparing ask _ => some ask
  | .probing ask _ _ => some ask
  | .consulting ask _ => some ask
  | .prompting ask _ _ => some ask
  | .unlocking ask _ _ => some ask
  | .remembering ask _ _ => some ask
  | .storing ask _ _ _ => some ask
  | .extending ask _ _ _ => some ask
  | .dropping ask _ _ => some ask
  | .finishing ask _ => some ask
  | .signing ask _ => some ask
  | .returning _ => none
  | .finished => none

/-- Where a call is after the host function it called panicked: the guard of a first call still
lets the others go, with a refusal.  The last steps call no host function. -/
def Phase.panicked (phase : Phase KeyData Material) : Option (Phase KeyData Material) :=
  match phase with
  | .dropping .. => none
  | .finishing .. => none
  | .returning _ => none
  | .finished => none
  | phase =>
    match phase.ask, phase.first with
    | some ask, some key => some (.dropping ask key none)
    | _, _ => some (.returning none)

end Step

/-! ## The whole agent -/

/-- A `clear` or `expire` that has done the approvals and still has to do the unlocked keys. -/
inductive Sweep where
  | clear
  | expire (now : Nat)
deriving DecidableEq, Repr

structure Running (KeyData Material : Type) where
  call : Call KeyData
  phase : Phase KeyData Material

structure World (KeyData Material : Type) where
  clock : Nat
  settings : AgentSettings
  broker : Broker Material := {}
  sweeps : List Sweep := []
  calls : Nat → Option (Running KeyData Material) := fun _ => none
  history : List (Event KeyData) := []

/-- What can happen next. -/
inductive Label (KeyData : Type) where
  /-- The clock changes, in either direction. -/
  | clock (now : Nat)
  | settings (settings : AgentSettings)
  | clear
  | expire (now : Nat)
  /-- The second lock of a `clear` or `expire` under way. -/
  | sweep (index : Nat)
  | call (t : Nat) (call : Call KeyData)
  /-- A waiting call gives up (`SHARED_ANSWER_WAIT`). -/
  | timeout (t : Nat)
  | panic (t : Nat)
  | step (t : Nat) (reply : Reply)

namespace World

def setPhase (w : World KeyData Material) (t : Nat) (call : Call KeyData)
    (phase : Phase KeyData Material) : World KeyData Material :=
  { w with calls := fun other => if other = t then some { call, phase } else w.calls other }

def step (k : KeyParsing KeyData Material) (w : World KeyData Material) :
    Label KeyData → Option (World KeyData Material)
  | .clock now => some { w with clock := now, history := .clock now :: w.history }
  | .settings settings => some { w with settings, history := .settings settings :: w.history }
  | .clear =>
    some { w with
      broker := { w.broker with approvals := .empty }
      sweeps := .clear :: w.sweeps
      history := .cleared :: w.history }
  | .expire now =>
    some { w with
      broker := { w.broker with approvals := w.broker.approvals.prune now }
      sweeps := .expire now :: w.sweeps }
  | .sweep index => do
    let sweep ← w.sweeps[index]?
    let unlocked := match sweep with
      | .clear => .empty
      | .expire now => w.broker.unlocked.retainLive now
    some { w with broker := { w.broker with unlocked }, sweeps := w.sweeps.eraseIdx index }
  | .call t call =>
    match w.calls t with
    | some _ => none
    | none => some { w.setPhase t call .called with history := .began t call :: w.history }
  | .timeout t => do
    let running ← w.calls t
    match running.phase with
    | .waiting _ _ => some (w.setPhase t running.call (.returning none))
    | _ => none
  | .panic t => do
    let running ← w.calls t
    let phase ← running.phase.panicked
    some (w.setPhase t running.call phase)
  | .step t reply => do
    let running ← w.calls t
    let effect ← callStep k t running.call w.clock w.settings reply w.broker running.phase
    some { w.setPhase t running.call effect.phase with
      broker := effect.broker
      history := effect.events ++ (reply.noted t ++ w.history) }

end World

/-- The worlds an agent reaches from an empty broker in steps that each meet the condition, which
may look at the world before the step. -/
inductive Reaches (k : KeyParsing KeyData Material)
    (condition : World KeyData Material → Label KeyData → Prop) : World KeyData Material → Prop
  | start (clock : Nat) (settings : AgentSettings) :
    Reaches k condition { clock, settings, history := [.clock clock, .settings settings] }
  | step {w w' : World KeyData Material} {label : Label KeyData} (run : Reaches k condition w)
      (meets : condition w label) (steps : w.step k label = some w') : Reaches k condition w'

end Sshelter.Agent
