import Sshelter.Lib.Text
import Sshelter.Session.World

/-! # What the broker gives the engine

`session/auth.rs`: texts of a server made safe to show, the host key policy over the pins, and the auth
source over the vault, the keychain and the person at the terminal.  One auth source serves all the
reconnects of a connect.
-/

namespace Sshelter.Session

open Ssh
open Wire (Bytes)

/-! ## Texts a server wrote -/

/-- The characters that are replaced although they are not control characters. -/
def isDeceptiveFormat (c : Char) : Bool :=
  let n := c.toNat
  n == 0x061c || n == 0x200e || n == 0x200f || n == 0x2028 || n == 0x2029 ||
    (0x202a ≤ n && n ≤ 0x202e) || (0x2066 ≤ n && n ≤ 0x2069)

def printableChar (c : Char) : Char :=
  if (Text.isControl c && c != '\n' && c != '\t') || isDeceptiveFormat c then '?' else c

/-- A carriage return and line feed becomes a line feed; then every character is made printable. -/
def printableChars : List Char → List Char
  | '\r' :: '\n' :: rest => printableChar '\n' :: printableChars rest
  | c :: rest => printableChar c :: printableChars rest
  | [] => []

def printable (text : String) : String := String.ofList (printableChars text.toList)

/-- A name from the person's configuration, on one line. -/
def labelChars (name : String) : List Char :=
  (printableChars name.toList).map fun c => if c = '\n' ∨ c = '\t' then '?' else c

def label (name : String) : String := String.ofList (labelChars name)

/-- What stands in front of every line of a server's prompt. -/
def askedBy (hop : HopRef) : List Char :=
  '(' :: labelChars hop.user ++ '@' :: labelChars hop.aliasName ++ [')', ' ']

/-- A prompt as the person is shown it.  A line feed that ends it leaves a line of its own, without the
real name in front. -/
def shownPrompt (hop : HopRef) (text : String) : String :=
  let chars := printableChars text.toList
  let ended := chars.getLast? = some '\n'
  let body := if ended then chars.dropLast else chars
  let shown := ['\n'].intercalate ((body.splitOn '\n').map (askedBy hop ++ ·))
  String.ofList (if ended then shown ++ ['\n'] else shown)

/-! ## The host key policy -/

namespace PinPolicy

/-- The pins the directory put in the target's hops. -/
def fromTarget (target : Target) : PinPolicy :=
  { pins := target.hops.foldl (fun pins hop => hop.pinned.elim pins (pins.insert hop.id)) ∅ }

def pin (self : PinPolicy) (id : String) (key : HostKey) : PinPolicy :=
  { pins := self.pins.insert id key }

def pinned (self : PinPolicy) (id : String) : Option HostKey := self.pins[id]?

def check (self : PinPolicy) (hop : HopRef) (key : HostKey) : HostKeyVerdict :=
  match self.pinned hop.id with
  | some pinned => if pinned.fingerprint = key.fingerprint then .Pinned else .Mismatch pinned
  | none => .Unknown

end PinPolicy

/-! ## The auth source -/

/-- How many passphrases the person may try for one key. -/
def PASSPHRASE_ATTEMPTS : Nat := 3

def SSH_AGENT_RSA_SHA2_256 : UInt32 := 2
def SSH_AGENT_RSA_SHA2_512 : UInt32 := 4

def rsaFlags : Option RsaHash → UInt32
  | some .Sha512 => SSH_AGENT_RSA_SHA2_512
  | some .Sha256 => SSH_AGENT_RSA_SHA2_256
  | none => 0

/-- The keychain account of a passphrase remembered on this computer. -/
def passphraseAccount (keyId : String) : String := "vault:passphrase:" ++ keyId

section Auth

variable {σ KeyData Material ε : Type} (W : World σ)

/-- Asks the person at the terminal. -/
def askAt (hop : HopRef) (kind : QuestionKind) (text : String) (echo : Bool) : Call ε (Run σ Material) Reply :=
  W.act (W.ask hop kind text echo) fun reply => [.Asked hop kind text echo reply]

def passwordQuestion (hop : HopRef) : String := label hop.user ++ "@" ++ label hop.aliasName ++ "'s password: "

namespace BrokerAuth

/-- The target the next connect uses. -/
def prepare (target : Target) : Call ε (Run σ Material) Unit :=
  change fun auth =>
    { auth with passwordFirst := (target.hops.filter fun hop => hop.auth = .Password).map (·.id) }

def setTyped (id password : String) : Call ε (Run σ Material) Unit :=
  change fun auth => { auth with typed := auth.typed.insert id password }

def forgetTyped (id : String) : Call ε (Run σ Material) Unit :=
  change fun auth => { auth with typed := auth.typed.erase id }

/-- The hop is not asked again in this connect. -/
def cancel (id : String) : Call ε (Run σ Material) Unit :=
  change fun auth => { auth with cancelled := id :: auth.cancelled }

def gives (id : String) (source : PasswordSource) : Call ε (Run σ Material) Unit :=
  change fun auth => { auth with gave := auth.gave.insert id source }

def isCancelled (auth : BrokerAuth Material) (id : String) : Bool := decide (id ∈ auth.cancelled)

def passwordSource (auth : BrokerAuth Material) (id : String) : Option PasswordSource := auth.gave[id]?

/-- Only a key that was opened for this connect. -/
def publicKey (auth : BrokerAuth Material) (keyId : String) : Option String := auth.opened[keyId]?.map (·.2)

def sign (K : KeyMaterial KeyData Material) (auth : BrokerAuth Material) (keyId : String) (data : Bytes)
    (rsaHash : Option RsaHash) : Except String Bytes :=
  match auth.opened[keyId]? with
  | none => .error ("the key is not available: the key " ++ keyId ++ " was not opened")
  | some (material, _) =>
    match K.sign material data (rsaFlags rsaHash) with
    | .ok blob => .ok blob
    | .error why => .error ("signing failed: " ++ why)

/-- A person is asked for a password only for a hop that starts with the password method. -/
def askPassword (hop : HopRef) : Call ε (Run σ Material) (Option String) := do
  if ← read fun run => decide (hop.id ∈ run.auth.passwordFirst) && !run.auth.isCancelled hop.id then
    match ← askAt W hop .Password (passwordQuestion hop) false with
    | .Answer password =>
      setTyped hop.id password
      gives hop.id .Typed
      return some password
    | .Cancelled | .TimedOut | .Gone =>
      cancel hop.id
      return none
  else return none

/-- A saved password that can be read and is not empty. -/
def saved : Except String (Option String) → Option String
  | .ok (some text) => if text.isEmpty then none else some text
  | .ok none | .error _ => none

def savedPassword (account : String) : Call ε (Run σ Material) (Option String) := do
  let found ← W.act (W.keychainGet account) fun found => ((saved found).map (Event.Saved account)).toList
  return saved found

/-- What the person typed in this connect, else the saved password. -/
def password (hop : HopRef) : Call ε (Run σ Material) (Option String) := do
  match ← read fun run => run.auth.typed[hop.id]? with
  | some typed =>
    gives hop.id .Typed
    return some typed
  | none =>
    match ← savedPassword W (W.passwordAccount hop.id) with
    | some saved =>
      gives hop.id .Keychain
      return some saved
    | none => askPassword W hop

def answersTo (hop : HopRef) : List Prompt → Call ε (Run σ Material) (Option (List String))
  | [] => return some []
  | prompt :: rest => do
    match ← askAt W hop .Interactive (shownPrompt hop prompt.text) prompt.echo with
    | .Answer answer => return (← answersTo hop rest).map (answer :: ·)
    | .Cancelled | .TimedOut | .Gone =>
      cancel hop.id
      return none

/-- One question per prompt, in order; what was answered is dropped when a later prompt is not. -/
def interactive (hop : HopRef) (prompts : List Prompt) : Call ε (Run σ Material) (Option (List String)) := do
  if ← read fun run => run.auth.isCancelled hop.id then return none
  else answersTo W hop prompts

def banner (text : String) : Call ε (Run σ Material) Unit := do
  W.act (W.banner (printable text)) fun _ => [.Bannered (printable text)]

/-! ### Opening the keys -/

def abandoned (hop : Hop) (reason : String) : String := (ConnectError.AuthAbandoned hop.reference reason).display

def mismatch (key : VaultKey) : String :=
  "Lunport refused the key " ++ label key.name ++ ": its private key does not match its saved public key."

def unreadable (key : VaultKey) : String := "The key " ++ key.name ++ " in Lunport's vault cannot be read."

def passphraseQuestion (key : VaultKey) : String := "Enter the passphrase for the key " ++ label key.name ++ ": "

variable (K : KeyMaterial KeyData Material)

/-- A remembered passphrase that does not open the key is forgotten. -/
def remembered (keyId text : String) : Call ε (Run σ Material) (Option Material) := do
  match ← W.act (W.keychainGet (passphraseAccount keyId)) with
  | .ok (some saved) =>
    match K.openKey text (some saved) with
    | .ok material => return some material
    | .error _ =>
      let _ ← W.act (W.keychainDelete (passphraseAccount keyId))
      return none
  | .ok none | .error _ => return none

def askPassphrase (hop : Hop) (key : VaultKey) (text : String) :
    (attempts : Nat) → (question : String) → Call String (Run σ Material) Material
  | 0, _ => throw (abandoned hop "the passphrase was wrong three times")
  | attempts + 1, question => do
    match ← askAt W hop.reference .Passphrase question false with
    | .Answer passphrase =>
      match K.openKey text (some passphrase) with
      | .ok material => return material
      | .error .WrongPassphrase =>
        askPassphrase hop key text attempts ("That passphrase didn't work. " ++ passphraseQuestion key)
      | .error _ => throw (unreadable key)
    | .Cancelled | .Gone => throw (abandoned hop "the passphrase was not given")
    | .TimedOut => throw (abandoned hop "the passphrase prompt timed out")

def openKey (hop : Hop) (keyId : String) (key : VaultKey) (text : String) : Call String (Run σ Material) Material := do
  match K.openKey text none with
  | .ok material => return material
  | .error (.UnsupportedCipher cipher) =>
    throw ("The key " ++ key.name ++ " is encrypted with " ++ cipher ++ ", which Lunport cannot open.")
  | .error .Unreadable | .error .WrongPassphrase => throw (unreadable key)
  | .error .NeedsPassphrase =>
    match ← remembered W K keyId text with
    | some material => return material
    | none => askPassphrase W K hop key text PASSPHRASE_ATTEMPTS (passphraseQuestion key)

variable [DecidableEq KeyData]

/-- Opens one key whose text was read; its private half has to match its saved public half. -/
def unlockKey (hop : Hop) (keyId : String) (key : VaultKey) (text : String) : Call String (Run σ Material) Unit :=
  match K.publicKeyData key.publicKey with
  | none => throw (mismatch key)
  | some identity =>
    if (K.publicHalf text).any (· != identity) then throw (mismatch key)
    else do
      let material ← openKey W K hop keyId key text
      if K.keyData material = identity then
        change fun auth => { auth with opened := auth.opened.insert keyId (material, key.publicKey) }
      else throw (mismatch key)

/-- A key the vault does not have is left to the engine. -/
def readKey (hop : Hop) (keyId : String) : Call String (Run σ Material) Unit := do
  match ← W.act (W.key keyId) with
  | none => return
  | some key =>
    match ← W.act (W.privateText keyId) with
    | .error why => throw ("Lunport cannot read the key " ++ key.name ++ " from its vault (" ++ why ++ ").")
    | .ok none => return
    | .ok (some text) => unlockKey W K hop keyId key text

def unlockHop (hop : Hop) : Call String (Run σ Material) Unit :=
  match hop.auth with
  | .Key keyId => do
    if ← read fun run => run.auth.opened.contains keyId then return else readKey W K hop keyId
  | .Password | .Interactive => return

/-- Opens the vault keys of the target before anything connects. -/
def unlock (target : Target) : Call String (Run σ Material) Unit :=
  target.hops.forM (unlockHop W K)

end BrokerAuth

end Auth

end Sshelter.Session
