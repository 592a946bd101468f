import Sshelter.Lib.Trace
import Sshelter.Session.Connect

/-! # What each step of a connect rests on

`Allowed` says of every entry of the log what had to come before it: who vouched for the key of a server
that something was sent to, where a password came from, what may still be asked.  `Sound` is the
invariant that carries it: what the policy, the auth source and the loop keep was put there by the log.
-/

namespace Sshelter.Session

open Ssh

variable {σ KeyData Material ε : Type} {W : World σ} {K : KeyMaterial KeyData Material} {log : List Event}
  {event : Event}

/-! ## The log read back -/

/-- The key was vouched for: the saved host had it pinned, another connection pinned it meanwhile, or this
connect did. -/
def Trusted (log : List Event) (id : String) (pin : HostKey) : Prop :=
  (∃ target, .Resolved target ∈ log ∧ ∃ hop ∈ target.hops, hop.id = id ∧ hop.pinned = some pin) ∨
    (∃ hop record, .Recorded hop record ∈ log ∧ hop.id = id ∧ record.key = pin) ∨
      ∃ hop previous, .Pinned hop previous pin true ∈ log ∧ hop.id = id

/-- A connection that the entry opens or judges, and whether its server's key is the pinned one. -/
def Event.connection : Event → Option (HopRef × Bool)
  | .Dialing hop => some (hop, false)
  | .Checked hop _ verdict => some (hop, verdict = .Pinned)
  | _ => none

/-- The newest connection. -/
def connection (log : List Event) : Option (HopRef × Bool) := log.findSome? Event.connection

def Event.asksPassword (id : String) : Event → Bool
  | .Asked hop .Password _ _ _ => hop.id = id
  | _ => false

/-- How many passwords the person was asked for. -/
def prompts (id : String) (log : List Event) : Nat := log.countP (Event.asksPassword id)

/-- The password was typed for the host in this connect, or it is the one saved for it. -/
def Given (W : World σ) (log : List Event) (id password : String) : Prop :=
  (∃ hop text echo, .Asked hop .Password text echo (.Answer password) ∈ log ∧ hop.id = id) ∨
    .Saved (W.passwordAccount id) password ∈ log

/-- A signature is made by the hop's own key, with the private half of the line that was offered, and never
with SHA-1. -/
structure OwnSignature (K : KeyMaterial KeyData Material) (log : List Event) (hop : HopRef) (keyId line : String)
    (hash : Option RsaHash) (data blob : Wire.Bytes) : Prop where
  own : ∃ target, .Connecting target ∈ log ∧ ∃ own ∈ target.hops, own.reference = hop ∧ own.auth = .Key keyId
  made : ∃ material, K.publicKeyData line = some (K.keyData material) ∧
    K.sign material data (rsaFlags hash) = .ok blob
  hashed : K.isRsa line = some true → hash.isSome

def Justified (W : World σ) (K : KeyMaterial KeyData Material) (log : List Event) (hop : HopRef) : Credential → Prop
  | .Password password => Given W log hop.id password
  | .Signature keyId line hash data blob => OwnSignature K log hop keyId line hash data blob
  | .Answers answers => ∀ given ∈ answers, ∃ text echo, .Asked hop .Interactive text echo (.Answer given) ∈ log

def Reply.unanswered : Reply → Bool
  | .Answer _ => false
  | .Cancelled | .TimedOut | .Gone => true

/-- A host that left a question unanswered is not asked again, and nothing is asked after a passphrase that
was not given or a window that did not trust the key it showed. -/
structure MayAsk (log : List Event) (id : String) : Prop where
  answered : ∀ hop kind text echo reply, .Asked hop kind text echo reply ∈ log → reply.unanswered = true →
    kind ≠ .Passphrase ∧ hop.id ≠ id
  trusted : ∀ hop question trusted, .Confirmed hop question trusted ∈ log → trusted = some question.fingerprint

def verdictOn : Option HostKey → HostKeyVerdict
  | none => .Unknown
  | some pinned => .Mismatch pinned

/-- The question is about a key that the hop's server presented and that is not the pinned one. -/
def AsksAbout (log : List Event) (hop : HopRef) (key : HostKey) (previous : Option HostKey)
    (question : HostKeyQuestion) : Prop :=
  .Checked hop key (verdictOn previous) ∈ log ∧ ∃ changed, question = Connector.hostKeyQuestion hop key changed ∧
    changed.map (·.fingerprint) = previous.map (·.fingerprint)

/-- Every hop of the target showed its pinned key since the target was last connected to. -/
def Verified (log : List Event) (target : Target) : Prop :=
  ∃ pass old, log = pass ++ .Connecting target :: old ∧ (∀ other, .Connecting other ∉ pass) ∧
    ∀ hop ∈ target.hops, ∃ key, .Checked hop.reference key .Pinned ∈ pass

/-- What an entry of the log rests on. -/
def Allowed (W : World σ) (K : KeyMaterial KeyData Material) (before : List Event) : Event → Prop
  | .Connecting _ | .Noticed _ => .Left ∉ before
  | .Checked hop key verdict => connection before = some (hop, false) ∧
      (verdict = .Pinned → ∃ pin, Trusted before hop.id pin ∧ pin.fingerprint = key.fingerprint)
  | .Sent hop credential => connection before = some (hop, true) ∧ Justified W K before hop credential
  | .Asked hop kind _ _ _ => MayAsk before hop.id ∧
      (kind = .Passphrase → ∀ target, .Connecting target ∉ before) ∧
      (kind = .Password → prompts hop.id before < PASSWORD_PROMPTS) ∧
      (kind = .Interactive → connection before = some (hop, true))
  | .Confirmed hop question _ => MayAsk before hop.id ∧
      (∀ other asked trusted, .Confirmed other asked trusted ∈ before → other.id ≠ hop.id) ∧
      ∃ key previous, AsksAbout before hop key previous question
  | .Pinned hop previous key _ => .Left ∉ before ∧ ∃ question, AsksAbout before hop key previous question ∧
      .Confirmed hop question (some key.fingerprint) ∈ before
  | .Opened target => Verified before target
  | .Resolved _ | .Recorded _ _ | .Saved _ _ | .Dialing _ | .Arrived _ _ | .Bannered _ | .Closed | .Left => True

/-! ## More of the log -/

theorem Trusted.mono {later : List Event} {id : String} {pin : HostKey} (trusted : Trusted log id pin)
    (grown : ∀ event ∈ log, event ∈ later) : Trusted later id pin := by
  obtain ⟨target, resolved, hop⟩ | ⟨hop, record, read, rest⟩ | ⟨hop, previous, written, same⟩ := trusted
  · exact .inl ⟨target, grown _ resolved, hop⟩
  · exact .inr (.inl ⟨hop, record, grown _ read, rest⟩)
  · exact .inr (.inr ⟨hop, previous, grown _ written, same⟩)

theorem Trusted.cons {id : String} {pin : HostKey} (trusted : Trusted log id pin) : Trusted (event :: log) id pin :=
  trusted.mono fun _ => List.mem_cons_of_mem _

theorem Given.mono {later : List Event} {id password : String} (given : Given W log id password)
    (grown : ∀ event ∈ log, event ∈ later) : Given W later id password := by
  obtain ⟨hop, text, echo, asked, same⟩ | saved := given
  · exact .inl ⟨hop, text, echo, grown _ asked, same⟩
  · exact .inr (grown _ saved)

/-- A question that was answered and a window that trusts the key leave it open who may be asked. -/
theorem MayAsk.cons {id : String} (may : MayAsk log id)
    (answers : ∀ hop kind text echo reply, event = .Asked hop kind text echo reply → reply.unanswered = false)
    (trusts : ∀ hop question trusted, event = .Confirmed hop question trusted → trusted = some question.fingerprint) :
    MayAsk (event :: log) id where
  answered hop kind text echo reply asked unanswered := by
    obtain same | earlier := List.mem_cons.mp asked
    · rw [answers _ _ _ _ _ same.symm] at unanswered
      cases unanswered
    · exact may.answered hop kind text echo reply earlier unanswered
  trusted hop question trusted confirmed := by
    obtain same | earlier := List.mem_cons.mp confirmed
    · exact trusts _ _ _ same.symm
    · exact may.trusted hop question trusted earlier

@[simp] theorem connection_cons : connection (event :: log) = event.connection.or (connection log) := by
  rw [connection, List.findSome?_cons]
  cases event.connection <;> rfl

@[simp] theorem prompts_cons {id : String} :
    prompts id (event :: log) = prompts id log + if event.asksPassword id then 1 else 0 := by
  rw [prompts, List.countP_cons]
  rfl

/-! ## The invariant -/

/-- How many passwords a host was asked for, as far as the loop and the auth source know.  The first one may
have been asked for by the auth source, before the loop has counted any. -/
def Counted (log : List Event) (auth : BrokerAuth Material) (id : String) : Option Nat → Prop
  | some typed => prompts id log ≤ typed ∧ typed ≤ PASSWORD_PROMPTS ∧ auth.typed[id]?.isSome
  | none => prompts id log = 0 ∧ auth.typed[id]? = none ∨
      prompts id log = 1 ∧ (auth.typed[id]?.isSome ∧ auth.gave[id]? = some .Typed ∨
        auth.typed[id]? = none ∧ id ∈ auth.cancelled)

/-- What the auth source holds, seen from the log. -/
structure SoundAuth (W : World σ) (K : KeyMaterial KeyData Material) (done : Done) (log : List Event)
    (auth : BrokerAuth Material) : Prop where
  opened : ∀ (keyId : String) material line, auth.opened[keyId]? = some (material, line) →
    K.publicKeyData line = some (K.keyData material)
  typed : ∀ (id : String) password, auth.typed[id]? = some password → Given W log id password
  unanswered : ∀ hop kind text echo reply, .Asked hop kind text echo reply ∈ log → reply.unanswered = true →
    kind ≠ .Passphrase ∧ hop.id ∈ auth.cancelled
  counted : ∀ id, Counted log auth id done.passwordsTyped[id]?

/-- A run in which every step rests on what it has to. -/
structure Sound (W : World σ) (K : KeyMaterial KeyData Material) (done : Done) (run : Run σ Material) : Prop where
  allowed : Trace.Always (Allowed W K) run.log
  token : run.cancelled = true ↔ .Left ∈ run.log
  unopened : ∀ target, .Opened target ∉ run.log
  pins : ∀ id pin, run.policy.pinned id = some pin → Trusted run.log id pin
  confirmed : ∀ hop question trusted, .Confirmed hop question trusted ∈ run.log →
    hop.id ∈ done.askedHostKey ∧ trusted = some question.fingerprint
  auth : SoundAuth W K done run.log run.auth

/-- An entry that says nothing about questions, and with which nothing ends. -/
def Event.plain : Event → Bool
  | .Asked _ _ _ _ _ | .Confirmed _ _ _ | .Left | .Opened _ => false
  | _ => true

theorem Counted.congr {later : List Event} {auth : BrokerAuth Material} {id : String} {typed : Option Nat}
    (same : prompts id later = prompts id log) (counted : Counted log auth id typed) : Counted later auth id typed := by
  cases typed <;> simpa only [Counted, same] using counted

theorem SoundAuth.more {done : Done} {auth : BrokerAuth Material} (sound : SoundAuth W K done log auth)
    (quiet : ∀ hop kind text echo reply, event ≠ .Asked hop kind text echo reply) :
    SoundAuth W K done (event :: log) auth where
  opened := sound.opened
  typed id password held := (sound.typed id password held).mono fun _ => List.mem_cons_of_mem _
  unanswered hop kind text echo reply asked :=
    sound.unanswered hop kind text echo reply ((List.mem_cons.mp asked).resolve_left (quiet _ _ _ _ _ ·.symm))
  counted id := (sound.counted id).congr (by
    rw [prompts_cons, if_neg, Nat.add_zero]
    cases event <;> first | exact absurd rfl (quiet _ _ _ _ _) | exact Bool.false_ne_true)

theorem Sound.moved {done : Done} {run : Run σ Material} (sound : Sound W K done run) (world : σ) :
    Sound W K done (run.moved W world) := by
  unfold Run.moved
  split
  · exact
      { allowed := ⟨trivial, sound.allowed⟩
        token := by simp
        unopened := fun target opened => sound.unopened target ((List.mem_cons.mp opened).resolve_left nofun)
        pins := fun id pin held => (sound.pins id pin held).cons
        confirmed := fun hop question trusted asked =>
          sound.confirmed hop question trusted ((List.mem_cons.mp asked).resolve_left nofun)
        auth := sound.auth.more nofun }
  · exact { sound with }

/-- An entry that asks nothing is added. -/
theorem Sound.noted {done : Done} {run : Run σ Material} (sound : Sound W K done run)
    (allowed : Allowed W K run.log event) (plain : event.plain = true) :
    Sound W K done { run with log := event :: run.log } where
  allowed := ⟨allowed, sound.allowed⟩
  token := by
    rw [sound.token, List.mem_cons]
    refine ⟨.inr, fun left => left.resolve_left ?_⟩
    rintro rfl
    cases plain
  unopened target opened := sound.unopened target ((List.mem_cons.mp opened).resolve_left (by
    rintro rfl
    cases plain))
  pins id pin held := (sound.pins id pin held).cons
  confirmed hop question trusted asked := sound.confirmed hop question trusted ((List.mem_cons.mp asked).resolve_left (by
    rintro rfl
    cases plain))
  auth := sound.auth.more (by
    rintro hop kind text echo reply rfl
    cases plain)

end Sshelter.Session
