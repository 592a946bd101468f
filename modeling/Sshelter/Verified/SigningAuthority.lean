import Sshelter.Agent.Broker

/-! # What authorises a signature

Every signature the broker returns is traced back to its authority: a Connect grant,
an allow answer, or a remembered approval.  The authority is a fact about the history
(`Authorised`), and facts of this kind stay true as the history grows, so the proof is
one invariant: each call carries, at each place of the source, the evidence that its
way there produced.  Times, settings, keys and answers count only as the history has
them from the clock, the host and the user, not as a call notes them.

The invariant does not survive two kinds of step.  A `clear` between an answer and the
storing of its approval leaves an approval in the cache that is older than the clear;
and a call that waits for another one takes over what that one found in the cache
before the waiting call began.  `Careful` names the runs without such steps.
-/

namespace Sshelter.Agent

open Wire (Bytes)

variable {KeyData Material : Type} (k : KeyParsing KeyData Material)

/-! ## Authority

A moment of a run is the history up to it, a suffix of every later one. -/

/-- What the clock shows. -/
def clockAt (moment : List (Event KeyData)) : Option Nat :=
  moment.findSome? fun
    | .clock now => some now
    | _ => none

/-- The settings in force. -/
def settingsAt (moment : List (Event KeyData)) : Option AgentSettings :=
  moment.findSome? fun
    | .settings settings => some settings
    | _ => none

/-- What a request would be remembered for: the key, the host and the program, if both are
known. -/
def tripleOf (call : Call KeyData) (key : VaultKey) : Option ApprovalKey :=
  match call.request.hostKey.map k.fingerprint, call.program with
  | some hostFingerprint, some program =>
    some { keyFingerprint := key.fingerprint, hostFingerprint, program := program.identity }
  | _, _ => none

def Began (history : List (Event KeyData)) (t : Nat) : Prop := ∃ call, .began t call ∈ history

def Ended (history : List (Event KeyData)) (t : Nat) : Prop := ∃ signature, .ended t signature ∈ history

/-- The call took a key the host had listed to it, and the settings in force. -/
def Considered (history : List (Event KeyData)) (t : Nat) (key : VaultKey) (settings : AgentSettings) :
    Prop :=
  ∃ moment keys, (.considered t key settings :: moment) <:+ history ∧
    settingsAt moment = some settings ∧ .listed t keys ∈ moment ∧ key ∈ keys

/-- Request `t` is this call, about this key and under these settings. -/
structure Requested (history : List (Event KeyData)) (t : Nat) (call : Call KeyData) (key : VaultKey)
    (settings : AgentSettings) : Prop where
  began : .began t call ∈ history
  considered : Considered history t key settings

/-- The clock showed this time since the call began. -/
def ReadBy (history : List (Event KeyData)) (t now : Nat) : Prop :=
  ∃ moment, moment <:+ history ∧ Began moment t ∧ clockAt moment = some now

/-- The window shows the request and asks for its approval.  A window that only asks for the
passphrase does not. -/
structure ShownFor (call : Call KeyData) (key : VaultKey) (settings : AgentSettings)
    (prompt : AgentApprovalRequest) : Prop where
  keyName : prompt.keyName = key.name
  keyFingerprint : prompt.keyFingerprint = key.fingerprint
  programChain : prompt.programChain = (call.program.map (·.chain)).getD []
  user : prompt.user = call.request.user.map (shorten · maxShownChars)
  hostFingerprint : prompt.hostFingerprint = call.request.hostKey.map k.fingerprint
  minutes : prompt.rememberMinutes = rememberMinutes settings
  preapproved : prompt.preapproved = false

/-- At this moment the user has just allowed the request in a window that shows it. -/
structure Allows (moment : List (Event KeyData)) (t : Nat) (call : Call KeyData) (key : VaultKey)
    (settings : AgentSettings) (prompt : AgentApprovalRequest) (answer : AgentApprovalAnswer) : Prop where
  answered : ∃ earlier, moment = .answered t prompt (some answer) :: .chose t (some answer) :: earlier
  shown : ShownFor k call key settings prompt
  allow : answer.allow = true

/-- The approval window for the request was answered with allow. -/
def Allowed (history : List (Event KeyData)) (t : Nat) (call : Call KeyData) (key : VaultKey)
    (settings : AgentSettings) : Prop :=
  ∃ moment prompt answer, moment <:+ history ∧ Allows k moment t call key settings prompt answer

/-- Request `t` has the triple and was allowed. -/
def AllowedFor (history : List (Event KeyData)) (t : Nat) (triple : ApprovalKey) : Prop :=
  ∃ call key settings, Requested history t call key settings ∧ tripleOf k call key = some triple ∧
    Allowed k history t call key settings

/-- At some moment both calls were under way. -/
def Concurrent (history : List (Event KeyData)) (t u : Nat) : Prop :=
  ∃ earlier, earlier <:+ history ∧ Began earlier t ∧ Began earlier u ∧ ¬ Ended earlier t ∧
    ¬ Ended earlier u

/-- At that moment the request was allowed and asked to be remembered, in a window that offers it,
and nothing was cleared since. -/
structure AllowedToRemember (history moment : List (Event KeyData)) (t : Nat) (call : Call KeyData)
    (key : VaultKey) (settings : AgentSettings) : Prop where
  allows : ∃ prompt answer, Allows k moment t call key settings prompt answer ∧
    prompt.rememberable = true ∧ answer.remember = true
  uncleared : ∃ later, history = later ++ moment ∧ .cleared ∉ later

/-- The request was allowed to be remembered since the last `clear`, and the clock showed this time
since then. -/
def RememberedAt (history : List (Event KeyData)) (t : Nat) (call : Call KeyData) (key : VaultKey)
    (settings : AgentSettings) (now : Nat) : Prop :=
  ∃ moment reading, AllowedToRemember k history moment t call key settings ∧ moment <:+ reading ∧
    reading <:+ history ∧ clockAt reading = some now

/-- An approval for the triple was stored then, for the minutes of the request it comes from. -/
def Stored (history : List (Event KeyData)) (triple : ApprovalKey) (stored minutes : Nat) : Prop :=
  ∃ u call key settings, Requested history u call key settings ∧ tripleOf k call key = some triple ∧
    minutes = rememberMinutes settings ∧ .stored u triple stored minutes ∈ history ∧
    RememberedAt k history u call key settings stored

/-- An approval for the triple was stored from an answer received after the last `clear`, less
than its minutes ago. -/
def Kept (history : List (Event KeyData)) (triple : ApprovalKey) (now : Nat) : Prop :=
  ∃ stored minutes, Stored k history triple stored minutes ∧ now < stored + minutes * 60000

/-- After that moment call `u` found a remembered approval for the triple, in force at a time the
clock had shown since `u` began. -/
def FoundAt (history moment : List (Event KeyData)) (u : Nat) (triple : ApprovalKey) : Prop :=
  ∃ now, (.found u triple now :: moment) <:+ history ∧ ReadBy moment u now ∧ Kept k moment triple now

/-- A concurrent request with the triple was allowed. -/
def SharedAnswer (history : List (Event KeyData)) (t : Nat) (triple : ApprovalKey) : Prop :=
  ∃ u, Concurrent history t u ∧ AllowedFor k history u triple

/-- Since the call began, it or a concurrent one found a remembered approval for the triple that
was in force. -/
def Remembered (history : List (Event KeyData)) (t : Nat) (triple : ApprovalKey) : Prop :=
  ∃ u moment, FoundAt k history moment u triple ∧ (u = t ∨ Concurrent history t u) ∧ Began moment t

/-- What may authorise a call about this key under these settings. -/
def Authorised (history : List (Event KeyData)) (t : Nat) (call : Call KeyData) (key : VaultKey)
    (settings : AgentSettings) : Prop :=
  (call.grant = some { slotId := key.slotId } ∧ signablePublicKey k key = some call.request.key) ∨
  Allowed k history t call key settings ∨
  ∃ triple, tripleOf k call key = some triple ∧ settings.alwaysAsk = false ∧
    (SharedAnswer k history t triple ∨ Remembered k history t triple)

/-- The signature is over the request's data by the request's key, the request was not forwarded,
and something authorised it. -/
def SoundSignature (history : List (Event KeyData)) (t : Nat) (signature : Bytes) : Prop :=
  ∃ call key settings, Requested history t call key settings ∧ call.request.forwarded = false ∧
    (∃ material, k.keyData material = call.request.key ∧
      k.sign material call.request.data call.request.flags = .ok signature) ∧
    Authorised k history t call key settings

/-! ## Careful runs -/

/-- The call holds an answer to remember that it has not stored yet. -/
@[simp] def Phase.unstored : Phase KeyData Material → Bool
  | .unlocking _ (.allowed (some _) remember) _ => remember
  | .remembering .. => true
  | .storing .. => true
  | _ => false

/-- A `clear` finds no answer that is still to be stored, and a call only waits for one that has
not found a remembered approval before the waiting call began. -/
def Careful (w : World KeyData Material) : Label KeyData → Prop
  | .clear => ∀ t running, w.calls t = some running → running.phase.unstored = false
  | .step t _ =>
    ∀ running ask key leader, w.calls t = some running → running.phase = .joining ask key →
      w.broker.asking key = some leader →
      ∀ triple now earlier, (.found leader triple now :: earlier) <:+ w.history → Began earlier t
  | _ => True

/-! ## Evidence stays -/

section Growing

variable {k} {history moment : List (Event KeyData)} {t u : Nat} {triple : ApprovalKey}
  {call : Call KeyData} {key : VaultKey} {settings : AgentSettings}

theorem clockAt_append {events : List (Event KeyData)} (unset : ∀ now, .clock now ∉ events) :
    clockAt (events ++ history) = clockAt history := by
  rw [clockAt, List.findSome?_append, List.findSome?_eq_none_iff.mpr, Option.none_or, clockAt]
  intro e member
  split
  · exact absurd member (unset _)
  · rfl

theorem settingsAt_append {events : List (Event KeyData)} (unset : ∀ settings, .settings settings ∉ events) :
    settingsAt (events ++ history) = settingsAt history := by
  rw [settingsAt, List.findSome?_append, List.findSome?_eq_none_iff.mpr, Option.none_or, settingsAt]
  intro e member
  split
  · exact absurd member (unset _)
  · rfl

theorem Considered.grow (events : List (Event KeyData)) (h : Considered history t key settings) :
    Considered (events ++ history) t key settings := by
  obtain ⟨moment, keys, suffix, rest⟩ := h
  exact ⟨moment, keys, suffix.trans (List.suffix_append _ _), rest⟩

theorem Requested.grow (events : List (Event KeyData)) (h : Requested history t call key settings) :
    Requested (events ++ history) t call key settings :=
  ⟨List.mem_append_right _ h.began, h.considered.grow events⟩

theorem ReadBy.grow {now : Nat} (events : List (Event KeyData)) (h : ReadBy history t now) :
    ReadBy (events ++ history) t now := by
  obtain ⟨moment, suffix, rest⟩ := h
  exact ⟨moment, suffix.trans (List.suffix_append _ _), rest⟩

theorem Allowed.grow (events : List (Event KeyData)) (h : Allowed k history t call key settings) :
    Allowed k (events ++ history) t call key settings := by
  obtain ⟨moment, prompt, answer, suffix, allows⟩ := h
  exact ⟨moment, prompt, answer, suffix.trans (List.suffix_append _ _), allows⟩

theorem AllowedFor.grow (events : List (Event KeyData)) (h : AllowedFor k history t triple) :
    AllowedFor k (events ++ history) t triple := by
  obtain ⟨call, key, settings, requested, same, allowed⟩ := h
  exact ⟨call, key, settings, requested.grow events, same, allowed.grow events⟩

theorem Concurrent.grow (events : List (Event KeyData)) (h : Concurrent history t u) :
    Concurrent (events ++ history) t u := by
  obtain ⟨earlier, suffix, rest⟩ := h
  exact ⟨earlier, suffix.trans (List.suffix_append _ _), rest⟩

theorem FoundAt.grow (events : List (Event KeyData)) (h : FoundAt k history moment u triple) :
    FoundAt k (events ++ history) moment u triple := by
  obtain ⟨now, suffix, rest⟩ := h
  exact ⟨now, suffix.trans (List.suffix_append _ _), rest⟩

theorem SharedAnswer.grow (events : List (Event KeyData)) (h : SharedAnswer k history t triple) :
    SharedAnswer k (events ++ history) t triple := by
  obtain ⟨u, concurrent, allowed⟩ := h
  exact ⟨u, concurrent.grow events, allowed.grow events⟩

theorem Remembered.grow (events : List (Event KeyData)) (h : Remembered k history t triple) :
    Remembered k (events ++ history) t triple := by
  obtain ⟨u, moment, found, who, began⟩ := h
  exact ⟨u, moment, found.grow events, who.imp id (·.grow events), began⟩

theorem Authorised.grow (events : List (Event KeyData)) (h : Authorised k history t call key settings) :
    Authorised k (events ++ history) t call key settings := by
  obtain granted | allowed | ⟨triple, same, asks, shared | remembered⟩ := h
  · exact .inl granted
  · exact .inr (.inl (allowed.grow events))
  · exact .inr (.inr ⟨triple, same, asks, .inl (shared.grow events)⟩)
  · exact .inr (.inr ⟨triple, same, asks, .inr (remembered.grow events)⟩)

/-! What was allowed to be remembered stays so until a `clear`. -/

theorem AllowedToRemember.grow {events : List (Event KeyData)} (uncleared : .cleared ∉ events)
    (h : AllowedToRemember k history moment t call key settings) :
    AllowedToRemember k (events ++ history) moment t call key settings := by
  obtain ⟨allows, later, parts, before⟩ := h
  refine ⟨allows, events ++ later, ?_, ?_⟩
  · rw [parts, List.append_assoc]
  · rw [List.mem_append, not_or]
    exact ⟨uncleared, before⟩

theorem RememberedAt.grow {now : Nat} {events : List (Event KeyData)} (uncleared : .cleared ∉ events)
    (h : RememberedAt k history t call key settings now) :
    RememberedAt k (events ++ history) t call key settings now := by
  obtain ⟨moment, reading, allowed, since, suffix, shows⟩ := h
  exact ⟨moment, reading, allowed.grow uncleared, since, suffix.trans (List.suffix_append _ _), shows⟩

/-- What the clock shows now is a time since the answer. -/
theorem AllowedToRemember.rememberedAt {now : Nat} (shows : clockAt history = some now)
    (h : AllowedToRemember k history moment t call key settings) :
    RememberedAt k history t call key settings now := by
  obtain ⟨later, parts, _⟩ := h.uncleared
  exact ⟨moment, history, h, ⟨later, parts.symm⟩, List.suffix_refl _, shows⟩

theorem Stored.grow {stored minutes : Nat} {events : List (Event KeyData)} (uncleared : .cleared ∉ events)
    (h : Stored k history triple stored minutes) : Stored k (events ++ history) triple stored minutes := by
  obtain ⟨u, call, key, settings, requested, same, from_, event, remembered⟩ := h
  exact ⟨u, call, key, settings, requested.grow events, same, from_, List.mem_append_right _ event,
    remembered.grow uncleared⟩

end Growing

/-! ## The evidence a call carries -/

attribute [simp] Phase.ask Phase.first

/-- The settings a call still has to apply to its request. -/
@[simp] def Phase.settings : Phase KeyData Material → Option AgentSettings
  | .approving _ settings => some settings
  | .looking _ settings _ => some settings
  | _ => none

/-- The slot a call is about. -/
@[simp] def Phase.key (phase : Phase KeyData Material) : Option VaultKey :=
  match phase with
  | .picked key => some key
  | .settled key _ => some key
  | phase => phase.ask.map (·.key)

/-- The triple a call shares its question under. -/
@[simp] def Phase.triple (phase : Phase KeyData Material) : Option ApprovalKey :=
  match phase with
  | .joining _ key => some key
  | .waiting ask _ => ask.approvalKey
  | phase => phase.first

/-- The time a call looks for a remembered approval with. -/
@[simp] def Phase.lookedAt : Phase KeyData Material → Option Nat
  | .looking _ _ now => some now
  | .relooking _ _ now => some now
  | _ => none

/-- The time a call is about to store its approval with. -/
@[simp] def Phase.storedAt : Phase KeyData Material → Option Nat
  | .storing _ _ _ now => some now
  | _ => none

/-- Nothing but opening the key and signing is left to do. -/
@[simp] def Phase.granted : Phase KeyData Material → Bool
  | .unlocking .. => true
  | .remembering .. => true
  | .storing .. => true
  | .extending .. => true
  | .dropping _ _ material => material.isSome
  | .finishing _ material => material.isSome
  | .signing .. => true
  | _ => false

/-- The call no longer holds anything others wait for. -/
@[simp] def Phase.released : Phase KeyData Material → Bool
  | .signing .. => true
  | .returning _ => true
  | .finished => true
  | _ => false

/-- Places a call that others wait for can be at. -/
@[simp] def Phase.led (phase : Phase KeyData Material) : Bool :=
  match phase with
  | .finishing .. => true
  | phase => phase.released || phase.first.isSome

/-- The key a call settled on was chosen for it. -/
def Chosen (call : Call KeyData) (key : VaultKey) : Prop :=
  call.request.forwarded = false ∧ ∀ grant, call.grant = some grant →
    grant = { slotId := key.slotId } ∧ signablePublicKey k key = some call.request.key

/-- What the first of several calls goes by: its own answer, or what its second look found. -/
def Basis (history : List (Event KeyData)) (t : Nat) (triple : ApprovalKey) : Prop :=
  AllowedFor k history t triple ∨ ∃ moment, FoundAt k history moment t triple

/-- The evidence behind a request that is being shown. -/
structure Shows (history : List (Event KeyData)) (t : Nat) (running : Running KeyData Material)
    (ask : Ask KeyData) (settings : AgentSettings) : Prop where
  considered : Considered history t ask.key settings
  made : ∃ hostName, ask = Ask.make k running.call ask.key settings hostName
  applies : ∀ later, running.phase.settings = some later → later = settings
  triple : ∀ triple, running.phase.triple = some triple →
    ask.approvalKey = some triple ∧ settings.alwaysAsk = false
  granted : running.phase.granted = true → Authorised k history t running.call ask.key settings
  unstored : running.phase.unstored = true →
    ∃ moment, AllowedToRemember k history moment t running.call ask.key settings
  stores : ∀ now, running.phase.storedAt = some now →
    RememberedAt k history t running.call ask.key settings now

/-- The evidence call `t` carries at its place. -/
structure CallOk (history : List (Event KeyData)) (t : Nat) (running : Running KeyData Material) :
    Prop where
  began : .began t running.call ∈ history
  ended : running.phase ≠ .finished → ¬ Ended history t
  picked : ∀ key, running.phase = .picked key → ∃ keys, .listed t keys ∈ history ∧ key ∈ keys
  chosen : ∀ key, running.phase.key = some key → Chosen k running.call key
  settled : ∀ key settings, running.phase = .settled key settings → Considered history t key settings
  looks : ∀ now, running.phase.lookedAt = some now → ReadBy history t now
  shows : ∀ ask, running.phase.ask = some ask → ∃ settings, Shows k history t running ask settings
  basis : ∀ triple, running.phase.first = some triple → running.phase.granted = true →
    Basis k history t triple
  signature : ∀ signature, running.phase = .returning (some signature) →
    SoundSignature k history t signature

/-- What a call goes by that waits for call `u`. -/
def Follows (w : World KeyData Material) (t : Nat) (triple : ApprovalKey) (u : Nat) : Prop :=
  ∃ leading, w.calls u = some leading ∧ leading.phase.led = true ∧
    (∀ other, leading.phase.first = some other → other = triple) ∧ Concurrent w.history t u ∧
    (w.broker.answers u = some true ∨ leading.phase.granted = true →
      SharedAnswer k w.history t triple ∨ Remembered k w.history t triple)

/-- An approval expiring then was stored from an answer received after the last `clear`. -/
def StoredUntil (history : List (Event KeyData)) (triple : ApprovalKey) (expires : Nat) : Prop :=
  ∃ stored minutes, Stored k history triple stored minutes ∧ expires = expiry stored minutes

structure Inv (w : World KeyData Material) : Prop where
  clock : clockAt w.history = some w.clock
  settings : settingsAt w.history = some w.settings
  calls : ∀ t running, w.calls t = some running → CallOk k w.history t running
  noted : ∀ t, Began w.history t ∨ Ended w.history t → ∃ running, w.calls t = some running
  approvals : ∀ triple expires, w.broker.approvals triple = some expires →
    StoredUntil k w.history triple expires
  asking : ∀ triple u, w.broker.asking triple = some u ↔
    ∃ running, w.calls u = some running ∧ running.phase.first = some triple
  answers : ∀ u allowed, w.broker.answers u = some allowed →
    ∃ running, w.calls u = some running ∧ running.phase.released = true
  follows : ∀ t running ask u, w.calls t = some running → running.phase = .waiting ask u →
    ∃ triple, ask.approvalKey = some triple ∧ Follows k w t triple u
  signed : ∀ t signature earlier, (.ended t (some signature) :: earlier) <:+ w.history →
    SoundSignature k earlier t signature

section Growing

variable {k} {history : List (Event KeyData)} {t : Nat} {running : Running KeyData Material}

theorem Basis.grow {triple : ApprovalKey} (events : List (Event KeyData))
    (h : Basis k history t triple) : Basis k (events ++ history) t triple := by
  obtain allowed | ⟨moment, found⟩ := h
  · exact .inl (allowed.grow events)
  · exact .inr ⟨moment, found.grow events⟩

/-- Only a `clear` would take away an answer that is still to be stored. -/
theorem Shows.grow {ask : Ask KeyData} {settings : AgentSettings} {events : List (Event KeyData)}
    (h : Shows k history t running ask settings)
    (uncleared : .cleared ∉ events ∨ running.phase.unstored = false) :
    Shows k (events ++ history) t running ask settings where
  considered := h.considered.grow events
  made := h.made
  applies := h.applies
  triple := h.triple
  granted granted := (h.granted granted).grow events
  unstored still := by
    obtain uncleared | stored := uncleared
    · obtain ⟨moment, allowed⟩ := h.unstored still
      exact ⟨moment, allowed.grow uncleared⟩
    · rw [stored] at still
      cases still
  stores now at_ := by
    obtain uncleared | stored := uncleared
    · exact (h.stores now at_).grow uncleared
    · obtain ⟨call, phase⟩ := running
      cases phase <;> simp at at_ stored

theorem SoundSignature.grow {signature : Bytes} (events : List (Event KeyData))
    (h : SoundSignature k history t signature) : SoundSignature k (events ++ history) t signature := by
  obtain ⟨call, key, settings, requested, plain, signed, authorised⟩ := h
  exact ⟨call, key, settings, requested.grow events, plain, signed, authorised.grow events⟩

/-- A call's evidence outlives what others do.  Only its own end and a `clear` over an unstored
answer would take some of it away. -/
theorem CallOk.grow {events : List (Event KeyData)} (h : CallOk k history t running)
    (unended : ¬ Ended events t)
    (uncleared : .cleared ∉ events ∨ running.phase.unstored = false) :
    CallOk k (events ++ history) t running where
  began := List.mem_append_right _ h.began
  ended := by
    intro unfinished ⟨signature, ended⟩
    obtain now | before := List.mem_append.1 ended
    · exact unended ⟨signature, now⟩
    · exact h.ended unfinished ⟨signature, before⟩
  picked key at_ := by
    obtain ⟨keys, listed, member⟩ := h.picked key at_
    exact ⟨keys, List.mem_append_right _ listed, member⟩
  chosen := h.chosen
  settled key settings at_ := (h.settled key settings at_).grow events
  looks now at_ := (h.looks now at_).grow events
  shows ask shown := by
    obtain ⟨settings, shows⟩ := h.shows ask shown
    exact ⟨settings, shows.grow uncleared⟩
  basis triple first granted := (h.basis triple first granted).grow events
  signature signature at_ := (h.signature signature at_).grow events

theorem StoredUntil.grow {triple : ApprovalKey} {expires : Nat} {events : List (Event KeyData)}
    (uncleared : .cleared ∉ events) (h : StoredUntil k history triple expires) :
    StoredUntil k (events ++ history) triple expires := by
  obtain ⟨stored, minutes, event, expiry⟩ := h
  exact ⟨stored, minutes, event.grow uncleared, expiry⟩

theorem StoredUntil.kept {triple : ApprovalKey} {expires now : Nat}
    (h : StoredUntil k history triple expires) (early : now < expires) : Kept k history triple now := by
  obtain ⟨stored, minutes, event, rfl⟩ := h
  exact ⟨stored, minutes, event, lt_of_lt_expiry early⟩

end Growing

/-! What is shown comes from the request. -/

section Shown

variable {k} {history : List (Event KeyData)} {t : Nat} {running : Running KeyData Material}
  {ask : Ask KeyData} {settings : AgentSettings}

theorem Shows.request (h : Shows k history t running ask settings) : ask.request = running.call.request := by
  obtain ⟨hostName, made⟩ := h.made
  exact congrArg (·.request) made

theorem Shows.minutes (h : Shows k history t running ask settings) : ask.minutes = rememberMinutes settings := by
  obtain ⟨hostName, made⟩ := h.made
  exact congrArg (·.minutes) made

theorem Shows.approvalKey (h : Shows k history t running ask settings) :
    ask.approvalKey = tripleOf k running.call ask.key := by
  obtain ⟨hostName, made⟩ := h.made
  exact congrArg (·.approvalKey) made

/-- The window shows the request the call came with. -/
theorem Shows.shownFor (h : Shows k history t running ask settings) (needsPassphrase rememberable : Bool)
    (passphraseError : Option String) :
    ShownFor k running.call ask.key settings
      (ask.prompt false needsPassphrase rememberable passphraseError) := by
  obtain ⟨hostName, made⟩ := h.made
  have request := h.request
  have fields : ask.program = running.call.program ∧
      ask.hostFingerprint = running.call.request.hostKey.map k.fingerprint :=
    ⟨congrArg (·.program) made, congrArg (·.hostFingerprint) made⟩
  constructor
  · rfl
  · rfl
  · rw [← fields.1]
    rfl
  · rw [← request]
    rfl
  · exact fields.2
  · exact h.minutes
  · rfl

end Shown

/-! ## One step of a call -/

/-- What a step of call `t` from `phase` has to bring for the invariant to go on. -/
structure Move (w : World KeyData Material) (t : Nat) (call : Call KeyData)
    (phase : Phase KeyData Material) (effect : Effect KeyData Material) : Prop where
  clock : clockAt (effect.events ++ w.history) = clockAt w.history
  settings : settingsAt (effect.events ++ w.history) = settingsAt w.history
  uncleared : .cleared ∉ effect.events
  unbegun : ∀ u, ¬ Began effect.events u
  unended : ∀ u, u ≠ t → ¬ Ended effect.events u
  signed : ∀ u signature, .ended u (some signature) ∈ effect.events →
    effect.events = [.ended u (some signature)] ∧ SoundSignature k w.history u signature
  ok : CallOk k (effect.events ++ w.history) t { call, phase := effect.phase }
  approvals : ∀ triple expires, effect.broker.approvals triple = some expires →
    w.broker.approvals triple = some expires ∨
      StoredUntil k (effect.events ++ w.history) triple expires
  asking : ∀ triple u, effect.broker.asking triple = some u ↔
    u = t ∧ effect.phase.first = some triple ∨ u ≠ t ∧ w.broker.asking triple = some u
  answers : ∀ u allowed, effect.broker.answers u = some allowed →
    w.broker.answers u = some allowed ∨
      u = t ∧ effect.phase.released = true ∧ (allowed = true → phase.granted = true)
  led : phase.led = true → effect.phase.led = true
  released : phase.released = true → effect.phase.released = true
  first : ∀ triple, phase.led = true → effect.phase.first = some triple → phase.first = some triple
  granted : phase.led = true → effect.phase.granted = true → phase.granted = true ∨
    ∃ triple, phase.first = some triple ∧ ∀ u, Began w.history u →
      Concurrent (effect.events ++ w.history) u t →
      SharedAnswer k (effect.events ++ w.history) u triple ∨
        Remembered k (effect.events ++ w.history) u triple
  follows : ∀ ask u, effect.phase = .waiting ask u → u ≠ t ∧
    ∃ triple, ask.approvalKey = some triple ∧
      Follows k { w with history := effect.events ++ w.history } t triple u

section Moves

variable {k} {w : World KeyData Material} {t : Nat} {call : Call KeyData}
  {phase : Phase KeyData Material} {effect : Effect KeyData Material}

theorem suffix_of_not_mem {α : Type} {events history earlier : List α} {e : α} (new : e ∉ events)
    (suffix : (e :: earlier) <:+ events ++ history) : (e :: earlier) <:+ history := by
  induction events with
  | nil => exact suffix
  | cons head rest ih =>
    simp only [List.mem_cons, not_or] at new
    obtain same | suffix := List.suffix_cons_iff.1 suffix
    · cases same
      exact absurd rfl new.1
    · exact ih new.2 suffix

/-- The world after a step of call `t`. -/
def World.after (w : World KeyData Material) (t : Nat) (call : Call KeyData)
    (effect : Effect KeyData Material) : World KeyData Material :=
  { w.setPhase t call effect.phase with
    broker := effect.broker
    history := effect.events ++ w.history }

theorem World.after_calls_self : (w.after t call effect).calls t = some { call, phase := effect.phase } :=
  if_pos rfl

theorem World.after_calls_ne {u : Nat} (ne : u ≠ t) : (w.after t call effect).calls u = w.calls u :=
  if_neg ne

/-- Waiting for another call is not affected by a step of a third one, and what the leading
call gains by its own step is handed on. -/
theorem Follows.after (move : Move k w t call phase effect) (at_ : w.calls t = some { call, phase })
    (waits : Nat) (began : Began w.history waits) {triple : ApprovalKey} {u : Nat}
    (h : Follows k w waits triple u) : Follows k (w.after t call effect) waits triple u := by
  obtain ⟨leading, found, led, first, concurrent, outcome⟩ := h
  have concurrent' := concurrent.grow effect.events
  have grown : SharedAnswer k w.history waits triple ∨ Remembered k w.history waits triple →
      SharedAnswer k (effect.events ++ w.history) waits triple ∨
        Remembered k (effect.events ++ w.history) waits triple :=
    Or.imp (·.grow effect.events) (·.grow effect.events)
  by_cases self : u = t
  · subst self
    rw [at_] at found
    cases found
    refine ⟨_, World.after_calls_self, move.led led, fun other h => first other (move.first other led h),
      concurrent', ?_⟩
    -- either the leader had its grant before this step, or the step itself brought it
    have fromGrant (granted : phase.granted = true) :
        SharedAnswer k (effect.events ++ w.history) waits triple ∨
          Remembered k (effect.events ++ w.history) waits triple := grown (outcome (.inr granted))
    rintro (answered | granted)
    · obtain before | ⟨-, -, granted⟩ := move.answers u true answered
      · exact grown (outcome (.inl before))
      · exact fromGrant (granted rfl)
    · obtain before | ⟨own, leads, brings⟩ := move.granted led granted
      · exact fromGrant before
      · rw [first own leads] at brings
        exact brings waits began concurrent'
  · refine ⟨leading, (World.after_calls_ne self).trans found, led, first, concurrent', ?_⟩
    intro h
    apply grown
    apply outcome
    refine h.imp (fun answered => ?_) id
    obtain before | ⟨own, -⟩ := move.answers u true answered
    · exact before
    · exact absurd own self

theorem Inv.after (inv : Inv k w) (at_ : w.calls t = some { call, phase })
    (move : Move k w t call phase effect) : Inv k (w.after t call effect) where
  clock := move.clock.trans inv.clock
  settings := move.settings.trans inv.settings
  calls u running found := by
    -- a call other than the one that moved keeps its place, and its facts grow with the history
    by_cases self : u = t
    · subst self
      rw [World.after_calls_self] at found
      cases found
      exact move.ok
    · rw [World.after_calls_ne self] at found
      exact (inv.calls u running found).grow (move.unended u self) (.inl move.uncleared)
  noted u h := by
    by_cases self : u = t
    · subst self
      exact ⟨_, World.after_calls_self⟩
    · rw [World.after_calls_ne self]
      apply inv.noted u
      obtain ⟨c, began⟩ | ⟨signature, ended⟩ := h
      · obtain now | before := List.mem_append.1 began
        · exact absurd ⟨c, now⟩ (move.unbegun u)
        · exact .inl ⟨c, before⟩
      · obtain now | before := List.mem_append.1 ended
        · exact absurd ⟨signature, now⟩ (move.unended u self)
        · exact .inr ⟨signature, before⟩
  approvals triple expires found := by
    obtain before | stored := move.approvals triple expires found
    · exact (inv.approvals triple expires before).grow move.uncleared
    · exact stored
  asking triple u := by
    refine (move.asking triple u).trans ?_
    by_cases self : u = t
    · subst self
      rw [World.after_calls_self]
      simp
    · rw [World.after_calls_ne self, inv.asking triple u]
      simp [self]
  answers u allowed found := by
    by_cases self : u = t
    · subst self
      refine ⟨_, World.after_calls_self, ?_⟩
      obtain before | ⟨-, released, -⟩ := move.answers u allowed found
      · obtain ⟨running, same, released⟩ := inv.answers u allowed before
        rw [at_] at same
        cases same
        exact move.released released
      · exact released
    · rw [World.after_calls_ne self]
      obtain before | ⟨own, -⟩ := move.answers u allowed found
      · exact inv.answers u allowed before
      · exact absurd own self
  follows waits running ask u found waiting := by
    -- a call that begins to wait has a leader now; one that waited already keeps the leader it had
    by_cases self : waits = t
    · subst self
      rw [World.after_calls_self] at found
      cases found
      obtain ⟨other, triple, same, leading, found, led, first, concurrent, outcome⟩ :=
        move.follows ask u waiting
      refine ⟨triple, same, leading, (World.after_calls_ne other).trans found, led, first, concurrent, ?_⟩
      intro h
      apply outcome
      refine h.imp (fun answered => ?_) id
      obtain before | ⟨own, -⟩ := move.answers u true answered
      · exact before
      · exact absurd own other
    · rw [World.after_calls_ne self] at found
      obtain ⟨triple, same, follows⟩ := inv.follows waits running ask u found waiting
      exact ⟨triple, same, follows.after move at_ waits ⟨_, (inv.calls waits running found).began⟩⟩
  signed u signature earlier suffix := by
    -- a signature of this step is the newest entry, all others stand in the history before it
    by_cases new : .ended u (some signature) ∈ effect.events
    · obtain ⟨only, sound⟩ := move.signed u signature new
      change _ <:+ effect.events ++ w.history at suffix
      rw [only] at suffix
      obtain same | before := List.suffix_cons_iff.1 suffix
      · cases same
        exact sound
      · exact inv.signed u signature earlier before
    · exact inv.signed u signature earlier (suffix_of_not_mem new suffix)

/-- The next place needs no evidence that the place before did not have. -/
structure Quiet (phase next : Phase KeyData Material) : Prop where
  unfinished : phase ≠ .finished
  unpicked : ∀ key, next ≠ .picked key
  unsettled : ∀ key settings, next ≠ .settled key settings
  unsigned : ∀ signature, next ≠ .returning (some signature)
  unwaiting : ∀ ask u, next ≠ .waiting ask u
  key : ∀ key, next.key = some key → phase.key = some key
  ask : ∀ ask, next.ask = some ask → phase.ask = some ask
  settings : ∀ settings, next.settings = some settings → phase.settings = some settings
  triple : ∀ triple, next.triple = some triple → phase.triple = some triple
  looked : ∀ now, next.lookedAt = some now → phase.lookedAt = some now
  stored : ∀ now, next.storedAt = some now → phase.storedAt = some now
  first : next.first = phase.first
  granted : next.granted = true → phase.granted = true
  unstored : next.unstored = true → phase.unstored = true
  led : phase.led = true → next.led = true
  released : phase.released = true → next.released = true

theorem CallOk.quiet {history : List (Event KeyData)} {next : Phase KeyData Material}
    (h : CallOk k history t { call, phase }) (quiet : Quiet phase next) :
    CallOk k history t { call, phase := next } where
  began := h.began
  ended _ := h.ended quiet.unfinished
  picked key same := absurd same (quiet.unpicked key)
  chosen key same := h.chosen key (quiet.key key same)
  settled key settings same := absurd same (quiet.unsettled key settings)
  looks now same := h.looks now (quiet.looked now same)
  shows ask same := by
    obtain ⟨settings, shows⟩ := h.shows ask (quiet.ask ask same)
    exact ⟨settings,
      { considered := shows.considered
        made := shows.made
        applies := fun later same => shows.applies later (quiet.settings later same)
        triple := fun triple same => shows.triple triple (quiet.triple triple same)
        granted := fun granted => shows.granted (quiet.granted granted)
        unstored := fun still => shows.unstored (quiet.unstored still)
        stores := fun now same => shows.stores now (quiet.stored now same) }⟩
  basis triple same granted := by
    have same : phase.first = some triple := quiet.first ▸ same
    exact h.basis triple same (quiet.granted granted)
  signature signature same := absurd same (quiet.unsigned signature)

/-- A call goes on with the request it has shown. -/
theorem CallOk.go {history : List (Event KeyData)} {next : Phase KeyData Material} {ask : Ask KeyData}
    (h : CallOk k history t { call, phase }) (settings : AgentSettings)
    (unfinished : phase ≠ .finished) (key : phase.key = some ask.key) (shown : next.ask = some ask)
    (key' : next.key = some ask.key) (looks : ∀ now, next.lookedAt = some now → ReadBy history t now)
    (shows : Shows k history t { call, phase := next } ask settings)
    (basis : ∀ triple, next.first = some triple → next.granted = true → Basis k history t triple) :
    CallOk k history t { call, phase := next } where
  began := h.began
  ended _ := h.ended unfinished
  picked _ same := by
    dsimp only at same
    rw [same] at shown
    cases shown
  chosen other same := by
    rw [key'] at same
    cases same
    exact h.chosen _ key
  settled _ _ same := by
    dsimp only at same
    rw [same] at shown
    cases shown
  looks := looks
  shows other same := by
    rw [shown] at same
    cases same
    exact ⟨settings, shows⟩
  basis := basis
  signature _ same := by
    dsimp only at same
    rw [same] at shown
    cases shown

/-- What is noted on the way of a call, without beginning or ending, a `clear` or a change of the
clock or the settings. -/
def Event.passing : Event KeyData → Bool
  | .clock _ => false
  | .settings _ => false
  | .began .. => false
  | .cleared => false
  | .ended .. => false
  | _ => true

theorem not_ended_of_passing {events : List (Event KeyData)} (passing : ∀ e ∈ events, e.passing = true)
    (u : Nat) : ¬ Ended events u := by
  rintro ⟨_, mem⟩
  cases passing _ mem

theorem not_cleared_of_passing {events : List (Event KeyData)}
    (passing : ∀ e ∈ events, e.passing = true) : .cleared ∉ events := by
  intro mem
  cases passing _ mem

theorem clockAt_passing {events history : List (Event KeyData)} (passing : ∀ e ∈ events, e.passing = true) :
    clockAt (events ++ history) = clockAt history := by
  apply clockAt_append
  intro now mem
  cases passing _ mem

theorem settingsAt_passing {events history : List (Event KeyData)}
    (passing : ∀ e ∈ events, e.passing = true) :
    settingsAt (events ++ history) = settingsAt history := by
  apply settingsAt_append
  intro settings mem
  cases passing _ mem

/-- A step that leaves the maps of asking and answered calls alone. -/
theorem Inv.plainMove (inv : Inv k w) (at_ : w.calls t = some { call, phase })
    (passing : ∀ e ∈ effect.events, e.passing = true)
    (ok : CallOk k (effect.events ++ w.history) t { call, phase := effect.phase })
    (approvals : ∀ triple expires, effect.broker.approvals triple = some expires →
      w.broker.approvals triple = some expires ∨
        StoredUntil k (effect.events ++ w.history) triple expires)
    (asking : effect.broker.asking = w.broker.asking) (first : effect.phase.first = phase.first)
    (answers : effect.broker.answers = w.broker.answers)
    (led : phase.led = true → effect.phase.led = true)
    (released : phase.released = true → effect.phase.released = true)
    (granted : phase.led = true → effect.phase.granted = true → phase.granted = true ∨
      ∃ triple, phase.first = some triple ∧ ∀ u, Began w.history u →
        Concurrent (effect.events ++ w.history) u t →
        SharedAnswer k (effect.events ++ w.history) u triple ∨
          Remembered k (effect.events ++ w.history) u triple)
    (follows : ∀ ask u, effect.phase = .waiting ask u → u ≠ t ∧
      ∃ triple, ask.approvalKey = some triple ∧
        Follows k { w with history := effect.events ++ w.history } t triple u) :
    Move k w t call phase effect where
  clock := clockAt_passing passing
  settings := settingsAt_passing passing
  uncleared := not_cleared_of_passing passing
  unbegun u := by
    rintro ⟨_, mem⟩
    cases passing _ mem
  unended u _ := not_ended_of_passing passing u
  signed u signature mem := by cases passing _ mem
  ok := ok
  approvals := approvals
  asking triple u := by
    rw [asking, first]
    by_cases self : u = t
    · subst self
      rw [inv.asking triple u, at_]
      simp
    · simp [self]
  answers u allowed found := .inl (answers ▸ found)
  led := led
  released := released
  first triple _ same := first ▸ same
  granted := granted
  follows := follows

/-- A quiet step. -/
theorem Inv.quietMove (inv : Inv k w) (at_ : w.calls t = some { call, phase })
    (quiet : Quiet phase effect.phase) (passing : ∀ e ∈ effect.events, e.passing = true)
    (approvals : ∀ triple expires, effect.broker.approvals triple = some expires →
      w.broker.approvals triple = some expires ∨
        StoredUntil k (effect.events ++ w.history) triple expires)
    (asking : effect.broker.asking = w.broker.asking)
    (answers : effect.broker.answers = w.broker.answers) :
    Move k w t call phase effect := by
  apply inv.plainMove at_ passing ?_ approvals asking quiet.first answers quiet.led quiet.released
  · intro _ granted
    exact .inl (quiet.granted granted)
  · intro ask u same
    exact absurd same (quiet.unwaiting ask u)
  · apply ((inv.calls t _ at_).quiet quiet).grow (not_ended_of_passing passing t)
    exact .inl (not_cleared_of_passing passing)

/-! The places before a request is shown. -/

variable [DecidableEq KeyData]

theorem chooseKey_chosen {keys : List VaultKey} {key : VaultKey} (plain : call.request.forwarded = false)
    (h : chooseKey k call keys = some key) : Chosen k call key := by
  refine ⟨plain, fun grant granted => ?_⟩
  simp only [chooseKey, granted, Option.filter_eq_some_iff, decide_eq_true_eq] at h
  obtain ⟨found, names⟩ := h
  have slot := List.find?_some found
  simp only [decide_eq_true_eq] at slot
  exact ⟨by rw [slot], names⟩

theorem mem_of_chooseKey {keys : List VaultKey} {key : VaultKey} (h : chooseKey k call keys = some key) :
    key ∈ keys := by
  unfold chooseKey at h
  split at h
  · exact List.mem_of_find?_eq_some (Option.filter_eq_some_iff.mp h).1
  · exact List.mem_of_find?_eq_some h

omit [DecidableEq KeyData] in
theorem noted_keys {reply : Reply} {keys : List VaultKey} (given : reply.keys? = some keys) :
    (.listed t keys : Event KeyData) ∈ reply.noted t := by
  cases reply <;> simp_all [Reply.keys?, Reply.noted]

theorem calledMove {clock : Nat} {settings : AgentSettings} {reply : Reply} (inv : Inv k w)
    (at_ : w.calls t = some { call, phase := .called }) (noted : ∀ e ∈ reply.noted t, e ∈ w.history)
    (h : callStep k t call clock settings reply w.broker .called = some effect) :
    Move k w t call .called effect := by
  simp only [callStep] at h
  split at h
  · cases h
    exact inv.quietMove at_ (by constructor <;> simp) (by simp) (fun _ _ => .inl) rfl rfl
  · rename_i plain
    simp only [Option.bind_eq_bind, Option.bind_eq_some_iff] at h
    obtain ⟨keys, given, h⟩ := h
    split at h
    · rename_i key chosen
      cases h
      have before := inv.calls t _ at_
      have listed : .listed t keys ∈ w.history := noted _ (noted_keys given)
      apply inv.plainMove at_ (by simp) ?_ (fun _ _ => .inl) rfl rfl rfl <;> simp
      constructor
      · exact before.began
      · exact fun _ => before.ended (by simp)
      · simp only [Phase.picked.injEq, forall_eq']
        exact ⟨keys, listed, mem_of_chooseKey chosen⟩
      · simp only [Phase.key, Option.some.injEq, forall_eq']
        exact chooseKey_chosen (by simpa using plain) chosen
      all_goals simp
    · cases h
      exact inv.quietMove at_ (by constructor <;> simp) (by simp) (fun _ _ => .inl) rfl rfl

omit [DecidableEq KeyData] in
theorem pickedMove {key : VaultKey} (inv : Inv k w) (at_ : w.calls t = some { call, phase := .picked key }) :
    Move k w t call (.picked key)
      { phase := .settled key w.settings, broker := w.broker
        events := [.considered t key w.settings] } := by
  obtain ⟨keys, listed, member⟩ := (inv.calls t _ at_).picked key rfl
  have before : CallOk k ([.considered t key w.settings] ++ w.history) t _ :=
    (inv.calls t _ at_).grow (by simp [Ended]) (.inl (by simp))
  have considered : Considered ([.considered t key w.settings] ++ w.history) t key w.settings :=
    ⟨w.history, keys, List.suffix_refl _, inv.settings, listed, member⟩
  apply inv.plainMove at_ (by simp [Event.passing]) ?_ (fun _ _ => .inl) rfl rfl rfl <;> simp
  constructor
  · exact before.began
  · exact fun _ => before.ended (by simp)
  · simp
  · exact before.chosen
  · rintro _ _ same
    cases same
    exact considered
  all_goals simp

/-- A request is shown for the first time: through a grant it is authorised at once. -/
theorem settledMove {key : VaultKey} {settings : AgentSettings} {clock : Nat} {now : AgentSettings}
    {reply : Reply} (inv : Inv k w) (at_ : w.calls t = some { call, phase := .settled key settings })
    (h : callStep k t call clock now reply w.broker (.settled key settings) = some effect) :
    Move k w t call (.settled key settings) effect := by
  have before := inv.calls t _ at_
  have chosen : Chosen k call key := before.chosen key rfl
  have considered := before.settled key settings rfl
  simp only [callStep, Option.bind_eq_bind, Option.bind_eq_some_iff] at h
  obtain ⟨name, -, h⟩ := h
  split at h
  · rename_i granted
    cases h
    obtain ⟨grant, granted⟩ := Option.isSome_iff_exists.1 granted
    obtain ⟨slot, names⟩ := chosen.2 grant granted
    apply inv.plainMove at_ (by simp) ?_ (fun _ _ => .inl) rfl rfl rfl <;> simp
    constructor
    · exact before.began
    · exact fun _ => before.ended (by simp)
    · simp
    · simpa [Ask.make] using chosen
    · simp
    · simp
    · simp only [Phase.ask, Option.some.injEq, forall_eq']
      refine ⟨settings, considered, ⟨name, rfl⟩, by simp, by simp, ?_, by simp, by simp⟩
      intro _
      exact .inl ⟨by rw [granted, slot]; rfl, names⟩
    all_goals simp
  · cases h
    apply inv.plainMove at_ (by simp) ?_ (fun _ _ => .inl) rfl rfl rfl <;> simp
    constructor
    · exact before.began
    · exact fun _ => before.ended (by simp)
    · simp
    · simpa [Ask.make] using chosen
    · simp
    · simp
    · simp only [Phase.ask, Option.some.injEq, forall_eq']
      exact ⟨settings, considered, ⟨name, rfl⟩, by simp, by simp, by simp, by simp, by simp⟩
    all_goals simp

/-! Looking for a remembered approval. -/

omit [DecidableEq KeyData] in
/-- What the clock shows is read since a call began that has begun. -/
theorem Inv.readBy (inv : Inv k w) (at_ : w.calls t = some { call, phase }) : ReadBy w.history t w.clock :=
  ⟨w.history, List.suffix_refl _, ⟨_, (inv.calls t _ at_).began⟩, inv.clock⟩

omit [DecidableEq KeyData] in
theorem approvingMove {ask : Ask KeyData} {settings : AgentSettings} (inv : Inv k w)
    (at_ : w.calls t = some { call, phase := .approving ask settings }) :
    Move k w t call (.approving ask settings)
      { phase := .looking ask settings w.clock, broker := w.broker } := by
  have before := inv.calls t _ at_
  obtain ⟨read, shows⟩ := before.shows ask rfl
  apply inv.plainMove at_ (by simp) ?_ (fun _ _ => .inl) rfl rfl rfl <;> simp
  apply before.go read (by simp) rfl rfl rfl
  · rintro _ ⟨⟩
    exact inv.readBy at_
  · exact { shows with triple := by simp, granted := by simp, unstored := by simp, stores := by simp }
  · simp

omit [DecidableEq KeyData] in
theorem leadingMove {ask : Ask KeyData} {triple : ApprovalKey} (inv : Inv k w)
    (at_ : w.calls t = some { call, phase := .leading ask triple }) :
    Move k w t call (.leading ask triple) { phase := .relooking ask triple w.clock, broker := w.broker } := by
  have before := inv.calls t _ at_
  obtain ⟨read, shows⟩ := before.shows ask rfl
  apply inv.plainMove at_ (by simp) ?_ (fun _ _ => .inl) rfl rfl rfl <;> simp
  apply before.go read (by simp) rfl rfl rfl
  · rintro _ ⟨⟩
    exact inv.readBy at_
  · exact { shows with applies := by simp, granted := by simp, unstored := by simp, stores := by simp }
  · simp

omit [DecidableEq KeyData] in
theorem isRemembered_kept {triple : ApprovalKey} {now : Nat} (inv : Inv k w)
    (found : (w.broker.approvals.isRemembered triple now).1 = true) : Kept k w.history triple now := by
  obtain ⟨expires, kept⟩ := Option.isSome_iff_exists.1 found
  obtain ⟨stored, early⟩ := ApprovalCache.prune_eq_some.1 kept
  exact (inv.approvals triple expires stored).kept early

theorem strict_of_verdict {settings : AgentSettings} {known remembered : Bool} {v : Verdict}
    (h : verdict {} settings known remembered = v) (asks : v ≠ .Ask false) :
    settings.alwaysAsk = false := by
  by_contra strict
  simp only [Bool.not_eq_false] at strict
  exact asks (by simp [← h, verdict, strict])

theorem remembered_of_verdict {settings : AgentSettings} {known remembered : Bool}
    (h : verdict {} settings known remembered = .Remembered) : remembered = true := by
  unfold verdict at h
  split at h
  · cases h
  · split at h
    · assumption
    · cases h

theorem lookingMove {ask : Ask KeyData} {settings : AgentSettings} {now clock : Nat}
    {later : AgentSettings} {reply : Reply} (inv : Inv k w)
    (at_ : w.calls t = some { call, phase := .looking ask settings now })
    (h : callStep k t call clock later reply w.broker (.looking ask settings now) = some effect) :
    Move k w t call (.looking ask settings now) effect := by
  have before := inv.calls t _ at_
  obtain ⟨read, shows⟩ := before.shows ask rfl
  have same : settings = read := shows.applies settings rfl
  subst same
  simp only [callStep] at h
  split at h
  · -- a host or program that is unknown is always asked about
    have unknown : verdict {} settings false false = .Ask false := by simp [verdict]
    simp only [unknown] at h
    cases h
    exact inv.quietMove at_ (by constructor <;> simp) (by simp) (fun _ _ => .inl) rfl rfl
  · rename_i triple known
    have asks : tripleOf k call ask.key = some triple := shows.approvalKey ▸ known
    have pruned (other : ApprovalKey) (expires : Nat)
        (found : (w.broker.approvals.isRemembered triple now).2 other = some expires) :
        w.broker.approvals other = some expires := (ApprovalCache.prune_eq_some.1 found).1
    split at h
    · -- an approval that is remembered answers in place of the person
      rename_i remembered
      have found := remembered_of_verdict remembered
      cases h
      rw [if_pos found]
      have grown : CallOk k ([.found t triple now] ++ w.history) t _ :=
        before.grow (by simp [Ended]) (.inl (by simp))
      have shows : Shows k ([.found t triple now] ++ w.history) t _ ask settings := shows.grow (.inl (by simp))
      have relaxed := strict_of_verdict remembered (by simp)
      have authorised : Authorised k ([.found t triple now] ++ w.history) t call ask.key settings := by
        refine .inr (.inr ⟨triple, asks, relaxed, .inr ?_⟩)
        have found : FoundAt k ([.found t triple now] ++ w.history) w.history t triple :=
          ⟨now, List.suffix_refl _, before.looks now rfl, isRemembered_kept inv found⟩
        exact ⟨t, w.history, found, .inl rfl, ⟨_, before.began⟩⟩
      apply inv.plainMove at_ (by simp [Event.passing]) ?_
        (fun other expires found => .inl (pruned other expires found)) rfl rfl rfl <;> simp
      apply grown.go settings (by simp) rfl rfl rfl (by simp) ?_ (by simp)
      exact { shows with
        triple := by simp
        applies := by simp
        granted := fun _ => authorised
        unstored := by simp
        stores := by simp }
    · cases h
      refine inv.quietMove at_ (by constructor <;> simp) ?_
        (fun other expires found => .inl (pruned other expires found)) rfl rfl
      intro e
      dsimp only
      split <;> simp +contextual [Event.passing]
    · -- nothing is remembered, so the person is asked
      rename_i asked
      have relaxed := strict_of_verdict asked (by simp)
      have unfound : (w.broker.approvals.isRemembered triple now).1 = false := by
        by_contra found
        simp [verdict, relaxed, Bool.eq_true_of_not_eq_false found] at asked
      cases h
      rw [unfound]
      apply inv.plainMove at_ (by simp) ?_
        (fun other expires found => .inl (pruned other expires found)) rfl rfl rfl <;> simp
      apply before.go settings (by simp) rfl rfl rfl (by simp) ?_ (by simp)
      refine { shows with
        applies := by simp, granted := by simp, triple := ?_, unstored := by simp, stores := by simp }
      intro other same
      simp only [Phase.triple, Option.some.injEq] at same
      exact ⟨same ▸ known, relaxed⟩

/-! Sharing one question. -/

omit [DecidableEq KeyData] in
theorem led_of_first {triple : ApprovalKey} (leads : phase.first = some triple) : phase.led = true := by
  cases phase <;> simp_all

omit [DecidableEq KeyData] in
theorem unreleased_of_first {triple : ApprovalKey} (leads : phase.first = some triple) :
    phase.released = false := by
  cases phase <;> simp_all

omit [DecidableEq KeyData] in
theorem unfinished_of_first {triple : ApprovalKey} (leads : phase.first = some triple) :
    phase ≠ .finished := by
  rintro rfl
  simp at leads

omit [DecidableEq KeyData] in
theorem ask_of_first {triple : ApprovalKey} (leads : phase.first = some triple) :
    ∃ ask, phase.ask = some ask ∧ phase.triple = some triple := by
  cases phase <;> simp_all

omit [DecidableEq KeyData] in
theorem tripleOf_of_first {history : List (Event KeyData)} {running : Running KeyData Material}
    {ask : Ask KeyData} {settings : AgentSettings} {triple : ApprovalKey}
    (shows : Shows k history t running ask settings) (shown : running.phase.ask = some ask)
    (leads : running.phase.first = some triple) : tripleOf k running.call ask.key = some triple := by
  obtain ⟨_, shown', shares⟩ := ask_of_first leads
  rw [shown] at shown'
  cases shown'
  exact shows.approvalKey ▸ (shows.triple triple shares).1

theorem joiningMove {ask : Ask KeyData} {triple : ApprovalKey} {clock : Nat} {settings : AgentSettings}
    {reply : Reply} (inv : Inv k w) (at_ : w.calls t = some { call, phase := .joining ask triple })
    (careful : ∀ leader, w.broker.asking triple = some leader → ∀ other now earlier,
      (.found leader other now :: earlier) <:+ w.history → Began earlier t)
    (h : callStep k t call clock settings reply w.broker (.joining ask triple) = some effect) :
    Move k w t call (.joining ask triple) effect := by
  have before := inv.calls t _ at_
  obtain ⟨read, shows⟩ := before.shows ask rfl
  obtain ⟨known, relaxed⟩ := shows.triple triple rfl
  simp only [callStep] at h
  split at h
  · -- someone leads with this triple, so the call waits
    rename_i leader asking
    cases h
    obtain ⟨leading, found, leads⟩ := (inv.asking triple leader).1 asking
    have leaderOk := inv.calls leader leading found
    have other : leader ≠ t := by
      rintro rfl
      rw [at_] at found
      cases found
      simp at leads
    have concurrent : Concurrent w.history t leader :=
      ⟨w.history, List.suffix_refl _, ⟨_, before.began⟩, ⟨_, leaderOk.began⟩,
        before.ended (by simp), leaderOk.ended (unfinished_of_first leads)⟩
    apply inv.plainMove at_ (by simp) ?_ (fun _ _ => .inl) rfl rfl rfl <;> simp
    · refine ⟨other, triple, known, leading, found, led_of_first leads, ?_, concurrent, ?_⟩
      · intro triple' leads'
        rw [leads] at leads'
        cases leads'
        rfl
      · rintro (answered | granted)
        · -- a call that still leads has left no answer
          obtain ⟨leading', found', released⟩ := inv.answers leader true answered
          rw [found] at found'
          cases found'
          rw [unreleased_of_first leads] at released
          cases released
        · obtain allowed | ⟨moment, now, suffix, rest⟩ := leaderOk.basis triple leads granted
          · exact .inl ⟨leader, concurrent, allowed⟩
          · have began := careful leader asking triple now moment suffix
            exact .inr ⟨leader, moment, ⟨now, suffix, rest⟩, .inr concurrent, began⟩
    · apply before.go read (by simp) rfl rfl rfl (by simp) ?_ (by simp)
      refine { shows with
        applies := by simp, granted := by simp, triple := ?_, unstored := by simp, stores := by simp }
      rintro triple' same
      have same : triple' = triple := by
        rw [Phase.triple, known] at same
        cases same
        rfl
      exact ⟨same ▸ known, relaxed⟩
  · -- nobody leads, so the call does
    rename_i asking
    cases h
    have ok : CallOk k w.history t { call, phase := .leading ask triple } :=
      before.go read (by simp) rfl rfl rfl (by simp)
        { shows with
          applies := by simp, granted := by simp, triple := shows.triple, unstored := by simp, stores := by simp }
        (by simp)
    constructor <;> simp
    · exact fun u => by simp [Began]
    · exact fun u _ => by simp [Ended]
    · exact ok
    · exact fun _ _ => .inl
    · intro other u
      by_cases same : other = triple
      · subst same
        simp [asking, eq_comm]
      · by_cases self : u = t
        · subst self
          have alone : w.broker.asking other ≠ some u := by
            simp [inv.asking other u, at_]
          simp [same, alone, Ne.symm same]
        · simp [same, self]

/-- The answer of the call waited for, or none. -/
theorem waitingMove {ask : Ask KeyData} {leader clock : Nat} {settings : AgentSettings} {reply : Reply}
    (inv : Inv k w) (at_ : w.calls t = some { call, phase := .waiting ask leader })
    (h : callStep k t call clock settings reply w.broker (.waiting ask leader) = some effect) :
    Move k w t call (.waiting ask leader) effect := by
  have before := inv.calls t _ at_
  obtain ⟨read, shows⟩ := before.shows ask rfl
  obtain ⟨triple, known, leading, -, -, -, -, outcome⟩ := inv.follows t _ ask leader at_ rfl
  simp only [callStep, Option.bind_eq_bind, Option.bind_eq_some_iff] at h
  obtain ⟨allowed, answered, h⟩ := h
  split at h
  · rename_i allow
    cases h
    subst allow
    have authorised : Authorised k w.history t call ask.key read :=
      .inr (.inr ⟨triple, shows.approvalKey ▸ known, (shows.triple triple known).2,
        outcome (.inl answered)⟩)
    apply inv.plainMove at_ (by simp) ?_ (fun _ _ => .inl) rfl rfl rfl <;> simp
    apply before.go read (by simp) rfl rfl rfl (by simp) ?_ (by simp)
    exact { shows with
      triple := by simp
      applies := by simp
      granted := fun _ => authorised
      unstored := by simp
      stores := by simp }
  · cases h
    exact inv.quietMove at_ (by constructor <;> simp) (by simp) (fun _ _ => .inl) rfl rfl

/-- The second look of the first call. -/
theorem relookingMove {ask : Ask KeyData} {triple : ApprovalKey} {now clock : Nat}
    {settings : AgentSettings} {reply : Reply} (inv : Inv k w)
    (at_ : w.calls t = some { call, phase := .relooking ask triple now })
    (h : callStep k t call clock settings reply w.broker (.relooking ask triple now) = some effect) :
    Move k w t call (.relooking ask triple now) effect := by
  have before := inv.calls t _ at_
  obtain ⟨read, shows⟩ := before.shows ask rfl
  obtain ⟨known, relaxed⟩ := shows.triple triple rfl
  have pruned (other : ApprovalKey) (expires : Nat)
      (found : (w.broker.approvals.isRemembered triple now).2 other = some expires) :
      w.broker.approvals other = some expires := (ApprovalCache.prune_eq_some.1 found).1
  simp only [callStep] at h
  split at h
  · -- another call stored the approval meanwhile, and that look answers for those who wait too
    rename_i found
    have kept := isRemembered_kept inv found
    cases h
    have grown : CallOk k ([.found t triple now] ++ w.history) t _ :=
      before.grow (by simp [Ended]) (.inl (by simp))
    have shows : Shows k ([.found t triple now] ++ w.history) t _ ask read := shows.grow (.inl (by simp))
    have found : FoundAt k ([.found t triple now] ++ w.history) w.history t triple :=
      ⟨now, List.suffix_refl _, before.looks now rfl, kept⟩
    have authorised : Authorised k ([.found t triple now] ++ w.history) t call ask.key read :=
      .inr (.inr ⟨triple, shows.approvalKey ▸ known, relaxed, .inr
        ⟨t, w.history, found, .inl rfl, ⟨_, before.began⟩⟩⟩)
    apply inv.plainMove at_ (by simp [Event.passing]) ?_
      (fun other expires found => .inl (pruned other expires found)) rfl rfl rfl <;> simp
    · -- whoever waits began before this look
      intro u began concurrent
      exact .inr ⟨t, w.history, found, .inr concurrent, began⟩
    · apply grown.go read (by simp) rfl rfl rfl (by simp)
      · exact { shows with
          applies := by simp
          granted := fun _ => authorised
          triple := shows.triple
          unstored := by simp
          stores := by simp }
      · intro other same _
        simp only [Phase.first, Option.some.injEq] at same
        subst same
        exact .inr ⟨w.history, found⟩
  · cases h
    exact inv.quietMove at_ (by constructor <;> simp) (by simp)
      (fun other expires found => .inl (pruned other expires found)) rfl rfl

omit [DecidableEq KeyData] in
theorem noted_answer {reply : Reply} {answer : Option AgentApprovalAnswer} (given : reply.answer? = some answer) :
    (reply.noted t : List (Event KeyData)) = [.chose t answer] := by
  cases reply <;> simp_all [Reply.answer?, Reply.noted]

/-- The approval window. -/
theorem promptingMove {ask : Ask KeyData} {first : Option ApprovalKey} {needs : Bool} {clock : Nat}
    {settings : AgentSettings} {reply : Reply} (inv : Inv k w)
    (at_ : w.calls t = some { call, phase := .prompting ask first needs })
    (noted : ∃ earlier, w.history = reply.noted t ++ earlier)
    (h : callStep k t call clock settings reply w.broker (.prompting ask first needs) = some effect) :
    Move k w t call (.prompting ask first needs) effect := by
  have before := inv.calls t _ at_
  obtain ⟨read, shows⟩ := before.shows ask rfl
  have refused : Quiet (.prompting ask first needs : Phase KeyData Material) (refuseFirst ask first) := by
    cases first <;> constructor <;> simp [refuseFirst]
  simp only [callStep, Option.bind_eq_bind, Option.bind_eq_some_iff] at h
  obtain ⟨answer, given, h⟩ := h
  split at h
  · rename_i answer
    split at h
    · -- allowed: the answer authorises this request, and every call that waits for it
      rename_i allow
      cases h
      let event : Event KeyData := .answered t (ask.prompt false needs first.isSome none) (some answer)
      have grown : CallOk k ([event] ++ w.history) t _ :=
        before.grow (by simp [Ended, event]) (.inl (by simp [event]))
      have shows : Shows k ([event] ++ w.history) t _ ask read := shows.grow (.inl (by simp [event]))
      have allows : Allows k ([event] ++ w.history) t call ask.key read
          (ask.prompt false needs first.isSome none) answer := by
        obtain ⟨earlier, parts⟩ := noted
        rw [noted_answer given, List.singleton_append] at parts
        exact ⟨⟨earlier, by rw [parts]; rfl⟩, shows.shownFor needs first.isSome none, allow⟩
      have allowed : Allowed k ([event] ++ w.history) t call ask.key read :=
        ⟨_, _, answer, List.suffix_refl _, allows⟩
      have allowedFor (triple : ApprovalKey) (leads : first = some triple) :
          AllowedFor k ([event] ++ w.history) t triple :=
        ⟨call, ask.key, read, ⟨grown.began, shows.considered⟩, tripleOf_of_first shows rfl leads, allowed⟩
      apply inv.plainMove at_ (by simp [Event.passing]) ?_ (fun _ _ => .inl) rfl rfl rfl <;> simp
      · intro leads
        obtain ⟨triple, leads⟩ := Option.isSome_iff_exists.1 leads
        exact ⟨triple, leads, fun u _ concurrent => .inl ⟨t, concurrent, allowedFor triple leads⟩⟩
      · apply grown.go read (by simp) rfl rfl rfl (by simp)
        · refine { shows with
            applies := by simp
            granted := fun _ => .inr (.inl allowed)
            triple := by simpa using shows.triple
            unstored := fun unstored => ?_
            stores := by simp }
          have offered : first.isSome = true ∧ answer.remember = true := by
            cases first <;> simp_all
          exact ⟨_, ⟨_, answer, allows, offered⟩, [], rfl, List.not_mem_nil⟩
        · exact fun triple leads _ => .inl (allowedFor triple leads)
    · -- refused
      cases h
      exact inv.quietMove at_ refused (by simp [Event.passing]) (fun _ _ => .inl) rfl rfl
  · -- no answer came
    cases h
    exact inv.quietMove at_ refused (by simp [Event.passing]) (fun _ _ => .inl) rfl rfl

/-! After the approval. -/

omit [DecidableEq KeyData] in
theorem unlocking_quiet (ask : Ask KeyData) (caller : Caller) (place next : Unlocking Material) :
    Quiet (.unlocking ask caller place : Phase KeyData Material) (.unlocking ask caller next) := by
  cases caller with
  | allowed first remember => cases first <;> constructor <;> simp
  | _ => constructor <;> simp

omit [DecidableEq KeyData] in
theorem resume_quiet (ask : Ask KeyData) (caller : Caller) (place : Unlocking Material)
    (result : Option Material) :
    Quiet (.unlocking ask caller place) (caller.resume ask result) := by
  cases result <;> cases caller with
  | allowed first remember =>
    cases first <;> cases remember <;> constructor <;> simp [Caller.resume, signOrRefuse]
  | _ => constructor <;> simp [Caller.resume, signOrRefuse]

theorem unlockingMove {ask : Ask KeyData} {caller : Caller} {place : Unlocking Material} {clock : Nat}
    {settings : AgentSettings} {reply : Reply} (inv : Inv k w)
    (at_ : w.calls t = some { call, phase := .unlocking ask caller place })
    (h : callStep k t call clock settings reply w.broker (.unlocking ask caller place) = some effect) :
    Move k w t call (.unlocking ask caller place) effect := by
  simp only [callStep, Option.bind_eq_bind, Option.bind_eq_some_iff] at h
  obtain ⟨progress, -, h⟩ := h
  cases h
  apply inv.quietMove at_ ?_ ?_ (fun _ _ => .inl) rfl rfl
  · dsimp only
    split
    · exact unlocking_quiet ask caller place _
    · exact resume_quiet ask caller place _
  · dsimp only
    split <;> simp [Event.passing]

omit [DecidableEq KeyData] in
theorem rememberingMove {ask : Ask KeyData} {triple : ApprovalKey} {material : Material} (inv : Inv k w)
    (at_ : w.calls t = some { call, phase := .remembering ask triple material }) :
    Move k w t call (.remembering ask triple material)
      { phase := .storing ask triple material w.clock, broker := w.broker } := by
  have before := inv.calls t _ at_
  obtain ⟨read, shows⟩ := before.shows ask rfl
  apply inv.plainMove at_ (by simp) ?_ (fun _ _ => .inl) rfl rfl rfl <;> simp
  apply before.go read (by simp) rfl rfl rfl (by simp)
  · refine { shows with applies := by simp, unstored := shows.unstored, stores := ?_ }
    rintro _ ⟨⟩
    obtain ⟨moment, allowed⟩ := shows.unstored rfl
    exact allowed.rememberedAt inv.clock
  · exact before.basis

omit [DecidableEq KeyData] in
theorem storingMove {ask : Ask KeyData} {triple : ApprovalKey} {material : Material} {now : Nat}
    (inv : Inv k w) (at_ : w.calls t = some { call, phase := .storing ask triple material now }) :
    Move k w t call (.storing ask triple material now)
      { phase := .extending ask triple material now
        broker := { w.broker with approvals := w.broker.approvals.remember triple now ask.minutes }
        events := [.stored t triple now ask.minutes] } := by
  have before : CallOk k ([.stored t triple now ask.minutes] ++ w.history) t _ :=
    (inv.calls t _ at_).grow (by simp [Ended]) (.inl (by simp))
  obtain ⟨read, shows⟩ := before.shows ask rfl
  apply inv.quietMove at_ (by constructor <;> simp) (by simp [Event.passing]) ?_ rfl rfl
  intro other expires found
  obtain ⟨rfl, rfl⟩ | kept := ApprovalCache.remember_eq_some found
  · refine .inr ⟨now, ask.minutes, ⟨t, call, ask.key, read, ⟨before.began, shows.considered⟩, ?_⟩, rfl⟩
    exact ⟨tripleOf_of_first shows rfl rfl, shows.minutes, List.mem_cons_self, shows.stores now rfl⟩
  · exact .inl kept

omit [DecidableEq KeyData] in
theorem droppingMove {ask : Ask KeyData} {triple : ApprovalKey} {material : Option Material}
    (inv : Inv k w) (at_ : w.calls t = some { call, phase := .dropping ask triple material }) :
    Move k w t call (.dropping ask triple material)
      { phase := .finishing ask material
        broker := { w.broker with
          asking := fun other => if other = triple then none else w.broker.asking other } } := by
  have before := inv.calls t _ at_
  obtain ⟨read, shows⟩ := before.shows ask rfl
  have ok : CallOk k w.history t { call, phase := .finishing ask material } :=
    before.go read (by simp) rfl rfl rfl (by simp)
      { shows with
        applies := by simp
        granted := shows.granted
        triple := by simp
        unstored := by simp
        stores := by simp }
      (by simp)
  have alone (u : Nat) (ne : u ≠ t) : w.broker.asking triple ≠ some u := by
    have own : w.broker.asking triple = some t := (inv.asking triple t).2 ⟨_, at_, rfl⟩
    rw [own]
    simpa using Ne.symm ne
  have others (other : ApprovalKey) (ne : other ≠ triple) : w.broker.asking other ≠ some t := by
    simpa [inv.asking other t, at_] using Ne.symm ne
  constructor <;> simp
  · exact fun u => by simp [Began]
  · exact fun u _ => by simp [Ended]
  · exact ok
  · exact fun _ _ => .inl
  · intro other u
    by_cases same : other = triple
    · subst same
      by_cases self : u = t
      · simp [self]
      · simp [self, alone u self]
    · by_cases self : u = t
      · subst self
        simp [same, others other same]
      · simp [same, self]
  · exact fun granted => .inl granted

omit [DecidableEq KeyData] in
theorem finishingMove {ask : Ask KeyData} {material : Option Material} (inv : Inv k w)
    (at_ : w.calls t = some { call, phase := .finishing ask material }) :
    Move k w t call (.finishing ask material)
      { phase := signOrRefuse ask material
        broker := { w.broker with
          answers := fun other => if other = t then some material.isSome else w.broker.answers other } } := by
  have quiet : Quiet (.finishing ask material : Phase KeyData Material) (signOrRefuse ask material) := by
    cases material <;> constructor <;> simp [signOrRefuse]
  have released : (signOrRefuse ask material : Phase KeyData Material).released = true := by
    cases material <;> simp [signOrRefuse]
  have same : Move k w t call (.finishing ask material)
      { phase := signOrRefuse ask material, broker := w.broker } :=
    inv.quietMove at_ quiet (by simp) (fun _ _ => .inl) rfl rfl
  refine { same with answers := ?_ }
  intro u allowed found
  dsimp only at found
  split at found
  · rename_i self
    simp only [Option.some.injEq] at found
    exact .inr ⟨self, released, fun allow => found.trans allow⟩
  · exact .inl found

theorem signingMove {ask : Ask KeyData} {material : Material} {clock : Nat} {settings : AgentSettings}
    {reply : Reply} (inv : Inv k w) (at_ : w.calls t = some { call, phase := .signing ask material })
    (h : callStep k t call clock settings reply w.broker (.signing ask material) = some effect) :
    Move k w t call (.signing ask material) effect := by
  have before := inv.calls t _ at_
  obtain ⟨read, shows⟩ := before.shows ask rfl
  have refused : Quiet (.signing ask material : Phase KeyData Material) (.returning none) := by
    constructor <;> simp
  simp only [callStep] at h
  split at h
  · rename_i names
    split at h
    · rename_i blob signed
      cases h
      have sound : SoundSignature k w.history t blob := by
        refine ⟨call, ask.key, read, ⟨before.began, shows.considered⟩, (before.chosen _ rfl).1, ⟨material, ?_, ?_⟩, shows.granted rfl⟩
        · have named : k.keyData material = ask.request.key := by simpa [Ask.names] using names
          exact named.trans (congrArg _ shows.request)
        · rw [← shows.request]
          exact signed
      apply inv.plainMove at_ (by simp) ?_ (fun _ _ => .inl) rfl rfl rfl <;> simp
      constructor
      · exact before.began
      · exact fun _ => before.ended (by simp)
      all_goals simp
      exact sound
    · cases h
      exact inv.quietMove at_ refused (by simp) (fun _ _ => .inl) rfl rfl
  · cases h
    exact inv.quietMove at_ refused (by simp) (fun _ _ => .inl) rfl rfl

omit [DecidableEq KeyData] in
theorem returningMove {signature : Option Bytes} (inv : Inv k w)
    (at_ : w.calls t = some { call, phase := .returning signature }) :
    Move k w t call (.returning signature)
      { phase := .finished, broker := w.broker, events := [.ended t signature] } := by
  have before := inv.calls t _ at_
  constructor <;> simp
  · rfl
  · rfl
  · exact fun u => by simp [Began]
  · exact fun u ne => by simp [Ended, ne]
  · rintro u blob rfl rfl
    exact ⟨⟨rfl, rfl⟩, before.signature blob rfl⟩
  · constructor <;> simp
    exact before.began
  · exact fun _ _ => .inl
  · intro triple u found self
    subst self
    simp [inv.asking triple u, at_] at found
  · exact fun _ => .inl

/-- Every step of a call. -/
theorem callStep_move {reply : Reply} (inv : Inv k w) (at_ : w.calls t = some { call, phase })
    (careful : Careful w (.step t reply)) (noted : ∃ earlier, w.history = reply.noted t ++ earlier)
    (h : callStep k t call w.clock w.settings reply w.broker phase = some effect) :
    Move k w t call phase effect := by
  cases phase with
  | called =>
    refine calledMove inv at_ (fun e member => ?_) h
    obtain ⟨earlier, parts⟩ := noted
    rw [parts]
    exact List.mem_append_left _ member
  | picked key =>
    cases h
    exact pickedMove inv at_
  | settled key settings => exact settledMove inv at_ h
  | approving ask settings =>
    cases h
    exact approvingMove inv at_
  | looking ask settings now => exact lookingMove inv at_ h
  | joining ask triple =>
    exact joiningMove inv at_ (fun leader asking => careful _ ask triple leader at_ rfl asking) h
  | waiting ask leader => exact waitingMove inv at_ h
  | leading ask triple =>
    cases h
    exact leadingMove inv at_
  | relooking ask triple now => exact relookingMove inv at_ h
  | preparing ask first =>
    simp only [callStep] at h
    split at h
    all_goals
      cases h
      exact inv.quietMove at_ (by constructor <;> simp) (by simp) (fun _ _ => .inl) rfl rfl
  | probing ask first now =>
    simp only [callStep] at h
    split at h
    all_goals
      cases h
      exact inv.quietMove at_ (by constructor <;> simp) (by simp) (fun _ _ => .inl) rfl rfl
  | consulting ask first =>
    simp only [callStep, Option.bind_eq_bind, Option.bind_eq_some_iff] at h
    obtain ⟨saved, -, h⟩ := h
    cases h
    exact inv.quietMove at_ (by constructor <;> simp) (by simp) (fun _ _ => .inl) rfl rfl
  | prompting ask first needs => exact promptingMove inv at_ noted h
  | unlocking ask caller place => exact unlockingMove inv at_ h
  | remembering ask triple material =>
    cases h
    exact rememberingMove inv at_
  | storing ask triple material now =>
    cases h
    exact storingMove inv at_
  | extending ask triple material now =>
    cases h
    exact inv.quietMove at_ (by constructor <;> simp) (by simp) (fun _ _ => .inl) rfl rfl
  | dropping ask triple material =>
    cases h
    exact droppingMove inv at_
  | finishing ask material =>
    cases h
    exact finishingMove inv at_
  | signing ask material => exact signingMove inv at_ h
  | returning signature =>
    cases h
    exact returningMove inv at_
  | finished => cases h

omit [DecidableEq KeyData] in
theorem panicked_quiet {next : Phase KeyData Material} (h : phase.panicked = some next) :
    Quiet phase next := by
  cases phase with
  | unlocking ask caller place =>
    cases caller with
    | allowed first remember =>
      cases first <;> simp only [Phase.panicked, Phase.ask, Phase.first] at h <;> cases h <;>
        constructor <;> simp
    | _ =>
      simp only [Phase.panicked, Phase.ask, Phase.first] at h
      cases h
      constructor <;> simp
  | preparing ask first | probing ask first now | consulting ask first | prompting ask first needs =>
    cases first <;> simp only [Phase.panicked, Phase.ask, Phase.first] at h <;> cases h <;>
      constructor <;> simp
  | dropping | finishing | returning | finished => cases h
  | _ =>
    simp only [Phase.panicked, Phase.ask, Phase.first] at h
    cases h
    constructor <;> simp

end Moves

/-! ## Whole runs -/

section Runs

variable {k} {w w' : World KeyData Material}

theorem Inv.start (clock : Nat) (settings : AgentSettings) :
    Inv k ({ clock, settings, history := [.clock clock, .settings settings] } : World KeyData Material) := by
  constructor
  · rfl
  · rfl
  all_goals simp [Began, Ended, ApprovalCache.empty, List.suffix_cons_iff]

/-- The invariant reads only the calls, the history and three maps of the broker, and what the world
notes in between takes no evidence away. -/
theorem Inv.note (inv : Inv k w) (events : List (Event KeyData)) (calls : w'.calls = w.calls)
    (history : w'.history = events ++ w.history) (clock : clockAt w'.history = some w'.clock)
    (settings : settingsAt w'.history = some w'.settings)
    (unbegun : ∀ t, ¬ Began events t) (unended : ∀ t, ¬ Ended events t)
    (uncleared : .cleared ∉ events ∨ ∀ t running, w.calls t = some running → running.phase.unstored = false)
    (approvals : ∀ triple expires, w'.broker.approvals triple = some expires →
      StoredUntil k w'.history triple expires)
    (asking : w'.broker.asking = w.broker.asking) (answers : w'.broker.answers = w.broker.answers) :
    Inv k w' where
  clock := clock
  settings := settings
  calls t running found := by
    rw [calls] at found
    rw [history]
    exact (inv.calls t running found).grow (unended t) (uncleared.imp id fun stored => stored t running found)
  noted t h := by
    rw [calls]
    rw [history] at h
    obtain ⟨call, began⟩ | ⟨signature, ended⟩ := h
    · obtain new | before := List.mem_append.1 began
      · exact absurd ⟨call, new⟩ (unbegun t)
      · exact inv.noted t (.inl ⟨call, before⟩)
    · obtain new | before := List.mem_append.1 ended
      · exact absurd ⟨signature, new⟩ (unended t)
      · exact inv.noted t (.inr ⟨signature, before⟩)
  approvals := approvals
  asking := by
    rw [calls, asking]
    exact inv.asking
  answers := by
    rw [calls, answers]
    exact inv.answers
  follows t running ask u found waiting := by
    rw [calls] at found
    obtain ⟨triple, known, leading, leads, led, first, concurrent, outcome⟩ :=
      inv.follows t running ask u found waiting
    refine ⟨triple, known, leading, calls ▸ leads, led, first, history ▸ concurrent.grow events, fun h => ?_⟩
    rw [history]
    exact (outcome (answers ▸ h)).imp (·.grow events) (·.grow events)
  signed t signature earlier suffix := by
    rw [history] at suffix
    exact inv.signed t signature earlier (suffix_of_not_mem (fun new => unended t ⟨_, new⟩) suffix)

/-- The world notes something of its own, no `clear`, and drops at most some approvals. -/
theorem Inv.pass (inv : Inv k w) (events : List (Event KeyData)) (calls : w'.calls = w.calls)
    (history : w'.history = events ++ w.history) (clock : clockAt w'.history = some w'.clock)
    (settings : settingsAt w'.history = some w'.settings)
    (unbegun : ∀ t, ¬ Began events t) (unended : ∀ t, ¬ Ended events t) (uncleared : .cleared ∉ events)
    (approvals : ∀ triple expires, w'.broker.approvals triple = some expires →
      w.broker.approvals triple = some expires)
    (asking : w'.broker.asking = w.broker.asking) (answers : w'.broker.answers = w.broker.answers) :
    Inv k w' := by
  refine inv.note events calls history clock settings unbegun unended (.inl uncleared) ?_ asking answers
  intro triple expires found
  rw [history]
  exact (inv.approvals triple expires (approvals triple expires found)).grow uncleared

/-- A `clear` over no unstored answer. -/
theorem Inv.clear (inv : Inv k w) (careful : Careful w .clear) (sweeps : List Sweep) :
    Inv k { w with
      broker := { w.broker with approvals := .empty }
      sweeps
      history := .cleared :: w.history } := by
  refine inv.note [.cleared] rfl rfl inv.clock inv.settings ?_ ?_ (.inr careful) ?_ rfl rfl
  · simp [Began]
  · simp [Ended]
  · exact fun _ _ found => by cases found

/-- What the host says is noted before the step that takes it. -/
theorem Inv.reply (inv : Inv k w) (t : Nat) (reply : Reply) :
    Inv k { w with history := reply.noted t ++ w.history } := by
  have passing : ∀ e ∈ (reply.noted t : List (Event KeyData)), e.passing = true := by
    cases reply <;> simp [Reply.noted, Event.passing]
  refine inv.pass _ rfl rfl ((clockAt_passing passing).trans inv.clock)
    ((settingsAt_passing passing).trans inv.settings) ?_ (not_ended_of_passing passing)
    (not_cleared_of_passing passing) (fun _ _ => id) rfl rfl
  rintro u ⟨_, mem⟩
  cases passing _ mem

/-- A new call. -/
theorem Inv.begin {t : Nat} {call : Call KeyData} (inv : Inv k w) (fresh : w.calls t = none) :
    Inv k { w.setPhase t call .called with history := .began t call :: w.history } := by
  have new (u : Nat) (running : Running KeyData Material) (found : w.calls u = some running) :
      u ≠ t := by
    rintro rfl
    rw [fresh] at found
    cases found
  -- the calls there were go on as they did, with one more entry in the history
  have kept {u : Nat} {running : Running KeyData Material} (found : w.calls u = some running) :
      (w.setPhase t call .called).calls u = some running :=
    (if_neg (new u running found)).trans found
  have self : (w.setPhase t call .called).calls t = some { call, phase := .called } := if_pos rfl
  have before {u : Nat} {running : Running KeyData Material} (ne : u ≠ t)
      (found : (w.setPhase t call .called).calls u = some running) : w.calls u = some running :=
    (if_neg ne).symm.trans found
  constructor
  · exact inv.clock
  · exact inv.settings
  · intro u running found
    show CallOk k ([.began t call] ++ w.history) u running
    by_cases same : u = t
    · subst same
      cases self.symm.trans found
      constructor <;> simp
      intro ended
      obtain ⟨signature, mem⟩ := ended
      obtain ⟨running, found⟩ := inv.noted u (.inr ⟨signature, by simpa using mem⟩)
      exact new u running found rfl
    · exact (inv.calls u running (before same found)).grow (by simp [Ended]) (.inl (by simp))
  · intro u h
    by_cases same : u = t
    · subst same
      exact ⟨_, self⟩
    · have h : Began w.history u ∨ Ended w.history u := by simpa [Began, Ended, same] using h
      obtain ⟨running, found⟩ := inv.noted u h
      exact ⟨running, kept found⟩
  · intro triple expires found
    show StoredUntil k ([.began t call] ++ w.history) triple expires
    exact (inv.approvals triple expires found).grow (by simp)
  · intro triple u
    refine (inv.asking triple u).trans ⟨?_, ?_⟩
    · rintro ⟨running, found, first⟩
      exact ⟨running, kept found, first⟩
    · rintro ⟨running, found, first⟩
      have ne : u ≠ t := by
        rintro rfl
        cases self.symm.trans found
        simp at first
      exact ⟨running, before ne found, first⟩
  · intro u allowed found
    obtain ⟨running, found, released⟩ := inv.answers u allowed found
    exact ⟨running, kept found, released⟩
  · intro u running ask leader found waiting
    have ne : u ≠ t := by
      rintro rfl
      cases self.symm.trans found
      cases waiting
    obtain ⟨triple, known, leading, leads, led, first, concurrent, outcome⟩ :=
      inv.follows u running ask leader (before ne found) waiting
    refine ⟨triple, known, leading, kept leads, led, first, concurrent.grow [.began t call], fun h => ?_⟩
    exact (outcome h).imp (·.grow [.began t call]) (·.grow [.began t call])
  · intro u signature earlier suffix
    have suffix : _ <:+ [.began t call] ++ w.history := suffix
    exact inv.signed u signature earlier (suffix_of_not_mem (by simp) suffix)

variable [DecidableEq KeyData]

theorem Inv.step {label : Label KeyData} (inv : Inv k w) (careful : Careful w label)
    (h : w.step k label = some w') : Inv k w' := by
  cases label with
  | clock now =>
    cases h
    exact inv.pass [.clock now] rfl rfl rfl inv.settings (by simp [Began]) (by simp [Ended]) (by simp)
      (fun _ _ => id) rfl rfl
  | settings settings =>
    cases h
    exact inv.pass [.settings settings] rfl rfl inv.clock rfl (by simp [Began]) (by simp [Ended]) (by simp)
      (fun _ _ => id) rfl rfl
  | clear =>
    cases h
    exact inv.clear careful _
  | expire now =>
    cases h
    exact inv.pass [] rfl rfl inv.clock inv.settings (by simp [Began]) (by simp [Ended])
      List.not_mem_nil (fun _ _ found => (ApprovalCache.prune_eq_some.1 found).1) rfl rfl
  | sweep index =>
    simp only [World.step, Option.bind_eq_bind, Option.bind_eq_some_iff] at h
    obtain ⟨sweep, -, h⟩ := h
    cases h
    exact inv.pass [] rfl rfl inv.clock inv.settings (by simp [Began]) (by simp [Ended])
      List.not_mem_nil (fun _ _ => id) rfl rfl
  | call t call =>
    simp only [World.step] at h
    split at h
    · cases h
    · rename_i fresh
      cases h
      exact inv.begin fresh
  | timeout t =>
    simp only [World.step, Option.bind_eq_bind, Option.bind_eq_some_iff] at h
    obtain ⟨⟨call, phase⟩, found, h⟩ := h
    split at h
    · rename_i ask leader waiting
      -- the wait for the leader ends without its outcome
      cases h
      cases waiting
      have move : Move k w t call (.waiting ask leader) { phase := .returning none, broker := w.broker } :=
        inv.quietMove found (by constructor <;> simp) (by simp) (fun _ _ => .inl) rfl rfl
      exact inv.after found move
    · cases h
  | panic t =>
    simp only [World.step, Option.bind_eq_bind, Option.bind_eq_some_iff] at h
    obtain ⟨⟨call, phase⟩, found, next, panicked, h⟩ := h
    cases h
    have move : Move k w t call phase { phase := next, broker := w.broker } :=
      inv.quietMove found (panicked_quiet panicked) (by simp) (fun _ _ => .inl) rfl rfl
    exact inv.after found move
  | step t reply =>
    simp only [World.step, Option.bind_eq_bind, Option.bind_eq_some_iff] at h
    obtain ⟨⟨call, phase⟩, found, effect, step, h⟩ := h
    cases h
    -- the host's reply is noted before the call goes on
    let told : World KeyData Material := { w with history := reply.noted t ++ w.history }
    have careful : Careful told (.step t reply) := by
      intro running ask key leader at_ joining asking triple now earlier suffix
      refine careful running ask key leader at_ joining asking triple now earlier
        (suffix_of_not_mem (fun new => ?_) suffix)
      cases reply <;> simp [Reply.noted] at new
    have move : Move k told t call phase effect :=
      callStep_move (inv.reply t reply) found careful ⟨w.history, rfl⟩ step
    exact (inv.reply t reply).after found move

theorem Inv.of_reaches (run : Reaches k Careful w) : Inv k w := by
  induction run with
  | start clock settings => exact .start clock settings
  | step _ meets steps ih => exact ih.step meets steps

end Runs

/-! ## A clear in the middle -/

variable [DecidableEq KeyData]

/-- Runs the labels in turn; `none` when one of them cannot happen or fails the check. -/
def World.run (k : KeyParsing KeyData Material)
    (check : World KeyData Material → Label KeyData → Bool) (w : World KeyData Material) :
    List (Label KeyData) → Option (World KeyData Material)
  | [] => some w
  | label :: rest => if check w label then (w.step k label).bind (run k check · rest) else none

theorem reaches_of_run {k : KeyParsing KeyData Material} {w w' : World KeyData Material}
    {check : World KeyData Material → Label KeyData → Bool}
    {condition : World KeyData Material → Label KeyData → Prop} {labels : List (Label KeyData)}
    (sound : ∀ w label, check w label = true → condition w label) (start : Reaches k condition w)
    (h : w.run k check labels = some w') : Reaches k condition w' := by
  induction labels generalizing w with
  | nil =>
    cases h
    exact start
  | cons label rest ih =>
    simp only [World.run] at h
    split at h
    · rename_i checked
      obtain ⟨next, step, h⟩ := Option.bind_eq_some_iff.1 h
      exact ih (.step start (sound w label checked) step) h
    · cases h

/-- Nothing is cleared, and no call joins another. -/
def World.alone (w : World KeyData Material) : Label KeyData → Bool
  | .clear => false
  | .step t _ =>
    match w.calls t with
    | some { phase := .joining _ triple, .. } => (w.broker.asking triple).isNone
    | _ => true
  | _ => true

omit [DecidableEq KeyData] in
theorem careful_of_alone (w : World KeyData Material) (label : Label KeyData)
    (alone : w.alone label = true) : Careful w label := by
  cases label with
  | clear => cases alone
  | step t reply =>
    rintro ⟨call, phase⟩ ask triple leader found rfl asking
    simp [World.alone, found, asking] at alone
  | _ => trivial

namespace Sample

/-- Keys are their own texts. -/
def parsing : KeyParsing String String where
  publicKeyData text := some text
  agentCanSign _ := true
  fingerprint key := key
  openKey text _ := .ok text
  keyData material := material
  sign _ data _ := .ok data

def slot : VaultKey :=
  { slotId := "s", name := "n", fingerprint := "f", publicKey := "K", hasPassphrase := false }

def login : Call String where
  request :=
    { key := "K", data := [1], flags := 0, user := none, hostKey := some "H", forwarded := false }
  program := some { chain := ["ssh"], identity := "p" }
  grant := none

def settings : AgentSettings := { rememberMinutes := 15, alwaysAsk := false }

def allowAndRemember : AgentApprovalAnswer :=
  { allow := true, remember := true, passphrase := none, rememberPassphrase := false }

/-- A call up to its first look at the approvals. -/
def opening (t : Nat) : List (Label String) :=
  [.call t login, .step t (.keys [slot]), .step t .nothing, .step t (.hostName none),
    .step t .nothing, .step t .nothing]

/-- A first call up to its answer. -/
def asking (t : Nat) : List (Label String) :=
  opening t ++ [.step t .nothing, .step t .nothing, .step t .nothing, .step t .nothing,
    .step t (.answer (some allowAndRemember))]

/-- Reading the key from the vault. -/
def unlocking (t : Nat) : List (Label String) :=
  [.step t .nothing, .step t .nothing, .step t (.privateKey (.ok (some "K")))]

/-- From the opened key to the end: storing, letting others go, signing. -/
def storing (t : Nat) : List (Label String) :=
  [.step t .nothing, .step t .nothing, .step t .nothing, .step t .nothing, .step t .nothing,
    .step t .nothing, .step t .nothing]

/-- The screen is locked between the answer and the storing of its approval; a second call then
goes by that approval. -/
def lockedAfterAnswer : List (Label String) :=
  asking 1 ++ [.clear, .sweep 0] ++ unlocking 1 ++ storing 1 ++
    opening 2 ++ unlocking 2 ++ [.step 2 .nothing, .step 2 .nothing]

def start : World String String := { clock := 0, settings, history := [.clock 0, .settings settings] }

def triple : ApprovalKey := { keyFingerprint := "f", hostFingerprint := "H", program := "p" }

def prompt : AgentApprovalRequest where
  id := ""
  keyName := "n"
  keyFingerprint := "f"
  programChain := ["ssh"]
  user := none
  host := some "H"
  hostFingerprint := some "H"
  rememberable := true
  rememberMinutes := 15
  needsPassphrase := false
  passphraseError := none
  preapproved := false

/-- Two calls in turn, the second a minute later and by the approval of the first. -/
def inTurn : List (Label String) :=
  [.clock 5] ++ asking 1 ++ unlocking 1 ++ storing 1 ++ [.clock 60005] ++ opening 2 ++ unlocking 2 ++
    [.step 2 .nothing, .step 2 .nothing]

/-- What had happened when the second call of `lockedAfterAnswer` returned. -/
def lockedHistory : List (Event String) :=
  [.found 2 triple 0, .considered 2 slot settings, .listed 2 [slot], .began 2 login, .ended 1 (some [1]),
    .stored 1 triple 0 15, .cleared, .answered 1 prompt (some allowAndRemember),
    .chose 1 (some allowAndRemember), .considered 1 slot settings, .listed 1 [slot], .began 1 login,
    .clock 0, .settings settings]

end Sample

open Sample in
theorem lockedAfterAnswer_history :
    (start.run parsing (fun _ _ => true) lockedAfterAnswer).map (·.history) =
      some (.ended 2 (some [1]) :: lockedHistory) := by
  decide

open Sample in
/-- Without care a signature can be returned that nothing authorises: its approval is older than
the last `clear`. -/
theorem approval_outlives_clear :
    ¬ ∀ w : World String String, Reaches parsing (fun _ _ => True) w →
      ∀ t signature earlier, (.ended t (some signature) :: earlier) <:+ w.history →
        SoundSignature parsing earlier t signature := by
  intro sound
  obtain ⟨w, run, history⟩ := Option.map_eq_some_iff.1 lockedAfterAnswer_history
  have reaches := reaches_of_run (fun _ _ _ => trivial) (.start 0 settings) run
  obtain ⟨call, key, read, requested, -, -, authorised⟩ :=
    sound w reaches 2 [1] lockedHistory (by rw [history])
  have call : call = login := by simpa [lockedHistory] using requested.began
  subst call
  obtain ⟨granted, -⟩ | ⟨_, prompt, answer, suffix, ⟨_, rfl⟩, -⟩ | ⟨triple, -, -, shared | remembered⟩ :=
    authorised
  · cases granted
  · simp [lockedHistory, List.suffix_cons_iff] at suffix
  · -- the only answered call had ended before this one began
    obtain ⟨u, ⟨earlier, suffix, ⟨_, began⟩, -, -, unended⟩, _, _, _, -, -, _, _, _, answered, ⟨_, rfl⟩, -⟩ :=
      shared
    have u : u = 1 := by
      simp [lockedHistory, List.suffix_cons_iff] at answered
      exact answered.left.1
    subst u
    simp only [lockedHistory, List.suffix_cons_iff, List.suffix_nil] at suffix
    rcases suffix with rfl | rfl | rfl | rfl | rfl | rfl | rfl | rfl | rfl | rfl | rfl | rfl | rfl | rfl | rfl <;>
      simp [Ended] at began unended
  · obtain ⟨u, moment, ⟨now, suffix, -, _, _, ⟨v, _, _, _, -, -, -, -, remembered⟩, -⟩, -, -⟩ := remembered
    obtain ⟨_, _, ⟨⟨prompt, answer, ⟨⟨_, rfl⟩, -, -⟩, -⟩, later, parts, uncleared⟩, -⟩ := remembered
    -- the only look that found something comes after the clear, which comes after the answer
    have moment : moment = lockedHistory.tail := by
      simp [lockedHistory, List.suffix_cons_iff] at suffix
      exact suffix.2
    subst moment
    have kept : ∀ e ∈ later, decide (e ≠ .cleared) = true := by
      intro e member
      rw [decide_eq_true_eq]
      rintro rfl
      exact uncleared member
    have answered : .answered v prompt (some answer) ∈ lockedHistory.tail.takeWhile (· ≠ .cleared) := by
      rw [parts, List.takeWhile_append_of_pos kept]
      simp
    simp [lockedHistory] at answered

/-! ## Careful runs are sound -/

/-- In a careful run every signature returned is sound. -/
theorem signature_sound {k : KeyParsing KeyData Material} {w : World KeyData Material}
    (run : Reaches k Careful w) {t : Nat} {signature : Bytes}
    {earlier : List (Event KeyData)} (ended : (.ended t (some signature) :: earlier) <:+ w.history) :
    SoundSignature k earlier t signature :=
  (Inv.of_reaches run).signed t signature earlier ended

open Sample in
theorem signature_sound_in_turn : ∃ (w : World String String) (earlier : List (Event String)),
    w.history = .ended 2 (some [1]) :: earlier ∧ SoundSignature parsing earlier 2 [1] := by
  have ran : ((start.run parsing World.alone inTurn).bind (·.history.head?)) =
      some (.ended 2 (some [1])) := by decide
  obtain ⟨w, run, head⟩ := Option.bind_eq_some_iff.1 ran
  have reaches := reaches_of_run careful_of_alone (.start 0 settings) run
  have history := (List.cons_head?_tail head).symm
  exact ⟨w, _, history, signature_sound reaches (by rw [← history])⟩

end Sshelter.Agent
