import Sshelter.Verified.Connects

/-! # What a connect promises

What holds of every connect, whatever the servers, the network, the person and the directory do: it is
never the bound on the rounds that ends it, secrets go only to servers whose keys were vouched for, they
come from whom they belong to, nobody is asked too often, and an owner who left ends it.
-/

namespace Sshelter.Session

open Ssh

variable {σ KeyData Material : Type} [DecidableEq KeyData] (W : World σ) (K : KeyMaterial KeyData Material)
  (world : σ) (gone : Bool)

namespace Connector

/-! ## From the beginning -/

omit [DecidableEq KeyData] in
theorem opening_begins : Opening W K [] (Run.start world gone : Run σ Material) := by
  have left : ∀ event ∈ (Run.start world gone : Run σ Material).log, event = .Left := by
    cases gone
    · exact nofun
    · exact fun event member => List.mem_singleton.mp member
  have none : ∀ event, event ≠ .Left → event ∉ (Run.start world gone : Run σ Material).log :=
    fun event other member => other (left event member)
  have auth : SoundAuth W K {} (Run.start world gone : Run σ Material).log {} :=
    { opened := fun keyId material line held => by cases held
      typed := fun id password held => by cases held
      unanswered := fun hop kind text echo reply asked => absurd asked (none _ nofun)
      counted := fun id => .inl ⟨by cases gone <;> rfl, rfl⟩ }
  exact
    { sound :=
        { allowed := by cases gone <;> simp [Run.start, Allowed]
          token := by cases gone <;> simp [Run.start]
          unopened := fun target => none _ nofun
          pins := fun id pin held => by cases held
          confirmed := fun hop question trusted asked => absurd asked (none _ nofun)
          auth }
      answered := rfl
      unconnected := fun target => none _ nofun
      base := List.nil_suffix }

theorem connectFrom_ends :
    (∀ target, (connectFrom W K world gone).1 = .ok target →
      Through W K target (connectFrom W K world gone).2 ∧ .Left ∉ (connectFrom W K world gone).2.log) ∧
      ∀ failure, (connectFrom W K world gone).1 = .error failure → Ended W K failure (connectFrom W K world gone).2 := by
  have ends := connect_ends _ (opening_begins W K world gone)
  revert ends
  rw [connectFrom]
  obtain ⟨result, run⟩ := Call.outcome (connect W K) (.start world gone)
  cases result with
  | ok target =>
    refine fun ends => ⟨fun other same => ?_, nofun⟩
    cases same
    exact ends
  | error failure =>
    refine fun ends => ⟨nofun, fun other same => ?_⟩
    cases same
    exact ends

theorem connectFrom_over : Over W K (connectFrom W K world gone).2 := by
  obtain ⟨through, failed⟩ := connectFrom_ends W K world gone
  cases result : (connectFrom W K world gone).1 with
  | ok target => exact (through target result).1.1
  | error failure => exact (failed failure result).toOver

/-! ## A connect to try -/

end Connector

/-- Every answer of the sample world takes a moment. -/
def moment {α : Type} (answer : α) : Nat → α × Nat := fun clock => (answer, clock + 1)

def sampleKey : HostKey := { algorithm := "ssh-ed25519", publicKey := [1], fingerprint := "SHA256:web" }

def sampleHop : Hop :=
  { id := "h1", aliasName := "web", hostname := "web.example", port := 22, user := "admin", auth := .Password, pinned := none }

/-- A host that was not seen before: the person trusts its key and types its password.  The owner leaves at the
given moment. -/
def sampleWorld (leaves : Nat) : World Nat where
  tcp _ := moment .Connected
  tunnel _ _ := moment .Connected
  presents _ := moment (some sampleKey)
  shakes _ trusted := moment (if trusted then .Connected else .UnknownKey)
  shakes_distrusted _ _ := nofun
  banners _ := moment []
  rsaSupport _ := moment .Lost
  offered _ _ _ := moment (.Answered .Lost)
  signed _ _ := moment .Lost
  triedPassword _ _ := moment .Success
  converses _ := moment .Lost
  triedNone _ := moment .Lost
  emptyAnswer _ := moment .Refusal
  ask _ _ _ _ := moment (.Answer "secret")
  overdue := moment false
  hostKeyNotice _ := moment ()
  banner _ := moment ()
  confirm question := moment (some question.fingerprint)
  keychainGet _ := moment (.ok none)
  keychainDelete _ := moment (.ok ())
  key _ := moment none
  privateText _ := moment (.ok none)
  resolve := moment (.ok { hops := [sampleHop] })
  pinnedFor _ := moment (.ok none)
  pinConfirmed _ _ _ := moment (.ok ())
  passwordAccount id := "password:" ++ id
  gone clock := leaves ≤ clock

/-- No key can be read. -/
def sampleMaterial : KeyMaterial String String where
  publicKeyData _ := none
  agentCanSign _ := false
  fingerprint _ := ""
  openKey _ _ := .error .Unreadable
  keyData material := material
  sign _ _ _ := .error "no key"
  publicHalf _ := none
  isRsa _ := none

/-- The sample connect, with an owner who stays long enough or not. -/
def sampleConnect (leaves : Nat) : Except ConnectFailure Target × Run Nat String :=
  Connector.connectFrom (sampleWorld leaves) sampleMaterial 0 false

def sampleLog (leaves : Nat) : List Event := (sampleConnect leaves).2.log

/-- The sample host once its key is pinned. -/
def sampleTarget : Target := { hops := [{ sampleHop with pinned := some sampleKey }] }

namespace Connector

/-! ## The bound on the rounds -/

/-- Whatever the servers and the person do, the bound on the rounds is not what ends a connect: no connect
gives up after too many attempts, and with any more rounds it would come to the same. -/
theorem connect_never_gives_up (more : Target → Nat) :
    (∀ target, (connectFrom W K world gone).1 ≠ .error (gaveUp target)) ∧
      Call.outcome (connectWithin W K fun target => roundLimit target + more target) (.start world gone) =
        Call.outcome (connectWithin W K roundLimit) (.start world gone) := by
  refine ⟨fun target same => ?_, connectWithin_congr (fun target => Nat.le_add_right _ _) (opening_begins W K world gone)⟩
  exact ((connectFrom_ends W K world gone).2 _ same).honest target rfl

/-! ## Where secrets go -/

/-- The newest connection was dialled to the hop, and its server presented the key that the policy had
pinned. -/
def OverVerified (log : List Event) (hop : HopRef) (key : HostKey) : Prop :=
  ∃ news between old, log = news ++ .Checked hop key .Pinned :: between ++ .Dialing hop :: old ∧
    (∀ event ∈ news, event.connection = none) ∧ ∀ other, .Dialing other ∉ between

/-- Who says that a key is the host's. -/
inductive Vouched (log : List Event) (id : String) (pin : HostKey) : Prop where
  /-- The saved host had it pinned when it was resolved. -/
  | saved (target : Target) (hop : Hop) (resolved : .Resolved target ∈ log) (member : hop ∈ target.hops)
      (same : hop.id = id) (pinned : hop.pinned = some pin)
  /-- Another connection had pinned it meanwhile. -/
  | recorded (hop : HopRef) (record : PinnedKey) (read : .Recorded hop record ∈ log) (same : hop.id = id)
      (pinned : record.key = pin)
  /-- The person was shown its fingerprint and trusted exactly it; then it was pinned. -/
  | confirmed (hop : HopRef) (previous : Option HostKey) (question : HostKeyQuestion) (later earlier : List Event)
      (written : log = later ++ .Pinned hop previous pin true :: earlier)
      (asked : .Confirmed hop question (some pin.fingerprint) ∈ earlier) (shown : question.fingerprint = pin.fingerprint)
      (same : hop.id = id)

end Connector

variable {W K} {log before after : List Event} {hop : HopRef}

omit [DecidableEq KeyData] in
/-- A connection that was judged was dialled to the hop it is of. -/
theorem dialed_of_connection {judged : Bool} (kept : Trace.Always (Allowed W K) log)
    (newest : connection log = some (hop, judged)) :
    ∃ between old, log = between ++ .Dialing hop :: old ∧ ∀ other, .Dialing other ∉ between := by
  induction log generalizing judged with
  | nil => cases newest
  | cons event before ih =>
    rw [connection_cons] at newest
    have through : connection before = some (hop, judged) ∨ connection before = some (hop, false) →
        (∀ other, event ≠ .Dialing other) →
          ∃ between old, event :: before = between ++ .Dialing hop :: old ∧ ∀ other, .Dialing other ∉ between := by
      intro earlier quiet
      obtain ⟨between, old, rfl, apart⟩ := earlier.elim (ih kept.2) (ih kept.2)
      exact ⟨event :: between, old, rfl, fun other member => (List.mem_cons.mp member).elim (quiet other ·.symm) (apart other)⟩
    cases event with
    | Dialing other =>
      cases newest
      exact ⟨[], before, rfl, nofun⟩
    -- A key is judged on the connection that was dialled last, so the dialling is further back.
    | Checked other key verdict =>
      cases newest
      exact through (.inr kept.1.1) nofun
    | Resolved | Recorded | Saved | Connecting | Sent | Asked | Noticed | Arrived | Bannered | Confirmed | Pinned | Opened | Closed | Left =>
      exact through (.inl newest) nofun

omit [DecidableEq KeyData] in
theorem Trusted.vouched {id : String} {pin : HostKey} (kept : Trace.Always (Allowed W K) log)
    (trusted : Trusted log id pin) : Connector.Vouched log id pin := by
  obtain ⟨target, resolved, own, member, same, pinned⟩ | ⟨hop, record, read, same, pinned⟩ | ⟨hop, previous, written, same⟩ := trusted
  · exact .saved target own resolved member same pinned
  · exact .recorded hop record read same pinned
  · obtain ⟨earlier, ⟨later, split⟩, _, question, ⟨_, changed, rfl, _⟩, asked⟩ := kept.of_mem written
    exact .confirmed hop previous _ later earlier split.symm asked rfl same

omit [DecidableEq KeyData] in
/-- The newest connection that is found good was dialled to its hop, and the key was vouched for. -/
theorem verified_of_connection (kept : Trace.Always (Allowed W K) log) (newest : connection log = some (hop, true)) :
    ∃ key pin, Connector.OverVerified log hop key ∧ Connector.Vouched log hop.id pin ∧ pin.fingerprint = key.fingerprint := by
  obtain ⟨news, event, old, rfl, connects, quiet⟩ := List.findSome?_eq_some_iff.mp newest
  have kept' : Trace.Always (Allowed W K) (event :: old) := kept.suffix (List.suffix_append _ _)
  cases event with
  | Checked other key verdict =>
    obtain ⟨rfl, pinned⟩ := Prod.mk.injEq .. ▸ Option.some.inj connects
    obtain rfl := of_decide_eq_true pinned
    obtain ⟨fresh, vouched⟩ := kept'.1
    obtain ⟨pin, trusted, same⟩ := vouched rfl
    obtain ⟨between, start, rfl, apart⟩ := dialed_of_connection kept'.2 fresh
    refine ⟨key, pin, ⟨news, between, start, by simp, quiet, apart⟩, ?_, same⟩
    refine Trusted.vouched kept (trusted.mono fun event member => ?_)
    exact List.mem_append_right _ (List.mem_cons_of_mem _ member)
  | Dialing other => cases connects
  | Resolved | Recorded | Saved | Connecting | Sent | Asked | Noticed | Arrived | Bannered | Confirmed | Pinned | Opened | Closed | Left =>
    cases connects

namespace Connector

/-- A secret is sent only over a connection whose server has just presented the key that is pinned for the
host, and somebody vouched for that pin: the saved host, another connection, or the person, who was shown
this very fingerprint. -/
theorem secrets_go_to_vouched_keys {credential : Credential}
    (sent : (connectFrom W K world gone).2.log = after ++ .Sent hop credential :: before) :
    ∃ key pin, OverVerified before hop key ∧ Vouched before hop.id pin ∧ pin.fingerprint = key.fingerprint := by
  have kept := (connectFrom_over W K world gone).allowed
  rw [sent] at kept
  exact verified_of_connection (kept.suffix (List.suffix_append _ _)).2 kept.at.1

theorem sample_sends_to_vouched_key :
    ∃ key pin, OverVerified ((sampleLog 100).drop 2) sampleHop.reference key ∧
      Vouched ((sampleLog 100).drop 2) sampleHop.reference.id pin ∧ pin.fingerprint = key.fingerprint := by
  have sent : sampleLog 100 = (sampleLog 100).take 1 ++
      .Sent sampleHop.reference (.Password "secret") :: (sampleLog 100).drop 2 := by decide +kernel
  generalize (sampleLog 100).take 1 = after, (sampleLog 100).drop 2 = before at sent ⊢
  rw [sampleLog, sampleConnect] at sent
  exact secrets_go_to_vouched_keys 0 false sent

/-- What is sent belongs to the host it is sent to: a password was typed for the host in this connect or is the
one saved for it, answers were given to prompts of this very hop, and a signature is made by the hop's own key,
with the private half of the line that was offered, and never with SHA-1. -/
theorem secrets_come_from_their_owner {credential : Credential}
    (sent : (connectFrom W K world gone).2.log = after ++ .Sent hop credential :: before) :
    Justified W K before hop credential := by
  have kept := (connectFrom_over W K world gone).allowed
  rw [sent] at kept
  exact kept.at.2

theorem sample_sends_own_password :
    Justified (sampleWorld 100) sampleMaterial ((sampleLog 100).drop 2) sampleHop.reference (.Password "secret") := by
  have sent : sampleLog 100 = (sampleLog 100).take 1 ++
      .Sent sampleHop.reference (.Password "secret") :: (sampleLog 100).drop 2 := by decide +kernel
  generalize (sampleLog 100).take 1 = after, (sampleLog 100).drop 2 = before at sent ⊢
  rw [sampleLog, sampleConnect] at sent
  exact secrets_come_from_their_owner 0 false sent

/-! ## What is asked -/

end Connector

/-- The window was asked about the key of the host. -/
def Event.confirms (id : String) : Event → Bool
  | .Confirmed hop _ _ => hop.id = id
  | _ => false

/-- How often the window was asked about the key of the host. -/
def windows (id : String) (log : List Event) : Nat := log.countP (Event.confirms id)

omit [DecidableEq KeyData] in
theorem prompts_le {id : String} (kept : Trace.Always (Allowed W K) log) : prompts id log ≤ PASSWORD_PROMPTS := by
  induction log with
  | nil => exact Nat.zero_le _
  | cons event before ih =>
    have earlier := ih kept.2
    rw [prompts_cons]
    split
    · rename_i asks
      cases event with
      | Asked hop kind text echo reply =>
        cases kind with
        | Password =>
          have few := kept.1.2.2.1 rfl
          rw [of_decide_eq_true asks] at few
          exact few
        | HostKeyNotice | Passphrase | Interactive => cases asks
      | _ => cases asks
    · exact earlier

omit [DecidableEq KeyData] in
theorem windows_le {id : String} (kept : Trace.Always (Allowed W K) log) : windows id log ≤ 1 := by
  induction log with
  | nil => exact Nat.zero_le _
  | cons event before ih =>
    rw [windows, List.countP_cons]
    split
    · rename_i asks
      cases event with
      | Confirmed hop question trusted =>
        have same : hop.id = id := of_decide_eq_true asks
        -- A question is allowed only when no earlier one was about this host.
        have none : before.countP (Event.confirms id) = 0 := by
          refine List.countP_eq_zero.mpr fun event member again => ?_
          cases event with
          | Confirmed other asked answer =>
            exact kept.1.2.1 other asked answer member ((of_decide_eq_true again).trans same.symm)
          | _ => cases again
        rw [none]
      | _ => cases asks
    · exact ih kept.2

omit [DecidableEq KeyData] in
/-- Whoever is asked after an entry was allowed to be, with the entry among what came before. -/
theorem mayAsk_after (kept : Trace.Always (Allowed W K) (after ++ event :: before)) :
    (∀ hop kind text echo reply, .Asked hop kind text echo reply ∈ after →
      ∃ between, MayAsk (between ++ event :: before) hop.id) ∧
      ∀ hop question trusted, .Confirmed hop question trusted ∈ after →
        ∃ between, MayAsk (between ++ event :: before) hop.id := by
  constructor
  · intro hop kind text echo reply member
    obtain ⟨latest, between, rfl⟩ := List.append_of_mem member
    rw [List.append_assoc, List.cons_append] at kept
    exact ⟨between, kept.at.1⟩
  · intro hop question trusted member
    obtain ⟨latest, between, rfl⟩ := List.append_of_mem member
    rw [List.append_assoc, List.cons_append] at kept
    exact ⟨between, kept.at.1⟩

namespace Connector

/-- Nobody is asked too often: the person types at most three passwords for a host, the window is opened at
most once for a host, a host that left a question unanswered asks nothing more, neither in the terminal nor in
the window, and nothing at all is asked after a passphrase that was not given or a window that did not trust
the key it showed; the passphrases are asked for before anything connects. -/
theorem questions_are_bounded :
    (∀ id, prompts id (connectFrom W K world gone).2.log ≤ PASSWORD_PROMPTS ∧
      windows id (connectFrom W K world gone).2.log ≤ 1) ∧
    (∀ after before hop kind text echo reply,
      (connectFrom W K world gone).2.log = after ++ .Asked hop kind text echo reply :: before →
      (kind = .Passphrase → ∀ target, .Connecting target ∉ before) ∧
      (reply.unanswered = true →
        (∀ other kind' text' echo' reply', .Asked other kind' text' echo' reply' ∈ after →
          kind ≠ .Passphrase ∧ other.id ≠ hop.id) ∧
        ∀ other question trusted, .Confirmed other question trusted ∈ after →
          kind ≠ .Passphrase ∧ other.id ≠ hop.id)) ∧
    ∀ after before hop question trusted,
      (connectFrom W K world gone).2.log = after ++ .Confirmed hop question trusted :: before →
      trusted ≠ some question.fingerprint →
      (∀ other kind text echo reply, .Asked other kind text echo reply ∉ after) ∧
        ∀ other question' trusted', .Confirmed other question' trusted' ∉ after := by
  have kept := (connectFrom_over W K world gone).allowed
  refine ⟨fun id => ⟨prompts_le kept, windows_le kept⟩, fun after before hop kind text echo reply asked => ?_,
    fun after before hop question trusted confirmed doubted => ?_⟩
  · rw [asked] at kept
    obtain ⟨terminal, window⟩ := mayAsk_after kept
    refine ⟨kept.at.2.1, fun unanswered => ⟨fun other kind' text' echo' reply' member => ?_,
      fun other question trusted member => ?_⟩⟩
    · obtain ⟨between, may⟩ := terminal other kind' text' echo' reply' member
      obtain ⟨passphrase, apart⟩ := may.answered hop kind text echo reply (List.mem_append_right _ List.mem_cons_self) unanswered
      exact ⟨passphrase, apart.symm⟩
    · obtain ⟨between, may⟩ := window other question trusted member
      obtain ⟨passphrase, apart⟩ := may.answered hop kind text echo reply (List.mem_append_right _ List.mem_cons_self) unanswered
      exact ⟨passphrase, apart.symm⟩
  · rw [confirmed] at kept
    obtain ⟨terminal, window⟩ := mayAsk_after kept
    refine ⟨fun other kind text echo reply member => ?_, fun other question' trusted' member => ?_⟩
    · obtain ⟨between, may⟩ := terminal other kind text echo reply member
      exact doubted (may.trusted hop question trusted (List.mem_append_right _ List.mem_cons_self))
    · obtain ⟨between, may⟩ := window other question' trusted' member
      exact doubted (may.trusted hop question trusted (List.mem_append_right _ List.mem_cons_self))

/-- A pin is written only for a key that the hop's own server presented and that is not the pinned one, after
the window was shown it and trusted exactly its fingerprint, while the owner was there; what it takes the
place of is what the question showed. -/
theorem pins_are_confirmed {previous : Option HostKey} {key : HostKey} {written : Bool}
    (pinned : (connectFrom W K world gone).2.log = after ++ .Pinned hop previous key written :: before) :
    .Left ∉ before ∧ .Checked hop key (verdictOn previous) ∈ before ∧
      ∃ changed, .Confirmed hop (hostKeyQuestion hop key changed) (some key.fingerprint) ∈ before ∧
        changed.map (·.fingerprint) = previous.map (·.fingerprint) := by
  have kept := (connectFrom_over W K world gone).allowed
  rw [pinned] at kept
  obtain ⟨here, _, ⟨presented, changed, rfl, shown⟩, trusted⟩ := kept.at
  exact ⟨here, presented, changed, trusted, shown⟩

theorem sample_pins_confirmed : .Left ∉ (sampleLog 100).drop 6 ∧
    .Checked sampleHop.reference sampleKey .Unknown ∈ (sampleLog 100).drop 6 := by
  have pinned : sampleLog 100 = (sampleLog 100).take 5 ++
      .Pinned sampleHop.reference none sampleKey true :: (sampleLog 100).drop 6 := by decide +kernel
  generalize (sampleLog 100).take 5 = after, (sampleLog 100).drop 6 = before at pinned ⊢
  rw [sampleLog, sampleConnect] at pinned
  obtain ⟨here, presented, _⟩ := pins_are_confirmed 0 false pinned
  exact ⟨here, presented⟩

/-! ## How a connect ends -/

/-- Once the owner has left, nothing more is connected, announced or pinned, the connect comes to a
cancellation whatever it was doing, and a session that did open is closed. -/
theorem leaving_ends_the_connect (left : (connectFrom W K world gone).2.log = after ++ .Left :: before) :
    (connectFrom W K world gone).1 = .error .cancelled ∧
      (∀ target, .Connecting target ∉ after) ∧ (∀ text, .Noticed text ∉ after) ∧
      (∀ hop previous key written, .Pinned hop previous key written ∉ after) ∧
      ∀ target, .Opened target ∈ (connectFrom W K world gone).2.log →
        ∃ rest, (connectFrom W K world gone).2.log = .Closed :: .Opened target :: rest := by
  have member : .Left ∈ (connectFrom W K world gone).2.log := left ▸ List.mem_append_right _ List.mem_cons_self
  have kept := (connectFrom_over W K world gone).allowed
  -- An entry after the leaving has the leaving among what came before it.
  have quiet : ∀ event, (∀ earlier, Allowed W K earlier event → .Left ∉ earlier) → event ∉ after := by
    rintro event needs later
    rw [left] at kept
    obtain ⟨latest, between, rfl⟩ := List.append_of_mem later
    rw [List.append_assoc, List.cons_append] at kept
    exact needs _ kept.at (List.mem_append_right _ List.mem_cons_self)
  obtain ⟨through, failed⟩ := connectFrom_ends W K world gone
  cases result : (connectFrom W K world gone).1 with
  | ok target => exact absurd member (through target result).2
  | error failure =>
    have ended := failed failure result
    refine ⟨by rw [ended.left member], ?_, ?_, ?_, fun target opened => (ended.closed target opened).1⟩
    · exact fun target => quiet _ fun earlier allowed => allowed
    · exact fun text => quiet _ fun earlier allowed => allowed
    · exact fun hop previous key written => quiet _ fun earlier allowed => allowed.1

/-- The owner leaves during the login: the session opens and is closed. -/
theorem sample_left_during_login : (sampleConnect 15).1 = .error .cancelled ∧
    (∀ target, .Connecting target ∉ (sampleLog 15).take 2) ∧
      ∃ rest, sampleLog 15 = .Closed :: .Opened sampleTarget :: rest := by
  have left : sampleLog 15 = (sampleLog 15).take 2 ++ .Left :: (sampleLog 15).drop 3 := by decide +kernel
  have opened : .Opened sampleTarget ∈ sampleLog 15 := by decide +kernel
  generalize (sampleLog 15).take 2 = after, (sampleLog 15).drop 3 = before at left ⊢
  rw [sampleLog, sampleConnect] at left opened ⊢
  obtain ⟨cancelled, quiet, _, _, closed⟩ := leaving_ends_the_connect 0 false left
  exact ⟨cancelled, quiet, closed sampleTarget opened⟩

/-- A session that is handed out: its owner is there, it was opened in the last step, once, and every hop of
its target showed a vouched key since the target was last connected to. -/
theorem opened_sessions_are_verified {target : Target} (opened : (connectFrom W K world gone).1 = .ok target) :
    .Left ∉ (connectFrom W K world gone).2.log ∧
      ∃ pass old, (connectFrom W K world gone).2.log = .Opened target :: pass ++ .Connecting target :: old ∧
        (∀ other, .Connecting other ∉ pass ∧ .Opened other ∉ pass ++ .Connecting target :: old) ∧
        ∀ hop ∈ target.hops, ∃ key pin, .Checked hop.reference key .Pinned ∈ pass ∧
          Vouched (connectFrom W K world gone).2.log hop.id pin ∧ pin.fingerprint = key.fingerprint := by
  obtain ⟨⟨ended, before, logged, once⟩, here⟩ := (connectFrom_ends W K world gone).1 target opened
  have kept := ended.allowed
  rw [logged] at kept here ⊢
  obtain ⟨pass, old, rfl, apart, shown⟩ := kept.1
  refine ⟨here, pass, old, rfl, fun other => ⟨apart other, once other⟩, fun hop member => ?_⟩
  obtain ⟨key, checked⟩ := shown hop member
  obtain ⟨latest, earlier, rfl⟩ := List.append_of_mem checked
  have own := kept.2
  rw [List.append_assoc, List.cons_append] at own
  obtain ⟨pin, trusted, same⟩ := own.at.2 rfl
  refine ⟨key, pin, checked, Trusted.vouched kept (trusted.mono fun event inside => ?_), same⟩
  simp [inside]

theorem sample_opens_verified : .Left ∉ sampleLog 100 ∧
    ∃ pass old, sampleLog 100 = .Opened sampleTarget :: pass ++ .Connecting sampleTarget :: old ∧
      ∃ key, .Checked sampleHop.reference key .Pinned ∈ pass := by
  have opened : (sampleConnect 100).1 = .ok sampleTarget := by decide +kernel
  rw [sampleLog]
  rw [sampleConnect] at opened ⊢
  obtain ⟨here, pass, old, logged, _, shown⟩ := opened_sessions_are_verified 0 false opened
  obtain ⟨key, pin, checked, _⟩ := shown { sampleHop with pinned := some sampleKey } List.mem_cons_self
  exact ⟨here, pass, old, logged, key, checked⟩

end Connector

end Sshelter.Session
