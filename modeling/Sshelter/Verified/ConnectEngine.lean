import Sshelter.Verified.ConnectAuth

/-! # One connect of the engine

Every hop is dialled, judged and logged in to before the next one.  What is sent to a server goes over the
newest connection, after its key was found to be the pinned one; and an error of the engine says what it
observed: a key without a pin, or one that is not the pin.
-/

namespace Sshelter.Session

open Ssh

variable {σ KeyData Material ε α β : Type} {W : World σ} {K : KeyMaterial KeyData Material} {pass : Pass Material}
  {place : Option (HopRef × Bool)} {base log : List Event} {hop : Hop} {run : Run σ Material}

/-! ## What a pass has logged -/

/-- The entry was added since the pass began. -/
def Fresh (pass : Pass Material) (log : List Event) (event : Event) : Prop :=
  ∃ news, log = news ++ .Connecting pass.target :: pass.old ∧ event ∈ news

theorem Fresh.mono {later : List Event} {event : Event} (fresh : Fresh pass log event) (grown : log <:+ later) :
    Fresh pass later event := by
  obtain ⟨news, rfl, member⟩ := fresh
  obtain ⟨more, rfl⟩ := grown
  exact ⟨more ++ news, by rw [List.append_assoc], List.mem_append_right _ member⟩

theorem Fresh.member {event : Event} (fresh : Fresh pass log event) : event ∈ log := by
  obtain ⟨news, rfl, member⟩ := fresh
  exact List.mem_append_left _ member

theorem Inside.fresh {event : Event} (inside : Inside W K pass place base run) : Fresh pass (event :: run.log) event := by
  obtain ⟨news, since, _⟩ := inside.since
  exact ⟨event :: news, by rw [since, List.cons_append], List.mem_cons_self⟩

theorem Inside.connecting (inside : Inside W K pass place base run) : .Connecting pass.target ∈ run.log := by
  obtain ⟨news, since, _⟩ := inside.since
  rw [since]
  exact List.mem_append_right _ List.mem_cons_self

/-- The hop is one of the target. -/
def Pass.hops (pass : Pass Material) (hop : HopRef) : Prop := ∃ own ∈ pass.target.hops, own.reference = hop

/-- What the engine's error says of the pass. -/
def Stops (pass : Pass Material) (log : List Event) : ConnectError → Prop
  | .HostKeyUnknown hop key => pass.hops hop ∧ pass.policy.pinned hop.id = none ∧ .Checked hop key .Unknown ∈ log
  | .HostKeyMismatch hop key pinned =>
    pass.hops hop ∧ pass.policy.pinned hop.id = some pinned ∧ .Checked hop key (.Mismatch pinned) ∈ log
  | .NoCommonHostKeyAlgorithm hop _ _ | .AuthFailed hop _ _ _ => pass.hops hop
  | .BadJumpChain _ | .Unreachable _ _ | .Timeout _ _ | .AuthAbandoned _ _ | .Protocol _ _ => True

/-- The pass is over with an error. -/
def Stopped (W : World σ) (K : KeyMaterial KeyData Material) (pass : Pass Material) (base : List Event)
    (error : ConnectError) (run : Run σ Material) : Prop :=
  Inside W K pass none base run ∧ Stops pass run.log error

/-! ## A new connection -/

theorem Inside.dialed (inside : Inside W K pass place base run) (hop : Hop) :
    Inside W K pass (some (hop.reference, false)) base { run with banners := {}, log := .Dialing hop.reference :: run.log } := by
  obtain ⟨news, since, apart⟩ := inside.since
  have dialed : Sound W K pass.done { run with log := .Dialing hop.reference :: run.log } := inside.sound.noted trivial rfl
  refine
    { sound := { dialed with }
      since := ⟨.Dialing hop.reference :: news, by simp [since], ?_⟩
      policy := inside.policy
      opened := inside.opened
      place := fun here given => by cases given; rfl
      base := inside.base.trans (List.suffix_cons _ _) }
  exact fun target member => apart target ((List.mem_cons.mp member).resolve_left nofun)

/-- The policy of the pass judges the key, and what it has pinned was vouched for. -/
theorem Inside.judged (inside : Inside W K pass (some (hop.reference, false)) base run) (key : HostKey) :
    Inside W K pass (some (hop.reference, pass.policy.check hop.reference key = .Pinned)) base
      { run with log := .Checked hop.reference key (pass.policy.check hop.reference key) :: run.log } := by
  obtain ⟨news, since, apart⟩ := inside.since
  have vouched : pass.policy.check hop.reference key = .Pinned →
      ∃ pin, Trusted run.log hop.reference.id pin ∧ pin.fingerprint = key.fingerprint := by
    intro verdict
    rw [PinPolicy.check] at verdict
    split at verdict
    · rename_i pin held
      refine ⟨pin, inside.sound.pins _ _ (inside.policy ▸ held), ?_⟩
      split at verdict
      · assumption
      · cases verdict
    · cases verdict
  refine
    { sound := inside.sound.noted ⟨inside.place _ rfl, vouched⟩ rfl
      since := ⟨.Checked hop.reference key (pass.policy.check hop.reference key) :: news, by simp [since], ?_⟩
      policy := inside.policy
      opened := inside.opened
      place := fun here given => by cases given; rfl
      base := inside.base.trans (List.suffix_cons _ _) }
  exact fun target member => apart target ((List.mem_cons.mp member).resolve_left nofun)

/-! ## Logging in -/

/-- The hop is being logged in to. -/
abbrev LoggingIn (W : World σ) (K : KeyMaterial KeyData Material) (pass : Pass Material) (hop : Hop)
    (base : List Event) (run : Run σ Material) : Prop :=
  Inside W K pass (some (hop.reference, true)) base run

/-- An error of the login. -/
def Fails (hop : Hop) : ConnectError → Prop
  | .HostKeyUnknown _ _ | .HostKeyMismatch _ _ _ | .NoCommonHostKeyAlgorithm _ _ _ => False
  | .AuthFailed other _ _ _ => other = hop.reference
  | .BadJumpChain _ | .Unreachable _ _ | .Timeout _ _ | .AuthAbandoned _ _ | .Protocol _ _ => True

theorem Fails.stops {error : ConnectError} (fails : Fails hop error) (member : hop ∈ pass.target.hops) :
    Stops pass log error := by
  cases error <;> first | trivial | exact fails.elim | exact ⟨hop, member, fails.symm⟩

/-- A step of the login, whatever was logged before it. -/
def Logs (W : World σ) (K : KeyMaterial KeyData Material) (pass : Pass Material) (hop : Hop)
    (call : Call ConnectError (Run σ Material) α) : Prop :=
  ∀ base, Call.Ensures (LoggingIn W K pass hop base) call (fun _ => LoggingIn W K pass hop base)
    fun error run => LoggingIn W K pass hop base run ∧ Fails hop error

theorem Logs.pure {a : α} : Logs W K pass hop (Pure.pure a) := fun _ => .pure fun _ start => start

theorem Logs.throw {error : ConnectError} (fails : Fails hop error) :
    Logs W K pass hop (throw error : Call ConnectError (Run σ Material) α) :=
  fun _ => .throw fun _ start => ⟨start, fails⟩

theorem Logs.bind {call : Call ConnectError (Run σ Material) α} {next : α → Call ConnectError (Run σ Material) β}
    (first : Logs W K pass hop call) (second : ∀ a, Logs W K pass hop (next a)) : Logs W K pass hop (call >>= next) :=
  fun base => (first base).bind fun a => second a base

theorem Logs.map {call : Call ConnectError (Run σ Material) α} {f : α → β} (logs : Logs W K pass hop call) :
    Logs W K pass hop (f <$> call) := fun base => .map (f := f) (logs base)

theorem Logs.act {answer : σ → α × σ} : Logs W K pass hop (W.act answer) := fun _ => act_keeps

/-- A view of the run is a value like any other. -/
theorem Logs.read {view : Run σ Material → α} : Logs W K pass hop (Session.read view) :=
  fun _ => ensures_read.weaken (fun _ => id) (fun _ _ kept => kept.1) fun _ _ failed => failed

namespace RusshEngine

theorem takeBanners_keeps {arrived : List String} {failed : ε → Run σ Material → Prop} :
    Call.Ensures (Inside W K pass place base) (takeBanners arrived) (fun _ => Inside W K pass place base) failed :=
  fun _ start => { start with sound := { start.sound with } }

theorem deliverBanners_keeps {failed : ε → Run σ Material → Prop} :
    Call.Ensures (Inside W K pass place base) (deliverBanners W hop) (fun _ => Inside W K pass place base) failed := by
  have looks : Call.Ensures (ε := ε) (Inside W K pass place base)
      (W.act (W.banners hop) fun arrived => (arrived.map (Event.Arrived hop.reference)).reverse)
      (fun _ => Inside W K pass place base) failed :=
    ensures_act (fun _ _ _ kept => kept.moved _) fun _ arrived start => start.arrived hop.reference arrived
  refine looks.bind fun arrived => takeBanners_keeps.bind fun text => ?_
  cases text with
  | none => exact .pure fun _ start => start
  | some text => exact BrokerAuth.banner_keeps

theorem deliverBanners_logs : Logs W K pass hop (deliverBanners W hop) := fun _ => deliverBanners_keeps

section Login
variable {login : Login}

theorem afterEmptyRefusal_logs {remaining : List MethodKind} :
    Logs W K pass hop (afterEmptyRefusal W hop login remaining) := by
  refine Logs.act.bind fun answer => ?_
  cases answer with
  | NoLoginMethod => exact .throw rfl
  | Lost => exact .throw trivial
  | Refusal => exact .pure

theorem settle_logs {answer : LoginAnswer} : Logs W K pass hop (settle W hop login answer) := by
  cases answer with
  | Success => exact .pure
  | TimedOut | Lost => exact .throw trivial
  | Refused remaining =>
    rw [settle]
    split
    · exact afterEmptyRefusal_logs.bind fun _ => .pure
    · exact .pure

/-- What is sent goes to the hop that is being logged in to. -/
theorem sent_logs {credential : Credential} :
    Call.Ensures (fun run => LoggingIn W K pass hop base run ∧ Justified W K run.log hop.reference credential)
      (tell (.Sent hop.reference credential)) (fun _ => LoggingIn W K pass hop base)
      fun (error : ConnectError) run => LoggingIn W K pass hop base run ∧ Fails hop error :=
  ensures_tell fun _ start => start.1.noted rfl ⟨start.1.place _ rfl, start.2⟩ rfl

theorem sign_own {keyId line : String} {rsa : Bool} {hash : Option RsaHash} {data blob : Wire.Bytes}
    (member : hop ∈ pass.target.hops) (keyed : hop.auth = .Key keyId) (reads : K.isRsa line = some rsa)
    (held : (pass.opened[keyId]?).map (·.2) = some line) (inside : LoggingIn W K pass hop base run)
    (hashed : rsa = true → hash.isSome = true) (signed : run.auth.sign K keyId data hash = .ok blob) :
    OwnSignature K run.log hop.reference keyId line hash data blob := by
  obtain ⟨⟨material, line'⟩, found, rfl⟩ := Option.map_eq_some_iff.mp held
  rw [← inside.opened] at found
  simp only [BrokerAuth.sign, found] at signed
  refine
    { own := ⟨pass.target, inside.connecting, hop, member, rfl, keyed⟩
      made := ⟨material, inside.sound.auth.opened _ _ _ found, ?_⟩
      hashed := fun isRsa => hashed (Option.some.inj (reads.symm.trans isRsa)) }
  cases made : K.sign material data (rsaFlags hash) with
  | error why =>
    rw [made] at signed
    cases signed
  | ok other =>
    rw [made] at signed
    exact congrArg _ (Except.ok.inj signed)

section Key
variable {keyId line : String} {rsa : Bool} {hash : Option RsaHash} (member : hop ∈ pass.target.hops)
  (keyed : hop.auth = .Key keyId) (reads : K.isRsa line = some rsa)
  (held : (pass.opened[keyId]?).map (·.2) = some line)
include member keyed reads held

theorem authSign_logs {data : Wire.Bytes} : Logs W K pass hop (authSign K hop keyId line rsa hash data) := by
  rw [authSign]
  split
  · exact .throw trivial
  · rename_i allowed
    intro base
    refine ensures_read.bind fun signed => ?_
    cases signed with
    | error why => exact .throw fun _ start => ⟨start.1, trivial⟩
    | ok blob =>
      refine (sent_logs.before fun run start => ⟨start.1, ?_⟩).bind fun _ => .pure fun _ start => start
      refine sign_own member keyed reads held start.1 ?_ start.2.symm
      rintro rfl
      simpa [Option.isSome_iff_ne_none] using allowed

theorem offerKey_logs : Logs W K pass hop (offerKey W K hop login keyId line rsa hash) := by
  refine Logs.act.bind fun offer => ?_
  cases offer with
  | Answered answer => exact settle_logs
  | Sign hash data =>
    exact (authSign_logs member keyed reads held).bind fun blob => Logs.act.bind fun answer => settle_logs

end Key

theorem rsaHash_logs : Logs W K pass hop (rsaHash W hop) := by
  refine Logs.act.bind fun support => ?_
  cases support with
  | TimedOut | Lost => exact .throw trivial
  | Best best => exact .pure

/-- A key is tried without a look at the password that was asked for before. -/
theorem tryKey_logs {keyId : String} (member : hop ∈ pass.target.hops) (keyed : hop.auth = .Key keyId) :
    Call.Ensures (LoggingIn W K pass hop base) (tryKey W K hop keyId login)
      (fun tried run => LoggingIn W K pass hop base run ∧ tried.2.prefetched = login.prefetched)
      fun error run => LoggingIn W K pass hop base run ∧ Fails hop error := by
  refine ensures_read.bind fun line => ?_
  cases line with
  | none => exact .pure fun _ start => ⟨start.1, rfl⟩
  | some line =>
    refine .start fun run start => ?_
    have held : (pass.opened[keyId]?).map (·.2) = some line := by rw [← start.1.opened]; exact start.2.symm
    refine Call.Ensures.before ?_ (fun _ same => same ▸ start.1)
    dsimp only
    split
    · exact .pure fun _ start => ⟨start, rfl⟩
    · rename_i reads
      exact (offerKey_logs member keyed reads held base).bind fun _ => .pure fun _ start => ⟨start, rfl⟩
    · rename_i reads
      refine (rsaHash_logs base).bind fun choice => ?_
      cases choice with
      | Sha1Only => exact .pure fun _ start => ⟨start, rfl⟩
      | Use hash => exact (offerKey_logs member keyed reads held base).bind fun _ => .pure fun _ start => ⟨start, rfl⟩

/-- The password that was asked for before the connection came from the person or the keychain. -/
def Prefetched (W : World σ) (hop : Hop) (prefetched : Option (Option String)) (run : Run σ Material) : Prop :=
  ∀ password, prefetched = some (some password) → Given W run.log hop.id password

/-- What was given before is still given later. -/
theorem Prefetched.keep {call : Call ConnectError (Run σ Material) α} {prefetched : Option (Option String)} {ok : α → Prop}
    (logs : ∀ base, Call.Ensures (LoggingIn W K pass hop base) call
      (fun a run => LoggingIn W K pass hop base run ∧ ok a)
      fun error run => LoggingIn W K pass hop base run ∧ Fails hop error) :
    Call.Ensures (fun run => LoggingIn W K pass hop base run ∧ Prefetched W hop prefetched run) call
      (fun a run => (LoggingIn W K pass hop base run ∧ Prefetched W hop prefetched run) ∧ ok a)
      fun error run => LoggingIn W K pass hop base run ∧ Fails hop error := by
  refine .start fun run start => (logs run.log).weaken ?_ (fun a later kept => ?_) fun error later kept => ?_
  · rintro _ rfl
    exact start.1.now
  · refine ⟨⟨kept.1.earlier start.1.base, fun password same => ?_⟩, kept.2⟩
    exact (start.2 password same).mono fun _ member => kept.1.base.subset member
  · exact ⟨kept.1.earlier start.1.base, kept.2⟩

theorem Logs.keep {call : Call ConnectError (Run σ Material) α} {prefetched : Option (Option String)}
    (logs : Logs W K pass hop call) :
    Call.Ensures (fun run => LoggingIn W K pass hop base run ∧ Prefetched W hop prefetched run) call
      (fun _ run => LoggingIn W K pass hop base run ∧ Prefetched W hop prefetched run)
      fun error run => LoggingIn W K pass hop base run ∧ Fails hop error := by
  have kept : Call.Ensures (fun run => LoggingIn W K pass hop base run ∧ Prefetched W hop prefetched run) call
      (fun _ run => (LoggingIn W K pass hop base run ∧ Prefetched W hop prefetched run) ∧ True)
      fun error run => LoggingIn W K pass hop base run ∧ Fails hop error :=
    Prefetched.keep fun base =>
      (logs base).weaken (fun _ => id) (fun _ _ start => ⟨start, trivial⟩) fun _ _ failed => failed
  exact kept.weaken (fun _ => id) (fun _ _ start => start.1) fun _ _ failed => failed

theorem passwordFor_gives {prefetched : Option (Option String)} :
    Call.Ensures (fun run => LoggingIn W K pass hop base run ∧ Prefetched W hop prefetched run)
      (passwordFor W hop prefetched) (BrokerAuth.Gives W K pass (some (hop.reference, true)) base hop.reference.id)
      fun error run => LoggingIn W K pass hop base run ∧ Fails hop error := by
  cases prefetched with
  | none => exact BrokerAuth.password_gives.before fun _ start => start.1
  | some given => exact .pure fun run start => ⟨start.1, fun password same => start.2 password (by rw [same])⟩

/-- Trying the password uses up the one that was asked for before. -/
theorem tryPassword_logs :
    Call.Ensures (fun run => LoggingIn W K pass hop base run ∧ Prefetched W hop login.prefetched run)
      (tryPassword W hop login)
      (fun tried run => LoggingIn W K pass hop base run ∧ Prefetched W hop tried.2.prefetched run)
      fun error run => LoggingIn W K pass hop base run ∧ Fails hop error := by
  refine passwordFor_gives.bind fun given => ?_
  cases given with
  | none => exact .pure fun _ start => ⟨start.1, nofun⟩
  | some password =>
    refine (sent_logs.before fun run start => ⟨start.1, start.2 password rfl⟩).bind fun _ => ?_
    refine (Logs.act base).bind fun answer => (settle_logs base).bind fun step => .pure fun _ start => ⟨start, nofun⟩

theorem answerRound_gives {prompts : List Prompt} :
    Call.Ensures (LoggingIn W K pass hop base) (answerRound W hop prompts)
      (fun answers run => LoggingIn W K pass hop base run ∧ Justified W K run.log hop.reference (.Answers answers))
      fun error run => LoggingIn W K pass hop base run ∧ Fails hop error := by
  rw [answerRound]
  split
  · exact .pure fun _ start => ⟨start, nofun⟩
  · refine (deliverBanners_logs base).bind fun _ => BrokerAuth.interactive_gives.bind fun given => ?_
    cases given with
    | none => exact .throw fun _ start => ⟨start.1, trivial⟩
    | some answers =>
      refine .start fun run start => ?_
      have asked := start.2 answers rfl
      have looks : Call.Ensures (· = run) (W.act W.overdue) (fun _ => LoggingIn W K pass hop run.log)
          fun error run => LoggingIn W K pass hop base run ∧ Fails hop error := by
        refine act_keeps.before ?_
        rintro _ rfl
        exact start.1.now
      refine looks.bind fun late => ?_
      have kept : ∀ later, LoggingIn W K pass hop run.log later → LoggingIn W K pass hop base later :=
        fun later now => now.earlier start.1.base
      split
      · exact .throw fun later now => ⟨kept later now, trivial⟩
      · split
        · exact .throw fun later now => ⟨kept later now, trivial⟩
        · refine .pure fun later now => ⟨kept later now, fun given member => ?_⟩
          obtain ⟨text, echo, event⟩ := asked given member
          exact ⟨text, echo, now.base.subset event⟩

theorem converse_logs {conversation : Conversation} : Logs W K pass hop (converse W hop conversation) := by
  induction conversation with
  | Success | Failure remaining => exact .pure
  | TimedOut | Lost => exact .throw trivial
  | InfoRequest prompts respond ih =>
    exact fun base => answerRound_gives.bind fun answers => sent_logs.bind fun _ => ih answers base

theorem tryInteractive_logs :
    Call.Ensures (LoggingIn W K pass hop base) (tryInteractive W hop login)
      (fun tried run => LoggingIn W K pass hop base run ∧ tried.2.prefetched = login.prefetched)
      fun error run => LoggingIn W K pass hop base run ∧ Fails hop error :=
  (Logs.act base).bind fun _ => (converse_logs base).bind fun _ => .pure fun _ start => ⟨start, rfl⟩

/-- Only the password method looks at the password that was asked for before. -/
theorem tryMethod_logs {method : AuthMethod} (member : hop ∈ pass.target.hops) (own : method ∈ hop.authSequence) :
    Call.Ensures (fun run => LoggingIn W K pass hop base run ∧ Prefetched W hop login.prefetched run)
      (tryMethod W K hop login method)
      (fun tried run => LoggingIn W K pass hop base run ∧ Prefetched W hop tried.2.prefetched run)
      fun error run => LoggingIn W K pass hop base run ∧ Fails hop error := by
  have same : ∀ (tried : Step × Login) run, (LoggingIn W K pass hop base run ∧ Prefetched W hop login.prefetched run) ∧
      tried.2.prefetched = login.prefetched → LoggingIn W K pass hop base run ∧ Prefetched W hop tried.2.prefetched run :=
    fun tried run kept => kept.2 ▸ kept.1
  cases method with
  | Password => exact tryPassword_logs
  | Key keyId =>
    have keyed : hop.auth = .Key keyId := by
      cases auth : hop.auth <;> simp [Hop.authSequence, auth] at own
      rw [own]
    exact (Prefetched.keep fun base => tryKey_logs member keyed).weaken (fun _ => id) same fun _ _ failed => failed
  | Interactive =>
    exact (Prefetched.keep fun base => tryInteractive_logs).weaken (fun _ => id) same fun _ _ failed => failed

theorem afterSkip_logs {step : Step} : Logs W K pass hop (afterSkip W hop login step) := by
  cases step with
  | LoggedIn | Refused remaining => exact .pure
  | Skipped =>
    rw [afterSkip]
    split
    · exact Logs.act.bind fun _ => settle_logs
    · exact .pure

theorem authenticateWith_logs {methods : List AuthMethod} (member : hop ∈ pass.target.hops)
    (own : ∀ method ∈ methods, method ∈ hop.authSequence) (login : Login) :
    Call.Ensures (fun run => LoggingIn W K pass hop base run ∧ Prefetched W hop login.prefetched run)
      (authenticateWith W K hop methods login) (fun _ => LoggingIn W K pass hop base)
      fun error run => LoggingIn W K pass hop base run ∧ Fails hop error := by
  induction methods generalizing login with
  | nil => exact .throw fun _ start => ⟨start.1, rfl⟩
  | cons method rest ih =>
    have rests := fun method inside => own method (List.mem_cons_of_mem _ inside)
    rw [authenticateWith]
    split
    · exact ih rests login
    · refine (Logs.keep deliverBanners_logs).bind fun _ => (tryMethod_logs member (own method List.mem_cons_self)).bind fun tried => ?_
      obtain ⟨step, login⟩ := tried
      refine (Logs.keep afterSkip_logs).bind fun step => ?_
      cases step with
      | LoggedIn => exact .pure fun _ start => start.1
      | Refused remaining => exact ih rests { login with offered := some remaining }
      | Skipped => exact ih rests login

theorem authenticate_logs {prefetched : Option (Option String)} (member : hop ∈ pass.target.hops) :
    Call.Ensures (fun run => LoggingIn W K pass hop base run ∧ Prefetched W hop prefetched run)
      (authenticate W K hop prefetched) (fun _ => LoggingIn W K pass hop base)
      fun error run => LoggingIn W K pass hop base run ∧ Fails hop error :=
  authenticateWith_logs member (fun _ own => own) { prefetched }

end Login

/-! ## Reaching a hop -/

theorem orThrow_stops {error : Option ConnectError} {pre : Run σ Material → Prop}
    {ok : Unit → Run σ Material → Prop} {failed : ConnectError → Run σ Material → Prop}
    (returns : error = none → ∀ run, pre run → ok () run) (fails : ∀ e, error = some e → ∀ run, pre run → failed e run) :
    Call.Ensures pre (orThrow error) ok failed := by
  cases error with
  | none => exact .pure (returns rfl)
  | some e => exact .throw (fails e rfl)

/-- What was observed of the server's key. -/
def Observed (W : World σ) (K : KeyMaterial KeyData Material) (pass : Pass Material) (hop : Hop) (base : List Event)
    (observed : Option (HostKey × HostKeyVerdict)) (run : Run σ Material) : Prop :=
  Inside W K pass (some (hop.reference, observed.any fun observed => observed.2 = .Pinned)) base run ∧
    ∀ key verdict, observed = some (key, verdict) →
      verdict = pass.policy.check hop.reference key ∧ Fresh pass run.log (.Checked hop.reference key verdict)

theorem checkServerKey_observes {failed : ε → Run σ Material → Prop} :
    Call.Ensures (Inside W K pass (some (hop.reference, false)) base) (checkServerKey W hop)
      (Observed W K pass hop base) failed := by
  refine act_keeps.bind fun presented => ?_
  cases presented with
  | none => exact .pure fun _ start => ⟨start, nofun⟩
  | some key =>
    intro run start
    show Observed W K pass hop base (some (key, run.policy.check hop.reference key))
      { run with log := .Checked hop.reference key (run.policy.check hop.reference key) :: run.log }
    have judge : run.policy.check hop.reference key = pass.policy.check hop.reference key := by rw [start.policy]
    rw [judge]
    refine ⟨start.judged key, fun key' verdict same => ?_⟩
    cases same
    exact ⟨rfl, start.fresh⟩

/-- A handshake comes to an error, unless the key was the pinned one. -/
theorem handshakeError_eq_none {observed : Option (HostKey × HostKeyVerdict)} {ended : HandshakeEnd} :
    handshakeError hop.reference observed ended = none ↔ ended = .Connected := by
  cases ended with
  | UnknownKey =>
    obtain _ | ⟨key, _ | _ | pinned⟩ := observed <;> exact ⟨nofun, nofun⟩
  | Connected => exact ⟨fun _ => rfl, fun _ => rfl⟩
  | NoCommonKeyAlgorithm ours theirs => exact ⟨nofun, nofun⟩
  | Io reason | Closed | Other text | TimedOut => exact ⟨nofun, nofun⟩

/-- The verdict of the policy is what it has pinned. -/
theorem check_unknown {policy : PinPolicy} {hop : HopRef} {key : HostKey} (verdict : .Unknown = policy.check hop key) :
    policy.pinned hop.id = none := by
  rw [PinPolicy.check] at verdict
  split at verdict
  · split at verdict <;> cases verdict
  · assumption

theorem check_mismatch {policy : PinPolicy} {hop : HopRef} {key pinned : HostKey}
    (verdict : .Mismatch pinned = policy.check hop key) : policy.pinned hop.id = some pinned := by
  rw [PinPolicy.check] at verdict
  split at verdict
  · rename_i held
    split at verdict
    · cases verdict
    · cases verdict
      exact held
  · cases verdict

theorem handshakeError_stops {observed : Option (HostKey × HostKeyVerdict)} {ended : HandshakeEnd}
    {error : ConnectError} (member : hop ∈ pass.target.hops)
    (fails : handshakeError hop.reference observed ended = some error) (seen : Observed W K pass hop base observed run) :
    Stops pass run.log error := by
  have own : pass.hops hop.reference := ⟨hop, member, rfl⟩
  cases ended with
  | UnknownKey =>
    obtain _ | ⟨key, _ | _ | pinned⟩ := observed
    · cases fails
      trivial
    · cases fails
      trivial
    · cases fails
      obtain ⟨verdict, checked⟩ := seen.2 key .Unknown rfl
      exact ⟨own, check_unknown verdict, checked.member⟩
    · cases fails
      obtain ⟨verdict, checked⟩ := seen.2 key (.Mismatch pinned) rfl
      exact ⟨own, check_mismatch verdict, checked.member⟩
  | Connected => cases fails
  | NoCommonKeyAlgorithm ours theirs =>
    cases fails
    exact own
  | Io reason | Closed | Other text | TimedOut =>
    cases fails
    trivial

/-- A hop that was reached showed its pinned key in this pass. -/
def Reached (W : World σ) (K : KeyMaterial KeyData Material) (pass : Pass Material) (hop : Hop) (base : List Event)
    (run : Run σ Material) : Prop :=
  LoggingIn W K pass hop base run ∧ ∃ key, Fresh pass run.log (.Checked hop.reference key .Pinned)

theorem handshake_reaches (member : hop ∈ pass.target.hops) :
    Call.Ensures (Inside W K pass (some (hop.reference, false)) base) (handshake W hop)
      (fun _ => Reached W K pass hop base) (Stopped W K pass base) := by
  refine checkServerKey_observes.bind fun observed => ?_
  have shakes : Call.Ensures (Observed W K pass hop base observed)
      (W.act (W.shakes hop (observed.any fun observed => observed.2 = .Pinned)))
      (fun ended run => Observed W K pass hop base observed run ∧
        (ended = .Connected → observed.any (fun observed => observed.2 = .Pinned) = true))
      (Stopped W K pass base) := by
    refine ensures_answer (fun _ run world kept => ⟨⟨kept.1.1.moved world, fun key verdict same => ?_⟩, kept.2⟩)
      fun run start => ⟨start, fun connected => ?_⟩
    · obtain ⟨checked, fresh⟩ := kept.1.2 key verdict same
      exact ⟨checked, fresh.mono (moved_suffix world)⟩
    · by_contra distrusted
      rw [Bool.eq_false_of_not_eq_true distrusted] at connected
      exact W.shakes_distrusted _ _ connected
  refine shakes.bind fun ended => orThrow_stops (fun done run seen => ?_) fun error failed run seen =>
    ⟨seen.1.1.anywhere, handshakeError_stops member failed seen.1⟩
  have trusted := seen.2 (handshakeError_eq_none.mp done)
  obtain _ | ⟨key, verdict⟩ := observed
  · cases trusted
  · obtain rfl : verdict = .Pinned := of_decide_eq_true trusted
    exact ⟨seen.1.1, key, (seen.1.2 key .Pinned rfl).2⟩

theorem reach_keeps {via : Option HopRef} :
    Call.Ensures (Inside W K pass place base) (reach W hop via) (fun _ => Inside W K pass place base)
      (Stopped W K pass base) := by
  cases via with
  | none =>
    refine act_keeps.bind fun ended => orThrow_stops (fun _ _ start => start) fun error failed run start =>
      ⟨start.anywhere, ?_⟩
    cases ended <;> cases failed <;> trivial
  | some via =>
    refine act_keeps.bind fun ended => orThrow_stops (fun _ _ start => start) fun error failed run start =>
      ⟨start.anywhere, ?_⟩
    cases ended <;> cases failed <;> trivial

theorem connectHop_reaches {via : Option HopRef} (member : hop ∈ pass.target.hops) :
    Call.Ensures (Inside W K pass place base) (connectHop W hop via) (fun _ => Reached W K pass hop base)
      (Stopped W K pass base) := by
  have dials : Call.Ensures (Inside W K pass place base) (dial hop)
      (fun _ => Inside W K pass (some (hop.reference, false)) base) (Stopped W K pass base) :=
    fun _ start => start.dialed hop
  exact dials.bind fun _ => reach_keeps.bind fun _ => handshake_reaches member

theorem prefetch_gives :
    Call.Ensures (Inside W K pass place base) (prefetch W hop)
      (fun prefetched run => Inside W K pass place base run ∧ Prefetched W hop prefetched run) (Stopped W K pass base) := by
  rw [prefetch]
  split
  · refine BrokerAuth.password_gives.bind fun given => .pure fun run start => ⟨start.1, fun password same => ?_⟩
    exact start.2 password (Option.some.inj same)
  · exact .pure fun _ start => ⟨start, nofun⟩

/-- A hop that was connected showed its pinned key in this pass. -/
def Shown (pass : Pass Material) (log : List Event) (hop : Hop) : Prop :=
  ∃ key, Fresh pass log (.Checked hop.reference key .Pinned)

/-- The login of a hop that was reached, with what it is to log before and after. -/
theorem login_shows {prefetched : Option (Option String)} (member : hop ∈ pass.target.hops)
    (given : ∀ later : Run σ Material, base <:+ later.log → Prefetched W hop prefetched later) :
    Call.Ensures (Reached W K pass hop base)
      (do let login ← (authenticate W K hop prefetched).attempt
          deliverBanners W hop
          Call.of login)
      (fun _ run => Inside W K pass none base run ∧ Shown pass run.log hop) (Stopped W K pass base) := by
  refine .start fun run start => ?_
  obtain ⟨inside, key, fresh⟩ := start
  have attempts : Call.Ensures (· = run) (authenticate W K hop prefetched).attempt
      (fun login later => LoggingIn W K pass hop run.log later ∧ ∀ error, login = .error error → Fails hop error)
      (Stopped W K pass base) := by
    refine .attempt (((authenticate_logs member).before ?_).weaken (fun _ same => same) (fun _ _ kept => ⟨kept, nofun⟩)
      fun error later failed => ⟨failed.1, fun other same => ?_⟩)
    · rintro _ rfl
      exact ⟨inside.now, given _ inside.base⟩
    · cases same
      exact failed.2
  refine attempts.bind fun login => ?_
  have delivers : Call.Ensures (fun later => LoggingIn W K pass hop run.log later ∧ ∀ error, login = .error error → Fails hop error)
      (deliverBanners W hop) (fun _ => LoggingIn W K pass hop run.log) (Stopped W K pass base) :=
    deliverBanners_keeps.before fun _ kept => kept.1
  by_cases failed : ∀ error, login = .error error → Fails hop error
  · refine delivers.bind fun _ => ?_
    cases login with
    | ok done => exact fun later kept => ⟨(kept.earlier inside.base).anywhere, key, fresh.mono kept.base⟩
    | error error => exact fun later kept => ⟨(kept.earlier inside.base).anywhere, (failed error rfl).stops member⟩
  · exact fun later kept => absurd kept.2 failed

theorem connectOne_shows {via : Option HopRef} (member : hop ∈ pass.target.hops) :
    Call.Ensures (Inside W K pass none base) (connectOne W K hop via)
      (fun _ run => Inside W K pass none base run ∧ Shown pass run.log hop) (Stopped W K pass base) := by
  refine prefetch_gives.bind fun prefetched => .start fun run start => ?_
  have given : ∀ later : Run σ Material, run.log <:+ later.log → Prefetched W hop prefetched later :=
    fun later grown password same => (start.2 password same).mono fun _ inLog => grown.subset inLog
  have reaches : Call.Ensures (Inside W K pass none run.log) (connectHop W hop via)
      (fun _ => Reached W K pass hop run.log) (Stopped W K pass run.log) := connectHop_reaches member
  refine Call.Ensures.weaken (reaches.bind fun _ => login_shows member given) ?_
    (fun _ later kept => ⟨kept.1.earlier start.1.base, kept.2⟩) fun _ later kept => ⟨kept.1.earlier start.1.base, kept.2⟩
  rintro _ rfl
  exact start.1.now

theorem connectHops_shows {hops : List Hop} {via : Option HopRef} (members : ∀ hop ∈ hops, hop ∈ pass.target.hops) :
    Call.Ensures (Inside W K pass none base) (connectHops W K via hops)
      (fun _ run => Inside W K pass none base run ∧ ∀ hop ∈ hops, Shown pass run.log hop) (Stopped W K pass base) := by
  induction hops generalizing via base with
  | nil => exact .pure fun _ start => ⟨start, nofun⟩
  | cons hop rest ih =>
    refine (connectOne_shows (members hop List.mem_cons_self)).bind fun _ => .start fun run start => ?_
    obtain ⟨inside, key, fresh⟩ := start
    have rests : Call.Ensures (Inside W K pass none run.log) (connectHops W K (some hop.reference) rest)
        (fun _ later => Inside W K pass none run.log later ∧ ∀ hop ∈ rest, Shown pass later.log hop)
        (Stopped W K pass run.log) := ih fun hop member => members hop (List.mem_cons_of_mem _ member)
    refine rests.weaken ?_ (fun _ later kept => ⟨kept.1.earlier inside.base, ?_⟩)
      fun _ later kept => ⟨kept.1.earlier inside.base, kept.2⟩
    · rintro _ rfl
      exact inside.now
    · exact List.forall_mem_cons.mpr ⟨⟨key, fresh.mono kept.1.base⟩, kept.2⟩

/-- A connect of the engine ends with every hop of the target verified, or with an error that says what it saw. -/
theorem connect_shows :
    Call.Ensures (Inside W K pass none base) (connect W K pass.target)
      (fun _ run => Inside W K pass none base run ∧ ∀ hop ∈ pass.target.hops, Shown pass run.log hop)
      (Stopped W K pass base) := by
  have checks : Call.Ensures (Inside W K pass none base) (orThrow (checkChain pass.target))
      (fun _ => Inside W K pass none base) (Stopped W K pass base) := by
    refine orThrow_stops (fun _ _ start => start) fun error failed run start => ⟨start, ?_⟩
    rw [checkChain] at failed
    split at failed
    · cases failed
      trivial
    · obtain ⟨hop, _, rfl⟩ := Option.map_eq_some_iff.mp failed
      trivial
  exact checks.bind fun _ => connectHops_shows fun _ own => own

end RusshEngine

end Sshelter.Session
