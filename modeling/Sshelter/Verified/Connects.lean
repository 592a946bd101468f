import Sshelter.Verified.ConnectRounds

/-! # Whole connects

A connect from its beginning: the saved host is resolved, the keys are opened, and the loop goes round
until one of its passes decides.  The loop decides the same with every bound above what its hosts may ask.
-/

namespace Sshelter.Session

open Ssh

variable {σ KeyData Material ε α : Type} {W : World σ} {K : KeyMaterial KeyData Material} {done : Done}
  {policy : PinPolicy} {run : Run σ Material} {target : Target} {event : Event}

namespace Connector

/-! ## The loop -/

/-- The loop ends by a decision of a pass before it runs out of rounds. -/
theorem rounds_ends {left : Nat} (enough : askLeft done policy (target.hops.map (·.id)) < left) :
    Call.Ensures (Ready W K done policy) (rounds W K left target done) (Through W K) (Failed W K) := by
  induction left generalizing target done policy with
  | zero => exact absurd enough (Nat.not_lt_zero _)
  | succ left ih =>
    refine round_passes.bind fun round => ?_
    cases round with
    | Opened =>
      refine .pure fun run passed => ?_
      obtain ⟨_, through⟩ | ⟨_, _, same, _⟩ := passed
      · exact through
      · cases same
    | Again target' done' =>
      refine .start fun run passed => ?_
      obtain ⟨same, _⟩ | ⟨_, _, same, sound, ids, less⟩ := passed
      · cases same
      · cases same
        -- A pin changes a hop of the target but never its id, so what is left is counted over the same hosts.
        have fewer : askLeft done' run.policy (target'.hops.map (·.id)) < left := by
          rw [ids]
          omega
        rintro _ rfl
        exact ih fewer _ ⟨sound, rfl⟩

/-- Above what its hosts may ask, the bound on the rounds makes no difference. -/
theorem rounds_congr {left more : Nat} (enough : askLeft done policy (target.hops.map (·.id)) < left)
    (enough' : askLeft done policy (target.hops.map (·.id)) < more) (start : Ready W K done policy run) :
    Call.outcome (rounds W K left target done) run = Call.outcome (rounds W K more target done) run := by
  induction left generalizing more target done policy run with
  | zero => exact absurd enough (Nat.not_lt_zero _)
  | succ left ih =>
    obtain ⟨more, rfl⟩ : ∃ rest, more = rest + 1 := ⟨more - 1, by omega⟩
    refine round_passes.bind_congr start fun round later passed => ?_
    obtain ⟨rfl, _⟩ | ⟨target', done', rfl, sound, ids, less⟩ := passed
    · rfl
    · have same : askLeft done' later.policy (target'.hops.map (·.id)) =
          askLeft done' later.policy (target.hops.map (·.id)) := by rw [ids]
      exact ih (by omega) (by omega) ⟨sound, rfl⟩

end Connector

/-! ## Before the first pass -/

/-- Nothing is connected yet, and everything that was asked for was given. -/
structure Opening (W : World σ) (K : KeyMaterial KeyData Material) (base : List Event) (run : Run σ Material) : Prop where
  sound : Sound W K {} run
  answered : run.auth.cancelled = []
  unconnected : ∀ target, .Connecting target ∉ run.log
  base : base <:+ run.log

theorem Opening.moved {base : List Event} (opening : Opening W K base run) (world : σ) : Opening W K base (run.moved W world) where
  sound := opening.sound.moved world
  answered := by
    rw [moved_auth]
    exact opening.answered
  unconnected target connecting := by
    unfold Run.moved at connecting
    split at connecting
    · exact opening.unconnected target ((List.mem_cons.mp connecting).resolve_left nofun)
    · exact opening.unconnected target connecting
  base := opening.base.trans (moved_suffix world)

theorem Opening.noted {base : List Event} (opening : Opening W K base run) (allowed : Allowed W K run.log event) (plain : event.plain = true)
    (before : ∀ target, event ≠ .Connecting target) : Opening W K base { run with log := event :: run.log } where
  sound := opening.sound.noted allowed plain
  answered := opening.answered
  unconnected target connecting :=
    opening.unconnected target ((List.mem_cons.mp connecting).resolve_left (before target ·.symm))
  base := opening.base.trans (List.suffix_cons _ _)

/-- A passphrase that is given changes nothing about passwords. -/
theorem SoundAuth.asked_passphrase {log : List Event} {auth : BrokerAuth Material} {hop : HopRef}
    {text passphrase : String} {echo : Bool} (sound : SoundAuth W K done log auth) :
    SoundAuth W K done (.Asked hop .Passphrase text echo (.Answer passphrase) :: log) auth where
  opened := sound.opened
  typed id password held := sound.given_more held
  unanswered other kind text' echo' reply asked left := by
    refine sound.unanswered other kind text' echo' reply ((List.mem_cons.mp asked).resolve_left ?_) left
    intro same
    cases same
    cases left
  counted id := sound.counted_other rfl rfl rfl fun cancelled => cancelled

namespace BrokerAuth

section Unlock
variable {base : List Event} {hop : Hop} {key : VaultKey} {keyId text question : String}

theorem askPassphrase_opens {attempts : Nat} :
    Call.Ensures (Opening W K base) (askPassphrase W K hop key text attempts question) (fun _ => Opening W K base)
      fun _ => Unopened W K := by
  induction attempts generalizing question with
  | zero => exact .throw fun _ start => start.sound.ended
  | succ attempts ih =>
    have asks : Call.Ensures (Opening W K base) (askAt W hop.reference .Passphrase question false)
        (fun reply run => Unopened W K run ∧ (reply.unanswered = false → Opening W K base run))
        fun (_ : String) => Unopened W K := by
      refine ensures_act (fun reply run world kept => ⟨kept.1.moved world, fun given => (kept.2 given).moved world⟩)
        fun run reply start => ?_
      have open_ : hop.reference.id ∉ run.auth.cancelled := by
        rw [start.answered]
        exact List.not_mem_nil
      have allowed : Allowed W K run.log (.Asked hop.reference .Passphrase question false reply) :=
        ⟨start.sound.mayAsk open_, fun _ => start.unconnected, nofun, nofun⟩
      refine ⟨?_, fun given => ?_⟩
      · exact
          { allowed := ⟨allowed, start.sound.allowed⟩
            token := by simp [start.sound.token]
            unopened := fun target opened =>
              start.sound.unopened target ((List.mem_cons.mp opened).resolve_left nofun) }
      · cases reply with
        | Answer passphrase =>
          exact
            { sound := start.sound.asked allowed start.sound.auth.asked_passphrase rfl
              answered := start.answered
              unconnected := fun target connecting =>
                start.unconnected target ((List.mem_cons.mp connecting).resolve_left nofun)
              base := start.base.trans (List.suffix_cons _ _) }
        | Cancelled | TimedOut | Gone => cases given
    refine asks.bind fun reply => ?_
    cases reply with
    | Answer passphrase =>
      dsimp only
      split
      · exact .pure fun _ kept => kept.2 rfl
      · exact ih.before fun _ kept => kept.2 rfl
      · exact .throw fun _ kept => kept.1
    | Cancelled | Gone | TimedOut => exact .throw fun _ kept => kept.1

theorem act_opens {answer : σ → α × σ} :
    Call.Ensures (Opening W K base) (W.act answer) (fun _ => Opening W K base) fun (_ : ε) => Unopened W K :=
  ensures_act (fun _ _ world kept => kept.moved world) fun _ _ start => start

theorem remembered_opens :
    Call.Ensures (Opening W K base) (remembered W K keyId text) (fun _ => Opening W K base) fun (_ : ε) => Unopened W K := by
  refine act_opens.bind fun found => ?_
  obtain _ | _ | saved := found
  · exact .pure fun _ start => start
  · exact .pure fun _ start => start
  · dsimp only
    split
    · exact .pure fun _ start => start
    · exact act_opens.bind fun _ => .pure fun _ start => start

theorem openKey_opens :
    Call.Ensures (Opening W K base) (openKey W K hop keyId key text) (fun _ => Opening W K base) fun _ => Unopened W K := by
  rw [openKey]
  split
  · exact .pure fun _ start => start
  · exact .throw fun _ start => start.sound.ended
  · exact .throw fun _ start => start.sound.ended
  · exact .throw fun _ start => start.sound.ended
  · refine remembered_opens.bind fun found => ?_
    cases found with
    | some material => exact .pure fun _ start => start
    | none => exact askPassphrase_opens

variable [DecidableEq KeyData]

/-- A key is kept with the line that its private half belongs to. -/
theorem unlockKey_opens :
    Call.Ensures (Opening W K base) (unlockKey W K hop keyId key text) (fun _ => Opening W K base) fun _ => Unopened W K := by
  rw [unlockKey]
  split
  · exact .throw fun _ start => start.sound.ended
  · rename_i identity reads
    split
    · exact .throw fun _ start => start.sound.ended
    · refine openKey_opens.bind fun material => ?_
      split
      · rename_i same
        refine ensures_change fun run start => ?_
        refine { start with sound := { start.sound with auth := { start.sound.auth with opened := ?_ } } }
        intro id material' line held
        rw [BTreeMap.get?_insert] at held
        split at held
        · cases held
          rw [reads, same]
        · exact start.sound.auth.opened id material' line held
      · exact .throw fun _ start => start.sound.ended

theorem readKey_opens :
    Call.Ensures (Opening W K base) (readKey W K hop keyId) (fun _ => Opening W K base) fun _ => Unopened W K := by
  refine act_opens.bind fun found => ?_
  cases found with
  | none => exact .pure fun _ start => start
  | some key =>
    refine act_opens.bind fun found => ?_
    obtain _ | _ | text := found
    · exact .throw fun _ start => start.sound.ended
    · exact .pure fun _ start => start
    · exact unlockKey_opens

theorem unlockHop_opens :
    Call.Ensures (Opening W K base) (unlockHop W K hop) (fun _ => Opening W K base) fun _ => Unopened W K := by
  rw [unlockHop]
  split
  · refine ensures_read.bind fun opened => ?_
    split
    · exact .pure fun _ start => start.1
    · exact readKey_opens.before fun _ start => start.1
  · exact .pure fun _ start => start
  · exact .pure fun _ start => start

theorem unlock_opens :
    Call.Ensures (Opening W K base) (unlock W K target) (fun _ => Opening W K base) fun _ => Unopened W K := by
  rw [unlock]
  induction target.hops with
  | nil => exact .pure fun _ start => start
  | cons hop rest ih => exact unlockHop_opens.bind fun _ => ih

end Unlock

end BrokerAuth

/-- The pins of the first policy are those of the saved host. -/
theorem PinPolicy.pinned_fromTarget {id : String} {pin : HostKey}
    (held : (PinPolicy.fromTarget target).pinned id = some pin) :
    ∃ hop ∈ target.hops, hop.id = id ∧ hop.pinned = some pin := by
  have taken : ∀ (hops : List Hop) (pins : BTreeMap HostKey),
      (hops.foldl (fun pins hop => hop.pinned.elim pins (pins.insert hop.id)) pins)[id]? = some pin →
        pins[id]? = some pin ∨ ∃ hop ∈ hops, hop.id = id ∧ hop.pinned = some pin := by
    intro hops
    induction hops with
    | nil => exact fun _ => .inl
    | cons hop rest ih =>
      intro pins held
      obtain earlier | ⟨own, member, found⟩ := ih _ held
      · cases pinned : hop.pinned with
        | none =>
          dsimp only at earlier
          rw [pinned] at earlier
          exact .inl earlier
        | some key =>
          dsimp only at earlier
          rw [pinned, Option.elim_some, BTreeMap.get?_insert] at earlier
          split at earlier
          · rename_i same
            cases earlier
            exact .inr ⟨hop, List.mem_cons_self, same, pinned⟩
          · exact .inl earlier
      · exact .inr ⟨own, List.mem_cons_of_mem _ member, found⟩
  obtain empty | found := taken target.hops ∅ held
  · cases empty
  · exact found

namespace Connector

variable {base : List Event}

theorem unlessCancelled_opens :
    Call.Ensures (Opening W K base) unlessCancelled (fun _ => Opening W K base) (Failed W K) := by
  refine ensures_read.bind fun cancelled => ?_
  cases cancelled with
  | true => exact .throw fun run start => ⟨start.1.sound.ended, honest_of_kind nofun⟩
  | false => exact .pure fun run start => start.1

theorem resolve_resolves :
    Call.Ensures (Opening W K base) (resolve W)
      (fun target run => Opening W K base run ∧ .Resolved target ∈ run.log) (Failed W K) := by
  have reads : Call.Ensures (Opening W K base) (W.act W.resolve fun found => (found.toOption.map Event.Resolved).toList)
      (fun found run => Opening W K base run ∧ ∀ target, found = .ok target → .Resolved target ∈ run.log)
      (Failed W K) := by
    refine ensures_act (fun found run world kept => ⟨kept.1.moved world, fun target same => mem_moved (kept.2 target same)⟩)
      fun run found start => ?_
    cases found with
    | error error => exact ⟨start, nofun⟩
    | ok target =>
      refine ⟨start.noted trivial rfl fun _ => nofun, fun other same => ?_⟩
      cases same
      exact List.mem_cons_self
  refine reads.bind fun found => ?_
  cases found with
  | error error => exact .throw fun run start => ⟨start.1.sound.ended, honest_of_kind nofun⟩
  | ok target => exact .pure fun run start => ⟨start.1, start.2 target rfl⟩

/-- The first policy is the one of the resolved target. -/
theorem startPolicy_begins {failed : ε → Run σ Material → Prop} :
    Call.Ensures (fun run => Opening W K base run ∧ .Resolved target ∈ run.log) (startPolicy target)
      (fun _ => Ready W K {} (.fromTarget target)) failed := by
  intro run start
  obtain ⟨opening, resolved⟩ := start
  have pins : ∀ id pin, (PinPolicy.fromTarget target).pinned id = some pin → Trusted run.log id pin :=
    fun id pin held => .inl ⟨target, resolved, PinPolicy.pinned_fromTarget held⟩
  exact
    { sound := { opening.sound with pins, auth := { opening.sound.auth with } }
      policy := rfl }

/-- The connect came to nothing: a session that did open was closed, after its owner had left. -/
structure Ended (W : World σ) (K : KeyMaterial KeyData Material) (failure : ConnectFailure) (run : Run σ Material) : Prop
    extends Over W K run where
  honest : Honest failure
  left : .Left ∈ run.log → failure = .cancelled
  closed : ∀ target, .Opened target ∈ run.log →
    (∃ before, run.log = .Closed :: .Opened target :: before) ∧ .Left ∈ run.log

theorem Ended.of_unopened {failure : ConnectFailure} (unopened : Unopened W K run) (honest : Honest failure)
    (left : .Left ∈ run.log → failure = .cancelled) : Ended W K failure run where
  toOver := unopened.toOver
  honest
  left
  closed target opened := absurd opened (unopened.unopened target)

variable [DecidableEq KeyData]

theorem unlock_opens :
    Call.Ensures (Opening W K base) (unlock W K target) (fun _ => Opening W K base) (Failed W K) := by
  have opens : Call.Ensures (Opening W K base) (BrokerAuth.unlock W K target).attempt
      (fun result run => Unopened W K run ∧ (result = .ok () → Opening W K base run)) (Failed W K) :=
    .attempt (BrokerAuth.unlock_opens.weaken (fun _ start => start) (fun _ _ kept => ⟨kept.sound.ended, fun _ => kept⟩)
      fun _ _ ended => ⟨ended, nofun⟩)
  refine opens.bind fun result => ?_
  cases result with
  | ok done => exact .pure fun run kept => kept.2 rfl
  | error text => exact .throw fun run kept => ⟨kept.1, honest_of_kind nofun⟩

/-- What leads to the loop. -/
theorem opening_leads :
    Call.Ensures (fun run => Opening W K base run ∧ .Resolved target ∈ run.log) (unlock W K target)
      (fun _ run => Opening W K base run ∧ .Resolved target ∈ run.log) (Failed W K) := by
  refine .start fun run start => ?_
  have unlocks : Call.Ensures (Opening W K run.log) (unlock W K target) (fun _ => Opening W K run.log) (Failed W K) :=
    unlock_opens
  refine unlocks.weaken ?_ (fun _ later kept => ?_) fun _ _ failed => failed
  · rintro _ rfl
    exact { start.1 with base := List.suffix_rfl }
  · exact ⟨{ kept with base := start.1.base.trans kept.base }, kept.base.subset start.2⟩

theorem askLeft_roundLimit : askLeft done policy (target.hops.map (·.id)) < roundLimit target := by
  have most : askLeft done policy (target.hops.map (·.id)) ≤ (target.hops.map (·.id)).length * ROUNDS_PER_HOP :=
    askLeft_le
  rw [List.length_map] at most
  exact Nat.lt_succ_of_le most

theorem connectWithin_ends {limit : Target → Nat} (enough : ∀ target, roundLimit target ≤ limit target) :
    Call.Ensures (Opening W K base) (connectWithin W K limit) (Through W K) (Failed W K) :=
  unlessCancelled_opens.bind fun _ => resolve_resolves.bind fun target => opening_leads.bind fun _ =>
    startPolicy_begins.bind fun _ => rounds_ends (Nat.lt_of_lt_of_le askLeft_roundLimit (enough target))

/-- A larger bound on the rounds changes nothing. -/
theorem connectWithin_congr {limit : Target → Nat} (enough : ∀ target, roundLimit target ≤ limit target)
    (start : Opening W K base run) :
    Call.outcome (connectWithin W K limit) run = Call.outcome (connectWithin W K roundLimit) run := by
  have begins : ∀ target, Call.Ensures (fun run => Opening W K base run ∧ .Resolved target ∈ run.log)
      (startPolicy target) (fun _ => Ready W K {} (.fromTarget target)) (Failed W K) :=
    fun target => startPolicy_begins
  refine unlessCancelled_opens.bind_congr start fun _ run start => ?_
  refine resolve_resolves.bind_congr start fun target run start => ?_
  refine opening_leads.bind_congr start fun _ run start => ?_
  refine (begins target).bind_congr start fun _ run start => ?_
  exact rounds_congr (Nat.lt_of_lt_of_le askLeft_roundLimit (enough target)) askLeft_roundLimit start

/-! ## The whole -/

theorem connect_ends :
    Call.Ensures (Opening W K base) (connect W K) (fun target run => Through W K target run ∧ .Left ∉ run.log)
      (Ended W K) := by
  have attempts : Call.Ensures (Opening W K base) (connectWithin W K roundLimit).attempt
      (fun result run => (∀ target, result = .ok target → Through W K target run) ∧
        ∀ failure, result = .error failure → Failed W K failure run) (Ended W K) := by
    refine .attempt ((connectWithin_ends fun _ => Nat.le_refl _).weaken (fun _ start => start)
      (fun target run through => ⟨fun other same => ?_, nofun⟩) fun failure run failed => ⟨nofun, fun other same => ?_⟩)
    · cases same
      exact through
    · cases same
      exact failed
  refine attempts.bind fun result => ensures_read.bind fun cancelled => ?_
  cases cancelled with
  | true =>
    cases result with
    | ok target =>
      intro run start
      show Ended W K .cancelled { run with log := .Closed :: run.log }
      obtain ⟨⟨through, _⟩, gone⟩ := start
      obtain ⟨ended, before, logged, unopened⟩ := through target rfl
      have left : .Left ∈ run.log := ended.token.mp gone.symm
      refine
        { allowed := ⟨trivial, ended.allowed⟩
          token := by simp [ended.token]
          honest := honest_of_kind nofun
          left := fun _ => rfl
          closed := fun other opened => ⟨⟨before, ?_⟩, List.mem_cons_of_mem _ left⟩ }
      -- The close is the last step, and nothing else was opened before it.
      have inside := (List.mem_cons.mp opened).resolve_left nofun
      rw [logged] at inside ⊢
      obtain same | earlier := List.mem_cons.mp inside
      · rw [same]
      · exact absurd earlier (unopened other)
    | error failure =>
      intro run start
      exact Ended.of_unopened (start.1.2 failure rfl).1 (honest_of_kind nofun) fun _ => rfl
  | false =>
    cases result with
    | ok target =>
      intro run start
      obtain ⟨⟨through, _⟩, stays⟩ := start
      refine ⟨through target rfl, fun left => ?_⟩
      rw [← (through target rfl).1.token, ← stays] at left
      cases left
    | error failure =>
      intro run start
      obtain ⟨⟨_, failed⟩, stays⟩ := start
      refine Ended.of_unopened (failed failure rfl).1 (failed failure rfl).2 fun left => ?_
      rw [← (failed failure rfl).1.token, ← stays] at left
      cases left

end Connector

end Sshelter.Session
