import Sshelter.Verified.ConnectLoop

/-! # Passes and whole connects

What the broker does about each error of the engine, one pass, and the loop.  A pass that is not the last
leaves less to ask, so the loop ends by a decision of a pass before it runs out of rounds.
-/

namespace Sshelter.Session

open Ssh

variable {σ KeyData Material ε α : Type} {W : World σ} {K : KeyMaterial KeyData Material} {done : Done}
  {policy : PinPolicy} {base : List Event} {run : Run σ Material} {target : Target} {hop : HopRef}

section Window
variable {question : HostKeyQuestion} {trusted : Option String} {key : HostKey} {pinned : Option HostKey}

/-- A question about a host key that was not asked before, however it is answered. -/
theorem Between.windowed (between : Between W K done policy base run) (may : MayAsk base hop.id)
    (unasked : hop.id ∉ done.askedHostKey) (asks : AsksAbout run.log hop key pinned question) :
    Unopened W K { run with log := .Confirmed hop question trusted :: run.log } where
  allowed := by
    refine ⟨⟨between.open_ _ may, fun other asked answer member same => unasked ?_, key, pinned, asks⟩,
      between.sound.allowed⟩
    exact same ▸ (between.sound.confirmed other asked answer member).1
  token := by simp [between.sound.token]
  unopened target opened := between.sound.unopened target ((List.mem_cons.mp opened).resolve_left nofun)

/-- The entry of a window that trusted the key it showed. -/
theorem Between.confirms (between : Between W K done policy base run)
    (windowed : Unopened W K { run with log := .Confirmed hop question trusted :: run.log })
    (exactly : trusted = some question.fingerprint) :
    Between W K (done.ask hop.id) policy base
      { run with log := .Confirmed hop question trusted :: run.log } where
  sound :=
    { allowed := windowed.allowed
      token := windowed.token
      unopened := windowed.unopened
      pins := fun id pin held => (between.sound.pins id pin held).cons
      confirmed := fun other asked answer member => by
        obtain same | earlier := List.mem_cons.mp member
        · cases same
          exact ⟨List.mem_cons_self, exactly⟩
        · obtain ⟨counted, answered⟩ := between.sound.confirmed other asked answer earlier
          exact ⟨List.mem_cons_of_mem _ counted, answered⟩
      auth := by
        have more : SoundAuth W K done (.Confirmed hop question trusted :: run.log) run.auth :=
          between.sound.auth.more nofun
        exact { more with counted := more.counted } }
  policy := between.policy
  base := between.base.trans (List.suffix_cons _ _)
  open_ id may := (between.open_ id may).cons nofun (by
    rintro _ _ _ ⟨⟩
    exact exactly)

end Window

/-- What the loop has counted covers what the person was asked for, unless the host gave no answer. -/
theorem SoundAuth.typed_covers {log : List Event} {auth : BrokerAuth Material} {id : String}
    (sound : SoundAuth W K done log auth) (open_ : id ∉ auth.cancelled) :
    prompts id log ≤ Connector.passwordsTyped done (auth.passwordSource id) id ∧
      done.passwordsTyped[id]?.getD 0 ≤ Connector.passwordsTyped done (auth.passwordSource id) id := by
  have counted := sound.counted id
  rw [Connector.passwordsTyped]
  cases counting : done.passwordsTyped[id]? with
  | some typed =>
    rw [counting] at counted
    exact ⟨counted.1, Nat.le_refl _⟩
  | none =>
    rw [counting] at counted
    refine ⟨?_, Nat.zero_le _⟩
    obtain ⟨none, _⟩ | ⟨once, ⟨_, gave⟩ | ⟨_, cancelled⟩⟩ := counted
    · rw [none]
      exact Nat.zero_le _
    · rw [BrokerAuth.passwordSource, gave, once]
      exact Nat.le_refl _
    · exact absurd cancelled open_

/-- A password that is typed between two passes takes the place of the one before. -/
theorem SoundAuth.retyped {log : List Event} {auth : BrokerAuth Material} {text password : String} {echo : Bool}
    {typed : Nat} (sound : SoundAuth W K done log auth) (covers : prompts hop.id log ≤ typed)
    (few : typed < PASSWORD_PROMPTS) :
    SoundAuth W K (done.type hop.id (typed + 1)) (.Asked hop .Password text echo (.Answer password) :: log)
      { auth with typed := (auth.typed.erase hop.id).insert hop.id password } where
  opened := sound.opened
  typed id given held := by
    by_cases same : hop.id = id
    · subst same
      rw [BTreeMap.get?_insert_self] at held
      cases held
      exact .inl ⟨hop, text, echo, List.mem_cons_self, rfl⟩
    · rw [BTreeMap.get?_insert_ne _ _ same, BTreeMap.get?_erase_ne _ same] at held
      exact sound.given_more held
  unanswered other kind text' echo' reply asked left := by
    refine sound.unanswered other kind text' echo' reply ((List.mem_cons.mp asked).resolve_left fun same => ?_) left
    cases same
    cases left
  counted id := by
    by_cases same : hop.id = id
    · subst same
      rw [Done.type, BTreeMap.get?_insert_self]
      refine ⟨?_, few, by simp⟩
      rw [prompts_cons]
      simpa [Event.asksPassword] using covers
    · rw [Done.type, BTreeMap.get?_insert_ne _ _ same]
      refine sound.counted_other (by simp [Event.asksPassword, same]) ?_ rfl fun cancelled => cancelled
      rw [BTreeMap.get?_insert_ne _ _ same, BTreeMap.get?_erase_ne _ same]

namespace Connector

/-! ## What the broker does about an error -/

theorem fail_fails {failure : ConnectFailure} {ok : α → Run σ Material → Prop} (honest : Honest failure) :
    Call.Ensures (Between W K done policy base) (fail failure) ok (Failed W K) :=
  .throw fun _ start => start.failed honest

theorem unlessCancelled_keeps :
    Call.Ensures (Between W K done policy base) unlessCancelled
      (fun _ run => Between W K done policy base run ∧ .Left ∉ run.log) (Failed W K) := by
  refine ensures_read.bind fun cancelled => ?_
  cases cancelled with
  | true => exact .throw fun run start => start.1.failed (honest_of_kind nofun)
  | false =>
    refine .pure fun run start => ⟨start.1, fun left => ?_⟩
    rw [← start.1.sound.token, ← start.2] at left
    cases left

theorem unlessCancelled_unopened :
    Call.Ensures (Unopened W K) (unlessCancelled : Call ConnectFailure (Run σ Material) Unit)
      (fun _ => Unopened W K) (Failed W K) := by
  refine ensures_read.bind fun cancelled => ?_
  cases cancelled with
  | true => exact .throw fun _ ended => ⟨ended.1, honest_of_kind nofun⟩
  | false => exact .pure fun _ ended => ended.1

theorem pinnedFor_reads :
    Call.Ensures (Between W K done policy base) (pinnedFor W target hop)
      (fun found run => Between W K done policy base run ∧ ∀ record ∈ found, .Recorded hop record ∈ run.log)
      (Failed W K) := by
  have reads : Call.Ensures (Between W K done policy base)
      (W.act (W.pinnedFor hop) fun found => (found.toOption.join.map (Event.Recorded hop)).toList)
      (fun found run => Between W K done policy base run ∧
        ∀ record, found = .ok (some record) → .Recorded hop record ∈ run.log) (Failed W K) := by
    refine ensures_act (fun found run world kept => ?_) fun run found start => ?_
    · exact ⟨kept.1.moved world, fun record same => mem_moved (kept.2 record same)⟩
    · obtain _ | _ | record := found
      · exact ⟨start, nofun⟩
      · exact ⟨start, nofun⟩
      · refine ⟨start.noted trivial rfl, fun other same => ?_⟩
        cases same
        exact List.mem_cons_self
  refine reads.bind fun found => ?_
  cases found with
  | error error => exact .throw fun run start => start.1.failed (honest_of_kind (by rw [failureAt_kind]; exact nofun))
  | ok found => exact .pure fun run start => ⟨start.1, fun record same => start.2 record (by rw [same])⟩

/-- The question about a changed key shows the key on record. -/
theorem changedSummary_shows {pinned : Option HostKey} :
    Call.Ensures (Between W K done policy base) (changedSummary W target hop pinned)
      (fun changed run => Between W K done policy base run ∧ changed.map (·.fingerprint) = pinned.map (·.fingerprint))
      (Failed W K) := by
  cases pinned with
  | none => exact .pure fun _ start => ⟨start, rfl⟩
  | some pinned =>
    refine Call.Ensures.bind (pinnedFor_reads.bind fun found => ?_) fun summary => .pure fun _ start => start
    split
    · exact .pure fun _ start => ⟨start.1, rfl⟩
    · exact .throw fun _ start => start.1.failed (honest_of_kind (by rw [failureAt_kind]; exact nofun))

/-- A pass that is not the last one. -/
def Again (W : World σ) (K : KeyMaterial KeyData Material) (target : Target) (done : Done) (policy : PinPolicy)
    (round : Round) (run : Run σ Material) : Prop :=
  ∃ target' done', round = .Again target' done' ∧ Sound W K done' run ∧
    target'.hops.map (·.id) = target.hops.map (·.id) ∧
    askLeft done' run.policy (target.hops.map (·.id)) < askLeft done policy (target.hops.map (·.id))

theorem takePin_again {done' : Done} {key : HostKey} {failed : ε → Run σ Material → Prop}
    (less : askLeft done' (policy.pin hop.id key) (target.hops.map (·.id)) < askLeft done policy (target.hops.map (·.id))) :
    Call.Ensures (fun run => Between W K done' policy base run ∧ Trusted run.log hop.id key)
      (takePin target done' hop key) (Again W K target done policy) failed := by
  intro run start
  show Again W K target done policy _ { run with policy := run.policy.pin hop.id key }
  obtain ⟨between, trusted⟩ := start
  refine ⟨_, _, rfl, { between.sound with pins := fun id pin held => ?_ }, map_updateHop fun _ => rfl, ?_⟩
  · have held : (run.policy.pin hop.id key).pinned id = some pin := held
    rw [pinned_pin] at held
    split at held
    · rename_i same
      cases held
      exact same ▸ trusted
    · exact between.sound.pins id pin held
  · rw [between.policy]
    exact less

theorem askWindow_again {key : HostKey} {pinned : Option HostKey} (own : hop.id ∈ target.hops.map (·.id)) :
    Call.Ensures (fun run => Between W K done policy base run ∧ .Checked hop key (verdictOn pinned) ∈ run.log ∧
        MayAsk run.log hop.id)
      (askWindow W target done hop key pinned) (Again W K target done policy) (Failed W K) := by
  rw [askWindow]
  -- A host that was asked about already ends the connect; otherwise the question uses up its only window.
  split
  · exact (fail_fails (honest_of_kind (by rw [failureAt_kind]; exact nofun))).before fun _ start => start.1
  · rename_i unasked
    refine .start fun run start => ?_
    obtain ⟨between, checked, may⟩ := start
    have shows : Call.Ensures (· = run) (changedSummary W target hop pinned)
        (fun changed later => Between W K done policy run.log later ∧
          changed.map (·.fingerprint) = pinned.map (·.fingerprint)) (Failed W K) := by
      refine changedSummary_shows.before ?_
      rintro _ rfl
      exact between.between
    refine shows.bind fun changed => ?_
    by_cases same : changed.map (·.fingerprint) = pinned.map (·.fingerprint)
    · refine (unlessCancelled_keeps.before fun _ kept => kept.1).bind fun _ => ?_
      have notices : Call.Ensures (fun later => Between W K done policy run.log later ∧ .Left ∉ later.log)
          (W.act (W.hostKeyNotice ("Waiting for you to confirm " ++ label hop.aliasName ++ "'s host key in Lunport."))
            fun _ => [.Noticed ("Waiting for you to confirm " ++ label hop.aliasName ++ "'s host key in Lunport.")])
          (fun _ => Between W K done policy run.log) (Failed W K) :=
        ensures_act (fun _ _ _ kept => kept.moved _) fun _ _ kept => kept.1.noted kept.2 rfl
      refine notices.bind fun _ => ?_
      have asks : ∀ later : Run σ Material, Between W K done policy run.log later →
          AsksAbout later.log hop key pinned (hostKeyQuestion hop key changed) :=
        fun later kept => ⟨kept.base.subset checked, changed, rfl, same⟩
      have confirms : Call.Ensures (Between W K done policy run.log)
          (W.act (W.confirm (hostKeyQuestion hop key changed))
            fun trusted => [.Confirmed hop (hostKeyQuestion hop key changed) trusted])
          (fun trusted later => Unopened W K later ∧ (trusted = some key.fingerprint →
            Between W K (done.ask hop.id) policy run.log later ∧
              .Confirmed hop (hostKeyQuestion hop key changed) trusted ∈ later.log)) (Failed W K) := by
        refine ensures_act (fun trusted later world kept => ⟨kept.1.moved world, fun exactly => ?_⟩)
          fun later trusted kept => ?_
        · exact ⟨(kept.2 exactly).1.moved world, mem_moved (kept.2 exactly).2⟩
        · have windowed : Unopened W K
              { later with log := .Confirmed hop (hostKeyQuestion hop key changed) trusted :: later.log } :=
            kept.windowed may unasked (asks later kept)
          exact ⟨windowed, fun exactly => ⟨kept.confirms windowed exactly, List.mem_cons_self⟩⟩
      refine confirms.bind fun trusted => ?_
      -- A window that did not trust the key ends the connect.
      by_cases exactly : trusted = some key.fingerprint
      case neg =>
        refine (unlessCancelled_unopened.before fun _ kept => kept.1).bind fun _ => ?_
        rw [if_neg exactly]
        exact .throw fun _ ended => ⟨ended, honest_failureOf⟩
      rw [if_pos exactly]
      have stays : Call.Ensures (fun later => Between W K (done.ask hop.id) policy run.log later ∧
            .Confirmed hop (hostKeyQuestion hop key changed) trusted ∈ later.log) unlessCancelled
          (fun _ later => (Between W K (done.ask hop.id) policy run.log later ∧
            .Left ∉ later.log) ∧ .Confirmed hop (hostKeyQuestion hop key changed) trusted ∈ later.log) (Failed W K) := by
        refine .start fun later kept => (unlessCancelled_keeps.before ?_).weaken (fun _ same => same)
          (fun _ last lasts => ⟨⟨lasts.1.after kept.1 rfl, lasts.2⟩,
            lasts.1.base.subset kept.2⟩) fun _ _ failed => failed
        rintro _ rfl
        exact kept.1.between
      -- The owner may have gone while the window was open, so the pin is written only after another look.
      refine (stays.before fun _ kept => kept.2 exactly).bind fun _ => ?_
      have pins : Call.Ensures (fun later => (Between W K (done.ask hop.id) policy run.log later ∧
          .Left ∉ later.log) ∧ .Confirmed hop (hostKeyQuestion hop key changed) trusted ∈ later.log)
          (W.act (W.pinConfirmed hop pinned key) fun written => [.Pinned hop pinned key written.toOption.isSome])
          (fun written later => Between W K (done.ask hop.id) policy run.log later ∧
            (written = .ok () → Trusted later.log hop.id key)) (Failed W K) := by
        refine ensures_act (fun written later world kept => ⟨kept.1.moved world, fun done => ?_⟩) fun later written kept => ?_
        · exact (kept.2 done).mono fun _ => mem_moved
        · refine ⟨kept.1.1.noted ⟨kept.1.2, _, ⟨kept.1.1.base.subset checked, changed, rfl, same⟩, exactly ▸ kept.2⟩ rfl, ?_⟩
          rintro rfl
          exact .inr (.inr ⟨hop, pinned, List.mem_cons_self, rfl⟩)
      refine pins.bind fun written => ?_
      cases written with
      | error error =>
        exact (fail_fails (honest_of_kind (by rw [failureAt_kind]; exact nofun))).before fun _ kept => kept.1
      | ok _ => exact (takePin_again (askLeft_asked own unasked)).before fun _ kept => ⟨kept.1, kept.2 rfl⟩
    · exact fun later kept => absurd kept.2 same

theorem confirm_again {key : HostKey} {pinned : Option HostKey} (own : hop.id ∈ target.hops.map (·.id))
    (unpinned : pinned = none → policy.pinned hop.id = none) :
    Call.Ensures (fun run => Between W K done policy base run ∧ .Checked hop key (verdictOn pinned) ∈ run.log ∧
        MayAsk run.log hop.id)
      (confirm W target done hop key pinned) (Again W K target done policy) (Failed W K) := by
  cases pinned with
  | some pinned => exact askWindow_again own
  | none =>
    refine .start fun run start => ?_
    have reads : Call.Ensures (· = run) (pinnedFor W target hop)
        (fun found later => Between W K done policy run.log later ∧ ∀ record ∈ found, .Recorded hop record ∈ later.log)
        (Failed W K) := by
      refine pinnedFor_reads.before ?_
      rintro _ rfl
      exact start.1.between
    refine reads.bind fun found => ?_
    -- A pin of another connection uses up the one place the policy had open for the host.
    cases found with
    | some record =>
      refine (takePin_again (askLeft_takePin own (unpinned rfl))).before fun later kept => ⟨kept.1, ?_⟩
      exact .inr (.inl ⟨hop, record, kept.2 record rfl, rfl, rfl⟩)
    | none =>
      exact (askWindow_again own).before fun later kept =>
        ⟨kept.1, kept.1.base.subset start.2.1, kept.1.open_ _ start.2.2⟩

/-- A password may be asked for between two passes. -/
def Retyping (W : World σ) (K : KeyMaterial KeyData Material) (done : Done) (policy : PinPolicy) (base : List Event)
    (id : String) (typed : Nat) (run : Run σ Material) : Prop :=
  Between W K done policy base run ∧ id ∉ run.auth.cancelled ∧ prompts id run.log ≤ typed

theorem retype_again {typed : Nat} {refused : Bool} (own : hop.id ∈ target.hops.map (·.id))
    (counted : done.passwordsTyped[hop.id]?.getD 0 ≤ typed) (few : typed < PASSWORD_PROMPTS) :
    Call.Ensures (Retyping W K done policy base hop.id typed) (retype W target done hop typed refused)
      (Again W K target done policy) (Failed W K) := by
  -- Between forgetting the old password and typing the new one the count of the host is off by one, so
  -- what holds then is said of the state before.
  have forgets : Call.Ensures (Retyping W K done policy base hop.id typed) (BrokerAuth.forgetTyped hop.id)
      (fun _ run => ∃ before, Retyping W K done policy base hop.id typed before ∧
        run = { before with auth := { before.auth with typed := before.auth.typed.erase hop.id } }) (Failed W K) :=
    fun run start => ⟨run, start, rfl⟩
  have asks : Call.Ensures (fun run => ∃ before, Retyping W K done policy base hop.id typed before ∧
        run = { before with auth := { before.auth with typed := before.auth.typed.erase hop.id } })
      (askAt W hop .Password (retryQuestion hop refused) false)
      (fun reply run => Unopened W K run ∧ ∀ password, reply = .Answer password →
        Between W K (done.type hop.id (typed + 1)) policy base
          { run with auth := { run.auth with typed := run.auth.typed.insert hop.id password } }) (Failed W K) := by
    refine ensures_act (fun reply run world kept => ⟨kept.1.moved world, fun password same => ?_⟩) fun run reply start => ?_
    · rw [moved_auth, moved_with_auth]
      exact (kept.2 password same).moved world
    · obtain ⟨before, ⟨between, open_, covers⟩, rfl⟩ := start
      have allowed : Allowed W K before.log (.Asked hop .Password (retryQuestion hop refused) false reply) :=
        ⟨between.sound.mayAsk open_, nofun, fun _ => Nat.lt_of_le_of_lt covers few, nofun⟩
      refine ⟨{ allowed := ⟨allowed, between.sound.allowed⟩, token := by simp [between.sound.token], unopened := ?_ }, ?_⟩
      · exact fun target opened => between.sound.unopened target ((List.mem_cons.mp opened).resolve_left nofun)
      · rintro password rfl
        exact
          { sound := between.sound.asked allowed (between.sound.auth.retyped covers few) rfl
            policy := between.policy
            base := between.base.trans (List.suffix_cons _ _)
            -- the question that was just answered keeps nobody from being asked
            open_ := fun id may => (between.open_ id may).cons (by rintro _ _ _ _ _ ⟨⟩; rfl) nofun }
  refine forgets.bind fun _ => asks.bind fun reply => ?_
  cases reply with
  | Answer password =>
    intro run start
    show Again W K target done policy _ { run with auth := { run.auth with typed := run.auth.typed.insert hop.id password } }
    obtain ⟨_, between⟩ := start
    refine ⟨_, _, rfl, (between password rfl).sound, map_updateHop fun hop => ?_, ?_⟩
    · rw [passwordFirst]
      split <;> rfl
    · rw [(between password rfl).policy]
      exact askLeft_retype own counted few
  | Cancelled | TimedOut => exact .throw fun _ start => ⟨start.1, honest_failureOf⟩
  | Gone => exact .throw fun _ start => ⟨start.1, honest_of_kind nofun⟩

theorem passwordFailed_again {tried : List AuthMethod} {reason : String} {wanted : Bool} :
    Call.Ensures (fun run => Between W K done policy base run ∧ hop.id ∉ run.auth.cancelled)
      (passwordFailed W target done hop tried reason wanted) (Again W K target done policy) (Failed W K) := by
  refine ensures_read.bind fun source => ?_
  dsimp only
  split
  · exact (fail_fails honest_failureOf).before fun _ start => start.1.1
  · rename_i asks
    simp only [Bool.or_eq_true, not_or, decide_eq_true_eq, Bool.not_eq_true', Bool.not_eq_false] at asks
    obtain ⟨⟨_, few⟩, known⟩ := asks
    have own : hop.id ∈ target.hops.map (·.id) := by
      obtain ⟨own, member, same⟩ := List.any_eq_true.mp known
      exact List.mem_map.mpr ⟨own, member, of_decide_eq_true same⟩
    refine .start fun run start => ?_
    obtain ⟨⟨between, open_⟩, rfl⟩ := start
    obtain ⟨covers, counted⟩ := between.sound.auth.typed_covers open_
    have retyping : Retyping W K done policy base hop.id (passwordsTyped done (run.auth.passwordSource hop.id) hop.id) run :=
      ⟨between, open_, covers⟩
    rintro _ rfl
    exact retype_again own counted (Nat.lt_of_not_le few) _ retyping

/-- The engine has stopped with an error. -/
structure Answering (W : World σ) (K : KeyMaterial KeyData Material) (target : Target) (done : Done) (policy : PinPolicy)
    (error : ConnectError) (base : List Event) (run : Run σ Material) : Prop where
  between : Between W K done policy base run
  unknown : ∀ hop key, error = .HostKeyUnknown hop key → hop.id ∈ target.hops.map (·.id) ∧
    policy.pinned hop.id = none ∧ .Checked hop key .Unknown ∈ run.log
  mismatch : ∀ hop key pinned, error = .HostKeyMismatch hop key pinned → hop.id ∈ target.hops.map (·.id) ∧
    .Checked hop key (.Mismatch pinned) ∈ run.log
  noCommon : ∀ hop ours theirs, error = .NoCommonHostKeyAlgorithm hop ours theirs → hop.id ∈ target.hops.map (·.id)

/-- A host that no question was left open for may be asked. -/
theorem Answering.mayAsk {error : ConnectError} (answering : Answering W K target done policy error base run)
    (at_ : hopOf error = some hop) (answered : ¬ ((hopOf error).any fun hop => run.auth.isCancelled hop.id) = true) :
    MayAsk run.log hop.id := by
  refine answering.between.sound.mayAsk ?_
  rw [at_] at answered
  simpa [BrokerAuth.isCancelled] using answered

theorem answer_again {error : ConnectError} :
    Call.Ensures (Answering W K target done policy error base) (answer W target done error)
      (Again W K target done policy) (Failed W K) := by
  refine ensures_read.bind fun unanswered => ?_
  cases error with
  | HostKeyUnknown hop key =>
    -- a hop whose password was given up ends the connect before any window
    dsimp only
    split
    · exact (fail_fails honest_failureOf).before fun _ start => start.1.between
    · rename_i answered
      refine .start fun run start => ?_
      obtain ⟨own, unpinned, checked⟩ := start.1.unknown hop key rfl
      have again : Call.Ensures (fun run => Between W K done policy base run ∧
            .Checked hop key (verdictOn none) ∈ run.log ∧ MayAsk run.log hop.id)
          (confirm W target done hop key none) (Again W K target done policy) (Failed W K) :=
        confirm_again own fun _ => unpinned
      refine again.before ?_
      rintro _ rfl
      exact ⟨start.1.between, checked, start.1.mayAsk (show hopOf _ = some hop from rfl) (start.2 ▸ answered)⟩
  | HostKeyMismatch hop key pinned =>
    dsimp only
    split
    · exact (fail_fails honest_failureOf).before fun _ start => start.1.between
    · rename_i answered
      refine .start fun run start => ?_
      obtain ⟨own, checked⟩ := start.1.mismatch hop key pinned rfl
      have again : Call.Ensures
          (fun run => Between W K done policy base run ∧ .Checked hop key (verdictOn (some pinned)) ∈ run.log ∧
            MayAsk run.log hop.id)
          (confirm W target done hop key (some pinned)) (Again W K target done policy) (Failed W K) :=
        confirm_again own nofun
      refine again.before ?_
      rintro _ rfl
      exact ⟨start.1.between, checked, start.1.mayAsk (show hopOf _ = some hop from rfl) (start.2 ▸ answered)⟩
  | NoCommonHostKeyAlgorithm hop ours theirs =>
    dsimp only
    split
    · exact (fail_fails honest_failureOf).before fun _ start => start.1.between
    · refine ensures_read.bind fun pinned => ?_
      split
      · -- without the pinned key type, once for each host
        rename_i once
        refine .pure fun run start => ?_
        obtain ⟨⟨answering, _⟩, _⟩ := start
        have fresh : hop.id ∉ done.unrestricted := by simpa using (Bool.and_eq_true_iff.mp once).2
        refine ⟨_, _, rfl, { answering.between.sound with auth := { answering.between.sound.auth with } },
          map_updateHop fun _ => rfl, ?_⟩
        rw [answering.between.policy]
        exact askLeft_unrestrict (answering.noCommon hop ours theirs rfl) fresh
      · exact (fail_fails honest_failureOf).before fun _ start => start.1.1.between
  | AuthFailed hop tried reason wanted =>
    dsimp only
    split
    · exact (fail_fails honest_failureOf).before fun _ start => start.1.between
    · rename_i answered
      refine passwordFailed_again.before fun run start => ⟨start.1.between, ?_⟩
      have open_ : unanswered = false := Bool.eq_false_iff.mpr answered
      rw [start.2] at open_
      simpa [hopOf, BrokerAuth.isCancelled] using open_
  | BadJumpChain why | Unreachable hop reason | Timeout hop phase | AuthAbandoned hop reason | Protocol hop text =>
    exact (fail_fails honest_failureOf).before fun _ start => start.1.between

/-! ## One pass -/

theorem Stops.answering {pass : Pass Material} {error : ConnectError} (stops : Stops pass run.log error)
    (between : Between W K pass.done pass.policy base run) :
    Answering W K pass.target pass.done pass.policy error base run := by
  have own : ∀ hop, pass.hops hop → hop.id ∈ pass.target.hops.map (·.id) := by
    rintro _ ⟨own, member, rfl⟩
    exact List.mem_map_of_mem member
  refine { between, unknown := ?_, mismatch := ?_, noCommon := ?_ }
  · rintro hop key rfl
    exact ⟨own hop stops.1, stops.2⟩
  · rintro hop key pinned rfl
    exact ⟨own hop stops.1, stops.2.2⟩
  · rintro hop ours theirs rfl
    exact own hop stops

/-- The connect got through: its last step opened the session. -/
def Through (W : World σ) (K : KeyMaterial KeyData Material) (target : Target) (run : Run σ Material) : Prop :=
  Over W K run ∧ ∃ before, run.log = .Opened target :: before ∧ ∀ other, .Opened other ∉ before

/-- What a pass comes to. -/
def Passed (W : World σ) (K : KeyMaterial KeyData Material) (target : Target) (done : Done) (policy : PinPolicy)
    (round : Round) (run : Run σ Material) : Prop :=
  (round = .Opened ∧ Through W K target run) ∨ Again W K target done policy round run

theorem round_passes :
    Call.Ensures (Ready W K done policy) (round W K target done) (Passed W K target done policy) (Failed W K) := by
  have goes : Call.Ensures (Ready W K done policy) unlessCancelled
      (fun _ run => Ready W K done policy run ∧ .Left ∉ run.log) (Failed W K) := by
    refine .start fun run ready => ?_
    have keeps : Call.Ensures (Between W K done policy run.log) unlessCancelled
        (fun _ run' => Between W K done policy run.log run' ∧ .Left ∉ run'.log) (Failed W K) := unlessCancelled_keeps
    refine keeps.weaken ?_ (fun _ _ kept => ⟨kept.1.toReady, kept.2⟩) fun _ _ failed => failed
    rintro _ rfl
    exact ready.between
  -- the pass begins here: what is added to the log from now on is its own
  refine goes.bind fun _ => .start fun run start => ?_
  let pass : Pass Material := { done, target, old := run.log, policy := run.policy, opened := run.auth.opened }
  have prepares : Call.Ensures (· = run) (BrokerAuth.prepare target)
      (fun _ later => Sound W K done later ∧ later.log = run.log ∧ later.policy = run.policy ∧
        later.auth.opened = run.auth.opened) (Failed W K) := by
    rintro _ rfl
    exact ⟨{ start.1.sound with auth := { start.1.sound.auth with } }, rfl, rfl, rfl⟩
  have begins : Call.Ensures (fun later : Run σ Material => Sound W K done later ∧ later.log = run.log ∧
      later.policy = run.policy ∧ later.auth.opened = run.auth.opened) (tell (.Connecting target))
      (fun _ => Inside W K pass none run.log) (Failed W K) := by
    intro later kept
    obtain ⟨sound, logged, policy, opened⟩ := kept
    exact
      { sound := sound.noted (logged ▸ start.2) rfl
        since := ⟨[], congrArg (Event.Connecting target :: ·) logged, nofun⟩
        policy, opened, place := nofun, base := logged ▸ List.suffix_cons _ _ }
  have connects : Call.Ensures (Inside W K pass none run.log) (RusshEngine.connect W K target).attempt
      (fun result later => Inside W K pass none run.log later ∧
        (result = .ok () → ∀ hop ∈ target.hops, RusshEngine.Shown pass later.log hop) ∧
        ∀ error, result = .error error → Stops pass later.log error) (Failed W K) := by
    refine .attempt (RusshEngine.connect_shows.weaken (fun _ kept => kept) (fun _ later kept => ⟨kept.1, fun _ => kept.2, nofun⟩)
      fun error later kept => ⟨kept.1, nofun, fun other same => ?_⟩)
    cases same
    exact kept.2
  refine prepares.bind fun _ => begins.bind fun _ => connects.bind fun result => ?_
  cases result with
  | ok done =>
    intro later kept
    show Passed W K target _ policy .Opened { later with log := .Opened target :: later.log }
    obtain ⟨inside, shown, _⟩ := kept
    refine .inl ⟨rfl, { allowed := ⟨?_, inside.sound.allowed⟩, token := by simp [inside.sound.token] }, _, rfl, inside.sound.unopened⟩
    obtain ⟨news, since, apart⟩ := inside.since
    refine ⟨news, run.log, since, apart, fun hop member => ?_⟩
    obtain ⟨key, news', since', member⟩ := shown rfl hop member
    obtain rfl := List.append_cancel_right (since.symm.trans since')
    exact ⟨key, member⟩
  | error error =>
    refine .start fun later kept => ?_
    obtain ⟨inside, _, stops⟩ := kept
    have between : Between W K pass.done pass.policy later.log later := Ready.between ⟨inside.sound, inside.policy⟩
    have same : run.policy = policy := start.1.policy
    have again : Call.Ensures (Answering W K target done policy error later.log) (answer W target done error)
        (Again W K target done policy) (Failed W K) := answer_again
    refine (again.before ?_).weaken (fun _ same => same) (fun _ _ => .inr) fun _ _ failed => failed
    rintro _ rfl
    exact same ▸ Stops.answering (stops error rfl) between

end Connector

end Sshelter.Session
