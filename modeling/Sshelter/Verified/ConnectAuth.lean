import Sshelter.Verified.ConnectLog

/-! # The auth source inside a pass

What the questions and answers of the auth source keep while the engine connects.  `Inside` is a pass that
is under way: what was logged since it began, the policy it began with, and the newest connection.
-/

namespace Sshelter.Session

open Ssh

variable {σ KeyData Material ε α : Type} {W : World σ} {K : KeyMaterial KeyData Material} {done : Done}
  {hop : HopRef}

/-! ## Questions -/

/-- What the auth source keeps of a question about a password. -/
def BrokerAuth.settled (auth : BrokerAuth Material) (id : String) : Reply → BrokerAuth Material
  | .Answer password => { auth with typed := auth.typed.insert id password, gave := auth.gave.insert id .Typed }
  | .Cancelled | .TimedOut | .Gone => { auth with cancelled := id :: auth.cancelled }

theorem BrokerAuth.settled_unanswered {auth : BrokerAuth Material} {id : String} {reply : Reply}
    (unanswered : reply.unanswered = true) : auth.settled id reply = { auth with cancelled := id :: auth.cancelled } := by
  cases reply <;> first | rfl | cases unanswered

theorem BrokerAuth.settled_opened {auth : BrokerAuth Material} {id : String} (reply : Reply) :
    (auth.settled id reply).opened = auth.opened := by
  cases reply <;> rfl

section Asked
variable {log : List Event} {auth : BrokerAuth Material} (sound : SoundAuth W K done log auth)
include sound

theorem SoundAuth.given_more {event : Event} {id password : String} (held : auth.typed[id]? = some password) :
    Given W (event :: log) id password := (sound.typed id password held).mono fun _ => List.mem_cons_of_mem _

/-- Before a password is typed for a host, its only question can be one that was left unanswered. -/
theorem SoundAuth.unasked {id : String} (untyped : auth.typed[id]? = none) (open_ : id ∉ auth.cancelled) :
    done.passwordsTyped[id]? = none ∧ prompts id log = 0 := by
  have counted := sound.counted id
  cases counting : done.passwordsTyped[id]? with
  | some typed =>
    rw [counting, Counted, untyped] at counted
    exact absurd counted.2.2 Bool.false_ne_true
  | none =>
    rw [counting] at counted
    obtain ⟨none, _⟩ | ⟨_, ⟨typed, _⟩ | ⟨_, cancelled⟩⟩ := counted
    · exact ⟨rfl, none⟩
    · rw [untyped] at typed
      exact absurd typed Bool.false_ne_true
    · exact absurd cancelled open_

/-- A question of another host or kind leaves the count of a host alone. -/
theorem SoundAuth.counted_other {event : Event} {auth' : BrokerAuth Material} {id : String}
    (quiet : event.asksPassword id = false) (typed : auth'.typed[id]? = auth.typed[id]?)
    (gave : auth'.gave[id]? = auth.gave[id]?) (cancelled : id ∈ auth.cancelled → id ∈ auth'.cancelled) :
    Counted (event :: log) auth' id done.passwordsTyped[id]? := by
  have counted := sound.counted id
  have same : prompts id (event :: log) = prompts id log := by simp [quiet]
  cases counting : done.passwordsTyped[id]? with
  | some count =>
    rw [counting] at counted
    exact ⟨same ▸ counted.1, counted.2.1, typed ▸ counted.2.2⟩
  | none =>
    rw [counting] at counted
    simp only [Counted, same, typed, gave]
    obtain untouched | ⟨once, answered | ⟨untyped, left⟩⟩ := counted
    · exact .inl untouched
    · exact .inr ⟨once, .inl answered⟩
    · exact .inr ⟨once, .inr ⟨untyped, cancelled left⟩⟩

theorem SoundAuth.unanswered_more {kind : QuestionKind} {text : String} {echo : Bool} {reply : Reply}
    (kinds : kind ≠ .Passphrase) :
    ∀ other kind' text' echo' reply', .Asked other kind' text' echo' reply' ∈ Event.Asked hop kind text echo reply :: log →
      reply'.unanswered = true → kind' ≠ .Passphrase ∧ other.id ∈ (auth.settled hop.id reply).cancelled := by
  intro other kind' text' echo' reply' asked unanswered
  obtain same | earlier := List.mem_cons.mp asked
  · cases same
    rw [BrokerAuth.settled_unanswered unanswered]
    exact ⟨kinds, List.mem_cons_self⟩
  · obtain ⟨kind, cancelled⟩ := sound.unanswered other kind' text' echo' reply' earlier unanswered
    refine ⟨kind, ?_⟩
    cases reply <;> first | exact cancelled | exact List.mem_cons_of_mem _ cancelled

/-- The auth source asks for a password at most once for a host. -/
theorem SoundAuth.asked_password {text : String} {echo : Bool} {reply : Reply} (untyped : auth.typed[hop.id]? = none)
    (open_ : hop.id ∉ auth.cancelled) :
    SoundAuth W K done (.Asked hop .Password text echo reply :: log) (auth.settled hop.id reply) where
  opened keyId material line held := sound.opened keyId material line (by cases reply <;> exact held)
  typed id password held := by
    by_cases unanswered : reply.unanswered = true
    · rw [BrokerAuth.settled_unanswered unanswered] at held
      exact sound.given_more held
    · cases reply with
      | Answer given =>
        simp only [BrokerAuth.settled, BTreeMap.get?_insert] at held
        split at held
        · rename_i same
          cases held
          exact .inl ⟨hop, text, echo, List.mem_cons_self, same⟩
        · exact sound.given_more held
      | Cancelled | TimedOut | Gone => exact absurd rfl unanswered
  unanswered := sound.unanswered_more nofun
  counted id := by
    by_cases same : hop.id = id
    · subst same
      obtain ⟨uncounted, none⟩ := sound.unasked untyped open_
      rw [uncounted]
      refine .inr ⟨by simp [none, Event.asksPassword], ?_⟩
      cases reply with
      | Answer given => exact .inl ⟨by simp [BrokerAuth.settled], by simp [BrokerAuth.settled]⟩
      | Cancelled | TimedOut | Gone => exact .inr ⟨untyped, List.mem_cons_self⟩
    · apply sound.counted_other (by simp [Event.asksPassword, same])
      · cases reply <;> simp [BrokerAuth.settled, BTreeMap.get?_insert, same]
      · cases reply <;> simp [BrokerAuth.settled, BTreeMap.get?_insert, same]
      · cases reply <;> simp +contextual [BrokerAuth.settled]

/-- A prompt of the server leaves a mark only when it is not answered. -/
theorem SoundAuth.asked_prompt {text : String} {echo : Bool} {reply : Reply} :
    SoundAuth W K done (.Asked hop .Interactive text echo reply :: log)
      (if reply.unanswered then auth.settled hop.id reply else auth) where
  opened keyId material line held := sound.opened keyId material line (by cases reply <;> exact held)
  typed id password held := sound.given_more (by cases reply <;> exact held)
  unanswered other kind' text' echo' reply' asked left := by
    have kinds : QuestionKind.Interactive ≠ .Passphrase := nofun
    obtain ⟨kind, cancelled⟩ := sound.unanswered_more kinds other kind' text' echo' reply' asked left
    refine ⟨kind, ?_⟩
    cases reply <;> exact cancelled
  counted id := by
    apply sound.counted_other rfl
    · cases reply <;> rfl
    · cases reply <;> rfl
    · cases reply <;> simp +contextual [Reply.unanswered, BrokerAuth.settled]

/-- Giving a password leaves a mark of its source. -/
theorem SoundAuth.gives {id : String} {source : PasswordSource}
    (fits : auth.typed[id]? = none ∨ source = .Typed ∧ auth.typed[id]?.isSome = true) :
    SoundAuth W K done log { auth with gave := auth.gave.insert id source } where
  opened := sound.opened
  typed := sound.typed
  unanswered := sound.unanswered
  counted other := by
    have counted := sound.counted other
    cases counting : done.passwordsTyped[other]? with
    | some count =>
      rw [counting] at counted
      exact counted
    | none =>
      rw [counting] at counted
      obtain untouched | ⟨once, ⟨typed, gave⟩ | left⟩ := counted
      · exact .inl untouched
      · refine .inr ⟨once, .inl ⟨typed, ?_⟩⟩
        by_cases same : id = other
        · subst same
          obtain untyped | ⟨rfl, _⟩ := fits
          · rw [untyped] at typed
            cases typed
          · exact BTreeMap.get?_insert_self _ _ _
        · rw [BTreeMap.get?_insert_ne _ _ same]
          exact gave
      · exact .inr ⟨once, .inr left⟩

end Asked

theorem Sound.mayAsk {run : Run σ Material} (sound : Sound W K done run) (open_ : hop.id ∉ run.auth.cancelled) :
    MayAsk run.log hop.id where
  answered other kind text echo reply asked unanswered := by
    obtain ⟨kind, cancelled⟩ := sound.auth.unanswered other kind text echo reply asked unanswered
    exact ⟨kind, fun same => open_ (same ▸ cancelled)⟩
  trusted other question trusted confirmed := (sound.confirmed other question trusted confirmed).2

theorem Sound.asked {run : Run σ Material} {kind : QuestionKind} {text : String} {echo : Bool} {reply : Reply}
    {auth : BrokerAuth Material} {done' : Done} (sound : Sound W K done run)
    (allowed : Allowed W K run.log (.Asked hop kind text echo reply))
    (kept : SoundAuth W K done' (.Asked hop kind text echo reply :: run.log) auth)
    (same : done'.askedHostKey = done.askedHostKey) :
    Sound W K done' { run with log := .Asked hop kind text echo reply :: run.log, auth } where
  allowed := ⟨allowed, sound.allowed⟩
  token := by simp [sound.token]
  unopened target opened := sound.unopened target ((List.mem_cons.mp opened).resolve_left nofun)
  pins id pin held := (sound.pins id pin held).cons
  confirmed hop question trusted asked :=
    same ▸ sound.confirmed hop question trusted ((List.mem_cons.mp asked).resolve_left nofun)
  auth := kept

/-! ## A pass -/

/-- A pass of the loop: what was done before it, the target, and the log, the policy and the keys it began
with. -/
structure Pass (Material : Type) where
  done : Done
  target : Target
  old : List Event
  policy : PinPolicy
  opened : BTreeMap (Material × String)

/-- The pass is under way.  The newest connection is `place`, if that is given, and `base` was the log at some
time before. -/
structure Inside (W : World σ) (K : KeyMaterial KeyData Material) (pass : Pass Material) (place : Option (HopRef × Bool))
    (base : List Event) (run : Run σ Material) : Prop where
  sound : Sound W K pass.done run
  since : ∃ news, run.log = news ++ .Connecting pass.target :: pass.old ∧ ∀ target, .Connecting target ∉ news
  policy : run.policy = pass.policy
  opened : run.auth.opened = pass.opened
  place : ∀ here ∈ place, connection run.log = some here
  base : base <:+ run.log

/-- An entry that neither begins a pass nor opens or judges a connection. -/
def Event.within : Event → Bool
  | .Connecting _ | .Dialing _ | .Checked _ _ _ => false
  | _ => true

theorem Event.within_connection {event : Event} (within : event.within = true) : event.connection = none := by
  cases event <;> first | rfl | cases within

section Inside
variable {pass : Pass Material} {place : Option (HopRef × Bool)} {base : List Event} {run : Run σ Material} {event : Event}

/-- What an entry adds, whoever added it. -/
theorem Inside.add {run' : Run σ Material} (inside : Inside W K pass place base run) (within : event.within = true)
    (sound : Sound W K pass.done run') (logged : run'.log = event :: run.log) (policy : run'.policy = run.policy)
    (opened : run'.auth.opened = run.auth.opened) : Inside W K pass place base run' := by
  obtain ⟨news, since, apart⟩ := inside.since
  refine
    { sound
      since := ⟨event :: news, by rw [logged, since, List.cons_append], ?_⟩
      policy := policy.trans inside.policy
      opened := opened.trans inside.opened
      place := fun here given => by
        rw [logged, connection_cons, Event.within_connection within, Option.none_or]
        exact inside.place here given
      base := logged ▸ inside.base.trans (List.suffix_cons _ _) }
  intro target member
  obtain rfl | earlier := List.mem_cons.mp member
  · cases within
  · exact apart target earlier

theorem Inside.noted (inside : Inside W K pass place base run) (within : event.within = true)
    (allowed : Allowed W K run.log event) (plain : event.plain = true) :
    Inside W K pass place base { run with log := event :: run.log } :=
  inside.add within (inside.sound.noted allowed plain) rfl rfl rfl

theorem Inside.arrived (inside : Inside W K pass place base run) (hop : HopRef) (texts : List String) :
    Inside W K pass place base { run with log := (texts.map (Event.Arrived hop)).reverse ++ run.log } := by
  induction texts using List.reverseRecOn with
  | nil => exact inside
  | append_singleton texts text ih =>
    rw [List.map_append, List.reverse_append]
    exact ih.noted rfl trivial rfl

theorem Inside.moved (inside : Inside W K pass place base run) (world : σ) :
    Inside W K pass place base (run.moved W world) := by
  have sound := inside.sound.moved world
  unfold Run.moved at sound ⊢
  split at sound
  · rename_i left
    rw [if_pos left]
    have within : Event.Left.within = true := rfl
    exact inside.add within sound rfl rfl rfl
  · rename_i stays
    rw [if_neg stays]
    exact { inside with sound }

/-- A change of the auth source. -/
theorem Inside.changed {auth : BrokerAuth Material} (inside : Inside W K pass place base run)
    (sound : SoundAuth W K pass.done run.log auth) (opened : auth.opened = run.auth.opened) :
    Inside W K pass place base { run with auth } :=
  { inside with sound := { inside.sound with auth := sound }, opened := opened.trans inside.opened }

theorem Inside.anywhere (inside : Inside W K pass place base run) : Inside W K pass none base run :=
  { inside with place := nofun }

/-- The log as it is now is a log before everything that follows. -/
theorem Inside.now (inside : Inside W K pass place base run) : Inside W K pass place run.log run :=
  { inside with base := List.suffix_rfl }

theorem Inside.earlier {base' : List Event} (inside : Inside W K pass place base run) (before : base' <:+ base) :
    Inside W K pass place base' run :=
  { inside with base := before.trans inside.base }

end Inside

/-! ## Steps of a pass -/

theorem moved_auth {run : Run σ Material} {world : σ} : (run.moved W world).auth = run.auth := by
  unfold Run.moved
  split <;> rfl

theorem moved_suffix {run : Run σ Material} (world : σ) : run.log <:+ (run.moved W world).log := by
  unfold Run.moved
  split
  · exact List.suffix_cons _ _
  · exact List.suffix_rfl

theorem mem_moved {run : Run σ Material} {world : σ} {event : Event} (member : event ∈ run.log) :
    event ∈ (run.moved W world).log := (moved_suffix world).subset member

theorem moved_with_auth {run : Run σ Material} {world : σ} {auth : BrokerAuth Material} :
    { run.moved W world with auth } = { run with auth }.moved W world := by
  unfold Run.moved
  dsimp only
  split <;> rfl

section Steps
variable {answer : σ → α × σ} {note : α → List Event} {pre : Run σ Material → Prop}
  {ok : α → Run σ Material → Prop} {failed : ε → Run σ Material → Prop}

/-- The world answers, its answer is noted, and then its owner may be gone. -/
theorem ensures_answer (moved : ∀ a run world, ok a run → ok a (run.moved W world))
    (noted : ∀ run, pre run →
      ok (answer run.world).1 { run with log := note (answer run.world).1 ++ run.log }) :
    Call.Ensures pre (W.act answer note) ok failed :=
  fun run start => moved _ _ _ (noted run start)

/-- Whatever the world answers. -/
theorem ensures_act (moved : ∀ a run world, ok a run → ok a (run.moved W world))
    (noted : ∀ run a, pre run → ok a { run with log := note a ++ run.log }) :
    Call.Ensures pre (W.act answer note) ok failed :=
  ensures_answer moved fun run start => noted run _ start

theorem ensures_read {view : Run σ Material → α} :
    Call.Ensures pre (read view) (fun a run => pre run ∧ a = view run) failed :=
  fun _ start => ⟨start, rfl⟩

theorem ensures_change {change : BrokerAuth Material → BrokerAuth Material} {ok : Unit → Run σ Material → Prop}
    (changed : ∀ run, pre run → ok () { run with auth := change run.auth }) :
    Call.Ensures pre (BrokerAuth.change change) ok failed := changed

theorem ensures_tell {event : Event} {ok : Unit → Run σ Material → Prop}
    (told : ∀ run, pre run → ok () { run with log := event :: run.log }) :
    Call.Ensures pre (tell event) ok failed := told

end Steps

section Pass
variable {pass : Pass Material} {place : Option (HopRef × Bool)} {base : List Event} {failed : ε → Run σ Material → Prop}

theorem act_keeps {answer : σ → α × σ} :
    Call.Ensures (Inside W K pass place base) (W.act answer) (fun _ => Inside W K pass place base) failed :=
  ensures_act (fun _ _ _ kept => kept.moved _) fun _ _ start => start

namespace BrokerAuth

theorem banner_keeps {text : String} :
    Call.Ensures (Inside W K pass place base) (banner W text) (fun _ => Inside W K pass place base) failed :=
  ensures_act (fun _ _ _ kept => kept.moved _) fun _ _ start => start.noted rfl trivial rfl

/-- What was given for a password came from the person or from the keychain. -/
def Gives (W : World σ) (K : KeyMaterial KeyData Material) (pass : Pass Material) (place : Option (HopRef × Bool))
    (base : List Event) (id : String) (given : Option String) (run : Run σ Material) : Prop :=
  Inside W K pass place base run ∧ ∀ password ∈ given, Given W run.log id password

theorem askPassword_gives :
    Call.Ensures (fun run => Inside W K pass place base run ∧ run.auth.typed[hop.id]? = none) (askPassword W hop)
      (Gives W K pass place base hop.id) failed := by
  refine ensures_read.bind fun first => ?_
  cases first with
  | false => exact .pure fun run start => ⟨start.1.1, nofun⟩
  | true =>
    have asks : Call.Ensures (ε := ε) (fun run => (Inside W K pass place base run ∧ run.auth.typed[hop.id]? = none) ∧
        true = (decide (hop.id ∈ run.auth.passwordFirst) && !run.auth.isCancelled hop.id))
        (askAt W hop .Password (passwordQuestion hop) false)
        (fun reply run => Inside W K pass place base { run with auth := run.auth.settled hop.id reply }) failed := by
      refine ensures_act (fun reply run world kept => ?_) fun run reply start => ?_
      · rw [moved_auth, moved_with_auth]
        exact kept.moved world
      · obtain ⟨⟨inside, untyped⟩, first⟩ := start
        have open_ : hop.id ∉ run.auth.cancelled := by simpa [isCancelled] using (Bool.and_eq_true_iff.mp first.symm).2
        have few := (inside.sound.auth.unasked untyped open_).2
        refine inside.add rfl (inside.sound.asked ?_ (inside.sound.auth.asked_password untyped open_) rfl) rfl rfl
          (BrokerAuth.settled_opened reply)
        exact ⟨inside.sound.mayAsk open_, nofun, fun _ => by rw [few]; decide, nofun⟩
    refine asks.bind fun reply => ?_
    cases reply with
    | Answer password =>
      intro run start
      show Gives W K pass place base hop.id (some password) { run with auth := run.auth.settled hop.id (.Answer password) }
      refine ⟨start, fun given same => ?_⟩
      cases same
      exact start.sound.auth.typed _ _ (BTreeMap.get?_insert_self _ _ _)
    | Cancelled | TimedOut | Gone =>
      intro run start
      show Gives W K pass place base hop.id none { run with auth := run.auth.settled hop.id .Cancelled }
      exact ⟨start, nofun⟩

theorem savedPassword_gives {id : String} (known : BrokerAuth Material → Prop) :
    Call.Ensures (fun run => Inside W K pass place base run ∧ known run.auth) (savedPassword W (W.passwordAccount id))
      (fun given run => Gives W K pass place base id given run ∧ known run.auth) failed := by
  have reads : Call.Ensures (fun run => Inside W K pass place base run ∧ known run.auth)
      (W.act (W.keychainGet (W.passwordAccount id)) fun found =>
        ((saved found).map (Event.Saved (W.passwordAccount id))).toList)
      (fun found run => Gives W K pass place base id (saved found) run ∧ known run.auth) failed := by
    refine ensures_act (fun found run world kept => ?_) fun run found start => ?_
    · refine ⟨⟨kept.1.1.moved world, fun password given => ?_⟩, by rw [moved_auth]; exact kept.2⟩
      exact (kept.1.2 password given).mono fun _ => mem_moved
    · cases given : saved found with
      | none => exact ⟨⟨start.1, nofun⟩, start.2⟩
      | some password =>
        refine ⟨⟨start.1.noted rfl trivial rfl, fun other same => ?_⟩, start.2⟩
        cases same
        exact .inr List.mem_cons_self
  exact reads.bind fun found => .pure fun run start => start

theorem password_gives :
    Call.Ensures (Inside W K pass place base) (password W hop) (Gives W K pass place base hop.id) failed := by
  refine ensures_read.bind fun typed => ?_
  cases typed with
  | some typed =>
    intro run start
    show Gives W K pass place base hop.id (some typed) { run with auth := { run.auth with gave := run.auth.gave.insert hop.id .Typed } }
    obtain ⟨inside, held⟩ := start
    refine ⟨inside.changed (inside.sound.auth.gives ?_) rfl, fun given same => ?_⟩
    · exact .inr ⟨rfl, by rw [← held]; rfl⟩
    · cases same
      exact inside.sound.auth.typed _ _ held.symm
  | none =>
    have untyped : Call.Ensures (ε := ε) (fun run => Inside W K pass place base run ∧ run.auth.typed[hop.id]? = none)
        (savedPassword W (W.passwordAccount hop.id)) (fun given run => Gives W K pass place base hop.id given run ∧
          run.auth.typed[hop.id]? = none) failed := savedPassword_gives fun auth => auth.typed[hop.id]? = none
    refine (untyped.before fun run start => ⟨start.1, start.2.symm⟩).bind fun given => ?_
    cases given with
    | none => exact askPassword_gives.before fun run start => ⟨start.1.1, start.2⟩
    | some password =>
      intro run start
      show Gives W K pass place base hop.id (some password)
        { run with auth := { run.auth with gave := run.auth.gave.insert hop.id .Keychain } }
      obtain ⟨⟨inside, given⟩, untyped⟩ := start
      exact ⟨inside.changed (inside.sound.auth.gives (.inl untyped)) rfl, given⟩

theorem answersTo_gives {prompts : List Prompt} :
    Call.Ensures (fun run => Inside W K pass (some (hop, true)) base run ∧ hop.id ∉ run.auth.cancelled)
      (answersTo W hop prompts)
      (fun given run => Inside W K pass (some (hop, true)) base run ∧ ∀ answers ∈ given, ∀ answer ∈ answers,
        ∃ text echo, .Asked hop .Interactive text echo (.Answer answer) ∈ run.log) failed := by
  induction prompts generalizing base with
  | nil => exact .pure fun run start => ⟨start.1, fun answers same => by cases same; nofun⟩
  | cons prompt rest ih =>
    have asks : Call.Ensures (ε := ε)
        (fun run => Inside W K pass (some (hop, true)) base run ∧ hop.id ∉ run.auth.cancelled)
        (askAt W hop .Interactive (shownPrompt hop prompt.text) prompt.echo)
        (fun reply run => (Inside W K pass (some (hop, true)) base
          { run with auth := if reply.unanswered then run.auth.settled hop.id reply else run.auth } ∧
          hop.id ∉ run.auth.cancelled) ∧
          .Asked hop .Interactive (shownPrompt hop prompt.text) prompt.echo reply ∈ run.log) failed := by
      refine ensures_act (fun reply run world kept => ?_) fun run reply start => ?_
      · rw [moved_auth, moved_with_auth]
        exact ⟨⟨kept.1.1.moved world, kept.1.2⟩, mem_moved kept.2⟩
      · obtain ⟨inside, open_⟩ := start
        refine ⟨⟨inside.add rfl (inside.sound.asked ?_ inside.sound.auth.asked_prompt rfl) rfl rfl ?_, open_⟩, List.mem_cons_self⟩
        · exact ⟨inside.sound.mayAsk open_, nofun, nofun, fun _ => inside.place _ rfl⟩
        · cases reply <;> rfl
    refine asks.bind fun reply => ?_
    cases reply with
    | Answer given =>
      refine .start fun run start => ?_
      obtain ⟨⟨inside, open_⟩, asked⟩ := start
      have inside : Inside W K pass (some (hop, true)) base run := inside
      have rests : Call.Ensures (· = run) (answersTo W hop rest)
          (fun given later => Inside W K pass (some (hop, true)) run.log later ∧ ∀ answers ∈ given, ∀ answer ∈ answers,
            ∃ text echo, .Asked hop .Interactive text echo (.Answer answer) ∈ later.log) failed := by
        refine ih.before ?_
        rintro _ rfl
        exact ⟨inside.now, open_⟩
      refine rests.bind fun answers => .pure fun run' kept => ?_
      refine ⟨kept.1.earlier inside.base, fun all same => ?_⟩
      obtain ⟨others, rfl, rfl⟩ := Option.map_eq_some_iff.mp same
      intro answer member
      obtain rfl | later := List.mem_cons.mp member
      · exact ⟨_, _, kept.1.base.subset asked⟩
      · exact kept.2 others rfl answer later
    | Cancelled | TimedOut | Gone =>
      intro run start
      exact ⟨start.1.1, nofun⟩

theorem interactive_gives {prompts : List Prompt} :
    Call.Ensures (Inside W K pass (some (hop, true)) base) (interactive W hop prompts)
      (fun given run => Inside W K pass (some (hop, true)) base run ∧ ∀ answers ∈ given, ∀ answer ∈ answers,
        ∃ text echo, .Asked hop .Interactive text echo (.Answer answer) ∈ run.log) failed := by
  refine ensures_read.bind fun cancelled => ?_
  cases cancelled with
  | true => exact .pure fun run start => ⟨start.1, nofun⟩
  | false =>
    refine answersTo_gives.before fun run start => ⟨start.1, ?_⟩
    simpa [isCancelled] using start.2

end BrokerAuth

end Pass

end Sshelter.Session
