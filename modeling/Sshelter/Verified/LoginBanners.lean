import Sshelter.Verified.ConnectAuth
import Sshelter.Verified.ShownText

/-! # The banners of a connect

The engine looks for banners before every method of a login, before the prompts of a conversation, and
once more when the login is over.  Every other step leaves the banners that are kept alone, so that over
each connection what was delivered is one text of all that has arrived.
-/

namespace Sshelter.Session

open Ssh

variable {σ KeyData Material ε α β : Type} {W : World σ} {K : KeyMaterial KeyData Material} {log : List Event}
  {event : Event} {run : Run σ Material} {taken : List String} {banners : Banners}

/-! ## The log read back -/

/-- The banners that have arrived over the newest connection. -/
def arrivals : List Event → List String
  | [] | .Dialing _ :: _ => []
  | .Arrived _ text :: before => arrivals before ++ [text]
  | _ :: before => arrivals before

/-- The texts that were delivered over the newest connection. -/
def bannered : List Event → List String
  | [] | .Dialing _ :: _ => []
  | .Bannered text :: before => bannered before ++ [text]
  | _ :: before => bannered before

/-- What was delivered over the newest connection is one text of all that has arrived over it. -/
def Delivered (log : List Event) : Prop :=
  ∃ texts : List String, bannered log = texts.map printable ∧
    texts.flatMap String.toList = shownBanner ((arrivals log).flatMap String.toList)

/-- An entry that neither opens a connection nor has to do with banners. -/
def Event.quiet : Event → Bool
  | .Dialing _ | .Arrived _ _ | .Bannered _ => false
  | _ => true

theorem arrivals_quiet (quiet : event.quiet = true) : arrivals (event :: log) = arrivals log := by
  cases event <;> first | rfl | cases quiet

theorem bannered_quiet (quiet : event.quiet = true) : bannered (event :: log) = bannered log := by
  cases event <;> first | rfl | cases quiet

theorem arrivals_arrived (hop : HopRef) (texts : List String) :
    arrivals ((texts.map (Event.Arrived hop)).reverse ++ log) = arrivals log ++ texts := by
  induction texts using List.reverseRecOn with
  | nil => simp
  | append_singleton texts text ih =>
    rw [List.map_append, List.reverse_append, List.append_assoc, ← List.append_assoc _ texts, ← ih]
    rfl

theorem bannered_arrived (hop : HopRef) (texts : List String) :
    bannered ((texts.map (Event.Arrived hop)).reverse ++ log) = bannered log := by
  induction texts using List.reverseRecOn with
  | nil => rfl
  | append_singleton texts text ih =>
    rw [List.map_append, List.reverse_append, List.append_assoc]
    exact ih

/-! ## The invariant -/

/-- Every earlier connection has delivered its banners, and those that are kept now go on from what was
delivered and taken. -/
structure BannersAt (taken : List String) (banners : Banners) (log : List Event) : Prop where
  earlier : Trace.Always (fun before event => ∀ hop, event = .Dialing hop → Delivered before) log
  holds : ∃ texts : List String, bannered log = texts.map printable ∧
    banners.Holds ((texts ++ taken).flatMap String.toList) ((arrivals log).flatMap String.toList)

/-- All that has arrived was delivered. -/
def BannersDone (run : Run σ Material) : Prop := BannersAt [] run.banners run.log ∧ run.banners.pending = ""

theorem BannersDone.delivered (settled : BannersDone run) : Delivered run.log := by
  obtain ⟨texts, told, holds⟩ := settled.1.holds
  have held := holds.shown
  rw [settled.2, List.append_nil] at held
  exact ⟨texts, told, by simpa using held⟩

theorem BannersAt.noted (held : BannersAt taken banners log) (quiet : event.quiet = true) :
    BannersAt taken banners (event :: log) where
  earlier := by
    refine ⟨?_, held.earlier⟩
    rintro hop rfl
    cases quiet
  holds := by
    rw [arrivals_quiet quiet, bannered_quiet quiet]
    exact held.holds

/-- What has arrived is pushed. -/
theorem BannersAt.arrived (held : BannersAt [] banners log) (hop : HopRef) (texts : List String) :
    BannersAt [] (texts.foldl Banners.push banners) ((texts.map (Event.Arrived hop)).reverse ++ log) where
  earlier := by
    induction texts using List.reverseRecOn with
    | nil => exact held.earlier
    | append_singleton texts text ih =>
      rw [List.map_append, List.reverse_append]
      exact ⟨nofun, ih⟩
  holds := by
    obtain ⟨told, same, holds⟩ := held.holds
    refine ⟨told, by rw [bannered_arrived, same], ?_⟩
    simpa [arrivals_arrived] using holds.arrive texts

theorem moved_banners (world : σ) : (run.moved W world).banners = run.banners := by
  unfold Run.moved
  split <;> rfl

theorem BannersAt.moved (held : BannersAt taken banners run.log) (world : σ) :
    BannersAt taken banners (run.moved W world).log := by
  unfold Run.moved
  split
  · exact held.noted rfl
  · exact held

theorem BannersDone.moved (settled : BannersDone run) (world : σ) : BannersDone (run.moved W world) := by
  rw [BannersDone, moved_banners]
  exact ⟨settled.1.moved world, settled.2⟩

theorem BannersDone.more {news : List Event} (settled : BannersDone run) (quiet : ∀ event ∈ news, event.quiet = true) :
    BannersDone { run with log := news ++ run.log } := by
  induction news with
  | nil => exact settled
  | cons event rest ih =>
    have rests := ih fun other member => quiet other (List.mem_cons_of_mem _ member)
    exact ⟨rests.1.noted (quiet event List.mem_cons_self), settled.2⟩

/-! ## Calls that keep it -/

/-- The call delivers all that it looks for. -/
def KeepsBanners (call : Call ε (Run σ Material) α) : Prop :=
  Call.Ensures BannersDone call (fun _ => BannersDone) fun _ => BannersDone

namespace KeepsBanners

theorem pure {a : α} : KeepsBanners (Pure.pure a : Call ε (Run σ Material) α) :=
  Call.Ensures.pure fun _ start => start

theorem throw {error : ε} : KeepsBanners (throw error : Call ε (Run σ Material) α) :=
  Call.Ensures.throw fun _ start => start

theorem bind {call : Call ε (Run σ Material) α} {next : α → Call ε (Run σ Material) β} (first : KeepsBanners call)
    (second : ∀ a, KeepsBanners (next a)) : KeepsBanners (call >>= next) :=
  Call.Ensures.bind first second

theorem attempt {ε' : Type} {call : Call ε (Run σ Material) α} (keeps : KeepsBanners call) :
    KeepsBanners (call.attempt : Call ε' (Run σ Material) (Except ε α)) :=
  Call.Ensures.attempt keeps

theorem of {result : Except ε α} : KeepsBanners (Call.of result : Call ε (Run σ Material) α) := by
  cases result <;> exact fun _ start => start

theorem read {view : Run σ Material → α} : KeepsBanners (Session.read view : Call ε (Run σ Material) α) :=
  fun _ start => start

theorem tell (quiet : event.quiet = true) : KeepsBanners (Session.tell event : Call ε (Run σ Material) Unit) :=
  fun _ start => ⟨start.1.noted quiet, start.2⟩

theorem change {change : BrokerAuth Material → BrokerAuth Material} :
    KeepsBanners (BrokerAuth.change change : Call ε (Run σ Material) Unit) :=
  fun _ start => start

theorem act {answer : σ → α × σ} {note : α → List Event} (quiet : ∀ a, ∀ event ∈ note a, event.quiet = true) :
    KeepsBanners (W.act answer note : Call ε (Run σ Material) α) :=
  ensures_act (fun _ _ _ kept => kept.moved _) fun _ a start => start.more (quiet a)

/-- An answer that nothing is noted of. -/
theorem look {answer : σ → α × σ} : KeepsBanners (W.act answer : Call ε (Run σ Material) α) :=
  act fun _ _ none_ => absurd none_ List.not_mem_nil

theorem note {answer : σ → α × σ} {event : α → Event} (quiet : ∀ a, (event a).quiet = true) :
    KeepsBanners (W.act answer fun a => [event a] : Call ε (Run σ Material) α) :=
  act fun a _ member => List.mem_singleton.mp member ▸ quiet a

end KeepsBanners

/-! ## The auth source -/

theorem askAt_delivers {hop : HopRef} {kind : QuestionKind} {text : String} {echo : Bool} :
    KeepsBanners (askAt W hop kind text echo : Call ε (Run σ Material) Reply) :=
  .note fun _ => rfl

namespace BrokerAuth

theorem savedPassword_delivers {account : String} :
    KeepsBanners (savedPassword W account : Call ε (Run σ Material) (Option String)) := by
  refine .bind (.act fun found event member => ?_) fun found => .pure
  obtain ⟨password, _, rfl⟩ := Option.map_eq_some_iff.mp (Option.mem_toList.mp member)
  rfl

theorem askPassword_delivers {hop : HopRef} :
    KeepsBanners (askPassword W hop : Call ε (Run σ Material) (Option String)) := by
  refine .bind .read fun first => ?_
  cases first with
  | false => exact .pure
  | true =>
    refine askAt_delivers.bind fun reply => ?_
    cases reply with
    | Answer password => exact .bind .change fun _ => .bind .change fun _ => .pure
    | Cancelled | TimedOut | Gone => exact .bind .change fun _ => .pure

theorem password_delivers {hop : HopRef} : KeepsBanners (password W hop : Call ε (Run σ Material) (Option String)) := by
  refine .bind .read fun typed => ?_
  cases typed with
  | some typed => exact .bind .change fun _ => .pure
  | none =>
    refine savedPassword_delivers.bind fun saved => ?_
    cases saved with
    | none => exact askPassword_delivers
    | some saved => exact .bind .change fun _ => .pure

theorem answersTo_delivers {hop : HopRef} {prompts : List Prompt} :
    KeepsBanners (answersTo W hop prompts : Call ε (Run σ Material) (Option (List String))) := by
  induction prompts with
  | nil => exact .pure
  | cons prompt rest ih =>
    refine askAt_delivers.bind fun reply => ?_
    cases reply with
    | Answer answer => exact ih.bind fun _ => .pure
    | Cancelled | TimedOut | Gone => exact .bind .change fun _ => .pure

theorem interactive_delivers {hop : HopRef} {prompts : List Prompt} :
    KeepsBanners (interactive W hop prompts : Call ε (Run σ Material) (Option (List String))) := by
  refine .bind .read fun cancelled => ?_
  cases cancelled with
  | true => exact .pure
  | false => exact answersTo_delivers

theorem remembered_delivers {keyId text : String} :
    KeepsBanners (remembered W K keyId text : Call ε (Run σ Material) (Option Material)) := by
  refine .bind .look fun found => ?_
  split
  · split
    · exact .pure
    · exact .bind .look fun _ => .pure
  · exact .pure
  · exact .pure

theorem askPassphrase_delivers {hop : Hop} {key : VaultKey} {text : String} {attempts : Nat} {question : String} :
    KeepsBanners (askPassphrase W K hop key text attempts question) := by
  induction attempts generalizing question with
  | zero => exact .throw
  | succ attempts ih =>
    refine askAt_delivers.bind fun reply => ?_
    cases reply with
    | Answer passphrase =>
      dsimp only
      split
      · exact .pure
      · exact ih
      · exact .throw
    | Cancelled | TimedOut | Gone => exact .throw

theorem openKey_delivers {hop : Hop} {keyId : String} {key : VaultKey} {text : String} :
    KeepsBanners (openKey W K hop keyId key text) := by
  rw [openKey]
  split
  · exact .pure
  · exact .throw
  · exact .throw
  · exact .throw
  · refine remembered_delivers.bind fun material => ?_
    cases material with
    | some material => exact .pure
    | none => exact askPassphrase_delivers

variable [DecidableEq KeyData]

theorem unlockKey_delivers {hop : Hop} {keyId : String} {key : VaultKey} {text : String} :
    KeepsBanners (unlockKey W K hop keyId key text) := by
  rw [unlockKey]
  split
  · exact .throw
  · split
    · exact .throw
    · refine openKey_delivers.bind fun material => ?_
      split
      · exact .change
      · exact .throw

theorem readKey_delivers {hop : Hop} {keyId : String} : KeepsBanners (readKey W K hop keyId) := by
  refine .bind .look fun key => ?_
  cases key with
  | none => exact .pure
  | some key =>
    refine .bind .look fun text => ?_
    split
    · exact .throw
    · exact .pure
    · exact unlockKey_delivers

theorem unlock_delivers {target : Target} : KeepsBanners (unlock W K target) := by
  have each (hop : Hop) : KeepsBanners (unlockHop W K hop) := by
    rw [unlockHop]
    split
    · refine .bind .read fun known => ?_
      cases known with
      | true => exact .pure
      | false => exact readKey_delivers
    · exact .pure
    · exact .pure
  rw [unlock]
  induction target.hops with
  | nil => exact .pure
  | cons hop rest ih => exact (each hop).bind fun _ => ih

end BrokerAuth

/-! ## The engine -/

namespace RusshEngine

variable {hop : Hop} {login : Login}

/-- Here the banners move: what has arrived is pushed, taken and delivered. -/
theorem deliverBanners_delivers : KeepsBanners (deliverBanners W hop : Call ε (Run σ Material) Unit) := by
  have looks : Call.Ensures (ε := ε) BannersDone
      (W.act (W.banners hop) fun arrived => (arrived.map (Event.Arrived hop.reference)).reverse)
      (fun arrived (run : Run σ Material) => BannersAt [] (arrived.foldl Banners.push run.banners) run.log)
      fun _ => BannersDone := by
    refine ensures_act (fun arrived run world kept => ?_) fun run arrived start => start.1.arrived _ _
    rw [moved_banners]
    exact kept.moved world
  refine looks.bind fun arrived => ?_
  have takes : Call.Ensures (ε := ε)
      (fun run : Run σ Material => BannersAt [] (arrived.foldl Banners.push run.banners) run.log) (takeBanners arrived)
      (fun text run => BannersAt text.toList run.banners run.log ∧ run.banners.pending = "") fun _ => BannersDone := by
    intro run start
    obtain ⟨texts, told, holds⟩ := start.holds
    obtain ⟨rest, empty⟩ := holds.take
    refine ⟨⟨start.earlier, texts, told, ?_⟩, empty⟩
    simpa using rest
  refine takes.bind fun text => ?_
  cases text with
  | none => exact .pure fun _ start => start
  | some text =>
    refine ensures_act (fun _ _ _ kept => kept.moved _) fun run _ start => ⟨⟨⟨nofun, start.1.earlier⟩, ?_⟩, start.2⟩
    obtain ⟨texts, told, holds⟩ := start.1.holds
    refine ⟨texts ++ [text], ?_, by simpa [arrivals] using holds⟩
    show bannered run.log ++ [printable text] = _
    rw [told, List.map_append, List.map_singleton]

theorem dial_delivers : KeepsBanners (dial hop : Call ε (Run σ Material) Unit) :=
  fun _ start => ⟨⟨⟨fun _ _ => start.delivered, start.1.earlier⟩, [], rfl, Banners.holds_new⟩, rfl⟩

theorem orThrow_delivers {error : Option ε} : KeepsBanners (orThrow error : Call ε (Run σ Material) Unit) := by
  cases error with
  | none => exact .pure
  | some error => exact .throw

theorem connectHop_delivers {via : Option HopRef} :
    KeepsBanners (connectHop W hop via : Call ConnectError (Run σ Material) Unit) := by
  have checks : KeepsBanners (checkServerKey W hop : Call ConnectError (Run σ Material) _) := by
    refine .bind .look fun presented => ?_
    cases presented with
    | none => exact .pure
    | some key => exact .bind .read fun verdict => .bind (.tell rfl) fun _ => .pure
  have reaches : KeepsBanners (reach W hop via : Call ConnectError (Run σ Material) Unit) := by
    cases via <;> exact .bind .look fun _ => orThrow_delivers
  have shakes : KeepsBanners (handshake W hop : Call ConnectError (Run σ Material) Unit) :=
    checks.bind fun _ => .bind .look fun _ => orThrow_delivers
  exact dial_delivers.bind fun _ => reaches.bind fun _ => shakes

theorem settle_delivers {answer : LoginAnswer} :
    KeepsBanners (settle W hop login answer : Call ConnectError (Run σ Material) Step) := by
  cases answer with
  | Success => exact .pure
  | TimedOut | Lost => exact .throw
  | Refused remaining =>
    rw [settle]
    split
    · refine .bind (.bind .look fun answer => ?_) fun _ => .pure
      cases answer with
      | NoLoginMethod | Lost => exact .throw
      | Refusal => exact .pure
    · exact .pure

theorem offerKey_delivers {keyId line : String} {rsa : Bool} {hash : Option RsaHash} :
    KeepsBanners (offerKey W K hop login keyId line rsa hash) := by
  refine .bind .look fun offer => ?_
  cases offer with
  | Answered answer => exact settle_delivers
  | Sign hash data =>
    refine .bind ?_ fun blob => .bind .look fun _ => settle_delivers
    rw [authSign]
    split
    · exact .throw
    · refine .bind .read fun signed => ?_
      cases signed with
      | error why => exact .throw
      | ok blob => exact .bind (.tell rfl) fun _ => .pure

theorem tryKey_delivers {keyId : String} : KeepsBanners (tryKey W K hop keyId login) := by
  refine .bind .read fun line => ?_
  cases line with
  | none => exact .pure
  | some line =>
    dsimp only
    split
    · exact .pure
    · exact offerKey_delivers.bind fun _ => .pure
    · refine .bind (.bind .look fun support => ?_) fun choice => ?_
      · cases support with
        | TimedOut | Lost => exact .throw
        | Best best => exact .pure
      · cases choice with
        | Sha1Only => exact .pure
        | Use hash => exact offerKey_delivers.bind fun _ => .pure

theorem tryPassword_delivers :
    KeepsBanners (tryPassword W hop login : Call ConnectError (Run σ Material) (Step × Login)) := by
  refine .bind ?_ fun given => ?_
  · cases login.prefetched with
    | none => exact BrokerAuth.password_delivers
    | some prefetched => exact .pure
  · cases given with
    | none => exact .pure
    | some password => exact .bind (.tell rfl) fun _ => .bind .look fun _ => settle_delivers.bind fun _ => .pure

theorem answerRound_delivers {prompts : List Prompt} :
    KeepsBanners (answerRound W hop prompts : Call ConnectError (Run σ Material) (List String)) := by
  rw [answerRound]
  split
  · exact .pure
  · refine deliverBanners_delivers.bind fun _ => BrokerAuth.interactive_delivers.bind fun given => ?_
    cases given with
    | none => exact .throw
    | some answers =>
      refine .bind .look fun late => ?_
      cases late with
      | true => exact .throw
      | false =>
        simp only [Bool.false_eq_true, if_false]
        split
        · exact .throw
        · exact .pure

theorem converse_delivers {conversation : Conversation} :
    KeepsBanners (converse W hop conversation : Call ConnectError (Run σ Material) Step) := by
  induction conversation with
  | Success | Failure => exact .pure
  | TimedOut | Lost => exact .throw
  | InfoRequest prompts respond ih => exact answerRound_delivers.bind fun _ => .bind (.tell rfl) fun _ => ih _

theorem tryMethod_delivers {method : AuthMethod} : KeepsBanners (tryMethod W K hop login method) := by
  cases method with
  | Key keyId => exact tryKey_delivers
  | Password => exact tryPassword_delivers
  | Interactive => exact .bind .look fun _ => converse_delivers.bind fun _ => .pure

theorem afterSkip_delivers {step : Step} :
    KeepsBanners (afterSkip W hop login step : Call ConnectError (Run σ Material) Step) := by
  cases step with
  | LoggedIn | Refused => exact .pure
  | Skipped =>
    rw [afterSkip]
    split
    · exact .bind .look fun _ => settle_delivers
    · exact .pure

theorem authenticateWith_delivers {methods : List AuthMethod} :
    KeepsBanners (authenticateWith W K hop methods login) := by
  induction methods generalizing login with
  | nil => exact .throw
  | cons method rest ih =>
    rw [authenticateWith]
    split
    · exact ih
    · refine deliverBanners_delivers.bind fun _ => tryMethod_delivers.bind fun tried => ?_
      refine afterSkip_delivers.bind fun step => ?_
      cases step with
      | LoggedIn => exact .pure
      | Refused remaining => exact ih
      | Skipped => exact ih

theorem connectOne_delivers {via : Option HopRef} : KeepsBanners (connectOne W K hop via) := by
  refine .bind ?_ fun prefetched => connectHop_delivers.bind fun _ =>
    authenticateWith_delivers.attempt.bind fun login => deliverBanners_delivers.bind fun _ => .of
  rw [prefetch]
  split
  · exact BrokerAuth.password_delivers.bind fun _ => .pure
  · exact .pure

theorem connect_delivers {target : Target} : KeepsBanners (connect W K target) := by
  have hops (hops : List Hop) (via : Option HopRef) : KeepsBanners (connectHops W K via hops) := by
    induction hops generalizing via with
    | nil => exact .pure
    | cons hop rest ih => exact connectOne_delivers.bind fun _ => ih _
  exact orThrow_delivers.bind fun _ => hops _ _

end RusshEngine

/-! ## The connect -/

namespace Connector

variable {target : Target} {done : Done} {hop : HopRef}

theorem fail_delivers {failure : ConnectFailure} :
    KeepsBanners (fail failure : Call ConnectFailure (Run σ Material) α) := .throw

theorem unlessCancelled_delivers : KeepsBanners (unlessCancelled : Call ConnectFailure (Run σ Material) Unit) := by
  refine .bind .read fun cancelled => ?_
  cases cancelled with
  | true => exact .throw
  | false => exact .pure

theorem pinnedFor_delivers :
    KeepsBanners (pinnedFor W target hop : Call ConnectFailure (Run σ Material) (Option PinnedKey)) := by
  refine .bind (.act fun found event member => ?_) fun found => ?_
  · obtain ⟨record, _, rfl⟩ := Option.map_eq_some_iff.mp (Option.mem_toList.mp member)
    rfl
  · cases found with
    | error error => exact .throw
    | ok found => exact .pure

theorem takePin_delivers {key : HostKey} :
    KeepsBanners (takePin target done hop key : Call ε (Run σ Material) Round) := by
  have sets : KeepsBanners (setPin hop.id key : Call ε (Run σ Material) Unit) := fun _ start => start
  exact sets.bind fun _ => .pure

theorem changedSummary_delivers {pinned : Option HostKey} :
    KeepsBanners (changedSummary W target hop pinned :
      Call ConnectFailure (Run σ Material) (Option PinnedSummary)) := by
  cases pinned with
  | none => exact .pure
  | some pinned =>
    refine .bind (pinnedFor_delivers.bind fun found => ?_) fun _ => .pure
    split
    · exact .pure
    · exact .throw

theorem askWindow_delivers {key : HostKey} {pinned : Option HostKey} :
    KeepsBanners (askWindow W target done hop key pinned : Call ConnectFailure (Run σ Material) Round) := by
  rw [askWindow]
  split
  · exact fail_delivers
  · refine changedSummary_delivers.bind fun changed => unlessCancelled_delivers.bind fun _ => .bind (.note fun _ => rfl)
      fun _ => .bind (.note fun _ => rfl) fun trusted => unlessCancelled_delivers.bind fun _ => ?_
    split
    · refine .bind (.note fun _ => rfl) fun written => ?_
      cases written with
      | error error => exact fail_delivers
      | ok _ => exact takePin_delivers
    · exact fail_delivers

theorem confirm_delivers {key : HostKey} {pinned : Option HostKey} :
    KeepsBanners (confirm W target done hop key pinned : Call ConnectFailure (Run σ Material) Round) := by
  cases pinned with
  | some pinned => exact askWindow_delivers
  | none =>
    refine pinnedFor_delivers.bind fun found => ?_
    cases found with
    | some record => exact takePin_delivers
    | none => exact askWindow_delivers

theorem passwordFailed_delivers {tried : List AuthMethod} {reason : String} {wanted : Bool} :
    KeepsBanners (passwordFailed W target done hop tried reason wanted :
      Call ConnectFailure (Run σ Material) Round) := by
  refine .bind .read fun source => ?_
  dsimp only
  split
  · exact fail_delivers
  · refine .bind .change fun _ => askAt_delivers.bind fun reply => ?_
    cases reply with
    | Answer password => exact .bind .change fun _ => .pure
    | Cancelled | TimedOut | Gone => exact .throw

theorem answer_delivers {error : ConnectError} :
    KeepsBanners (answer W target done error : Call ConnectFailure (Run σ Material) Round) := by
  refine .bind .read fun unanswered => ?_
  cases unanswered with
  | true =>
    simp only [if_true]
    cases error <;> exact fail_delivers
  | false =>
    simp only [Bool.false_eq_true, if_false]
    cases error with
    | HostKeyUnknown hop key => exact confirm_delivers
    | HostKeyMismatch hop key pinned => exact confirm_delivers
    | AuthFailed hop tried reason wanted => exact passwordFailed_delivers
    | NoCommonHostKeyAlgorithm hop ours theirs =>
      refine .bind .read fun pinned => ?_
      split
      · exact .pure
      · exact fail_delivers
    | _ => exact fail_delivers

theorem round_delivers : KeepsBanners (round W K target done) := by
  refine unlessCancelled_delivers.bind fun _ => .bind .change fun _ => .bind (.tell rfl) fun _ =>
    RusshEngine.connect_delivers.attempt.bind fun result => ?_
  cases result with
  | ok _ => exact .bind (.tell rfl) fun _ => .pure
  | error error => exact answer_delivers

theorem rounds_delivers {left : Nat} : KeepsBanners (rounds W K left target done) := by
  induction left generalizing target done with
  | zero => exact .throw
  | succ left ih =>
    refine round_delivers.bind fun came => ?_
    cases came with
    | Opened => exact .pure
    | Again target done => exact ih

variable [DecidableEq KeyData]

theorem connect_delivers : KeepsBanners (connect W K) := by
  have resolves : KeepsBanners (resolve W : Call ConnectFailure (Run σ Material) Target) := by
    refine .bind (.act fun found event member => ?_) fun found => ?_
    · obtain ⟨target, _, rfl⟩ := Option.map_eq_some_iff.mp (Option.mem_toList.mp member)
      rfl
    · cases found with
      | error error => exact .throw
      | ok target => exact .pure
  have unlocks (target : Target) : KeepsBanners (unlock W K target) := by
    refine BrokerAuth.unlock_delivers.attempt.bind fun result => ?_
    cases result with
    | ok _ => exact .pure
    | error text => exact .throw
  have starts (target : Target) : KeepsBanners (startPolicy target : Call ConnectFailure (Run σ Material) Unit) :=
    fun _ start => start
  have connects : KeepsBanners (connectWithin W K roundLimit) :=
    unlessCancelled_delivers.bind fun _ => resolves.bind fun target => (unlocks target).bind fun _ =>
      (starts target).bind fun _ => rounds_delivers
  refine connects.attempt.bind fun result => .bind .read fun cancelled => ?_
  cases cancelled with
  | true =>
    refine .bind ?_ fun _ => .throw
    cases result with
    | ok target => exact .tell rfl
    | error failure => exact .pure
  | false => exact .of

theorem start_delivers {world : σ} {gone : Bool} : BannersDone (Run.start world gone : Run σ Material) := by
  have empty : BannersAt [] {} [] := ⟨trivial, [], rfl, Banners.holds_new⟩
  cases gone with
  | true => exact ⟨empty.noted rfl, rfl⟩
  | false => exact ⟨empty, rfl⟩

/-- In every connect, what was delivered of the banners of each login is one text, whatever pieces the
server sent it in and whenever the engine looked: all that had arrived over that connection, cut as a whole. -/
theorem logins_deliver_one_text (world : σ) (gone : Bool) :
    Delivered (connectFrom W K world gone).2.log ∧ ∀ after hop before,
      (connectFrom W K world gone).2.log = after ++ .Dialing hop :: before → Delivered before := by
  have settled : BannersDone (connectFrom W K world gone).2 := by
    have keeps : KeepsBanners (connect W K) := connect_delivers
    have ended := keeps (.start world gone) start_delivers
    revert ended
    rw [connectFrom]
    obtain ⟨result, run⟩ := Call.outcome (connect W K) (.start world gone)
    cases result <;> exact id
  refine ⟨settled.delivered, fun after hop before parts => ?_⟩
  have earlier := settled.1.earlier
  rw [parts] at earlier
  exact earlier.at hop rfl

end Connector

end Sshelter.Session
