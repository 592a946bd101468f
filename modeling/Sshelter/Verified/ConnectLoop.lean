import Sshelter.Verified.ConnectEngine

/-! # The loop around the engine

Every pass that is not the last one takes something from what its hosts may still ask of the connect: a pin
taken into the policy, the question about a host key, the connect without the pinned key type, or one of the
passwords.
-/

namespace Sshelter.Session

open Ssh

variable {σ KeyData Material ε α : Type} {W : World σ} {K : KeyMaterial KeyData Material} {done : Done}
  {policy : PinPolicy} {base log : List Event} {run : Run σ Material} {target : Target} {hop : HopRef} {event : Event}

/-! ## What is left to ask -/

/-- What a host may still ask of the connect. -/
def hostLeft (done : Done) (policy : PinPolicy) (id : String) : Nat :=
  (policy.pinned id).isNone.toNat + (!done.askedHostKey.contains id).toNat + (!done.unrestricted.contains id).toNat +
    (PASSWORD_PROMPTS - done.passwordsTyped[id]?.getD 0)

def askLeft (done : Done) (policy : PinPolicy) (ids : List String) : Nat := (ids.map (hostLeft done policy)).sum

theorem hostLeft_le {id : String} : hostLeft done policy id ≤ ROUNDS_PER_HOP := by
  have pinned := Bool.toNat_le (policy.pinned id).isNone
  have asked := Bool.toNat_le (!done.askedHostKey.contains id)
  have unrestricted := Bool.toNat_le (!done.unrestricted.contains id)
  simp only [hostLeft, ROUNDS_PER_HOP]
  omega

theorem askLeft_le {ids : List String} : askLeft done policy ids ≤ ids.length * ROUNDS_PER_HOP := by
  have bound := List.sum_le_card_nsmul (ids.map (hostLeft done policy)) ROUNDS_PER_HOP (by
    intro left member
    obtain ⟨id, _, rfl⟩ := List.mem_map.mp member
    exact hostLeft_le)
  simpa [askLeft] using bound

/-- The pass took something from one of the hosts, and gave nothing to the others. -/
theorem askLeft_lt {done' : Done} {policy' : PinPolicy} {ids : List String} {id : String} (member : id ∈ ids)
    (less : hostLeft done' policy' id < hostLeft done policy id)
    (others : ∀ other, hostLeft done' policy' other ≤ hostLeft done policy other) :
    askLeft done' policy' ids < askLeft done policy ids :=
  List.sum_lt_sum _ _ (fun other _ => others other) ⟨id, member, less⟩

theorem pinned_pin {id other : String} {key : HostKey} :
    (policy.pin id key).pinned other = if id = other then some key else policy.pinned other :=
  BTreeMap.get?_insert policy.pins id other key

theorem not_contains_cons_le {ids : List String} {id other : String} :
    (!(id :: ids).contains other).toNat ≤ (!ids.contains other).toNat := by
  rw [List.contains_cons, Bool.not_or]
  cases other == id <;> simp

theorem hostLeft_pin {id other : String} {key : HostKey} :
    hostLeft done (policy.pin id key) other ≤ hostLeft done policy other := by
  have fewer : ((policy.pin id key).pinned other).isNone.toNat ≤ (policy.pinned other).isNone.toNat := by
    rw [pinned_pin]
    split <;> simp
  simp only [hostLeft]
  omega

theorem askLeft_takePin {ids : List String} {key : HostKey} (member : hop.id ∈ ids)
    (unpinned : policy.pinned hop.id = none) : askLeft done (policy.pin hop.id key) ids < askLeft done policy ids := by
  refine askLeft_lt member ?_ fun _ => hostLeft_pin
  simp [hostLeft, pinned_pin, unpinned]

theorem askLeft_asked {ids : List String} {key : HostKey} (member : hop.id ∈ ids) (unasked : hop.id ∉ done.askedHostKey) :
    askLeft (done.ask hop.id) (policy.pin hop.id key) ids < askLeft done policy ids := by
  refine askLeft_lt member (lt_of_le_of_lt hostLeft_pin ?_) fun other => hostLeft_pin.trans ?_
  · simp [hostLeft, Done.ask, unasked]
  · have fewer : (!(hop.id :: done.askedHostKey).contains other).toNat ≤ (!done.askedHostKey.contains other).toNat :=
      not_contains_cons_le
    simp only [hostLeft, Done.ask]
    omega

theorem askLeft_unrestrict {ids : List String} (member : hop.id ∈ ids) (restricted : hop.id ∉ done.unrestricted) :
    askLeft { done with unrestricted := hop.id :: done.unrestricted } policy ids < askLeft done policy ids := by
  refine askLeft_lt member (by simp [hostLeft, restricted]) fun other => ?_
  have fewer : (!(hop.id :: done.unrestricted).contains other).toNat ≤ (!done.unrestricted.contains other).toNat :=
    not_contains_cons_le
  simp only [hostLeft]
  omega

theorem askLeft_retype {ids : List String} {typed : Nat} (member : hop.id ∈ ids)
    (counted : done.passwordsTyped[hop.id]?.getD 0 ≤ typed) (few : typed < PASSWORD_PROMPTS) :
    askLeft (done.type hop.id (typed + 1)) policy ids < askLeft done policy ids := by
  have less : PASSWORD_PROMPTS - (typed + 1) < PASSWORD_PROMPTS - done.passwordsTyped[hop.id]?.getD 0 := by omega
  refine askLeft_lt member ?_ fun other => ?_
  · simp only [hostLeft, Done.type, BTreeMap.get?_insert_self, Option.getD_some]
    omega
  · simp only [hostLeft, Done.type]
    by_cases same : hop.id = other
    · subst same
      rw [BTreeMap.get?_insert_self, Option.getD_some]
      omega
    · rw [BTreeMap.get?_insert_ne _ _ same]

theorem map_updateHop {id : String} {change : Hop → Hop} {hops : List Hop} (same : ∀ hop, (change hop).id = hop.id) :
    (updateHop id change hops).map (·.id) = hops.map (·.id) := by
  induction hops with
  | nil => rfl
  | cons hop rest ih =>
    rw [updateHop]
    split
    · rw [List.map_cons, same, List.map_cons]
    · rw [List.map_cons, ih, List.map_cons]

/-! ## Between two passes -/

/-- The connect may be over: every step in its log was allowed. -/
structure Over (W : World σ) (K : KeyMaterial KeyData Material) (run : Run σ Material) : Prop where
  allowed : Trace.Always (Allowed W K) run.log
  token : run.cancelled = true ↔ .Left ∈ run.log

/-- No session was opened. -/
structure Unopened (W : World σ) (K : KeyMaterial KeyData Material) (run : Run σ Material) : Prop extends Over W K run where
  unopened : ∀ target, .Opened target ∉ run.log

theorem Sound.ended (sound : Sound W K done run) : Unopened W K run := ⟨⟨sound.allowed, sound.token⟩, sound.unopened⟩

theorem Unopened.moved (ended : Unopened W K run) (world : σ) : Unopened W K (run.moved W world) := by
  unfold Run.moved
  split
  · exact
      { allowed := ⟨trivial, ended.allowed⟩
        token := by simp
        unopened := fun target opened => ended.unopened target ((List.mem_cons.mp opened).resolve_left nofun) }
  · exact { ended with }

/-- No failure but the loop's own says that Lunport gave up. -/
def Honest (failure : ConnectFailure) : Prop := ∀ target, failure ≠ gaveUp target

/-- The connect has failed. -/
def Failed (W : World σ) (K : KeyMaterial KeyData Material) (failure : ConnectFailure) (run : Run σ Material) : Prop :=
  Unopened W K run ∧ Honest failure

/-- The loop may go on with a pass. -/
structure Ready (W : World σ) (K : KeyMaterial KeyData Material) (done : Done) (policy : PinPolicy)
    (run : Run σ Material) : Prop where
  sound : Sound W K done run
  policy : run.policy = policy

/-- The broker decides what to do about an error; since the log was `base`, no question was left unanswered. -/
structure Between (W : World σ) (K : KeyMaterial KeyData Material) (done : Done) (policy : PinPolicy) (base : List Event)
    (run : Run σ Material) : Prop extends Ready W K done policy run where
  open_ : ∀ id, MayAsk base id → MayAsk run.log id
  base : base <:+ run.log

theorem Ready.between (ready : Ready W K done policy run) : Between W K done policy run.log run :=
  { ready with base := List.suffix_rfl, open_ := fun _ may => may }

/-- What held of the log before holds since then. -/
theorem Between.after {base' : List Event} {run' : Run σ Material} (between : Between W K done policy base run)
    {done' : Done} {policy' : PinPolicy} (before : Between W K done' policy' base' run') (same : run'.log = base) :
    Between W K done policy base' run where
  toReady := between.toReady
  base := (same ▸ before.base).trans between.base
  open_ id may := between.open_ id (same ▸ before.open_ id may)

theorem Between.moved (between : Between W K done policy base run) (world : σ) :
    Between W K done policy base (run.moved W world) where
  sound := between.sound.moved world
  policy := by
    rw [← between.policy, Run.moved]
    split <;> rfl
  base := between.base.trans (moved_suffix world)
  open_ id may := by
    have before := between.open_ id may
    unfold Run.moved
    split
    · exact before.cons nofun nofun
    · exact before

theorem Between.noted (between : Between W K done policy base run) (allowed : Allowed W K run.log event)
    (plain : event.plain = true) : Between W K done policy base { run with log := event :: run.log } where
  sound := between.sound.noted allowed plain
  policy := between.policy
  base := between.base.trans (List.suffix_cons _ _)
  open_ id may := (between.open_ id may).cons
    (by
      rintro hop kind text echo reply rfl
      cases plain)
    (by
      rintro hop question trusted rfl
      cases plain)

theorem Between.failed {failure : ConnectFailure} (between : Between W K done policy base run) (honest : Honest failure) :
    Failed W K failure run := ⟨between.sound.ended, honest⟩

/-! ## Failures -/

theorem honest_of_kind {failure : ConnectFailure} (kind : failure.kind ≠ .Connect) : Honest failure := by
  rintro target rfl
  exact kind rfl

theorem printable_head {text : String} {c : Char} (head : text.toList.head? = some c) (plain : printableChar c = c)
    (line : c ≠ '\r') : (printable text).toList.head? = some c := by
  rw [printable, String.toList_ofList]
  cases chars : text.toList with
  | nil =>
    rw [chars] at head
    cases head
  | cons first rest =>
    rw [chars] at head
    cases head
    rw [printableChars]
    · simp [plain]
    · exact fun more same => absurd same line

/-- A sentence begins as its first piece does. -/
theorem head_append {first rest : String} {c : Char} (head : first.toList.head? = some c) :
    (first ++ rest).toList.head? = some c := by
  rw [String.toList_append, List.head?_append, head, Option.some_or]

theorem gaveUp_head {target : Target} : (gaveUp target).text.toList.head? = some 'L' :=
  printable_head (head_append (head_append rfl)) (by decide) (by decide)

/-- The letters that the other sentences about a connect begin with. -/
def sentenceLetters : List Char := ['C', 'S', 'T']

theorem honest_of_head {kind : FailureKind} {text : String} {c : Char} (head : text.toList.head? = some c)
    (letter : c ∈ sentenceLetters) : Honest (.new kind text) := by
  have letters : ∀ c ∈ sentenceLetters, printableChar c = c ∧ c ≠ '\r' ∧ c ≠ 'L' := by
    simp only [sentenceLetters, List.forall_mem_cons]
    refine ⟨⟨rfl, nofun, nofun⟩, ⟨rfl, nofun, nofun⟩, ⟨rfl, nofun, nofun⟩, nofun⟩
  obtain ⟨plain, line, other⟩ := letters c letter
  intro target same
  have heads : (gaveUp target).text.toList.head? = some 'L' := gaveUp_head
  rw [← same] at heads
  exact other (Option.some.inj ((printable_head head plain line).symm.trans heads))

theorem honest_failureAt {target : Target} {kind : FailureKind} {hop : Option HopRef} {reason : String} {c : Char}
    (head : reason.toList.head? = some c) (letter : c ∈ sentenceLetters) : Honest (failureAt hop target kind reason) := by
  cases hop with
  | none => exact honest_of_head head letter
  | some hop =>
    rw [failureAt]
    split
    · exact honest_of_head head letter
    · have through : ("Could not connect through " ++ hop.aliasName ++ ": " ++ reason).toList.head? = some 'C' :=
        head_append (head_append (head_append rfl))
      exact honest_of_head through (by decide)

theorem failureAt_kind {target : Target} {kind : FailureKind} {hop : Option HopRef} {reason : String} :
    (failureAt hop target kind reason).kind = kind := by
  cases hop with
  | none => rfl
  | some hop =>
    rw [failureAt]
    split <;> rfl

theorem display_head {error : ConnectError} (kind : failureKind error = .Connect) :
    ∃ c ∈ sentenceLetters, error.display.toList.head? = some c := by
  cases error with
  | HostKeyUnknown | HostKeyMismatch | AuthFailed | AuthAbandoned => cases kind
  | BadJumpChain why => exact ⟨'T', by decide, head_append rfl⟩
  | Unreachable hop reason =>
    exact ⟨'C', by decide, head_append (head_append (head_append (head_append (head_append (head_append rfl)))))⟩
  | Timeout hop phase =>
    exact ⟨'C', by decide, head_append (head_append (head_append (head_append (head_append (head_append rfl)))))⟩
  | NoCommonHostKeyAlgorithm hop ours theirs =>
    have sentence : (noCommonAlgorithm hop ours theirs).toList.head? = some 'C' :=
      head_append (head_append (head_append (head_append (head_append (head_append rfl)))))
    refine ⟨'C', by decide, ?_⟩
    show (if _ then _ else _ : String).toList.head? = some 'C'
    split
    · exact head_append sentence
    · exact sentence
  | Protocol hop text => exact ⟨'S', by decide, head_append rfl⟩

theorem honest_failureOf {target : Target} {error : ConnectError} : Honest (failureOf error target) := by
  by_cases kind : failureKind error = .Connect
  · obtain ⟨c, letter, head⟩ := display_head kind
    exact honest_failureAt head letter
  · exact honest_of_kind (by rw [failureOf, failureAt_kind]; exact kind)

end Sshelter.Session
