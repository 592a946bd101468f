import Sshelter.Relay.ChainObject

/-! # Runs of the relay

What holds of a chain whatever requests it gets: its rows are numbered apart and up to
the latest sequence number, its limits are kept, and the use a push works out before it
writes is the use of the table it leaves.  After a freeze nothing is written any more.
-/

namespace Sshelter.Relay

open Sync (Envelope PushItem PullResponse)

/-! ## Lengths -/

/-- Text both engines count alike. -/
def IsAscii (text : String) : Prop := ∀ c ∈ text.toList, c ≠ '\x00' ∧ c.toNat < 0x10000

theorem base64Char_ascii {c : Char} (base64 : isBase64Char c = true) : c ≠ '\x00' ∧ c.toNat < 0x10000 := by
  simp only [isBase64Char, Char.isAlphanum, Char.isAlpha, Char.isUpper, Char.isLower, Char.isDigit,
    Bool.or_eq_true, Bool.and_eq_true, decide_eq_true_eq, beq_iff_eq, UInt32.le_iff_toNat_le, ge_iff_le] at base64
  have code : c.toNat = c.val.toNat := rfl
  have bound : c.toNat < 128 ∧ 0 < c.toNat := by
    rcases base64 with (((upper | lower) | digit) | rfl) | rfl
    · have : 'A'.val.toNat = 65 := rfl
      have : 'Z'.val.toNat = 90 := rfl
      omega
    · have : 'a'.val.toNat = 97 := rfl
      have : 'z'.val.toNat = 122 := rfl
      omega
    · have : '0'.val.toNat = 48 := rfl
      have : '9'.val.toNat = 57 := rfl
      omega
    · decide
    · decide
  refine ⟨fun null => ?_, by omega⟩
  subst null
  exact absurd bound.2 (by decide)

theorem ascii_of_base64 {text : String} (strict : isStrictBase64 text = true) : IsAscii text := by
  simp only [isStrictBase64, matchesBase64, Bool.and_eq_true, List.all_eq_true, beq_iff_eq] at strict
  obtain ⟨_, padding, _⟩ := strict
  intro c member
  rw [← List.takeWhile_append_dropWhile (p := isBase64Char) (l := text.toList)] at member
  obtain body | pad := List.mem_append.mp member
  · exact base64Char_ascii (List.mem_takeWhile_imp body)
  · rw [padding c pad]
    decide

theorem jsLength_of_ascii {text : String} (ascii : IsAscii text) : jsLength text = text.length := by
  have ones : text.toList.map (fun c => if c.toNat < 0x10000 then 1 else 2) = text.toList.map fun _ => 1 :=
    List.map_congr_left fun c member => if_pos (ascii c member).2
  rw [jsLength, ones]
  simp [String.length_toList]

theorem sqlLength_of_ascii {text : String} (ascii : IsAscii text) : sqlLength text = text.length := by
  have all : text.toList.takeWhile (· != '\x00') = text.toList := by
    rw [List.takeWhile_eq_self_iff]
    intro c member
    simpa using (ascii c member).1
  rw [sqlLength, all, String.length_toList]

/-! ## The use of a table -/

/-- Every text of the table is one that both engines count alike. -/
def AsciiRows (rows : BTreeMap Envelope) : Prop :=
  ∀ (hash : String) row, rows[hash]? = some row → IsAscii row.ciphertext ∧ IsAscii row.nonce

namespace Chain

/-- The use of a table in the store's own terms. -/
def used (rows : BTreeMap Envelope) : Int × Nat :=
  ((rows.values.map fun row => rowBytes row.nonce row.ciphertext).sum, rows.values.length)

/-- The use after one planned item. -/
def charge (rows : BTreeMap Envelope) (use : Int × Nat) (entry : PushItem × PushResult) : Int × Nat :=
  match entry.2 with
  | .conflict _ => use
  | .ok _ =>
    let added := rowBytes entry.1.nonce entry.1.ciphertext
    match rows[entry.1.idHash]? with
    | some previous => (use.1 - rowBytes previous.nonce previous.ciphertext + added, use.2)
    | none => (use.1 + added, use.2 + 1)

theorem usageAfter_eq (rows : BTreeMap Envelope) (planned : List (PushItem × PushResult)) :
    usageAfter rows planned = planned.foldl (charge rows) (used rows) := rfl

theorem used_eq {rows : BTreeMap Envelope} (ascii : AsciiRows rows) : usage rows = used rows := by
  have sums : rows.values.map (fun row => (sqlLength row.ciphertext + sqlLength row.nonce : Int)) =
      rows.values.map fun row => rowBytes row.nonce row.ciphertext := by
    apply List.map_congr_left
    intro row member
    obtain ⟨hash, held⟩ := BTreeMap.mem_values.mp member
    obtain ⟨text, nonce⟩ := ascii hash row held
    rw [sqlLength_of_ascii text, sqlLength_of_ascii nonce, rowBytes]
  rw [usage, used, sums]

theorem computedUsage_eq {rows : BTreeMap Envelope} {planned : List (PushItem × PushResult)}
    (ascii : AsciiRows rows) (items : ∀ entry ∈ planned, IsAscii entry.1.ciphertext ∧ IsAscii entry.1.nonce) :
    computedUsage rows planned = usageAfter rows planned := by
  rw [usageAfter_eq, computedUsage, used_eq ascii]
  generalize used rows = use
  induction planned generalizing use with
  | nil => rfl
  | cons entry rest ih =>
    simp only [List.mem_cons, forall_eq_or_imp] at items
    obtain ⟨⟨text, nonce⟩, later⟩ := items
    obtain ⟨item, result⟩ := entry
    rw [List.foldl_cons, List.foldl_cons, ih later]
    congr 1
    cases result with
    | conflict current => rfl
    | ok seq =>
      simp only [charge, rowBytes, jsLength_of_ascii text, jsLength_of_ascii nonce]
      cases current : rows[item.idHash]? with
      | none => rfl
      | some previous =>
        obtain ⟨text, nonce⟩ := ascii item.idHash previous current
        simp only [jsLength_of_ascii text, jsLength_of_ascii nonce]

/-- Taking a row out of the sums. -/
theorem used_of_held {rows : BTreeMap Envelope} {hash : String} {row : Envelope}
    (held : rows[hash]? = some row) :
    used rows = ((used (rows.erase hash)).1 + rowBytes row.nonce row.ciphertext, (used (rows.erase hash)).2 + 1) := by
  have perm := (BTreeMap.toList_perm_erase held).map Prod.snd
  have sums := (perm.map fun row => rowBytes row.nonce row.ciphertext).sum_eq
  have counts := perm.length_eq
  rw [List.map_cons, List.map_cons, List.sum_cons] at sums
  rw [List.map_cons, List.length_cons] at counts
  refine Prod.ext ?_ counts
  rw [used, BTreeMap.values, sums, add_comm]
  rfl

theorem used_write {rows before : BTreeMap Envelope} {entry : PushItem × PushResult}
    (same : rows[entry.1.idHash]? = before[entry.1.idHash]?) :
    used (write rows entry) = charge before (used rows) entry := by
  obtain ⟨item, result⟩ := entry
  cases result with
  | conflict current => rfl
  | ok seq =>
    have erased : (rows.insert item.idHash (item.envelope seq)).erase item.idHash = rows.erase item.idHash := by
      refine BTreeMap.ext fun a => ?_
      rw [BTreeMap.get?_erase, BTreeMap.get?_erase, BTreeMap.get?_insert]
      split <;> rfl
    have written := used_of_held (BTreeMap.get?_insert_self rows item.idHash (item.envelope seq))
    rw [erased] at written
    simp only [write, charge, ← same]
    cases current : rows[item.idHash]? with
    | none =>
      rw [BTreeMap.erase_of_get?_eq_none current] at written
      exact written
    | some previous =>
      rw [written, used_of_held current]
      simp only [Prod.mk.injEq, and_true]
      simp [PushItem.envelope]

/-- The use worked out before writing is the use of the table written. -/
theorem used_writes {rows before : BTreeMap Envelope} {planned : List (PushItem × PushResult)}
    (same : ∀ entry ∈ planned, rows[entry.1.idHash]? = before[entry.1.idHash]?)
    (distinct : (planned.map (·.1.idHash)).Nodup) :
    used (planned.foldl write rows) = planned.foldl (charge before) (used rows) := by
  induction planned generalizing rows with
  | nil => rfl
  | cons entry rest ih =>
    rw [List.map_cons, List.nodup_cons] at distinct
    simp only [List.mem_cons, forall_eq_or_imp] at same
    rw [List.foldl_cons, List.foldl_cons, ← used_write same.1]
    apply ih _ distinct.2
    intro other member
    rw [← same.2 other member]
    unfold write
    split
    · rfl
    · apply BTreeMap.get?_insert_ne
      intro equal
      exact distinct.1 (List.mem_map.mpr ⟨other, member, equal.symm⟩)

end Chain

/-! ## The invariant of a chain -/

/-- A chain as every run leaves it. -/
structure Chain.Sound (chain : Chain) : Prop where
  range : ∀ (hash : String) row, chain.rows[hash]? = some row → 1 ≤ row.seq ∧ row.seq ≤ chain.latestSeq
  distinct : ∀ (hash hash' : String) row row', chain.rows[hash]? = some row → chain.rows[hash']? = some row' →
    row.seq = row'.seq → hash = hash'
  ascii : AsciiRows chain.rows
  bytes : (usage chain.rows).1 ≤ MAX_CHAIN_BYTES
  count : (usage chain.rows).2 ≤ MAX_CHAIN_RECORDS

theorem Chain.sound_of_empty {chain : Chain} (empty : chain.rows = ∅) : chain.Sound := by
  have none_held {hash : String} {row : Envelope} (held : chain.rows[hash]? = some row) : False := by
    simp [empty] at held
  refine ⟨fun hash row held => (none_held held).elim, fun hash hash' row row' held => (none_held held).elim,
    fun hash row held => (none_held held).elim, ?_, ?_⟩
  · simp [usage, empty, BTreeMap.values_empty]
  · simp [usage, empty, BTreeMap.values_empty]

/-- A push body that the worker lets through. -/
structure ValidBody (body : List PushItem) : Prop where
  distinct : (body.map (·.idHash)).Nodup
  ascii : ∀ item ∈ body, IsAscii item.ciphertext ∧ IsAscii item.nonce

theorem isPushItem_ascii {item : PushItem} (valid : isPushItem item = true) :
    IsAscii item.ciphertext ∧ IsAscii item.nonce := by
  simp only [isPushItem, Bool.and_eq_true] at valid
  exact ⟨ascii_of_base64 valid.2, ascii_of_base64 valid.1.2.2⟩

namespace Chain

/-- A row after a push: one from before, or an accepted item. -/
theorem Pushed.row_cases {before after : Chain} {items : List PushItem} {results : List PushResult}
    {accepted : List (PushItem × Nat)} (pushed : Pushed before items after results accepted) {hash : String}
    {row : Envelope} (held : after.rows[hash]? = some row) :
    (∃ entry ∈ accepted, entry.1.idHash = hash ∧ row = entry.1.envelope entry.2) ∨
      before.rows[hash]? = some row := by
  by_cases touched : ∃ entry ∈ accepted, entry.1.idHash = hash
  · obtain ⟨entry, member, rfl⟩ := touched
    rw [pushed.written entry member] at held
    exact .inl ⟨entry, member, rfl, (Option.some.inj held).symm⟩
  · rw [pushed.untouched hash fun entry member same => touched ⟨entry, member, same⟩] at held
    exact .inr held

theorem Pushed.range_distinct {before after : Chain} {items : List PushItem} {results : List PushResult}
    {accepted : List (PushItem × Nat)} (pushed : Pushed before items after results accepted)
    (sound : before.Sound) :
    (∀ (hash : String) row, after.rows[hash]? = some row → 1 ≤ row.seq ∧ row.seq ≤ after.latestSeq) ∧
      ∀ (hash hash' : String) row row', after.rows[hash]? = some row → after.rows[hash']? = some row' →
        row.seq = row'.seq → hash = hash' := by
  have grows := pushed.grows
  constructor
  · intro hash row held
    obtain ⟨entry, member, _, rfl⟩ | old := pushed.row_cases held
    · have := pushed.range entry member
      simp only [PushItem.envelope]
      omega
    · have := sound.range hash row old
      omega
  · -- the numbers of accepted items lie above those of the rows from before
    intro hash hash' row row' held held' same
    obtain ⟨entry, member, rfl, rfl⟩ | old := pushed.row_cases held
    · obtain ⟨entry', member', rfl, rfl⟩ | old' := pushed.row_cases held'
      · have equal := List.inj_on_of_nodup_map pushed.distinct member member' same
        rw [equal]
      · have above := (pushed.range entry member).1
        have below := (sound.range hash' row' old').2
        simp only [PushItem.envelope] at same
        omega
    · obtain ⟨entry', member', rfl, rfl⟩ | old' := pushed.row_cases held'
      · have above := (pushed.range entry' member').1
        have below := (sound.range hash row old).2
        simp only [PushItem.envelope] at same
        omega
      · exact sound.distinct hash hash' row row' old old' same

/-- The outcome of a push that is not refused. -/
theorem push_cases {before after : Chain} {items : List PushItem} {results : List PushResult}
    (pushed : before.push items = .ok (after, results)) :
    after.rows = (plan before.rows before.latestSeq items).1.foldl write before.rows ∧
      results = (plan before.rows before.latestSeq items).1.map (·.2) ∧
      (usageAfter before.rows (plan before.rows before.latestSeq items).1).1 ≤ MAX_CHAIN_BYTES ∧
      (usageAfter before.rows (plan before.rows before.latestSeq items).1).2 ≤ MAX_CHAIN_RECORDS := by
  unfold push at pushed
  split at pushed
  · cases pushed
  · simp only at pushed
    split at pushed
    · cases pushed
    · rename_i room
      cases pushed
      simp only [Bool.or_eq_true, decide_eq_true_eq, not_or, not_lt] at room
      exact ⟨rfl, rfl, room⟩

theorem push_usage {before after : Chain} {items : List PushItem} {results : List PushResult}
    (valid : ValidBody items) (sound : before.Sound) (pushed : before.push items = .ok (after, results)) :
    AsciiRows after.rows ∧
      usage after.rows = computedUsage before.rows (plan before.rows before.latestSeq items).1 ∧
      usage after.rows = usageAfter before.rows (plan before.rows before.latestSeq items).1 := by
  obtain ⟨accepted, facts⟩ := push_pushed valid.distinct pushed
  obtain ⟨rows, _⟩ := push_cases pushed
  have planned := plan_planned before.rows before.latestSeq items
  have ascii : AsciiRows after.rows := by
    intro hash row held
    obtain ⟨entry, member, _, rfl⟩ | old := facts.row_cases held
    · exact valid.ascii entry.1 (facts.offered entry member)
    · exact sound.ascii hash row old
  have texts : ∀ entry ∈ (plan before.rows before.latestSeq items).1,
      IsAscii entry.1.ciphertext ∧ IsAscii entry.1.nonce := by
    intro entry member
    apply valid.ascii
    rw [← planned.inOrder]
    exact List.mem_map_of_mem member
  have hashes : ((plan before.rows before.latestSeq items).1.map (·.1.idHash)).Nodup := by
    have distinct := valid.distinct
    rw [← planned.inOrder, List.map_map] at distinct
    exact distinct
  have total : usage after.rows = usageAfter before.rows (plan before.rows before.latestSeq items).1 := by
    rw [used_eq ascii, usageAfter_eq, rows]
    exact used_writes (fun _ _ => rfl) hashes
  exact ⟨ascii, total.trans (computedUsage_eq sound.ascii texts).symm, total⟩

theorem Sound.push {before after : Chain} {items : List PushItem} {results : List PushResult}
    (sound : before.Sound) (valid : ValidBody items) (pushed : before.push items = .ok (after, results)) :
    after.Sound := by
  obtain ⟨accepted, facts⟩ := push_pushed valid.distinct pushed
  obtain ⟨_, _, bytes, count⟩ := push_cases pushed
  obtain ⟨ascii, _, total⟩ := push_usage valid sound pushed
  obtain ⟨range, distinct⟩ := facts.range_distinct sound
  exact ⟨range, distinct, ascii, by rw [total]; exact bytes, by rw [total]; exact count⟩

/-- An item is accepted exactly when no row stands against it. -/
theorem plan_accepts {rows : BTreeMap Envelope} {latest : Nat} {items : List PushItem} :
    ∀ entry ∈ (plan rows latest items).1, (∃ seq, entry.2 = .ok seq) ↔
      ∀ current, rows[entry.1.idHash]? = some current → current.seq ≤ entry.1.baseSeq := by
  induction items generalizing latest with
  | nil => simp [plan]
  | cons item rest ih =>
    unfold plan
    cases found : rows[item.idHash]? with
    | none =>
      simp only [List.mem_cons, forall_eq_or_imp]
      exact ⟨by simp [found], ih⟩
    | some current =>
      simp only
      split
      · rename_i older
        simp only [List.mem_cons, forall_eq_or_imp]
        exact ⟨by simp [found, older], ih⟩
      · rename_i fits
        simp only [List.mem_cons, forall_eq_or_imp]
        exact ⟨by simp [found, not_lt.mp fits], ih⟩

end Chain

/-! ## One request -/

namespace ChainObject

/-- Everything a request can do to the stored chain. -/
inductive Outcome (store : ChainStore) : Request → Reply → ChainStore → Prop where
  | kept {request : Request} {reply : Reply} (old : reply.status ≠ 201)
      (refused : ∀ tokenHash body, request = .push tokenHash body → reply.status ≠ 200) :
      Outcome store request reply store
  | created {tokenHash : String} {reply : Reply} (absent : store = none) :
      Outcome store (.create tokenHash) reply (some (.new tokenHash))
  | pushed {tokenHash : String} {body : List PushItem} {reply : Reply} {chain after : Chain}
      (valid : ValidBody body) (held : store = some chain) (ran : chain.push body = .ok (after, reply.results))
      (accepted : reply.status = 200) : Outcome store (.push tokenHash body) reply (some after)
  | frozen {tokenHash : String} {reply : Reply} {chain : Chain} (held : store = some chain)
      (done : reply.status = 204) : Outcome store (.freeze tokenHash) reply (some chain.freeze)
  | emptied {tokenHash : String} {reply : Reply} {chain : Chain} (held : store = some chain)
      (closed : chain.frozen = true) (done : reply.status = 204) :
      Outcome store (.destroy tokenHash) reply (some { chain with rows := ∅ })
  | wiped {tokenHash : String} {reply : Reply} {chain : Chain} (held : store = some chain)
      (open_ : chain.frozen = false) : Outcome store (.destroy tokenHash) reply none
  | expired {reply : Reply} : Outcome store .alarm reply none

@[simp] theorem counted_store (object : ChainObject) (now : Nat) : (object.counted now).store = object.store := by
  unfold counted
  split <;> rfl

theorem authorized_eq_ok {store : ChainStore} {tokenHash : String} {chain : Chain}
    (known : store.authorized tokenHash = .ok chain) : store = some chain ∧ chain.tokenHash = tokenHash := by
  unfold ChainStore.authorized at known
  split at known
  · cases known
  · split at known
    · rename_i same
      cases known
      exact ⟨rfl, same⟩
    · cases known

/-- A guarded method runs on the chain, or the request is refused. -/
theorem guarded_cases (object : ChainObject) (tokenHash : String) (now : Nat)
    (method : Chain → ChainObject → Reply × ChainObject) :
    (∃ chain, object.store = some chain ∧ chain.tokenHash = tokenHash ∧
        object.guarded tokenHash now method = method chain (object.counted now)) ∨
      ((object.guarded tokenHash now method).1.status = 404 ∨
        (object.guarded tokenHash now method).1.status = 429) ∧
        (object.guarded tokenHash now method).2.store = object.store := by
  unfold guarded
  cases known : object.store.authorized tokenHash with
  | error status => exact .inr ⟨.inl rfl, rfl⟩
  | ok chain =>
    obtain ⟨held, same⟩ := authorized_eq_ok known
    by_cases limited : (object.counted now).rateLimited = true
    · refine .inr ?_
      simp only [limited, if_true]
      exact ⟨.inr rfl, counted_store object now⟩
    · exact .inl ⟨chain, held, same, by simp [limited]⟩

theorem postRecords_cases (object : ChainObject) (tokenHash : String) (body : List PushItem) (now : Nat) :
    (ValidBody body ∧ object.postRecords tokenHash body now = object.push tokenHash body now) ∨
      (object.postRecords tokenHash body now).1.status ∈ [400, 413] ∧
        (object.postRecords tokenHash body now).2 = object := by
  unfold postRecords
  split
  · exact .inr ⟨by simp [Reply.code], rfl⟩
  · rename_i shape
    split
    · exact .inr ⟨by simp [Reply.code], rfl⟩
    · rename_i repeated
      split
      · exact .inr ⟨by simp [Reply.code], rfl⟩
      · simp only [Bool.or_eq_true, not_or, Bool.not_eq_eq_eq_not, Bool.not_true, Bool.not_eq_false,
          List.all_eq_true] at shape
        simp only [Bool.not_eq_eq_eq_not, Bool.not_true, Bool.not_eq_false, decide_eq_true_eq] at repeated
        exact .inl ⟨⟨repeated, fun item member => isPushItem_ascii (shape.2 item member)⟩, rfl⟩

theorem push_outcome (object : ChainObject) (tokenHash : String) (body : List PushItem) (now : Nat)
    (valid : ValidBody body) :
    Outcome object.store (.push tokenHash body) (object.push tokenHash body now).1
      (object.push tokenHash body now).2.store := by
  unfold push
  obtain ⟨chain, held, _, ran⟩ | ⟨status, same⟩ := guarded_cases object tokenHash now _
  · rw [ran]
    split
    · simp only [counted_store]
      exact .kept (by simp [Reply.code]) (by simp [Reply.code])
    · simp only [counted_store]
      exact .kept (by simp [Reply.code]) (by simp [Reply.code])
    · rename_i after results pushed
      exact .pushed valid held pushed rfl
  · rw [same]
    refine .kept ?_ ?_
    · omega
    · intro _ _ _
      omega

theorem step_outcome (object : ChainObject) (request : Request) (now : Nat) :
    Outcome object.store request (object.step request now).1 (object.step request now).2.store := by
  -- a guard that refuses leaves the store as it was
  have refused {request : Request} {reply : Reply} {next : ChainObject}
      (status : reply.status = 404 ∨ reply.status = 429) (same : next.store = object.store) :
      Outcome object.store request reply next.store := by
    rw [same]
    exact .kept (by omega) (by omega)
  cases request with
  | create tokenHash =>
    simp only [step, create]
    cases held : object.store with
    | none =>
      simp only
      split
      · simp only [counted_store, held]
        exact .kept (by simp [Reply.code]) (by simp)
      · exact .created rfl
    | some chain =>
      simp only
      rw [← held]
      obtain ⟨_, _, _, ran⟩ | ⟨status, same⟩ := guarded_cases object tokenHash now _
      · rw [ran]
        simp only [counted_store]
        exact .kept (by simp [Reply.code]) (by simp)
      · exact refused status same
  | pull tokenHash since =>
    simp only [step, pull]
    obtain ⟨_, _, _, ran⟩ | ⟨status, same⟩ := guarded_cases object tokenHash now _
    · rw [ran]
      simp only [counted_store]
      exact .kept (by simp [Reply.code]) (by simp)
    · exact refused status same
  | push tokenHash body =>
    simp only [step]
    obtain ⟨valid, ran⟩ | ⟨status, same⟩ := postRecords_cases object tokenHash body now
    · rw [ran]
      exact push_outcome object tokenHash body now valid
    · rw [same]
      simp only [List.mem_cons, List.not_mem_nil, or_false] at status
      refine .kept (by omega) ?_
      intro _ _ _
      omega
  | freeze tokenHash =>
    simp only [step, freeze]
    obtain ⟨chain, held, _, ran⟩ | ⟨status, same⟩ := guarded_cases object tokenHash now _
    · rw [ran]
      exact .frozen held rfl
    · exact refused status same
  | destroy tokenHash =>
    simp only [step, destroy]
    obtain ⟨chain, held, _, ran⟩ | ⟨status, same⟩ := guarded_cases object tokenHash now _
    · rw [ran]
      simp only
      split
      · rename_i closed
        exact .emptied held closed rfl
      · rename_i open_
        exact .wiped held (by simpa using open_)
    · exact refused status same
  | alarm => exact .expired
  | restart => exact .kept (by simp [step, Reply.code]) (by simp)

/-! ## Runs -/

@[simp] theorem run_nil (object : ChainObject) : object.run [] = object := rfl

theorem run_append (object : ChainObject) (first second : List (Request × Nat)) :
    object.run (first ++ second) = (object.run first).run second := List.foldl_append

theorem run_concat (object : ChainObject) (requests : List (Request × Nat)) (request : Request × Nat) :
    object.run (requests ++ [request]) = ((object.run requests).step request.1 request.2).2 := by
  rw [run_append]
  rfl

/-- The chain of the object, if there is one, is sound. -/
def Sound (object : ChainObject) : Prop := ∀ chain, object.store = some chain → chain.Sound

theorem Sound.step {object : ChainObject} (sound : object.Sound) (request : Request) (now : Nat) :
    (object.step request now).2.Sound := by
  intro next stored
  have outcome := step_outcome object request now
  generalize before : object.store = store at outcome
  rw [stored] at outcome
  generalize object.step request now = answer at outcome
  cases outcome with
  | kept old refused => exact sound next before
  | created absent => exact Chain.sound_of_empty rfl
  | pushed valid held ran accepted => exact (sound _ (before.trans held)).push valid ran
  | frozen held done =>
    obtain ⟨range, distinct, ascii, bytes, count⟩ := sound _ (before.trans held)
    exact ⟨range, distinct, ascii, bytes, count⟩
  | emptied held closed done => exact Chain.sound_of_empty rfl

theorem run_sound (requests : List (Request × Nat)) : (fresh.run requests).Sound := by
  induction requests using List.reverseRecOn with
  | nil =>
    intro chain stored
    cases stored
  | append_singleton requests request ih =>
    rw [run_concat]
    exact ih.step request.1 request.2

/-- The chain is there after every part of the run. -/
def Unwiped (object : ChainObject) (requests : List (Request × Nat)) : Prop :=
  ∀ done rest, requests = done ++ rest → (object.run done).store ≠ none

theorem latestSeq_le_step {object : ChainObject} {request : Request} {now : Nat} {chain next : Chain}
    (stored : object.store = some chain) (after : (object.step request now).2.store = some next) :
    chain.latestSeq ≤ next.latestSeq := by
  have outcome := step_outcome object request now
  rw [after, stored] at outcome
  generalize object.step request now = answer at outcome
  cases outcome with
  | kept old refused => exact le_refl _
  | created absent => cases absent
  | pushed valid held ran accepted =>
    cases held
    obtain ⟨_, facts⟩ := Chain.push_pushed valid.distinct ran
    exact facts.grows
  | frozen held done =>
    cases held
    exact le_refl _
  | emptied held closed done =>
    cases held
    exact le_refl _

theorem latestSeq_le_run {object : ChainObject} {requests : List (Request × Nat)} {chain next : Chain}
    (stored : object.store = some chain) (unwiped : object.Unwiped requests)
    (after : (object.run requests).store = some next) : chain.latestSeq ≤ next.latestSeq := by
  induction requests using List.reverseRecOn generalizing next with
  | nil =>
    rw [run_nil, stored] at after
    cases after
    exact le_refl _
  | append_singleton requests request ih =>
    obtain ⟨middle, held⟩ := Option.ne_none_iff_exists'.mp (unwiped requests [request] rfl)
    have earlier : chain.latestSeq ≤ middle.latestSeq := by
      refine ih (fun done rest split => ?_) held
      exact unwiped done (rest ++ [request]) (by rw [split, List.append_assoc])
    rw [run_concat] at after
    exact earlier.trans (latestSeq_le_step held after)

end ChainObject

/-! ## The answer to a push -/

/-- A body that the worker forwards: some well-formed items with an identity each. -/
structure Forwarded (body : List PushItem) : Prop where
  some_ : body ≠ []
  few : body.length ≤ MAX_ITEMS_PER_PUSH
  wellFormed : ∀ item ∈ body, isPushItem item = true
  distinct : (body.map (·.idHash)).Nodup

/-- Every record of the body is of a size the relay takes. -/
def RecordsFit (body : List PushItem) : Prop := ∀ item ∈ body, jsLength item.ciphertext ≤ MAX_RECORD_BYTES

/-- The use after the push would pass a limit of the chain. -/
def Overfills (chain : Chain) (body : List PushItem) : Prop :=
  (MAX_CHAIN_BYTES : Int) < (computedUsage chain.rows (Chain.plan chain.rows chain.latestSeq body).1).1 ∨
    MAX_CHAIN_RECORDS < (computedUsage chain.rows (Chain.plan chain.rows chain.latestSeq body).1).2

/-- The push knows the token of the chain. -/
def Knows (object : ChainObject) (tokenHash : String) (chain : Chain) : Prop :=
  object.store = some chain ∧ chain.tokenHash = tokenHash

/-- The status of a push, for every kind of refusal. -/
structure PushAnswered (object : ChainObject) (tokenHash : String) (body : List PushItem) (now status : Nat) :
    Prop where
  malformed : status = 400 ↔ ¬ Forwarded body
  unknown : status = 404 ↔ Forwarded body ∧ RecordsFit body ∧ ∀ chain, ¬ Knows object tokenHash chain
  limited : status = 429 ↔ Forwarded body ∧ RecordsFit body ∧ (object.counted now).rateLimited = true ∧
    ∃ chain, Knows object tokenHash chain
  frozen : status = 409 ↔ Forwarded body ∧ RecordsFit body ∧ (object.counted now).rateLimited = false ∧
    ∃ chain, Knows object tokenHash chain ∧ chain.frozen = true
  large : status = 413 ↔ Forwarded body ∧ (¬ RecordsFit body ∨ (object.counted now).rateLimited = false ∧
    ∃ chain, Knows object tokenHash chain ∧ chain.frozen = false ∧ Overfills chain body)
  taken : status = 200 ↔ Forwarded body ∧ RecordsFit body ∧ (object.counted now).rateLimited = false ∧
    ∃ chain, Knows object tokenHash chain ∧ chain.frozen = false ∧ ¬ Overfills chain body

namespace Chain

theorem push_status {chain : Chain} {body : List PushItem} (valid : ValidBody body) (sound : chain.Sound) :
    (chain.frozen = true ∧ chain.push body = .error .Frozen) ∨
      (chain.frozen = false ∧ Overfills chain body ∧ chain.push body = .error .TooLarge) ∨
      (chain.frozen = false ∧ ¬ Overfills chain body ∧ ∃ after, chain.push body = .ok after) := by
  have planned := plan_planned chain.rows chain.latestSeq body
  have texts : ∀ entry ∈ (plan chain.rows chain.latestSeq body).1, IsAscii entry.1.ciphertext ∧ IsAscii entry.1.nonce := by
    intro entry member
    apply valid.ascii
    rw [← planned.inOrder]
    exact List.mem_map_of_mem member
  rw [Overfills, computedUsage_eq sound.ascii texts, push]
  cases closed : chain.frozen with
  | true => exact .inl ⟨rfl, rfl⟩
  | false =>
    simp only [Bool.false_eq_true, if_false, Bool.or_eq_true, decide_eq_true_eq]
    split
    · next large => exact .inr (.inl ⟨trivial, large, rfl⟩)
    · next fits => exact .inr (.inr ⟨trivial, fits, _, rfl⟩)

end Chain

/-- What a push that is taken leaves: the accepted items under new numbers, every other row as it was. -/
structure Stores (before after : Chain) (body : List PushItem) (results : List PushResult) : Prop where
  accepted : ∀ item seq, (item, .ok seq) ∈ body.zip results → before.latestSeq < seq ∧ seq ≤ after.latestSeq ∧
    after.rows[item.idHash]? = some (item.envelope seq)
  others : ∀ hash : String, (∀ item seq, (item, .ok seq) ∈ body.zip results → item.idHash ≠ hash) →
    after.rows[hash]? = before.rows[hash]?

namespace Chain

/-- The results stand beside the items they answer. -/
theorem zip_results {before after : Chain} {items : List PushItem} {results : List PushResult}
    (ran : before.push items = .ok (after, results)) :
    items.zip results = (plan before.rows before.latestSeq items).1 := by
  have inOrder := (plan_planned before.rows before.latestSeq items).inOrder
  rw [(push_cases ran).2.1]
  nth_rewrite 1 [← inOrder]
  rw [List.zip_map', List.map_id']

theorem push_stores {before after : Chain} {items : List PushItem} {results : List PushResult}
    (distinct : (items.map (·.idHash)).Nodup) (ran : before.push items = .ok (after, results)) :
    Stores before after items results := by
  obtain ⟨taken, pushed⟩ := push_pushed distinct ran
  refine ⟨fun item seq member => ?_, fun hash apart => ?_⟩
  · have among := pushed.answered item seq member
    exact ⟨(pushed.range _ among).1, (pushed.range _ among).2, pushed.written _ among⟩
  · rw [(push_cases ran).1]
    refine writes_untouched fun entry member => ?_
    obtain ⟨⟨item, result⟩, inPlan, made⟩ := List.mem_filterMap.mp member
    cases result with
    | conflict current => cases made
    | ok seq =>
      cases made
      rw [← zip_results ran] at inPlan
      exact apart item seq inPlan

end Chain

namespace ChainObject

theorem postRecords_answered {object : ChainObject} (sound : object.Sound) (tokenHash : String)
    (body : List PushItem) (now : Nat) :
    PushAnswered object tokenHash body now (object.postRecords tokenHash body now).1.status := by
  -- a body the worker does not forward is answered before the object looks at anything
  by_cases forwarded : Forwarded body
  · have shape : (body.isEmpty || decide (MAX_ITEMS_PER_PUSH < body.length) || !body.all isPushItem) = false := by
      simpa [forwarded.some_, forwarded.few] using forwarded.wellFormed
    have apart : (!decide (body.map (·.idHash)).Nodup) = false := by simp [forwarded.distinct]
    have valid : ValidBody body := ⟨forwarded.distinct, fun item member => isPushItem_ascii (forwarded.wellFormed item member)⟩
    rw [postRecords, shape, apart]
    simp only [Bool.false_eq_true, if_false]
    by_cases fit : RecordsFit body
    · have small : (body.any fun item => decide (MAX_RECORD_BYTES < jsLength item.ciphertext)) = false := by
        simpa [RecordsFit] using fit
      rw [small, if_neg Bool.false_ne_true, push, guarded]
      cases known : object.store.authorized tokenHash with
      | error status =>
        have unknown (chain : Chain) : ¬ Knows object tokenHash chain := by
          rintro ⟨held, rfl⟩
          rw [held] at known
          simp [ChainStore.authorized] at known
        constructor <;> simp [Reply.code, forwarded, fit, unknown]
      | ok chain =>
        obtain ⟨held, same⟩ := authorized_eq_ok known
        -- from here on the chain is the one the token knows
        have only (other : Chain) : Knows object tokenHash other ↔ other = chain := by
          constructor
          · rintro ⟨held', _⟩
            exact Option.some.inj (held'.symm.trans held)
          · rintro rfl
            exact ⟨held, same⟩
        cases limited : (object.counted now).rateLimited with
        | true => constructor <;> simp [Reply.code, forwarded, fit, limited, only]
        | false =>
          simp only [Bool.false_eq_true, if_false]
          obtain ⟨closed, ran⟩ | ⟨open_, large, ran⟩ | ⟨open_, fits, after, ran⟩ :=
            Chain.push_status valid (sound chain held)
          · rw [ran]
            constructor <;> simp [Reply.code, forwarded, fit, limited, only, closed]
          · rw [ran]
            constructor <;> simp [Reply.code, forwarded, fit, limited, only, open_, large]
          · rw [ran]
            constructor <;> simp [Reply.code, forwarded, fit, limited, only, open_, fits]
    · have large : (body.any fun item => decide (MAX_RECORD_BYTES < jsLength item.ciphertext)) = true := by
        simpa [RecordsFit] using fit
      rw [large, if_pos rfl]
      constructor <;> simp [Reply.code, forwarded, fit]
  · have status : (object.postRecords tokenHash body now).1.status = 400 := by
      unfold postRecords
      split
      · rfl
      · next shape =>
        split
        · rfl
        · next distinct =>
          simp only [Bool.or_eq_true, List.isEmpty_iff, decide_eq_true_eq, Bool.not_eq_true', not_or, Bool.not_eq_false,
            List.all_eq_true, Nat.not_lt] at shape
          simp only [Bool.not_eq_true', decide_eq_false_iff_not, not_not] at distinct
          exact absurd ⟨shape.1.1, shape.1.2, shape.2, distinct⟩ forwarded
    rw [status]
    constructor <;> simp [forwarded]

end ChainObject

/-- Whatever requests a chain has had: its rows are numbered apart from 1 to the latest sequence
number, which falls only when the chain is wiped; a push keeps the limits, leaves the use it
worked out, and takes an item exactly when no newer row stands against it, and the items it takes
are stored; a push is refused for one of five reasons, and then changes nothing. -/
theorem relay_chain_sound (requests : List (ChainObject.Request × Nat)) :
    (∀ chain, (ChainObject.fresh.run requests).store = some chain → chain.Sound) ∧
    (∀ more chain next, (ChainObject.fresh.run requests).store = some chain →
      (ChainObject.fresh.run requests).Unwiped more →
      (ChainObject.fresh.run (requests ++ more)).store = some next → chain.latestSeq ≤ next.latestSeq) ∧
    ∀ tokenHash body now reply after,
      (ChainObject.fresh.run requests).step (.push tokenHash body) now = (reply, after) →
      PushAnswered (ChainObject.fresh.run requests) tokenHash body now reply.status ∧
      (reply.status ≠ 200 → after.store = (ChainObject.fresh.run requests).store) ∧
      (reply.status = 200 → ∃ chain next, (ChainObject.fresh.run requests).store = some chain ∧
        after.store = some next ∧
        usage next.rows = computedUsage chain.rows (Chain.plan chain.rows chain.latestSeq body).1 ∧
        reply.results.length = body.length ∧ Stores chain next body reply.results ∧
        ∀ item result, (item, result) ∈ body.zip reply.results → ((∃ seq, result = .ok seq) ↔
          ∀ current, chain.rows[item.idHash]? = some current → current.seq ≤ item.baseSeq)) := by
  refine ⟨ChainObject.run_sound requests, fun more chain next stored unwiped after => ?_, ?_⟩
  · rw [ChainObject.run_append] at after
    exact ChainObject.latestSeq_le_run stored unwiped after
  · intro tokenHash body now reply after answered
    have status := ChainObject.postRecords_answered (ChainObject.run_sound requests) tokenHash body now
    have posted : (ChainObject.fresh.run requests).postRecords tokenHash body now = (reply, after) := answered
    rw [posted] at status
    have outcome := ChainObject.step_outcome (ChainObject.fresh.run requests) (.push tokenHash body) now
    rw [answered] at outcome
    generalize stored : after.store = store at outcome
    cases outcome with
    | kept old refused =>
      exact ⟨status, fun _ => rfl, fun accepted => (refused tokenHash body rfl accepted).elim⟩
    | pushed valid held ran accepted =>
      rename_i chain next
      refine ⟨status, fun refused => (refused accepted).elim, fun _ => ⟨chain, next, held, rfl, ?_, ?_, ?_, ?_⟩⟩
      · exact (Chain.push_usage valid (ChainObject.run_sound requests chain held) ran).2.1
      · obtain ⟨_, facts⟩ := Chain.push_pushed valid.distinct ran
        exact facts.length
      · exact Chain.push_stores valid.distinct ran
      · intro item result member
        rw [Chain.zip_results ran] at member
        exact Chain.plan_accepts (item, result) member

/-! ## After a freeze -/

namespace ChainObject

/-- What a request can do to a frozen chain. -/
theorem step_frozen {object : ChainObject} {chain : Chain} {request : Request} {now : Nat}
    (stored : object.store = some chain) (closed : chain.frozen = true) (idle : request ≠ .alarm) :
    (object.step request now).1.status ≠ 201 ∧
      ((object.step request now).2.store = some chain ∨
        (∃ tokenHash, request = .destroy tokenHash) ∧
          (object.step request now).2.store = some { chain with rows := ∅ }) := by
  have outcome := step_outcome object request now
  rw [stored] at outcome
  generalize object.step request now = answer at outcome
  generalize after : answer.2.store = store at outcome
  cases outcome with
  | kept old refused => exact ⟨old, .inl rfl⟩
  | created absent => cases absent
  | pushed valid held ran accepted =>
    cases held
    simp [Chain.push, closed] at ran
  | frozen held done =>
    cases held
    refine ⟨by omega, .inl ?_⟩
    rw [Chain.freeze, ← closed]
  | emptied held closed done =>
    cases held
    exact ⟨by omega, .inr ⟨⟨_, rfl⟩, rfl⟩⟩
  | wiped held open_ =>
    cases held
    rw [closed] at open_
    cases open_
  | expired => exact (idle rfl).elim

theorem run_frozen {object : ChainObject} {chain : Chain} {requests : List (Request × Nat)}
    (stored : object.store = some chain) (closed : chain.frozen = true)
    (idle : ∀ request ∈ requests, request.1 ≠ .alarm) :
    ∃ after, (object.run requests).store = some after ∧ after.frozen = true ∧
      after.latestSeq = chain.latestSeq ∧ after.tokenHash = chain.tokenHash := by
  induction requests using List.reverseRecOn with
  | nil => exact ⟨chain, stored, closed, rfl, rfl⟩
  | append_singleton requests request ih =>
    simp only [List.mem_append, List.mem_singleton] at idle
    obtain ⟨middle, held, shut, seq, token⟩ := ih fun request member => idle request (.inl member)
    rw [run_concat]
    obtain ⟨_, same | ⟨_, emptied⟩⟩ := step_frozen held shut (idle request (.inr rfl))
    · exact ⟨middle, same, shut, seq, token⟩
    · exact ⟨_, emptied, shut, seq, token⟩

end ChainObject

/-- After a freeze and before the idle alarm, no request writes a row, moves the sequence number,
changes the token or creates the chain anew; a delete at most removes rows. -/
theorem frozen_chain_closed (object : ChainObject) (tokenHash : String) (now : Nat)
    (requests : List (ChainObject.Request × Nat)) (answered : (object.freeze tokenHash now).1.status = 204)
    (idle : ∀ request ∈ requests, request.1 ≠ .alarm) :
    ∃ chain after, (object.freeze tokenHash now).2.store = some chain ∧
      ((object.freeze tokenHash now).2.run requests).store = some after ∧
      after.latestSeq = chain.latestSeq ∧ after.tokenHash = chain.tokenHash ∧
      ∀ request later reply final, request ≠ .alarm →
        ((object.freeze tokenHash now).2.run requests).step request later = (reply, final) →
        reply.status ≠ 201 ∧ ((∀ tokenHash, request ≠ .destroy tokenHash) → final.store = some after) ∧
        ∃ next, final.store = some next ∧
          ∀ (hash : String) row, next.rows[hash]? = some row → after.rows[hash]? = some row := by
  have frozen : ∃ chain, (object.freeze tokenHash now).2.store = some chain ∧ chain.frozen = true := by
    unfold ChainObject.freeze at answered ⊢
    obtain ⟨chain, _, _, ran⟩ | ⟨status, _⟩ := ChainObject.guarded_cases object tokenHash now _
    · rw [ran]
      exact ⟨_, rfl, rfl⟩
    · omega
  obtain ⟨chain, stored, closed⟩ := frozen
  obtain ⟨after, held, shut, seq, token⟩ := ChainObject.run_frozen stored closed idle
  refine ⟨chain, after, stored, held, seq, token, ?_⟩
  intro request later reply final waits answer
  have effect : (((object.freeze tokenHash now).2.run requests).step request later).1.status ≠ 201 ∧ _ :=
    ChainObject.step_frozen held shut waits
  rw [answer] at effect
  obtain ⟨old, effect⟩ := effect
  obtain same | ⟨⟨token, rfl⟩, emptied⟩ := effect
  · exact ⟨old, fun _ => same, after, same, fun _ _ found => found⟩
  · refine ⟨old, fun other => (other token rfl).elim, _, emptied, fun hash row found => ?_⟩
    simp at found

namespace Sample

/-- A chain that holds one row. -/
def storedChain : Chain :=
  { Chain.new "t" with
    latestSeq := 1
    rows := (∅ : BTreeMap Envelope).insert "aa"
      { idHash := "aa", kind := "host", seq := 1, nonce := "bm9u", ciphertext := "Y2lw", deleted := false } }

def storedObject : ChainObject := { ChainObject.fresh with store := some storedChain }

/-- Everything a client can try on a frozen chain. -/
def reopening : List (ChainObject.Request × Nat) :=
  [(.create "t", 1), (.destroy "t", 2), (.create "t", 3), (.push "t" [], 4), (.create "u", 5)]

end Sample

theorem frozen_chain_stays_closed :
    ∃ chain after, (Sample.storedObject.freeze "t" 0).2.store = some chain ∧
      ((Sample.storedObject.freeze "t" 0).2.run Sample.reopening).store = some after ∧
      after.latestSeq = chain.latestSeq ∧ after.tokenHash = chain.tokenHash ∧
      ∀ request later reply final, request ≠ .alarm →
        ((Sample.storedObject.freeze "t" 0).2.run Sample.reopening).step request later = (reply, final) →
        reply.status ≠ 201 ∧ ((∀ tokenHash, request ≠ .destroy tokenHash) → final.store = some after) ∧
        ∃ next, final.store = some next ∧
          ∀ (hash : String) row, next.rows[hash]? = some row → after.rows[hash]? = some row := by
  have answered : (Sample.storedObject.freeze "t" 0).1.status = 204 := by decide +kernel
  have idle : ∀ request ∈ Sample.reopening, request.1 ≠ .alarm := by decide
  exact frozen_chain_closed Sample.storedObject "t" 0 Sample.reopening answered idle

end Sshelter.Relay
