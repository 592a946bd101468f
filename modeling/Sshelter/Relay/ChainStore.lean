import Sshelter.Verified.Opening

/-! # The relay's chain store

`relay/src/index.ts`: one durable object per chain.  Every method runs to its end
before the next one starts, so a method is a function on the stored chain.  A chain
that was never created is `none`.  Rate limits are not modelled: a request answered
with 429 leaves the store as it is, like a request that never arrived.
-/

namespace Sshelter.Relay

open Sync (Envelope PushItem PullResponse)

def MAX_CHAIN_BYTES : Nat := 1048576
def MAX_CHAIN_RECORDS : Nat := 4096

inductive Status where
  | NotFound
  | Frozen
  | TooLarge
deriving DecidableEq, Repr

inductive PushResult where
  | ok (seq : Nat)
  | conflict (current : Envelope)
deriving DecidableEq, Repr

/-- A created chain: its `meta` table and its rows by `id_hash`. -/
structure Chain where
  tokenHash : String
  latestSeq : Nat
  frozen : Bool
  rows : BTreeMap Envelope
deriving DecidableEq

namespace Chain

def new (tokenHash : String) : Chain := { tokenHash, latestSeq := 0, frozen := false, rows := ∅ }

def pull (chain : Chain) (since : Nat) : PullResponse :=
  { records := (chain.rows.values.filter fun row => decide (since < row.seq)).mergeSort
      fun a b => decide (a.seq ≤ b.seq)
    latestSeq := chain.latestSeq }

/-- Which items are accepted, judged by the rows before the push; `latest` counts on. -/
def plan (rows : BTreeMap Envelope) : Nat → List PushItem → List (PushItem × PushResult) × Nat
  | latest, [] => ([], latest)
  | latest, item :: rest =>
    let accept :=
      let (planned, final) := plan rows (latest + 1) rest
      ((item, .ok (latest + 1)) :: planned, final)
    match rows[item.idHash]? with
    | none => accept
    | some current =>
      if item.baseSeq < current.seq then
        let (planned, final) := plan rows latest rest
        ((item, .conflict current) :: planned, final)
      else accept

/-- The stored size of a row. -/
def rowBytes (nonce ciphertext : String) : Int := ciphertext.length + nonce.length

/-- The use of the chain after the accepted items: a replaced row is taken off first. -/
def usageAfter (rows : BTreeMap Envelope) (planned : List (PushItem × PushResult)) : Int × Nat :=
  let usage : Int × Nat :=
    ((rows.values.map fun row => rowBytes row.nonce row.ciphertext).sum, rows.values.length)
  planned.foldl
    (fun (bytes, count) (item, result) =>
      match result with
      | .conflict _ => (bytes, count)
      | .ok _ =>
        let added := rowBytes item.nonce item.ciphertext
        match rows[item.idHash]? with
        | some previous => (bytes - rowBytes previous.nonce previous.ciphertext + added, count)
        | none => (bytes + added, count + 1))
    usage

def write (rows : BTreeMap Envelope) (entry : PushItem × PushResult) : BTreeMap Envelope :=
  match entry.2 with
  | .conflict _ => rows
  | .ok seq => rows.insert entry.1.idHash (entry.1.envelope seq)

def push (chain : Chain) (items : List PushItem) : Except Status (Chain × List PushResult) :=
  if chain.frozen then .error .Frozen
  else
    let (planned, latest) := plan chain.rows chain.latestSeq items
    let (bytes, count) := usageAfter chain.rows planned
    if decide ((MAX_CHAIN_BYTES : Int) < bytes) || decide (MAX_CHAIN_RECORDS < count) then
      .error .TooLarge
    else
      .ok ({ chain with latestSeq := latest, rows := planned.foldl write chain.rows },
        planned.map (·.2))

def freeze (chain : Chain) : Chain := { chain with frozen := true }

end Chain

/-- The store of one chain id. -/
abbrev ChainStore := Option Chain

namespace ChainStore

/-- The chain, for a request that knows its token. -/
def authorized (store : ChainStore) (tokenHash : String) : Except Status Chain :=
  match store with
  | none => .error .NotFound
  | some chain => if chain.tokenHash = tokenHash then .ok chain else .error .NotFound

def create (store : ChainStore) (tokenHash : String) : Except Status ChainStore :=
  match store with
  | none => .ok (some (.new tokenHash))
  | some chain => if chain.tokenHash = tokenHash then .ok store else .error .NotFound

def pull (store : ChainStore) (tokenHash : String) (since : Nat) : Except Status PullResponse := do
  return (← store.authorized tokenHash).pull since

def push (store : ChainStore) (tokenHash : String) (items : List PushItem) :
    Except Status (ChainStore × List PushResult) := do
  let (chain, results) ← (← store.authorized tokenHash).push items
  return (some chain, results)

def freeze (store : ChainStore) (tokenHash : String) : Except Status ChainStore := do
  return some (← store.authorized tokenHash).freeze

/-- A frozen chain only loses its rows: it stays frozen. -/
def destroy (store : ChainStore) (tokenHash : String) : Except Status ChainStore := do
  let chain ← store.authorized tokenHash
  return if chain.frozen then some { chain with rows := ∅ } else none

end ChainStore

/-! ## What a pull returns -/

namespace Chain

theorem mem_pull {chain : Chain} {since : Nat} {row : Envelope} :
    row ∈ (chain.pull since).records ↔
      since < row.seq ∧ ∃ hash : String, chain.rows[hash]? = some row := by
  simp only [pull, List.mem_mergeSort, List.mem_filter, decide_eq_true_eq, BTreeMap.mem_values]
  exact and_comm

/-! ## What a push does -/

/-- The items a plan accepts, with the numbers they get. -/
def accepted (planned : List (PushItem × PushResult)) : List (PushItem × Nat) :=
  planned.filterMap fun (item, result) =>
    match result with
    | .ok seq => some (item, seq)
    | .conflict _ => none

@[simp] theorem accepted_nil : accepted [] = [] := rfl

@[simp] theorem accepted_ok (item : PushItem) (seq : Nat) (rest : List (PushItem × PushResult)) :
    accepted ((item, .ok seq) :: rest) = (item, seq) :: accepted rest := rfl

@[simp] theorem accepted_conflict (item : PushItem) (current : Envelope)
    (rest : List (PushItem × PushResult)) :
    accepted ((item, .conflict current) :: rest) = accepted rest := rfl

/-- What is known of a plan: the items are kept in order, accepted ones are numbered on from
the latest sequence number, and no newer row stood against them. -/
structure Planned (rows : BTreeMap Envelope) (latest : Nat) (items : List PushItem)
    (planned : List (PushItem × PushResult)) (final : Nat) : Prop where
  inOrder : planned.map (·.1) = items
  grows : latest ≤ final
  range : ∀ entry ∈ accepted planned, latest < entry.2 ∧ entry.2 ≤ final
  unopposed : ∀ entry ∈ accepted planned, ∀ current, rows[entry.1.idHash]? = some current →
    current.seq ≤ entry.1.baseSeq
  distinct : ((accepted planned).map (·.2)).Nodup

theorem plan_planned (rows : BTreeMap Envelope) (latest : Nat) (items : List PushItem) :
    Planned rows latest items (plan rows latest items).1 (plan rows latest items).2 := by
  induction items generalizing latest with
  | nil => exact ⟨rfl, le_refl _, by simp [plan], by simp [plan], by simp [plan]⟩
  | cons item rest ih =>
    -- an accepted item takes the next number, and the later ones are numbered above it
    have accept : (∀ current, rows[item.idHash]? = some current → current.seq ≤ item.baseSeq) →
        Planned rows latest (item :: rest)
          ((item, .ok (latest + 1)) :: (plan rows (latest + 1) rest).1) (plan rows (latest + 1) rest).2 := by
      intro free
      have later := ih (latest + 1)
      refine ⟨by rw [List.map_cons, later.inOrder], by have := later.grows; omega, ?_, ?_, ?_⟩
      · intro entry member
        rw [accepted_ok] at member
        rcases List.mem_cons.mp member with rfl | member
        · exact ⟨Nat.lt_succ_self _, later.grows⟩
        · have := later.range entry member
          omega
      · intro entry member
        rw [accepted_ok] at member
        rcases List.mem_cons.mp member with rfl | member
        · exact free
        · exact later.unopposed entry member
      · rw [accepted_ok, List.map_cons, List.nodup_cons]
        refine ⟨?_, later.distinct⟩
        intro member
        obtain ⟨entry, among, same⟩ := List.mem_map.mp member
        have := later.range entry among
        omega
    unfold plan
    cases current : rows[item.idHash]? with
    | none => exact accept (by simp [current])
    | some row =>
      simp only
      split
      · have later := ih latest
        exact ⟨by rw [List.map_cons, later.inOrder], later.grows, later.range, later.unopposed, later.distinct⟩
      · rename_i free
        refine accept ?_
        intro other found
        rw [current] at found
        cases found
        omega

theorem writes_untouched {planned : List (PushItem × PushResult)} {rows : BTreeMap Envelope}
    {hash : String} (apart : ∀ entry ∈ accepted planned, entry.1.idHash ≠ hash) :
    (planned.foldl write rows)[hash]? = rows[hash]? := by
  induction planned generalizing rows with
  | nil => rfl
  | cons entry rest ih =>
    obtain ⟨item, result⟩ := entry
    cases result with
    | conflict current => exact ih apart
    | ok seq =>
      rw [accepted_ok] at apart
      simp only [List.mem_cons, forall_eq_or_imp] at apart
      rw [List.foldl_cons, ih apart.2]
      exact BTreeMap.get?_insert_ne _ _ apart.1

theorem writes_written {planned : List (PushItem × PushResult)} {rows : BTreeMap Envelope}
    (distinct : (planned.map (·.1.idHash)).Nodup) :
    ∀ entry ∈ accepted planned,
      (planned.foldl write rows)[entry.1.idHash]? = some (entry.1.envelope entry.2) := by
  induction planned generalizing rows with
  | nil => simp
  | cons entry rest ih =>
    obtain ⟨item, result⟩ := entry
    rw [List.map_cons, List.nodup_cons] at distinct
    cases result with
    | conflict current => exact ih distinct.2
    | ok seq =>
      intro entry member
      rw [accepted_ok] at member
      rcases List.mem_cons.mp member with rfl | member
      · rw [List.foldl_cons, writes_untouched]
        · exact BTreeMap.get?_insert_self _ _ _
        · intro other among same
          obtain ⟨pair, inRest, made⟩ := List.mem_filterMap.mp among
          obtain ⟨item', result'⟩ := pair
          cases result' with
          | conflict current => cases made
          | ok seq' =>
            cases made
            exact distinct.1 (List.mem_map.mpr ⟨_, inRest, same⟩)
      · exact ih distinct.2 entry member

/-- A push of distinct records that goes through. -/
structure Pushed (before : Chain) (items : List PushItem) (after : Chain) (results : List PushResult)
    (accepted : List (PushItem × Nat)) : Prop where
  unfrozen : before.frozen = false
  identity : after.tokenHash = before.tokenHash ∧ after.frozen = before.frozen
  grows : before.latestSeq ≤ after.latestSeq
  range : ∀ entry ∈ accepted, before.latestSeq < entry.2 ∧ entry.2 ≤ after.latestSeq
  offered : ∀ entry ∈ accepted, entry.1 ∈ items
  unopposed : ∀ entry ∈ accepted, ∀ current, before.rows[entry.1.idHash]? = some current →
    current.seq ≤ entry.1.baseSeq
  distinct : (accepted.map (·.2)).Nodup
  written : ∀ entry ∈ accepted, after.rows[entry.1.idHash]? = some (entry.1.envelope entry.2)
  untouched : ∀ hash : String, (∀ entry ∈ accepted, entry.1.idHash ≠ hash) →
    after.rows[hash]? = before.rows[hash]?
  answered : ∀ item seq, (item, PushResult.ok seq) ∈ items.zip results → (item, seq) ∈ accepted
  length : results.length = items.length

theorem push_pushed {before after : Chain} {items : List PushItem} {results : List PushResult}
    (distinct : (items.map (·.idHash)).Nodup) (pushed : before.push items = .ok (after, results)) :
    ∃ accepted, Pushed before items after results accepted := by
  unfold push at pushed
  split at pushed
  · cases pushed
  · rename_i open_
    simp only at pushed
    split at pushed
    · cases pushed
    · cases pushed
      have planned := plan_planned before.rows before.latestSeq items
      have hashes : ((plan before.rows before.latestSeq items).1.map (·.1.idHash)).Nodup := by
        have same : (plan before.rows before.latestSeq items).1.map (·.1.idHash) =
            ((plan before.rows before.latestSeq items).1.map (·.1)).map (·.idHash) := by
          rw [List.map_map]
          rfl
        rw [same, planned.inOrder]
        exact distinct
      -- what the plan accepted is what is written and what is answered
      refine ⟨accepted (plan before.rows before.latestSeq items).1,
        { unfrozen := by simpa using open_, identity := ⟨rfl, rfl⟩, grows := planned.grows
          range := planned.range, offered := ?_, unopposed := planned.unopposed
          distinct := planned.distinct, written := writes_written hashes
          untouched := fun hash apart => writes_untouched apart, answered := ?_, length := ?_ }⟩
      · intro entry member
        obtain ⟨⟨item, result⟩, inPlan, made⟩ := List.mem_filterMap.mp member
        cases result with
        | conflict current => cases made
        | ok seq =>
          cases made
          rw [← planned.inOrder]
          exact List.mem_map_of_mem inPlan
      · intro item seq member
        have zipped : ∀ planned : List (PushItem × PushResult),
            (planned.map (·.1)).zip (planned.map (·.2)) = planned := by
          intro planned
          rw [List.zip_map', List.map_id']
        have zipped := zipped (plan before.rows before.latestSeq items).1
        rw [planned.inOrder] at zipped
        rw [zipped] at member
        exact List.mem_filterMap.mpr ⟨_, member, rfl⟩
      · rw [List.length_map, ← List.length_map (f := fun entry : PushItem × PushResult => entry.1),
          planned.inOrder]

end Chain

end Sshelter.Relay
