import Sshelter.Lib.Trace
import Sshelter.Sync.Round

/-! # Every target of a round is accounted for

The invariant of both loops of `pull_all` is `Accounts`: the queue is part of the targets,
a queued chain has no entry yet, and every other target has exactly one entry, which is
either `Missed` or the answer the relay gave for that item.  A second invariant follows the
`429`s: as long as the round is not limited, no request in the log was rate limited.
-/

namespace Sshelter.Sync

open RelayClient

/-! ## What the relay answered -/

def RelayClient.WireBatchEntry.limited : WireBatchEntry → Bool
  | .RateLimited _ => true
  | _ => false

/-- The relay rate limited this request: the whole of it, or one item of a batch. -/
def RelayClient.Sent.limited : Sent → Bool
  | .pull _ (.answer code _) => code == 429
  | .pullBatch _ (.answer code body) =>
    code == 429 ||
      match body with
      | .json entries => code == 200 && entries.any WireBatchEntry.limited
      | _ => false
  | _ => false

/-- The relay gave this answer for this very item, chain and cursor: to a request for the
item alone, or at its place of a batch and under its chain. -/
inductive Answered (sent : List Sent) (item : BatchPullItem) : Fetched → Prop
  | pull {response : PullResponse} (member : .pull item (.answer 200 (.json response)) ∈ sent) :
      Answered sent item (.Ok response)
  | pullNotFound {body : Body PullResponse} (member : .pull item (.answer 404 body) ∈ sent) :
      Answered sent item .NotFound
  | batch {items : List BatchPullItem} {entries : List WireBatchEntry} {response : PullResponse}
      (member : .pullBatch items (.answer 200 (.json entries)) ∈ sent)
      (place : (item, .Ok item.chain response.records response.latestSeq) ∈ items.zip entries) :
      Answered sent item (.Ok response)
  | batchNotFound {items : List BatchPullItem} {entries : List WireBatchEntry}
      (member : .pullBatch items (.answer 200 (.json entries)) ∈ sent)
      (place : (item, .NotFound item.chain) ∈ items.zip entries) :
      Answered sent item .NotFound

theorem Answered.mono {sent later : List Sent} {item : BatchPullItem} {fetched : Fetched}
    (answered : Answered sent item fetched) : Answered (sent ++ later) item fetched := by
  cases answered with
  | pull member => exact .pull (List.mem_append_left _ member)
  | pullNotFound member => exact .pullNotFound (List.mem_append_left _ member)
  | batch member place => exact .batch (List.mem_append_left _ member) place
  | batchNotFound member place => exact .batchNotFound (List.mem_append_left _ member) place

/-! ## The client -/

theorem checkedSeqs_eq_ok {response checked : PullResponse} (passed : checkedSeqs response = .ok checked) :
    checked = response := by
  unfold checkedSeqs at passed
  split at passed
  · contradiction
  · exact (Except.ok.inj passed).symm

theorem readPull_eq_ok {reply : Reply PullResponse} {response : PullResponse}
    (read : readPull reply = .ok response) : reply = .answer 200 (.json response) := by
  unfold readPull at read
  split at read
  · contradiction
  case h_2 code body =>
    split at read
    case isFalse => contradiction
    case isTrue ok =>
      subst ok
      obtain ⟨value, parsed, checked⟩ := Result.bind_eq_ok.mp read
      obtain rfl := checkedSeqs_eq_ok checked
      cases body with
      | broken => contradiction
      | unexpected => contradiction
      | json value => rw [Except.ok.inj parsed]

theorem statusError_notFound {code : UInt16} (refused : statusError code = .NotFound) : code = 404 := by
  unfold statusError at refused
  split at refused
  · assumption
  · split at refused
    · contradiction
    · split at refused <;> contradiction

theorem readPull_eq_notFound {reply : Reply PullResponse} (read : readPull reply = .error .NotFound) :
    ∃ body, reply = .answer 404 body := by
  unfold readPull at read
  split at read
  · cases read
  case h_2 code body =>
    split at read
    case isTrue =>
      -- a body that was read fails with another error
      cases body with
      | broken => cases read
      | unexpected => cases read
      | json value =>
        rw [readJson, Result.ok_bind] at read
        unfold checkedSeqs at read
        split at read <;> cases read
    case isFalse => exact ⟨body, by rw [statusError_notFound (Except.error.inj read)]⟩

/-- A rate limited pull is reported as such. -/
theorem readPull_of_limited {item : BatchPullItem} {reply : Reply PullResponse}
    (limited : (Sent.pull item reply).limited = true) : readPull reply = .error .RateLimited := by
  cases reply with
  | unreachable => contradiction
  | answer code body =>
    obtain rfl : code = 429 := by simpa [Sent.limited] using limited
    rfl

/-- A single pull: refused before it is sent, or sent and read. -/
theorem pull_cases (http : Http) (sent : List Sent) (item : BatchPullItem) :
    (∃ message, pull http sent item = (sent, .error (.InvalidRequest message))) ∨
      pull http sent item = (sent ++ [.pull item (http.pull sent item)], readPull (http.pull sent item)) := by
  unfold pull checkChain checkCursor refuse
  by_cases chain : (!(isChainId item.chain && isChainId item.token)) = true
  · exact .inl ⟨_, by simp only [chain, if_true]; rfl⟩
  · by_cases cursor : MAX_SAFE_INTEGER < item.since
    · exact .inl ⟨_, by simp only [chain, cursor, decide_true, if_true, Bool.false_eq_true, if_false]; rfl⟩
    · exact .inr (by simp only [chain, cursor, decide_false, Bool.false_eq_true, if_false])

/-! ### Batches -/

/-- What an entry of an accepted batch was read from. -/
theorem batchEntry_eq_ok {item : BatchPullItem} {wire : WireBatchEntry} {entry : BatchPullEntry}
    (read : batchEntry (item, wire) = .ok entry) :
    wire = match entry.result with
      | .Ok response => .Ok item.chain response.records response.latestSeq
      | .NotFound => .NotFound item.chain
      | .RateLimited => .RateLimited item.chain
      | .Deferred => .Deferred item.chain := by
  cases wire with
  | Ok chain records latestSeq =>
    obtain ⟨response, passed, checked⟩ := Result.bind_eq_ok.mp read
    obtain ⟨same, kept⟩ := Result.refuse_bind_eq_ok.mp checked
    obtain rfl := checkedSeqs_eq_ok passed
    cases kept
    simpa using same
  | NotFound chain =>
    obtain ⟨same, kept⟩ := Result.refuse_bind_eq_ok.mp read
    cases kept
    simpa using same
  | RateLimited chain =>
    obtain ⟨same, kept⟩ := Result.refuse_bind_eq_ok.mp read
    cases kept
    simpa using same
  | Deferred chain =>
    obtain ⟨same, kept⟩ := Result.refuse_bind_eq_ok.mp read
    cases kept
    simpa using same

/-- An answer that does not fit the request is a bad response, whatever is wrong with it. -/
theorem batchEntry_eq_error {item : BatchPullItem} {wire : WireBatchEntry} {error : RelayError}
    (read : batchEntry (item, wire) = .error error) : ∃ message, error = .BadResponse message := by
  have refused {chain : String} {result : BatchPullResult}
      (read : (do
        refuse (chain != item.chain) (RelayError.BadResponse "the batch pull answered chains out of order")
        return { chain, result : BatchPullEntry }) = .error error) : ∃ message, error = .BadResponse message := by
    unfold refuse at read
    split at read
    · exact ⟨_, (Except.error.inj read).symm⟩
    · contradiction
  cases wire with
  | Ok chain records latestSeq =>
    cases passed : checkedSeqs { records, latestSeq } with
    | ok response =>
      simp only [batchEntry, passed, Result.ok_bind] at read
      exact refused read
    | error error' =>
      simp only [batchEntry, passed, Result.error_bind] at read
      unfold checkedSeqs at passed
      split at passed
      · cases passed
        exact ⟨_, (Except.error.inj read).symm⟩
      · contradiction
  | NotFound chain => exact refused read
  | RateLimited chain => exact refused read
  | Deferred chain => exact refused read

theorem batchEntries_eq_error {items : List BatchPullItem} {wires : List WireBatchEntry} {error : RelayError}
    (read : batchEntries items wires = .error error) : ∃ message, error = .BadResponse message := by
  unfold batchEntries at read
  split at read
  · exact ⟨_, (Except.error.inj read).symm⟩
  · obtain ⟨⟨item, wire⟩, _, failed⟩ := Result.mapM_eq_error read
    exact batchEntry_eq_error failed

/-- The entries of an accepted batch stand beside the items and the raw answers they were
read from. -/
structure Matched (items : List BatchPullItem) (wires : List WireBatchEntry)
    (entries : List BatchPullEntry) : Prop where
  length : entries.length = items.length
  place : ∀ {item entry}, (item, entry) ∈ items.zip entries →
    ∃ wire, (item, wire) ∈ items.zip wires ∧ batchEntry (item, wire) = .ok entry
  every : ∀ wire ∈ wires, ∃ item entry, (item, entry) ∈ items.zip entries ∧ batchEntry (item, wire) = .ok entry

theorem batchEntries_eq_ok {items : List BatchPullItem} {wires : List WireBatchEntry}
    {entries : List BatchPullEntry} (read : batchEntries items wires = .ok entries) :
    Matched items wires entries := by
  unfold batchEntries at read
  split at read
  · contradiction
  case isFalse same =>
    have same : wires.length = items.length := not_ne_iff.mp same
    have related := Result.mapM_forall₂ read
    have long : (items.zip wires).length = entries.length := related.length_eq
    have items_eq : (items.zip wires).map Prod.fst = items := List.map_fst_zip same.ge
    have wires_eq : (items.zip wires).map Prod.snd = wires := List.map_snd_zip same.le
    -- every pair of an item and an entry comes from a triple with its raw answer
    have triples : items.zip entries = ((items.zip wires).zip entries).map (Prod.map Prod.fst id) := by
      rw [← List.zip_map_left, items_eq]
    refine ⟨?_, ?_, ?_⟩
    · rw [← long, List.length_zip, same, Nat.min_self]
    · intro item entry member
      rw [triples] at member
      obtain ⟨⟨⟨item', wire⟩, entry'⟩, inside, made⟩ := List.mem_map.mp member
      obtain ⟨rfl, rfl⟩ := Prod.mk.inj made
      exact ⟨wire, (List.of_mem_zip inside).1, List.forall₂_zip related inside⟩
    · intro wire member
      rw [← wires_eq] at member
      obtain ⟨⟨item, wire'⟩, inside, rfl⟩ := List.mem_map.mp member
      have column : ((items.zip wires).zip entries).map Prod.fst = items.zip wires :=
        List.map_fst_zip long.le
      rw [← column] at inside
      obtain ⟨⟨_, entry⟩, both, rfl⟩ := List.mem_map.mp inside
      refine ⟨item, entry, ?_, List.forall₂_zip related both⟩
      rw [triples]
      exact List.mem_map_of_mem both

theorem readPullBatch_eq_ok {items : List BatchPullItem} {reply : Reply (List WireBatchEntry)}
    {entries : List BatchPullEntry} (read : readPullBatch items reply = .ok entries) :
    ∃ wires, reply = .answer 200 (.json wires) ∧ Matched items wires entries := by
  unfold readPullBatch at read
  split at read
  · contradiction
  case h_2 code body =>
    split at read
    case isFalse => split at read <;> contradiction
    case isTrue ok =>
      subst ok
      obtain ⟨wires, parsed, matched⟩ := Result.bind_eq_ok.mp read
      cases body with
      | broken => contradiction
      | unexpected => contradiction
      | json value =>
        obtain rfl := Except.ok.inj parsed
        exact ⟨_, rfl, batchEntries_eq_ok matched⟩

/-- What a rate limited batch is read as: the error, an entry that says so, or an answer
that does not fit the request. -/
theorem readPullBatch_of_limited {items : List BatchPullItem} {reply : Reply (List WireBatchEntry)}
    (limited : (Sent.pullBatch items reply).limited = true) :
    readPullBatch items reply = .error .RateLimited ∨
      (∃ message, readPullBatch items reply = .error (.BadResponse message)) ∨
      ∃ entries, readPullBatch items reply = .ok entries ∧
        ∃ pair ∈ items.zip entries, pair.2.result = .RateLimited := by
  cases reply with
  | unreachable => contradiction
  | answer code body =>
    by_cases refused : code = 429
    case pos =>
      subst refused
      exact .inl rfl
    case neg =>
      right
      cases body with
      | broken => simp [Sent.limited, refused] at limited
      | unexpected => simp [Sent.limited, refused] at limited
      | json wires =>
        obtain ⟨rfl, wire, member, limits⟩ : code = 200 ∧ ∃ wire ∈ wires, wire.limited = true := by
          simpa [Sent.limited, refused] using limited
        have read : readPullBatch items (.answer 200 (.json wires)) = batchEntries items wires := rfl
        rw [read]
        cases matched : batchEntries items wires with
        | error error =>
          obtain ⟨message, rfl⟩ := batchEntries_eq_error matched
          exact .inl ⟨message, rfl⟩
        | ok entries =>
          obtain ⟨item, entry, place, parsed⟩ := (batchEntries_eq_ok matched).every wire member
          refine .inr ⟨entries, rfl, (item, entry), place, ?_⟩
          have same := batchEntry_eq_ok parsed
          cases result : entry.result <;> rw [result] at same <;> subst same <;>
            first | rfl | contradiction

/-- A batch pull of a non-empty queue: refused before it is sent, or sent and read. -/
theorem pullBatch_cases (http : Http) (sent : List Sent) {items : List BatchPullItem} (busy : items ≠ []) :
    (∃ error, pullBatch http sent items = (sent, .error error)) ∨
      pullBatch http sent items =
        (sent ++ [.pullBatch items (http.pullBatch sent items)], readPullBatch items (http.pullBatch sent items)) := by
  have full : items.isEmpty = false := by simpa using busy
  unfold pullBatch
  simp only [full, Bool.false_eq_true, if_false]
  cases checked : checkBatch items with
  | ok => exact .inr rfl
  | error error => exact .inl ⟨error, rfl⟩

/-! ### The log -/

/-- What came back is what the relay answers to this request after the requests before it. -/
def RelayClient.Sent.AnsweredBy (http : Http) (before : List Sent) : Sent → Prop
  | .pull item reply => reply = http.pull before item
  | .pullBatch items reply => reply = http.pullBatch before items

theorem pull_answeredBy {http : Http} {sent : List Sent} (asked : Trace.Grown (Sent.AnsweredBy http) sent)
    (item : BatchPullItem) : Trace.Grown (Sent.AnsweredBy http) (pull http sent item).1 := by
  obtain ⟨message, refused⟩ | went := pull_cases http sent item
  · rw [refused]
    exact asked
  · rw [went]
    exact Trace.grown_concat.mpr ⟨rfl, asked⟩

theorem pullBatch_answeredBy {http : Http} {sent : List Sent} (asked : Trace.Grown (Sent.AnsweredBy http) sent)
    {items : List BatchPullItem} (busy : items ≠ []) :
    Trace.Grown (Sent.AnsweredBy http) (pullBatch http sent items).1 := by
  obtain ⟨error, refused⟩ | went := pullBatch_cases http sent busy
  · rw [refused]
    exact asked
  · rw [went]
    exact Trace.grown_concat.mpr ⟨rfl, asked⟩

theorem pullBatches_answeredBy (http : Http) (batchFailures : UInt32) (sent : List Sent) (out : Pulled)
    (queue : List BatchPullItem) (asked : Trace.Grown (Sent.AnsweredBy http) sent) :
    Trace.Grown (Sent.AnsweredBy http) (pullBatches http batchFailures sent out queue).1 := by
  have more {sent sent' : List Sent} {queue : List BatchPullItem} {answer : Except RelayError (List BatchPullEntry)}
      (asked : Trace.Grown (Sent.AnsweredBy http) sent) (busy : queue ≠ [])
      (went : pullBatch http sent (queue.take MAX_BATCH_PULL) = (sent', answer)) :
      Trace.Grown (Sent.AnsweredBy http) sent' := by
    have chunk : queue.take MAX_BATCH_PULL ≠ [] := by simpa [List.take_eq_nil_iff, MAX_BATCH_PULL] using busy
    have grown := pullBatch_answeredBy asked chunk
    rwa [went] at grown
  fun_induction pullBatches http batchFailures sent out queue with
  | case1 => exact asked
  | case2 sent out queue busy sent' entries went ih => exact ih (more asked busy went)
  | case3 | case4 | case5 | case6 | case7 | case8 => exact more asked ‹_› ‹_›

theorem pullSingles_answeredBy (http : Http) (sent : List Sent) (out : Pulled) (queue : List BatchPullItem)
    (asked : Trace.Grown (Sent.AnsweredBy http) sent) :
    Trace.Grown (Sent.AnsweredBy http) (pullSingles http sent out queue).1 := by
  have more {sent sent' : List Sent} {item : BatchPullItem} {answer : Except RelayError PullResponse}
      (asked : Trace.Grown (Sent.AnsweredBy http) sent) (went : pull http sent item = (sent', answer)) :
      Trace.Grown (Sent.AnsweredBy http) sent' := by
    have grown := pull_answeredBy asked item
    rwa [went] at grown
  fun_induction pullSingles http sent out queue with
  | case1 => exact asked
  | case2 sent out item rest limited ih => exact ih asked
  | case3 | case4 | case5 | case6 | case8 => rename_i went ih; exact ih (more asked went)
  | case7 | case9 => rename_i went; exact more asked went

/-- Every reply of a round is the relay's. -/
theorem pullAll_answeredBy (http : Http) (targets : List BatchPullItem) (batch : Bool) (batchFailures : UInt32) :
    Trace.Grown (Sent.AnsweredBy http) (pullAll http targets batch batchFailures).1 := by
  have first : Trace.Grown (Sent.AnsweredBy http)
      (if batch then pullBatches http batchFailures [] {} targets else ([], .ok ({}, targets))).1 := by
    split
    · exact pullBatches_answeredBy http batchFailures [] {} targets Trace.grown_nil
    · exact Trace.grown_nil
  unfold pullAll
  rcases batched : (if batch then pullBatches http batchFailures [] {} targets else ([], .ok ({}, targets)) :
    List Sent × Except RelayError (Pulled × List BatchPullItem)) with ⟨sent, result⟩
  rw [batched] at first
  cases result with
  | error error => exact first
  | ok progress => exact pullSingles_answeredBy http sent progress.1 progress.2 first

/-! ## The invariants -/

/-- Where the targets stand while `queue` is still to be asked for. -/
structure Accounts (targets : List BatchPullItem) (sent : List Sent) (fetched : BTreeMap Fetched)
    (queue : List BatchPullItem) : Prop where
  queued : ∀ item ∈ queue, item ∈ targets
  distinct : (queue.map (·.chain)).Nodup
  settled : ∀ item ∈ targets, item ∉ queue →
    ∃ answer, fetched[item.chain]? = some answer ∧ (answer = .Missed ∨ Answered sent item answer)
  known : ∀ (chain : String) answer, fetched[chain]? = some answer → chain ∈ targets.map (·.chain)

/-- Settling part of the queue: each new entry is the answer for a queued item or `Missed`,
and every queued item is either kept or gets an entry. -/
theorem Accounts.settle {targets queue rest : List BatchPullItem} {sent later : List Sent}
    {fetched : BTreeMap Fetched} (accounts : Accounts targets sent fetched queue)
    (apart : (targets.map (·.chain)).Nodup) {entries : List (BatchPullItem × Fetched)}
    (once : (entries.map (·.1.chain)).Nodup)
    (each : ∀ entry ∈ entries, entry.1 ∈ queue ∧ (entry.2 = .Missed ∨ Answered (sent ++ later) entry.1 entry.2))
    (kept : rest.Sublist queue) (covers : ∀ item ∈ queue, item ∈ rest ∨ ∃ answer, (item, answer) ∈ entries) :
    Accounts targets (sent ++ later)
      (fetched.insertAll (entries.map fun entry => (entry.1.chain, entry.2))) rest where
  queued item member := accounts.queued item (kept.subset member)
  distinct := accounts.distinct.sublist (kept.map _)
  settled item member gone := by
    have keys : ((entries.map fun entry => (entry.1.chain, entry.2)).map Prod.fst) = entries.map (·.1.chain) := by
      simp
    by_cases waiting : item ∈ queue
    · -- it left the queue just now, so it has a new entry
      obtain stays | ⟨answer, entered⟩ := covers item waiting
      · exact absurd stays gone
      · refine ⟨answer, BTreeMap.get?_insertAll_of_mem (by rwa [keys]) (List.mem_map_of_mem entered), ?_⟩
        exact (each _ entered).2
    · obtain ⟨answer, found, source⟩ := accounts.settled item member waiting
      refine ⟨answer, ?_, source.imp_right Answered.mono⟩
      rw [BTreeMap.get?_insertAll_of_not_mem ?_, found]
      rw [keys]
      intro clash
      obtain ⟨entry, entered, same⟩ := List.mem_map.mp clash
      have inside := (each entry entered).1
      obtain rfl := List.inj_on_of_nodup_map apart (accounts.queued _ inside) member same
      exact waiting inside
  known chain answer found := by
    by_cases fresh : chain ∈ (entries.map fun entry => (entry.1.chain, entry.2)).map Prod.fst
    · obtain ⟨_, made, rfl⟩ := List.mem_map.mp fresh
      obtain ⟨entry, entered, rfl⟩ := List.mem_map.mp made
      exact List.mem_map_of_mem (accounts.queued _ (each entry entered).1)
    · rw [BTreeMap.get?_insertAll_of_not_mem fresh] at found
      exact accounts.known chain answer found

theorem Accounts.later {targets queue : List BatchPullItem} {sent : List Sent} {fetched : BTreeMap Fetched}
    (accounts : Accounts targets sent fetched queue) (later : List Sent) :
    Accounts targets (sent ++ later) fetched queue where
  queued := accounts.queued
  distinct := accounts.distinct
  settled item member gone := by
    obtain ⟨answer, found, source⟩ := accounts.settled item member gone
    exact ⟨answer, found, source.imp_right Answered.mono⟩
  known := accounts.known

/-- Giving up the head of the queue. -/
theorem Accounts.miss {targets gone rest : List BatchPullItem} {sent : List Sent} {fetched : BTreeMap Fetched}
    (accounts : Accounts targets sent fetched (gone ++ rest)) (apart : (targets.map (·.chain)).Nodup) :
    Accounts targets sent (fetched.insertAll (gone.map fun item => (item.chain, .Missed))) rest := by
  have entries : (gone.map fun item => (item, Fetched.Missed)).map (fun entry => (entry.1.chain, entry.2)) =
      gone.map fun item => (item.chain, Fetched.Missed) := by simp
  have once : ((gone.map fun item => (item, Fetched.Missed)).map (·.1.chain)).Nodup := by
    have distinct := accounts.distinct
    rw [List.map_append] at distinct
    simpa [Function.comp_def] using distinct.of_append_left
  have step : Accounts targets (sent ++ []) _ rest :=
    accounts.settle apart once ?_ (List.sublist_append_right gone rest) ?_
  · rwa [entries, List.append_nil] at step
  · intro entry member
    obtain ⟨item, inside, rfl⟩ := List.mem_map.mp member
    exact ⟨List.mem_append_left _ inside, .inl rfl⟩
  · intro item member
    obtain lost | stays := List.mem_append.mp member
    · exact .inr ⟨.Missed, List.mem_map_of_mem lost⟩
    · exact .inl stays

theorem Accounts.missAll {targets queue : List BatchPullItem} {sent : List Sent} {fetched : BTreeMap Fetched}
    (accounts : Accounts targets sent fetched queue) (apart : (targets.map (·.chain)).Nodup) :
    Accounts targets sent (fetched.insertAll (queue.map fun item => (item.chain, .Missed))) [] := by
  rw [← List.append_nil queue] at accounts
  exact accounts.miss apart

/-- A single pull that was carried out. -/
theorem Accounts.single {targets rest : List BatchPullItem} {item : BatchPullItem} {sent : List Sent}
    {fetched : BTreeMap Fetched} {answer : Fetched} (accounts : Accounts targets sent fetched (item :: rest))
    (apart : (targets.map (·.chain)).Nodup) (answered : Answered sent item answer) :
    Accounts targets sent (fetched.insert item.chain answer) rest := by
  have step : Accounts targets (sent ++ [])
      (fetched.insertAll ([(item, answer)].map fun entry => (entry.1.chain, entry.2))) rest :=
    accounts.settle apart (by simp) ?_ (List.sublist_cons_self item rest) ?_
  · rwa [List.append_nil] at step
  · intro entry member
    obtain rfl := List.mem_singleton.mp member
    exact ⟨List.mem_cons_self, .inr (by rwa [List.append_nil])⟩
  · intro other member
    obtain rfl | later := List.mem_cons.mp member
    · exact .inr ⟨answer, List.mem_cons_self⟩
    · exact .inl later

/-! ### An answered batch -/

/-- The entry an answered item gets; a deferred one gets none. -/
def fetchedOf : BatchPullResult → Option Fetched
  | .Ok response => some (.Ok response)
  | .NotFound => some .NotFound
  | .RateLimited => some .Missed
  | .Deferred => none

/-- The items of a batch that were carried out, with their entries. -/
def settledOf (pairs : List (BatchPullItem × BatchPullEntry)) : List (BatchPullItem × Fetched) :=
  pairs.filterMap fun pair => (fetchedOf pair.2.result).map fun answer => (pair.1, answer)

def deferredOf (pairs : List (BatchPullItem × BatchPullEntry)) : List BatchPullItem :=
  (pairs.filter fun pair => (fetchedOf pair.2.result).isNone).map Prod.fst

theorem pullEntry_foldl (pairs : List (BatchPullItem × BatchPullEntry)) (out : Pulled)
    (deferred : List BatchPullItem) :
    pairs.foldl pullEntry (out, deferred) =
      ({ out with
          fetched := out.fetched.insertAll ((settledOf pairs).map fun entry => (entry.1.chain, entry.2))
          limited := out.limited || pairs.any fun pair => decide (pair.2.result = .RateLimited) },
        deferred ++ deferredOf pairs) := by
  induction pairs generalizing out deferred with
  | nil => simp [settledOf, deferredOf, BTreeMap.insertAll]
  | cons pair rest ih =>
    obtain ⟨item, entry⟩ := pair
    rw [List.foldl_cons]
    cases result : entry.result <;>
      simp [pullEntry, result, ih, settledOf, deferredOf, fetchedOf, BTreeMap.insertAll]

theorem deferredOf_sublist {items : List BatchPullItem} {entries : List BatchPullEntry}
    (length : entries.length = items.length) : (deferredOf (items.zip entries)).Sublist items := by
  have part : (deferredOf (items.zip entries)).Sublist ((items.zip entries).map Prod.fst) :=
    List.filter_sublist.map Prod.fst
  rwa [List.map_fst_zip length.ge] at part

theorem settledOf_sublist (pairs : List (BatchPullItem × BatchPullEntry)) :
    ((settledOf pairs).map Prod.fst).Sublist (pairs.map Prod.fst) := by
  induction pairs with
  | nil => exact .slnil
  | cons pair rest ih =>
    cases answer : fetchedOf pair.2.result with
    | none => simpa [settledOf, answer] using ih.cons _
    | some answer' => simpa [settledOf, answer] using ih.cons_cons pair.1

/-- An entry of a batch says what the relay answered for its item. -/
theorem settledOf_answered {items : List BatchPullItem} {wires : List WireBatchEntry}
    {entries : List BatchPullEntry} (matched : Matched items wires entries) {sent : List Sent}
    (member : .pullBatch items (.answer 200 (.json wires)) ∈ sent) {item : BatchPullItem} {answer : Fetched}
    (settled : (item, answer) ∈ settledOf (items.zip entries)) :
    item ∈ items ∧ (answer = .Missed ∨ Answered sent item answer) := by
  obtain ⟨⟨item', entry⟩, place, made⟩ := List.mem_filterMap.mp settled
  obtain ⟨answer', result, made⟩ := Option.map_eq_some_iff.mp made
  obtain ⟨rfl, rfl⟩ := Prod.mk.inj made
  refine ⟨(List.of_mem_zip place).1, ?_⟩
  obtain ⟨wire, raw, parsed⟩ := matched.place place
  have source := batchEntry_eq_ok parsed
  dsimp only at result
  cases kind : entry.result with
  | Ok response =>
    rw [kind] at result source
    cases result
    subst source
    exact .inr (.batch member raw)
  | NotFound =>
    rw [kind] at result source
    cases result
    subst source
    exact .inr (.batchNotFound member raw)
  | RateLimited =>
    rw [kind] at result
    cases result
    exact .inl rfl
  | Deferred =>
    rw [kind] at result
    cases result

/-- Every item of a batch was carried out or deferred. -/
theorem settledOf_or_deferredOf {items : List BatchPullItem} {entries : List BatchPullEntry}
    (length : entries.length = items.length) {item : BatchPullItem} (member : item ∈ items) :
    item ∈ deferredOf (items.zip entries) ∨ ∃ answer, (item, answer) ∈ settledOf (items.zip entries) := by
  rw [← List.map_fst_zip length.ge] at member
  obtain ⟨⟨_, entry⟩, place, rfl⟩ := List.mem_map.mp member
  cases answer : fetchedOf entry.result with
  | none => exact .inl (List.mem_map.mpr ⟨_, List.mem_filter.mpr ⟨place, by simp [answer]⟩, rfl⟩)
  | some fetched => exact .inr ⟨fetched, List.mem_filterMap.mpr ⟨_, place, by simp [answer]⟩⟩

/-- The items of a batch that were carried out get their entries. -/
theorem Accounts.carriedOut {targets items rest : List BatchPullItem} {sent : List Sent}
    {fetched : BTreeMap Fetched} {wires : List WireBatchEntry} {entries : List BatchPullEntry}
    (accounts : Accounts targets sent fetched (items ++ rest)) (apart : (targets.map (·.chain)).Nodup)
    (matched : Matched items wires entries) :
    Accounts targets (sent ++ [.pullBatch items (.answer 200 (.json wires))])
      (fetched.insertAll ((settledOf (items.zip entries)).map fun entry => (entry.1.chain, entry.2)))
      (deferredOf (items.zip entries) ++ rest) := by
  refine accounts.settle apart ?_ ?_ ((deferredOf_sublist matched.length).append_right rest) ?_
  · have part := (settledOf_sublist (items.zip entries)).map (·.chain)
    rw [List.map_fst_zip matched.length.ge, List.map_map] at part
    have distinct := accounts.distinct
    rw [List.map_append] at distinct
    exact distinct.of_append_left.sublist part
  · rintro ⟨item, answer⟩ settled
    obtain ⟨inside, source⟩ :=
      settledOf_answered matched (List.mem_append_right sent List.mem_cons_self) settled
    exact ⟨List.mem_append_left rest inside, source⟩
  · intro item member
    obtain early | late := List.mem_append.mp member
    · exact (settledOf_or_deferredOf matched.length early).imp_left (List.mem_append_left rest)
    · exact .inl (List.mem_append_right _ late)

/-- An answered batch keeps the account. -/
theorem Accounts.answered {targets queue : List BatchPullItem} {sent : List Sent} {out : Pulled}
    {reply : Reply (List WireBatchEntry)} {entries : List BatchPullEntry}
    (accounts : Accounts targets sent out.fetched queue) (apart : (targets.map (·.chain)).Nodup)
    (read : readPullBatch (queue.take MAX_BATCH_PULL) reply = .ok entries) :
    Accounts targets (sent ++ [.pullBatch (queue.take MAX_BATCH_PULL) reply])
      (pullAnswered out queue entries).1.fetched (pullAnswered out queue entries).2 := by
  obtain ⟨wires, rfl, matched⟩ := readPullBatch_eq_ok read
  rw [← List.take_append_drop MAX_BATCH_PULL queue] at accounts
  have carried := accounts.carriedOut apart matched
  unfold pullAnswered
  simp only [pullEntry_foldl, List.nil_append]
  generalize deferredOf ((queue.take MAX_BATCH_PULL).zip entries) = deferred at *
  by_cases idle : deferred.length = (queue.take MAX_BATCH_PULL).length
  · -- nothing was carried out: the deferred items are given up
    simp only [if_pos idle, List.nil_append]
    split
    · exact (carried.miss apart).missAll apart
    · exact carried.miss apart
  · simp only [if_neg idle]
    split
    · exact carried.missAll apart
    · exact carried

/-! ### Rate limits -/

/-- No request went out after one that was rate limited. -/
def NoneAfterLimit (sent : List Sent) : Prop :=
  ∀ before request after, sent = before ++ request :: after → request.limited = true → after = []

/-- Nothing was rate limited so far. -/
def Quiet (sent : List Sent) : Prop := ∀ request ∈ sent, request.limited = false

theorem Quiet.noneAfterLimit {sent : List Sent} (quiet : Quiet sent) : NoneAfterLimit sent := by
  intro before request after same limited
  have := quiet request (by simp [same])
  simp [this] at limited

theorem Quiet.noneAfterLimit_last {sent : List Sent} (quiet : Quiet sent) (last : Sent) :
    NoneAfterLimit (sent ++ [last]) := by
  intro before request after same limited
  obtain rfl | ⟨front, final, rfl⟩ := List.eq_nil_or_concat after
  · rfl
  · -- the limited request would stand among the earlier ones
    rw [List.concat_eq_append, ← List.cons_append, ← List.append_assoc] at same
    obtain ⟨rfl, _⟩ := List.append_inj' same rfl
    have := quiet request (by simp)
    simp [this] at limited

theorem Quiet.concat {sent : List Sent} (quiet : Quiet sent) {last : Sent} (calm : last.limited = false) :
    Quiet (sent ++ [last]) := by
  intro request member
  obtain early | final := List.mem_append.mp member
  · exact quiet request early
  · obtain rfl := List.mem_singleton.mp final
    exact calm

/-- An answered batch limits the round exactly when an entry was rate limited. -/
theorem pullAnswered_limited (out : Pulled) (queue : List BatchPullItem) (entries : List BatchPullEntry) :
    (pullAnswered out queue entries).1.limited =
      (out.limited || ((queue.take MAX_BATCH_PULL).zip entries).any fun pair =>
        decide (pair.2.result = .RateLimited)) := by
  unfold pullAnswered
  simp only [pullEntry_foldl, List.nil_append]
  split <;> split <;> simp [Pulled.miss]

theorem pullAnswered_queue_of_limited {out : Pulled} {queue : List BatchPullItem} {entries : List BatchPullEntry}
    (limited : (pullAnswered out queue entries).1.limited = true) : (pullAnswered out queue entries).2 = [] := by
  rw [pullAnswered_limited] at limited
  unfold pullAnswered
  simp only [pullEntry_foldl, List.nil_append]
  split <;> simp [Pulled.miss, limited]

/-- A batch request in a quiet round: at most one request more, and unless the answer stops
the batches the round is quiet still. -/
theorem pullBatch_quiet {http : Http} {sent sent' : List Sent} {items : List BatchPullItem}
    {answer : Except RelayError (List BatchPullEntry)} (busy : items ≠ []) (quiet : Quiet sent)
    (asked : pullBatch http sent items = (sent', answer)) :
    sent'.length ≤ sent.length + 1 ∧ (∃ later, sent' = sent ++ later) ∧ NoneAfterLimit sent' ∧
      (Quiet sent' ∨ answer = .error .RateLimited ∨ (∃ message, answer = .error (.BadResponse message)) ∨
        ∃ entries, answer = .ok entries ∧ ∃ pair ∈ items.zip entries, pair.2.result = .RateLimited) := by
  obtain ⟨error, refused⟩ | went := pullBatch_cases http sent busy
  · rw [refused] at asked
    obtain ⟨rfl, rfl⟩ := Prod.mk.inj asked
    exact ⟨Nat.le_succ _, ⟨[], (List.append_nil _).symm⟩, quiet.noneAfterLimit, .inl quiet⟩
  · rw [went] at asked
    obtain ⟨rfl, rfl⟩ := Prod.mk.inj asked
    refine ⟨by simp, ⟨_, rfl⟩, quiet.noneAfterLimit_last _, ?_⟩
    cases limited : (Sent.pullBatch items (http.pullBatch sent items)).limited with
    | false => exact .inl (quiet.concat limited)
    | true => exact .inr (readPullBatch_of_limited limited)

/-! ## The loops -/

/-- Where a round stands: every target is accounted for, and the round is limited as soon as
a request was. -/
structure Standing (targets : List BatchPullItem) (sent : List Sent) (out : Pulled)
    (queue : List BatchPullItem) : Prop where
  accounts : Accounts targets sent out.fetched queue
  quiet : out.limited = false → Quiet sent
  clean : NoneAfterLimit sent

/-- What the batch loop leaves behind when it may send `bound` requests, one for each item
it leaves to the single pulls included. -/
def Leaves (targets : List BatchPullItem) (bound : Nat)
    (result : List Sent × Except RelayError (Pulled × List BatchPullItem)) : Prop :=
  NoneAfterLimit result.1 ∧ result.1.length ≤ bound ∧
    ∀ out queue, result.2 = .ok (out, queue) →
      Standing targets result.1 out queue ∧ result.1.length + queue.length ≤ bound

theorem Leaves.mono {targets : List BatchPullItem} {bound bound' : Nat}
    {result : List Sent × Except RelayError (Pulled × List BatchPullItem)}
    (leaves : Leaves targets bound result) (le : bound ≤ bound') : Leaves targets bound' result := by
  obtain ⟨clean, length, done⟩ := leaves
  refine ⟨clean, length.trans le, fun out queue ok => ?_⟩
  obtain ⟨standing, short⟩ := done out queue ok
  exact ⟨standing, short.trans le⟩

theorem Leaves.of_ok {targets queue : List BatchPullItem} {bound : Nat} {sent : List Sent} {out : Pulled}
    (standing : Standing targets sent out queue) (length : sent.length + queue.length ≤ bound) :
    Leaves targets bound (sent, .ok (out, queue)) := by
  refine ⟨standing.clean, by dsimp only; omega, fun out' queue' ok => ?_⟩
  obtain ⟨rfl, rfl⟩ := Prod.mk.inj (Except.ok.inj ok)
  exact ⟨standing, length⟩

theorem Leaves.of_error {targets : List BatchPullItem} {bound : Nat} {sent : List Sent} {error : RelayError}
    (clean : NoneAfterLimit sent) (length : sent.length ≤ bound) : Leaves targets bound (sent, .error error) :=
  ⟨clean, length, fun _ _ ok => by cases ok⟩

/-- The round is quiet when the batch loop asks once more. -/
theorem Standing.ask {http : Http} {targets queue : List BatchPullItem} {sent sent' : List Sent} {out : Pulled}
    {answer : Except RelayError (List BatchPullEntry)} (standing : Standing targets sent out queue)
    (calm : out.limited = true → queue = []) (busy : queue ≠ [])
    (asked : pullBatch http sent (queue.take MAX_BATCH_PULL) = (sent', answer)) :
    sent'.length ≤ sent.length + 1 ∧ Accounts targets sent' out.fetched queue ∧ NoneAfterLimit sent' ∧
      (Quiet sent' ∨ answer = .error .RateLimited ∨ (∃ message, answer = .error (.BadResponse message)) ∨
        ∃ entries, answer = .ok entries ∧
          ∃ pair ∈ (queue.take MAX_BATCH_PULL).zip entries, pair.2.result = .RateLimited) := by
  have unlimited : out.limited = false := by
    cases limited : out.limited with
    | false => rfl
    | true => exact absurd (calm limited) busy
  have chunk : queue.take MAX_BATCH_PULL ≠ [] := by simpa [List.take_eq_nil_iff, MAX_BATCH_PULL] using busy
  obtain ⟨longer, ⟨later, rfl⟩, clean, source⟩ := pullBatch_quiet chunk (standing.quiet unlimited) asked
  exact ⟨longer, standing.accounts.later later, clean, source⟩

theorem pullBatches_leaves {http : Http} {batchFailures : UInt32} {targets : List BatchPullItem}
    (apart : (targets.map (·.chain)).Nodup) (sent : List Sent) (out : Pulled) (queue : List BatchPullItem)
    (standing : Standing targets sent out queue) (calm : out.limited = true → queue = []) :
    Leaves targets (sent.length + queue.length + 1) (pullBatches http batchFailures sent out queue) := by
  -- the induction follows the queue; each batch that is answered leaves a shorter one
  induction sent, out, queue using pullBatches.induct http batchFailures with
  | case1 sent out =>
    rw [pullBatches, dif_pos rfl]
    exact .of_ok standing (by simp)
  | case2 sent out queue busy sent' entries asked ih =>
    rw [pullBatches, dif_neg busy]
    simp only [asked]
    obtain ⟨longer, _, clean, source⟩ := standing.ask calm busy asked
    have shorter := pullAnswered_shorter busy out entries
    have went : ∃ reply, sent' = sent ++ [.pullBatch (queue.take MAX_BATCH_PULL) reply] ∧
        readPullBatch (queue.take MAX_BATCH_PULL) reply = .ok entries := by
      have chunk : queue.take MAX_BATCH_PULL ≠ [] := by simpa [List.take_eq_nil_iff, MAX_BATCH_PULL] using busy
      obtain ⟨error, refused⟩ | went := pullBatch_cases http sent chunk
      · rw [refused] at asked
        cases asked
      · rw [went] at asked
        obtain ⟨rfl, read⟩ := Prod.mk.inj asked
        exact ⟨_, rfl, read⟩
    obtain ⟨reply, rfl, read⟩ := went
    refine (ih ⟨standing.accounts.answered apart read, ?_, clean⟩ pullAnswered_queue_of_limited).mono (by omega)
    intro still
    obtain quiet | limited | ⟨message, bad⟩ | ⟨_, same, pair, place, limited⟩ := source
    · exact quiet
    · cases limited
    · cases bad
    · -- a rate limited entry would have limited the round
      obtain rfl := Except.ok.inj same
      rw [pullAnswered_limited, Bool.or_eq_false_iff, List.any_eq_false] at still
      exact absurd limited (by simpa using still.2 pair place)
  | case3 sent out queue busy sent' asked =>
    rw [pullBatches, dif_neg busy]
    simp only [asked]
    obtain ⟨longer, accounts, clean, _⟩ := standing.ask calm busy asked
    exact .of_ok ⟨accounts.missAll apart, fun unlimited => (by cases unlimited), clean⟩ (by simp; omega)
  | case4 sent out queue busy sent' feature asked =>
    rw [pullBatches, dif_neg busy]
    simp only [asked]
    obtain ⟨longer, accounts, clean, source⟩ := standing.ask calm busy asked
    exact .of_ok ⟨accounts, fun _ => by simpa using source, clean⟩ (by omega)
  | case5 sent out queue busy sent' code failed again asked =>
    rw [pullBatches, dif_neg busy]
    simp only [asked, if_pos failed, if_pos again]
    obtain ⟨longer, accounts, clean, source⟩ := standing.ask calm busy asked
    exact .of_ok ⟨accounts, fun _ => by simpa using source, clean⟩ (by omega)
  | case6 sent out queue busy sent' code failed once asked =>
    rw [pullBatches, dif_neg busy]
    simp only [asked, if_pos failed, if_neg once]
    obtain ⟨longer, accounts, clean, source⟩ := standing.ask calm busy asked
    exact .of_ok ⟨accounts.missAll apart, fun _ => by simpa using source, clean⟩ (by simp; omega)
  | case7 sent out queue busy sent' code other asked =>
    rw [pullBatches, dif_neg busy]
    simp only [asked, if_neg other]
    obtain ⟨longer, _, clean, _⟩ := standing.ask calm busy asked
    exact .of_error clean (by omega)
  | case8 sent out queue busy sent' error notLimited notOld notHttp asked =>
    rw [pullBatches, dif_neg busy]
    simp only [asked]
    obtain ⟨longer, _, clean, _⟩ := standing.ask calm busy asked
    exact .of_error clean (by omega)

/-- A single pull in a quiet round: the answer is the relay's for that item, and the round
is quiet still unless the pull was rate limited. -/
theorem Standing.askOne {http : Http} {targets queue : List BatchPullItem} {sent sent' : List Sent} {out : Pulled}
    {item : BatchPullItem} {answer : Except RelayError PullResponse} (standing : Standing targets sent out queue)
    (unlimited : out.limited = false) (asked : pull http sent item = (sent', answer)) :
    sent'.length ≤ sent.length + 1 ∧ Accounts targets sent' out.fetched queue ∧ NoneAfterLimit sent' ∧
      (answer ≠ .error .RateLimited → Quiet sent') ∧
      (∀ response, answer = .ok response → Answered sent' item (.Ok response)) ∧
      (answer = .error .NotFound → Answered sent' item .NotFound) := by
  have quiet := standing.quiet unlimited
  obtain ⟨message, refused⟩ | went := pull_cases http sent item
  · rw [refused] at asked
    obtain ⟨rfl, rfl⟩ := Prod.mk.inj asked
    refine ⟨Nat.le_succ _, standing.accounts, quiet.noneAfterLimit, fun _ => quiet, ?_, ?_⟩
    · intro response ok
      cases ok
    · intro missing
      cases missing
  · rw [went] at asked
    obtain ⟨rfl, rfl⟩ := Prod.mk.inj asked
    refine ⟨by simp, standing.accounts.later _, quiet.noneAfterLimit_last _, ?_, ?_, ?_⟩
    · intro calm
      refine quiet.concat ?_
      rw [Bool.eq_false_iff]
      exact fun limited => calm (readPull_of_limited limited)
    · intro response read
      rw [readPull_eq_ok read]
      exact .pull (List.mem_append_right _ List.mem_cons_self)
    · intro read
      obtain ⟨body, reply⟩ := readPull_eq_notFound read
      rw [reply]
      exact .pullNotFound (List.mem_append_right _ List.mem_cons_self)

theorem pullSingles_accounts (http : Http) {targets : List BatchPullItem} (apart : (targets.map (·.chain)).Nodup)
    (queue : List BatchPullItem) {sent : List Sent} {out : Pulled} (standing : Standing targets sent out queue) :
    NoneAfterLimit (pullSingles http sent out queue).1 ∧
      (pullSingles http sent out queue).1.length ≤ sent.length + queue.length ∧
      ∀ out', (pullSingles http sent out queue).2 = .ok out' →
        Accounts targets (pullSingles http sent out queue).1 out'.fetched [] := by
  induction queue generalizing sent out with
  | nil =>
    refine ⟨standing.clean, Nat.le_refl _, fun out' ok => ?_⟩
    obtain rfl := Except.ok.inj ok
    exact standing.accounts
  | cons item rest ih =>
    -- one step of the loop, then the rest of it
    have next {sent' : List Sent} {out' : Pulled} (longer : sent'.length ≤ sent.length + 1)
        (standing' : Standing targets sent' out' rest) :
        NoneAfterLimit (pullSingles http sent' out' rest).1 ∧
          (pullSingles http sent' out' rest).1.length ≤ sent.length + (item :: rest).length ∧
          ∀ final, (pullSingles http sent' out' rest).2 = .ok final →
            Accounts targets (pullSingles http sent' out' rest).1 final.fetched [] := by
      obtain ⟨clean, length, done⟩ := ih standing'
      exact ⟨clean, by rw [List.length_cons]; omega, done⟩
    have stop {sent' : List Sent} {error : RelayError} (longer : sent'.length ≤ sent.length + 1)
        (clean : NoneAfterLimit sent') :
        NoneAfterLimit (sent', (.error error : Except RelayError Pulled)).1 ∧
          (sent', (.error error : Except RelayError Pulled)).1.length ≤ sent.length + (item :: rest).length ∧
          ∀ final, (sent', (.error error : Except RelayError Pulled)).2 = .ok final →
            Accounts targets sent' final.fetched [] :=
      ⟨clean, by simp only [List.length_cons]; omega, fun _ ok => by cases ok⟩
    have gone {sent' : List Sent} (accounts : Accounts targets sent' out.fetched (item :: rest)) :
        Accounts targets sent' (out.miss [item]).fetched rest :=
      Accounts.miss (show Accounts targets sent' out.fetched ([item] ++ rest) from accounts) apart
    unfold pullSingles
    split
    case isTrue limited =>
      exact next (Nat.le_succ _) ⟨gone standing.accounts, fun unlimited => by simp [Pulled.miss, limited] at unlimited,
        standing.clean⟩
    case isFalse unlimited =>
      have unlimited : out.limited = false := by simpa using unlimited
      rcases asked : pull http sent item with ⟨sent', answer⟩
      obtain ⟨longer, accounts, clean, quiet, found, missing⟩ := standing.askOne unlimited asked
      dsimp only
      split
      case h_1 response => exact next longer ⟨accounts.single apart (found response rfl), fun _ => quiet (by simp), clean⟩
      case h_2 => exact next longer ⟨accounts.single apart (missing rfl), fun _ => quiet (by simp), clean⟩
      case h_3 => exact next longer ⟨gone accounts, fun unlimited => (by cases unlimited), clean⟩
      case h_4 code =>
        split
        · exact next longer ⟨gone accounts, fun _ => quiet (by simp), clean⟩
        · exact stop longer clean
      case h_5 => exact next longer ⟨gone accounts, fun _ => quiet (by simp), clean⟩
      case h_6 => exact stop longer clean

/-! ## The round -/

/-- With an empty queue the entries are those of the targets. -/
theorem Accounts.entries {targets : List BatchPullItem} {sent : List Sent} {fetched : BTreeMap Fetched}
    (accounts : Accounts targets sent fetched []) (apart : (targets.map (·.chain)).Nodup) :
    (fetched.toList.map Prod.fst).Perm (targets.map (·.chain)) := by
  rw [List.perm_ext_iff_of_nodup (BTreeMap.toList_keys_nodup fetched) apart]
  intro chain
  constructor
  · intro member
    obtain ⟨⟨key, answer⟩, entry, rfl⟩ := List.mem_map.mp member
    exact accounts.known key answer (BTreeMap.mem_toList.mp entry)
  · intro member
    obtain ⟨item, inside, rfl⟩ := List.mem_map.mp member
    obtain ⟨answer, found, _⟩ := accounts.settled item inside (by simp)
    exact List.mem_map.mpr ⟨_, BTreeMap.mem_toList.mpr found, rfl⟩

/-- For every list of targets with distinct chains, every starting mode and failure count and
every behaviour of the relay, `pull_all` ends after at most one request more than it has
targets, takes for each request what the relay answers to it after the requests before it,
and sends nothing after a `429`.  When it succeeds it holds one entry for each target and no
other, and the entry is `Missed` or what the relay answered for that very chain and cursor:
a target without an answer is `Missed`. -/
theorem pullAll_accounts_for_targets (http : Http) (targets : List BatchPullItem) (batch : Bool)
    (batchFailures : UInt32) (apart : (targets.map (·.chain)).Nodup) :
    let (sent, result) := pullAll http targets batch batchFailures
    sent.length ≤ targets.length + 1 ∧
      (∀ before request after, sent = before ++ request :: after →
        request.AnsweredBy http before ∧ (request.limited = true → after = [])) ∧
      ∀ out, result = .ok out →
        (out.fetched.toList.map Prod.fst).Perm (targets.map (·.chain)) ∧
        ∀ item ∈ targets, ∃ fetched, out.fetched[item.chain]? = some fetched ∧
          (fetched ≠ .Missed → Answered sent item fetched) := by
  have start : Standing targets [] {} targets :=
    { accounts :=
        { queued := fun _ member => member
          distinct := apart
          settled := fun _ member gone => absurd member gone
          known := fun chain answer found => by simp at found }
      quiet := fun _ request member => by cases member
      clean := Quiet.noneAfterLimit fun request member => by cases member }
  -- the batches, if any, leave a standing round
  obtain ⟨cleanFirst, shortFirst, left⟩ : Leaves targets (targets.length + 1)
      (if batch then pullBatches http batchFailures [] {} targets else ([], .ok ({}, targets))) := by
    split
    · exact (pullBatches_leaves apart [] {} targets start (by simp)).mono (by simp)
    · exact .of_ok start (by simp)
  have relayed := pullAll_answeredBy http targets batch batchFailures
  unfold pullAll at relayed ⊢
  rcases batched : (if batch then pullBatches http batchFailures [] {} targets else ([], .ok ({}, targets)) :
    List Sent × Except RelayError (Pulled × List BatchPullItem)) with ⟨sent, result⟩
  rw [batched] at cleanFirst shortFirst left relayed
  cases result with
  | error error =>
    refine ⟨shortFirst, fun before request after log => ⟨?_, cleanFirst before request after log⟩, fun out ok => by cases ok⟩
    exact Trace.Grown.at (log ▸ relayed)
  | ok progress =>
    obtain ⟨standing, short⟩ := left progress.1 progress.2 rfl
    obtain ⟨clean, length, done⟩ := pullSingles_accounts http apart progress.2 standing
    refine ⟨length.trans short, fun before request after log => ⟨?_, clean before request after log⟩, fun out ok => ?_⟩
    · exact Trace.Grown.at (log ▸ relayed)
    have accounts := done out ok
    refine ⟨accounts.entries apart, fun item member => ?_⟩
    obtain ⟨fetched, found, source⟩ := accounts.settled item member (by simp)
    exact ⟨fetched, found, fun kept => source.resolve_left kept⟩

/-- A relay that answers chains it was asked for before and defers new ones. -/
def deferringRelay : Http :=
  { pull := fun _ _ => .answer 429 (.broken "")
    pullBatch := fun _ items =>
      .answer 200 (.json (items.map fun item =>
        if item.since = 0 then .Deferred item.chain else .Ok item.chain [] item.since)) }

def twoTargets : List BatchPullItem :=
  [{ chain := String.ofList (List.replicate 64 'a'), token := String.ofList (List.replicate 64 '0'), since := 7 },
    { chain := String.ofList (List.replicate 64 'b'), token := String.ofList (List.replicate 64 '0'), since := 0 }]

/-- One target is answered, the relay defers the other twice: two requests, one entry each. -/
theorem pullAll_accounts_for_two_targets :
    let (sent, result) := pullAll deferringRelay twoTargets true 0
    sent.length = 2 ∧
      (∀ before request after, sent = before ++ request :: after → request.AnsweredBy deferringRelay before) ∧
      ∃ out, result = .ok out ∧ (out.fetched.toList.map Prod.fst).Perm (twoTargets.map (·.chain)) ∧
        (twoTargets.map fun item => out.fetched[item.chain]?) =
          [some (.Ok { records := [], latestSeq := 7 }), some .Missed] ∧
        ∀ item ∈ twoTargets, ∃ fetched, out.fetched[item.chain]? = some fetched ∧
          (fetched ≠ .Missed → Answered sent item fetched) := by
  obtain ⟨_, log, done⟩ := pullAll_accounts_for_targets deferringRelay twoTargets true 0 (by decide)
  have run : (pullAll deferringRelay twoTargets true 0).1.length = 2 ∧
      (pullAll deferringRelay twoTargets true 0).2.toOption.map
          (fun out => twoTargets.map fun item => out.fetched[item.chain]?) =
        some [some (.Ok { records := [], latestSeq := 7 }), some .Missed] := by
    decide +kernel
  obtain ⟨length, entries⟩ := run
  refine ⟨length, fun before request after shape => (log before request after shape).1, ?_⟩
  cases result : (pullAll deferringRelay twoTargets true 0).2 with
  | error error =>
    rw [result] at entries
    contradiction
  | ok out =>
    rw [result] at entries
    obtain ⟨perm, each⟩ := done out result
    exact ⟨out, result, perm, Option.some.inj entries, each⟩

end Sshelter.Sync
