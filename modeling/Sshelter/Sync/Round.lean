import Sshelter.Sync.RelayClient

/-! # Pulling every chain of a round, pushing one

`round.rs` (`pull_all`) and `merge.rs` (`push_outgoing`).  Both are loops over a queue
that talk to the relay at every step.  `pull_all` runs over the relay client; the log of
sent requests is threaded through it.  `push_outgoing` runs over any `RelayApi::push`,
the client's and the test relay's alike, because it checks once more what it gets back.
-/

namespace Sshelter.Sync

open RelayClient

inductive Fetched where
  | Ok (response : PullResponse)
  | NotFound
  | Missed
deriving DecidableEq, Repr

structure Pulled where
  fetched : BTreeMap Fetched := ∅
  limited : Bool := false
  failed : Bool := false
  batchFailed : Bool := false
  batchOk : Bool := false

/-! ## Pulling -/

/-- These chains were not fetched in this round. -/
def Pulled.miss (out : Pulled) (items : List BatchPullItem) : Pulled :=
  { out with fetched := out.fetched.insertAll (items.map fun item => (item.chain, .Missed)) }

/-- One answered item of a batch; the second component collects the deferred items. -/
def pullEntry (progress : Pulled × List BatchPullItem) (pair : BatchPullItem × BatchPullEntry) :
    Pulled × List BatchPullItem :=
  let (out, deferred) := progress
  let (item, entry) := pair
  match entry.result with
  | .Ok response => ({ out with fetched := out.fetched.insert item.chain (.Ok response) }, deferred)
  | .NotFound => ({ out with fetched := out.fetched.insert item.chain .NotFound }, deferred)
  | .RateLimited =>
    ({ out with limited := true, fetched := out.fetched.insert item.chain .Missed }, deferred)
  | .Deferred => (out, deferred ++ [item])

/-- What an answered batch leaves: the answers recorded and the queue still to ask for. -/
def pullAnswered (out : Pulled) (queue : List BatchPullItem) (entries : List BatchPullEntry) :
    Pulled × List BatchPullItem :=
  let chunk := queue.take MAX_BATCH_PULL
  let (out, deferred) := (chunk.zip entries).foldl pullEntry ({ out with batchOk := true }, [])
  -- the relay carried out nothing: it is not asked again
  let (out, deferred) :=
    if deferred.length = chunk.length then (out.miss deferred, []) else (out, deferred)
  let queue := deferred ++ queue.drop MAX_BATCH_PULL
  if out.limited then (out.miss queue, []) else (out, queue)

theorem pullEntry_deferred (pairs : List (BatchPullItem × BatchPullEntry))
    (progress : Pulled × List BatchPullItem) :
    (pairs.foldl pullEntry progress).2.length ≤ progress.2.length + pairs.length := by
  induction pairs generalizing progress with
  | nil => simp
  | cons pair rest ih =>
    have step : (pullEntry progress pair).2.length ≤ progress.2.length + 1 := by
      obtain ⟨item, entry⟩ := pair
      simp only [pullEntry]
      split <;> simp
    have := ih (pullEntry progress pair)
    simp only [List.foldl_cons, List.length_cons]
    omega

/-- Every answered batch leaves a shorter queue, whatever the relay deferred. -/
theorem pullAnswered_shorter {queue : List BatchPullItem} (busy : queue ≠ []) (out : Pulled)
    (entries : List BatchPullEntry) : (pullAnswered out queue entries).2.length < queue.length := by
  have nonempty : 0 < queue.length := List.length_pos_of_ne_nil busy
  have bound := pullEntry_deferred ((queue.take MAX_BATCH_PULL).zip entries)
    ({ out with batchOk := true }, [])
  simp only [List.length_nil, List.length_zip, Nat.zero_add, List.length_take] at bound
  have limit : 0 < MAX_BATCH_PULL := by decide
  unfold pullAnswered
  simp only [List.length_take]
  split <;> split <;> simp only [List.length_append, List.length_nil, List.length_drop] <;> omega

/-- The batch loop.  It ends with the queue that is left for single pulls. -/
def pullBatches (http : Http) (batchFailures : UInt32) (sent : List Sent) (out : Pulled)
    (queue : List BatchPullItem) : List Sent × Except RelayError (Pulled × List BatchPullItem) :=
  if _busy : queue = [] then (sent, .ok (out, []))
  else
    let (sent, answer) := pullBatch http sent (queue.take MAX_BATCH_PULL)
    match answer with
    | .ok entries =>
      pullBatches http batchFailures sent (pullAnswered out queue entries).1
        (pullAnswered out queue entries).2
    | .error .RateLimited => (sent, .ok ({ out with limited := true }.miss queue, []))
    | .error (.Unsupported _) => (sent, .ok (out, queue))
    | .error (.Http code) =>
      if 500 ≤ code then
        let out := { out with failed := true, batchFailed := true }
        -- `u32` addition, as a release build computes it
        if 2 ≤ batchFailures + 1 then (sent, .ok (out, queue)) else (sent, .ok (out.miss queue, []))
      else (sent, .error (.Http code))
    | .error error => (sent, .error error)
termination_by queue.length
decreasing_by exact pullAnswered_shorter _busy out entries

/-- One chain after another.  After a `429` nothing more is sent. -/
def pullSingles (http : Http) (sent : List Sent) (out : Pulled) :
    List BatchPullItem → List Sent × Except RelayError Pulled
  | [] => (sent, .ok out)
  | item :: rest =>
    if out.limited then pullSingles http sent (out.miss [item]) rest
    else
      let (sent, answer) := pull http sent item
      match answer with
      | .ok response =>
        pullSingles http sent { out with fetched := out.fetched.insert item.chain (.Ok response) } rest
      | .error .NotFound =>
        pullSingles http sent { out with fetched := out.fetched.insert item.chain .NotFound } rest
      | .error .RateLimited => pullSingles http sent ({ out with limited := true }.miss [item]) rest
      | .error (.Http code) =>
        if 500 ≤ code then pullSingles http sent ({ out with failed := true }.miss [item]) rest
        else (sent, .error (.Http code))
      | .error (.BadResponse _) => pullSingles http sent ({ out with failed := true }.miss [item]) rest
      | .error error => (sent, .error error)

/-- The requests sent and the outcome of pulling every target. -/
def pullAll (http : Http) (targets : List BatchPullItem) (batch : Bool) (batchFailures : UInt32) :
    List Sent × Except RelayError Pulled :=
  let (sent, batched) :=
    if batch then pullBatches http batchFailures [] {} targets else ([], .ok ({}, targets))
  match batched with
  | .error error => (sent, .error error)
  | .ok (out, queue) => pullSingles http sent out queue

/-! ## Pushing -/

def PUSH_BATCH_ITEMS : Nat := 200

def PUSH_BATCH_BYTES : Nat := 512 * 1024

/-- What a push reports beside the accepted rows. -/
structure PushReport extends Pushed where
  accepted := []
  conflicts : Nat := 0
  frozen : Bool := false
  error : Option RelayError := none
deriving DecidableEq, Repr

/-- A call of `RelayApi::push` and its result. -/
structure PushCall where
  items : List PushItem
  answer : Except RelayError PushOutcome
deriving DecidableEq

/-- Any implementation of `RelayApi::push` for one chain and token: its result may depend
on every call before. -/
abbrev PushApi := List PushCall → List PushItem → Except RelayError PushOutcome

/-- The bytes a record counts for. -/
def Outgoing.size (row : Outgoing) : Nat := row.item.ciphertext.utf8ByteSize + row.item.nonce.utf8ByteSize

/-- The inner loop: `count` rows of `bytes` bytes are in the batch already. -/
def batchLength (count bytes : Nat) : List Outgoing → Nat
  | [] => count
  | row :: rest =>
    if 0 < count ∧ (PUSH_BATCH_ITEMS ≤ count ∨ PUSH_BATCH_BYTES < bytes + row.size) then count
    else batchLength (count + 1) (bytes + row.size) rest

def pushResult (report : PushReport) (pair : Outgoing × PushResult) : PushReport :=
  match pair.2 with
  | .Accepted seq => { report with accepted := report.accepted ++ [(pair.1.key, seq)] }
  | .Conflict _ => { report with conflicts := report.conflicts + 1 }

theorem le_batchLength (rows : List Outgoing) (count bytes : Nat) : count ≤ batchLength count bytes rows := by
  induction rows generalizing count bytes with
  | nil => exact Nat.le_refl count
  | cons row rest ih =>
    unfold batchLength
    split
    · exact Nat.le_refl count
    · exact (Nat.le_succ count).trans (ih (count + 1) (bytes + row.size))

/-- A batch takes at least one row. -/
theorem batchLength_pos {rows : List Outgoing} (busy : rows ≠ []) : 0 < batchLength 0 0 rows := by
  cases rows with
  | nil => contradiction
  | cons row rest =>
    have more := le_batchLength rest 1 row.size
    simp only [batchLength, Nat.lt_irrefl, false_and, if_false, Nat.zero_add]
    omega

/-- The outer loop, over the rows not sent yet. -/
def pushBatches (api : PushApi) (calls : List PushCall) (report : PushReport) (rows : List Outgoing) :
    List PushCall × PushReport :=
  if _busy : rows = [] then (calls, report)
  else
    let batch := rows.take (batchLength 0 0 rows)
    let items := batch.map (·.item)
    let answer := api calls items
    let calls := calls ++ [{ items, answer }]
    match answer with
    | .error error => (calls, { report with error := some error })
    | .ok .Frozen => (calls, { report with frozen := true })
    | .ok (.Applied results) =>
      if results.length ≠ batch.length then
        (calls, { report with
          error := some (.BadResponse
            (s!"a push of {batch.length} records was answered with " ++ s!"{results.length} results")) })
      else
        pushBatches api calls ((batch.zip results).foldl pushResult report)
          (rows.drop (batchLength 0 0 rows))
termination_by rows.length
decreasing_by
  have := List.length_pos_of_ne_nil _busy
  have := batchLength_pos _busy
  simp only [List.length_drop]
  omega

def pushOutgoing (api : PushApi) (outgoing : List Outgoing) : List PushCall × PushReport :=
  pushBatches api [] {} outgoing

end Sshelter.Sync
