import Sshelter.Sync.RecordMerge

/-! # The relay client

`relay.rs`: the checks made before a request goes out and on what comes back.  The
relay and the network are an `Http` value: any reply to any request, which may depend on
everything exchanged before.  A request that fails its checks is not sent, so it does not
stand in the log of sent requests.
-/

namespace Sshelter.Sync.RelayClient

/-- Chains in one `POST /v1/pull`. -/
def MAX_BATCH_PULL : Nat := 64

def MAX_PUSH_ITEMS : Nat := 200

def MAX_SAFE_INTEGER : Nat := 9007199254740991

def FEATURE_PULL_BATCH : String := "pull-batch"

inductive RelayError where
  | NotFound
  | RateLimited
  | QuotaExceeded
  | Unsupported (feature : String)
  | InvalidRequest (message : String)
  | Http (code : UInt16)
  | Unreachable (message : String)
  | BadResponse (message : String)
deriving DecidableEq, Repr

structure BatchPullItem where
  chain : String
  token : String
  since : Nat
deriving DecidableEq, Repr

inductive BatchPullResult where
  | Ok (response : PullResponse)
  | NotFound
  | RateLimited
  | Deferred
deriving DecidableEq, Repr

structure BatchPullEntry where
  chain : String
  result : BatchPullResult
deriving DecidableEq, Repr

inductive WireBatchEntry where
  | Ok (chain : String) (records : List Envelope) (latestSeq : Nat)
  | NotFound (chain : String)
  | RateLimited (chain : String)
  | Deferred (chain : String)
deriving DecidableEq, Repr

inductive PushResult where
  | Accepted (seq : Nat)
  | Conflict (current : Envelope)
deriving DecidableEq, Repr

inductive PushOutcome where
  | Applied (results : List PushResult)
  | Frozen
deriving DecidableEq, Repr

/-! ## What comes back -/

/-- The body of an answer: cut off, not the expected JSON, or read. -/
inductive Body (α : Type) where
  | broken (message : String)
  | unexpected (line column : Nat)
  | json (value : α)
deriving DecidableEq, Repr

inductive Reply (α : Type) where
  | unreachable (message : String)
  | answer (code : UInt16) (body : Body α)
deriving DecidableEq, Repr

/-- An answer to a push: the body of a `200`, and the `status` field of a `409`. -/
inductive PushReply where
  | unreachable (message : String)
  | answer (code : UInt16) (results : Body (List PushResult)) (status : Body String)
deriving DecidableEq, Repr

def statusError (code : UInt16) : RelayError :=
  if code = 404 then .NotFound
  else if code = 413 then .QuotaExceeded
  else if code = 429 then .RateLimited
  else .Http code

def readJson {α : Type} : Body α → Except RelayError α
  | .broken message => .error (.Unreachable message)
  | .unexpected line column =>
    .error (.BadResponse
      s!"the answer is not the expected JSON (line {line}, column {column})")
  | .json value => .ok value

/-! ## Checks -/

def checkChain (chainId token : String) : Except RelayError Unit :=
  refuse (!(isChainId chainId && isChainId token))
    (.InvalidRequest "chain id and token must be 64 lowercase hex characters")

def checkCursor (since : Nat) : Except RelayError Unit :=
  refuse (decide (MAX_SAFE_INTEGER < since))
    (.InvalidRequest "a pull cursor is out of range")

def checkedSeqs (response : PullResponse) : Except RelayError PullResponse :=
  if decide (MAX_SAFE_INTEGER < response.latestSeq) ||
      response.records.any (fun row => decide (MAX_SAFE_INTEGER < row.seq)) then
    .error (.BadResponse "the relay answered with a sequence number out of range")
  else .ok response

def PushResult.outOfRange : PushResult → Bool
  | .Accepted seq => decide (MAX_SAFE_INTEGER < seq)
  | .Conflict current => decide (MAX_SAFE_INTEGER < current.seq)

def checkedPushResults (results : List PushResult) : Except RelayError (List PushResult) :=
  if results.any PushResult.outOfRange then
    .error (.BadResponse "the relay answered a push with a sequence number out of range")
  else .ok results

def checkPush (items : List PushItem) : Except RelayError Unit := do
  refuse (items.isEmpty || decide (MAX_PUSH_ITEMS < items.length))
    (.InvalidRequest s!"a push takes 1 to {MAX_PUSH_ITEMS} records")
  refuse (!decide (items.map (·.idHash)).Nodup)
    (.InvalidRequest "a record appears twice in one push")

/-- `seen` are the chains of the items already checked. -/
def checkBatchItems (seen : List String) : List BatchPullItem → Except RelayError Unit
  | [] => .ok ()
  | item :: rest => do
    checkChain item.chain item.token
    checkCursor item.since
    refuse (seen.contains item.chain)
      (.InvalidRequest "a chain appears twice in one batch pull")
    checkBatchItems (item.chain :: seen) rest

def checkBatch (items : List BatchPullItem) : Except RelayError Unit := do
  refuse (decide (MAX_BATCH_PULL < items.length))
    (.InvalidRequest s!"a batch pull takes at most {MAX_BATCH_PULL} chains")
  checkBatchItems [] items

def batchEntry (pair : BatchPullItem × WireBatchEntry) : Except RelayError BatchPullEntry := do
  let (item, entry) := pair
  let (chain, result) ←
    match entry with
    | .Ok chain records latestSeq => do
      let response ← checkedSeqs { records, latestSeq }
      .ok (chain, BatchPullResult.Ok response)
    | .NotFound chain => .ok (chain, .NotFound)
    | .RateLimited chain => .ok (chain, .RateLimited)
    | .Deferred chain => .ok (chain, .Deferred)
  refuse (chain != item.chain)
    (.BadResponse "the batch pull answered chains out of order")
  return { chain, result }

def batchEntries (items : List BatchPullItem) (results : List WireBatchEntry) :
    Except RelayError (List BatchPullEntry) :=
  if results.length ≠ items.length then
    .error (.BadResponse "the batch pull answered a different number of chains")
  else (items.zip results).mapM batchEntry

/-! ## Requests -/

/-- A pull that went out, with what came back. -/
inductive Sent where
  | pull (item : BatchPullItem) (reply : Reply PullResponse)
  | pullBatch (items : List BatchPullItem) (reply : Reply (List WireBatchEntry))
deriving DecidableEq, Repr

structure Http where
  pull : List Sent → BatchPullItem → Reply PullResponse
  pullBatch : List Sent → List BatchPullItem → Reply (List WireBatchEntry)

def readPull : Reply PullResponse → Except RelayError PullResponse
  | .unreachable message => .error (.Unreachable message)
  | .answer code body =>
    if code = 200 then readJson body >>= checkedSeqs else .error (statusError code)

def pull (http : Http) (sent : List Sent) (item : BatchPullItem) :
    List Sent × Except RelayError PullResponse :=
  match checkChain item.chain item.token, checkCursor item.since with
  | .error error, _ => (sent, .error error)
  | .ok (), .error error => (sent, .error error)
  | .ok (), .ok () =>
    let reply := http.pull sent item
    (sent ++ [.pull item reply], readPull reply)

def readPullBatch (items : List BatchPullItem) :
    Reply (List WireBatchEntry) → Except RelayError (List BatchPullEntry)
  | .unreachable message => .error (.Unreachable message)
  | .answer code body =>
    if code = 200 then readJson body >>= batchEntries items
    -- an old relay has no such endpoint
    else if code = 404 then .error (.Unsupported FEATURE_PULL_BATCH)
    else .error (statusError code)

def pullBatch (http : Http) (sent : List Sent) (items : List BatchPullItem) :
    List Sent × Except RelayError (List BatchPullEntry) :=
  if items.isEmpty then (sent, .ok [])
  else
    match checkBatch items with
    | .error error => (sent, .error error)
    | .ok () =>
      let reply := http.pullBatch sent items
      (sent ++ [.pullBatch items reply], readPullBatch items reply)

def readPush (items : List PushItem) : PushReply → Except RelayError PushOutcome
  | .unreachable message => .error (.Unreachable message)
  | .answer code results status =>
    if code = 200 then do
      let results ← readJson results >>= checkedPushResults
      refuse (results.length != items.length)
        (.BadResponse "the relay answered a push with the wrong number of results")
      return .Applied results
    else if code = 409 then
      match status with
      | .broken message => .error (.Unreachable message)
      | .unexpected _ _ => .error (.Http 409)
      | .json status => if status = "frozen" then .ok .Frozen else .error (.Http 409)
    else .error (statusError code)

/-- `reply` is what the relay answers when the request goes out. -/
def push (chainId token : String) (items : List PushItem) (reply : PushReply) :
    Except RelayError PushOutcome := do
  checkChain chainId token
  checkPush items
  readPush items reply

end Sshelter.Sync.RelayClient
