import Sshelter.Relay.ChainStore

/-! # A chain over its requests

The chain store with the requests the worker forwards to it: the body of a push is
checked first, a running instance counts its requests by the minute, and an idle chain
is wiped by its alarm.  The limits by source address refuse a request before it reaches
the chain and are not part of it.
-/

namespace Sshelter.Relay

open Sync (Envelope PushItem PullResponse)

def MAX_RECORD_BYTES : Nat := 65536
def MAX_ITEMS_PER_PUSH : Nat := 200
def RATE_LIMIT_PER_MINUTE : Nat := 120

/-! ## Pushed items -/

/-- `.length` of a text: its UTF-16 code units. -/
def jsLength (text : String) : Nat :=
  (text.toList.map fun c => if c.toNat < 0x10000 then 1 else 2).sum

/-- SQLite's `LENGTH`: the characters before the first NUL. -/
def sqlLength (text : String) : Nat := (text.toList.takeWhile (· != '\x00')).length

def isBase64Char (c : Char) : Bool := c.isAlphanum || c == '+' || c == '/'

/-- `/^[A-Za-z0-9+/]*={0,2}$/` -/
def matchesBase64 (text : String) : Bool :=
  let padding := text.toList.dropWhile isBase64Char
  padding.all (· == '=') && decide (padding.length ≤ 2)

def isStrictBase64 (text : String) : Bool :=
  decide (0 < jsLength text) && jsLength text % 4 == 0 && matchesBase64 text

def isHexDigit (c : Char) : Bool := c.isDigit || decide ('a' ≤ c ∧ c ≤ 'f')

/-- `/^[0-9a-f]{64}$/` -/
def isHex64 (text : String) : Bool := text.length == 64 && text.toList.all isHexDigit

def isPushItem (item : PushItem) : Bool :=
  isHex64 item.idHash &&
    (decide (1 ≤ item.kind.length ∧ item.kind.length ≤ 16) && item.kind.toList.all Char.isLower) &&
    (decide (jsLength item.nonce ≤ 64) && isStrictBase64 item.nonce) && isStrictBase64 item.ciphertext

/-! ## Usage

The store works with `Chain.rowBytes`; these are the same sums with the length function of
the engine that takes each of them. -/

/-- The use of a table as SQLite counts it. -/
def usage (rows : BTreeMap Envelope) : Int × Nat :=
  ((rows.values.map fun row => (sqlLength row.ciphertext + sqlLength row.nonce : Int)).sum, rows.values.length)

/-- The use a push works out from it before it writes. -/
def computedUsage (rows : BTreeMap Envelope) (planned : List (PushItem × PushResult)) : Int × Nat :=
  planned.foldl
    (fun (bytes, count) (item, result) =>
      match result with
      | .conflict _ => (bytes, count)
      | .ok _ =>
        let added : Int := jsLength item.ciphertext + jsLength item.nonce
        match rows[item.idHash]? with
        | some previous => (bytes - (jsLength previous.ciphertext + jsLength previous.nonce) + added, count)
        | none => (bytes + added, count + 1))
    (usage rows)

/-! ## The object -/

/-- The stored chain, and the counters of the running instance. -/
structure ChainObject where
  store : ChainStore
  minuteStart : Nat
  minuteCount : Nat

structure Reply where
  status : Nat
  records : List Envelope
  results : List PushResult
  latestSeq : Nat
deriving DecidableEq, Repr

/-- A reply without a body. -/
def Reply.code (status : Nat) : Reply := { status, records := [], results := [], latestSeq := 0 }

namespace ChainObject

def fresh : ChainObject := { store := none, minuteStart := 0, minuteCount := 0 }

/-- The request counted, in a new minute if the last one is over. -/
def counted (object : ChainObject) (now : Nat) : ChainObject :=
  if 60000 < now - object.minuteStart then { object with minuteStart := now, minuteCount := 1 }
  else { object with minuteCount := object.minuteCount + 1 }

def rateLimited (object : ChainObject) : Bool := decide (RATE_LIMIT_PER_MINUTE < object.minuteCount)

/-- A method behind its token and the request limit. -/
def guarded (object : ChainObject) (tokenHash : String) (now : Nat)
    (method : Chain → ChainObject → Reply × ChainObject) : Reply × ChainObject :=
  match object.store.authorized tokenHash with
  | .error _ => (.code 404, object)
  | .ok chain =>
    if (object.counted now).rateLimited then (.code 429, object.counted now)
    else method chain (object.counted now)

def create (object : ChainObject) (tokenHash : String) (now : Nat) : Reply × ChainObject :=
  match object.store with
  | none =>
    if (object.counted now).rateLimited then (.code 429, object.counted now)
    else (.code 201, { object.counted now with store := some (.new tokenHash) })
  | some _ => object.guarded tokenHash now fun _ object => (.code 200, object)

def pull (object : ChainObject) (tokenHash : String) (since : Nat) (now : Nat) : Reply × ChainObject :=
  object.guarded tokenHash now fun chain object =>
    let pulled := chain.pull since
    ({ Reply.code 200 with records := pulled.records, latestSeq := pulled.latestSeq }, object)

def push (object : ChainObject) (tokenHash : String) (items : List PushItem) (now : Nat) :
    Reply × ChainObject :=
  object.guarded tokenHash now fun chain object =>
    match chain.push items with
    | .error .Frozen => (.code 409, object)
    | .error _ => (.code 413, object)
    | .ok (after, results) =>
      ({ Reply.code 200 with results, latestSeq := after.latestSeq }, { object with store := some after })

def freeze (object : ChainObject) (tokenHash : String) (now : Nat) : Reply × ChainObject :=
  object.guarded tokenHash now fun chain object => (.code 204, { object with store := some chain.freeze })

def destroy (object : ChainObject) (tokenHash : String) (now : Nat) : Reply × ChainObject :=
  object.guarded tokenHash now fun chain object =>
    (.code 204, { object with store := if chain.frozen then some { chain with rows := ∅ } else none })

def alarm (object : ChainObject) : ChainObject := { object with store := none }

/-- A push as the worker takes it from the request body. -/
def postRecords (object : ChainObject) (tokenHash : String) (body : List PushItem) (now : Nat) :
    Reply × ChainObject :=
  if body.isEmpty || decide (MAX_ITEMS_PER_PUSH < body.length) || !body.all isPushItem then
    (.code 400, object)
  else if !decide (body.map (·.idHash)).Nodup then (.code 400, object)
  else if body.any fun item => decide (MAX_RECORD_BYTES < jsLength item.ciphertext) then (.code 413, object)
  else object.push tokenHash body now

/-! ## Runs -/

inductive Request where
  | create (tokenHash : String)
  | pull (tokenHash : String) (since : Nat)
  | push (tokenHash : String) (body : List PushItem)
  | freeze (tokenHash : String)
  | destroy (tokenHash : String)
  | alarm
  /-- The instance is shut down and starts again with its storage. -/
  | restart
deriving DecidableEq

def step (object : ChainObject) (request : Request) (now : Nat) : Reply × ChainObject :=
  match request with
  | .create tokenHash => object.create tokenHash now
  | .pull tokenHash since => object.pull tokenHash since now
  | .push tokenHash body => object.postRecords tokenHash body now
  | .freeze tokenHash => object.freeze tokenHash now
  | .destroy tokenHash => object.destroy tokenHash now
  | .alarm => (.code 204, object.alarm)
  | .restart => (.code 204, { object with minuteStart := 0, minuteCount := 0 })

def run (object : ChainObject) (requests : List (Request × Nat)) : ChainObject :=
  requests.foldl (fun object request => (object.step request.1 request.2).2) object

end ChainObject

end Sshelter.Relay
