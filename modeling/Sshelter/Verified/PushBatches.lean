import Sshelter.Lib.Trace
import Sshelter.Sync.Round

/-! # What a push sends and what it keeps of the answers

A run of `push_outgoing` is described by its sends: each batch of rows beside the call
made for it.  The loop lemma says what one pass adds to the sends, and the result follows
by induction on the rows that are left.
-/

namespace Sshelter.Sync

open RelayClient

/-- The relay answered every row of the call. -/
def PushCall.applied (call : PushCall) : Bool :=
  match call.answer with
  | .ok (.Applied results) => results.length == call.items.length
  | _ => false

/-- The keys a call was answered as accepted for, each with the sequence number given to
that row. -/
def PushCall.accepted (rows : List Outgoing) (call : PushCall) : List (String × Nat) :=
  match call.answer with
  | .ok (.Applied results) =>
    (rows.zip results).filterMap fun (row, result) =>
      match result with
      | .Accepted seq => some (row.key, seq)
      | .Conflict _ => none
  | _ => []

/-- At most 200 rows, and at most 512 KiB unless the batch is a single row. -/
def WithinLimits (rows : List Outgoing) : Prop :=
  rows ≠ [] ∧ rows.length ≤ 200 ∧ ((rows.map Outgoing.size).sum ≤ 512 * 1024 ∨ rows.length = 1)

/-! ## One batch -/

/-- Where the inner loop stops: `count` and `bytes` are what the batch holds already. -/
theorem batchLength_spec (rows : List Outgoing) {count bytes : Nat} (few : count ≤ PUSH_BATCH_ITEMS)
    (small : bytes ≤ PUSH_BATCH_BYTES ∨ count ≤ 1) :
    ∃ more, batchLength count bytes rows = count + more ∧ more ≤ rows.length ∧
      count + more ≤ PUSH_BATCH_ITEMS ∧
      (bytes + ((rows.take more).map Outgoing.size).sum ≤ PUSH_BATCH_BYTES ∨ count + more ≤ 1) := by
  induction rows generalizing count bytes with
  | nil => exact ⟨0, rfl, Nat.le_refl 0, few, by simpa using small⟩
  | cons row rest ih =>
    unfold batchLength
    split
    case isTrue stop => exact ⟨0, rfl, Nat.zero_le _, few, by simpa using small⟩
    case isFalse goes =>
      -- the row is taken: either it is the first one or both limits still hold with it
      have room : count + 1 ≤ PUSH_BATCH_ITEMS := by
        by_contra full
        have : 1 ≤ PUSH_BATCH_ITEMS := by decide
        exact goes ⟨by omega, .inl (by omega)⟩
      have fits : bytes + row.size ≤ PUSH_BATCH_BYTES ∨ count + 1 ≤ 1 := by
        by_contra full
        exact goes ⟨by omega, .inr (by omega)⟩
      obtain ⟨more, length, short, room, fits⟩ := ih room fits
      refine ⟨more + 1, by omega, by simpa using short, by omega, ?_⟩
      simp only [List.take_succ_cons, List.map_cons, List.sum_cons]
      omega

theorem batch_withinLimits {rows : List Outgoing} (busy : rows ≠ []) :
    WithinLimits (rows.take (batchLength 0 0 rows)) := by
  obtain ⟨more, length, short, room, fits⟩ :=
    batchLength_spec rows (Nat.zero_le PUSH_BATCH_ITEMS) (.inl (Nat.zero_le PUSH_BATCH_BYTES))
  have positive := batchLength_pos busy
  rw [Nat.zero_add] at length room fits
  rw [length] at positive ⊢
  have taken : (rows.take more).length = more := List.length_take_of_le short
  refine ⟨List.ne_nil_of_length_pos (by omega), ?_, ?_⟩
  · rw [taken]
    exact room
  · rw [taken]
    exact fits.imp (by simp [PUSH_BATCH_BYTES]) (by omega)

theorem pushResults_accepted (pairs : List (Outgoing × PushResult)) (report : PushReport) :
    (pairs.foldl pushResult report).accepted =
      report.accepted ++ pairs.filterMap fun (row, result) =>
        match result with
        | .Accepted seq => some (row.key, seq)
        | .Conflict _ => none := by
  induction pairs generalizing report with
  | nil => simp
  | cons pair rest ih =>
    obtain ⟨row, result⟩ := pair
    rw [List.foldl_cons, ih]
    cases result <;> simp [pushResult]

/-! ## What the relay was asked -/

/-- The result of the call is what the relay answers after the calls before it. -/
def PushCall.AnsweredBy (api : PushApi) (before : List PushCall) (call : PushCall) : Prop :=
  call.answer = api before call.items

theorem pushBatches_answeredBy (api : PushApi) (calls : List PushCall) (report : PushReport)
    (rows : List Outgoing) (asked : Trace.Grown (PushCall.AnsweredBy api) calls) :
    Trace.Grown (PushCall.AnsweredBy api) (pushBatches api calls report rows).1 := by
  -- every pass adds one call, whatever becomes of its answer
  have more (items : List PushItem) :
      Trace.Grown (PushCall.AnsweredBy api) (calls ++ [{ items, answer := api calls items }]) :=
    Trace.grown_concat.mpr ⟨rfl, asked⟩
  fun_induction pushBatches api calls report rows with
  | case1 => exact asked
  | case2 | case3 | case4 => exact more _
  | case5 calls report rows busy batch items answer calls' results answered same ih =>
    exact ih (more items) fun items => Trace.grown_concat.mpr ⟨rfl, more _⟩

/-! ## The whole push -/

/-- The run of the loop over `rows`: what it sent, in order, and what it kept. -/
structure PushRun (rows : List Outgoing) (sends : List (List Outgoing × PushCall))
    (accepted : List (String × Nat)) : Prop where
  items : ∀ send ∈ sends, send.2.items = send.1.map (·.item) ∧ WithinLimits send.1
  inOrder : (sends.map Prod.fst).flatten <+: rows
  whole : (∀ send ∈ sends, send.2.applied = true) → (sends.map Prod.fst).flatten = rows
  stops : ∀ send ∈ sends.dropLast, send.2.applied = true
  kept : accepted = (sends.takeWhile (·.2.applied)).flatMap fun send => send.2.accepted send.1

/-- The loop ended at a call that was not applied. -/
theorem PushRun.stopped {rows batch : List Outgoing} {call : PushCall} (cut : batch <+: rows)
    (items : call.items = batch.map (·.item)) (limits : WithinLimits batch) (failed : call.applied = false) :
    PushRun rows [(batch, call)] [] where
  items := by simp [items, limits]
  inOrder := by simpa using cut
  whole applied := by simp [failed] at applied
  stops := by simp
  kept := by simp [failed]

/-- The loop went on after an applied call. -/
theorem PushRun.cons {batch rest : List Outgoing} {call : PushCall}
    {sends : List (List Outgoing × PushCall)} {accepted : List (String × Nat)}
    (items : call.items = batch.map (·.item)) (limits : WithinLimits batch) (applied : call.applied = true)
    (run : PushRun rest sends accepted) :
    PushRun (batch ++ rest) ((batch, call) :: sends) (call.accepted batch ++ accepted) where
  items := by
    intro send member
    obtain rfl | later := List.mem_cons.mp member
    · exact ⟨items, limits⟩
    · exact run.items send later
  inOrder := by simpa using run.inOrder
  whole all := by
    have later : (sends.map Prod.fst).flatten = rest :=
      run.whole fun send member => all send (List.mem_cons_of_mem _ member)
    simp [later]
  stops := by
    intro send member
    cases sends with
    | nil => simp at member
    | cons next others =>
      rw [List.dropLast_cons_cons] at member
      obtain rfl | later := List.mem_cons.mp member
      · exact applied
      · exact run.stops send later
  kept := by simp [applied, run.kept]

theorem pushBatches_run (api : PushApi) (calls : List PushCall) (report : PushReport) (rows : List Outgoing) :
    ∃ sends accepted, PushRun rows sends accepted ∧
      (pushBatches api calls report rows).1 = calls ++ sends.map Prod.snd ∧
      (pushBatches api calls report rows).2.accepted = report.accepted ++ accepted := by
  -- the cases of the loop: nothing left, three ways to stop, and the pass that goes on
  induction calls, report, rows using pushBatches.induct api with
  | case1 calls report =>
    refine ⟨[], [], ⟨by simp, by simp, by simp, by simp, by simp⟩, ?_, ?_⟩ <;> simp [pushBatches]
  | case2 calls report rows busy batch items answer error answered =>
    refine ⟨[(batch, { items, answer })], [], ?_, ?_⟩
    · exact .stopped (List.take_prefix _ _) rfl (batch_withinLimits busy) (by simp [PushCall.applied, answered])
    · simp only [answer, items, batch] at answered ⊢
      rw [pushBatches, dif_neg busy]
      simp only [answered]
      simp
  | case3 calls report rows busy batch items answer answered =>
    refine ⟨[(batch, { items, answer })], [], ?_, ?_⟩
    · exact .stopped (List.take_prefix _ _) rfl (batch_withinLimits busy) (by simp [PushCall.applied, answered])
    · simp only [answer, items, batch] at answered ⊢
      rw [pushBatches, dif_neg busy]
      simp only [answered]
      simp
  | case4 calls report rows busy batch items answer results answered mismatch =>
    refine ⟨[(batch, { items, answer })], [], ?_, ?_⟩
    · refine .stopped (List.take_prefix _ _) rfl (batch_withinLimits busy) ?_
      simp [PushCall.applied, answered, items, mismatch]
    · simp only [answer, items, batch] at answered mismatch ⊢
      rw [pushBatches, dif_neg busy]
      simp only [answered, if_pos mismatch]
      simp
  | case5 calls report rows busy batch items answer calls' results answered same ih =>
    obtain ⟨sends, accepted, run, sent, kept⟩ := ih
    have applied : ({ items, answer } : PushCall).applied = true := by
      simpa [PushCall.applied, answered, items] using same
    have more := PushRun.cons rfl (batch_withinLimits busy) applied run
    rw [List.take_append_drop] at more
    refine ⟨_, _, more, ?_⟩
    simp only [calls', answer, items, batch] at answered same sent kept ⊢
    rw [pushBatches, dif_neg busy]
    simp only [answered, if_neg same] at sent kept ⊢
    rw [sent, kept, pushResults_accepted]
    simp [PushCall.accepted]

/-- For every list of rows and every behaviour of the relay: a push sends consecutive
batches within the limits that make up a prefix of the rows, all of them when no batch
fails; it stops at the first batch that failed, was frozen or was answered with another
number of results; and it keeps exactly the keys accepted before, each with the sequence
number it was given.  The result of each call is what the relay answers to its items after
the calls before it, and no item goes out more often than it stands in the list. -/
theorem pushOutgoing_sends (api : PushApi) (outgoing : List Outgoing) :
    ∃ sends : List (List Outgoing × PushCall),
      (pushOutgoing api outgoing).1 = sends.map Prod.snd ∧
      (∀ send ∈ sends, send.2.items = send.1.map (·.item) ∧ WithinLimits send.1) ∧
      (sends.map Prod.fst).flatten <+: outgoing ∧
      ((∀ send ∈ sends, send.2.applied = true) → (sends.map Prod.fst).flatten = outgoing) ∧
      (∀ send ∈ sends.dropLast, send.2.applied = true) ∧
      (pushOutgoing api outgoing).2.accepted =
        (sends.takeWhile (·.2.applied)).flatMap (fun send => send.2.accepted send.1) ∧
      (∀ before call after, (pushOutgoing api outgoing).1 = before ++ call :: after →
        call.answer = api before call.items) ∧
      ∀ item, ((pushOutgoing api outgoing).1.flatMap (·.items)).count item ≤
        (outgoing.map (·.item)).count item := by
  obtain ⟨sends, accepted, run, sent, kept⟩ := pushBatches_run api [] {} outgoing
  rw [List.nil_append] at sent kept
  refine ⟨sends, sent, run.items, run.inOrder, run.whole, run.stops, kept.trans run.kept, ?_, ?_⟩
  · intro before call after log
    have asked : Trace.Grown (PushCall.AnsweredBy api) (pushOutgoing api outgoing).1 :=
      pushBatches_answeredBy api [] {} outgoing Trace.grown_nil
    rw [log] at asked
    exact asked.at
  intro item
  have flat : (pushOutgoing api outgoing).1.flatMap (·.items) =
      ((sends.map Prod.fst).flatten).map (·.item) := by
    rw [pushOutgoing, sent, List.flatMap_map, List.map_flatten, List.map_map, ← List.flatMap_def]
    exact List.flatMap_congr fun send member => (run.items send member).1
  rw [flat]
  exact (run.inOrder.map _).sublist.count_le item

end Sshelter.Sync
