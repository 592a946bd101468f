import Sshelter.Sync.LibraryReview
import Sshelter.Verified.Inclusion
import Sshelter.Verified.OpaqueAuthority

/-! # The order of revisions, and local writes in it

Merging keeps the greatest revision of a linear order, so the winner of a set of revisions
does not depend on the order in which they arrive.  Every local write is stamped above the
row it replaces.  A whole operation is followed shelf by shelf: one lemma says what a single
stamped write may do, and each operation is a chain of such writes.
-/

namespace Sshelter.Sync

/-! ## Which revision wins -/

/-- `remote` replaces a cached row that holds `mine`, whatever the row's number and flag. -/
def Beats (mine remote : Record) : Prop :=
  ∀ seq dirty, merge (some { record := mine, seq, dirty }) remote ≠ .KeepLocal

theorem beats_iff {mine remote : Record} : Beats mine remote ↔ mine.stamp < remote.stamp := by
  simp only [Beats, merge_ne_keepLocal_iff]
  exact ⟨fun wins => wins 0 false, fun wins _ _ => wins⟩

theorem beats_of_newer {mine remote : Record} (newer : mine.updatedAtMs < remote.updatedAtMs) :
    Beats mine remote :=
  beats_iff.mpr (stamp_lt_iff.mpr (.inl newer))

theorem time_le_of_beats {mine remote : Record} (wins : Beats mine remote) :
    mine.updatedAtMs ≤ remote.updatedAtMs := by
  obtain newer | ⟨same, _⟩ := stamp_lt_iff.mp (beats_iff.mp wins)
  · exact le_of_lt newer
  · exact le_of_eq same

/-- The key revisions are ordered by. -/
def Record.orderKey (record : Record) : Nat × Bool × String :=
  (record.updatedAtMs, record.deleted, record.deviceId)

theorem orderKey_eq_iff {a b : Record} : a.orderKey = b.orderKey ↔ a.stamp = b.stamp := by
  rw [stamp_eq_iff]
  simp [Record.orderKey]

/-- A cached row after one more revision arrived. -/
def takeMerged (cached : LocalRecord) (remote : Record) : LocalRecord :=
  match merge (some cached) remote with
  | .KeepLocal => cached
  | .TakeRemote | .RemoteWinsOverDirtyLocal => { cached with record := remote, dirty := false }

theorem takeMerged_spec (cached : LocalRecord) (remote : Record) :
    ((takeMerged cached remote).record = cached.record ∨ (takeMerged cached remote).record = remote) ∧
      (takeMerged cached remote).record.stamp = max cached.record.stamp remote.stamp := by
  unfold takeMerged
  cases outcome : merge (some cached) remote with
  | KeepLocal => exact ⟨.inl rfl, (max_eq_left (merge_keepLocal_iff.mp outcome)).symm⟩
  | TakeRemote =>
    have wins := merge_ne_keepLocal_iff.mp (by rw [outcome]; decide)
    exact ⟨.inr rfl, (max_eq_right (le_of_lt wins)).symm⟩
  | RemoteWinsOverDirtyLocal =>
    have wins := merge_ne_keepLocal_iff.mp (by rw [outcome]; decide)
    exact ⟨.inr rfl, (max_eq_right (le_of_lt wins)).symm⟩

/-- The row that is left after all revisions is one of them and the greatest. -/
theorem foldl_takeMerged_spec (rest : List Record) (cached : LocalRecord) :
    (rest.foldl takeMerged cached).record ∈ cached.record :: rest ∧
      ∀ revision ∈ cached.record :: rest,
        revision.stamp ≤ (rest.foldl takeMerged cached).record.stamp := by
  induction rest generalizing cached with
  | nil => simp
  | cons next rest ih =>
    rw [List.foldl_cons]
    obtain ⟨either, greatest⟩ := takeMerged_spec cached next
    obtain ⟨member, above⟩ := ih (takeMerged cached next)
    constructor
    · obtain here | later := List.mem_cons.mp member
      · rw [here]
        obtain kept | taken := either
        · simp [kept]
        · simp [taken]
      · simp [later]
    · have top := above _ List.mem_cons_self
      rw [greatest, max_le_iff] at top
      intro revision inside
      obtain rfl | inside := List.mem_cons.mp inside
      · exact top.1
      · obtain rfl | inside := List.mem_cons.mp inside
        · exact top.2
        · exact above revision (List.mem_cons_of_mem _ inside)

/-- Revisions with distinct keys have one winner, in whatever order they are merged and
whichever of them comes first. -/
theorem foldl_takeMerged_winner {revisions : List Record} (some_ : revisions ≠ [])
    (distinct : (revisions.map Record.orderKey).Nodup) :
    ∃ winner ∈ revisions, (∀ other ∈ revisions, other ≠ winner → Beats other winner) ∧
      ∀ start rest seq dirty, (start :: rest).Perm revisions →
        (rest.foldl takeMerged { record := start, seq, dirty }).record = winner := by
  obtain ⟨head, tail, rfl⟩ := List.exists_cons_of_ne_nil some_
  obtain ⟨member, above⟩ := foldl_takeMerged_spec tail { record := head, seq := 0, dirty := false }
  set winner := (tail.foldl takeMerged { record := head, seq := 0, dirty := false }).record
  have unique : ∀ other ∈ head :: tail, other.stamp = winner.stamp → other = winner := by
    intro other inside same
    exact List.inj_on_of_nodup_map distinct inside member (orderKey_eq_iff.mpr same)
  refine ⟨winner, member, ?_, ?_⟩
  · intro other inside apart
    refine beats_iff.mpr (lt_of_le_of_ne (above other inside) ?_)
    exact fun same => apart (unique other inside same)
  · intro start rest seq dirty perm
    obtain ⟨member', above'⟩ := foldl_takeMerged_spec rest { record := start, seq, dirty }
    have inside := perm.mem_iff.mp member'
    refine unique _ inside (le_antisymm (above _ inside) ?_)
    exact above' winner (perm.mem_iff.mpr member)

/-! ## Stamping a local revision -/

/-- `new` wins over `old` and counts higher. -/
structure Replaces (old new : Record) : Prop where
  beats : Beats old new
  version : old.version < new.version

theorem Replaces.trans {a b c : Record} (first : Replaces a b) (second : Replaces b c) : Replaces a c where
  beats := beats_iff.mpr (lt_trans (beats_iff.mp first.beats) (beats_iff.mp second.beats))
  version := lt_trans first.version second.version

/-- Only the order fields of the replaced revision count. -/
theorem Replaces.of_same_order {old old' new : Record} (replaces : Replaces old new)
    (key : old'.orderKey = old.orderKey) (version : old'.version = old.version) : Replaces old' new where
  beats := by
    rw [beats_iff, orderKey_eq_iff.mp key]
    exact beats_iff.mp replaces.beats
  version := by
    rw [version]
    exact replaces.version

theorem orderedRecord_replaces {deviceId id : String} {payload : Json} {deleted : Bool} {now : Nat}
    {previous : List Record} {record : Record}
    (ordered : orderedRecord deviceId id payload deleted now previous = .ok record) {old : Record}
    (member : old ∈ previous) {new : Record} (version : new.version = record.version)
    (time : new.updatedAtMs = record.updatedAtMs) : Replaces old new := by
  obtain ⟨_, _, _, _, _, _, earlier⟩ := orderedRecord_spec ordered
  obtain ⟨lower, before⟩ := earlier old member
  exact ⟨beats_of_newer (by rw [time]; exact before), by rw [version]; exact lower⟩

theorem checkedSucc_eq_error {id : String} {n : Nat} {error : RepositoryError}
    (failed : checkedSucc id n = .error error) : error = .OrderingOverflow id := by
  unfold checkedSucc at failed
  split at failed
  · cases failed
  · cases failed
    rfl

/-- The only way not to get a revision is to run out of numbers. -/
theorem orderedRecord_eq_error {deviceId id : String} {payload : Json} {deleted : Bool} {now : Nat}
    {previous : List Record} {error : RepositoryError}
    (failed : orderedRecord deviceId id payload deleted now previous = .error error) :
    error = .OrderingOverflow id := by
  unfold orderedRecord at failed
  cases counted : checkedSucc id ((previous.map (·.version)).foldl max 0) with
  | error other =>
    rw [counted] at failed
    cases failed
    exact checkedSucc_eq_error counted
  | ok version =>
    rw [counted, Result.ok_bind] at failed
    cases newest : (previous.map (·.updatedAtMs)).max? with
    | none =>
      simp only [newest] at failed
      cases failed
    | some latest =>
      simp only [newest] at failed
      split at failed
      · cases stamped : checkedSucc id latest with
        | error other =>
          rw [stamped] at failed
          cases failed
          exact checkedSucc_eq_error stamped
        | ok time =>
          rw [stamped] at failed
          cases failed
      · cases failed

/-- Stamping never leaves the machine's numbers. -/
theorem orderedRecord_fits {deviceId id : String} {payload : Json} {deleted : Bool} {now : Nat}
    {previous : List Record} {record : Record} (clock : now ≤ u64Max)
    (ordered : orderedRecord deviceId id payload deleted now previous = .ok record) :
    record.version ≤ u64Max ∧ record.updatedAtMs ≤ u64Max := by
  obtain ⟨version, counted, ordered⟩ := Result.bind_eq_ok.mp ordered
  obtain ⟨room, rfl⟩ := checkedSucc_eq_ok.mp counted
  simp only at ordered
  split at ordered
  · cases ordered
    exact ⟨room, clock⟩
  · split at ordered
    · obtain ⟨time, stamped, made⟩ := Result.bind_eq_ok.mp ordered
      obtain ⟨later, rfl⟩ := checkedSucc_eq_ok.mp stamped
      cases made
      exact ⟨room, later⟩
    · cases ordered
      exact ⟨room, clock⟩

/-- Counting up a version and a time fails only when one of them has no successor. -/
theorem checkedSuccs_eq_error {α : Type} {id : String} {version time : Nat} {make : Nat → Nat → Repo α}
    {error : RepositoryError} (made : ∀ v t, ∃ a, make v t = .ok a)
    (failed : (checkedSucc id version >>= fun v => checkedSucc id time >>= fun t => make v t) = .error error) :
    error = .OrderingOverflow id := by
  cases counted : checkedSucc id version with
  | error other =>
    rw [counted] at failed
    cases failed
    exact checkedSucc_eq_error counted
  | ok v =>
    rw [counted, Result.ok_bind] at failed
    cases stamped : checkedSucc id time with
    | error other =>
      rw [stamped] at failed
      cases failed
      exact checkedSucc_eq_error stamped
    | ok t =>
      obtain ⟨a, ok⟩ := made v t
      rw [stamped, Result.ok_bind, ok] at failed
      cases failed

end Sshelter.Sync
