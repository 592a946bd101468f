import Sshelter.Sync.Groups.Edit
import Sshelter.Verified.Hosts
import Sshelter.Verified.PlainPrimitives

/-! # Repairing groups

A group forest that several devices edited can have groups whose ancestors do not
resolve and siblings of one name.  `validate_groups` looks at the edited scope as a
whole and does not compare it with the scope before the edit, so an edit is only
accepted if it leaves no defect behind.
-/

namespace Sshelter.Sync

inductive GroupDefect where
  /-- A live group whose ancestor path fails. -/
  | path (id : String)
  /-- Two live siblings with the same name. -/
  | name (id other : String)
deriving DecidableEq, Repr

/-- The parent and the name that siblings must not share. -/
def GroupView.siblingName (view : GroupView) : Option String × String :=
  (view.group.payload.parentId, view.group.payload.name)

theorem readGroup_spec {state : SyncStateV3} {scope : HostScope} {key : String} {row : LocalRecord}
    {views : List GroupView} (read : readGroup state scope (key, row) = .ok views) :
    views.length ≤ 1 ∧ ∀ view ∈ views, view.group.scope = scope ∧ key = recordKey .Group view.group.id := by
  unfold readGroup at read
  by_cases grouped : row.record.kind = .Group
  · simp only [grouped, bne_self_eq_false, Bool.false_eq_true, if_false] at read
    rw [Result.check_eq_ok, validateCache_isOk] at read
    obtain ⟨cached, read⟩ := read
    obtain ⟨decoded, found, read⟩ := Result.bind_eq_ok.mp read
    have decodes : decodeGroup row.record scope = .ok decoded := Result.mapError_eq_ok.mp found
    cases decoded with
    | Tombstone id =>
      cases read
      simp
    | Live group =>
      cases read
      obtain ⟨_, _, id, placed, _⟩ := decodeGroup_live decodes
      refine ⟨le_refl _, fun view member => ?_⟩
      obtain rfl := List.mem_singleton.mp member
      refine ⟨placed, ?_⟩
      rw [cached.key, grouped, id]
  · have other : (row.record.kind != .Group) = true := by simpa using grouped
    simp only [other, if_true] at read
    cases read
    simp

theorem validateSiblings_isOk {state : SyncStateV3} {scope : HostScope} {views : List GroupView}
    {seen : List (Option String × String)} :
    validateSiblings state scope seen views = .ok () ↔
      (∀ view ∈ views, (ancestorPath state scope (some view.group.id)).isOk = true) ∧
        (views.map GroupView.siblingName).Nodup ∧ ∀ view ∈ views, view.siblingName ∉ seen := by
  induction views generalizing seen with
  | nil => simp [validateSiblings]
  | cons view rest ih =>
    rw [validateSiblings, Result.bind_eq_ok]
    simp only [Result.check_eq_ok, Result.refuse_eq_ok, decide_eq_false_iff_not, ih, List.mem_cons,
      forall_eq_or_imp, List.map_cons, List.nodup_cons, exists_and_right, ← Result.isOk_iff, not_or,
      List.mem_map, not_exists, not_and]
    constructor
    · rintro ⟨path, unseen, paths, names, apart⟩
      exact ⟨⟨path, paths⟩, ⟨fun other member same => (apart other member).1 same, names⟩,
        unseen, fun other member => (apart other member).2⟩
    · rintro ⟨⟨path, paths⟩, ⟨fresh, names⟩, unseen, apart⟩
      exact ⟨path, unseen, paths, names, fun other member => ⟨fresh other member, apart other member⟩⟩

inductive GroupEdit where
  | update (id : String) (expected : RecordRevision) (payload : GroupPayload)
  | delete (id : String) (expected : RecordRevision) (reviewed : Option String)

namespace GroupEdit

section
variable (P : Primitives) (token : RepositorySnapshot → String) (state : SyncStateV3) (now : Nat)

def run : GroupEdit → Repo SyncStateV3
  | update id expected payload => updateGroup P state id expected payload now
  | delete id expected reviewed => deleteGroup P token state id expected reviewed now

/-- The scope and the records the edit would leave, pins aside. -/
def result : GroupEdit → Repo (HostScope × SyncStateV3)
  | update id expected payload => updatedGroup state id expected payload now
  | delete id expected reviewed => deletedGroups P token state id expected reviewed now

/-- The hosts that leave their group in a deletion. -/
def members : GroupEdit → Repo (List HostView)
  | update _ _ _ => .ok []
  | delete id expected _ => do
    let root ← checkedGroup state id expected
    let library ← snapshot P state
    let groups ← listGroups state
    return groupMembers library root.group.scope (removedGroups groups root.group.scope id)

end

end GroupEdit

section
variable {P : Primitives} {token : RepositorySnapshot → String} {state : SyncStateV3} {now : Nat}

end

/-! ## Two independent duplicates

Two devices each created a group `a`, two others a group `b`.  Renaming one of the first pair
repairs it and is turned down because of the second. -/

namespace Sample

def firstGroup : String := "aaaaaaaaaaaaaaa1"

/-- Renames the first group of the first pair. -/
def rename : GroupEdit :=
  .update firstGroup { version := 1, updatedAtMs := 5, deviceId := device }
    { schema := GROUP_SCHEMA, name := "c", parentId := none, defaults := GroupDefaults.empty }

def plain : Primitives := tablePrimitives [] []

end Sample

end Sshelter.Sync
