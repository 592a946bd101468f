import Sshelter.Verified.Hosts

/-! # Routes under a renaming of hosts

A route is computed on positions in the list of hosts.  Two lists with the same hosts in
any order, their ids renamed, give the same routes up to the renaming: positions that stand
for one host are related, and the walk compares positions only through the ids that led to
them.
-/

namespace Sshelter.Sync

variable {hosts old new : List HostView} {rename : String → String}

/-! ## The hosts on a route -/

def idAt (hosts : List HostView) (index : Nat) : String := ((hosts[index]?).map (·.host.id)).getD ""

/-- The route of a host as ids, the host itself last. -/
def routeIds (hosts : List HostView) (id : String) : Validated (List String) :=
  (routeIndices hosts id).map (List.map (idAt hosts))

theorem length_named (hosts : List HostView) (id : String) :
    (hosts.zipIdx.filter fun (view, _) => view.host.id == id).length = (hosts.map (·.host.id)).count id := by
  rw [← List.countP_eq_length_filter, List.count, List.countP_map]
  have : hosts = hosts.zipIdx.map Prod.fst := by simp
  conv_rhs => rw [this, List.countP_map]
  rfl

/-- A host is found by its id exactly when it is the only one with it. -/
theorem hostIndex_isOk_iff {id : String} :
    (∃ index, hostIndex hosts id = .ok index) ↔ (hosts.map (·.host.id)).count id = 1 := by
  rw [← length_named, List.length_eq_one_iff]
  constructor
  · rintro ⟨index, h⟩
    obtain ⟨view, only⟩ := hostIndex_eq_ok.mp h
    exact ⟨_, only⟩
  · rintro ⟨⟨view, index⟩, only⟩
    exact ⟨index, hostIndex_eq_ok.mpr ⟨view, only⟩⟩

/-! ## Renamed lists -/

/-- Every id that the hosts have or jump to. -/
def hostNames (hosts : List HostView) : List String :=
  hosts.flatMap fun view => view.host.id :: view.effectivePayload.jump

/-- The new hosts are the old ones in some order under new ids. -/
structure Renamed (rename : String → String) (old new : List HostView) : Prop where
  injective : ∀ a ∈ hostNames old, ∀ b ∈ hostNames old, rename a = rename b → a = b
  alike : (new.map fun view => (view.host.id, view.effectivePayload.jump)).Perm
    (old.map fun view => (rename view.host.id, view.effectivePayload.jump.map rename))

theorem id_mem_hostNames {view : HostView} (member : view ∈ hosts) : view.host.id ∈ hostNames hosts :=
  List.mem_flatMap.mpr ⟨view, member, List.mem_cons_self⟩

theorem mem_hostNames_of_index {id : String} {index : Nat} (h : hostIndex hosts id = .ok index) :
    id ∈ hostNames hosts := by
  obtain ⟨view, found, rfl⟩ := hostIndex_id h
  exact id_mem_hostNames (List.mem_of_getElem? found)

/-- Positions of one host in the two lists. -/
def SameHost (rename : String → String) (old new : List HostView) (i j : Nat) : Prop :=
  ∃ id, hostIndex old id = .ok i ∧ hostIndex new (rename id) = .ok j

namespace Renamed

/-- The host at the related position has the renamed jumps. -/
theorem counterpart (renamed : Renamed rename old new) {id : String} {i : Nat}
    (h : hostIndex old id = .ok i) : ∃ j, hostIndex new (rename id) = .ok j := by
  have known := mem_hostNames_of_index h
  rw [hostIndex_isOk_iff]
  have once := hostIndex_isOk_iff.mp ⟨i, h⟩
  have ids : (new.map (·.host.id)).Perm ((old.map (·.host.id)).map rename) := by
    have := renamed.alike.map Prod.fst
    simpa [List.map_map, Function.comp_def] using this
  rw [ids.count_eq, ← once]
  simp only [List.count, List.countP_map]
  apply List.countP_congr
  intro view member
  have inOld : view.host.id ∈ hostNames old := id_mem_hostNames member
  simp only [Function.comp_apply, beq_iff_eq]
  exact ⟨fun same => renamed.injective _ inOld _ known same, fun same => by rw [same]⟩

theorem jumps (renamed : Renamed rename old new) {i j : Nat} (same : SameHost rename old new i j) :
    ∃ view view', old[i]? = some view ∧ new[j]? = some view' ∧ view'.host.id = rename view.host.id ∧
      view'.effectivePayload.jump = view.effectivePayload.jump.map rename := by
  obtain ⟨id, atOld, atNew⟩ := same
  obtain ⟨view, found, rfl⟩ := hostIndex_id atOld
  obtain ⟨view', found', id'⟩ := hostIndex_id atNew
  refine ⟨view, view', found, found', id', ?_⟩
  -- the new host is some old host's image, and only this one has the id
  have inNew : (view'.host.id, view'.effectivePayload.jump) ∈
      new.map fun view => (view.host.id, view.effectivePayload.jump) :=
    List.mem_map_of_mem (List.mem_of_getElem? found')
  obtain ⟨other, inOld, image⟩ := List.mem_map.mp (renamed.alike.mem_iff.mp inNew)
  obtain ⟨otherId, otherJump⟩ := Prod.mk.inj image
  have sameId : other.host.id = view.host.id :=
    renamed.injective _ (id_mem_hostNames inOld) _ (mem_hostNames_of_index atOld) (otherId.trans id')
  obtain ⟨place, here⟩ := List.getElem?_of_mem inOld
  obtain rfl := hostIndex_only atOld here sameId
  have equal : other = view := Option.some.inj (here.symm.trans found)
  rw [← otherJump, equal]

/-- Related positions are equal together. -/
theorem eq_iff (renamed : Renamed rename old new) {i j i' j' : Nat} (left : SameHost rename old new i i')
    (right : SameHost rename old new j j') : i = j ↔ i' = j' := by
  obtain ⟨a, oldA, newA⟩ := left
  obtain ⟨b, oldB, newB⟩ := right
  constructor
  · rintro rfl
    obtain ⟨view, found, rfl⟩ := hostIndex_id oldA
    obtain ⟨view', found', rfl⟩ := hostIndex_id oldB
    obtain rfl : view = view' := Option.some.inj (found.symm.trans found')
    exact Except.ok.inj (newA.symm.trans newB)
  · rintro rfl
    obtain ⟨view, found, idA⟩ := hostIndex_id newA
    obtain ⟨view', found', idB⟩ := hostIndex_id newB
    obtain rfl : view = view' := Option.some.inj (found.symm.trans found')
    obtain rfl : a = b := renamed.injective _ (mem_hostNames_of_index oldA) _ (mem_hostNames_of_index oldB)
      (idA.symm.trans idB)
    exact Except.ok.inj (oldA.symm.trans oldB)

theorem contains_eq (renamed : Renamed rename old new) {list list' : List Nat} {i i' : Nat}
    (lists : List.Forall₂ (SameHost rename old new) list list') (same : SameHost rename old new i i') :
    list'.contains i' = list.contains i := by
  induction lists with
  | nil => rfl
  | cons head _ ih =>
    have first := renamed.eq_iff same head
    simp only [List.contains_cons, ih]
    congr 1
    simp [beq_eq_decide, first]

theorem jumpIndex_ok (renamed : Renamed rename old new) {host : HostRecord} (host' : HostRecord) {id : String} {i : Nat}
    (h : jumpIndex old host id = .ok i) :
    ∃ j, jumpIndex new host' (rename id) = .ok j ∧ SameHost rename old new i j := by
  have found : hostIndex old id = .ok i := by
    unfold jumpIndex at h
    split at h
    · cases h
    · exact h
  obtain ⟨j, found'⟩ := renamed.counterpart found
  refine ⟨j, ?_, id, found, found'⟩
  rw [jumpIndex, found']

theorem addHop_ok (renamed : Renamed rename old new) {root : String} (root' : String) {out out' result : List Nat}
    {i i' : Nat} (outs : List.Forall₂ (SameHost rename old new) out out') (same : SameHost rename old new i i')
    (h : addHop old root out i = .ok result) :
    ∃ result', addHop new root' out' i' = .ok result' ∧
      List.Forall₂ (SameHost rename old new) result result' := by
  rw [addHop, Result.refuse_bind_eq_ok, Result.refuse_bind_eq_ok] at h
  obtain ⟨fresh, short, h⟩ := h
  cases h
  refine ⟨out' ++ [i'], ?_, List.rel_append outs (.cons same .nil)⟩
  rw [addHop, Result.refuse_bind_eq_ok, Result.refuse_bind_eq_ok, renamed.contains_eq outs same]
  refine ⟨fresh, ?_, rfl⟩
  rw [← short]
  simp [outs.length_eq]

theorem addJump_ok (renamed : Renamed rename old new) {host : HostRecord} (host' : HostRecord) {root : String}
    (root' : String)
    {stack stack' out out' result : List Nat} {id : String}
    (paths : List.Forall₂ (SameHost rename old new) stack stack')
    (outs : List.Forall₂ (SameHost rename old new) out out')
    (h : addJump old host root stack out id = .ok result) :
    ∃ result', addJump new host' root' stack' out' (rename id) = .ok result' ∧
      List.Forall₂ (SameHost rename old new) result result' := by
  obtain ⟨i, jump, h⟩ := Result.bind_eq_ok.mp h
  rw [Result.refuse_bind_eq_ok] at h
  obtain ⟨i', jump', same⟩ := renamed.jumpIndex_ok host' jump
  obtain ⟨result', hop, results⟩ := renamed.addHop_ok root' outs same h.2
  refine ⟨result', ?_, results⟩
  rw [addJump, jump', Result.ok_bind, Result.refuse_bind_eq_ok, renamed.contains_eq paths same]
  exact ⟨h.1, hop⟩

theorem addJumps_ok (renamed : Renamed rename old new) {host : HostRecord} (host' : HostRecord) {root : String}
    (root' : String)
    {stack stack' : List Nat} (paths : List.Forall₂ (SameHost rename old new) stack stack')
    {ids : List String} {out out' result : List Nat}
    (outs : List.Forall₂ (SameHost rename old new) out out')
    (h : ids.foldlM (addJump old host root stack) out = .ok result) :
    ∃ result', (ids.map rename).foldlM (addJump new host' root' stack') out' = .ok result' ∧
      List.Forall₂ (SameHost rename old new) result result' := by
  induction ids generalizing out out' with
  | nil =>
    cases h
    exact ⟨out', rfl, outs⟩
  | cons id rest ih =>
    rw [List.foldlM_cons] at h
    obtain ⟨next, jump, h⟩ := Result.bind_eq_ok.mp h
    obtain ⟨next', jump', nexts⟩ := renamed.addJump_ok host' root' paths outs jump
    obtain ⟨result', run, results⟩ := ih nexts h
    refine ⟨result', ?_, results⟩
    rw [List.map_cons, List.foldlM_cons, jump', Result.ok_bind, run]

/-- The walk from related positions ends at related positions. -/
theorem appendRoute_ok (renamed : Renamed rename old new) {root : String} (root' : String) {fuel i i' : Nat}
    {stack stack' out out' result : List Nat} (same : SameHost rename old new i i')
    (paths : List.Forall₂ (SameHost rename old new) stack stack')
    (outs : List.Forall₂ (SameHost rename old new) out out')
    (h : appendRoute old root fuel i stack out = .ok result) :
    ∃ result', appendRoute new root' fuel i' stack' out' = .ok result' ∧
      List.Forall₂ (SameHost rename old new) result result' := by
  induction fuel generalizing i i' stack stack' out out' result with
  | zero => cases h
  | succ fuel ih =>
    obtain ⟨view, view', found, found', -, jumps⟩ := renamed.jumps same
    simp only [appendRoute, found, Result.refuse_bind_eq_ok] at h
    obtain ⟨fresh, shallow, h⟩ := h
    have deeper : List.Forall₂ (SameHost rename old new) (i :: stack) (i' :: stack') := .cons same paths
    have shallow' : decide (MAX_JUMPS + 1 < (i' :: stack').length) = false := by
      rw [← shallow]
      simp [paths.length_eq]
    simp only [appendRoute, found', Result.refuse_bind_eq_ok, renamed.contains_eq paths same, jumps]
    cases route : view.effectivePayload.jump with
    | nil =>
      simp only [route, Result.ok_bind] at h
      obtain ⟨result', hop, results⟩ := renamed.addHop_ok root' outs same h
      exact ⟨result', ⟨fresh, shallow', by simpa using hop⟩, results⟩
    | cons first rest =>
      simp only [route] at h
      obtain ⟨jump, at_, h⟩ := Result.bind_eq_ok.mp h
      rw [Result.refuse_bind_eq_ok] at h
      obtain ⟨noCycle, h⟩ := h
      obtain ⟨nested, inside, h⟩ := Result.bind_eq_ok.mp h
      obtain ⟨middle, walked, h⟩ := Result.bind_eq_ok.mp h
      -- the first jump with its own route, then the other jumps, then the host itself
      obtain ⟨jump', at', sameJump⟩ := renamed.jumpIndex_ok view'.host at_
      obtain ⟨nested', inside', nests⟩ := ih sameJump deeper outs inside
      obtain ⟨middle', walked', middles⟩ := renamed.addJumps_ok view'.host root' deeper nests walked
      obtain ⟨result', hop, results⟩ := renamed.addHop_ok root' middles same h
      refine ⟨result', ⟨fresh, shallow', ?_⟩, results⟩
      simp only [List.map_cons]
      rw [at', Result.ok_bind, Result.refuse_bind_eq_ok, renamed.contains_eq deeper sameJump]
      refine ⟨noCycle, ?_⟩
      rw [inside', Result.ok_bind, walked', Result.ok_bind, hop]

theorem idAt_eq (renamed : Renamed rename old new) {i j : Nat} (same : SameHost rename old new i j) :
    idAt new j = rename (idAt old i) := by
  obtain ⟨view, view', found, found', id, -⟩ := renamed.jumps same
  simp [idAt, found, found', id]

/-- Every resolved route is kept under the renaming. -/
theorem routeIds_ok (renamed : Renamed rename old new) {id : String} {ids : List String}
    (h : routeIds old id = .ok ids) : routeIds new (rename id) = .ok (ids.map rename) := by
  unfold routeIds at h
  cases indices : routeIndices old id with
  | error e =>
    rw [indices] at h
    cases h
  | ok result =>
    rw [indices] at h
    cases h
    obtain ⟨i, found, walked⟩ := Result.bind_eq_ok.mp indices
    obtain ⟨j, found'⟩ := renamed.counterpart found
    obtain ⟨result', walked', results⟩ :=
      renamed.appendRoute_ok (rename id) ⟨id, found, found'⟩ .nil .nil walked
    rw [routeIds, routeIndices, found', Result.ok_bind, walked']
    show Except.ok (result'.map (idAt new)) = _
    congr 1
    rw [List.map_map]
    clear walked walked' indices
    induction results with
    | nil => rfl
    | cons head _ ih => simp [renamed.idAt_eq head, ih]

end Renamed

end Sshelter.Sync
