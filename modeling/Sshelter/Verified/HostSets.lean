import Sshelter.Sync.RecordsV3.HostSet
import Sshelter.Verified.Routes

/-! # Sets of hosts that validate

The strict check walks routes by id where a snapshot walks them by position.  On hosts whose
ids are distinct both walks take the same steps, so a set of hosts validates as soon as every
route of its views resolves.
-/

namespace Sshelter.Sync

open RecordsV3 (addHost findJump addLater appendChain chainIds indexHost HostIndex)

variable {P : Primitives}

/-- A host with settings of its own, as a library shows it. -/
def HostRecord.plainView (host : HostRecord) : HostView :=
  { host, effectivePayload := host.payload, inheritedFrom := ∅, groupError := none
    revision := { version := 0, updatedAtMs := 0, deviceId := "" }, readiness := .Ready }

/-! ## Jumps of a resolved route -/

theorem hostIndex_of_jumpIndex {hosts : List HostView} {host : HostRecord} {id : String} {index : Nat}
    (found : jumpIndex hosts host id = .ok index) : hostIndex hosts id = .ok index := by
  unfold jumpIndex at found
  split at found
  · cases found
  · exact found

/-- Every jump of a host whose route resolves is a host of the list. -/
theorem jumps_of_route {hosts : List HostView} {view : HostView} (member : view ∈ hosts)
    (resolves : (routeIndices hosts view.host.id).isOk = true) {jump : String}
    (jumps : jump ∈ view.effectivePayload.jump) : ∃ other ∈ hosts, other.host.id = jump := by
  have known {id : String} {index : Nat} (found : hostIndex hosts id = .ok index) :
      ∃ other ∈ hosts, other.host.id = id := by
    obtain ⟨other, here, named⟩ := hostIndex_id found
    exact ⟨other, List.mem_of_getElem? here, named⟩
  have later {host : HostRecord} {root : String} {stack out result : List Nat} {ids : List String}
      (walked : ids.foldlM (addJump hosts host root stack) out = .ok result) :
      ∀ id ∈ ids, ∃ other ∈ hosts, other.host.id = id := by
    induction ids generalizing out with
    | nil => simp
    | cons first rest ih =>
      rw [List.foldlM_cons] at walked
      obtain ⟨next, step, walked⟩ := Result.bind_eq_ok.mp walked
      obtain ⟨index, found, _⟩ := Result.bind_eq_ok.mp step
      intro id here
      obtain rfl | after := List.mem_cons.mp here
      · exact known (hostIndex_of_jumpIndex found)
      · exact ih walked id after
  obtain ⟨route, walked⟩ := Result.isOk_iff.mp resolves
  obtain ⟨index, found, walked⟩ := Result.bind_eq_ok.mp walked
  -- the id is the host's alone, so the walk starts at the host itself
  have here : hosts[index]? = some view := by
    obtain ⟨place, at_⟩ := List.getElem?_of_mem member
    rwa [← hostIndex_only found at_ rfl]
  simp only [appendRoute, here, Result.refuse_bind_eq_ok] at walked
  obtain ⟨_, _, walked⟩ := walked
  cases list : view.effectivePayload.jump with
  | nil =>
    rw [list] at jumps
    cases jumps
  | cons first rest =>
    simp only [list] at walked
    obtain ⟨next, found, walked⟩ := Result.bind_eq_ok.mp walked
    rw [Result.refuse_bind_eq_ok] at walked
    obtain ⟨nested, _, walked⟩ := Result.bind_eq_ok.mp walked.2
    obtain ⟨middle, walked, _⟩ := Result.bind_eq_ok.mp walked
    rw [list] at jumps
    obtain rfl | after := List.mem_cons.mp jumps
    · exact known (hostIndex_of_jumpIndex found)
    · exact later walked jump after

/-! ## One walk -/

section Walk
variable {views : List HostView} {ids : BTreeMap HostRecord}

/-- The position of a host that is found by its id. -/
def Placed (views : List HostView) (index : Nat) : Prop := hostIndex views (idAt views index) = .ok index

/-- The map has every host of the list under its id. -/
def Indexes (ids : BTreeMap HostRecord) (views : List HostView) : Prop :=
  ∀ view ∈ views, ∃ host, ids[view.host.id]? = some host ∧ host.id = view.host.id ∧
    host.payload.jump = view.effectivePayload.jump

theorem idAt_of_hostIndex {id : String} {index : Nat} (found : hostIndex views id = .ok index) :
    idAt views index = id ∧ Placed views index := by
  obtain ⟨view, here, rfl⟩ := hostIndex_id found
  have same : idAt views index = view.host.id := by simp [idAt, here]
  exact ⟨same, by rw [Placed, same, found]⟩

theorem Placed.eq_of_id {i j : Nat} (left : Placed views i) (right : Placed views j)
    (same : idAt views i = idAt views j) : i = j := by
  unfold Placed at left right
  rw [same, right] at left
  exact (Except.ok.inj left).symm

theorem contains_ids {list : List Nat} {i : Nat} (placed : ∀ j ∈ list, Placed views j) (here : Placed views i) :
    (list.map (idAt views)).contains (idAt views i) = list.contains i := by
  rw [Bool.eq_iff_iff, List.contains_iff_mem, List.contains_iff_mem, List.mem_map]
  constructor
  · rintro ⟨j, member, same⟩
    rwa [← (placed j member).eq_of_id here same]
  · intro member
    exact ⟨i, member, rfl⟩

/-- The host of the map at a position of the list. -/
theorem Indexes.host_at (indexed : Indexes ids views) {i : Nat} (here : Placed views i) :
    ∃ view host, views[i]? = some view ∧ ids[idAt views i]? = some host ∧ host.id = idAt views i ∧
      host.payload.jump = view.effectivePayload.jump := by
  obtain ⟨view, found, same⟩ := hostIndex_id here
  obtain ⟨host, known, id, jump⟩ := indexed view (List.mem_of_getElem? found)
  rw [same] at known id
  exact ⟨view, host, found, known, id, jump⟩

theorem addHost_ids {root : String} (root' : String) {out result : List Nat} {i : Nat} {host : HostRecord}
    (outs : ∀ j ∈ out, Placed views j) (here : Placed views i) (id : host.id = idAt views i)
    (added : addHop views root out i = .ok result) :
    addHost root' (out.map (idAt views)) host = .ok (result.map (idAt views)) ∧
      ∀ j ∈ result, Placed views j := by
  rw [addHop, Result.refuse_bind_eq_ok, Result.refuse_bind_eq_ok] at added
  obtain ⟨fresh, short, added⟩ := added
  cases added
  constructor
  · rw [addHost, id, contains_ids outs here, fresh, Result.refuse_false, Result.ok_bind,
      Result.refuse_bind_eq_ok]
    refine ⟨?_, by simp; rfl⟩
    rw [← short]
    simp
  · intro j member
    obtain before | same := List.mem_append.mp member
    · exact outs j before
    · rwa [List.mem_singleton.mp same]

theorem findJump_ids (indexed : Indexes ids views) (current : HostRecord) {host : HostRecord} (root : String)
    {stack : List Nat} {id : String} {i : Nat} (paths : ∀ j ∈ stack, Placed views j)
    (found : jumpIndex views host id = .ok i) (noCycle : stack.contains i = false) :
    ∃ jump view, findJump ids current root (stack.map (idAt views)) id = .ok jump ∧ Placed views i ∧
      views[i]? = some view ∧ ids[idAt views i]? = some jump ∧ jump.id = idAt views i ∧
      jump.payload.jump = view.effectivePayload.jump := by
  obtain ⟨same, here⟩ := idAt_of_hostIndex (hostIndex_of_jumpIndex found)
  obtain ⟨view, jump, position, known, named, jumps⟩ := indexed.host_at here
  refine ⟨jump, view, ?_, here, position, known, named, jumps⟩
  rw [same] at known
  rw [findJump, known]
  have clear : (stack.map (idAt views)).contains id = false := by
    rw [← same, contains_ids paths here, noCycle]
  simp only [clear, Result.refuse_false, Result.ok_bind]
  rfl

theorem addLater_ids (indexed : Indexes ids views) (current : HostRecord) {host : HostRecord} {root : String}
    (root' : String) {stack : List Nat} (paths : ∀ j ∈ stack, Placed views j) {jumps : List String} {out result : List Nat}
    (outs : ∀ j ∈ out, Placed views j)
    (walked : jumps.foldlM (addJump views host root stack) out = .ok result) :
    jumps.foldlM (addLater ids current root' (stack.map (idAt views))) (out.map (idAt views)) =
        .ok (result.map (idAt views)) ∧ ∀ j ∈ result, Placed views j := by
  induction jumps generalizing out with
  | nil =>
    cases walked
    exact ⟨rfl, outs⟩
  | cons id rest ih =>
    rw [List.foldlM_cons] at walked
    obtain ⟨next, first, walked⟩ := Result.bind_eq_ok.mp walked
    obtain ⟨i, found, first⟩ := Result.bind_eq_ok.mp first
    rw [Result.refuse_bind_eq_ok] at first
    obtain ⟨jump, view, taken, here, _, _, named, _⟩ :=
      findJump_ids indexed current root' paths found first.1
    obtain ⟨added, outs'⟩ := addHost_ids root' outs here named first.2
    obtain ⟨ran, results⟩ := ih outs' walked
    refine ⟨?_, results⟩
    rw [List.foldlM_cons, addLater, taken, Result.ok_bind, added, Result.ok_bind, ran]

/-- The walk by position and the walk by id end at the same hosts. -/
theorem appendChain_ids (indexed : Indexes ids views) {root : String} (root' : String) {fuel i : Nat}
    {stack out result : List Nat} {view : HostView} {host : HostRecord} (position : views[i]? = some view)
    (id : host.id = idAt views i) (jump : host.payload.jump = view.effectivePayload.jump)
    (here : Placed views i) (paths : ∀ j ∈ stack, Placed views j) (outs : ∀ j ∈ out, Placed views j)
    (walked : appendRoute views root fuel i stack out = .ok result) :
    appendChain ids root' fuel host (stack.map (idAt views)) (out.map (idAt views)) =
        .ok (result.map (idAt views)) ∧ ∀ j ∈ result, Placed views j := by
  induction fuel generalizing i stack out result view host with
  | zero => cases walked
  | succ fuel ih =>
    simp only [appendRoute, position, Result.refuse_bind_eq_ok] at walked
    obtain ⟨fresh, shallow, walked⟩ := walked
    have deeper : ∀ j ∈ i :: stack, Placed views j := by
      intro j member
      obtain rfl | before := List.mem_cons.mp member
      · exact here
      · exact paths j before
    have path : idAt views i :: stack.map (idAt views) = (i :: stack).map (idAt views) := rfl
    have shallow' : decide (MAX_JUMPS + 1 < ((i :: stack).map (idAt views)).length) = false := by
      rw [← shallow]
      simp
    simp only [appendChain, id, contains_ids paths here, fresh, Result.refuse_false, Result.ok_bind, path,
      shallow', jump]
    cases route : view.effectivePayload.jump with
    | nil =>
      simp only [route, Result.ok_bind] at walked ⊢
      exact addHost_ids root' outs here id walked
    | cons first rest =>
      simp only [route] at walked
      obtain ⟨next, found, walked⟩ := Result.bind_eq_ok.mp walked
      rw [Result.refuse_bind_eq_ok] at walked
      obtain ⟨noCycle, walked⟩ := walked
      obtain ⟨nested, inside, walked⟩ := Result.bind_eq_ok.mp walked
      obtain ⟨middle, later, walked⟩ := Result.bind_eq_ok.mp walked
      -- the first jump with its own route, then the other jumps, then the host itself
      obtain ⟨hop, hopView, taken, placed, at_, _, named, jumps⟩ :=
        findJump_ids indexed host root' deeper found noCycle
      obtain ⟨ran, nests⟩ := ih at_ named jumps placed deeper outs inside
      obtain ⟨ran', middles⟩ := addLater_ids indexed host root' deeper nests later
      simp only [taken, Result.ok_bind, ran, ran']
      exact addHost_ids root' middles here id walked

theorem chainIds_ok (indexed : Indexes ids views) {host : HostRecord} {route : List String}
    (known : ids[host.id]? = some host) (resolved : routeIds views host.id = .ok route) :
    chainIds ids host = .ok route := by
  unfold routeIds at resolved
  cases indices : routeIndices views host.id with
  | error e =>
    rw [indices] at resolved
    cases resolved
  | ok result =>
    rw [indices] at resolved
    cases resolved
    obtain ⟨i, found, walked⟩ := Result.bind_eq_ok.mp indices
    obtain ⟨same, here⟩ := idAt_of_hostIndex found
    obtain ⟨view, other, position, known', named, jumps⟩ := indexed.host_at here
    rw [same, known] at known'
    cases known'
    have nothing : ∀ j ∈ ([] : List Nat), Placed views j := fun j member => nomatch member
    exact (appendChain_ids indexed host.id position named jumps here nothing nothing walked).1

end Walk

/-! ## The whole set -/

/-- Hosts that can be kept together. -/
structure HostSet (P : Primitives) (hosts : List HostRecord) : Prop where
  valid : ∀ host ∈ hosts, validateHost P host = .ok ()
  ids : (hosts.map (·.id)).Nodup
  aliases : (hosts.map fun host => (host.scope, host.payload.aliasName)).Nodup
  routes : ∀ host ∈ hosts, ∃ route, routeIds (hosts.map HostRecord.plainView) host.id = .ok route

theorem indexHosts_ok {hosts : List HostRecord} (index : HostIndex)
    (valid : ∀ host ∈ hosts, validateHost P host = .ok ()) (ids : (hosts.map (·.id)).Nodup)
    (aliases : (hosts.map fun host => (host.scope, host.payload.aliasName)).Nodup)
    (freeId : ∀ host ∈ hosts, index.ids[host.id]? = none)
    (freeAlias : ∀ host ∈ hosts, (host.scope, host.payload.aliasName) ∉ index.aliases) :
    ∃ result, hosts.foldlM (indexHost P) index = .ok result ∧
      (∀ host ∈ hosts, result.ids[host.id]? = some host) ∧
      ∀ (id : String) host, index.ids[id]? = some host → result.ids[id]? = some host := by
  -- the induction follows the hosts; ids and aliases that are indexed were not there before
  induction hosts generalizing index with
  | nil => exact ⟨index, rfl, by simp, fun _ _ found => found⟩
  | cons host rest ih =>
    rw [List.map_cons, List.nodup_cons] at ids aliases
    have absent : index.ids.contains host.id = false := by
      rw [BTreeMap.contains_eq, freeId host List.mem_cons_self]
      rfl
    have unused : index.aliases.contains (host.scope, host.payload.aliasName) = false := by
      rw [← Bool.not_eq_true, List.contains_iff_mem]
      exact freeAlias host List.mem_cons_self
    have step : indexHost P index host = .ok
        { ids := index.ids.insert host.id host
          aliases := (host.scope, host.payload.aliasName) :: index.aliases } := by
      simp only [indexHost, valid host List.mem_cons_self, Result.ok_bind, absent, unused, Result.refuse_false]
    obtain ⟨result, ran, found, kept⟩ := ih
      { ids := index.ids.insert host.id host
        aliases := (host.scope, host.payload.aliasName) :: index.aliases }
      (fun other member => valid other (List.mem_cons_of_mem _ member)) ids.2 aliases.2
      (fun other member => by
        have ne : host.id ≠ other.id := fun same => ids.1 (same ▸ List.mem_map_of_mem member)
        simp only
        rw [BTreeMap.get?_insert_ne _ _ ne]
        exact freeId other (List.mem_cons_of_mem _ member))
      (fun other member => by
        simp only [List.mem_cons, not_or]
        refine ⟨fun same => aliases.1 ?_, freeAlias other (List.mem_cons_of_mem _ member)⟩
        exact List.mem_map.mpr ⟨other, member, same⟩)
    refine ⟨result, ?_, ?_, ?_⟩
    · rw [List.foldlM_cons, step, Result.ok_bind, ran]
    · intro other member
      obtain rfl | later := List.mem_cons.mp member
      · exact kept other.id other (by simp)
      · exact found other later
    · intro id other before
      apply kept
      have ne : host.id ≠ id := by
        rintro rfl
        rw [freeId host List.mem_cons_self] at before
        cases before
      simp only
      rw [BTreeMap.get?_insert_ne _ _ ne, before]

theorem HostSet.validates {hosts : List HostRecord} (set : HostSet P hosts) :
    RecordsV3.validateHosts P hosts = .ok () := by
  obtain ⟨index, ran, found, _⟩ := indexHosts_ok { ids := ∅, aliases := [] } set.valid set.ids
    set.aliases (fun host _ => by simp) (fun host _ => by simp)
  have indexed : Indexes index.ids (hosts.map HostRecord.plainView) := by
    intro view member
    obtain ⟨host, inHosts, rfl⟩ := List.mem_map.mp member
    exact ⟨host, found host inHosts, rfl, rfl⟩
  rw [RecordsV3.validateHosts, ran, Result.ok_bind, Result.forEach_eq_ok]
  intro host member
  obtain ⟨route, resolved⟩ := set.routes host member
  rw [chainIds_ok indexed (found host member) resolved]
  rfl

/-- The order of the hosts does not matter. -/
theorem HostSet.perm {hosts hosts' : List HostRecord} (set : HostSet P hosts) (perm : hosts'.Perm hosts) :
    HostSet P hosts' where
  valid := fun host member => set.valid host (perm.mem_iff.mp member)
  ids := (perm.map _).nodup_iff.mpr set.ids
  aliases := (perm.map _).nodup_iff.mpr set.aliases
  routes := by
    intro host member
    obtain ⟨route, resolved⟩ := set.routes host (perm.mem_iff.mp member)
    have renamed : Renamed (fun id => id) (hosts.map HostRecord.plainView) (hosts'.map HostRecord.plainView) := by
      refine ⟨fun _ _ _ _ same => same, ?_⟩
      simp only [List.map_map, List.map_id']
      exact perm.map _
    exact ⟨_, renamed.routeIds_ok resolved⟩

end Sshelter.Sync
