import Sshelter.Verified.HostSets
import Sshelter.Verified.PlainPrimitives

/-! # Routes against their reference expansion

The route of a host is the route of its first jump, its other jumps and the host itself.
`Expands` is that reading as a finite derivation over ids.  The walk of `route_indices`
succeeds exactly on the expansions whose ids are unambiguous, distinct and few: every host
on the stack of the walk stands later in the expansion, so a cycle is a repetition and the
depth of the stack is bounded by the length of the route.
-/

namespace Sshelter.Sync

open RecordsV3 (addHost findJump addLater appendChain chainIds)

variable {hosts : List HostView}

/-- `route` is the expansion of the host `id`. -/
inductive Expands (hosts : List HostView) : String → List String → Prop
  | direct {view : HostView} (member : view ∈ hosts) (jumps : view.effectivePayload.jump = []) :
      Expands hosts view.host.id [view.host.id]
  | through {view : HostView} {first : String} {rest route : List String} (member : view ∈ hosts)
      (jumps : view.effectivePayload.jump = first :: rest) (inner : Expands hosts first route) :
      Expands hosts view.host.id (route ++ rest ++ [view.host.id])

/-- The id names exactly one host. -/
def NamesOne (hosts : List HostView) (id : String) : Prop := (hosts.map (·.host.id)).count id = 1

theorem Expands.self_mem {id : String} {route : List String} (expands : Expands hosts id route) : id ∈ route := by
  cases expands <;> simp

/-! ## Positions -/

/-- The position of a host that an id names. -/
def position (hosts : List HostView) (id : String) : Nat := ((hostIndex hosts id).toOption).getD 0

theorem NamesOne.hostIndex {id : String} (one : NamesOne hosts id) :
    hostIndex hosts id = .ok (position hosts id) := by
  obtain ⟨index, found⟩ := hostIndex_isOk_iff.mpr one
  simp [position, found, Except.toOption]

theorem NamesOne.jumpIndex {id : String} (one : NamesOne hosts id) (host : HostRecord) :
    jumpIndex hosts host id = .ok (position hosts id) := by
  simp [Sync.jumpIndex, one.hostIndex]

theorem NamesOne.position_eq {id : String} (one : NamesOne hosts id) {view : HostView} {index : Nat}
    (here : hosts[index]? = some view) (named : view.host.id = id) : position hosts id = index :=
  (hostIndex_only one.hostIndex here named).symm

theorem NamesOne.at_position {id : String} (one : NamesOne hosts id) {view : HostView} (member : view ∈ hosts)
    (named : view.host.id = id) : hosts[position hosts id]? = some view := by
  obtain ⟨index, here⟩ := List.getElem?_of_mem member
  rwa [one.position_eq here named]

theorem NamesOne.idAt_position {id : String} (one : NamesOne hosts id) : idAt hosts (position hosts id) = id :=
  (idAt_of_hostIndex one.hostIndex).1

theorem position_inj {id id' : String} (one : NamesOne hosts id) (one' : NamesOne hosts id')
    (same : position hosts id = position hosts id') : id = id' := by
  rw [← one.idAt_position, ← one'.idAt_position, same]

/-! ## An expansion is walked -/

theorem addHop_of_fresh {root : String} {out : List Nat} {index : Nat} (fresh : index ∉ out)
    (short : out.length + 1 ≤ MAX_JUMPS + 1) : addHop hosts root out index = .ok (out ++ [index]) := by
  rw [addHop, Result.refuse_bind_eq_ok, Result.refuse_bind_eq_ok]
  refine ⟨by simpa using fresh, by simpa using short, rfl⟩

theorem addJumps_of_fresh {host : HostRecord} {root : String} {stack : List Nat} {jumps : List String}
    (one : ∀ jump ∈ jumps, NamesOne hosts jump) {out : List Nat}
    (fresh : (out ++ jumps.map (position hosts) ++ stack).Nodup)
    (short : (out ++ jumps.map (position hosts)).length ≤ MAX_JUMPS + 1) :
    jumps.foldlM (addJump hosts host root stack) out = .ok (out ++ jumps.map (position hosts)) := by
  induction jumps generalizing out with
  | nil => simp [pure, Except.pure]
  | cons jump rest ih =>
    have here := one jump List.mem_cons_self
    have split : out ++ (jump :: rest).map (position hosts) = (out ++ [position hosts jump]) ++ rest.map (position hosts) := by
      simp
    rw [split] at fresh short ⊢
    rw [List.foldlM_cons]
    have apart : position hosts jump ∉ stack := by
      rw [List.nodup_append] at fresh
      intro member
      exact fresh.2.2 _ (by simp) _ member rfl
    have step : addJump hosts host root stack out jump = .ok (out ++ [position hosts jump]) := by
      rw [addJump, here.jumpIndex, Result.ok_bind, Result.refuse_bind_eq_ok]
      refine ⟨by simpa using apart, addHop_of_fresh ?_ ?_⟩
      · rw [List.append_assoc, List.append_assoc, List.nodup_append] at fresh
        intro member
        exact fresh.2.2 _ member _ (by simp) rfl
      · simp only [List.length_append, List.length_cons, List.length_nil] at short
        omega
    rw [step, Result.ok_bind]
    exact ih (fun other member => one other (List.mem_cons_of_mem _ member)) fresh short

/-- The walk of an expansion: the stack stands behind the route in what is left to append,
so the three lists together are distinct and few. -/
theorem appendRoute_of_expands {root id : String} {route : List String} (expands : Expands hosts id route)
    (one : ∀ hop ∈ route, NamesOne hosts hop) {fuel : Nat} {stack out : List Nat}
    (fresh : (out ++ route.map (position hosts) ++ stack).Nodup)
    (short : (out ++ route.map (position hosts) ++ stack).length ≤ MAX_JUMPS + 1)
    (enough : MAX_JUMPS + 2 ≤ fuel + stack.length) :
    appendRoute hosts root fuel (position hosts id) stack out = .ok (out ++ route.map (position hosts)) := by
  induction expands generalizing fuel stack out with
  | @direct view member jumps =>
    have here := (one view.host.id (by simp)).at_position member rfl
    simp only [List.map_cons, List.map_nil, List.length_append, List.length_cons, List.length_nil] at short
    obtain ⟨fuel, rfl⟩ := Nat.exists_eq_add_one_of_ne_zero (show fuel ≠ 0 by omega)
    rw [List.append_assoc, List.nodup_append] at fresh
    obtain ⟨_, later, apart⟩ := fresh
    simp only [List.map_cons, List.map_nil, List.singleton_append, List.nodup_cons] at later apart
    simp only [appendRoute, here, jumps, Result.ok_bind, Result.refuse_bind_eq_ok]
    refine ⟨by simpa using later.1, by simp; omega, addHop_of_fresh ?_ (by omega)⟩
    intro before
    exact apart _ before _ List.mem_cons_self rfl
  | @through view first rest route member jumps inner ih =>
    have here := (one view.host.id (by simp)).at_position member rfl
    have oneFirst : NamesOne hosts first := one first (by simp [inner.self_mem])
    simp only [List.map_append, List.map_cons, List.map_nil, List.length_append, List.length_cons,
      List.length_nil, List.length_map] at short
    obtain ⟨fuel, rfl⟩ := Nat.exists_eq_add_one_of_ne_zero (show fuel ≠ 0 by omega)
    set self := position hosts view.host.id
    -- what is appended, with the host itself moved in front of the stack
    have parts : (out ++ route.map (position hosts) ++ rest.map (position hosts) ++ (self :: stack)).Nodup := by
      simpa [self] using fresh
    have nested : (out ++ route.map (position hosts) ++ (self :: stack)).Nodup := by
      refine parts.sublist ?_
      simp
    have apart : self ∉ stack := by
      have := (List.nodup_append.mp parts).2.1
      exact (List.nodup_cons.mp this).1
    have walked : appendRoute hosts root fuel (position hosts first) (self :: stack) out =
        .ok (out ++ route.map (position hosts)) :=
      ih (fun hop inside => one hop (by simp [inside])) nested
        (by simp only [List.length_append, List.length_cons, List.length_map]; omega)
        (by simp only [List.length_cons]; omega)
    have later : rest.foldlM (addJump hosts view.host root (self :: stack)) (out ++ route.map (position hosts)) =
        .ok (out ++ route.map (position hosts) ++ rest.map (position hosts)) :=
      addJumps_of_fresh (fun jump inside => one jump (by simp [inside])) parts
        (by simp only [List.length_append, List.length_map]; omega)
    have firstApart : position hosts first ∉ self :: stack := by
      intro clash
      refine (List.nodup_append.mp nested).2.2 _ ?_ _ clash rfl
      exact List.mem_append_right _ (List.mem_map_of_mem inner.self_mem)
    have last : addHop hosts root (out ++ route.map (position hosts) ++ rest.map (position hosts)) self =
        .ok (out ++ route.map (position hosts) ++ rest.map (position hosts) ++ [self]) := by
      refine addHop_of_fresh ?_ (by simp only [List.length_append, List.length_map]; omega)
      intro before
      exact (List.nodup_append.mp parts).2.2 _ before _ List.mem_cons_self rfl
    have noCycle : (self :: stack).contains (position hosts first) = false := by simpa using firstApart
    simp only [appendRoute, here, jumps, Result.refuse_bind_eq_ok, oneFirst.jumpIndex, Result.ok_bind,
      noCycle, Result.refuse_false, walked, later, last]
    exact ⟨by simpa using apart, by simp; omega, by simp [self]⟩

/-! ## What is walked is an expansion -/

/-- What the walk appends to `out`, as long as it succeeds. -/
structure Walked (hosts : List HostView) (out added result : List Nat) : Prop where
  result_eq : result = out ++ added
  placed : ∀ index ∈ added, Placed hosts index
  distinct : out.Nodup → result.Nodup
  short : out.length ≤ MAX_JUMPS + 1 → result.length ≤ MAX_JUMPS + 1

theorem addHop_walked {root : String} {out result : List Nat} {index : Nat} (placed : Placed hosts index)
    (added : addHop hosts root out index = .ok result) : Walked hosts out [index] result := by
  rw [addHop, Result.refuse_bind_eq_ok, Result.refuse_bind_eq_ok] at added
  obtain ⟨fresh, short, added⟩ := added
  obtain rfl := Except.ok.inj added
  refine ⟨rfl, by simpa using placed, fun distinct => ?_, fun _ => by simpa using short⟩
  rw [List.nodup_append]
  refine ⟨distinct, by simp, ?_⟩
  rintro a member b single rfl
  obtain rfl := List.mem_singleton.mp single
  exact absurd member (by simpa using fresh)

theorem Walked.trans {out middle result added added' : List Nat} (first : Walked hosts out added middle)
    (second : Walked hosts middle added' result) : Walked hosts out (added ++ added') result where
  result_eq := by rw [second.result_eq, first.result_eq, List.append_assoc]
  placed := by
    intro index member
    obtain early | late := List.mem_append.mp member
    · exact first.placed index early
    · exact second.placed index late
  distinct start := second.distinct (first.distinct start)
  short start := second.short (first.short start)

theorem Walked.allPlaced {out added result : List Nat} (walked : Walked hosts out added result)
    (outs : ∀ j ∈ out, Placed hosts j) : ∀ j ∈ result, Placed hosts j := by
  intro j member
  rw [walked.result_eq] at member
  obtain before | new := List.mem_append.mp member
  · exact outs j before
  · exact walked.placed j new

theorem addJumps_walked {host : HostRecord} {root : String} {stack : List Nat} {jumps : List String}
    {out result : List Nat} (walked : jumps.foldlM (addJump hosts host root stack) out = .ok result) :
    ∃ added, Walked hosts out added result ∧ added.map (idAt hosts) = jumps := by
  induction jumps generalizing out with
  | nil =>
    obtain rfl := Except.ok.inj walked
    exact ⟨[], ⟨by simp, by simp, id, id⟩, rfl⟩
  | cons jump rest ih =>
    rw [List.foldlM_cons] at walked
    obtain ⟨next, step, walked⟩ := Result.bind_eq_ok.mp walked
    obtain ⟨index, found, step⟩ := Result.bind_eq_ok.mp step
    rw [Result.refuse_bind_eq_ok] at step
    obtain ⟨named, placed⟩ := idAt_of_hostIndex (hostIndex_of_jumpIndex found)
    obtain ⟨added, after, ids⟩ := ih walked
    exact ⟨[index] ++ added, (addHop_walked placed step.2).trans after, by simp [named, ids]⟩

theorem appendRoute_walked {root : String} {fuel index : Nat} {stack out result : List Nat}
    (placed : Placed hosts index) (walked : appendRoute hosts root fuel index stack out = .ok result) :
    ∃ added, Walked hosts out added result ∧ Expands hosts (idAt hosts index) (added.map (idAt hosts)) := by
  induction fuel generalizing index stack out result with
  | zero => cases walked
  | succ fuel ih =>
    obtain ⟨view, here, named⟩ := hostIndex_id placed
    have member : view ∈ hosts := List.mem_of_getElem? here
    simp only [appendRoute, here, Result.refuse_bind_eq_ok] at walked
    obtain ⟨_, _, walked⟩ := walked
    rw [← named]
    cases jumps : view.effectivePayload.jump with
    | nil =>
      simp only [jumps, Result.ok_bind] at walked
      refine ⟨[index], addHop_walked placed walked, ?_⟩
      rw [List.map_cons, List.map_nil, ← named]
      exact .direct member jumps
    | cons first rest =>
      simp only [jumps] at walked
      obtain ⟨next, found, walked⟩ := Result.bind_eq_ok.mp walked
      rw [Result.refuse_bind_eq_ok] at walked
      obtain ⟨nested, inside, walked⟩ := Result.bind_eq_ok.mp walked.2
      obtain ⟨middle, later, walked⟩ := Result.bind_eq_ok.mp walked
      -- the first jump with its own route, the other jumps, the host itself
      obtain ⟨firstId, firstPlaced⟩ := idAt_of_hostIndex (hostIndex_of_jumpIndex found)
      obtain ⟨inner, innerWalked, expands⟩ := ih firstPlaced inside
      obtain ⟨others, othersWalked, ids⟩ := addJumps_walked later
      refine ⟨inner ++ others ++ [index], (innerWalked.trans othersWalked).trans (addHop_walked placed walked), ?_⟩
      rw [firstId] at expands
      rw [List.map_append, List.map_append, ids, List.map_cons, List.map_nil, ← named]
      exact .through member jumps expands

theorem Placed.namesOne {index : Nat} (placed : Placed hosts index) : NamesOne hosts (idAt hosts index) :=
  hostIndex_isOk_iff.mp ⟨index, placed⟩

theorem Placed.position_idAt {index : Nat} (placed : Placed hosts index) : position hosts (idAt hosts index) = index := by
  have found := placed.namesOne.hostIndex
  rw [Placed] at placed
  rw [placed] at found
  exact (Except.ok.inj found).symm

theorem NamesOne.placed {id : String} (one : NamesOne hosts id) : Placed hosts (position hosts id) :=
  (idAt_of_hostIndex one.hostIndex).2

/-- The route is found exactly when the expansion is finite, unambiguous, free of
repetitions and short enough, and then it is the expansion. -/
theorem routeIndices_eq_ok {id : String} {indices : List Nat} :
    routeIndices hosts id = .ok indices ↔
      ∃ route, Expands hosts id route ∧ (∀ hop ∈ route, NamesOne hosts hop) ∧ route.Nodup ∧
        route.length ≤ MAX_JUMPS + 1 ∧ indices = route.map (position hosts) := by
  constructor
  · intro walked
    obtain ⟨index, found, walked⟩ := Result.bind_eq_ok.mp walked
    obtain ⟨named, placed⟩ := idAt_of_hostIndex found
    obtain ⟨added, run, expands⟩ := appendRoute_walked placed walked
    obtain rfl : indices = added := by simpa using run.result_eq
    have back : (indices.map (idAt hosts)).map (position hosts) = indices := by
      rw [List.map_map]
      conv_rhs => rw [← List.map_id indices]
      exact List.map_congr_left fun place inside => (run.placed place inside).position_idAt
    rw [named] at expands
    refine ⟨_, expands, ?_, ?_, by simpa using run.short (Nat.zero_le _), back.symm⟩
    · intro hop member
      obtain ⟨place, inside, rfl⟩ := List.mem_map.mp member
      exact (run.placed place inside).namesOne
    · refine List.Nodup.of_map (position hosts) ?_
      rw [back]
      exact run.distinct List.nodup_nil
  · rintro ⟨route, expands, one, distinct, short, rfl⟩
    have start : NamesOne hosts id := one id expands.self_mem
    rw [routeIndices, start.hostIndex, Result.ok_bind]
    have fresh : (route.map (position hosts)).Nodup :=
      distinct.map_on fun a inA b inB same => position_inj (one a inA) (one b inB) same
    have walked : appendRoute hosts id (MAX_JUMPS + 2) (position hosts id) [] [] = .ok ([] ++ route.map (position hosts)) :=
      appendRoute_of_expands expands one (by simpa using fresh) (by simpa using short) (by simp)
    simpa using walked

/-- The positions of a list of unambiguous ids. -/
theorem positions_iff {route : List String} (one : ∀ hop ∈ route, NamesOne hosts hop) {indices : List Nat} :
    indices = route.map (position hosts) ↔
      List.Forall₂ (fun index hop => ∃ view, hosts[index]? = some view ∧ view.host.id = hop) indices route := by
  induction route generalizing indices with
  | nil => rw [List.map_nil, List.forall₂_nil_right_iff]
  | cons hop rest ih =>
    have here := one hop List.mem_cons_self
    have later := fun other member => one other (List.mem_cons_of_mem hop member)
    rw [List.map_cons, List.forall₂_cons_right_iff]
    constructor
    · rintro rfl
      exact ⟨_, _, hostIndex_id here.hostIndex, (ih later).mp rfl, rfl⟩
    · rintro ⟨index, others, ⟨view, found, named⟩, tail, rfl⟩
      rw [here.position_eq found named, (ih later).mpr tail]

/-! ## The strict check

On hosts with distinct ids the walk by id takes the same steps as the walk by position, and
it fails with the same error. -/

section Strict
variable {ids : BTreeMap HostRecord}

/-- The map holds exactly the hosts of the list, which have settings of their own. -/
structure Plain (hosts : List HostView) (ids : BTreeMap HostRecord) : Prop where
  distinct : (hosts.map (·.host.id)).Nodup
  own : ∀ view ∈ hosts, view.effectivePayload = view.host.payload
  found : ∀ view ∈ hosts, ids[view.host.id]? = some view.host
  only : ∀ (id : String) host, ids[id]? = some host → ∃ view ∈ hosts, view.host = host ∧ view.host.id = id

theorem Plain.namesOne (plain : Plain hosts ids) {view : HostView} (member : view ∈ hosts) :
    NamesOne hosts view.host.id :=
  List.count_eq_one_of_mem plain.distinct (List.mem_map_of_mem member)

theorem Plain.placed (plain : Plain hosts ids) {index : Nat} {view : HostView} (here : hosts[index]? = some view) :
    Placed hosts index ∧ idAt hosts index = view.host.id := by
  have named : idAt hosts index = view.host.id := by simp [idAt, here]
  refine ⟨?_, named⟩
  have one := plain.namesOne (List.mem_of_getElem? here)
  rw [Placed, named, one.hostIndex, one.position_eq here rfl]

/-- A jump is found by both walks, or missing in both. -/
theorem Plain.jump (plain : Plain hosts ids) (host : HostRecord) (id : String) :
    (∃ index next, jumpIndex hosts host id = .ok index ∧ hosts[index]? = some next ∧ next.host.id = id ∧
        ids[id]? = some next.host) ∨
      (jumpIndex hosts host id = .error (.MissingJump host.id id) ∧ ids[id]? = none) := by
  by_cases known : ∃ next ∈ hosts, next.host.id = id
  · obtain ⟨next, member, rfl⟩ := known
    have one := plain.namesOne member
    exact .inl ⟨_, next, one.jumpIndex host, one.at_position member rfl, rfl, plain.found next member⟩
  · refine .inr ⟨?_, ?_⟩
    · have nowhere : ∀ view ∈ hosts, view.host.id ≠ id := fun view inside same => known ⟨view, inside, same⟩
      simp only [jumpIndex, hostIndex_notFound nowhere]
    · rw [Option.eq_none_iff_forall_not_mem]
      intro other found
      obtain ⟨view, member, _, named⟩ := plain.only id other found
      exact known ⟨view, member, named⟩

theorem addHost_eq (plain : Plain hosts ids) {root : String} {out : List Nat} {index : Nat} {view : HostView}
    (outs : ∀ j ∈ out, Placed hosts j) (here : hosts[index]? = some view) :
    addHost root (out.map (idAt hosts)) view.host = (addHop hosts root out index).map (List.map (idAt hosts)) := by
  obtain ⟨placed, named⟩ := plain.placed here
  have repeated : ((hosts[index]?).map (·.host.id)).getD "" = idAt hosts index := rfl
  rw [addHost, addHop, ← named, contains_ids outs placed, repeated]
  cases out.contains index with
  | true => rfl
  | false =>
    simp only [Result.refuse_false, Result.ok_bind, List.length_append, List.length_map, List.length_cons,
      List.length_nil]
    cases decide (MAX_JUMPS + 1 < out.length + (0 + 1)) with
    | true => rfl
    | false => simp [Except.map, pure, Except.pure, Result.refuse_false, Result.ok_bind]

theorem addLater_eq (plain : Plain hosts ids) {root : String} {host : HostRecord} {stack : List Nat}
    (paths : ∀ j ∈ stack, Placed hosts j) {jumps : List String} {out : List Nat} (outs : ∀ j ∈ out, Placed hosts j) :
    jumps.foldlM (addLater ids host root (stack.map (idAt hosts))) (out.map (idAt hosts)) =
      (jumps.foldlM (addJump hosts host root stack) out).map (List.map (idAt hosts)) := by
  induction jumps generalizing out with
  | nil => rfl
  | cons jump rest ih =>
    rw [List.foldlM_cons, List.foldlM_cons, addLater, addJump, findJump]
    obtain ⟨index, next, found, here, named, known⟩ | ⟨missing, unknown⟩ := plain.jump host jump
    · obtain ⟨placed, id⟩ := plain.placed here
      rw [known, found]
      have same : (stack.map (idAt hosts)).contains jump = stack.contains index := by
        rw [← named, ← id, contains_ids paths placed]
      simp only [same, Result.ok_bind]
      cases stack.contains index with
      | true => rfl
      | false =>
        simp only [Result.refuse_false, Result.ok_bind, pure, Except.pure]
        rw [addHost_eq plain outs here]
        cases added : addHop hosts root out index with
        | error error => rfl
        | ok result =>
          exact ih ((addHop_walked placed added).allPlaced outs)
    · rw [unknown, missing]
      rfl

theorem appendChain_eq (plain : Plain hosts ids) {root : String} {fuel index : Nat} {view : HostView}
    {stack out : List Nat} (here : hosts[index]? = some view) (paths : ∀ j ∈ stack, Placed hosts j)
    (outs : ∀ j ∈ out, Placed hosts j) :
    appendChain ids root fuel view.host (stack.map (idAt hosts)) (out.map (idAt hosts)) =
      (appendRoute hosts root fuel index stack out).map (List.map (idAt hosts)) := by
  induction fuel generalizing index view stack out with
  | zero => rfl
  | succ fuel ih =>
    have member := List.mem_of_getElem? here
    obtain ⟨placed, named⟩ := plain.placed here
    have deeper : ∀ j ∈ index :: stack, Placed hosts j := by
      intro j inside
      obtain rfl | before := List.mem_cons.mp inside
      · exact placed
      · exact paths j before
    have path : view.host.id :: stack.map (idAt hosts) = (index :: stack).map (idAt hosts) := by
      rw [List.map_cons, named]
    have clash : (stack.map (idAt hosts)).contains view.host.id = stack.contains index := by
      rw [← named, contains_ids paths placed]
    simp only [appendChain, appendRoute, here, path, clash, List.length_map, plain.own view member]
    -- the checks on the stack are the same on both sides
    cases stack.contains index with
    | true => rfl
    | false =>
      cases decide (MAX_JUMPS + 1 < (index :: stack).length) with
      | true => rfl
      | false =>
        simp only [Result.refuse_false, Result.ok_bind]
        cases jumps : view.host.payload.jump with
        | nil =>
          exact addHost_eq plain outs here
        | cons first rest =>
          simp only [findJump]
          obtain ⟨next, nextView, found, there, nextId, known⟩ | ⟨missing, unknown⟩ := plain.jump view.host first
          · obtain ⟨nextPlaced, id⟩ := plain.placed there
            have same : ((index :: stack).map (idAt hosts)).contains first = (index :: stack).contains next := by
              rw [← nextId, ← id, contains_ids deeper nextPlaced]
            simp only [known, found, same, Result.ok_bind]
            cases (index :: stack).contains next with
            | true => rfl
            | false =>
              simp only [Result.refuse_false, Result.ok_bind, pure, Except.pure]
              rw [ih there deeper outs]
              cases inner : appendRoute hosts root fuel next (index :: stack) out with
              | error error => rfl
              | ok nested =>
                obtain ⟨_, walked, _⟩ := appendRoute_walked nextPlaced inner
                have nests := walked.allPlaced outs
                simp only [Except.map, Result.ok_bind]
                rw [addLater_eq plain deeper nests]
                cases later : rest.foldlM (addJump hosts view.host root (index :: stack)) nested with
                | error error => rfl
                | ok middle =>
                  obtain ⟨_, walked, _⟩ := addJumps_walked later
                  exact addHost_eq plain (walked.allPlaced nests) here
          · simp only [unknown, missing]
            rfl

/-- The strict check returns the route of the library, or fails with the same error. -/
theorem chainIds_eq (plain : Plain hosts ids) {view : HostView} (member : view ∈ hosts) :
    chainIds ids view.host = routeIds hosts view.host.id := by
  have one := plain.namesOne member
  have here := one.at_position member rfl
  rw [routeIds, routeIndices, one.hostIndex, Result.ok_bind]
  have nothing : ∀ j ∈ ([] : List Nat), Placed hosts j := by simp
  exact appendChain_eq plain here nothing nothing

end Strict

/-- The hosts by id, as `validate_hosts` collects them. -/
def hostsById (hosts : List HostView) : BTreeMap HostRecord :=
  BTreeMap.insertAll ∅ (hosts.map fun view => (view.host.id, view.host))

theorem hostsById_found (distinct : (hosts.map (·.host.id)).Nodup) {view : HostView} (member : view ∈ hosts) :
    (hostsById hosts)[view.host.id]? = some view.host := by
  refine BTreeMap.get?_insertAll_of_mem ?_ (List.mem_map_of_mem member)
  simpa [Function.comp_def] using distinct

theorem plain_hostsById (distinct : (hosts.map (·.host.id)).Nodup)
    (own : ∀ view ∈ hosts, view.effectivePayload = view.host.payload) : Plain hosts (hostsById hosts) where
  distinct := distinct
  own := own
  found view member := hostsById_found distinct member
  only id host found := by
    by_cases known : id ∈ (hosts.map fun view => (view.host.id, view.host)).map Prod.fst
    · obtain ⟨_, made, rfl⟩ := List.mem_map.mp known
      obtain ⟨view, member, rfl⟩ := List.mem_map.mp made
      rw [hostsById_found distinct member] at found
      exact ⟨view, member, Option.some.inj found, rfl⟩
    · rw [hostsById, BTreeMap.get?_insertAll_of_not_mem known] at found
      simp at found

/-- For every list of host views: a route is found exactly when its reference expansion is
finite, every id on it names one host, no host repeats and it has at most `MAX_JUMPS + 1`
entries; then the positions found are those of the expansion.  Where ids are distinct and
every host has settings of its own, the strict check of the same hosts returns the same
ids or the same error. -/
theorem route_is_reference_expansion (hosts : List HostView) :
    (∀ id indices, routeIndices hosts id = .ok indices ↔
      ∃ route, Expands hosts id route ∧ (∀ hop ∈ route, NamesOne hosts hop) ∧ route.Nodup ∧
        route.length ≤ MAX_JUMPS + 1 ∧
        List.Forall₂ (fun index hop => ∃ view, hosts[index]? = some view ∧ view.host.id = hop) indices route) ∧
    ((hosts.map (·.host.id)).Nodup → (∀ view ∈ hosts, view.effectivePayload = view.host.payload) →
      ∀ view ∈ hosts, chainIds (hostsById hosts) view.host =
        (routeIndices hosts view.host.id).map (List.map (idAt hosts))) := by
  refine ⟨fun id indices => ?_, fun distinct own view member => ?_⟩
  · rw [routeIndices_eq_ok]
    refine exists_congr fun route => and_congr_right fun _ => and_congr_right fun one => ?_
    rw [positions_iff one]
  · exact chainIds_eq (plain_hostsById distinct own) member

def Sample.gateway : HostView :=
  HostRecord.plainView { id := "0000000000000001", scope := .Local, payload := Sample.hostPayload }

/-- A host behind the gateway. -/
def Sample.behindGateway : HostView :=
  HostRecord.plainView
    { id := "0000000000000002", scope := .Local
      payload := { Sample.hostPayload with aliasName := "db", jump := [Sample.gateway.host.id] } }

theorem route_behind_gateway :
    routeIndices [Sample.behindGateway, Sample.gateway] Sample.behindGateway.host.id = .ok [1, 0] ∧
      chainIds (hostsById [Sample.behindGateway, Sample.gateway]) Sample.behindGateway.host =
        .ok [Sample.gateway.host.id, Sample.behindGateway.host.id] := by
  have walked : routeIndices [Sample.behindGateway, Sample.gateway] Sample.behindGateway.host.id = .ok [1, 0] := by
    decide +kernel
  refine ⟨walked, ?_⟩
  rw [(route_is_reference_expansion [Sample.behindGateway, Sample.gateway]).2 (by decide) (by decide) _
    List.mem_cons_self, walked]
  rfl

end Sshelter.Sync
