import Sshelter.Verified.LeavePlan

/-! # Copies are records

A copy has another id, other references and perhaps another name.  It passes the checks its
source passed, so the rows a plan writes decode to the settings it copied.
-/

namespace Sshelter.Sync.RecordLeave

variable {P : Primitives}

/-! ## The same record without its space -/

theorem validatePin_id {id id' : String} {pin : StoredHostKey} (valid : validatePin P id pin = .ok ()) :
    validatePin P id' pin = .ok () := by
  rw [validatePin, Result.refuse_bind_eq_ok] at valid ⊢
  refine ⟨valid.1, ?_⟩
  obtain ⟨key, parsed, same⟩ := Result.bind_eq_ok.mp valid.2
  have parsed' : parsePublic P (pin.algorithm ++ " " ++ pin.publicKey) id' = .ok key := by
    unfold parsePublic at parsed ⊢
    split at parsed
    · exact parsed
    · cases parsed
  rw [Result.refuse_eq_ok] at same
  rw [parsed', Result.ok_bind, same, Result.refuse_false]

theorem decodeHost_local {record : Record} {scope : HostScope} {host : HostRecord}
    (decodes : decodeHost P record scope = .ok (.Live host)) :
    decodeHost P record .Local = .ok (.Live { host with scope := .Local }) := by
  rw [decodeHost, Result.check_eq_ok, Result.check_eq_ok] at decodes ⊢
  obtain ⟨kind, id, rest⟩ := decodes
  refine ⟨kind, id, ?_⟩
  split at rest
  · cases rest
  · rename_i live
    rw [if_neg live, Result.check_eq_ok]
    rw [Result.check_eq_ok, Result.bind_eq_ok] at rest
    obtain ⟨schema, payload, read, rest⟩ := rest
    rw [Result.check_eq_ok] at rest
    obtain ⟨shape, same⟩ := rest
    cases same
    refine ⟨schema, ?_⟩
    rw [read, Result.ok_bind, Result.check_eq_ok]
    refine ⟨?_, rfl⟩
    simp only [validateHostShape, Result.check_eq_ok, validateScope] at shape ⊢
    tauto

theorem validateGroup_local {group : GroupRecord} (valid : validateGroup group = .ok ()) :
    validateGroup { group with scope := .Local } = .ok () := by
  simp only [validateGroup, Result.check_eq_ok, validateScope] at valid ⊢
  tauto

theorem decodeGroup_local {record : Record} {scope : HostScope} {found : GroupRecord}
    (decodes : decodeGroup record scope = .ok (.Live found)) :
    decodeGroup record .Local = .ok (.Live { found with scope := .Local }) := by
  rw [decodeGroup, Result.check_eq_ok, Result.check_eq_ok] at decodes ⊢
  obtain ⟨kind, id, rest⟩ := decodes
  refine ⟨kind, id, ?_⟩
  split at rest
  · cases rest
  · rename_i live
    rw [if_neg live]
    obtain ⟨payload, read, rest⟩ := Result.bind_eq_ok.mp rest
    rw [Result.check_eq_ok] at rest
    obtain ⟨shape, same⟩ := rest
    cases same
    rw [read, Result.ok_bind, Result.check_eq_ok]
    exact ⟨validateGroup_local shape, rfl⟩

theorem decodeGroup_valid {record : Record} {scope : HostScope} {found : GroupRecord}
    (decodes : decodeGroup record scope = .ok (.Live found)) : validateGroup found = .ok () := by
  rw [decodeGroup, Result.check_eq_ok, Result.check_eq_ok] at decodes
  obtain ⟨_, _, rest⟩ := decodes
  split at rest
  · cases rest
  · obtain ⟨payload, _, rest⟩ := Result.bind_eq_ok.mp rest
    rw [Result.check_eq_ok] at rest
    obtain ⟨shape, same⟩ := rest
    cases same
    exact shape

/-! ## Names -/

theorem isLowerHex_plain {c : Char} (hex : isLowerHex c = true) :
    Text.isWhitespace c = false ∧ Text.isControl c = false ∧ Text.isAsciiAlphanumeric c = true := by
  have digit : c.isDigit = true ↔ 48 ≤ c.toNat ∧ c.toNat ≤ 57 := by
    simp only [Char.isDigit, Bool.and_eq_true, decide_eq_true_eq, ge_iff_le, UInt32.le_iff_toNat_le]
    rfl
  have bounds : 48 ≤ c.toNat ∧ c.toNat ≤ 57 ∨ 97 ≤ c.toNat ∧ c.toNat ≤ 102 := by
    rw [isLowerHex, Bool.or_eq_true, Bool.and_eq_true, digit] at hex
    simp only [decide_eq_true_eq] at hex
    exact hex
  refine ⟨?_, ?_, ?_⟩
  · simp only [Text.isWhitespace, Bool.or_eq_false_iff, Bool.and_eq_false_iff, decide_eq_false_iff_not,
      beq_eq_false_iff_ne]
    omega
  · simp only [Text.isControl, Bool.or_eq_false_iff, Bool.and_eq_false_iff, decide_eq_false_iff_not]
    omega
  · rw [Text.isAsciiAlphanumeric, Bool.or_eq_true, Bool.or_eq_true, digit]
    obtain ten | six := bounds
    · exact .inl (.inl ten)
    · have below : c ≤ 'z' := le_trans (b := 'f') six.2 (by decide)
      exact .inl (.inr (by rw [Bool.and_eq_true, decide_eq_true_eq, decide_eq_true_eq]; exact ⟨six.1, below⟩))

theorem isHostId_plain {id : String} (hex : isHostId id = true) {c : Char} (member : c ∈ id.toList) :
    Text.isWhitespace c = false ∧ Text.isControl c = false ∧ Text.isAsciiAlphanumeric c = true := by
  simp only [isHostId, isHexText, Bool.and_eq_true, List.all_eq_true] at hex
  exact isLowerHex_plain (hex.2 c member)

theorem isCliAlias_remapped {aliasName id : String} (cli : isCliAlias aliasName = true)
    (hex : isHostId id = true) : isCliAlias (remappedAlias aliasName id) = true := by
  simp only [isCliAlias, Bool.and_eq_true, bne_iff_ne, ne_eq, List.all_eq_true, Bool.or_eq_true] at cli ⊢
  obtain ⟨⟨nonempty, dash⟩, chars⟩ := cli
  have letters : (remappedAlias aliasName id).toList = aliasName.toList ++ '-' :: id.toList := by
    simp [remappedAlias]
  cases start : aliasName.toList with
  | nil => exact absurd (String.toList_eq_nil_iff.mp start) nonempty
  | cons first rest =>
    rw [start] at dash chars letters
    refine ⟨⟨?_, ?_⟩, ?_⟩
    · intro empty
      rw [empty] at letters
      cases letters
    · rw [letters]
      simpa using dash
    · intro c member
      rw [letters] at member
      obtain before | member := List.mem_append.mp member
      · exact chars c before
      · obtain rfl | after := List.mem_cons.mp member
        · exact .inr (by decide)
        · exact .inl (isHostId_plain hex after).2.2

/-- A text is trimmed exactly when neither end is blank. -/
theorem trim_eq_self_iff {text : String} (nonempty : text.toList ≠ []) :
    Text.trim text = text ↔ Text.isWhitespace (text.toList.head nonempty) = false ∧
      Text.isWhitespace (text.toList.getLast nonempty) = false := by
  have ends : Text.trim text = text ↔
      ((text.toList.dropWhile Text.isWhitespace).reverse.dropWhile Text.isWhitespace).reverse = text.toList := by
    rw [Text.trim, ← String.toList_inj, String.toList_ofList]
  rw [ends]
  generalize text.toList = chars at nonempty ⊢
  constructor
  · intro same
    have front : chars.dropWhile Text.isWhitespace = chars := by
      apply (List.dropWhile_suffix _).eq_of_length_le
      have shorter := congrArg List.length same
      rw [List.length_reverse] at shorter
      have := (List.dropWhile_suffix Text.isWhitespace (l := (chars.dropWhile Text.isWhitespace).reverse)).length_le
      rw [List.length_reverse] at this
      omega
    rw [front] at same
    have back : chars.reverse.dropWhile Text.isWhitespace = chars.reverse := by
      have reversed := congrArg List.reverse same
      rwa [List.reverse_reverse] at reversed
    constructor
    · cases chars with
      | nil => exact absurd rfl nonempty
      | cons c rest =>
        by_contra blank
        rw [List.dropWhile_cons_of_pos (by simpa using blank)] at front
        have := (List.dropWhile_suffix Text.isWhitespace (l := rest)).length_le
        rw [front] at this
        simp at this
    · cases reversed : chars.reverse with
      | nil => exact absurd (List.reverse_eq_nil_iff.mp reversed) nonempty
      | cons c rest =>
        have last : chars.getLast nonempty = c := by
          rw [List.getLast_eq_head_reverse]
          simp [reversed]
        rw [last]
        by_contra blank
        rw [reversed, List.dropWhile_cons_of_pos (by simpa using blank)] at back
        have := (List.dropWhile_suffix Text.isWhitespace (l := rest)).length_le
        rw [back] at this
        simp at this
  · rintro ⟨front, back⟩
    have keep : ∀ {list : List Char} (some_ : list ≠ []), Text.isWhitespace (list.head some_) = false →
        list.dropWhile Text.isWhitespace = list := by
      intro list some_ here
      cases list with
      | nil => exact absurd rfl some_
      | cons c rest => exact List.dropWhile_cons_of_neg (by simpa using here)
    rw [keep nonempty front, keep (List.reverse_ne_nil_iff.mpr nonempty) (by
      rw [← List.getLast_eq_head_reverse nonempty]
      exact back), List.reverse_reverse]

/-- A name that tells a group apart is a name. -/
theorem validName_remapped {name id : String} (trimmed : Text.trim name = name) (nonempty : name ≠ "")
    (printable : ∀ c ∈ name.toList, Text.isControl c = false) (hex : isHostId id = true) :
    Text.trim (remappedGroupName name id) = remappedGroupName name id ∧ remappedGroupName name id ≠ "" ∧
      (remappedGroupName name id).length ≤ 128 ∧
      ∀ c ∈ (remappedGroupName name id).toList, Text.isControl c = false := by
  have letters : (remappedGroupName name id).toList = name.toList.take 111 ++ '-' :: id.toList := by
    simp [remappedGroupName]
  have chars : name.toList ≠ [] := fun empty => nonempty (String.toList_eq_nil_iff.mp empty)
  have some_ : (remappedGroupName name id).toList ≠ [] := by simp [letters]
  have idChars : id.toList ≠ [] := by
    have := length_of_isHostId hex
    intro empty
    simp [empty] at this
  refine ⟨(trim_eq_self_iff some_).mpr ⟨?_, ?_⟩, fun empty => some_ (by simp [empty]), ?_, ?_⟩
  · have front := ((trim_eq_self_iff chars).mp trimmed).1
    obtain ⟨first, rest, start⟩ := List.exists_cons_of_ne_nil chars
    simp only [letters, start] at front ⊢
    simpa using front
  · have last : (remappedGroupName name id).toList.getLast some_ = id.toList.getLast idChars := by
      simp only [letters]
      rw [List.getLast_append_of_ne_nil _ (by simp), List.getLast_cons idChars]
    rw [last]
    exact (isHostId_plain hex (List.getLast_mem idChars)).1
  · rw [← String.length_toList, letters]
    have := length_of_isHostId hex
    simp only [List.length_append, List.length_take, List.length_cons, this]
    omega
  · intro c member
    rw [letters, List.mem_append, List.mem_cons] at member
    obtain before | rfl | after := member
    · exact printable c (List.mem_of_mem_take before)
    · decide
    · exact (isHostId_plain hex after).2.1

/-! ## Copies validate -/

section Moved
variable {rename : String → String}

theorem validateHostShape_moved {host : HostRecord} {aliasName id : String}
    (valid : validateHostShape P host = .ok ()) (hex : isHostId id = true) (cli : isCliAlias aliasName = true)
    (groups : ∀ group ∈ host.payload.groupId, isHostId (rename group) = true)
    (jumps : ∀ jump ∈ host.payload.jump, isHostId (rename jump) = true) :
    validateHostShape P { id, scope := .Local, payload := movedHost rename aliasName host.payload } = .ok () := by
  simp only [validateHostShape, Result.check_eq_ok, Result.refuse_eq_ok, Result.forSome_eq_ok] at valid ⊢
  obtain ⟨schema, ungrouped, inherits, _, _, _, hostname, port, user, timeout, auth, key, _, pin⟩ := valid
  have groupIds : ((host.payload.groupId.map rename).any fun id => !isHostId id) = false := by
    cases placed : host.payload.groupId with
    | none => rfl
    | some group => simp [groups group placed]
  refine ⟨schema, ?_, ?_, by simp [hex], rfl, by simp [movedHost, cli], hostname, port, user, timeout, auth, key, ?_, ?_⟩
  · simpa [movedHost] using ungrouped
  · rw [Bool.or_eq_false_iff] at inherits ⊢
    exact ⟨groupIds, inherits.2⟩
  · simp only [movedHost, List.any_map, List.any_eq_false, Function.comp_apply]
    intro jump member
    simp [jumps jump member]
  · intro stored pinned
    exact validatePin_id (pin stored pinned)

theorem validateJumps_eq_ok {hostId : String} {seen jumps : List String} :
    validateJumps hostId seen jumps = .ok () ↔ jumps.Nodup ∧ hostId ∉ jumps ∧ ∀ jump ∈ jumps, jump ∉ seen := by
  induction jumps generalizing seen with
  | nil => simp [validateJumps]
  | cons jump rest ih =>
    rw [validateJumps]
    split
    · rename_i self
      simp [self]
    · rename_i other
      split
      · rename_i repeated
        simp [repeated]
      · rename_i new
        rw [ih, List.nodup_cons]
        simp only [List.mem_cons, not_or, forall_eq_or_imp]
        constructor
        · rintro ⟨distinct, away, apart⟩
          exact ⟨⟨fun here => (apart jump here).1 rfl, distinct⟩, ⟨fun same => other same.symm, away⟩, new,
            fun later member => (apart later member).2⟩
        · rintro ⟨⟨first, distinct⟩, ⟨_, away⟩, _, apart⟩
          exact ⟨distinct, away, fun later member => ⟨fun same => first (same ▸ member), apart later member⟩⟩

theorem validateHost_moved {host : HostRecord} {aliasName : String} (valid : validateHost P host = .ok ())
    (hex : isHostId (rename host.id) = true) (cli : isCliAlias aliasName = true)
    (groups : ∀ group ∈ host.payload.groupId, isHostId (rename group) = true)
    (jumps : ∀ jump ∈ host.payload.jump, isHostId (rename jump) = true)
    (injective : ∀ a ∈ host.id :: host.payload.jump, ∀ b ∈ host.id :: host.payload.jump,
      rename a = rename b → a = b) :
    validateHost P
      { id := rename host.id, scope := .Local, payload := movedHost rename aliasName host.payload } = .ok () := by
  simp only [validateHost, Result.check_eq_ok, validateJumps_eq_ok, Result.refuse_eq_ok] at valid ⊢
  obtain ⟨shape, ⟨distinct, away, _⟩, short⟩ := valid
  refine ⟨validateHostShape_moved shape hex cli groups jumps, ⟨?_, ?_, by simp⟩, by simpa [movedHost] using short⟩
  · refine List.Nodup.map_on ?_ distinct
    intro a inA b inB
    exact injective a (List.mem_cons_of_mem _ inA) b (List.mem_cons_of_mem _ inB)
  · intro self
    obtain ⟨jump, member, same⟩ := List.mem_map.mp self
    have := injective jump (List.mem_cons_of_mem _ member) host.id List.mem_cons_self same
    exact away (this ▸ member)

theorem validateGroup_moved {group : GroupRecord} {name id : String} (valid : validateGroup group = .ok ())
    (hex : isHostId id = true)
    (named : name = group.payload.name ∨ name = remappedGroupName group.payload.name id)
    (parents : ∀ parent ∈ group.payload.parentId, isHostId (rename parent) = true)
    (jumps : ∀ list ∈ group.payload.defaults.jump, ∀ jump ∈ list, isHostId (rename jump) = true)
    (injective : ∀ list ∈ group.payload.defaults.jump, ∀ a ∈ list, ∀ b ∈ list, rename a = rename b → a = b) :
    validateGroup { id, scope := .Local, payload := movedGroup rename name group.payload } = .ok () := by
  simp only [validateGroup, Result.check_eq_ok, Result.refuse_eq_ok, Result.forSome_eq_ok] at valid ⊢
  obtain ⟨schema, ids, _, naming, defaults, authentication, jump⟩ := valid
  have authentications : ∀ stored ∈ group.payload.defaults.authentication,
      validateGroupAuthentication id stored = .ok () := by
    intro stored found
    have valid := authentication stored found
    rw [validateGroupAuthentication, Result.refuse_eq_ok] at valid ⊢
    exact valid
  refine ⟨schema, ?_, rfl, ?_, defaults, authentications, ?_⟩
  · cases placed : group.payload.parentId with
    | none => simp [movedGroup, placed, hex]
    | some parent => simp [movedGroup, placed, hex, parents parent placed]
  · obtain rfl | rfl := named
    · exact naming
    · simp only [Bool.or_eq_false_iff, bne_eq_false_iff_eq, beq_eq_false_iff_ne, decide_eq_false_iff_not,
        List.any_eq_false, Bool.not_eq_true] at naming
      obtain ⟨⟨⟨trimmed, nonempty⟩, _⟩, printable⟩ := naming
      obtain ⟨trimmed', nonempty', short, printable'⟩ := validName_remapped trimmed nonempty printable hex
      simp only [movedGroup, Bool.or_eq_false_iff, bne_eq_false_iff_eq, beq_eq_false_iff_ne,
        List.any_eq_false, Bool.not_eq_true]
      exact ⟨⟨⟨trimmed', nonempty'⟩, decide_eq_false (Nat.not_lt.mpr short)⟩, printable'⟩
  · intro list mapped
    obtain ⟨source, found, rfl⟩ := Option.map_eq_some_iff.mp mapped
    have own := jump source found
    simp only [validateGroupJumps, Result.refuse_eq_ok, Bool.or_eq_false_iff, decide_eq_false_iff_not,
      Bool.not_eq_false', decide_eq_true_eq, List.any_eq_false, Bool.not_eq_true] at own ⊢
    obtain ⟨⟨short, _⟩, distinct⟩ := own
    refine ⟨⟨by simpa using short, ?_⟩, ?_⟩
    · intro new member
      obtain ⟨old, inSource, rfl⟩ := List.mem_map.mp member
      simp [jumps source found old inSource]
    · exact List.Nodup.map_on (injective source found) distinct

end Moved

/-! ## Copies decode -/

theorem decodeHost_copied {source : Record} {deviceId id : String} {now : Nat} {p : HostPayload}
    (kind : source.kind = .Host) (live : source.deleted = false)
    (valid : validateHostShape P { id, scope := .Local, payload := p } = .ok ()) :
    decodeHost P (copiedRow deviceId now source id p.toJson).record .Local =
      .ok (.Live { id, scope := .Local, payload := p }) := by
  have shape := valid
  simp only [validateHostShape, Result.check_eq_ok, Result.refuse_eq_ok] at shape
  have hex : isHostId id = true := by simpa using shape.2.2.2.1
  have schema : (p.toJson.get "schema").bind Json.asU64 = some p.schema.toNat := by
    obtain ⟨_, groupId, inherited, _⟩ := p
    cases groupId <;> cases inherited <;> rfl
  have supported : (!(p.schema.toNat == 2 || p.schema.toNat == 3)) = false := by
    obtain two | three : p.schema = HOST_SCHEMA ∨ p.schema = GROUPED_HOST_SCHEMA := by
      simpa [Decidable.or_iff_not_imp_left] using shape.1
    · rw [two]
      rfl
    · rw [three]
      rfl
  simp only [decodeHost, copiedRow, kind, bne_self_eq_false, Result.refuse_false, Result.ok_bind, hex,
    Bool.not_true, live, Bool.false_eq_true, if_false, schema, Option.getD_some, supported,
    HostPayload.ofJson_toJson, ofDecoder, valid]

theorem decodeGroup_copied {source : Record} {deviceId id : String} {now : Nat} {p : GroupPayload}
    (kind : source.kind = .Group) (live : source.deleted = false)
    (valid : validateGroup { id, scope := .Local, payload := p } = .ok ()) :
    decodeGroup (copiedRow deviceId now source id p.toJson).record .Local =
      .ok (.Live { id, scope := .Local, payload := p }) := by
  have ids := valid
  simp only [validateGroup, Result.check_eq_ok, Result.refuse_eq_ok, Bool.or_eq_false_iff] at ids
  have hex : isHostId id = true := by simpa using ids.2.1.1
  simp only [decodeGroup, copiedRow, kind, bne_self_eq_false, Result.refuse_false, Result.ok_bind, hex,
    Bool.not_true, live, Bool.false_eq_true, if_false, GroupPayload.ofJson_toJson, ofDecoder, valid]

end Sshelter.Sync.RecordLeave
