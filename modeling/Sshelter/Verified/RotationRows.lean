import Sshelter.Sync.Rotation
import Sshelter.Sync.Repository.Basic
import Sshelter.Verified.Opening

/-! # Rows copied under new keys

A row that opens under the old keys is sealed under the new ones with the same fields, or, for
the key of a live space, with the new space's id and credentials.  Opening the copy gives back
exactly what was sealed.  Rows of distinct identities stay apart: a cache key is built from a
kind and a hashed id, and the new ids are used nowhere in the source.
-/

namespace Sshelter.Sync.RecordRotation

variable {P : Primitives}

/-! ## One for one -/

/-- The lists hold related values, each once, in some order. -/
def OneForOne {α β : Type} (R : α → β → Prop) (xs : List α) (ys : List β) : Prop :=
  ∃ zs, List.Forall₂ R xs zs ∧ zs.Perm ys

theorem OneForOne.imp {α β : Type} {R S : α → β → Prop} {xs : List α} {ys : List β}
    (relates : OneForOne R xs ys) (weaker : ∀ x ∈ xs, ∀ y, R x y → S x y) : OneForOne S xs ys := by
  obtain ⟨zs, each, perm⟩ := relates
  refine ⟨zs, ?_, perm⟩
  clear perm
  induction each with
  | nil => exact .nil
  | cons head _ ih =>
    exact .cons (weaker _ List.mem_cons_self _ head)
      (ih fun x member => weaker x (List.mem_cons_of_mem _ member))

theorem OneForOne.map {α β γ δ : Type} {R : α → β → Prop} {S : γ → δ → Prop} {xs : List α} {ys : List β}
    (relates : OneForOne R xs ys) (f : α → γ) (g : β → δ) (maps : ∀ x ∈ xs, ∀ y, R x y → S (f x) (g y)) :
    OneForOne S (xs.map f) (ys.map g) := by
  obtain ⟨zs, each, perm⟩ := relates.imp maps
  refine ⟨zs.map g, ?_, perm.map g⟩
  rw [List.forall₂_map_left_iff, List.forall₂_map_right_iff]
  exact each

theorem OneForOne.exists_left {α β : Type} {R : α → β → Prop} {xs : List α} {ys : List β}
    (relates : OneForOne R xs ys) {y : β} (member : y ∈ ys) : ∃ x ∈ xs, R x y := by
  obtain ⟨zs, each, perm⟩ := relates
  have member := perm.mem_iff.mpr member
  clear perm
  induction each with
  | nil => cases member
  | cons head _ ih =>
    obtain rfl | later := List.mem_cons.mp member
    · exact ⟨_, List.mem_cons_self, head⟩
    · obtain ⟨x, inside, here⟩ := ih later
      exact ⟨x, List.mem_cons_of_mem _ inside, here⟩

theorem OneForOne.exists_right {α β : Type} {R : α → β → Prop} {xs : List α} {ys : List β}
    (relates : OneForOne R xs ys) {x : α} (member : x ∈ xs) : ∃ y ∈ ys, R x y := by
  obtain ⟨zs, each, perm⟩ := relates
  have inside : ∃ y ∈ zs, R x y := by
    clear perm
    induction each with
    | nil => cases member
    | cons head _ ih =>
      obtain rfl | later := List.mem_cons.mp member
      · exact ⟨_, List.mem_cons_self, head⟩
      · obtain ⟨y, inside, here⟩ := ih later
        exact ⟨y, List.mem_cons_of_mem _ inside, here⟩
  obtain ⟨y, inZs, here⟩ := inside
  exact ⟨y, perm.mem_iff.mp inZs, here⟩

/-- Results of items that lead to distinct keys have distinct keys. -/
theorem keys_nodup {α β : Type} {R : α → String × β → Prop} {items : List α} {entries : List (String × β)}
    (each : List.Forall₂ R items entries)
    (apart : items.Pairwise fun a b => ∀ ea eb, R a ea → R b eb → ea.1 ≠ eb.1) :
    (entries.map Prod.fst).Nodup := by
  induction each with
  | nil => exact List.nodup_nil
  | @cons item entry items entries head rest ih =>
    obtain ⟨first, later⟩ := List.pairwise_cons.mp apart
    rw [List.map_cons, List.nodup_cons]
    refine ⟨?_, ih later⟩
    intro member
    obtain ⟨other, inside, same⟩ := List.mem_map.mp member
    obtain ⟨item', inItems, here⟩ := OneForOne.exists_left ⟨_, rest, .refl _⟩ inside
    exact first item' inItems entry other head here same.symm

/-- A loop that writes under distinct keys writes one entry an item. -/
theorem fill_oneForOne {α β : Type} {items : List α} {entry : α → Rotation (String × β)} {m : BTreeMap β}
    (filled : fill items entry = .ok m)
    (apart : items.Pairwise fun a b => ∀ ea eb, entry a = .ok ea → entry b = .ok eb → ea.1 ≠ eb.1) :
    OneForOne (fun item result => entry item = .ok result) items m.toList := by
  obtain ⟨entries, ran, rfl⟩ : ∃ entries, items.mapM entry = .ok entries ∧
      (∅ : BTreeMap β).insertAll entries = m := by
    obtain ⟨entries, ran, same⟩ := Result.bind_eq_ok.mp filled
    exact ⟨entries, ran, Except.ok.inj same⟩
  have each := Result.mapM_forall₂ ran
  exact ⟨entries, each, (BTreeMap.toList_insertAll_perm (keys_nodup each apart)).symm⟩

/-! ## Sealed rows -/

/-- The fields are a complete header of this identity. -/
structure Header (fields : List (String × Json)) (kind : String) (deleted : Bool) (id : String) : Prop where
  complete : completeHeader fields = true
  named : id ≠ ""
  kind : fields.lookup "kind" = some (.str kind)
  deleted : fields.lookup "deleted" = some (.bool deleted)
  id : fields.lookup "id" = some (.str id)
  version : ((fields.lookup "version").bind Json.asU64).any (fun version => decide (0 < version)) = true
  time : ((fields.lookup "updated_at_ms").bind Json.asU64).isSome = true
  device : ((fields.lookup "device_id").bind Json.asStr).any isSlotId = true

theorem bind_asStr {value : Option Json} {text : String} :
    value.bind Json.asStr = some text ↔ value = some (.str text) := by
  cases value with
  | none => simp
  | some json => cases json <;> simp [Json.asStr]

theorem bind_asBool {value : Option Json} {flag : Bool} :
    value.bind Json.asBool = some flag ↔ value = some (.bool flag) := by
  cases value with
  | none => simp
  | some json => cases json <;> simp [Json.asBool]

theorem headerMatches_iff {keys : ChainKeys} {envelope : Envelope} {fields : List (String × Json)} :
    headerMatches P keys envelope fields = true ↔ ∃ id, Header fields envelope.kind envelope.deleted id ∧
      idHash P keys envelope.kind id = envelope.idHash := by
  simp only [headerMatches, Bool.and_eq_true, decide_eq_true_eq, bind_asStr, bind_asBool]
  constructor
  · rintro ⟨⟨⟨⟨⟨⟨complete, kind⟩, deleted⟩, id⟩, version⟩, time⟩, device⟩
    obtain ⟨id, found, hashed⟩ := (Option.any_eq_true _ _).mp id
    simp only [Bool.and_eq_true, bne_iff_ne, ne_eq, beq_iff_eq] at hashed
    exact ⟨id, ⟨complete, hashed.1, kind, deleted, bind_asStr.mp found, version, time, device⟩, hashed.2⟩
  · rintro ⟨id, header, hash⟩
    refine ⟨⟨⟨⟨⟨⟨header.complete, header.kind⟩, header.deleted⟩, ?_⟩, header.version⟩, header.time⟩,
      header.device⟩
    simp [header.id, Json.asStr, hash, header.named]

theorem openRow_eq_ok {keys : ChainKeys} {envelope : Envelope} {fields : List (String × Json)} :
    openRow P keys envelope = .ok fields ↔
      (cryptoOpen P keys envelope.kind envelope.idHash envelope.sealed).bind P.fromText = some (.obj fields) ∧
        ∃ id, Header fields envelope.kind envelope.deleted id ∧
          idHash P keys envelope.kind id = envelope.idHash := by
  rw [← headerMatches_iff]
  unfold openRow
  cases cryptoOpen P keys envelope.kind envelope.idHash envelope.sealed with
  | none => simp
  | some text =>
    simp only [Option.bind_some]
    cases P.fromText text with
    | none => simp
    | some json =>
      cases json with
      | obj found =>
        by_cases good : headerMatches P keys envelope found = true
        · simp only [good, if_true, Except.ok.injEq, Option.some.injEq, Json.obj.injEq]
          constructor
          · rintro rfl
            exact ⟨rfl, good⟩
          · exact And.left
        · simp only [good, if_false, reduceCtorEq, Option.some.injEq, Json.obj.injEq, false_iff]
          rintro ⟨rfl, fine⟩
          exact good fine
      | _ => simp

/-- The envelope of a row that was sealed again, under its new identity. -/
structure SealedUnder (P : Primitives) (keys : ChainKeys) (kind id : String) (fields : List (String × Json))
    (entry : String × SealedRecord) : Prop where
  key : entry.1 = sealedKey kind (idHash P keys kind id)
  opens : openRow P keys entry.2.envelope = .ok fields
  hash : entry.2.envelope.idHash = idHash P keys kind id
  kind : entry.2.envelope.kind = kind
  waiting : entry.2.envelope.seq = 0 ∧ entry.2.dirty = true
  unhinted : entry.2.publicIdentity = none

theorem resealed_opens (ideal : P.Ideal) {keys : ChainKeys} {kind id nonce : String} {deleted : Bool}
    {fields : List (String × Json)} {entry : String × SealedRecord} (header : Header fields kind deleted id)
    (sealed : resealed P keys kind id nonce fields = .ok entry) : SealedUnder P keys kind id fields entry := by
  obtain ⟨envelope, ran, same⟩ := Result.bind_eq_ok.mp sealed
  cases same
  simp only [sealRow, header.deleted, Option.bind_some, Json.asBool, orMissing, Result.ok_bind] at ran
  cases ran
  refine ⟨rfl, ?_, rfl, rfl, ⟨rfl, rfl⟩, rfl⟩
  refine openRow_eq_ok.mpr ⟨?_, id, header, rfl⟩
  have opened := cryptoOpen_cryptoSeal ideal keys kind id nonce (P.toText (.obj fields))
  exact (congrArg (fun text => text.bind P.fromText) opened).trans (ideal.fromText_toText _)

/-! ## Identities -/

/-- Joining on a character that occurs in neither right part is injective. -/
theorem join_injective_right {separator : Char} {a b a' b' : String} (free : separator ∉ b.toList)
    (free' : separator ∉ b'.toList)
    (same : a ++ String.singleton separator ++ b = a' ++ String.singleton separator ++ b') :
    a = a' ∧ b = b' := by
  have reversed (text : String) : (String.ofList text.toList.reverse).toList = text.toList.reverse := by simp
  have flipped : String.ofList b.toList.reverse ++ String.singleton separator ++ String.ofList a.toList.reverse =
      String.ofList b'.toList.reverse ++ String.singleton separator ++ String.ofList a'.toList.reverse := by
    apply String.toList_injective
    have lists := congrArg (fun text : String => text.toList.reverse) same
    simpa using lists
  obtain ⟨right, left⟩ := join_injective (by simpa using free) (by simpa using free') flipped
  have back {x y : String} (h : String.ofList x.toList.reverse = String.ofList y.toList.reverse) : x = y := by
    have lists := congrArg String.toList h
    rw [reversed, reversed] at lists
    exact String.toList_injective (List.reverse_injective lists)
  exact ⟨back left, back right⟩

/-- The cache key of a sealed row says which row it is. -/
theorem sealedKey_idHash_injective (ideal : P.Ideal) {keys : ChainKeys} {kind kind' id id' : String}
    (same : sealedKey kind (idHash P keys kind id) = sealedKey kind' (idHash P keys kind' id')) :
    kind = kind' ∧ id = id' := by
  obtain ⟨rfl, hashes⟩ := join_injective_right (colon_not_mem_idHash ideal.hmac_hex keys kind id)
    (colon_not_mem_idHash ideal.hmac_hex keys kind' id') same
  refine ⟨rfl, ?_⟩
  have messages := congrArg String.toList (ideal.hmac_injective _ _ _ hashes)
  exact String.toList_injective (by simpa using messages)

/-! ## New keys of the spaces -/

/-- The new keys belong to the new ids. -/
structure Children (mapping : BTreeMap String) (children : BTreeMap ChainKeys) : Prop where
  found : ∀ (oldId newId : String), mapping[oldId]? = some newId →
    ∃ child : ChainKeys, children[oldId]? = some child ∧ child.chainId = newId
  mapped : ∀ (oldId : String) child, children[oldId]? = some child → mapping[oldId]? = some child.chainId
  valid : ∀ (oldId : String) child, children[oldId]? = some child →
    ChainKeys.fromParts child.chainId child.authToken child.encKey = some child

theorem childOf_eq_ok {newId : String} {generated child : ChainKeys}
    (made : childOf newId generated = .ok child) : child.chainId = newId ∧
      ChainKeys.fromParts child.chainId child.authToken child.encKey = some child := by
  rw [childOf, Result.refuse_bind_eq_ok] at made
  obtain ⟨_, made⟩ := made
  unfold orMissing at made
  split at made
  · rename_i value found
    cases made
    have fields := found
    unfold ChainKeys.fromParts at fields
    split at fields
    · cases fields
      exact ⟨rfl, found⟩
    · cases fields
  · cases made

theorem childKeys_children {draws : Draws} {mapping : BTreeMap String} {children : BTreeMap ChainKeys}
    (made : childKeys draws mapping = .ok children) : Children mapping children := by
  have entries : OneForOne (fun (item : String × String) (result : String × ChainKeys) =>
      result.1 = item.1 ∧ result.2.chainId = item.2 ∧
        ChainKeys.fromParts result.2.chainId result.2.authToken result.2.encKey = some result.2)
      mapping.toList children.toList := by
    have each {item : String × String} {result : String × ChainKeys}
        (ran : (do return (item.1, ← childOf item.2 (draws.keys item.1)) : Rotation (String × ChainKeys)) =
          .ok result) : result.1 = item.1 ∧ childOf item.2 (draws.keys item.1) = .ok result.2 := by
      obtain ⟨child, made, same⟩ := Result.bind_eq_ok.mp ran
      cases same
      exact ⟨rfl, made⟩
    refine (fill_oneForOne made ?_).imp fun item _ result ran => ?_
    · refine (List.pairwise_map.mp (BTreeMap.toList_keys_nodup mapping)).imp ?_
      intro a b apart ea eb ranA ranB same
      rw [(each ranA).1, (each ranB).1] at same
      exact apart same
    · obtain ⟨named, ran⟩ := each ran
      obtain ⟨chain, valid⟩ := childOf_eq_ok ran
      exact ⟨named, chain, valid⟩
  have back {oldId : String} {child : ChainKeys} (found : children[oldId]? = some child) :
      mapping[oldId]? = some child.chainId ∧
        ChainKeys.fromParts child.chainId child.authToken child.encKey = some child := by
    obtain ⟨⟨_, newId⟩, member, rfl, rfl, valid⟩ := entries.exists_left (BTreeMap.mem_toList.mpr found)
    exact ⟨BTreeMap.mem_toList.mp member, valid⟩
  refine ⟨fun oldId newId found => ?_, fun oldId child found => (back found).1,
    fun oldId child found => (back found).2⟩
  obtain ⟨⟨_, child⟩, member, rfl, rfl, _⟩ := entries.exists_right (BTreeMap.mem_toList.mpr found)
  exact ⟨child, BTreeMap.mem_toList.mp member, rfl⟩

theorem chainId_of_valid {child : ChainKeys}
    (valid : ChainKeys.fromParts child.chainId child.authToken child.encKey = some child) :
    isChainId child.chainId = true ∧ isChainId child.authToken = true ∧ isKeyBase64 child.encKey = true := by
  unfold ChainKeys.fromParts at valid
  split at valid
  · rename_i good
    simp only [Bool.and_eq_true] at good
    exact ⟨good.1.1, good.1.2, good.2⟩
  · cases valid

theorem ne_empty_of_chainId {id : String} (chain : isChainId id = true) : id ≠ "" := by
  rintro rfl
  exact absurd chain (by decide)

/-! ## The retained rows of the account -/

/-- The fields of a copied row: those of the source row, unless it is the key of a space that has new keys. -/
inductive RenewedFields (children : BTreeMap ChainKeys) (fields : List (String × Json)) :
    List (String × Json) → Prop
  | spaceKey {id : String} {child : ChainKeys} (kind : fields.lookup "kind" = some (.str "spacekey"))
      (live : fields.lookup "deleted" = some (.bool false)) (named : fields.lookup "id" = some (.str id))
      (keys : children[id]? = some child) : RenewedFields children fields (renewKey child fields)
  | other (plain : ∀ id, fields.lookup "kind" = some (.str "spacekey") →
      fields.lookup "deleted" = some (.bool false) → fields.lookup "id" = some (.str id) →
        children[id]? = none) : RenewedFields children fields fields

/-- The copy opens under the new keys, and waits to be sent. -/
structure CopiedSealed (P : Primitives) (old new : ChainKeys)
    (R : List (String × Json) → List (String × Json) → Prop) (row row' : SealedRecord) : Prop where
  opens : ∃ fields fields', openRow P old row.envelope = .ok fields ∧
    openRow P new row'.envelope = .ok fields' ∧ R fields fields'
  kind : row'.envelope.kind = row.envelope.kind
  waiting : row'.envelope.seq = 0 ∧ row'.dirty = true
  unhinted : row'.publicIdentity = none

theorem Header.renewKey {fields : List (String × Json)} {kind oldId : String} {deleted : Bool}
    (header : Header fields kind deleted oldId) {child : ChainKeys} (named : child.chainId ≠ "") :
    Header (renewKey child fields) kind deleted child.chainId := by
  have seen (name : String) (notId : name ≠ "id") (notPayload : name ≠ "payload") :
      (RecordRotation.renewKey child fields).lookup name = fields.lookup name := by
    simp [RecordRotation.renewKey, Json.lookup_setField, notId, notPayload]
  have complete := header.complete
  simp only [completeHeader, Bool.and_eq_true, List.all_eq_true] at complete
  refine ⟨?_, named, ?_, ?_, ?_, ?_, ?_, ?_⟩
  · simp only [completeHeader, Bool.and_eq_true, List.all_eq_true]
    refine ⟨fun name known => ?_, fun entry member => ?_⟩
    · by_cases isId : name = "id"
      · simp [RecordRotation.renewKey, Json.lookup_setField, isId]
      · by_cases isPayload : name = "payload"
        · simp [RecordRotation.renewKey, Json.lookup_setField, isPayload]
        · rw [seen name isId isPayload]
          exact complete.1 name known
    · obtain rfl | member := Json.mem_setField member
      · show headerFields.contains "payload" = true
        decide
      · obtain rfl | member := Json.mem_setField member
        · show headerFields.contains "id" = true
          decide
        · exact complete.2 entry member
  · rw [seen "kind" (by decide) (by decide), header.kind]
  · rw [seen "deleted" (by decide) (by decide), header.deleted]
  · simp [RecordRotation.renewKey, Json.lookup_setField]
  · rw [seen "version" (by decide) (by decide)]
    exact header.version
  · rw [seen "updated_at_ms" (by decide) (by decide)]
    exact header.time
  · rw [seen "device_id" (by decide) (by decide)]
    exact header.device

theorem rowId_of_header {fields : List (String × Json)} {kind id : String} {deleted : Bool}
    (header : Header fields kind deleted id) : rowId fields = .ok id := by
  simp [rowId, header.id, Json.asStr, unwrap]

/-- A copied row under the identity it has in the copy. -/
structure RenewedAs (P : Primitives) (old new : ChainKeys) (children : BTreeMap ChainKeys) (row : SealedRecord)
    (oldId newId : String) (entry : String × SealedRecord) : Prop where
  source : row.envelope.idHash = idHash P old row.envelope.kind oldId
  named : ∃ fields, openRow P old row.envelope = .ok fields ∧ fields.lookup "id" = some (.str oldId)
  key : entry.1 = sealedKey row.envelope.kind (idHash P new row.envelope.kind newId)
  wire : entry.1 = entry.2.envelope.wireKey
  renewed : newId = ((renewal children row.envelope.kind row.envelope.deleted oldId).map (·.chainId)).getD oldId
  copied : CopiedSealed P old new (RenewedFields children) row entry.2

theorem targetSealed_renewed (ideal : P.Ideal) {draws : Draws} {old new : ChainKeys} {mapping : BTreeMap String}
    {children : BTreeMap ChainKeys} (family : Children mapping children) {key : String} {row : SealedRecord}
    {entry : String × SealedRecord} (ran : targetSealed P draws old new children (key, row) = .ok entry) :
    ∃ oldId newId, RenewedAs P old new children row oldId newId entry := by
  obtain ⟨fields, opened, ran⟩ := Result.bind_eq_ok.mp ran
  obtain ⟨oldId, header, hash⟩ := (openRow_eq_ok.mp opened).2
  rw [rowId_of_header header, Result.ok_bind] at ran
  have source := hash.symm
  cases renews : renewal children row.envelope.kind row.envelope.deleted oldId with
  | some child =>
    simp only [renews] at ran
    obtain ⟨⟨kind, live⟩, found⟩ : (row.envelope.kind = "spacekey" ∧ row.envelope.deleted = false) ∧
        children[oldId]? = some child := by
      unfold renewal at renews
      split at renews
      · exact ⟨‹_›, renews⟩
      · cases renews
    have named := ne_empty_of_chainId (chainId_of_valid (family.valid oldId child found)).1
    have under := resealed_opens ideal (header.renewKey named) ran
    refine ⟨oldId, child.chainId, source, ⟨fields, opened, header.id⟩, under.key, ?_, by simp [renews],
      ⟨fields, _, opened, under.opens, ?_⟩, under.kind, under.waiting, under.unhinted⟩
    · rw [under.key, Envelope.wireKey, under.kind, under.hash]
    · exact .spaceKey (kind ▸ header.kind) (live ▸ header.deleted) header.id found
  | none =>
    simp only [renews] at ran
    have under := resealed_opens ideal header ran
    refine ⟨oldId, oldId, source, ⟨fields, opened, header.id⟩, under.key, ?_, by simp [renews],
      ⟨fields, fields, opened, under.opens, ?_⟩, under.kind, under.waiting, under.unhinted⟩
    · rw [under.key, Envelope.wireKey, under.kind, under.hash]
    · refine .other fun id kind live named => ?_
      have sameId : oldId = id := by simpa using header.id.symm.trans named
      have isKey : row.envelope.kind = "spacekey" := by simpa using header.kind.symm.trans kind
      have isLive : row.envelope.deleted = false := by simpa using header.deleted.symm.trans live
      subst sameId
      simpa [renewal, isKey, isLive] using renews

/-! ## Keeping rows apart -/

/-- Every row is cached under the key of its own identity. -/
structure KeyedRows (records : BTreeMap LocalRecord) (sealed : BTreeMap SealedRecord) : Prop where
  records : ∀ (key : String) row, records[key]? = some row → key = recordKey row.record.kind row.record.id
  sealed : ∀ (key : String) row, sealed[key]? = some row → key = row.envelope.wireKey

/-- Each space of the source has a new id of its own, which no row of the source account has. -/
structure FreshMapping (P : Primitives) (old : ChainKeys) (account : AccountState)
    (spaces : BTreeMap SpaceStateV3) (mapping : BTreeMap String) : Prop where
  domain : ∀ id : String, mapping.contains id = spaces.contains id
  injective : ∀ a b newId : String, mapping[a]? = some newId → mapping[b]? = some newId → a = b
  records : ∀ oldId newId : String, mapping[oldId]? = some newId →
    ∀ row ∈ account.records.values, row.record.id ≠ newId
  sealed : ∀ oldId newId : String, mapping[oldId]? = some newId →
    ∀ row ∈ account.sealed.values, ∀ fields, openRow P old row.envelope = .ok fields →
      fields.lookup "id" ≠ some (.str newId)

section Account
variable {draws : Draws} {old new : ChainKeys} {account : AccountState} {spaces : BTreeMap SpaceStateV3}
  {mapping : BTreeMap String} {children : BTreeMap ChainKeys}

theorem renewal_mapped (family : Children mapping children) {kind oldId : String} {deleted : Bool}
    {child : ChainKeys} (renews : renewal children kind deleted oldId = some child) :
    mapping[oldId]? = some child.chainId := by
  unfold renewal at renews
  split at renews
  · exact family.mapped oldId child renews
  · cases renews

/-- Two rows that get one identity in the copy had one identity in the source. -/
theorem RenewedAs.source_eq (family : Children mapping children)
    (fresh : FreshMapping P old account spaces mapping) {row other : SealedRecord} {oldId otherId newId : String}
    {entry entry' : String × SealedRecord} (here : row ∈ account.sealed.values)
    (there : other ∈ account.sealed.values) (renewed : RenewedAs P old new children row oldId newId entry)
    (renewed' : RenewedAs P old new children other otherId newId entry') : oldId = otherId := by
  have first := renewed.renewed
  have second := renewed'.renewed
  cases renews : renewal children row.envelope.kind row.envelope.deleted oldId with
  | some child =>
    rw [renews] at first
    have mapped := renewal_mapped family renews
    rw [show child.chainId = newId from first.symm] at mapped
    cases renews' : renewal children other.envelope.kind other.envelope.deleted otherId with
    | some child' =>
      rw [renews'] at second
      have mapped' := renewal_mapped family renews'
      rw [show child'.chainId = newId from second.symm] at mapped'
      exact fresh.injective _ _ _ mapped mapped'
    | none =>
      rw [renews'] at second
      obtain ⟨fields, opened, named⟩ := renewed'.named
      obtain rfl : newId = otherId := second
      exact absurd named (fresh.sealed _ _ mapped other there fields opened)
  | none =>
    rw [renews] at first
    obtain rfl : newId = oldId := first
    cases renews' : renewal children other.envelope.kind other.envelope.deleted otherId with
    | some child' =>
      rw [renews'] at second
      have mapped' := renewal_mapped family renews'
      rw [show child'.chainId = newId from second.symm] at mapped'
      obtain ⟨fields, opened, named⟩ := renewed.named
      exact absurd named (fresh.sealed _ _ mapped' row here fields opened)
    | none =>
      rw [renews'] at second
      exact second

theorem sealed_oneForOne (ideal : P.Ideal) (family : Children mapping children)
    (fresh : FreshMapping P old account spaces mapping) (keyed : KeyedRows account.records account.sealed)
    {sealed : BTreeMap SealedRecord}
    (filled : fill account.sealed.toList (targetSealed P draws old new children) = .ok sealed) :
    OneForOne (fun (item entry : String × SealedRecord) =>
      ∃ oldId newId, RenewedAs P old new children item.2 oldId newId entry) account.sealed.toList sealed.toList := by
  refine (fill_oneForOne filled ?_).imp fun item member entry ran => targetSealed_renewed ideal family ran
  have apart := List.pairwise_map.mp (BTreeMap.toList_keys_nodup account.sealed)
  refine List.Pairwise.imp_of_mem ?_ apart
  rintro ⟨key, row⟩ ⟨key', row'⟩ member member' distinct entry entry' ran ran' same
  obtain ⟨oldId, newId, renewed⟩ := targetSealed_renewed ideal family ran
  obtain ⟨oldId', newId', renewed'⟩ := targetSealed_renewed ideal family ran'
  rw [renewed.key, renewed'.key] at same
  obtain ⟨kind, rfl⟩ := sealedKey_idHash_injective ideal same
  have here := BTreeMap.mem_toList.mp member
  have there := BTreeMap.mem_toList.mp member'
  have ids := renewed.source_eq family fresh (BTreeMap.mem_values.mpr ⟨key, here⟩)
    (BTreeMap.mem_values.mpr ⟨key', there⟩) renewed'
  refine distinct ?_
  rw [keyed.sealed _ _ here, keyed.sealed _ _ there, Envelope.wireKey, Envelope.wireKey, renewed.source,
    renewed'.source, kind, ids]

/-! ## The typed rows of the account -/

/-- The id of a row in the copy. -/
def renewedId (mapping : BTreeMap String) (r : Record) : String :=
  if r.kind = .Space ∧ r.deleted = false then (mapping[r.id]?).getD r.id else r.id

/-- The copy of a typed row: the revision is kept, and the payload with it but for the marker of the
account, the former id of a live space and the spaces that a live device lists. -/
structure Renewed (mapping : BTreeMap String) (pending : MigrationGate) (r r' : Record) : Prop where
  id : r'.id = renewedId mapping r
  kind : r'.kind = r.kind
  revision : revision r' = revision r
  deleted : r'.deleted = r.deleted
  other : ¬ (r.kind = .Meta ∧ r.id = accountMetaId) → ¬ (r.kind = .Space ∧ r.deleted = false) →
    ¬ (r.kind = .Device ∧ r.deleted = false) → r' = r
  space : r.kind = .Space → r.deleted = false → r'.payload = r.payload.set "previous_id" (.str r.id)
  device : r.kind = .Device → r.deleted = false → r'.payload = mapSpaces mapping r.payload
  accountMarker : r.kind = .Meta → r.id = accountMetaId →
    r'.payload.get "migration" = some pending.toJson ∧
      r'.payload.get "created_by_app_version" = some (.str APP_VERSION) ∧
      ∀ name, name ≠ "migration" → name ≠ "created_by_app_version" →
        r'.payload.get name = r.payload.get name

/-- The account's marker has a format version and no fields that this version does not know. -/
def KnownMarker (schema : Nat) (r : Record) : Prop :=
  r.payload.get "schema_version" = some (.num schema) ∧
    ∀ name, name ∉ ["schema_version", "created_by_app_version", "migration"] → r.payload.get name = none

theorem targetRecord_renewed {schema : Nat} {pending : MigrationGate} {r r' : Record}
    (known : r.kind = .Meta → r.id = accountMetaId → KnownMarker schema r)
    (made : targetRecord mapping schema pending r = .ok r') : Renewed mapping pending r r' := by
  unfold targetRecord at made
  split at made
  · rename_i isMarker
    -- the account marker keeps nothing but the schema and says what the migration is waiting for
    obtain ⟨kind, id⟩ := isMarker
    cases made
    refine
      { id := by simp [renewedId, kind], kind := rfl, revision := rfl, deleted := rfl
        other := fun notMarker => absurd ⟨kind, id⟩ notMarker
        space := fun isSpace => by simp [kind] at isSpace
        device := fun isDevice => by simp [kind] at isDevice
        accountMarker := fun _ _ => ⟨by simp [Json.get, List.lookup], by simp [Json.get, List.lookup], ?_⟩ }
    intro name notMigration notVersion
    obtain ⟨version, strict⟩ := known kind id
    by_cases isSchema : name = "schema_version"
    · subst isSchema
      rw [version]
      simp [Json.get, List.lookup]
    · rw [strict name (by simp [isSchema, notMigration, notVersion])]
      simp [Json.get, Json.lookup_cons, isSchema, notMigration, notVersion]
  · rename_i notMarker
    split at made
    · rename_i isSpace
      -- a live space gets its new id and remembers the old one
      obtain ⟨kind, live⟩ := isSpace
      obtain ⟨newId, mapped, made⟩ := Result.bind_eq_ok.mp made
      obtain ⟨payload, assigned, made⟩ := Result.bind_eq_ok.mp made
      cases made
      have found : mapping[r.id]? = some newId := by
        unfold orMissing at mapped
        split at mapped
        · cases mapped
          assumption
        · cases mapped
      have written : payload = r.payload.set "previous_id" (.str r.id) := by
        unfold assign at assigned
        split at assigned
        · exact (Except.ok.inj assigned).symm
        · exact (Except.ok.inj assigned).symm
        · cases assigned
      exact
        { id := by simp [renewedId, kind, live, found], kind := rfl, revision := rfl, deleted := rfl
          other := fun _ notSpace => absurd ⟨kind, live⟩ notSpace
          space := fun _ _ => written
          device := fun isDevice => by simp [kind] at isDevice
          accountMarker := fun isMeta => by simp [kind] at isMeta }
    · rename_i notSpace
      have sameId : renewedId mapping r = r.id := if_neg notSpace
      split at made
      · rename_i isDevice
        -- a live device names the spaces by their new ids
        obtain ⟨kind, live⟩ := isDevice
        cases made
        exact
          { id := sameId.symm, kind := rfl, revision := rfl, deleted := rfl
            other := fun _ _ notDevice => absurd ⟨kind, live⟩ notDevice
            space := fun isSpace => by simp [kind] at isSpace
            device := fun _ _ => rfl
            accountMarker := fun isMeta => by simp [kind] at isMeta }
      · rename_i notDevice
        cases made
        exact
          { id := sameId.symm, kind := rfl, revision := rfl, deleted := rfl
            other := fun _ _ _ => rfl
            space := fun kind live => absurd ⟨kind, live⟩ notSpace
            device := fun kind live => absurd ⟨kind, live⟩ notDevice
            accountMarker := fun kind id => absurd ⟨kind, id⟩ notMarker }

/-- The copied row under its own key, waiting to be sent. -/
structure CopiedRow (mapping : BTreeMap String) (pending : MigrationGate) (row row' : LocalRecord) : Prop where
  renewed : Renewed mapping pending row.record row'.record
  waiting : row'.seq = 0 ∧ row'.dirty = true

theorem targetRow_copied {schema : Nat} {pending : MigrationGate} {row : LocalRecord}
    {entry : String × LocalRecord}
    (known : row.record.kind = .Meta → row.record.id = accountMetaId → KnownMarker schema row.record)
    (made : targetRow mapping schema pending row = .ok entry) :
    entry.1 = recordKey entry.2.record.kind entry.2.record.id ∧ CopiedRow mapping pending row entry.2 := by
  obtain ⟨record, ran, same⟩ := Result.bind_eq_ok.mp made
  cases same
  exact ⟨rfl, targetRecord_renewed known ran, rfl, rfl⟩

/-- Live spaces get distinct new ids, and no other row has one of them. -/
theorem renewedId_injective (fresh : FreshMapping P old account spaces mapping) {row other : LocalRecord}
    (here : row ∈ account.records.values) (there : other ∈ account.records.values)
    (mapped : ∀ row ∈ account.records.values, row.record.kind = .Space → row.record.deleted = false →
      ∃ newId, mapping[row.record.id]? = some newId)
    (same : renewedId mapping row.record = renewedId mapping other.record) : row.record.id = other.record.id := by
  unfold renewedId at same
  split at same
  · rename_i live
    obtain ⟨newId, found⟩ := mapped row here live.1 live.2
    rw [found, Option.getD_some] at same
    split at same
    · rename_i live'
      obtain ⟨newId', found'⟩ := mapped other there live'.1 live'.2
      rw [found', Option.getD_some] at same
      subst same
      exact fresh.injective _ _ _ found found'
    · exact absurd same.symm (fresh.records _ _ found other there)
  · split at same
    · rename_i live'
      obtain ⟨newId', found'⟩ := mapped other there live'.1 live'.2
      rw [found', Option.getD_some] at same
      exact absurd same (fresh.records _ _ found' row here)
    · exact same

end Account

end Sshelter.Sync.RecordRotation
