import Sshelter.Vault.Store

/-! # What a change keeps

A change of the open vault works on the entries in memory and saves them at the end.  Sealing
into a free id keeps every entry, and so does replacing a key, since the old one is sealed under
a free id first; a removal takes out one entry.  Where the key is missing there are no entries,
so a new key never leaves an entry behind.
-/

namespace Sshelter.Store

open Sync (Primitives)

variable {P : Primitives}

/-- An entry of the fingerprint, under the slot's id or that of a replaced key. -/
def VaultFile.Holds (P : Primitives) (file : VaultFile) (key : Key) (slotId fingerprint : String) : Prop :=
  ∃ id box entry, (id = slotId ∨ isRetiredId id = true) ∧ file.entries[id]? = some box ∧
    openEntry P key id box = .ok entry ∧ entry.fingerprint = fingerprint

/-- The vault in memory holds the entry under the key of its account. -/
def Desk.Holds (P : Primitives) (desk : Desk) (slotId fingerprint : String) : Prop :=
  ∃ key : Key, desk.keychain[desk.vault.file.account]? = some key.1 ∧ desk.vault.file.Holds P key slotId fingerprint

/-- The key in memory is the one of the account, and there is one unless there are no entries. -/
structure Desk.Coherent (desk : Desk) : Prop where
  own : ∀ key, desk.vault.key = some key → desk.keychain[desk.vault.file.account]? = some key.1
  empty : desk.vault.key = none → desk.vault.file.entries = ∅

/-- No key in the keychain is overwritten. -/
structure Desk.Grows (before after : Desk) : Prop where
  keychain : ∀ account secret : String, before.keychain[account]? = some secret → after.keychain[account]? = some secret
  coherent : after.Coherent

/-- A part of a change before its save. -/
structure Carries (P : Primitives) (before after : Desk) : Prop extends before.Grows after where
  folder : after.folder = before.folder
  holds : ∀ slotId fingerprint : String, before.Holds P slotId fingerprint → after.Holds P slotId fingerprint

/-- A change, saved or not; `lost` are the fingerprints it takes out. -/
structure Changed (P : Primitives) (lost : String → Prop) (before after : Desk) : Prop extends before.Grows after where
  folder : after.folder = before.folder ∨ after.folder = before.folder.insert VAULT_FILE (after.vault.file.text P)
  holds : ∀ slotId fingerprint : String, ¬ lost fingerprint → before.Holds P slotId fingerprint →
    after.Holds P slotId fingerprint

theorem Carries.refl {desk : Desk} (coherent : desk.Coherent) : Carries P desk desk :=
  { keychain := fun _ _ held => held, coherent, folder := rfl, holds := fun _ _ holds => holds }

theorem Carries.trans {a b c : Desk} (first : Carries P a b) (second : Carries P b c) : Carries P a c where
  keychain account secret held := second.keychain account secret (first.keychain account secret held)
  coherent := second.coherent
  folder := second.folder.trans first.folder
  holds slotId fingerprint holds := second.holds slotId fingerprint (first.holds slotId fingerprint holds)

theorem Carries.changed {before after : Desk} (carries : Carries P before after) (lost : String → Prop) :
    Changed P lost before after :=
  { carries with folder := .inl carries.folder, holds := fun slotId fingerprint _ => carries.holds slotId fingerprint }

theorem Changed.mono {lost lost' : String → Prop} {before after : Desk} (changed : Changed P lost before after)
    (more : ∀ fingerprint, lost fingerprint → lost' fingerprint) : Changed P lost' before after :=
  { changed with
    holds := fun slotId fingerprint kept => changed.holds slotId fingerprint fun gone => kept (more fingerprint gone) }

/-! ## The key -/

/-- A new account is one the keychain has nothing in. -/
def Writing.Fresh (writing : Writing) (keychain : BTreeMap String) : Prop :=
  ∀ bytes key, writing.drawn = .ok (bytes, key) → keychain[newKeyAccount bytes]? = none

theorem checkWrite_cases (refused : Option String) (desk : Desk) :
    (refused = none ∧ (checkWrite refused).outcome desk = (.ok (), desk)) ∨
      ∃ error, (checkWrite refused).outcome desk = (.error error, desk) := by
  cases refused with
  | none => exact .inl ⟨rfl, rfl⟩
  | some error => exact .inr ⟨_, rfl⟩

theorem checkWrite_same {refused : Option String} {desk after : Desk} {result : Except VaultError Unit}
    (ran : (checkWrite refused).outcome desk = (result, after)) : desk = after := by
  cases refused <;> cases ran <;> rfl

theorem readKey_ok {keychain : BTreeMap String} {answer : Answer} {account : String} {key : Key}
    (read : readKey keychain answer account = .ok (some key)) : keychain[account]? = some key.1 := by
  cases answer with
  | Error _ => cases read
  | Missing => cases read
  | Stored =>
    simp only [readKey] at read
    split at read
    · cases read
    · rename_i text found
      split at read
      · cases read
        exact found
      · cases read

/-- A key is drawn only when there are no entries, and goes into an account of its own. -/
theorem ensureKey_spec {writing : Writing} {desk after : Desk} {result : Except VaultError Unit}
    (coherent : desk.Coherent) (fresh : writing.Fresh desk.keychain)
    (ran : (ensureKey writing).outcome desk = (result, after)) :
    Carries P desk after ∧ after.vault.file.entries = desk.vault.file.entries := by
  rw [ensureKey, Call.outcome_bind, Call.outcome_get] at ran
  dsimp only at ran
  cases own : desk.vault.key with
  | some key =>
    rw [own] at ran
    cases ran
    exact ⟨.refl coherent, rfl⟩
  | none =>
    rw [own] at ran
    dsimp only at ran
    rw [Call.outcome_bind, Call.outcome_of] at ran
    have empty := coherent.empty own
    cases read : readKey desk.keychain writing.answer desk.vault.file.account with
    | error error =>
      rw [read] at ran
      cases ran
      exact ⟨.refl coherent, rfl⟩
    | ok found =>
      rw [read] at ran
      cases found with
      | some key =>
        -- the key that was missing when the vault was opened is there now
        cases ran
        refine ⟨{ keychain := fun _ _ held => held, coherent := ⟨?_, ?_⟩, folder := rfl, holds := ?_ }, rfl⟩
        · intro other same
          obtain rfl := Option.some.inj same
          exact readKey_ok read
        · intro none_
          cases none_
        · exact fun _ _ holds => holds
      | none =>
        simp only [empty, Std.ExtTreeMap.isEmpty_empty, Bool.not_true, Bool.false_eq_true, if_false] at ran
        cases drawn : writing.drawn with
        | error error =>
          rw [drawn] at ran
          cases ran
          exact ⟨.refl coherent, rfl⟩
        | ok pair =>
          obtain ⟨bytes, key⟩ := pair
          rw [drawn] at ran
          cases notSet : writing.notSet with
          | some error =>
            rw [notSet] at ran
            cases ran
            exact ⟨.refl coherent, rfl⟩
          | none =>
            rw [notSet] at ran
            cases ran
            -- a drawn key goes into an account that was free, and nothing was sealed with another one
            refine ⟨{ keychain := ?_, coherent := ⟨?_, ?_⟩, folder := rfl, holds := ?_ }, rfl⟩
            · intro account secret held
              have other : newKeyAccount bytes ≠ account := by
                rintro rfl
                rw [fresh bytes key drawn] at held
                cases held
              exact (BTreeMap.get?_insert_ne _ _ other).trans held
            · intro other same
              obtain rfl := Option.some.inj same
              exact BTreeMap.get?_insert_self _ _ _
            · intro none_
              cases none_
            · rintro slotId fingerprint ⟨_, _, id, box, _, _, there, _⟩
              rw [empty] at there
              simp at there

/-! ## Sealing -/

/-- The desk with one more sealed entry. -/
def Desk.withSealed (P : Primitives) (desk : Desk) (key : Key) (nonce id : String) (entry : VaultEntry) : Desk :=
  desk.withEntries (desk.vault.file.entries.insert id (sealEntry P key nonce id entry))

theorem sealInto_cases {nonce : Except String String} {id : String} {entry : VaultEntry} {desk after : Desk}
    {result : Except VaultError Unit} (ran : (sealInto P nonce id entry).outcome desk = (result, after)) :
    (after = desk ∧ ∃ error, result = .error error) ∨
      ∃ key text, desk.vault.key = some key ∧ result = .ok () ∧
        after = desk.withSealed P key text id entry := by
  rw [sealInto, Call.outcome_bind, Call.outcome_get] at ran
  dsimp only at ran
  cases own : desk.vault.key with
  | none =>
    rw [own] at ran
    cases ran
    exact .inl ⟨rfl, _, rfl⟩
  | some key =>
    cases nonce with
    | error error =>
      rw [own] at ran
      cases ran
      exact .inl ⟨rfl, _, rfl⟩
    | ok text =>
      rw [own] at ran
      cases ran
      exact .inr ⟨key, text, rfl, rfl, rfl⟩

theorem save_cases {saving : Saving} {desk after : Desk} {result : Except VaultError Unit}
    (ran : (save P saving).outcome desk = (result, after)) :
    after = desk.saved P ∨ after = desk ∧ ∃ error, result = .error error := by
  cases saving with
  | Done =>
    cases ran
    exact .inl rfl
  | Failed error =>
    cases ran
    exact .inr ⟨rfl, _, rfl⟩
  | FailedLate error =>
    cases ran
    exact .inl rfl

/-- The desk holds the entry in a place that sealing another one into the slot leaves alone, or
that is to be filled with the same key. -/
def Desk.HoldsBeside (P : Primitives) (desk : Desk) (target fingerprint' slotId fingerprint : String) : Prop :=
  ∃ key : Key, desk.keychain[desk.vault.file.account]? = some key.1 ∧
    ∃ id box entry, (id = slotId ∨ isRetiredId id = true) ∧ desk.vault.file.entries[id]? = some box ∧
      openEntry P key id box = .ok entry ∧ entry.fingerprint = fingerprint ∧
      (id = target → fingerprint = fingerprint')

section
variable (ideal : P.Ideal) {desk : Desk} (coherent : desk.Coherent) {key : Key} (own : desk.vault.key = some key)
include ideal coherent own

theorem holds_sealed {id slotId : String} (placed : id = slotId ∨ isRetiredId id = true) (nonce : String)
    (entry : VaultEntry) :
    (desk.withSealed P key nonce id entry).Holds P slotId
      entry.fingerprint :=
  ⟨key, coherent.own key own, id, _, entry, placed, BTreeMap.get?_insert_self _ _ _,
    openEntry_sealEntry ideal key nonce id entry, rfl⟩

theorem Desk.HoldsBeside.sealed {id nonce slotId fingerprint : String} {entry : VaultEntry}
    (beside : desk.HoldsBeside P id entry.fingerprint slotId fingerprint) :
    (desk.withSealed P key nonce id entry).Holds P slotId
      fingerprint := by
  obtain ⟨key', account, id', box, old, placed, there, opens, named, target⟩ := beside
  by_cases same : id' = id
  · subst same
    rw [target rfl]
    exact holds_sealed ideal coherent own placed nonce entry
  · exact ⟨key', account, id', box, old, placed, (BTreeMap.get?_insert_ne _ _ (Ne.symm same)).trans there, opens, named⟩

omit ideal in
theorem carries_sealed {id nonce : String} {entry : VaultEntry}
    (kept : ∀ slotId fingerprint, desk.Holds P slotId fingerprint →
      (desk.withSealed P key nonce id entry).Holds P slotId fingerprint) :
    Carries P desk (desk.withSealed P key nonce id entry) where
  keychain _ _ held := held
  coherent := ⟨coherent.own, fun none_ => absurd (own.symm.trans none_) (by simp)⟩
  folder := rfl
  holds := kept

end

/-- What opens under the key of the account is what the vault reads. -/
theorem Desk.Coherent.reads {desk : Desk} (coherent : desk.Coherent) {key : Key}
    (account : desk.keychain[desk.vault.file.account]? = some key.1) {id : String} {box : SealedEntry}
    {entry : VaultEntry} (there : desk.vault.file.entries[id]? = some box)
    (opens : openEntry P key id box = .ok entry) :
    desk.vault.key = some key ∧ desk.vault.entry P id = .ok (some entry) := by
  have own : desk.vault.key = some key := by
    cases held : desk.vault.key with
    | none =>
      rw [coherent.empty held] at there
      simp at there
    | some other => rw [Subtype.ext (Option.some.inj ((coherent.own other held).symm.trans account))]
  refine ⟨own, ?_⟩
  simp only [Vault.entry, there, own, opens]
  rfl

/-! ## Making room -/

theorem get?_firstFree {α : Type} (map : BTreeMap α) {name : Nat → String} (distinct : Function.Injective name) :
    map[firstFree map.contains name map.size 0]? = none := by
  have covers : ∀ a, map.contains a = true → a ∈ map.keys := fun a there => Std.ExtTreeMap.mem_keys.mpr there
  have enough : map.keys.length ≤ map.size := by rw [Std.ExtTreeMap.length_keys]
  have free := firstFree_free distinct covers enough 0
  exact Std.ExtTreeMap.getElem?_eq_none_of_contains_eq_false free

theorem freeRetiredId_free (entries : BTreeMap SealedEntry) (slotId : String) (now : Nat) :
    entries[freeRetiredId entries slotId now]? = none :=
  get?_firstFree entries (numbered_injective _ _)

/-- A retired id is longer than the slot's. -/
theorem freeRetiredId_parts (entries : BTreeMap SealedEntry) (slotId : String) (now : Nat) :
    isRetiredId (freeRetiredId entries slotId now) = true ∧ freeRetiredId entries slotId now ≠ slotId := by
  obtain ⟨n, named⟩ := firstFree_eq_name entries.contains (retiredName slotId now) entries.size 0
  obtain ⟨tail, parts⟩ := numbered_eq_append (RETIRED_PREFIX ++ slotId ++ ":" ++ now.repr) "" n
  rw [freeRetiredId, named, retiredName, parts]
  constructor
  · simp [isRetiredId, String.toList_append, List.append_assoc]
  · intro same
    have lengths := congrArg String.length same
    simp only [String.length_append] at lengths
    have word : RETIRED_PREFIX.length = 8 := rfl
    omega
section
variable (ideal : P.Ideal) {writing : Writing} {slotId : String} {entry : VaultEntry} {now : Nat} {desk after : Desk}
  (coherent : desk.Coherent)
include ideal coherent

/-- After the old key has made room, the slot can be filled. -/
theorem retire_spec {result : Except VaultError (Option String)}
    (ran : (retire P writing slotId entry now).outcome desk = (result, after)) :
    Carries P desk after ∧ ∀ retired, result = .ok retired → ∀ slotId' fingerprint,
      desk.Holds P slotId' fingerprint → after.HoldsBeside P slotId entry.fingerprint slotId' fingerprint := by
  rw [retire, Call.outcome_bind, Call.outcome_get] at ran
  dsimp only at ran
  rw [Call.outcome_bind, Call.outcome_of] at ran
  cases read : desk.vault.entry P slotId with
  | error error =>
    rw [read] at ran
    cases ran
    exact ⟨.refl coherent, fun _ ok => nomatch ok⟩
  | ok found =>
    rw [read] at ran
    cases found with
    -- an empty slot needs no room, and nothing is read from it
    | none =>
      cases ran
      refine ⟨.refl coherent, ?_⟩
      rintro _ _ slotId' fingerprint ⟨key, account, id, box, held, placed, there, opens, named⟩
      refine ⟨key, account, id, box, held, placed, there, opens, named, ?_⟩
      rintro rfl
      have reads := (coherent.reads account there opens).2
      rw [read] at reads
      cases reads
    | some old =>
      dsimp only at ran
      split at ran
      · -- the same key may stay where it is
        rename_i alike
        cases ran
        refine ⟨.refl coherent, ?_⟩
        rintro _ _ slotId' fingerprint ⟨key, account, id, box, held, placed, there, opens, rfl⟩
        refine ⟨key, account, id, box, held, placed, there, opens, rfl, ?_⟩
        rintro rfl
        have reads := (coherent.reads account there opens).2
        rw [read] at reads
        obtain rfl := Option.some.inj (Except.ok.inj reads)
        exact alike
      · have free := freeRetiredId_free desk.vault.file.entries slotId now
        obtain ⟨retiredId, other⟩ := freeRetiredId_parts desk.vault.file.entries slotId now
        generalize freeRetiredId desk.vault.file.entries slotId now = id at ran free retiredId other
        obtain ⟨error, sealing, rfl⟩ | ⟨_, desk', sealing, ran⟩ := Call.bind_cases ran
        · obtain ⟨rfl, _⟩ | ⟨_, _, _, ok, _⟩ := sealInto_cases sealing
          · exact ⟨.refl coherent, fun _ ok => nomatch ok⟩
          · cases ok
        · obtain ⟨_, _, failed⟩ | ⟨key, text, own, _, rfl⟩ := sealInto_cases sealing
          · cases failed
          · cases ran
            have beside {slotId' fingerprint : String} (holds : desk.Holds P slotId' fingerprint) :
                desk.HoldsBeside P id old.fingerprint slotId' fingerprint := by
              obtain ⟨key', account, id', box, held, placed, there, opens, named⟩ := holds
              refine ⟨key', account, id', box, held, placed, there, opens, named, ?_⟩
              rintro rfl
              rw [free] at there
              cases there
            refine ⟨carries_sealed coherent own fun _ _ holds => (beside holds).sealed ideal coherent own, ?_⟩
            rintro _ _ slotId' fingerprint ⟨key', account, id', box, held, placed, there, opens, named⟩
            by_cases target : id' = slotId
            · -- the key in the slot itself is under the retired id now
              subst target
              obtain ⟨own', reads⟩ := coherent.reads account there opens
              rw [read] at reads
              obtain rfl := Option.some.inj (Except.ok.inj reads)
              exact ⟨key, coherent.own key own, id, _, old, .inr retiredId, BTreeMap.get?_insert_self _ _ _,
                openEntry_sealEntry ideal key text id old, named, fun same => absurd same other⟩
            · have apart : id ≠ id' := by
                rintro rfl
                rw [free] at there
                cases there
              exact ⟨key', account, id', box, held, placed, (BTreeMap.get?_insert_ne _ _ apart).trans there, opens,
                named, fun same => absurd same target⟩

omit ideal coherent in
/-- The save at the end of a change. -/
theorem Changed.save {before : Desk} {lost : String → Prop} (changed : Changed P lost before desk)
    (unsaved : desk.folder = before.folder) {result : Except VaultError Unit}
    (ran : (save P writing.saving).outcome desk = (result, after)) :
    Changed P lost before after ∧ (result = .ok () → after = desk.saved P) := by
  obtain rfl | ⟨rfl, error, rfl⟩ := save_cases ran
  · refine ⟨{ changed with coherent := ⟨changed.coherent.own, changed.coherent.empty⟩, folder := .inr ?_ }, fun _ => rfl⟩
    rw [← unsaved]
    rfl
  · exact ⟨changed, fun ok => nomatch ok⟩

/-- The end of a change: the entry is sealed into its slot and the file is saved. -/
theorem seal_and_save {before : Desk} (carries : Carries P before desk)
    (beside : ∀ slotId' fingerprint, before.Holds P slotId' fingerprint →
      desk.HoldsBeside P slotId entry.fingerprint slotId' fingerprint)
    {nonce : Except String String} {result : Except VaultError Unit}
    (ran : (do sealInto P nonce slotId entry; save P writing.saving : VaultCall Unit).outcome desk = (result, after))
    (lost : String → Prop) :
    Changed P lost before after ∧ (result = .ok () →
      after.folder = before.folder.insert VAULT_FILE (after.vault.file.text P) ∧
        after.Holds P slotId entry.fingerprint) := by
  obtain ⟨error, sealing, rfl⟩ | ⟨_, desk', sealing, ran⟩ := Call.bind_cases ran
  · obtain ⟨rfl, _⟩ | ⟨_, _, _, ok, _⟩ := sealInto_cases sealing
    · exact ⟨carries.changed lost, fun ok => nomatch ok⟩
    · cases ok
  · obtain ⟨_, _, failed⟩ | ⟨key, text, own, _, rfl⟩ := sealInto_cases sealing
    · cases failed
    · have coherent' : (desk.withSealed P key text slotId entry).Coherent :=
        ⟨coherent.own, fun none_ => absurd (own.symm.trans none_) (by simp)⟩
      have carries' : Carries P before (desk.withSealed P key text slotId entry) :=
        { carries with
          coherent := coherent'
          holds := fun slotId' fingerprint holds => (beside slotId' fingerprint holds).sealed ideal coherent own }
      obtain ⟨changed, saved⟩ := (carries'.changed lost).save carries'.folder ran
      refine ⟨changed, fun ok => ?_⟩
      rw [saved ok, ← carries'.folder]
      exact ⟨rfl, holds_sealed ideal coherent own (.inl rfl) text entry⟩

theorem put_spec {result : Except VaultError Unit} (fresh : writing.Fresh desk.keychain)
    (free : slotId ∉ desk.vault.file.entries) (ran : (put P writing slotId entry).outcome desk = (result, after))
    (lost : String → Prop) :
    Changed P lost desk after ∧ (result = .ok () →
      after.folder = desk.folder.insert VAULT_FILE (after.vault.file.text P) ∧
        after.Holds P slotId entry.fingerprint) := by
  obtain ⟨error, checked, rfl⟩ | ⟨_, desk₁, checked, ran⟩ := Call.bind_cases ran
  · obtain rfl := checkWrite_same checked
    exact ⟨(Carries.refl coherent).changed lost, fun ok => nomatch ok⟩
  obtain rfl := checkWrite_same checked
  obtain ⟨error, ensured, rfl⟩ | ⟨_, desk₂, ensured, ran⟩ := Call.bind_cases ran
  · exact ⟨(ensureKey_spec coherent fresh ensured).1.changed lost, fun ok => nomatch ok⟩
  obtain ⟨carries, entries⟩ := ensureKey_spec (P := P) coherent fresh ensured
  refine seal_and_save ideal carries.coherent carries ?_ ran lost
  intro slotId' fingerprint holds
  obtain ⟨key, account, id, box, old, placed, there, opens, named⟩ := carries.holds slotId' fingerprint holds
  refine ⟨key, account, id, box, old, placed, there, opens, named, ?_⟩
  rintro rfl
  rw [entries] at there
  exact absurd (Std.ExtTreeMap.mem_iff_isSome_getElem?.mpr (by rw [there]; rfl)) free

theorem replace_spec {result : Except VaultError (Option String)} (fresh : writing.Fresh desk.keychain)
    (ran : (replace P writing slotId entry now).outcome desk = (result, after)) (lost : String → Prop) :
    Changed P lost desk after ∧ (∀ retired, result = .ok retired →
      after.folder = desk.folder.insert VAULT_FILE (after.vault.file.text P) ∧
        after.Holds P slotId entry.fingerprint) := by
  obtain ⟨error, checked, rfl⟩ | ⟨_, desk₁, checked, ran⟩ := Call.bind_cases ran
  · obtain rfl := checkWrite_same checked
    exact ⟨(Carries.refl coherent).changed lost, fun _ ok => nomatch ok⟩
  obtain rfl := checkWrite_same checked
  obtain ⟨error, ensured, rfl⟩ | ⟨_, desk₂, ensured, ran⟩ := Call.bind_cases ran
  · exact ⟨(ensureKey_spec coherent fresh ensured).1.changed lost, fun _ ok => nomatch ok⟩
  obtain ⟨carries, _⟩ := ensureKey_spec (P := P) coherent fresh ensured
  obtain ⟨error, room, rfl⟩ | ⟨retired, desk₃, room, ran⟩ := Call.bind_cases ran
  · exact ⟨(carries.trans (retire_spec ideal carries.coherent room).1).changed lost, fun _ ok => nomatch ok⟩
  obtain ⟨made, beside⟩ := retire_spec ideal carries.coherent room
  have ready := carries.trans made
  have filled (slotId' fingerprint : String) (holds : desk.Holds P slotId' fingerprint) :
      desk₃.HoldsBeside P slotId entry.fingerprint slotId' fingerprint :=
    beside retired rfl slotId' fingerprint (carries.holds slotId' fingerprint holds)
  -- the end is the same as that of `put`, with the retired id returned
  rw [← bind_assoc] at ran
  obtain ⟨error, sealing, rfl⟩ | ⟨_, desk₄, sealing, ran⟩ := Call.bind_cases ran
  · obtain ⟨changed, _⟩ := seal_and_save ideal ready.coherent ready filled sealing lost
    exact ⟨changed, fun _ ok => nomatch ok⟩
  · cases ran
    obtain ⟨changed, stored⟩ := seal_and_save ideal ready.coherent ready filled sealing lost
    exact ⟨changed, fun _ _ => stored rfl⟩

omit ideal in
/-- A removal takes out the entry of the id, when it gets that far. -/
theorem remove_spec {result : Except VaultError Bool} (ran : (remove P writing slotId).outcome desk = (result, after)) :
    Changed P (fun fingerprint => writing.refused = none ∧ ∃ entry, desk.vault.entry P slotId = .ok (some entry) ∧
      entry.fingerprint = fingerprint) desk after := by
  obtain ⟨error, checked, rfl⟩ | ⟨_, desk₁, checked, ran⟩ := Call.bind_cases ran
  · obtain rfl := checkWrite_same checked
    exact (Carries.refl coherent).changed _
  have allowed : writing.refused = none := by
    obtain ⟨none_, _⟩ | ⟨_, failed⟩ := checkWrite_cases writing.refused desk
    · exact none_
    · rw [failed] at checked
      cases checked
  obtain rfl := checkWrite_same checked
  rw [Call.outcome_bind, Call.outcome_get] at ran
  dsimp only at ran
  split at ran
  · rw [Call.outcome_bind, Call.outcome_modify] at ran
    dsimp only at ran
    -- what is left in the file still reads with the vault's own key
    have coherent' : (desk.withEntries (desk.vault.file.entries.erase slotId)).Coherent := by
      refine ⟨coherent.own, fun none_ => ?_⟩
      show desk.vault.file.entries.erase slotId = ∅
      rw [coherent.empty none_]
      exact BTreeMap.erase_of_get?_eq_none (by simp)
    have holds (slotId' fingerprint : String)
        (others : ¬ (writing.refused = none ∧ ∃ entry, desk.vault.entry P slotId = .ok (some entry) ∧
          entry.fingerprint = fingerprint)) (holds : desk.Holds P slotId' fingerprint) :
        (desk.withEntries (desk.vault.file.entries.erase slotId)).Holds P slotId' fingerprint := by
      obtain ⟨key, account, id, box, entry, placed, there, opens, named⟩ := holds
      refine ⟨key, account, id, box, entry, placed, (BTreeMap.get?_erase_ne _ ?_).trans there, opens, named⟩
      rintro rfl
      exact others ⟨allowed, entry, (coherent.reads account there opens).2, named⟩
    have changed : Changed P (fun fingerprint => writing.refused = none ∧ ∃ entry,
        desk.vault.entry P slotId = .ok (some entry) ∧ entry.fingerprint = fingerprint) desk
        (desk.withEntries (desk.vault.file.entries.erase slotId)) :=
      { keychain := fun _ _ held => held, coherent := coherent', folder := .inl rfl, holds }
    obtain ⟨error, saving, rfl⟩ | ⟨_, desk', saving, ran⟩ := Call.bind_cases ran
    · exact (changed.save rfl saving).1
    · cases ran
      exact (changed.save rfl saving).1
  · cases ran
    exact (Carries.refl coherent).changed _

end

end Sshelter.Store
