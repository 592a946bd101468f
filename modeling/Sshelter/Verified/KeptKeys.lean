import Sshelter.Verified.PlainPrimitives
import Sshelter.Verified.VaultChanges

/-! # Keys are not lost

A run opens the vault, and changes it through the vault that is open, one at a time as
`with_vault` has it.  A stored entry is safe while the file and the vault in memory both have
it: a change carries what is in memory into the file, and a file that cannot be used keeps its
text under another name.  Only a removal takes an entry out of memory.  When its save fails
the entry is still in the file, until the next save of that vault.
-/

namespace Sshelter.Store

open Sync (Primitives plainPrimitives plainPrimitives_ideal)

variable {P : Primitives}

/-! ## Runs -/

structure World where
  folder : BTreeMap String
  keychain : BTreeMap String
  /-- The vault that is open. -/
  vault : Option Vault

inductive Step where
  | openVault (opening : Opening)
  | put (writing : Writing) (slotId : String) (entry : VaultEntry)
  | replace (writing : Writing) (slotId : String) (entry : VaultEntry) (now : Nat)
  | remove (writing : Writing) (slotId : String)

def World.desk (world : World) (vault : Vault) : Desk :=
  { folder := world.folder, keychain := world.keychain, vault }

def Desk.world (desk : Desk) : World :=
  { folder := desk.folder, keychain := desk.keychain, vault := some desk.vault }

/-- A call on the open vault: how it ended, and the world after it. -/
def World.call {α : Type} (world : World) (call : VaultCall α) : Option (Except VaultError Unit) × World :=
  match world.vault with
  | none => (none, world)
  | some vault =>
    let ended := call.outcome (world.desk vault)
    (some (ended.1.map fun _ => ()), ended.2.world)

section
variable (P)

def World.perform (world : World) : Step → Option (Except VaultError Unit) × World
  | .openVault opening =>
    let opened := openVault P opening world.folder world.keychain
    (some (opened.1.map fun _ => ()), { world with folder := opened.2, vault := opened.1.toOption })
  | .put writing slotId entry => world.call (put P writing slotId entry)
  | .replace writing slotId entry now => world.call (replace P writing slotId entry now)
  | .remove writing slotId => world.call (remove P writing slotId)

def World.step (world : World) (step : Step) : World := (world.perform P step).2

def World.run (world : World) (steps : List Step) : World := steps.foldl (World.step P) world

end

/-- A put is into a free id, and random account names are fresh. -/
def Step.Fits (world : World) : Step → Prop
  | .openVault _ => True
  | .put writing slotId _ =>
    writing.Fresh world.keychain ∧ ∀ vault, world.vault = some vault → slotId ∉ vault.file.entries
  | .replace writing _ _ _ => writing.Fresh world.keychain
  | .remove _ _ => True

section
variable (P)

def World.Fits : World → List Step → Prop
  | _, [] => True
  | world, step :: rest => step.Fits world ∧ Fits (world.step P step) rest

/-! ## What is stored -/

/-- The text of a vault file that holds the entry under the key in the account it names. -/
def TextHolds (keychain : BTreeMap String) (text slotId fingerprint : String) : Prop :=
  ∃ file key, readFile P text = some file ∧ keychain[file.account]? = some key.1 ∧
    file.Holds P key slotId fingerprint

def IsAsideName (name : String) : Prop :=
  ∃ kind now n, (kind = "unreadable" ∨ kind = "keyless") ∧ name = asideName kind now n

/-- The entry is in `vault.json`. -/
def World.InFile (world : World) (slotId fingerprint : String) : Prop :=
  ∃ text, world.folder[VAULT_FILE]? = some text ∧ TextHolds P world.keychain text slotId fingerprint

/-- The entry is in a file that was set aside. -/
def World.InAside (world : World) (slotId fingerprint : String) : Prop :=
  ∃ name text, IsAsideName name ∧ world.folder[name]? = some text ∧
    TextHolds P world.keychain text slotId fingerprint

def World.Stored (world : World) (slotId fingerprint : String) : Prop :=
  world.InFile P slotId fingerprint ∨ world.InAside P slotId fingerprint

/-- The slot and the fingerprint that a step stores when it succeeds. -/
def Step.stores : Step → Option (String × String)
  | .put _ slotId entry | .replace _ slotId entry _ => some (slotId, entry.fingerprint)
  | _ => none

/-- The step takes an entry of the fingerprint out of the open vault. -/
def Step.TakesOut (world : World) (fingerprint : String) : Step → Prop
  | .remove writing slotId =>
    writing.refused = none ∧ ∃ vault entry, world.vault = some vault ∧
      vault.entry P slotId = .ok (some entry) ∧ entry.fingerprint = fingerprint
  | _ => False

/-- No vault that the entry was taken out of is saved.  `taken` says that it was taken out of the
one that is open. -/
def NeverRemoved (fingerprint : String) : Prop → World → List Step → Prop
  | _, _, [] => True
  | _, world, .openVault opening :: rest => NeverRemoved fingerprint False (world.step P (.openVault opening)) rest
  | taken, world, step :: rest =>
    ((taken ∨ step.TakesOut P world fingerprint) → (world.step P step).folder = world.folder) ∧
      NeverRemoved fingerprint (taken ∨ step.TakesOut P world fingerprint) (world.step P step) rest

end

/-! ## Opening -/

theorem asideName_ne (kind : String) (now n : Nat) : asideName kind now n ≠ VAULT_FILE := by
  obtain ⟨tail, parts⟩ := numbered_eq_append ("vault." ++ kind ++ "-" ++ now.repr) ".json" n
  intro same
  have dash : '-' ∈ (asideName kind now n).toList := by
    rw [asideName, parts]
    simp [String.toList_append]
  rw [same] at dash
  exact absurd dash (by decide)

/-- The text of the file has another name, which nothing had before. -/
def Moved (before after : BTreeMap String) : Prop :=
  ∃ name text, IsAsideName name ∧ before[name]? = none ∧ before[VAULT_FILE]? = some text ∧
    after = (before.erase VAULT_FILE).insert name text

theorem setAside_cases (opening : Opening) (folder : BTreeMap String) {kind : String} (reason : String)
    (known : kind = "unreadable" ∨ kind = "keyless") :
    (setAside opening folder kind reason).2 = folder ∨ Moved folder (setAside opening folder kind reason).2 := by
  obtain ⟨n, named⟩ := firstFree_eq_name folder.contains (asideName kind opening.now) folder.size 0
  have free : folder[freeAsideName folder kind opening.now]? = none := get?_firstFree folder (numbered_injective _ _)
  rw [setAside]
  cases opening.refused with
  | some error => exact .inl rfl
  | none =>
    cases opening.moved with
    | false => exact .inl rfl
    | true =>
      cases here : folder[VAULT_FILE]? with
      | none => exact .inl rfl
      | some text => exact .inr ⟨_, text, ⟨kind, opening.now, n, known, named⟩, free, here, rfl⟩

/-- An opened vault is empty without a file and has the entries of the file otherwise. -/
theorem openVault_cases (opening : Opening) (folder keychain : BTreeMap String) :
    (∃ error, (openVault P opening folder keychain).1 = .error error ∧
      ((openVault P opening folder keychain).2 = folder ∨ Moved folder (openVault P opening folder keychain).2)) ∨
    (openVault P opening folder keychain = (.ok { key := none, file := {} }, folder) ∧ folder[VAULT_FILE]? = none) ∨
    ∃ text file key, openVault P opening folder keychain = (.ok { key, file }, folder) ∧
      folder[VAULT_FILE]? = some text ∧ readFile P text = some file ∧
      (∀ own, key = some own → keychain[file.account]? = some own.1) ∧ (key = none → file.entries = ∅) := by
  -- a file that cannot be used is set aside, and then opening fails
  have aside (kind reason : String) (known : kind = "unreadable" ∨ kind = "keyless") :=
    setAside_cases opening folder reason known
  cases opened : openVault P opening folder keychain with
  | mk result folder' =>
    rw [openVault] at opened
    cases unread : opening.unread with
    | some error =>
      rw [unread] at opened
      cases opened
      exact .inl ⟨_, rfl, .inl rfl⟩
    | none =>
      rw [unread] at opened
      cases here : folder[VAULT_FILE]? with
      | none =>
        rw [here] at opened
        cases opened
        exact .inr (.inl ⟨rfl, rfl⟩)
      | some text =>
        rw [here] at opened
        dsimp only at opened
        cases probed : fileVersion P text with
        | none =>
          rw [probed] at opened
          cases opened
          exact .inl ⟨_, rfl, aside _ _ (.inl rfl)⟩
        | some version =>
          rw [probed] at opened
          dsimp only at opened
          split at opened
          · cases opened
            exact .inl ⟨_, rfl, .inl rfl⟩
          · cases read : readFile P text with
            | none =>
              rw [read] at opened
              cases opened
              exact .inl ⟨_, rfl, aside _ _ (.inl rfl)⟩
            | some file =>
              rw [read] at opened
              dsimp only at opened
              cases found : readKey keychain opening.answer file.account with
              | error error =>
                rw [found] at opened
                cases opened
                exact .inl ⟨_, rfl, .inl rfl⟩
              | ok key =>
                rw [found] at opened
                dsimp only at opened
                split at opened
                · cases opened
                  exact .inl ⟨_, rfl, aside _ _ (.inr rfl)⟩
                · rename_i usable
                  cases opened
                  refine .inr (.inr ⟨text, file, key, rfl, rfl, read, ?_, ?_⟩)
                  · rintro own rfl
                    exact readKey_ok found
                  · rintro rfl
                    simpa [Std.ExtTreeMap.isEmpty_iff] using usable

/-! ## Steps -/

def World.Coherent (world : World) : Prop := ∀ vault, world.vault = some vault → (world.desk vault).Coherent

/-- The keys in the keychain stay, and so do the files beside the vault's own. -/
structure World.Extends (before after : World) : Prop where
  keychain : ∀ account secret : String, before.keychain[account]? = some secret →
    after.keychain[account]? = some secret
  folder : ∀ name text : String, name ≠ VAULT_FILE → before.folder[name]? = some text →
    after.folder[name]? = some text

theorem World.Extends.refl (world : World) : world.Extends world :=
  ⟨fun _ _ held => held, fun _ _ _ held => held⟩

theorem World.Extends.trans {a b c : World} (first : a.Extends b) (second : b.Extends c) : a.Extends c where
  keychain account secret held := second.keychain account secret (first.keychain account secret held)
  folder name text other held := second.folder name text other (first.folder name text other held)

theorem TextHolds.grow {keychain keychain' : BTreeMap String} {text slotId fingerprint : String}
    (grows : ∀ account secret : String, keychain[account]? = some secret → keychain'[account]? = some secret)
    (holds : TextHolds P keychain text slotId fingerprint) : TextHolds P keychain' text slotId fingerprint := by
  obtain ⟨file, key, read, account, entry⟩ := holds
  exact ⟨file, key, read, grows _ _ account, entry⟩

theorem World.InAside.extends {before after : World} {slotId fingerprint : String}
    (extends_ : before.Extends after) (stored : before.InAside P slotId fingerprint) :
    after.InAside P slotId fingerprint := by
  obtain ⟨name, text, aside, here, holds⟩ := stored
  obtain ⟨kind, now, n, known, rfl⟩ := aside
  exact ⟨_, text, ⟨kind, now, n, known, rfl⟩, extends_.folder _ text (asideName_ne kind now n) here,
    holds.grow extends_.keychain⟩

theorem Moved.keeps {before after : BTreeMap String} (moved : Moved before after) {name text : String}
    (other : name ≠ VAULT_FILE) (here : before[name]? = some text) : after[name]? = some text := by
  obtain ⟨new, _, _, free, _, rfl⟩ := moved
  have apart : new ≠ name := by
    rintro rfl
    rw [free] at here
    cases here
  rw [BTreeMap.get?_insert_ne _ _ apart, BTreeMap.get?_erase_ne _ (Ne.symm other), here]

theorem open_extends (world : World) (opening : Opening) :
    world.Extends (world.step P (.openVault opening)) ∧ (world.step P (.openVault opening)).Coherent := by
  obtain ⟨error, failed, moved⟩ | ⟨opened, _⟩ | ⟨text, file, key, opened, _, _, own, empty⟩ :=
    openVault_cases (P := P) opening world.folder world.keychain
  · refine ⟨⟨fun _ _ held => held, fun name text other held => ?_⟩, ?_⟩
    · obtain same | moved := moved
      · exact (congrArg (·[name]?) same).trans held
      · exact moved.keeps other held
    · intro vault found
      simp only [World.step, World.perform, failed] at found
      cases found
  · simp only [World.step, World.perform, opened]
    refine ⟨⟨fun _ _ held => held, fun _ _ _ held => held⟩, ?_⟩
    rintro vault ⟨⟩
    exact ⟨fun _ none_ => (nomatch none_), fun _ => rfl⟩
  · simp only [World.step, World.perform, opened]
    refine ⟨⟨fun _ _ held => held, fun _ _ _ held => held⟩, ?_⟩
    rintro vault ⟨⟩
    exact ⟨own, empty⟩

theorem call_cases {α : Type} {world : World} {call : VaultCall α}
    {property : Vault → Except VaultError α → Desk → Prop}
    (spec : ∀ vault result after, world.vault = some vault → call.outcome (world.desk vault) = (result, after) →
      property vault result after) :
    world.call call = (none, world) ∨ ∃ vault result after, world.vault = some vault ∧
      world.call call = (some (result.map fun _ => ()), after.world) ∧ property vault result after := by
  rw [World.call]
  cases found : world.vault with
  | none => exact .inl rfl
  | some vault => exact .inr ⟨vault, _, _, rfl, rfl, spec vault _ _ found rfl⟩

/-- A change works on the open vault: it is a `Changed` desk, and what it stores is in the file and in memory. -/
theorem change_cases (ideal : P.Ideal) {world : World} (coherent : world.Coherent) {step : Step}
    (fits : step.Fits world) (change : ∀ opening, step ≠ .openVault opening) :
    world.perform P step = (none, world) ∨ ∃ vault result after, world.vault = some vault ∧
      world.perform P step = (some result, after.world) ∧
      Changed P (fun fingerprint => step.TakesOut P world fingerprint) (world.desk vault) after ∧
      ∀ slotId fingerprint, step.stores = some (slotId, fingerprint) → result = .ok () →
        after.folder = world.folder.insert VAULT_FILE (after.vault.file.text P) ∧
          after.Holds P slotId fingerprint := by
  cases step with
  | openVault opening => exact absurd rfl (change opening)
  | put writing slotId entry =>
    obtain same | ⟨vault, result, after, found, same, changed, stored⟩ := call_cases
      fun vault _ _ found ran => put_spec ideal (coherent vault found) fits.1 (fits.2 vault found) ran
        fun fingerprint => Step.TakesOut P world fingerprint (.put writing slotId entry)
    · exact .inl same
    · refine .inr ⟨vault, _, after, found, same, changed, ?_⟩
      rintro _ _ ⟨⟩ ok
      cases result with
      | error _ => cases ok
      | ok _ => exact stored rfl
  | replace writing slotId entry now =>
    obtain same | ⟨vault, result, after, found, same, changed, stored⟩ := call_cases
      fun vault _ _ found ran => replace_spec ideal (coherent vault found) fits ran
        fun fingerprint => Step.TakesOut P world fingerprint (.replace writing slotId entry now)
    · exact .inl same
    · refine .inr ⟨vault, _, after, found, same, changed, ?_⟩
      rintro _ _ ⟨⟩ ok
      cases result with
      | error _ => cases ok
      | ok retired => exact stored retired rfl
  | remove writing slotId =>
    obtain same | ⟨vault, result, after, found, same, changed⟩ := call_cases
      fun vault _ _ found ran => remove_spec (coherent vault found) ran
    · exact .inl same
    · refine .inr ⟨vault, _, after, found, same, changed.mono ?_, ?_⟩
      · rintro fingerprint ⟨allowed, entry, reads, named⟩
        exact ⟨allowed, vault, entry, found, reads, named⟩
      · rintro _ _ ⟨⟩

theorem step_extends (ideal : P.Ideal) {world : World} (coherent : world.Coherent) {step : Step}
    (fits : step.Fits world) : world.Extends (world.step P step) ∧ (world.step P step).Coherent := by
  by_cases change : ∀ opening, step ≠ .openVault opening
  · obtain same | ⟨vault, result, after, found, same, changed, _⟩ := change_cases ideal coherent fits change
    · rw [World.step, same]
      exact ⟨.refl world, coherent⟩
    · rw [World.step, same]
      refine ⟨⟨changed.keychain, fun name text other held => ?_⟩, ?_⟩
      · obtain folder | folder := changed.folder
        · exact (congrArg (·[name]?) folder).trans held
        · refine (congrArg (·[name]?) folder).trans ?_
          exact (BTreeMap.get?_insert_ne _ _ (Ne.symm other)).trans held
      · rintro _ ⟨⟩
        exact changed.coherent
  · push Not at change
    obtain ⟨opening, rfl⟩ := change
    exact open_extends world opening

/-! ## Safe entries -/

/-- The entry is in a file set aside, or both in `vault.json` and in the vault in memory. -/
def World.Safe (P : Primitives) (world : World) (slotId fingerprint : String) : Prop :=
  world.InAside P slotId fingerprint ∨
    (world.InFile P slotId fingerprint ∧
      ∀ vault, world.vault = some vault → (world.desk vault).Holds P slotId fingerprint)

theorem World.Safe.stored {world : World} {slotId fingerprint : String} (safe : world.Safe P slotId fingerprint) :
    world.Stored P slotId fingerprint :=
  safe.elim .inr fun both => .inl both.1

/-- What is in memory is in the file that was written from it. -/
theorem inFile_of_saved (ideal : P.Ideal) {folder : BTreeMap String} {desk : Desk}
    (saved : desk.folder = folder.insert VAULT_FILE (desk.vault.file.text P)) {slotId fingerprint : String}
    (holds : desk.Holds P slotId fingerprint) : desk.world.InFile P slotId fingerprint := by
  obtain ⟨key, account, entry⟩ := holds
  refine ⟨desk.vault.file.text P, ?_, desk.vault.file, key, readFile_text ideal _, account, entry⟩
  show desk.folder[VAULT_FILE]? = _
  rw [saved]
  exact BTreeMap.get?_insert_self _ _ _

/-- Opening anew takes the entries of the file into memory, or moves them aside with it. -/
theorem open_safe {world : World} (opening : Opening) {slotId fingerprint : String}
    (stored : world.Stored P slotId fingerprint) :
    (world.step P (.openVault opening)).Safe P slotId fingerprint := by
  obtain ⟨extends_, _⟩ := open_extends (P := P) world opening
  obtain ⟨text, here, holds⟩ | aside := stored
  · obtain ⟨error, failed, moved⟩ | ⟨_, missing⟩ | ⟨text', file, key, opened, here', read, _, _⟩ :=
      openVault_cases (P := P) opening world.folder world.keychain
    · obtain same | ⟨name, text', aside, _, here', moved⟩ := moved
      · refine .inr ⟨⟨text, (congrArg (·[VAULT_FILE]?) same).trans here, holds⟩, ?_⟩
        intro vault found
        simp only [World.step, World.perform, failed] at found
        cases found
      · obtain rfl := Option.some.inj (here.symm.trans here')
        refine .inl ⟨name, text, aside, ?_, holds⟩
        exact (congrArg (·[name]?) moved).trans (BTreeMap.get?_insert_self _ _ _)
    · rw [here] at missing
      cases missing
    · obtain rfl := Option.some.inj (here.symm.trans here')
      simp only [World.step, World.perform, opened]
      refine .inr ⟨⟨text, here, holds⟩, ?_⟩
      rintro vault ⟨⟩
      obtain ⟨file', key', read', account, entry⟩ := holds
      obtain rfl := Option.some.inj (read.symm.trans read')
      exact ⟨key', account, entry⟩
  · exact .inl (aside.extends extends_)

/-- A change that does not take a safe entry out leaves it safe. -/
theorem change_safe (ideal : P.Ideal) {world : World} (coherent : world.Coherent) {step : Step}
    (fits : step.Fits world) (change : ∀ opening, step ≠ .openVault opening) {slotId fingerprint : String}
    (stays : ¬ step.TakesOut P world fingerprint) (safe : world.Safe P slotId fingerprint) :
    (world.step P step).Safe P slotId fingerprint := by
  obtain aside | ⟨⟨text, here, holds⟩, memory⟩ := safe
  · exact .inl (aside.extends (step_extends ideal coherent fits).1)
  · obtain same | ⟨vault, result, after, found, same, changed, _⟩ := change_cases ideal coherent fits change
    · rw [World.step, same]
      exact .inr ⟨⟨text, here, holds⟩, memory⟩
    · rw [World.step, same]
      have kept := changed.holds slotId fingerprint stays (memory vault found)
      refine .inr ⟨?_, ?_⟩
      · obtain folder | folder := changed.folder
        · exact ⟨text, (congrArg (·[VAULT_FILE]?) folder).trans here, holds.grow changed.keychain⟩
        · exact inFile_of_saved ideal folder kept
      · rintro _ ⟨⟩
        exact kept

/-- What a put or a replacement stored is safe. -/
theorem stored_safe (ideal : P.Ideal) {world : World} (coherent : world.Coherent) {step : Step}
    (fits : step.Fits world) {slotId fingerprint : String} (stores : step.stores = some (slotId, fingerprint))
    (ok : (world.perform P step).1 = some (.ok ())) : (world.step P step).Safe P slotId fingerprint := by
  have change : ∀ opening, step ≠ .openVault opening := by
    rintro opening rfl
    cases stores
  obtain same | ⟨vault, result, after, found, same, changed, stored⟩ := change_cases ideal coherent fits change
  · rw [same] at ok
    cases ok
  · rw [same] at ok
    obtain rfl := Option.some.inj ok
    rw [World.step, same]
    obtain ⟨saved, holds⟩ := stored slotId fingerprint stores rfl
    refine .inr ⟨inFile_of_saved ideal saved holds, ?_⟩
    rintro _ ⟨⟩
    exact holds

/-- A step that leaves the folder as it was leaves what is stored. -/
theorem unsaved_stored (ideal : P.Ideal) {world : World} (coherent : world.Coherent) {step : Step}
    (fits : step.Fits world) {slotId fingerprint : String} (stored : world.Stored P slotId fingerprint)
    (same : (world.step P step).folder = world.folder) : (world.step P step).Stored P slotId fingerprint := by
  have extends_ := (step_extends (P := P) ideal coherent fits).1
  obtain ⟨text, here, holds⟩ | aside := stored
  · exact .inl ⟨text, (congrArg (·[VAULT_FILE]?) same).trans here, holds.grow extends_.keychain⟩
  · exact .inr (aside.extends extends_)

/-! ## Runs keep the keys -/

theorem run_extends (ideal : P.Ideal) {world : World} (coherent : world.Coherent) {steps : List Step}
    (fits : world.Fits P steps) : world.Extends (world.run P steps) ∧ (world.run P steps).Coherent := by
  induction steps generalizing world with
  | nil => exact ⟨.refl world, coherent⟩
  | cons step rest ih =>
    obtain ⟨extends_, coherent'⟩ := step_extends ideal coherent fits.1
    obtain ⟨later, final⟩ := ih coherent' fits.2
    exact ⟨extends_.trans later, final⟩

theorem World.run_append (world : World) (before after : List Step) :
    world.run P (before ++ after) = (world.run P before).run P after :=
  List.foldl_append

theorem Fits.append {world : World} {before after : List Step} (fits : world.Fits P (before ++ after)) :
    world.Fits P before ∧ (world.run P before).Fits P after := by
  induction before generalizing world with
  | nil => exact ⟨trivial, fits⟩
  | cons step rest ih => exact ⟨⟨fits.1, (ih fits.2).1⟩, (ih fits.2).2⟩

/-- Along the run the entry is stored, and safe unless it was taken out of the open vault. -/
theorem run_stored (ideal : P.Ideal) {world : World} (coherent : world.Coherent) {steps : List Step}
    (fits : world.Fits P steps) {slotId fingerprint : String} {taken : Prop}
    (never : NeverRemoved P fingerprint taken world steps) (stored : world.Stored P slotId fingerprint)
    (safe : ¬ taken → world.Safe P slotId fingerprint) : (world.run P steps).Stored P slotId fingerprint := by
  induction steps generalizing world taken with
  | nil => exact stored
  | cons step rest ih =>
    have coherent' := (step_extends ideal coherent fits.1).2
    by_cases change : ∀ opening, step ≠ .openVault opening
    · have split : ((taken ∨ step.TakesOut P world fingerprint) → (world.step P step).folder = world.folder) ∧
          NeverRemoved P fingerprint (taken ∨ step.TakesOut P world fingerprint) (world.step P step) rest := by
        cases step with
        | openVault opening => exact absurd rfl (change opening)
        | _ => exact never
      obtain ⟨unsaved, later⟩ := split
      by_cases gone : taken ∨ step.TakesOut P world fingerprint
      · exact ih coherent' fits.2 later (unsaved_stored ideal coherent fits.1 stored (unsaved gone))
          fun stays => absurd gone stays
      · rw [not_or] at gone
        have safe' := change_safe ideal coherent fits.1 change gone.2 (safe gone.1)
        exact ih coherent' fits.2 later safe'.stored fun _ => safe'
    · push Not at change
      obtain ⟨opening, rfl⟩ := change
      have safe' := open_safe opening stored
      exact ih coherent' fits.2 never safe'.stored fun _ => safe'

/-- Stored keys survive every run, key accounts are never overwritten and files set aside are never replaced. -/
theorem stored_keys_survive (ideal : P.Ideal) {start : World} (closed : start.vault = none) {steps : List Step}
    (fits : start.Fits P steps) :
    (∀ before step after (slotId fingerprint : String), steps = before ++ step :: after →
      step.stores = some (slotId, fingerprint) → ((start.run P before).perform P step).1 = some (.ok ()) →
      NeverRemoved P fingerprint False ((start.run P before).step P step) after →
      (start.run P steps).Stored P slotId fingerprint) ∧
    (∀ (before after : List Step) (account secret : String), steps = before ++ after →
      (start.run P before).keychain[account]? = some secret → (start.run P steps).keychain[account]? = some secret) ∧
    (∀ (before after : List Step) (name text : String), steps = before ++ after → IsAsideName name →
      (start.run P before).folder[name]? = some text → (start.run P steps).folder[name]? = some text) := by
  have coherent : start.Coherent := by
    intro vault found
    rw [closed] at found
    cases found
  have later (before after : List Step) (parts : steps = before ++ after) :
      (start.run P before).Extends (start.run P steps) := by
    obtain ⟨fitsBefore, fitsAfter⟩ := Fits.append (parts ▸ fits)
    rw [parts, World.run_append]
    exact (run_extends ideal (run_extends ideal coherent fitsBefore).2 fitsAfter).1
  refine ⟨?_, fun before after account secret parts => (later before after parts).keychain account secret, ?_⟩
  · rintro before step after slotId fingerprint rfl stores ok never
    obtain ⟨fitsBefore, fitsStep, fitsAfter⟩ := Fits.append fits
    have reached := (run_extends ideal coherent fitsBefore).2
    have safe := stored_safe ideal reached fitsStep stores ok
    rw [World.run_append]
    exact run_stored ideal (step_extends ideal reached fitsStep).2 fitsAfter never safe.stored fun _ => safe
  · rintro before after _ text parts ⟨kind, now, n, _, rfl⟩ here
    exact (later before after parts).folder _ text (asideName_ne kind now n) here

/-! ## Samples -/

def sampleKey : Key := ⟨"AAAAAAAAAAAAAAAAAAAAAAAAAAAAAAAAAAAAAAAAAAA=", by decide⟩

def sampleEntry (fingerprint : String) : VaultEntry :=
  { privateKey := "private", publicKey := "public", fingerprint, origin := .Imported, addedAtMs := 5 }

def emptyWorld : World := { folder := ∅, keychain := ∅, vault := none }

def opens (answer : Answer) : Step := .openVault { now := 7, answer }

/-- The first key, with a new account. -/
def firstPut : Step := .put { drawn := .ok (Vector.replicate 8 0, sampleKey), nonce := .ok "nonce" } "a" (sampleEntry "F")

def secondPut : Step := .put { drawn := .error "no key to draw", nonce := .ok "nonce" } "b" (sampleEntry "G")

def failedRemove : Step :=
  .remove { drawn := .error "no key to draw", nonce := .ok "nonce", saving := .Failed "disk full" } "a"

theorem firstPut_fits : firstPut.Fits (emptyWorld.step plainPrimitives (opens .Stored)) := by
  refine ⟨fun _ _ _ => ?_, ?_⟩
  · show (∅ : BTreeMap String)[_]? = none
    simp
  · rintro vault ⟨⟩
    simp

theorem missing_fits : emptyWorld.Fits plainPrimitives [opens .Stored, firstPut, opens .Missing] :=
  ⟨trivial, firstPut_fits, trivial, trivial⟩

/-- The key is missing the next time the vault is opened: the entry is in the file set aside. -/
theorem key_survives_a_missing_answer :
    (emptyWorld.run plainPrimitives [opens .Stored, firstPut, opens .Missing]).Stored plainPrimitives "a"
      "F" :=
  (stored_keys_survive plainPrimitives_ideal rfl missing_fits).1 [opens .Stored] firstPut [opens .Missing] "a"
    "F" rfl rfl rfl trivial

/-- The file after the second put. -/
def lastFile : VaultFile where
  version := VAULT_VERSION
  keyAccount := some (newKeyAccount (Vector.replicate 8 0))
  entries :=
    (((∅ : BTreeMap SealedEntry).insert "a"
      (sealEntry plainPrimitives sampleKey "nonce" "a" (sampleEntry "F"))).erase "a").insert "b"
      (sealEntry plainPrimitives sampleKey "nonce" "b" (sampleEntry "G"))

/-- A removal that failed is carried out by the next save. -/
theorem failed_remove_is_saved_later :
    emptyWorld.Fits plainPrimitives [opens .Stored, firstPut, failedRemove, secondPut] ∧
    ((emptyWorld.run plainPrimitives [opens .Stored]).perform plainPrimitives firstPut).1 =
      some (.ok ()) ∧
    ((emptyWorld.run plainPrimitives [opens .Stored, firstPut]).perform plainPrimitives failedRemove).1 =
      some (.error (.Other "disk full")) ∧
    ((emptyWorld.run plainPrimitives [opens .Stored, firstPut, failedRemove]).perform plainPrimitives
      secondPut).1 = some (.ok ()) ∧
    ¬ (emptyWorld.run plainPrimitives [opens .Stored, firstPut, failedRemove, secondPut]).Stored
      plainPrimitives "a" "F" := by
  refine ⟨⟨trivial, firstPut_fits, trivial, ⟨fun _ _ drawn => (nomatch drawn), ?_⟩, trivial⟩, rfl, rfl, rfl, ?_⟩
  · rintro vault ⟨⟩
    show "b" ∉ ((∅ : BTreeMap SealedEntry).insert "a" _).erase "a"
    simp
  · have folder : (emptyWorld.run plainPrimitives [opens .Stored, firstPut, failedRemove, secondPut]).folder =
        ((emptyWorld.run plainPrimitives [opens .Stored, firstPut]).folder).insert VAULT_FILE
          (lastFile.text plainPrimitives) := rfl
    have older : (emptyWorld.run plainPrimitives [opens .Stored, firstPut]).folder =
        (∅ : BTreeMap String).insert VAULT_FILE _ := rfl
    rintro (⟨text, here, file, key, read, _, id, box, _, placed, there, _⟩ | ⟨name, text, aside, here, _⟩)
    · rw [folder, BTreeMap.get?_insert_self] at here
      obtain rfl := Option.some.inj here
      rw [readFile_text plainPrimitives_ideal] at read
      obtain rfl := Option.some.inj read
      have only : "b" = id := by
        by_contra other
        have missing : lastFile.entries[id]? = none := by
          rw [lastFile, BTreeMap.get?_insert_ne _ _ other, BTreeMap.get?_erase, BTreeMap.get?_insert]
          split
          · rfl
          · simp
        rw [there] at missing
        cases missing
      subst only
      exact absurd placed (by decide)
    · obtain ⟨kind, now, n, _, rfl⟩ := aside
      have other := Ne.symm (asideName_ne kind now n)
      rw [folder, older, BTreeMap.get?_insert_ne _ _ other, BTreeMap.get?_insert_ne _ _ other] at here
      simp at here

end Sshelter.Store
