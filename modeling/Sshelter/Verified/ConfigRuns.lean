import Sshelter.Config.Document
import Sshelter.Verified.ConfigText
import Sshelter.Verified.HostText

/-! # The document in memory and the files on disk

Every command edits the document in memory before it writes.  `SyncedExcept` says which
files of the document may differ from the disk: an edit opens one, a successful write closes
it.  A failed write has to close it too, by taking the edit back or by loading the document
again; the commands behind `editAndPersist` do neither, so a run keeps memory and disk
together exactly as long as none of them fails to write a file whose text it changed.
-/

namespace Sshelter.Config

open Text

variable {m : Machine} {disk disk' : Disk} {doc doc' edited : SshConfigDoc} {idx : Nat}

/-! ## Documents that agree with the disk -/

/-- Every file of the document outside the given places is on disk as the document has it. -/
structure SyncedExcept (m : Machine) (places : List Nat) (disk : Disk) (doc : SshConfigDoc) : Prop where
  paths : (doc.files.map ConfigFile.path).Nodup
  stored : ∀ idx file, doc.files[idx]? = some file → idx ∉ places → disk[file.path]? = some file.text
  fingerprint : ∀ idx file, doc.files[idx]? = some file → idx ∉ places →
    file.fingerprint = m.sha256 file.text

/-- The document in memory is what is on disk, or there is none. -/
def World.Synced (m : Machine) (world : World) : Prop :=
  ∀ doc, world.slot = some doc → SyncedExcept m [] world.disk doc

/-- Two files of the document at one path are the same file. -/
theorem SyncedExcept.same_place {places : List Nat} (synced : SyncedExcept m places disk doc) {i j : Nat}
    {a b : ConfigFile} (hi : doc.files[i]? = some a) (hj : doc.files[j]? = some b) (same : a.path = b.path) :
    i = j := by
  have inside : i < (doc.files.map ConfigFile.path).length := by
    rw [List.length_map]
    exact (List.getElem?_eq_some_iff.mp hi).1
  apply (List.getElem?_inj inside synced.paths).mp
  simp [hi, hj, same]

theorem getElem?_modifyItems (doc : SshConfigDoc) (idx i : Nat) (edit : List Item → List Item) :
    (doc.modifyItems idx edit).files[i]? =
      (fun file => if idx = i then { file with items := edit file.items } else file) <$> doc.files[i]? := by
  rw [SshConfigDoc.modifyItems, List.getElem?_modify]

theorem paths_modify {files : List ConfigFile} {edit : ConfigFile → ConfigFile}
    (kept : ∀ file, (edit file).path = file.path) :
    (files.modify idx edit).map ConfigFile.path = files.map ConfigFile.path := by
  apply List.ext_getElem?
  intro i
  rw [List.getElem?_map, List.getElem?_modify, List.getElem?_map]
  cases files[i]? with
  | none => simp
  | some file =>
    by_cases here : idx = i <;> simp [here, kept]

/-- An edit opens its file. -/
theorem SyncedExcept.modifyItems {places : List Nat} (synced : SyncedExcept m places disk doc)
    (edit : List Item → List Item) : SyncedExcept m (idx :: places) disk (doc.modifyItems idx edit) where
  paths := by
    rw [SshConfigDoc.modifyItems, paths_modify]
    · exact synced.paths
    · exact fun _ => rfl
  stored := by
    intro i file found outside
    simp only [List.mem_cons, not_or] at outside
    rw [getElem?_modifyItems] at found
    simp only [if_neg (Ne.symm outside.1), id_map'] at found
    exact synced.stored i file found outside.2
  fingerprint := by
    intro i file found outside
    simp only [List.mem_cons, not_or] at outside
    rw [getElem?_modifyItems] at found
    simp only [if_neg (Ne.symm outside.1), id_map'] at found
    exact synced.fingerprint i file found outside.2

/-- An edit that leaves the text alone opens nothing. -/
theorem SyncedExcept.close {places : List Nat} (synced : SyncedExcept m (idx :: places) disk edited)
    {file : ConfigFile} (found : edited.files[idx]? = some file) (stored : disk[file.path]? = some file.text)
    (fingerprint : file.fingerprint = m.sha256 file.text) : SyncedExcept m places disk edited where
  paths := synced.paths
  stored := by
    intro i other there outside
    by_cases here : i = idx
    · subst here
      obtain rfl : file = other := Option.some.inj (found.symm.trans there)
      exact stored
    · exact synced.stored i other there (by simp [here, outside])
  fingerprint := by
    intro i other there outside
    by_cases here : i = idx
    · subst here
      obtain rfl : file = other := Option.some.inj (found.symm.trans there)
      exact fingerprint
    · exact synced.fingerprint i other there (by simp [here, outside])

/-! ## Writing a file -/

theorem persistFile_eq_ok {fault : Option AppError} {saved : SshConfigDoc × Disk}
    (h : persistFile m fault disk doc idx = .ok saved) :
    ∃ file, doc.files[idx]? = some file ∧ saved =
      ({ files := doc.files.modify idx fun file => { file with fingerprint := m.sha256 file.text } },
        disk.insert file.path file.text) := by
  rw [persistFile, Result.check_eq_ok] at h
  obtain ⟨-, h⟩ := h
  split at h
  · cases h
  · rename_i file found
    rw [Result.check_eq_ok, Result.refuse_bind_eq_ok] at h
    obtain ⟨-, -, h⟩ := h
    split at h
    · cases h
    · exact ⟨file, found, (Except.ok.inj h).symm⟩

/-- A successful write closes its file. -/
theorem SyncedExcept.persist {places : List Nat} {fault : Option AppError} {saved : SshConfigDoc × Disk}
    (synced : SyncedExcept m (idx :: places) disk doc)
    (h : persistFile m fault disk doc idx = .ok saved) : SyncedExcept m places saved.2 saved.1 := by
  obtain ⟨file, found, rfl⟩ := persistFile_eq_ok h
  have written : ∀ i other, (doc.files.modify idx fun file =>
      { file with fingerprint := m.sha256 file.text })[i]? = some other →
      (i = idx ∧ other = { file with fingerprint := m.sha256 file.text }) ∨
      (i ≠ idx ∧ doc.files[i]? = some other) := by
    intro i other there
    rw [List.getElem?_modify] at there
    by_cases here : idx = i
    · subst here
      simp only [found, Option.map_eq_map, Option.map_some, if_true, Option.some.injEq] at there
      exact .inl ⟨rfl, there.symm⟩
    · simp only [if_neg here, id_map'] at there
      exact .inr ⟨Ne.symm here, there⟩
  refine { paths := ?_, stored := ?_, fingerprint := ?_ }
  · show (List.map _ _).Nodup
    rw [paths_modify]
    · exact synced.paths
    · exact fun _ => rfl
  · intro i other there outside
    show (disk.insert file.path file.text)[other.path]? = _
    rcases written i other there with ⟨rfl, rfl⟩ | ⟨elsewhere, there⟩
    · exact BTreeMap.get?_insert_self _ _ _
    · have apart : file.path ≠ other.path := fun same =>
        elsewhere (synced.same_place found there same).symm
      rw [BTreeMap.get?_insert_ne _ _ apart]
      exact synced.stored i other there (by simp [elsewhere, outside])
  · intro i other there outside
    rcases written i other there with ⟨rfl, rfl⟩ | ⟨elsewhere, there⟩
    · rfl
    · exact synced.fingerprint i other there (by simp [elsewhere, outside])

/-! ## Edits -/

theorem hostFile_eq_ok {alias_ : List Char} (h : hostFile doc alias_ = .ok idx) :
    ∃ file, doc.files[idx]? = some file := by
  unfold hostFile at h
  split at h
  · rename_i found
    cases h
    exact ⟨_, List.getElem?_eq_getElem (List.findIdx?_eq_some_iff_getElem.mp found).1⟩
  · cases h

theorem fileNamed_eq_ok {path : String} (h : fileNamed doc path = .ok idx) :
    ∃ file, doc.files[idx]? = some file := by
  unfold fileNamed at h
  split at h
  · rename_i found
    cases h
    exact ⟨_, List.getElem?_eq_getElem (List.findIdx?_eq_some_iff_getElem.mp found).1⟩
  · cases h

/-- An edit rewrites the items of one file of the document. -/
def EditsOne (doc edited : SshConfigDoc) (idx : Nat) : Prop :=
  (∃ file, doc.files[idx]? = some file) ∧ ∃ edit, edited = doc.modifyItems idx edit

theorem renameHost_editsOne {alias_ : List Char} {patterns : List (List Char)}
    (h : renameHost doc alias_ patterns = .ok (edited, idx)) : EditsOne doc edited idx := by
  rw [renameHost, Result.check_eq_ok] at h
  obtain ⟨-, h⟩ := h
  obtain ⟨place, found, h⟩ := Result.bind_eq_ok.mp h
  rw [Result.refuse_bind_eq_ok] at h
  cases h.2
  exact ⟨hostFile_eq_ok found, _, rfl⟩

theorem duplicateHost_editsOne {alias_ newAlias : List Char}
    (h : duplicateHost doc alias_ newAlias = .ok (edited, idx)) : EditsOne doc edited idx := by
  rw [duplicateHost, Result.check_eq_ok, Result.refuse_bind_eq_ok] at h
  obtain ⟨-, -, h⟩ := h
  obtain ⟨place, found, h⟩ := Result.bind_eq_ok.mp h
  cases h
  exact ⟨hostFile_eq_ok found, _, rfl⟩

theorem setOptionEnabled_editsOne {u : UnicodeTables} {alias_ keyword : List Char} {index : Nat} {enabled : Bool}
    (h : setOptionEnabled u doc alias_ keyword index enabled = .ok (edited, idx)) :
    EditsOne doc edited idx := by
  obtain ⟨place, found, h⟩ := Result.bind_eq_ok.mp h
  split at h
  · cases h
  · split at h
    · cases h
    · rw [Result.refuse_bind_eq_ok] at h
      cases h.2
      exact ⟨hostFile_eq_ok found, _, rfl⟩

theorem Edit.apply_editsOne {u : UnicodeTables} {edit : Edit} (h : edit.apply u doc = .ok (edited, idx)) :
    EditsOne doc edited idx := by
  cases edit with
  | SaveHost alias_ changes =>
    obtain ⟨place, found, h⟩ := Result.bind_eq_ok.mp h
    cases h
    exact ⟨hostFile_eq_ok found, _, rfl⟩
  | AddHost targetFile alias_ fields =>
    obtain ⟨place, found, h⟩ := Result.bind_eq_ok.mp h
    cases h
    exact ⟨fileNamed_eq_ok found, _, rfl⟩
  | RemoveHost alias_ =>
    obtain ⟨place, found, h⟩ := Result.bind_eq_ok.mp h
    cases h
    exact ⟨hostFile_eq_ok found, _, rfl⟩
  | RenameHost alias_ patterns => exact renameHost_editsOne h
  | DuplicateHost alias_ newAlias => exact duplicateHost_editsOne h
  | SetOptionEnabled alias_ keyword index enabled => exact setOptionEnabled_editsOne h
  | SetTags alias_ tags =>
    obtain ⟨place, found, h⟩ := Result.bind_eq_ok.mp h
    cases h
    exact ⟨hostFile_eq_ok found, _, rfl⟩
  | ReorderHosts file order =>
    obtain ⟨place, found, h⟩ := Result.bind_eq_ok.mp h
    cases h
    exact ⟨fileNamed_eq_ok found, _, rfl⟩

/-- A document with one edited file agrees with the disk exactly when the edit left the text
alone. -/
theorem synced_edited_iff (synced : SyncedExcept m [] disk doc) (one : EditsOne doc edited idx) :
    SyncedExcept m [] disk edited ↔ edited.textAt idx = doc.textAt idx := by
  obtain ⟨⟨file, found⟩, edit, rfl⟩ := one
  have there : (doc.modifyItems idx edit).files[idx]? = some { file with items := edit file.items } := by
    rw [getElem?_modifyItems, found]
    simp
  have stored := synced.stored idx file found (by simp)
  rw [SshConfigDoc.textAt, SshConfigDoc.textAt, there, found, Option.map_some, Option.map_some,
    Option.some.injEq]
  constructor
  · intro after
    have now := after.stored idx _ there (by simp)
    exact Option.some.inj (now.symm.trans stored)
  · intro same
    refine (synced.modifyItems edit).close there ?_ ?_
    · rw [same]
      exact stored
    · rw [same]
      exact synced.fingerprint idx file found (by simp)

/-- Putting the saved items back undoes an edit. -/
theorem modifyItems_restore {file : ConfigFile} (found : doc.files[idx]? = some file)
    (edit : List Item → List Item) :
    (doc.modifyItems idx edit).modifyItems idx (fun _ => file.items) = doc := by
  cases doc with
  | mk files =>
    simp only [SshConfigDoc.modifyItems, SshConfigDoc.mk.injEq]
    apply List.ext_getElem?
    intro i
    rw [List.getElem?_modify, List.getElem?_modify]
    by_cases here : idx = i
    · subst here
      rw [found]
      simp
    · simp [here]

/-! ## Loading again -/

/-- The files loaded so far are the ones visited, each as it is on disk. -/
structure Loaded (m : Machine) (disk : Disk) (visited : List String) (files : List ConfigFile) : Prop where
  paths : (files.map ConfigFile.path).Nodup
  visited : ∀ file ∈ files, file.path ∈ visited
  stored : ∀ file ∈ files, disk[file.path]? = some file.text
  fingerprint : ∀ file ∈ files, file.fingerprint = m.sha256 file.text

theorem Loaded.cons {visited : List String} {files : List ConfigFile} (loaded : Loaded m disk visited files)
    (path : String) : Loaded m disk (path :: visited) files :=
  { loaded with visited := fun file member => List.mem_cons_of_mem _ (loaded.visited file member) }

theorem Loaded.add {unreadable visited : List String} {files : List ConfigFile} {path : String}
    {text : List Char} (loaded : Loaded m disk visited files) (fresh : ¬ visited.contains path = true)
    (read : readFile disk unreadable path = some text) :
    Loaded m disk (path :: visited)
      (files ++ [{ path, items := (parseFile m.u text).1, trailingNewline := (parseFile m.u text).2,
                   fingerprint := m.sha256 text }]) := by
  have here : disk[path]? = some text := by
    unfold readFile at read
    split at read
    · cases read
    · exact read
  have roundTrip := serializeItems_parseFile m.u text
  have new : path ∉ files.map ConfigFile.path := by
    intro member
    obtain ⟨file, inFiles, rfl⟩ := List.mem_map.mp member
    exact fresh (by simpa using loaded.visited file inFiles)
  refine { paths := ?_, visited := ?_, stored := ?_, fingerprint := ?_ }
  · rw [List.map_append, List.nodup_append]
    refine ⟨loaded.paths, List.nodup_singleton _, ?_⟩
    rintro other member _ last rfl
    rw [List.map_singleton, List.mem_singleton] at last
    rw [last] at member
    exact new member
  all_goals
    intro file member
    rcases List.mem_append.mp member with member | member
  · exact List.mem_cons_of_mem _ (loaded.visited file member)
  · rw [List.mem_singleton.mp member]
    exact List.mem_cons_self
  · exact loaded.stored file member
  · rw [List.mem_singleton.mp member, ConfigFile.text, roundTrip]
    exact here
  · exact loaded.fingerprint file member
  · rw [List.mem_singleton.mp member, ConfigFile.text, roundTrip]

theorem loadFiles_loaded {unreadable pending visited : List String} {files loadedFiles : List ConfigFile}
    (loaded : Loaded m disk visited files)
    (h : loadFiles m disk unreadable pending visited files = .ok loadedFiles) :
    ∃ visited, Loaded m disk visited loadedFiles := by
  fun_induction loadFiles m disk unreadable pending visited files with
  | case1 visited files =>
    cases h
    exact ⟨visited, loaded⟩
  | case2 => cases h
  | case3 visited files path rest hwrite seen ih => exact ih loaded h
  | case4 => cases h
  | case5 visited files path rest hwrite seen hread hfirst ih => exact ih (loaded.cons path) h
  | case6 => cases h
  | case7 => cases h
  | case8 visited files path rest hwrite fresh text read items trailingNewline parsed hcheck found htokens ih =>
    have added := loaded.add fresh read
    rw [parsed] at added
    exact ih added h

theorem loadDoc_synced {unreadable : List String} {main : String}
    (h : loadDoc m disk unreadable main = .ok doc) : SyncedExcept m [] disk doc := by
  unfold loadDoc at h
  cases run : loadFiles m disk unreadable [main] [] [] with
  | error e =>
    rw [run] at h
    cases h
  | ok files =>
    rw [run] at h
    cases h
    have none_ : Loaded m disk [] [] :=
      ⟨List.nodup_nil, by simp, by simp, by simp⟩
    obtain ⟨visited, loaded⟩ := loadFiles_loaded none_ run
    exact
      { paths := loaded.paths
        stored := fun i file found _ => loaded.stored file (List.mem_of_getElem? found)
        fingerprint := fun i file found _ => loaded.fingerprint file (List.mem_of_getElem? found) }

theorem get?_eraseAll (strays : List String) (disk : Disk) (path : String) :
    (strays.foldl (fun disk path => disk.erase path) disk)[path]? =
      if strays.contains path then none else disk[path]? := by
  induction strays generalizing disk with
  | nil => simp
  | cons stray rest ih =>
    rw [List.foldl_cons, ih, BTreeMap.get?_erase]
    by_cases here : stray = path
    · simp [here]
    · simp [here, Ne.symm here]

/-- Loading again gives a document that agrees with the disk, or none, and no file that was
not there. -/
theorem loadDocMigrated_synced {attempt : Attempt} {main : String} {slot : Option SshConfigDoc}
    (h : loadDocMigrated m attempt disk main = (slot, disk')) :
    World.Synced m ⟨slot, disk'⟩ ∧
    ∀ (path : String) (text : List Char), disk'[path]? = some text → disk[path]? = some text := by
  unfold loadDocMigrated at h
  cases first : loadDoc m disk attempt.unreadable main with
  | error e =>
    rw [first] at h
    cases h
    exact ⟨fun doc loaded => (by cases loaded), fun path text there => there⟩
  | ok loaded =>
    rw [first] at h
    simp only at h
    have moved : disk' = attempt.strays.foldl (fun disk path => disk.erase path) disk := by
      split at h <;> exact (Prod.mk.inj h).2.symm
    refine ⟨?_, ?_⟩
    · intro doc here
      obtain rfl : slot = some doc := here
      split at h
      · have again := Result.mem_toOption.mp (Prod.mk.inj h).1
        rw [(Prod.mk.inj h).2] at again
        exact loadDoc_synced again
      · rename_i fresh
        obtain rfl : loaded = doc := Option.some.inj (Prod.mk.inj h).1
        have synced := loadDoc_synced first
        refine { synced with stored := ?_ }
        intro i file found outside
        have kept : attempt.strays.contains file.path = false := by
          simp only [migrateLegacyBackups, List.any_eq_true, not_exists, not_and, Bool.not_eq_true] at fresh
          exact fresh file (List.mem_of_getElem? found)
        show disk'[file.path]? = _
        rw [moved, get?_eraseAll, kept]
        exact synced.stored i file found outside
    · intro path text there
      rw [moved, get?_eraseAll] at there
      split at there
      · cases there
      · exact there

/-! ## One command -/

/-- A command without a way back does not fail to write a file whose text it changed. -/
def WrittenOrUndone (m : Machine) (world : World) (call : Command × Attempt) : Prop :=
  ∀ edit doc edited idx e, call.1 = .Edit edit → call.2.refusal = none → world.slot = some doc →
    edit.apply m.u doc = .ok (edited, idx) →
    persistFile m call.2.first world.disk edited idx = .error e →
    edited.textAt idx = doc.textAt idx

/-- The call moved a host as far as the target file: that file is written, the source is not. -/
def HalfMoved (m : Machine) (world : World) (call : Command × Attempt) : Prop :=
  ∃ alias_ targetFile doc edited src tgt saved e, call.1 = .MoveHost alias_ targetFile ∧
    call.2.refusal = none ∧ world.slot = some doc ∧
    moveHost m world.disk doc alias_ targetFile = .ok (edited, src, tgt) ∧
    persistFile m call.2.first world.disk edited tgt = .ok saved ∧
    persistFile m call.2.second saved.2 saved.1 src = .error e

/-- The condition on one call. -/
def TakenBack (m : Machine) (world : World) (call : Command × Attempt) : Prop :=
  WrittenOrUndone m world call ∧ ¬ HalfMoved m world call

/-- Whether memory and disk agree after a command of `editAndPersist`. -/
theorem editAndPersist_synced {attempt : Attempt} {world : World} (synced : world.Synced m) (edit : Edit) :
    (editAndPersist m attempt world (edit.apply m.u)).2.Synced m ↔
      ∀ doc edited idx e, world.slot = some doc → edit.apply m.u doc = .ok (edited, idx) →
        persistFile m attempt.first world.disk edited idx = .error e →
        edited.textAt idx = doc.textAt idx := by
  unfold editAndPersist
  cases slot : world.slot with
  | none => simp [synced]
  | some doc =>
    have before := synced doc slot
    simp only [Option.some.injEq]
    cases applied : edit.apply m.u doc with
    | error e =>
      simp only [synced, true_iff]
      rintro doc' edited idx e' rfl failed
      rw [applied] at failed
      cases failed
    | ok result =>
      obtain ⟨edited, idx⟩ := result
      have one := Edit.apply_editsOne applied
      simp only
      cases saved : persistFile m attempt.first world.disk edited idx with
      | error e =>
        -- a failed write leaves the disk, so memory agrees with it where the edit changed nothing
        have exactly := synced_edited_iff before one
        simp only
        constructor
        · rintro after doc' edited' idx' e' rfl applied' -
          obtain ⟨rfl, rfl⟩ := Prod.mk.inj (Except.ok.inj (applied.symm.trans applied'))
          exact exactly.mp (after edited rfl)
        · intro undone loaded here
          obtain rfl : edited = loaded := Option.some.inj here
          exact exactly.mpr (undone doc edited idx e rfl applied saved)
      | ok written =>
        obtain ⟨⟨file, found⟩, change, rfl⟩ := one
        have after := (before.modifyItems change).persist saved
        simp only
        constructor
        · rintro - doc' edited' idx' e' rfl applied' failed
          obtain ⟨rfl, rfl⟩ := Prod.mk.inj (Except.ok.inj (applied.symm.trans applied'))
          rw [saved] at failed
          cases failed
        · rintro - loaded here
          obtain rfl : written.1 = loaded := Option.some.inj here
          exact after

theorem setIdentityFile_synced {attempt : Attempt} {world : World} (synced : world.Synced m)
    (alias_ value : List Char) : (setIdentityFile m attempt world alias_ value).2.Synced m := by
  unfold setIdentityFile
  split
  · exact synced
  · rename_i doc slot
    have before := synced doc slot
    split
    · exact synced
    · rename_i idx owner
      obtain ⟨file, found⟩ := hostFile_eq_ok owner
      simp only [found, Option.map_some, Option.getD_some]
      split
      · intro loaded here
        rw [modifyItems_restore found] at here
        obtain rfl : doc = loaded := Option.some.inj here
        exact before
      · rename_i saved disk written
        intro loaded here
        obtain rfl : saved = loaded := Option.some.inj here
        exact (before.modifyItems _).persist written

theorem moveHost_eq_ok {alias_ : List Char} {targetFile : String} {src tgt : Nat}
    (h : moveHost m disk doc alias_ targetFile = .ok (edited, src, tgt)) :
    ∃ leave arrive, edited = (doc.modifyItems src leave).modifyItems tgt arrive := by
  obtain ⟨target, -, h⟩ := Result.bind_eq_ok.mp h
  obtain ⟨source, -, h⟩ := Result.bind_eq_ok.mp h
  rw [Result.refuse_bind_eq_ok] at h
  obtain ⟨-, h⟩ := h
  simp only [Result.check_eq_ok] at h
  obtain ⟨-, h⟩ := h
  split at h
  · cases h
  · cases h
    exact ⟨_, _, rfl⟩

/-- A move that fails leaves no new text on disk unless only the target file was written. -/
theorem moveHostAndPersist_error {attempt : Attempt} {world : World} {alias_ : List Char} {targetFile : String}
    {e : AppError} (asked : attempt.refusal = none)
    (h : (moveHostAndPersist m attempt world alias_ targetFile).1 = .error e) :
    HalfMoved m world (.MoveHost alias_ targetFile, attempt) ∨
    ∀ (path : String) (text : List Char),
      (moveHostAndPersist m attempt world alias_ targetFile).2.disk[path]? = some text →
      world.disk[path]? = some text := by
  unfold moveHostAndPersist at h ⊢
  split
  · exact .inr fun path text there => there
  · rename_i doc slot
    split
    · exact .inr fun path text there => there
    · rename_i allowed
      split
      · exact .inr fun path text there => there
      · rename_i edited src tgt moved
        simp only [slot, allowed, moved] at h
        split
        · rename_i saved written
          rw [written] at h
          cases h
        · rename_i e' disk' written
          unfold persistMove at written
          split at written
          · cases written
            exact .inr (loadDocMigrated_synced rfl).2
          · rename_i half first
            split at written
            · rename_i second
              exact .inl ⟨alias_, targetFile, doc, edited, src, tgt, _, _, rfl, asked, slot, moved, first, second⟩
            · cases written

theorem moveHostAndPersist_synced {attempt : Attempt} {world : World} (synced : world.Synced m)
    (alias_ : List Char) (targetFile : String) :
    (moveHostAndPersist m attempt world alias_ targetFile).2.Synced m := by
  unfold moveHostAndPersist
  split
  · exact synced
  · rename_i doc slot
    have before := synced doc slot
    split
    · exact synced
    · split
      · exact synced
      · rename_i edited src tgt moved
        split
        · rename_i saved disk written
          intro loaded here
          obtain rfl : saved = loaded := Option.some.inj here
          obtain ⟨leave, arrive, rfl⟩ := moveHost_eq_ok moved
          unfold persistMove at written
          split at written
          · cases written
          · rename_i half first
            split at written
            · cases written
            · rename_i second
              cases written
              -- the target is closed first, then the source
              have both : SyncedExcept m [tgt, src] world.disk
                  ((doc.modifyItems src leave).modifyItems tgt arrive) :=
                (before.modifyItems leave).modifyItems arrive
              exact (both.persist first).persist second
        · rename_i e disk written
          exact (loadDocMigrated_synced rfl).1

/-- After a command memory and disk agree exactly under the condition. -/
theorem step_synced_iff {world : World} (synced : world.Synced m) (call : Command × Attempt) :
    (step m world call).2.Synced m ↔ WrittenOrUndone m world call := by
  obtain ⟨command, attempt⟩ := call
  unfold step WrittenOrUndone
  cases refused : attempt.refusal with
  | some e => simp [synced]
  | none =>
    cases command with
    | Edit edit =>
      simp only [editAndPersist_synced synced]
      constructor
      · rintro undone edit' doc edited idx e same - slot
        cases same
        exact undone doc edited idx e slot
      · intro undone doc edited idx e slot
        exact undone edit doc edited idx e rfl trivial slot
    | SetIdentityFile alias_ value => simp [setIdentityFile_synced synced]
    | MoveHost alias_ targetFile => simp [moveHostAndPersist_synced synced]

/-- A command that fails leaves no new text on disk, a half done move apart. -/
theorem step_error {world : World} {call : Command × Attempt} {e : AppError}
    (h : (step m world call).1 = .error e) :
    HalfMoved m world call ∨
    ∀ (path : String) (text : List Char),
      (step m world call).2.disk[path]? = some text → world.disk[path]? = some text := by
  obtain ⟨command, attempt⟩ := call
  unfold step at h ⊢
  cases refused : attempt.refusal with
  | some e' => exact .inr fun path text there => there
  | none =>
    rw [refused] at h
    cases command with
    | Edit edit =>
      refine .inr ?_
      simp only [editAndPersist] at h ⊢
      split
      · exact fun path text there => there
      · rename_i doc slot
        simp only [slot] at h
        split
        · exact fun path text there => there
        · rename_i edited idx applied
          simp only [applied] at h
          -- a write that fails leaves the disk, and one that succeeds returns no error
          split
          · exact fun path text there => there
          · rename_i saved
            rw [saved] at h
            cases h
    | SetIdentityFile alias_ value =>
      refine .inr ?_
      simp only [setIdentityFile] at h ⊢
      split
      · exact fun path text there => there
      · rename_i doc slot
        simp only [slot] at h
        split
        · exact fun path text there => there
        · rename_i idx owner
          simp only [owner] at h
          split
          · exact fun path text there => there
          · rename_i saved
            rw [saved] at h
            cases h
    | MoveHost alias_ targetFile => exact moveHostAndPersist_error refused h

/-! ## Runs -/

/-- Every call of the run meets the condition where it is made. -/
def Careful (m : Machine) : World → List (Command × Attempt) → Prop
  | _, [] => True
  | world, call :: rest => TakenBack m world call ∧ Careful m (step m world call).2 rest

theorem run_synced {world : World} (synced : world.Synced m) {before rest : List (Command × Attempt)}
    (careful : Careful m world (before ++ rest)) :
    (run m world before).Synced m ∧ Careful m (run m world before) rest := by
  induction before generalizing world with
  | nil => exact ⟨synced, careful⟩
  | cons call before ih =>
    have next := (step_synced_iff synced call).mpr careful.1.1
    exact ih next careful.2

/-- In a run in which no command without a way back fails to write a file it changed and no
move is left half done, every command leaves memory and disk in agreement, or no document in
memory, and a failed one puts no text on disk that was not there. -/
theorem failed_changes_stay_off_disk (m : Machine) {world : World} (loaded : world.Synced m)
    {calls : List (Command × Attempt)} (careful : Careful m world calls)
    {before after : List (Command × Attempt)} {call : Command × Attempt}
    (split : calls = before ++ call :: after) :
    (step m (run m world before) call).2.Synced m ∧
    ∀ e, (step m (run m world before) call).1 = .error e → ∀ (path : String) (text : List Char),
        (step m (run m world before) call).2.disk[path]? = some text →
        (run m world before).disk[path]? = some text := by
  subst split
  obtain ⟨synced, here, -⟩ := run_synced loaded careful
  exact ⟨(step_synced_iff synced call).mpr here.1, fun e failed => (step_error failed).resolve_left here.2⟩

namespace Sample

open Sync.HostsFile.Sample (asciiTables)

/-- A computer that refuses no path and where the text of a file is its own digest. -/
def machine : Machine where
  u := asciiTables
  sha256 := String.ofList
  checkWrite _ := .ok ()
  checkIncludes _ _ _ := .ok ()
  included _ _ _ := .ok []

def configText : List Char := "Host web\n  User deploy\n".toList

def loadedDoc : SshConfigDoc where
  files :=
    [{ path := "config", items := (parseFile asciiTables configText).1, trailingNewline := true
       fingerprint := String.ofList configText }]

def loadedWorld : World where
  slot := some loadedDoc
  disk := (∅ : Disk).insert "config" configText

theorem loadedWorld_synced : loadedWorld.Synced machine := by
  intro doc here
  obtain rfl : loadedDoc = doc := Option.some.inj here
  have text : loadedDoc.files.map ConfigFile.text = [configText] := by decide +kernel
  have only : ∀ (i : Nat) (file : ConfigFile), loadedDoc.files[i]? = some file →
      file.path = "config" ∧ file.text = configText ∧ file.fingerprint = String.ofList configText := by
    intro i file found
    have member := List.mem_of_getElem? found
    have read : file.text ∈ loadedDoc.files.map ConfigFile.text := List.mem_map_of_mem member
    rw [text, List.mem_singleton] at read
    obtain rfl := List.mem_singleton.mp member
    exact ⟨rfl, read, rfl⟩
  refine { paths := List.nodup_singleton _, stored := ?_, fingerprint := ?_ }
  · intro i file found _
    obtain ⟨path, text, -⟩ := only i file found
    rw [path, text]
    exact BTreeMap.get?_insert_self _ _ _
  · intro i file found _
    obtain ⟨-, text, fingerprint⟩ := only i file found
    rw [text, fingerprint]
    rfl

/-- An attempt whose first write meets the fault. -/
def attempt (first : Option AppError) : Attempt where
  refusal := none
  first
  second := none
  unreadable := []
  strays := []

def diskFull : Option AppError := some (.Io "no space left on device")

def renameUser : Command := .Edit (.SaveHost "web".toList [⟨"User".toList, "root".toList, false⟩])

def tagHost : Command := .Edit (.SetTags "web".toList ["prod".toList])

def useKey : Command := .SetIdentityFile "web".toList "~/.ssh/id".toList

end Sample

/-- A document with a file that is not on disk as it is in memory. -/
theorem not_synced_of_text {world : World} (path : String) (inMemory onDisk : List Char)
    (memory : (world.slot.map fun doc => doc.files.map fun file => (file.path, file.text)) =
      some [(path, inMemory)])
    (stored : world.disk[path]? = some onDisk) (differ : inMemory ≠ onDisk) : ¬ world.Synced m := by
  intro synced
  obtain ⟨doc, slot, texts⟩ := Option.map_eq_some_iff.mp memory
  obtain ⟨file, files, entry⟩ := List.map_eq_singleton_iff.mp texts
  obtain ⟨rfl, rfl⟩ := Prod.mk.inj entry
  have here := (synced doc slot).stored 0 file (by simp [files]) (by simp)
  exact differ (Option.some.inj (here.symm.trans stored))

open Sample in
/-- A user name whose saving failed is written by the next command that saves tags. -/
theorem failed_save_written_with_next :
    loadedWorld.Synced machine ∧
    (step machine loadedWorld (renameUser, attempt diskFull)).1 = .error (.Io "no space left on device") ∧
    ¬ (step machine loadedWorld (renameUser, attempt diskFull)).2.Synced machine ∧
    (step machine (step machine loadedWorld (renameUser, attempt diskFull)).2 (tagHost, attempt none)).1 =
      .ok () ∧
    (run machine loadedWorld [(renameUser, attempt diskFull), (tagHost, attempt none)]).disk["config"]? =
      some "Host web\n#tags:prod\n  User root\n".toList := by
  refine ⟨loadedWorld_synced, by decide +kernel, ?_, by decide +kernel, by decide +kernel⟩
  apply not_synced_of_text "config" "Host web\n  User root\n".toList configText
  · decide +kernel
  · decide +kernel
  · decide +kernel

open Sample in
/-- A key path that could not be saved is gone from memory when the tags are saved. -/
theorem failed_identity_file_taken_back :
    Careful machine loadedWorld [(useKey, attempt diskFull), (tagHost, attempt none)] ∧
    (step machine loadedWorld (useKey, attempt diskFull)).1 = .error (.Io "no space left on device") ∧
    (step machine loadedWorld (useKey, attempt diskFull)).2.Synced machine ∧
    (∀ (path : String) (text : List Char),
      (step machine loadedWorld (useKey, attempt diskFull)).2.disk[path]? = some text →
      loadedWorld.disk[path]? = some text) ∧
    (run machine loadedWorld [(useKey, attempt diskFull), (tagHost, attempt none)]).disk["config"]? =
      some "Host web\n#tags:prod\n  User deploy\n".toList := by
  have careful : Careful machine loadedWorld [(useKey, attempt diskFull), (tagHost, attempt none)] := by
    have noMove {command : Command} (other : ∀ alias_ targetFile, command ≠ .MoveHost alias_ targetFile)
        {world : World} {attempt : Attempt} : ¬ HalfMoved machine world (command, attempt) := by
      rintro ⟨alias_, targetFile, _, _, _, _, _, _, same, -⟩
      exact other alias_ targetFile same
    refine ⟨⟨fun edit doc edited idx e same => (by cases same), noMove fun _ _ => Command.noConfusion⟩,
      ⟨?_, noMove fun _ _ => Command.noConfusion⟩, trivial⟩
    intro edit doc edited idx e same _ slot applied failed
    cases same
    have written : ((step machine loadedWorld (useKey, attempt diskFull)).2.slot.map fun doc =>
        (Edit.apply machine.u (.SetTags "web".toList ["prod".toList]) doc).toOption.map fun result =>
          (persistFile machine none (step machine loadedWorld (useKey, attempt diskFull)).2.disk
            result.1 result.2).isOk) = some (some true) := by decide +kernel
    rw [slot, Option.map_some, applied] at written
    simp only [Except.toOption, Option.map_some, Option.some.injEq] at written
    rw [show (attempt none).first = none from rfl] at failed
    rw [failed] at written
    cases written
  have split : [(useKey, attempt diskFull), (tagHost, attempt none)] =
      [] ++ (useKey, attempt diskFull) :: [(tagHost, attempt none)] := rfl
  have failed : (step machine loadedWorld (useKey, attempt diskFull)).1 = .error (.Io "no space left on device") := by
    decide +kernel
  obtain ⟨synced, stays⟩ := failed_changes_stay_off_disk machine loadedWorld_synced careful split
  exact ⟨careful, failed, synced, stays _ failed, by decide +kernel⟩

end Sshelter.Config
