import Sshelter.Config.Edit
import Sshelter.Lib.BTreeMap
import Sshelter.Lib.Result

/-! # The loaded document and the commands on it

`load_doc` of `config/include.rs` and the editing commands of `config/commands.rs`.  The
document is held in memory beside the files it was loaded from.  A command edits the
document first and then persists one file of it, or two for a move.  What the computer does
meanwhile (which write fails, which file cannot be read) is an `Attempt`, given from outside.
-/

namespace Sshelter.Config

open Text

/-! ## Documents -/

inductive AppError where
  | Io (message : String)
  | ForbiddenPath (path : String)
  | NotFound (message : String)
  | Other (message : String)
  | Conflict (path : String)
deriving DecidableEq, Repr

structure ConfigFile where
  path : String
  items : List Item
  trailingNewline : Bool
  /-- Digest of the file as last read or written. -/
  fingerprint : String

def ConfigFile.text (self : ConfigFile) : List Char := serializeItems self.items self.trailingNewline

structure SshConfigDoc where
  files : List ConfigFile

/-- The files of the computer by path. -/
abbrev Disk := BTreeMap (List Char)

/-- What the code takes from its surroundings and from other crates. -/
structure Machine where
  u : UnicodeTables
  sha256 : List Char → String
  /-- `fsutil::check_write`. -/
  checkWrite : String → Except AppError Unit
  /-- `validate_include_boundaries` of a file's items. -/
  checkIncludes : Disk → String → List Item → Except AppError Unit
  /-- The files one word of an `Include` line names: expansion and glob, in lexical order. -/
  included : Disk → String → List Char → Except AppError (List String)

def SshConfigDoc.modifyItems (self : SshConfigDoc) (idx : Nat) (edit : List Item → List Item) :
    SshConfigDoc where
  files := self.files.modify idx fun file => { file with items := edit file.items }

/-- The text of one file of the document. -/
def SshConfigDoc.textAt (self : SshConfigDoc) (idx : Nat) : Option (List Char) :=
  self.files[idx]?.map ConfigFile.text

/-! ## Loading -/

/-- The words of the `Include` lines above the first block. -/
def includeTokens (items : List Item) : List (List Char) :=
  items.flatMap fun item =>
    match item with
    | .Directive d => if d.key = "include".toList then words isWhitespace d.value else []
    | _ => []

def readFile (disk : Disk) (unreadable : List String) (path : String) : Option (List Char) :=
  if unreadable.contains path then none else disk[path]?

/-- The files not visited yet. -/
def unvisited (disk : Disk) (visited : List String) : List (String × List Char) :=
  disk.toList.filter fun entry => !visited.contains entry.1

theorem unvisited_cons (disk : Disk) (path : String) (visited : List String) :
    unvisited disk (path :: visited) = (unvisited disk visited).filter fun entry => entry.1 ≠ path := by
  rw [unvisited, unvisited, List.filter_filter]
  congr 1
  funext entry
  simp

theorem length_unvisited_lt {disk : Disk} {unreadable visited : List String} {path : String} {text : List Char}
    (read : readFile disk unreadable path = some text) (fresh : ¬ visited.contains path = true) :
    (unvisited disk (path :: visited)).length < (unvisited disk visited).length := by
  have here : (path, text) ∈ disk.toList := by
    rw [BTreeMap.mem_toList]
    unfold readFile at read
    split at read
    · cases read
    · exact read
  rw [unvisited_cons, List.length_filter_lt_length_iff_exists]
  exact ⟨(path, text), List.mem_filter.mpr ⟨here, by simpa using fresh⟩, by simp⟩

/-- Loads the pending files depth first: the files an `Include` names come before the rest.
Only the first file has to be readable. -/
def loadFiles (m : Machine) (disk : Disk) (unreadable : List String) (pending visited : List String)
    (files : List ConfigFile) : Except AppError (List ConfigFile) :=
  match pending with
  | [] => .ok files
  | path :: rest =>
    match m.checkWrite path with
    | .error e => .error e
    | .ok () =>
      if _fresh : visited.contains path then loadFiles m disk unreadable rest visited files
      else
        match _read : readFile disk unreadable path with
        | none =>
          if files.isEmpty then .error (.Io path)
          else loadFiles m disk unreadable rest (path :: visited) files
        | some text =>
          let (items, trailingNewline) := parseFile m.u text
          match m.checkIncludes disk path items with
          | .error e => .error e
          | .ok () =>
            match (includeTokens items).mapM (m.included disk path) with
            | .error e => .error e
            | .ok found =>
              loadFiles m disk unreadable (found.flatten ++ rest) (path :: visited)
                (files ++ [{ path, items, trailingNewline, fingerprint := m.sha256 text }])
termination_by ((unvisited disk visited).length, pending.length)
decreasing_by
  · exact Prod.Lex.right _ (Nat.lt_succ_self _)
  · rcases Nat.lt_or_eq_of_le (unvisited_cons disk path visited ▸ List.length_filter_le _ _) with less | same
    · exact Prod.Lex.left _ _ less
    · rw [same]
      exact Prod.Lex.right _ (Nat.lt_succ_self _)
  · exact Prod.Lex.left _ _ (length_unvisited_lt _read _fresh)

def loadDoc (m : Machine) (disk : Disk) (unreadable : List String) (main : String) :
    Except AppError SshConfigDoc :=
  (loadFiles m disk unreadable [main] [] []).map fun files => { files }

/-! ## Edits of the document -/

def findHostFileIndex (doc : SshConfigDoc) (alias_ : List Char) : Option Nat :=
  doc.files.findIdx? fun file => file.items.any (Item.hasAlias alias_)

def quoted (kind : String) (name : List Char) (rest : String) : String :=
  kind ++ " '" ++ String.ofList name ++ "'" ++ rest

/-- The file that owns the alias. -/
def hostFile (doc : SshConfigDoc) (alias_ : List Char) : Except AppError Nat :=
  match findHostFileIndex doc alias_ with
  | some idx => .ok idx
  | none => .error (.NotFound (quoted "host" alias_ " not found"))

structure HostFieldChange where
  keyword : List Char
  value : List Char
  remove : Bool

def applyChange (u : UnicodeTables) (host : HostBlock) (change : HostFieldChange) : HostBlock :=
  if change.remove then (removeHostField u host (lowercase u change.keyword)).1
  else (setHostField u host change.keyword change.value).1

def applyChanges (u : UnicodeTables) (doc : SshConfigDoc) (alias_ : List Char)
    (changes : List HostFieldChange) : Except AppError (SshConfigDoc × Nat) := do
  let idx ← hostFile doc alias_
  pure (doc.modifyItems idx (modifyHost (changes.foldl (applyChange u)) alias_), idx)

def validateHostPattern (p : List Char) : Except AppError Unit := do
  refuse p.isEmpty (.Other "host patterns must not be empty")
  refuse (p.any isWhitespace) (.Other (quoted "host pattern" p " must not contain whitespace"))
  refuse (p.contains '#') (.Other (quoted "host pattern" p " must not contain '#'"))
  refuse (p.head? = some '-') (.Other (quoted "host pattern" p " must not start with '-'"))

def validateHostPatterns (patterns : List (List Char)) : Except AppError Unit := do
  refuse patterns.isEmpty (.Other "at least one host pattern is required")
  forEach patterns validateHostPattern

/-- A block whose first pattern is the name. -/
def Item.isPrimary (name : Option (List Char)) : Item → Bool
  | .Host _ patterns _ => patterns.head?.isSome && patterns.head? = name
  | _ => false

def hasPrimary (doc : SshConfigDoc) (name : Option (List Char)) : Bool :=
  doc.files.any fun file => file.items.any (Item.isPrimary name)

def renameHost (doc : SshConfigDoc) (alias_ : List Char) (patterns : List (List Char)) :
    Except AppError (SshConfigDoc × Nat) := do
  validateHostPatterns patterns
  let idx ← hostFile doc alias_
  -- the block being renamed may keep its own name
  let others := doc.modifyItems idx fun items => items.eraseP (Item.hasAlias alias_)
  refuse (hasPrimary others patterns.head?) (.Other (quoted "host" (patterns.headD []) " already exists"))
  pure (doc.modifyItems idx (modifyHost (fun host => (setHostPatterns host patterns).1) alias_), idx)

mutual

def Item.endsBlank : Item → Bool
  | .Blank _ => true
  | .Comment _ => false
  | .Directive _ => false
  | .Host _ _ body => endsBlankFrom false body
  | .Match _ _ body => endsBlankFrom false body

/-- Whether the last physical line is blank, given the answer for no line at all. -/
def endsBlankFrom : Bool → List Item → Bool
  | none_, [] => none_
  | _, item :: rest => endsBlankFrom item.endsBlank rest

end

def endsWithBlankLine (items : List Item) : Bool := endsBlankFrom true items

/-- Puts a block at the end of a file, one blank line before it. -/
def appendBlock (block : Item) (items : List Item) : List Item :=
  (if endsWithBlankLine items then items else items ++ [.Blank []]) ++ [block]

/-- `fsutil::has_changed`, a file that cannot be read counting as changed. -/
def hasChanged (m : Machine) (disk : Disk) (file : ConfigFile) : Bool :=
  disk[file.path]?.map m.sha256 ≠ some file.fingerprint

/-- A move goes to a loaded file only. -/
def targetIndex (doc : SshConfigDoc) (targetFile : String) : Except AppError Nat :=
  match doc.files.findIdx? fun file => file.path = targetFile with
  | some tgt => .ok tgt
  | none => .error (.ForbiddenPath targetFile)

def moveHost (m : Machine) (disk : Disk) (doc : SshConfigDoc) (alias_ : List Char) (targetFile : String) :
    Except AppError (SshConfigDoc × Nat × Nat) := do
  let tgt ← targetIndex doc targetFile
  let src ← hostFile doc alias_
  refuse (src = tgt) (.Other (quoted "host" alias_ (" is already in '" ++ targetFile ++ "'")))
  let pair := doc.files[src]?.toList ++ doc.files[tgt]?.toList
  forEach pair fun file => refuse (hasChanged m disk file) (.Conflict file.path)
  match doc.files[src]?.bind fun file => file.items.find? (Item.hasAlias alias_) with
  | none => .error (.NotFound (quoted "host" alias_ " not found in file"))
  | some block =>
    pure ((doc.modifyItems src fun items => items.eraseP (Item.hasAlias alias_)).modifyItems tgt
      (appendBlock block), src, tgt)

def duplicateHost (doc : SshConfigDoc) (alias_ newAlias : List Char) :
    Except AppError (SshConfigDoc × Nat) := do
  validateHostPatterns [newAlias]
  refuse (hasPrimary doc (some newAlias)) (.Other (quoted "host" newAlias " already exists"))
  let idx ← hostFile doc alias_
  pure (doc.modifyItems idx fun items =>
    match findHost alias_ items with
    | none => items
    | some host => appendBlock (setHostPatterns host [newAlias]).1.toItem items, idx)

/-- The n-th directive of a body replaced. -/
def modifyDirective (edit : Directive → Directive) : Nat → List Item → List Item
  | _, [] => []
  | 0, .Directive d :: rest => .Directive (edit d) :: rest
  | index + 1, .Directive d :: rest => .Directive d :: modifyDirective edit index rest
  | index, item :: rest => item :: modifyDirective edit index rest

def directives (body : List Item) : List Directive :=
  body.filterMap fun item =>
    match item with
    | .Directive d => some d
    | _ => none

def setOptionEnabled (u : UnicodeTables) (doc : SshConfigDoc) (alias_ keyword : List Char) (index : Nat)
    (enabled : Bool) : Except AppError (SshConfigDoc × Nat) := do
  let idx ← hostFile doc alias_
  match doc.files[idx]?.bind fun file => findHost alias_ file.items with
  | none => .error (.NotFound (quoted "host" alias_ " not found in file"))
  | some host =>
    match (directives host.body)[index]? with
    | none =>
      .error (.NotFound (quoted ("option index " ++ toString index ++ " out of range for host") alias_ ""))
    | some d =>
      refuse (d.key ≠ lowercase u keyword)
        (.Other (quoted ("option at index " ++ toString index ++ " of host") alias_
          (quoted " is" d.keyword ", not" ++ " '" ++ String.ofList keyword ++
            "' — the view is stale, reload and retry")))
      let toggle (host : HostBlock) : HostBlock :=
        { host with body := modifyDirective (setDirectiveEnabled · enabled) index host.body }
      pure (doc.modifyItems idx (modifyHost toggle alias_), idx)

def fileNamed (doc : SshConfigDoc) (path : String) : Except AppError Nat :=
  match doc.files.findIdx? fun file => file.path = path with
  | some idx => .ok idx
  | none => .error (.NotFound ("file '" ++ path ++ "' not found"))

/-! ## Commands -/

/-- The commands that edit one file and persist it. -/
inductive Edit where
  | SaveHost (alias_ : List Char) (changes : List HostFieldChange)
  | AddHost (targetFile : String) (alias_ : List Char) (fields : List HostFieldChange)
  | RemoveHost (alias_ : List Char)
  | RenameHost (alias_ : List Char) (patterns : List (List Char))
  | DuplicateHost (alias_ newAlias : List Char)
  | SetOptionEnabled (alias_ keyword : List Char) (index : Nat) (enabled : Bool)
  | SetTags (alias_ : List Char) (tags : List (List Char))
  | ReorderHosts (file : String) (order : List (List Char))

inductive Command where
  | Edit (edit : Edit)
  | SetIdentityFile (alias_ value : List Char)
  | MoveHost (alias_ : List Char) (targetFile : String)

/-- The document in memory, if one is loaded, and the files. -/
structure World where
  slot : Option SshConfigDoc
  disk : Disk

/-- What the computer does while one command runs. -/
structure Attempt where
  /-- A check made before anything is edited refuses the command. -/
  refusal : Option AppError
  /-- What the first and the second write of a file meet: an unreadable file, a backup or a
  write that fails. -/
  first : Option AppError
  second : Option AppError
  /-- Files that cannot be read if the document is loaded again. -/
  unreadable : List String
  /-- Backups of an older layout that loading again moves out of the way. -/
  strays : List String

/-- Writes one file of the document and takes its new fingerprint. -/
def persistFile (m : Machine) (fault : Option AppError) (disk : Disk) (doc : SshConfigDoc) (idx : Nat) :
    Except AppError (SshConfigDoc × Disk) := do
  forEach doc.files fun file => do
    m.checkWrite file.path
    m.checkIncludes disk file.path file.items
  match doc.files[idx]? with
  | none => .error (.NotFound "file index")
  | some file =>
    m.checkWrite file.path
    refuse (hasChanged m disk file) (.Conflict file.path)
    match fault with
    | some e => .error e
    | none =>
      pure ({ files := doc.files.modify idx fun file => { file with fingerprint := m.sha256 file.text } },
        disk.insert file.path file.text)

/-- The shell of the commands that edit and persist one file.  A failed write leaves the
edited document in memory. -/
def editAndPersist (m : Machine) (attempt : Attempt) (world : World)
    (edit : SshConfigDoc → Except AppError (SshConfigDoc × Nat)) : Except AppError Unit × World :=
  match world.slot with
  | none => (.error (.Other "no config loaded"), world)
  | some doc =>
    match edit doc with
    | .error e => (.error e, world)
    | .ok (edited, idx) =>
      match persistFile m attempt.first world.disk edited idx with
      | .error e => (.error e, { world with slot := some edited })
      | .ok (doc, disk) => (.ok (), { slot := some doc, disk })

/-- Edits the identity files; a failed write puts the file's items back. -/
def setIdentityFile (m : Machine) (attempt : Attempt) (world : World) (alias_ value : List Char) :
    Except AppError Unit × World :=
  match world.slot with
  | none => (.error (.Other "no config loaded"), world)
  | some doc =>
    match hostFile doc alias_ with
    | .error e => (.error e, world)
    | .ok idx =>
      let saved := (doc.files[idx]?.map ConfigFile.items).getD []
      let edited := doc.modifyItems idx (modifyHost (fun host => (replaceIdentityFiles m.u host value).1) alias_)
      match persistFile m attempt.first world.disk edited idx with
      | .error e => (.error e, { world with slot := some (edited.modifyItems idx fun _ => saved) })
      | .ok (doc, disk) => (.ok (), { slot := some doc, disk })

/-- Moves the backups of an older layout away.  Says whether a loaded file was one of them. -/
def migrateLegacyBackups (strays : List String) (disk : Disk) (doc : SshConfigDoc) : Disk × Bool :=
  (strays.foldl (fun disk path => disk.erase path) disk,
    doc.files.any fun file => strays.contains file.path)

def loadDocMigrated (m : Machine) (attempt : Attempt) (disk : Disk) (main : String) :
    Option SshConfigDoc × Disk :=
  match loadDoc m disk attempt.unreadable main with
  | .error _ => (none, disk)
  | .ok doc =>
    let (moved, stale) := migrateLegacyBackups attempt.strays disk doc
    if stale then ((loadDoc m moved attempt.unreadable main).toOption, moved) else (some doc, moved)

/-- Persists both files of a move, the target first. -/
def persistMove (m : Machine) (attempt : Attempt) (disk : Disk) (doc : SshConfigDoc) (src tgt : Nat) :
    Except (AppError × Disk) (SshConfigDoc × Disk) :=
  match persistFile m attempt.first disk doc tgt with
  | .error e => .error (e, disk)
  | .ok (doc, disk) =>
    match persistFile m attempt.second disk doc src with
    | .error e => .error (e, disk)
    | .ok saved => .ok saved

/-- A move that cannot be written loads the document again, or drops it. -/
def moveHostAndPersist (m : Machine) (attempt : Attempt) (world : World) (alias_ : List Char)
    (targetFile : String) : Except AppError Unit × World :=
  match world.slot with
  | none => (.error (.Other "no config loaded"), world)
  | some doc =>
    match forEach doc.files fun file => m.checkWrite file.path with
    | .error e => (.error e, world)
    | .ok () =>
      match moveHost m world.disk doc alias_ targetFile with
      | .error e => (.error e, world)
      | .ok (edited, src, tgt) =>
        match persistMove m attempt world.disk edited src tgt with
        | .ok (doc, disk) => (.ok (), { slot := some doc, disk })
        | .error (e, disk) =>
          let (slot, disk) := loadDocMigrated m attempt disk ((doc.files.head?.map ConfigFile.path).getD "")
          (.error e, { slot, disk })

/-- What the command does to the document, and the file it then persists. -/
def Edit.apply (u : UnicodeTables) : Edit → SshConfigDoc → Except AppError (SshConfigDoc × Nat)
  | .SaveHost alias_ changes, doc => applyChanges u doc alias_ changes
  | .AddHost targetFile alias_ fields, doc => do
    let idx ← fileNamed doc targetFile
    pure (doc.modifyItems idx fun items =>
      addHost u items alias_ (fields.map fun c => (c.keyword, c.value)), idx)
  | .RemoveHost alias_, doc => do
    let idx ← hostFile doc alias_
    pure (doc.modifyItems idx fun items => (removeHost items alias_).1, idx)
  | .RenameHost alias_ patterns, doc => renameHost doc alias_ patterns
  | .DuplicateHost alias_ newAlias, doc => duplicateHost doc alias_ newAlias
  | .SetOptionEnabled alias_ keyword index enabled, doc => setOptionEnabled u doc alias_ keyword index enabled
  | .SetTags alias_ tags, doc => do
    let idx ← hostFile doc alias_
    pure (doc.modifyItems idx (modifyHost (setTags · tags) alias_), idx)
  | .ReorderHosts file order, doc => do
    let idx ← fileNamed doc file
    pure (doc.modifyItems idx (reorderHosts · order), idx)

/-- One command. -/
def step (m : Machine) (world : World) (call : Command × Attempt) : Except AppError Unit × World :=
  match call.2.refusal with
  | some e => (.error e, world)
  | none =>
    match call.1 with
    | .Edit edit => editAndPersist m call.2 world (edit.apply m.u)
    | .SetIdentityFile alias_ value => setIdentityFile m call.2 world alias_ value
    | .MoveHost alias_ targetFile => moveHostAndPersist m call.2 world alias_ targetFile

/-- A sequence of commands. -/
def run (m : Machine) (world : World) (calls : List (Command × Attempt)) : World :=
  calls.foldl (fun world call => (step m world call).2) world

end Sshelter.Config
