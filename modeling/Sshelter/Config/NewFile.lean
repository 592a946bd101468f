import Sshelter.Config.Document
import Sshelter.Lib.Path

/-! # Where a new config file goes

`config/newfile.rs`: whether an `Include` pattern of the main file already covers a file of
the given name, and the `Include` value to insert when none does.
-/

namespace Sshelter.Config.NewFile

open Text

structure NewFilePlan where
  path : Path
  /-- The `Include` pattern that the path falls under. -/
  coveredBy : Option (List Char)
  /-- The `Include` value to insert. -/
  includeValue : Option (List Char)
  finalName : List Char
  alreadyExists : Bool
deriving DecidableEq

/-- What planning takes from the build profile and from other crates. -/
structure Setting where
  /-- `fsutil::writes_are_confined`. -/
  writesAreConfined : Bool
  /-- `fsutil::check_write`. -/
  checkWrite : Path → Except AppError Unit
  /-- `shellexpand::env`. -/
  expandEnv : List Char → Option (List Char)

def validateFileName (name : List Char) : Except AppError Unit := do
  refuse name.isEmpty (.Other "file name is empty")
  refuse (name = ".".toList || name = "..".toList) (.Other "file name is reserved")
  refuse (name.contains '/' || name.contains '\\') (.Other "file name must not contain path separators")
  refuse (name.any isWhitespace) (.Other "file name must not contain whitespace")
  refuse (name.head? = some '-') (.Other "file name must not start with '-'")

/-! ## Families -/

/-- The directory of a pattern and the text around its stars. -/
structure GlobFamily where
  dir : Path
  beforeStar : List Char
  afterStar : List Char
deriving DecidableEq

def isGlobChar (c : Char) : Bool := c = '*' || c = '?' || c = '['

/-- A token with its `~/` replaced; nothing without a home directory. -/
def expandHome (token : List Char) (home : Option Path) : Option Path :=
  match token.dropPrefix? "~/".toList with
  | some rest => home.map fun h => h.join (.new rest)
  | none => if token = "~".toList then none else some (.new token)

/-- The path a token names, relative ones below the directory of the main file. -/
def resolveToken (token : List Char) (mainDir : Path) (home : Option Path) : Option Path :=
  (expandHome token home).map fun expanded => if expanded.isAbsolute then expanded else mainDir.join expanded

def globFamily (token : List Char) (mainDir : Path) (home : Option Path) : Option GlobFamily := do
  let abs ← resolveToken token mainDir home
  let filePart ← abs.fileName
  let dir := abs.parent
  if dir.segments.any (·.any isGlobChar) then none
  else if !filePart.contains '*' then none
  else some { dir, beforeStar := filePart.takeWhile (· ≠ '*'), afterStar := filePart.rtakeWhile (· ≠ '*') }

/-- `str::len`. -/
def byteLen (s : List Char) : Nat := (s.map Char.utf8Size).sum

/-- Whether the name has the text around the stars already. -/
def alreadyNamed (family : GlobFamily) (name : List Char) : Bool :=
  byteLen name ≥ byteLen family.beforeStar + byteLen family.afterStar && family.beforeStar.isPrefixOf name &&
    family.afterStar.isSuffixOf name

def familyName (family : GlobFamily) (name : List Char) : List Char :=
  if alreadyNamed family name then name else family.beforeStar ++ name ++ family.afterStar

/-! ## The plan -/

section Plan

variable (setting : Setting) (mainDir : Path) (home : Option Path)

def profileHome : Except AppError Path :=
  match home with
  | some h => .ok h
  | none => .error (.Other "cannot determine profile home")

def expandToken (token : List Char) : Except AppError (List Char) :=
  match setting.expandEnv token with
  | some expanded => .ok expanded
  | none => .error (.Other "cannot expand Include path in the development profile")

/-- The path of a token with its variables expanded. -/
def profilePath (expanded : List Char) : Except AppError Path :=
  match expanded.dropPrefix? "~/".toList with
  | some rest => (profileHome home).map fun h => h.join (.new rest)
  | none =>
    if expanded = "~".toList then profileHome home
    else if (Path.new expanded).isAbsolute then .ok (.new expanded)
    else .ok (mainDir.join (.new expanded))

/-- The text of a token to look for a family in: a confined profile expands variables and checks the path. -/
def familyToken (token : List Char) : Except AppError (List Char) := do
  if setting.writesAreConfined then
    let expanded ← expandToken setting token
    let path ← profilePath mainDir home expanded
    setting.checkWrite path
    return expanded
  else return token

/-- A token and its family. -/
def tokenFamily (token : List Char) : Except AppError (Option (List Char × GlobFamily)) := do
  let text ← familyToken setting mainDir home token
  return (globFamily text mainDir home).map fun family => (token, family)

/-- A family below the directory of the main file, else the first one. -/
def pickFamily (families : List (List Char × GlobFamily)) : Option (List Char × GlobFamily) :=
  (families.find? fun entry => entry.2.dir.startsWith mainDir).or families.head?

def planNewFile (name : List Char) (includePatterns : List (List Char)) : Except AppError NewFilePlan := do
  validateFileName name
  setting.checkWrite mainDir
  let families ← (includePatterns.flatMap (words isWhitespace)).mapM (tokenFamily setting mainDir home)
  match pickFamily mainDir families.reduceOption with
  | some (token, family) =>
    let finalName := familyName family name
    validateFileName finalName
    let path := family.dir.join (.new finalName)
    setting.checkWrite path
    return { path, coveredBy := some token, includeValue := none, finalName, alreadyExists := false }
  | none =>
    let path := mainDir.join (.new name)
    setting.checkWrite path
    let includeValue :=
      match home with
      | some h =>
        if mainDir.startsWith h then "~/".toList ++ displayComponents ((path.stripPrefix h).getD path.components)
        else path.display
      | none => path.display
    return { path, coveredBy := none, includeValue := some includeValue, finalName := name, alreadyExists := false }

end Plan

end Sshelter.Config.NewFile
