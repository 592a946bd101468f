import Sshelter.Lib.Glob
import Sshelter.Lib.Path

/-! # How OpenSSH reads an Include argument

Not part of the program: the reference for the files a pattern covers.  Variables are expanded,
`~` is the home directory and `~user` that of another user, and anything else that is not
absolute belongs to the directory of the configuration.  Each segment of the pattern stands for
one of the path.
-/

namespace Sshelter.Config.OpenSsh

open Glob

/-- The directory a pattern begins in, its segments, and whether it is a pattern of directories. -/
structure IncludePattern where
  base : Path
  segments : List (List Char)
  directories : Bool
deriving DecidableEq

def rootPath : Path := { start := .root, segments := [], proper := by simp }

/-- The text after the last slash. -/
def lastPiece (text : List Char) : List Char := text.rtakeWhile (!isSlash ·)

/-- A pattern that ends in a slash or in a `.` segment. -/
def endsInDirectory (text : List Char) : Bool := (lastPiece text).isEmpty || lastPiece text = ['.']

def includePattern (expandEnv : List Char → Option (List Char)) (userHome : List Char → Option Path) (mainDir : Path)
    (home : Option Path) (token : List Char) : Option IncludePattern :=
  (expandEnv token).bind fun text =>
    match text with
    | '~' :: rest =>
      let user := rest.takeWhile (!isSlash ·)
      let base := if user.isEmpty then home else userHome user
      base.map fun h =>
        { base := mainDir.join h
          segments := pathSegments (rest.dropWhile (!isSlash ·))
          directories := endsInDirectory text }
    | _ =>
      some
        { base := if text.head? = some '/' then rootPath else mainDir
          segments := pathSegments text
          directories := endsInDirectory text }

/-- Whether the pattern matches a regular file of this path. -/
def IncludePattern.Reads (inBracket : List Char → Char → Bool) (self : IncludePattern) (path : Path) : Prop :=
  self.directories = false ∧ path.isAbsolute = self.base.isAbsolute ∧ self.base.segments <+: path.segments ∧
    List.Forall₂ (fun pattern name => nameMatches inBracket pattern name = true) self.segments
      (path.segments.drop self.base.segments.length)

end Sshelter.Config.OpenSsh
