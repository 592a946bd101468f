import Sshelter.Lib.JoinedWords

/-! # Unix paths

`std::path::Path` as its `components` list it: empty segments and inner `.` segments are gone,
and paths with the same components are equal.
-/

namespace Sshelter

open Text

/-- What a path begins with. -/
inductive PathStart where
  | root
  /-- A leading `.`. -/
  | here
  | bare
deriving DecidableEq, Repr

def isSlash (c : Char) : Bool := c = '/'

/-- The segments of a text, without empty ones and `.`. -/
def pathSegments (text : List Char) : List (List Char) := (words isSlash text).filter (· ≠ ['.'])

/-- A segment that a path keeps. -/
structure ProperSegment (s : List Char) : Prop where
  some_ : s ≠ []
  noSlash : '/' ∉ s
  notHere : s ≠ ['.']

structure Path where
  start : PathStart
  segments : List (List Char)
  proper : ∀ s ∈ segments, ProperSegment s
deriving DecidableEq

theorem proper_of_mem_pathSegments {text s : List Char} (member : s ∈ pathSegments text) : ProperSegment s := by
  obtain ⟨word, notHere⟩ := List.mem_filter.mp member
  obtain ⟨some_, letters⟩ := mem_words word
  exact ⟨some_, fun slash => by simpa [isSlash] using letters _ slash, of_decide_eq_true notHere⟩

/-- A segment alone is a path of one segment. -/
theorem ProperSegment.pathSegments {s : List Char} (proper : ProperSegment s) : pathSegments s = [s] := by
  have word : IsWord isSlash s :=
    ⟨proper.some_, fun c member => decide_eq_false fun same => proper.noSlash (same ▸ member)⟩
  rw [Sshelter.pathSegments, word.words, List.filter_singleton, decide_eq_true proper.notHere]
  rfl

/-- The text of components. -/
def displayComponents : List (List Char) → List Char
  | ['/'] :: rest => '/' :: ['/'].intercalate rest
  | components => ['/'].intercalate components

namespace Path

/-- `Path::new`. -/
def new (text : List Char) : Path where
  start :=
    if text.head? = some '/' then .root
    else if text.takeWhile (!isSlash ·) = ['.'] then .here
    else .bare
  segments := pathSegments text
  proper := fun _ => proper_of_mem_pathSegments

/-- `Path::is_absolute`. -/
def isAbsolute (self : Path) : Bool := self.start = .root

/-- `Path::join`. -/
def join (self path : Path) : Path :=
  if path.isAbsolute then path
  else
    { start := if self.start = .bare ∧ self.segments = [] then path.start else self.start
      segments := self.segments ++ path.segments
      proper := fun s member => (List.mem_append.mp member).elim (self.proper s) (path.proper s) }

/-- `Path::file_name`. -/
def fileName (self : Path) : Option (List Char) := self.segments.getLast?.filter (· ≠ "..".toList)

/-- `Path::parent` of a path with a file name. -/
def parent (self : Path) : Path where
  start := self.start
  segments := self.segments.dropLast
  proper := fun s member => self.proper s (List.mem_of_mem_dropLast member)

/-- `Path::components`. -/
def components (self : Path) : List (List Char) :=
  match self.start with
  | .root => ['/'] :: self.segments
  | .here => ['.'] :: self.segments
  | .bare => self.segments

/-- `Path::starts_with`. -/
def startsWith (self base : Path) : Bool := base.components.isPrefixOf self.components

/-- `Path::to_string_lossy`. -/
def display (self : Path) : List Char := displayComponents self.components

/-- `Path::strip_prefix`, the components that stay. -/
def stripPrefix (self base : Path) : Option (List (List Char)) :=
  if self.startsWith base then some (self.components.drop base.components.length) else none

theorem join_of_relative {path : Path} (relative : path.isAbsolute = false) (self : Path) :
    (self.join path).segments = self.segments ++ path.segments := by
  simp [join, relative]

theorem join_of_absolute {path : Path} (absolute : path.isAbsolute = true) (self : Path) : self.join path = path := by
  simp [join, absolute]

theorem isAbsolute_join (self path : Path) : (self.join path).isAbsolute = (self.isAbsolute || path.isAbsolute) := by
  cases absolute : path.isAbsolute with
  | true => rw [join_of_absolute absolute, absolute, Bool.or_true]
  | false =>
    have notRoot : path.start ≠ .root := of_decide_eq_false absolute
    rw [join, if_neg (by simp [absolute]), Bool.or_false, isAbsolute, isAbsolute]
    by_cases empty : self.start = .bare ∧ self.segments = []
    · simp [empty.1, empty.2, notRoot]
    · simp [empty]

end Path

end Sshelter
