import Sshelter.Lib.Words

/-! # SSH configuration parser

`config/model.rs`, `config/lexer.rs`, `config/parser.rs` and `render_directive` of
`config/serialize.rs`.  A line is classified on its own; a Host or Match directive then
takes the lines up to the next one as its body.
-/

namespace Sshelter.Config

open Text

/-! ## Data model -/

/-- What stands between keyword and value, with the whitespace around it. -/
inductive Separator where
  | Space (text : List Char)
  | Equals (text : List Char)
deriving DecidableEq, Repr

def Separator.text : Separator → List Char
  | .Space s => s
  | .Equals s => s

/-- One key and value line. -/
structure Directive where
  keyword : List Char
  key : List Char
  value : List Char
  separator : Separator
  indent : List Char
  trailingWs : List Char
  inlineComment : Option (List Char)
  enabled : Bool
  raw : List Char
  dirty : Bool
deriving DecidableEq, Repr

/-- Only a disabled and edited line is written out as a comment. -/
def Directive.serializesAsComment (self : Directive) : Bool := !self.enabled && self.dirty

/-- Everything after the separator. -/
def Directive.rest (self : Directive) : List Char :=
  self.value ++ self.trailingWs ++ self.inlineComment.getD []

/-- One line as written out: the original text unless it was edited. -/
def renderDirective (d : Directive) : List Char :=
  if !d.dirty then d.raw
  else
    let body := d.keyword ++ d.separator.text ++ d.rest
    if d.serializesAsComment then d.indent ++ ['#', ' '] ++ body else d.indent ++ body

/-- The elements of a file, in order. -/
inductive Item where
  | Blank (line : List Char)
  | Comment (line : List Char)
  | Directive (d : Directive)
  | Host (header : Directive) (patterns : List (List Char)) (body : List Item)
  | Match (header : Directive) (criteria : List Char) (body : List Item)

/-! ## Lexer -/

/-- The separator: a run of whitespace with at most one `=`.  Returns it, whether an `=` was
seen, and the text after it. -/
def takeSeparator : (sawEq : Bool) → List Char → List Char × Bool × List Char
  | sawEq, [] => ([], sawEq, [])
  | sawEq, c :: rest =>
    if c = '=' ∧ sawEq = false then
      let (sep, eq, after) := takeSeparator true rest
      (c :: sep, eq, after)
    else if isWhitespace c then
      let (sep, eq, after) := takeSeparator sawEq rest
      (c :: sep, eq, after)
    else ([], sawEq, c :: rest)

/-- The text before the first `#` outside double quotes, and the text from it on. -/
def splitAtComment : (inDquote : Bool) → List Char → List Char × Option (List Char)
  | _, [] => ([], none)
  | inDquote, c :: rest =>
    if c = '#' ∧ inDquote = false then ([], some (c :: rest))
    else
      let (before, comment) := splitAtComment (if c = '"' then !inDquote else inDquote) rest
      (c :: before, comment)

def trimEnd (s : List Char) : List Char := s.rdropWhile isWhitespace

/-- Value, trailing whitespace (only without a comment) and comment with the whitespace before
it. -/
def splitValueComment (valuepart : List Char) : List Char × List Char × Option (List Char) :=
  match splitAtComment false valuepart with
  | (before, none) => (trimEnd before, before.rtakeWhile isWhitespace, none)
  | (before, some comment) =>
    (trimEnd before, [], some (before.rtakeWhile isWhitespace ++ comment))

inductive LineKind where
  | Blank
  | Comment
  | Directive (d : Directive)
deriving DecidableEq, Repr

/-- Classifies one line without its newline. -/
def classifyLine (u : UnicodeTables) (line : List Char) : LineKind :=
  if line.all isWhitespace then .Blank
  else
    let trimmed := line.dropWhile isWhitespace
    if trimmed.head? = some '#' then .Comment
    else
      let endsKeyword (c : Char) : Bool := isWhitespace c || c = '='
      let keyword := trimmed.takeWhile fun c => !endsKeyword c
      let afterKw := trimmed.dropWhile fun c => !endsKeyword c
      let (sep, sawEq, valuepart) := takeSeparator false afterKw
      let (value, trailingWs, inlineComment) := splitValueComment valuepart
      .Directive
        { keyword, key := lowercase u keyword, value
          separator := if sawEq then .Equals sep else .Space sep
          indent := line.takeWhile isWhitespace, trailingWs, inlineComment
          enabled := true, raw := line, dirty := false }

/-! ## Parser -/

inductive HeaderKind where
  | Host
  | Match
deriving DecidableEq, Repr

/-- Whether the line starts a block. -/
def headerKind : Item → Option (HeaderKind × Directive)
  | .Directive d =>
    if d.key = "host".toList then some (.Host, d)
    else if d.key = "match".toList then some (.Match, d)
    else none
  | _ => none

/-- The block of a header and the lines after it. -/
def makeBlock (kind : HeaderKind) (header : Directive) (body : List Item) : Item :=
  match kind with
  | .Host => .Host header (words isWhitespace header.value) body
  | .Match => .Match header header.value body

/-- Folds the lines after a header, up to the next header, into its block. -/
def groupBlocks : List Item → List Item
  | [] => []
  | item :: rest =>
    match headerKind item with
    | some (kind, header) =>
      let inBody (next : Item) : Bool := (headerKind next).isNone
      makeBlock kind header (rest.takeWhile inBody) :: groupBlocks (rest.dropWhile inBody)
    | none => item :: groupBlocks rest
termination_by flat => flat.length
decreasing_by
  · exact Nat.lt_succ_of_le (List.length_dropWhile_le _ _)
  · exact Nat.lt_succ_self _

@[simp] theorem groupBlocks_nil : groupBlocks [] = [] := by
  rw [groupBlocks]

def flatItem (u : UnicodeTables) (line : List Char) : Item :=
  match classifyLine u line with
  | .Blank => .Blank line
  | .Comment => .Comment line
  | .Directive d => .Directive d

/-- The items of a file, and whether it ended with a newline, which is not a line of its own. -/
def parseFile (u : UnicodeTables) (text : List Char) : List Item × Bool :=
  let trailingNewline := text.getLast? = some '\n'
  if text.isEmpty then ([], trailingNewline)
  else
    let body := if trailingNewline then text.dropLast else text
    (groupBlocks ((body.splitOnP (· = '\n')).map (flatItem u)), trailingNewline)

end Sshelter.Config
