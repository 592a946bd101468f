import Sshelter.Config.Parser
import Sshelter.Lib.Result

/-! # Text of a synced host

The part of `sync/hosts_file.rs` that decides whether the text of a host record may be
used: exactly one Host block with named patterns, and no line that OpenSSH would read
differently from the parser or hand to a shell.  Every refusal is an `AppError::Other`;
only its message is kept here.
-/

namespace Sshelter.Sync.HostsFile

open Text Config

/-! ## Aliases -/

/-- Only named patterns are synced; wildcards and negations stay on the device. -/
def isSyncableAlias (alias_ : List Char) : Bool :=
  !alias_.isEmpty && !alias_.any fun c => c = '*' || c = '?' || c = '!'

def isSyncableBlock (patterns : List (List Char)) : Bool :=
  !patterns.isEmpty && patterns.all isSyncableAlias

/-! ## Character classes -/

/-- Spaces outside ASCII, and the byte order mark. -/
def isConfusableSpace (c : Char) : Bool :=
  (!isAscii c && isWhitespace c) || c.toNat == 0xfeff

def inRanges (ranges : List (Nat × Nat)) (c : Char) : Bool :=
  ranges.any fun (first, last) => first ≤ c.toNat && c.toNat ≤ last

/-- General category `Cf`. -/
def isFormatCharacter (c : Char) : Bool :=
  inRanges [(0x00ad, 0x00ad), (0x0600, 0x0605), (0x061c, 0x061c), (0x06dd, 0x06dd),
    (0x070f, 0x070f), (0x0890, 0x0891), (0x08e2, 0x08e2), (0x180e, 0x180e), (0x200b, 0x200f),
    (0x202a, 0x202e), (0x2060, 0x2064), (0x2066, 0x206f), (0xfeff, 0xfeff), (0xfff9, 0xfffb),
    (0x110bd, 0x110bd), (0x110cd, 0x110cd), (0x13430, 0x1343f), (0x1bca0, 0x1bca3),
    (0x1d173, 0x1d17a), (0xe0001, 0xe0001), (0xe0020, 0xe007f)] c

/-- `Default_Ignorable_Code_Point`. -/
def isDefaultIgnorable (c : Char) : Bool :=
  inRanges [(0x00ad, 0x00ad), (0x034f, 0x034f), (0x061c, 0x061c), (0x115f, 0x1160),
    (0x17b4, 0x17b5), (0x180b, 0x180f), (0x200b, 0x200f), (0x202a, 0x202e), (0x2060, 0x206f),
    (0x3164, 0x3164), (0xfe00, 0xfe0f), (0xfeff, 0xfeff), (0xffa0, 0xffa0), (0xfff0, 0xfff8),
    (0x1bca0, 0x1bca3), (0x1d173, 0x1d17a), (0xe0000, 0xe0fff)] c

def isBlankByDesign (c : Char) : Bool :=
  inRanges [(0x2800, 0x2800), (0x1d159, 0x1d159), (0x13441, 0x13441), (0x13442, 0x13442),
    (0x303f, 0x303f)] c

/-- Characters a line may not have where OpenSSH reads it; the tab is allowed. -/
def isInvisible (c : Char) : Bool :=
  isConfusableSpace c || isFormatCharacter c || isDefaultIgnorable c || isBlankByDesign c ||
    (isControl c && c != '\t')

/-- A letter or digit that is drawn in a place of its own. -/
def isBaseLetterOrDigit (u : UnicodeTables) (c : Char) : Bool :=
  u.isAlphanumeric c && u.printsAsItself c && !(c.toNat == 0xff9e || c.toNat == 0xff9f)

/-! ## Reading a line as OpenSSH does -/

/-- Keywords whose value OpenSSH uses whole, with no comment cut off. -/
def rawLineKeywords : List (List Char) :=
  ["proxycommand".toList, "localcommand".toList, "remotecommand".toList,
    "knownhostscommand".toList, "versionaddendum".toList]

/-- A backslash before this character (or the end of the text) is an escape. -/
def isEscaped (quote : Option Char) (next : Option Char) : Bool :=
  next = some '\'' || next = some '"' || next = some '\\' || (quote.isNone && next = some ' ')

/-- Where the comment starts in the text after a separator.  The state is nothing between
words, and the open quote, if any, inside a word. -/
def opensshCommentFrom (word : Option (Option Char)) (text : List Char) : Option Nat :=
  match text with
  | [] => none
  | c :: rest =>
    if word = none ∧ (c = ' ' ∨ c = '\t') then (opensshCommentFrom none rest).map (· + 1)
    else if word = none ∧ c = '#' then some 0
    else
      let quote := word.getD none
      if c = '\\' ∧ isEscaped quote rest.head? then
        (opensshCommentFrom (some quote) rest.tail).map (· + 2)
      else if quote = none ∧ (c = ' ' ∨ c = '\t') then (opensshCommentFrom none rest).map (· + 1)
      else if quote = none ∧ (c = '"' ∨ c = '\'') then
        (opensshCommentFrom (some (some c)) rest).map (· + 1)
      else if quote = some c then (opensshCommentFrom (some none) rest).map (· + 1)
      else (opensshCommentFrom (some quote) rest).map (· + 1)
termination_by text.length
decreasing_by all_goals simp_wf; try omega

def opensshCommentStart (text : List Char) : Option Nat := opensshCommentFrom none text

/-- The text up to a position, all of it when there is none. -/
def upTo (text : List Char) (position : Option Nat) : List Char :=
  text.take (position.getD text.length)

/-- Drops one final carriage return. -/
def stripCr (line : List Char) : List Char :=
  if line.getLast? = some '\r' then line.dropLast else line

def afterSeparator (d : Directive) : Nat :=
  d.indent.length + d.keyword.length + d.separator.text.length

/-- Where the comment starts in the line of a directive. -/
def opensshCommentOffset (d : Directive) (line : List Char) : Option Nat :=
  if rawLineKeywords.contains d.key then none
  else
    let start := afterSeparator d
    if line.length < start then none
    else (opensshCommentStart (line.drop start)).map (start + ·)

def hasInvisibleCharacter (d : Directive) : Bool :=
  let line := stripCr (renderDirective d)
  (upTo line (opensshCommentOffset d line)).any isInvisible

/-- The loop of `has_stray_character`, with the character before. -/
def strayFrom (u : UnicodeTables) : (previous : Option Char) → List Char → Bool
  | _, [] => false
  | previous, c :: rest =>
    let startsAWord := previous.all fun p => isAscii p && !isAsciiAlphanumeric p
    if startsAWord && !isAscii c && !isBaseLetterOrDigit u c then true
    else strayFrom u (some c) rest

def hasStrayCharacter (u : UnicodeTables) (d : Directive) : Bool :=
  if !rawLineKeywords.contains d.key then false
  else
    let line := stripCr (renderDirective d)
    let start := afterSeparator d
    strayFrom u none (if line.length < start then line else line.drop start)

/-- A blank line or comment line: only the part before the first `#` is looked at. -/
def invisibleOutsideComment (line : List Char) : Bool :=
  ((stripCr line).takeWhile (· != '#')).any isInvisible

/-! ## Values -/

/-- Keywords whose value ssh expands into commands, with their names in messages. -/
def shellBoundKeywords : List (List Char × String) :=
  [("hostname".toList, "HostName"), ("user".toList, "User"),
    ("hostkeyalias".toList, "HostKeyAlias"), ("proxyjump".toList, "ProxyJump")]

/-- What ssh refuses in a host name on the command line, without the comma. -/
def shellCharacters : List Char := "'`\"$\\;&<>|()\x7b\x7d".toList

/-- The part after a leading text, if it is there. -/
def dropLeading (text s : List Char) : List Char := (s.dropPrefix? text).getD s

/-- A hop of a jump list that starts with a dash, or whose host does. -/
def hasDashHop (value : List Char) : Bool :=
  (value.splitOnP (· = ',')).any fun hop =>
    let hop := dropLeading "ssh://".toList hop
    let host := if hop.contains '@' then hop.rtakeWhile (· != '@') else hop
    hop.head? = some '-' || host.head? = some '-' || "[-".toList.isPrefixOf host

/-- The value is exactly one word, not an option, with nothing a shell would read. -/
def isPlainShellBoundValue (d : Directive) : Bool :=
  match (words isAsciiWhitespace d.rest).takeWhile (fun word => word.head? != some '#') with
  | [word] =>
    word.head? != some '-' && !word.any (fun c => isControl c || shellCharacters.contains c) &&
      !(d.key = "proxyjump".toList && hasDashHop word)
  | _ => false

/-- Whitespace OpenSSH drops at the end of a line. -/
def endsLine (c : Char) : Bool := c = ' ' || c = '\t' || c = '\r' || c = '\n' || c = '\x0c'

def isQuoteOrEscape (c : Char) : Bool := c = '"' || c = '\'' || c = '\\'

def isBlank (c : Char) : Bool := c = ' ' || c = '\t'

/-- OpenSSH reads the same patterns in a header as the parser. -/
def headerReadsTheSame (header : Directive) : Bool :=
  let rest := header.rest.rdropWhile endsLine
  let read := upTo rest (opensshCommentStart rest)
  !read.any isQuoteOrEscape && words isBlank read = words isWhitespace header.value

def headerName (key : List Char) : Option String :=
  if key = "host".toList then some "Host"
  else if key = "match".toList then some "Match"
  else none

/-! ## Forbidden lines -/

inductive Forbidden where
  | Include
  | QuotedKeyword
  | LeadingEquals
  | UnsafeValue (keyword : String)
  | InvisibleCharacter
  | StrayCharacter
  | MisreadHeader (keyword : String)
deriving DecidableEq, Repr

/-- The phrase after "contains" in a message; it never shows anything of the line. -/
def Forbidden.describe : Forbidden → String
  | .Include => "an Include line"
  | .QuotedKeyword => "a quoted keyword (OpenSSH reads it differently from Lunport)"
  | .LeadingEquals => "a line starting with '=' (OpenSSH reads the next word as its keyword)"
  | .UnsafeValue keyword => "a " ++ keyword ++ " value with characters ssh would pass to a shell"
  | .InvisibleCharacter =>
    "a line with a non-ASCII space or control character, or an invisible formatting character " ++
      "(OpenSSH would read something other than what Lunport shows)"
  | .StrayCharacter =>
    "a command with a combining mark or symbol where a word starts " ++
      "(it could disguise where a shell comment begins)"
  | .MisreadHeader keyword => "a " ++ keyword ++ " line that OpenSSH reads differently from Lunport"

/-- What is wrong with one live line. -/
def forbidden (u : UnicodeTables) (d : Directive) : Option Forbidden :=
  if d.serializesAsComment then none
  else if d.keyword.isEmpty then some .LeadingEquals
  else if d.keyword.contains '"' then some .QuotedKeyword
  else if d.key = "include".toList then some .Include
  else if hasInvisibleCharacter d then some .InvisibleCharacter
  else if hasStrayCharacter u d then some .StrayCharacter
  else
    match headerName d.key with
    | some name => if !headerReadsTheSame d then some (.MisreadHeader name) else none
    | none =>
      match shellBoundKeywords.find? (fun (key, _) => d.key = key) with
      | some (_, name) => if !isPlainShellBoundValue d then some (.UnsafeValue name) else none
      | none => none

mutual

/-- The first forbidden line of an item, its header before its body. -/
def forbiddenItem (u : UnicodeTables) : Item → Option Forbidden
  | .Directive d => forbidden u d
  | .Host header _ body =>
    match forbidden u header with
    | some f => some f
    | none => forbiddenDirective u body
  | .Match header _ body =>
    match forbidden u header with
    | some f => some f
    | none => forbiddenDirective u body
  | .Blank line => if invisibleOutsideComment line then some .InvisibleCharacter else none
  | .Comment line => if invisibleOutsideComment line then some .InvisibleCharacter else none

def forbiddenDirective (u : UnicodeTables) : List Item → Option Forbidden
  | [] => none
  | item :: rest =>
    match forbiddenItem u item with
    | some f => some f
    | none => forbiddenDirective u rest

end

/-! ## Validation -/

def recordMessage (alias_ : List Char) (problem : String) : String :=
  "synced record for '" ++ String.ofList alias_ ++ "' " ++ problem

def isHostItem : Item → Bool
  | .Host .. => true
  | _ => false

/-- The text must hold one Host block and nothing else. -/
def parseSingleHost (u : UnicodeTables) (alias_ text : List Char) : Except String Item := do
  let parsed := (parseFile u text).1
  refuse (!parsed.all isHostItem) (recordMessage alias_ "must contain nothing but one Host block")
  match parsed with
  | [.Host header patterns body] =>
    let host := Item.Host header patterns body
    refuse (patterns.head? != some alias_) (recordMessage alias_ "names a different host")
    refuse (!isSyncableBlock patterns) (recordMessage alias_ "contains wildcard patterns")
    match forbiddenDirective u [host] with
    | some f =>
      throw (recordMessage alias_ ("contains " ++ f.describe ++ ", which synced hosts cannot use"))
    | none => return host
  | _ => throw (recordMessage alias_ "must contain exactly one Host block")

def validateHostText (u : UnicodeTables) (alias_ text : List Char) : Except String Unit := do
  refuse (!isSyncableAlias alias_)
    ("'" ++ String.ofList alias_ ++ "' is a wildcard pattern; wildcard blocks are never synced")
  let _ ← parseSingleHost u alias_ text

end Sshelter.Sync.HostsFile
