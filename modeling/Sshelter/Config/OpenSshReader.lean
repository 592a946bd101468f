import Sshelter.Lib.Words

/-! # How OpenSSH reads a configuration file

Not part of the program: the reference the program's comments compare themselves with.
Lines end at a newline; whitespace at the end of a line is dropped; the keyword is taken
off with `strdelim`, which also takes quotes off a word and skips one `=`; the rest is
split with `argv_split`, where a word may hold quoted parts and escapes and a `#` starts a
comment only where a word starts.
-/

namespace Sshelter.Config.OpenSsh

/-- Characters `strdelim` skips. -/
def isDelimiterSpace (c : Char) : Bool := c = ' ' || c = '\t' || c = '\r' || c = '\n'

/-- Characters dropped at the end of a line. -/
def isLineEnd (c : Char) : Bool := isDelimiterSpace c || c = '\x0c'

def isArgumentSpace (c : Char) : Bool := c = ' ' || c = '\t'

/-- The lines of a file; a final newline ends the last line and starts no other. -/
def readLines : List Char → List (List Char)
  | [] => []
  | c :: rest =>
    if c = '\n' then [] :: readLines rest
    else
      match readLines rest with
      | [] => [[c]]
      | line :: lines => (c :: line) :: lines

/-- Skips whitespace, one `=`, and whitespace again. -/
def skipSeparator (s : List Char) : List Char :=
  match s.dropWhile isDelimiterSpace with
  | '=' :: rest => rest.dropWhile isDelimiterSpace
  | rest => rest

/-- Takes a token off the text: up to whitespace, a quote or `=`.  A quote continues the token
up to the next quote; nothing when there is none.  The rest is nothing at the end of the text. -/
def strdelim (s : List Char) : Option (List Char × Option (List Char)) :=
  let stops (c : Char) : Bool := isDelimiterSpace c || c = '"' || c = '='
  let token := s.takeWhile fun c => !stops c
  match s.dropWhile fun c => !stops c with
  | [] => some (s, none)
  | '"' :: rest =>
    match rest.dropWhile (· != '"') with
    | [] => none
    | _ :: after => some (token ++ rest.takeWhile (· != '"'), some (after.dropWhile isDelimiterSpace))
  | rest => some (token, some (skipSeparator rest))

/-- Whether the backslash before this character is an escape. -/
def escapes (quote next : Option Char) : Bool :=
  next = some '\'' || next = some '"' || next = some '\\' || (quote.isNone && next = some ' ')

/-- The words of the text.  The state is nothing between words; inside a word it is the open
quote, if any, and the characters read.  A quote left open is an error. -/
def argvSplitFrom (word : Option (Option Char × List Char)) (s : List Char) :
    Option (List (List Char)) :=
  match s with
  | [] =>
    match word with
    | none => some []
    | some (none, read) => some [read]
    | some (some _, _) => none
  | c :: rest =>
    if word = none ∧ isArgumentSpace c then argvSplitFrom none rest
    else if word = none ∧ c = '#' then some []
    else
      let (quote, read) := word.getD (none, [])
      if c = '\\' then
        if escapes quote rest.head? then
          argvSplitFrom (some (quote, read ++ rest.head?.toList)) rest.tail
        else argvSplitFrom (some (quote, read ++ [c])) rest
      else if quote = none ∧ isArgumentSpace c then (argvSplitFrom none rest).map (read :: ·)
      else if quote = none ∧ (c = '"' ∨ c = '\'') then argvSplitFrom (some (some c, read)) rest
      else if quote = some c then argvSplitFrom (some (none, read)) rest
      else argvSplitFrom (some (quote, read ++ [c])) rest
termination_by s.length
decreasing_by all_goals simp_wf; try omega

def argvSplit (s : List Char) : Option (List (List Char)) := argvSplitFrom none s

/-- A line as OpenSSH reads it: nothing, or a keyword with its arguments (nothing when a quote
is left open). -/
inductive Line where
  | nothing
  | setting (keyword : List Char) (arguments : Option (List (List Char)))
deriving DecidableEq, Repr

/-- The keyword in lower case, as OpenSSH compares it. -/
def Line.name : Line → Option (List Char)
  | .nothing => none
  | .setting keyword _ => some (Text.asciiLowercase keyword)

def readSetting (keyword : List Char) (rest : Option (List Char)) : Line :=
  if keyword = [] ∨ keyword.head? = some '#' then .nothing
  else .setting keyword (argvSplit ((rest.getD []).dropWhile isDelimiterSpace))

/-- An empty first token is the indentation (or a leading `=`). -/
def readLine (line : List Char) : Line :=
  match strdelim (line.rdropWhile isLineEnd) with
  | none => .nothing
  | some ([], none) => .nothing
  | some ([], some rest) =>
    match strdelim rest with
    | none => .nothing
    | some (keyword, rest) => readSetting keyword rest
  | some (keyword, rest) => readSetting keyword rest

end Sshelter.Config.OpenSsh
