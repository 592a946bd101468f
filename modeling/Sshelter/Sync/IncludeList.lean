import Sshelter.Config.Edit

/-! # The Include line of the app

The Include part of `sync/hosts_file.rs`: the one line at the top of the main file that lists
the synced files, kept by `ensure_include`, and the rewriting of the app's tokens when the
files become local ones, `release_include`.  Matching of a glob pattern comes from the `glob`
crate and enters as a function.
-/

namespace Sshelter.Sync.IncludeList

open Text Config

/-- `space_files::INCLUDE_DIR`. -/
def INCLUDE_DIR : List Char := "~/.ssh/sshelter/".toList

/-- `agent::wiring::INCLUDE_TOKEN`. -/
def agentIncludeToken : List Char := "~/.ssh/sshelter/agent/config".toList

/-- `str::split_whitespace`. -/
def splitWhitespace (value : List Char) : List (List Char) := words isWhitespace value

/-- A path of this directory itself that ends in `.config`. -/
def isOurIncludeToken (token : List Char) : Bool :=
  (token.dropPrefix? INCLUDE_DIR).any fun rest =>
    ".config".toList.isSuffixOf rest && !rest.any fun c => c = '/' || c = '\\'

/-- A top-level Include that is written as a live line. -/
def enabledInclude : Item → Option Directive
  | .Directive d => if d.key = "include".toList ∧ d.serializesAsComment = false then some d else none
  | _ => none

def hasOurToken (item : Item) : Bool :=
  (enabledInclude item).any fun d => (splitWhitespace d.value).any isOurIncludeToken

/-- `agent::wiring::is_agent_include`. -/
def isAgentInclude (item : Item) : Bool :=
  (enabledInclude item).any fun d => (splitWhitespace d.value).contains agentIncludeToken

/-- Blank lines, comments and the agent's Include come before ours. -/
def staysAbove : Item → Bool
  | .Blank _ => true
  | .Comment _ => true
  | item => isAgentInclude item

def syncIncludeIndex (items : List Item) : Nat := items.findIdx fun item => !staysAbove item

def joinSpace (tokens : List (List Char)) : List Char := [' '].intercalate tokens

/-- A live line with other tokens. -/
def withTokens (d : Directive) (tokens : List (List Char)) : Item :=
  .Directive { d with value := joinSpace tokens, dirty := true, enabled := true }

/-- A line without our tokens; a line of nothing else goes. -/
def withoutOurTokens (item : Item) : Option Item :=
  match enabledInclude item with
  | none => some item
  | some d =>
    let tokens := splitWhitespace d.value
    if tokens.any isOurIncludeToken then
      let rest := tokens.filter fun token => !isOurIncludeToken token
      if rest.isEmpty then none else some (withTokens d rest)
    else some item

/-- Whether the lines are as they should be already. -/
def includeIsCorrect (items : List Item) (tokens : List (List Char)) : Bool :=
  if tokens.isEmpty then !items.any hasOurToken
  else
    let top := syncIncludeIndex items
    let atTop := (items[top]?.bind enabledInclude).any fun d => splitWhitespace d.value = tokens
    atTop && !(items.eraseIdx top).any hasOurToken

/-- Puts our tokens into one line at the top and takes them out of every other one.  Returns
whether the items changed. -/
def ensureInclude (u : UnicodeTables) (items : List Item) (tokens : List (List Char)) : List Item × Bool :=
  if includeIsCorrect items tokens then (items, false)
  else
    let rest := items.filterMap withoutOurTokens
    if tokens.isEmpty then (rest, true)
    else (rest.insertIdx (syncIncludeIndex items) (.Directive (.new u "Include".toList (joinSpace tokens) [])), true)

/-! ## Leaving the account -/

def isGlobToken (token : List Char) : Bool := token.any fun c => c = '*' || c = '?' || c = '['

section Release

-- `glob::Pattern::new(glob).is_ok_and(|p| p.matches_with(token, options))`
variable (globMatches : List Char → List Char → Bool)

def globCovers (glob token : List Char) : Bool := isGlobToken glob && globMatches glob token

/-- Whether a live top-level Include reads the file of the token. -/
def listsInclude (items : List Item) (token : List Char) : Bool :=
  ((items.filterMap enabledInclude).flatMap fun d => splitWhitespace d.value).any fun t =>
    isOurIncludeToken t && (t = token || globCovers globMatches t token)

/-- The order of `(String, String)`. -/
def keptLe (a b : List Char × List Char) : Bool := a.1 < b.1 || (a.1 = b.1 && a.2 ≤ b.2)

/-- What stands for one token of a line afterwards, the moved files placed so far, and whether
the line changed. -/
def releaseToken (kept : List (List Char × List Char)) (exists_ : List Char → Bool) (placed : List (List Char))
    (t : List Char) : List (List Char) × List (List Char) × Bool :=
  if !isOurIncludeToken t then ([t], placed, false)
  else
    match kept.find? fun entry => entry.1 = t with
    | some (_, new) => ([new], placed, true)
    | none =>
      -- files that only this glob reads move in front of it
      let covered := (kept.filter fun (old, _) => !placed.contains old && globCovers globMatches t old).mergeSort keptLe
      (covered.map Prod.snd ++ (if exists_ t then [t] else []), placed ++ covered.map Prod.fst,
        !covered.isEmpty || !exists_ t)

/-- The tokens of a line, one after the other. -/
def releaseLine (kept : List (List Char × List Char)) (exists_ : List Char → Bool) :
    (placed : List (List Char)) → List (List Char) → List (List Char) × List (List Char) × Bool
  | placed, [] => ([], placed, false)
  | placed, t :: rest =>
    let (here, placed, changed) := releaseToken globMatches kept exists_ placed t
    let (later, placed, more) := releaseLine kept exists_ placed rest
    (here ++ later, placed, changed || more)

/-- The lines, one after the other, and whether any changed. -/
def releaseItems (kept : List (List Char × List Char)) (exists_ : List Char → Bool) :
    (placed : List (List Char)) → List Item → List Item × Bool
  | _, [] => ([], false)
  | placed, item :: rest =>
    match (enabledInclude item).filter fun d => (splitWhitespace d.value).any isOurIncludeToken with
    | none =>
      let (later, changed) := releaseItems kept exists_ placed rest
      (item :: later, changed)
    | some d =>
      let (tokens, placed, lineChanged) := releaseLine globMatches kept exists_ placed (splitWhitespace d.value)
      let (later, changed) := releaseItems kept exists_ placed rest
      if !lineChanged then (item :: later, changed)
      else if tokens.isEmpty then (later, true)
      else (withTokens d tokens :: later, true)

/-- Rewrites our tokens by the map from old to new ones; files that only a glob of ours reads are listed in front of
the first glob that covers them. -/
def releaseInclude (items : List Item) (kept : List (List Char × List Char)) (exists_ : List Char → Bool) :
    List Item × Bool :=
  let listed := (items.filterMap enabledInclude).flatMap fun d => splitWhitespace d.value
  let placed := listed.filterMap fun t => (kept.find? fun entry => entry.1 = t).map Prod.fst
  releaseItems globMatches kept exists_ placed items

end Release

end Sshelter.Sync.IncludeList
