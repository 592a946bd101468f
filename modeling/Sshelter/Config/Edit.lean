import Sshelter.Config.Parser

/-! # Structured edits of a configuration file

`serialize_items` of `config/serialize.rs` and the operations of `config/edit.rs`.  An edit
changes items in memory; only the lines it marks dirty are written anew.
-/

namespace Sshelter.Config

open Text

/-! ## Serializer -/

mutual

/-- The physical lines of one item. -/
def itemLines : Item → List (List Char)
  | .Blank line => [line]
  | .Comment line => [line]
  | .Directive d => [renderDirective d]
  | .Host header _ body => renderDirective header :: pushItems body
  | .Match header _ body => renderDirective header :: pushItems body

/-- The physical lines of the items, in order. -/
def pushItems : List Item → List (List Char)
  | [] => []
  | item :: rest => itemLines item ++ pushItems rest

end

/-- The text of a file. -/
def serializeItems (items : List Item) (trailingNewline : Bool) : List Char :=
  ['\n'].intercalate (pushItems items) ++ if trailingNewline then ['\n'] else []

/-! ## Directives -/

/-- Line ends never enter a value. -/
def sanitizeValue (value : List Char) : List Char := value.filter fun c => c ≠ '\r' && c ≠ '\n'

/-- A line that is not in the file yet. -/
def Directive.new (u : UnicodeTables) (keyword value indent : List Char) : Directive where
  keyword
  key := lowercase u keyword
  value := sanitizeValue value
  separator := .Space [' ']
  indent
  trailingWs := []
  inlineComment := none
  enabled := true
  raw := []
  dirty := true

def setDirectiveEnabled (d : Directive) (enabled : Bool) : Directive :=
  { d with enabled, dirty := true }

/-! ## Host blocks -/

structure HostBlock where
  header : Directive
  patterns : List (List Char)
  body : List Item

def HostBlock.toItem (self : HostBlock) : Item := .Host self.header self.patterns self.body

def Item.isHost : Item → Bool
  | .Host .. => true
  | _ => false

/-- A Host block one of whose patterns is the alias. -/
def Item.hasAlias (alias_ : List Char) : Item → Bool
  | .Host _ patterns _ => patterns.contains alias_
  | _ => false

def Item.isDirective : Item → Bool
  | .Directive _ => true
  | _ => false

def Item.hasKey (key : List Char) : Item → Bool
  | .Directive d => d.key = key
  | _ => false

/-- Replaces the first block of the alias. -/
def modifyHost (edit : HostBlock → HostBlock) (alias_ : List Char) : List Item → List Item
  | [] => []
  | .Host header patterns body :: rest =>
    if patterns.contains alias_ then (edit ⟨header, patterns, body⟩).toItem :: rest
    else .Host header patterns body :: modifyHost edit alias_ rest
  | item :: rest => item :: modifyHost edit alias_ rest

/-- The first block of the alias. -/
def findHost (alias_ : List Char) : List Item → Option HostBlock
  | [] => none
  | .Host header patterns body :: rest =>
    if patterns.contains alias_ then some ⟨header, patterns, body⟩ else findHost alias_ rest
  | _ :: rest => findHost alias_ rest

/-! ## Fields -/

/-- The indent of the first directive, four blanks without one. -/
def inferIndent : List Item → List Char
  | [] => [' ', ' ', ' ', ' ']
  | .Directive d :: _ => d.indent
  | _ :: rest => inferIndent rest

/-- A new line goes after the last directive, before the blanks and comments that end the
block. -/
def insertDirective (u : UnicodeTables) (host : HostBlock) (keyword value : List Char) : HostBlock :=
  let line : Item := .Directive (.new u keyword value (inferIndent host.body))
  let notDirective (item : Item) : Bool := !item.isDirective
  let upToLast := host.body.rdropWhile notDirective
  { host with
    body :=
      if upToLast.isEmpty then host.body ++ [line]
      else upToLast ++ line :: host.body.rtakeWhile notDirective }

/-- Gives the first directive of the key another value.  Nothing when the key is not there;
otherwise the body and whether it changed. -/
def setFirst (key value : List Char) : List Item → Option (List Item × Bool)
  | [] => none
  | item :: rest =>
    let later := (setFirst key value rest).map fun (rest, changed) => (item :: rest, changed)
    match item with
    | .Directive d =>
      if d.key = key then
        if d.value = value then some (item :: rest, false)
        else some (.Directive { d with value, dirty := true } :: rest, true)
      else later
    | _ => later

def setHostField (u : UnicodeTables) (host : HostBlock) (keyword value : List Char) : HostBlock × Bool :=
  let value := sanitizeValue value
  match setFirst (lowercase u keyword) value host.body with
  | some (body, changed) => ({ host with body }, changed)
  | none => (insertDirective u host keyword value, true)

def removeHostField (u : UnicodeTables) (host : HostBlock) (keyLower : List Char) : HostBlock × Bool :=
  let keyLower := lowercase u keyLower
  ({ host with body := host.body.eraseP (Item.hasKey keyLower) }, host.body.any (Item.hasKey keyLower))

/-- A path with whitespace is one argument only in double quotes. -/
def quoteSpacedPath (value : List Char) : List Char :=
  if value.any isWhitespace && !value.contains '"' then '"' :: value ++ ['"'] else value

def Item.isLiveIdentity : Item → Bool
  | .Directive d => d.key = "identityfile".toList && !d.serializesAsComment
  | _ => false

def setIdentity (value : List Char) : Item → Item
  | .Directive d =>
    .Directive (if d.value ≠ value then { d with value, dirty := true, enabled := true } else d)
  | item => item

/-- Points the host at one key: the first live `IdentityFile` takes the value, the other live
ones go.  Returns the old live values. -/
def replaceIdentityFiles (u : UnicodeTables) (host : HostBlock) (value : List Char) :
    HostBlock × List (List Char) :=
  let value := quoteSpacedPath (sanitizeValue value)
  let before := host.body.takeWhile fun item => !item.isLiveIdentity
  match host.body.dropWhile fun item => !item.isLiveIdentity with
  | [] => (insertDirective u host "IdentityFile".toList value, [])
  | first :: rest =>
    ({ host with body := before ++ setIdentity value first :: rest.filter fun item => !item.isLiveIdentity },
      host.body.filterMap fun item =>
        match item with
        | .Directive d => if item.isLiveIdentity then some d.value else none
        | _ => none)

/-- Rewrites the pattern words of the header line. -/
def setHostPatterns (host : HostBlock) (patterns : List (List Char)) : HostBlock × Bool :=
  let tokens := (patterns.map sanitizeValue).filter fun p => !p.isEmpty
  let value := [' '].intercalate tokens
  if host.header.value = value then (host, false)
  else ({ host with header := { host.header with value, dirty := true }, patterns := tokens }, true)

/-! ## Hosts of a file -/

def addHost (u : UnicodeTables) (items : List Item) (alias_ : List Char)
    (fields : List (List Char × List Char)) : List Item :=
  items ++
    [.Blank [],
     .Host (.new u "Host".toList alias_ []) [alias_]
       (fields.map fun (keyword, value) => .Directive (.new u keyword value [' ', ' ', ' ', ' ']))]

def removeHost (items : List Item) (alias_ : List Char) : List Item × Bool :=
  (items.eraseP (Item.hasAlias alias_), items.any (Item.hasAlias alias_))

/-- The named blocks in the order of the names, then the others in their own. -/
def orderHosts : (order : List (List Char)) → (hosts : List Item) → List Item
  | [], hosts => hosts
  | alias_ :: order, hosts =>
    match hosts.find? (Item.hasAlias alias_) with
    | some host => host :: orderHosts order (hosts.eraseP (Item.hasAlias alias_))
    | none => orderHosts order hosts

/-- Fills the places of Host blocks with the given ones, one after another. -/
def placeHosts : (items hosts : List Item) → List Item
  | [], _ => []
  | item :: rest, hosts =>
    if item.isHost then
      match hosts with
      | [] => item :: placeHosts rest []
      | host :: hosts => host :: placeHosts rest hosts
    else item :: placeHosts rest hosts

def reorderHosts (items : List Item) (order : List (List Char)) : List Item :=
  placeHosts items (orderHosts order (items.filter Item.isHost))

/-! ## Tags -/

def tagsPrefix : List Char := "#tags:".toList

def isSentinel : Item → Bool
  | .Comment line => tagsPrefix.isPrefixOf (line.dropWhile isWhitespace)
  | _ => false

/-- Writes the tags as a comment line at the head of the block, or over the one there is. -/
def setTags (host : HostBlock) (tags : List (List Char)) : HostBlock :=
  if tags.isEmpty then { host with body := host.body.eraseP isSentinel }
  else
    let sentinel : Item := .Comment (tagsPrefix ++ [','].intercalate tags)
    match host.body.findIdx? isSentinel with
    | some position => { host with body := host.body.set position sentinel }
    | none => { host with body := sentinel :: host.body }

end Sshelter.Config
