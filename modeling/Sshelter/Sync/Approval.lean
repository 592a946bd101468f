import Sshelter.Sync.HostsFile

/-! # Approval of dangerous settings

`sync/approval.rs`: the settings of a host text that run programs, hand out credentials or
switch off host key checks are gated.  A text that brings gated settings is applied without a
question only when its signature, the Host line and the gated lines in order, is that of the
block this device uses already.
-/

namespace Sshelter.Sync.Approval

open Text Config HostsFile

def GATED_KEYWORDS : List (List Char) :=
  ["proxycommand", "localcommand", "permitlocalcommand", "knownhostscommand", "pkcs11provider",
    "securitykeyprovider", "forwardagent", "forwardx11", "forwardx11trusted", "remoteforward",
    "smartcarddevice", "xauthlocation", "remotecommand", "stricthostkeychecking",
    "nohostauthenticationforproxycommand", "verifyhostkeydns", "userknownhostsfile",
    "globalknownhostsfile", "sendenv", "gssapidelegatecredentials", "identityagent",
    "permitremoteopen", "nohostauthenticationforlocalhost", "gatewayports"].map String.toList

/-- One gated line. -/
structure GatedDirective where
  keyword : List Char
  value : List Char
deriving DecidableEq, Repr

structure ApprovalSignature where
  host : List Char
  gated : List GatedDirective
deriving DecidableEq, Repr

/-- The signature of no text. -/
def ApprovalSignature.default : ApprovalSignature := { host := [], gated := [] }

/-- Everything after the keyword, trimmed; ssh and the shell see what the parser takes for a
comment. -/
def restOfLine (d : Directive) : List Char := trimEnd (d.rest.dropWhile isWhitespace)

/-- A port number of digits only. -/
def isBarePort (word : List Char) : Bool := !word.isEmpty && word.all Char.isDigit

/-- `str::split_once`. -/
def splitOnce (separator : List Char) : List Char → Option (List Char × List Char)
  | [] => if separator.isEmpty then some ([], []) else none
  | c :: rest =>
    if separator.isPrefixOf (c :: rest) then some ([], (c :: rest).drop separator.length)
    else (splitOnce separator rest).map fun (before, after) => (c :: before, after)

/-- `host:port` with no bind address, or an absolute socket path. -/
def isPlainForwardTarget (target : List Char) : Bool :=
  if target.any fun c => c = '$' || c = '\\' || c = '"' || c = '\'' then false
  else if target.head? = some '/' then !target.contains ':'
  else
    let parts :=
      if target.head? = some '[' then splitOnce "]:".toList target.tail else splitOnce [':'] target
    match parts with
    | none => false
    | some (host, port) =>
      !host.isEmpty && !host.any (fun c => c = '[' || c = ']') && isBarePort port

/-- A forwarding that is not a bare port to a plain target. -/
def gatedForward (d : Directive) : Bool :=
  let args := (words isBlank (restOfLine d)).takeWhile fun word => word.head? != some '#'
  if d.key = "localforward".toList then
    match args with
    | [port, target] => !(isBarePort port && isPlainForwardTarget target)
    | _ => true
  else if d.key = "dynamicforward".toList then
    match args with
    | [port] => !isBarePort port
    | _ => true
  else false

def isGated (d : Directive) : Bool :=
  !d.serializesAsComment &&
    (GATED_KEYWORDS.contains d.key || gatedForward d || d.keyword.contains '"' || d.key.isEmpty)

mutual

/-- The Host lines and the gated lines of an item. -/
def collectItem : Item → List (List Char) × List GatedDirective
  | .Directive d => ([], if isGated d then [{ keyword := d.key, value := restOfLine d }] else [])
  | .Host header _ body =>
    let (hosts, gated) := collect body
    (restOfLine header :: hosts, gated)
  | .Match _ _ body => collect body
  | .Blank _ => ([], [])
  | .Comment _ => ([], [])

def collect : List Item → List (List Char) × List GatedDirective
  | [] => ([], [])
  | item :: rest =>
    let (hosts, gated) := collectItem item
    let (hosts', gated') := collect rest
    (hosts ++ hosts', gated ++ gated')

end

def signature (u : UnicodeTables) (text : List Char) : ApprovalSignature :=
  let (hosts, gated) := collect (parseFile u text).1
  { host := ['\n'].intercalate hosts, gated }

/-- The text is one Host block whose header ssh reads as the parser does. -/
def isSingleHostBlock (u : UnicodeTables) (text : List Char) : Bool :=
  match (parseFile u text).1 with
  | [.Host header _ _] => headerReadsTheSame header
  | _ => false

def needsApproval (u : UnicodeTables) (newText : List Char) (appliedText : Option (List Char)) : Bool :=
  if !isSingleHostBlock u newText || appliedText.any fun text => !isSingleHostBlock u text then true
  else
    let incoming := signature u newText
    if incoming.gated.isEmpty then false
    else
      let applied := (appliedText.map (signature u)).getD .default
      decide (incoming ≠ applied)

end Sshelter.Sync.Approval
