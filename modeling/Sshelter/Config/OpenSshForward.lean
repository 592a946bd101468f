import Sshelter.Config.OpenSshReader

/-! # How OpenSSH reads a forwarding

Not part of the program: the reference for the check of forwardings.  The arguments of the
line are joined with `:` and cut into at most four fields, each up to a `:` or between leading
brackets; a field with a `/` in it is a socket path.  How many fields there are and which are
paths decides what the first ones stand for.  Ports stay texts: numbers out of range make ssh
refuse the line.
-/

namespace Sshelter.Config.OpenSsh

structure ForwardField where
  text : List Char
  isPath : Bool
deriving DecidableEq, Repr

/-- A field up to a colon and what follows; a backslash takes the next character as it is. -/
def plainField : List Char → Option (ForwardField × List Char)
  | [] => some (⟨[], false⟩, [])
  | ['\\'] => none
  | '\\' :: c :: rest => (plainField rest).map fun (field, after) => (⟨c :: field.text, field.isPath⟩, after)
  | c :: rest =>
    if c = ':' then some (⟨[], false⟩, rest)
    else (plainField rest).map fun (field, after) => (⟨c :: field.text, field.isPath || c = '/'⟩, after)

/-- A field between brackets; the closing one ends the text or stands before a colon. -/
def bracketField (s : List Char) : Option (ForwardField × List Char) :=
  let text := s.takeWhile (· != ']')
  match s.dropWhile (· != ']') with
  | [_] => some (⟨text, text.contains '/'⟩, [])
  | _ :: ':' :: after => some (⟨text, text.contains '/'⟩, after)
  | _ => none

def forwardField : List Char → Option (ForwardField × List Char)
  | '[' :: rest => bracketField rest
  | s => plainField s

/-- At most so many fields; text left over is an error. -/
def forwardFields : Nat → List Char → Option (List ForwardField)
  | _, [] => some []
  | 0, _ => none
  | n + 1, s => do
    let (field, after) ← forwardField s
    let others ← forwardFields n after
    some (field :: others)

/-- A forwarding: where it listens and where it goes to. -/
structure Forward where
  listenHost : Option (List Char) := none
  listenPort : Option (List Char) := none
  listenPath : Option (List Char) := none
  connectHost : Option (List Char) := none
  connectPort : Option (List Char) := none
  connectPath : Option (List Char) := none
deriving DecidableEq, Repr

/-- What the fields stand for. -/
def forwardOf (isDynamic : Bool) : List ForwardField → Option Forward
  | [a] =>
    if !isDynamic then none
    else if a.isPath then some { listenPath := a.text, connectHost := "socks".toList }
    else some { listenPort := a.text, connectHost := "socks".toList }
  | [a, b] =>
    if a.isPath && b.isPath then some { listenPath := a.text, connectPath := b.text }
    else if b.isPath then some { listenPort := a.text, connectPath := b.text }
    else if !isDynamic then none
    else some { listenHost := a.text, listenPort := b.text, connectHost := "socks".toList }
  | [a, b, c] =>
    if isDynamic then none
    else if a.isPath then some { listenPath := a.text, connectHost := b.text, connectPort := c.text }
    else if c.isPath then some { listenHost := a.text, listenPort := b.text, connectPath := c.text }
    else some { listenPort := a.text, connectHost := b.text, connectPort := c.text }
  | [a, b, c, d] =>
    if isDynamic then none
    else some { listenHost := a.text, listenPort := b.text, connectHost := c.text, connectPort := d.text }
  | _ => none

/-- The forwarding of a `DynamicForward` or a `LocalForward` with these arguments.  Text with a `$` in it is expanded
first, which is not read here. -/
def readForward (isDynamic : Bool) (arguments : List (List Char)) : Option Forward :=
  let specification :=
    match isDynamic, arguments with
    | true, [listen] => some listen
    | false, [listen, target] => some (listen ++ ':' :: target)
    | _, _ => none
  specification.bind fun text =>
    if text.contains '$' then none else (forwardFields 4 text).bind (forwardOf isDynamic)

end Sshelter.Config.OpenSsh
