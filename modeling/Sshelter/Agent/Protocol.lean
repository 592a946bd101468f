import Sshelter.Lib.Wire

/-! # Agent protocol messages

`agent/protocol.rs`: framing and messages of the agent protocol, with the OpenSSH
session-bind extension, and the user authentication data a client asks to have
signed.  The wire decoders come from the `ssh-encoding` crate and public keys and
signatures from `ssh-key`; both enter as a `Crates` value.
-/

namespace Sshelter.Agent

open Wire (Bytes)

/-! ## Constants -/

/-- The same limit as OpenSSH's `AGENT_MAX_LEN`. -/
def maxMessage : Nat := 256 * 1024

def sshAgentFailure : UInt8 := 5
def sshAgentSuccess : UInt8 := 6
def sshAgentcRequestIdentities : UInt8 := 11
def sshAgentIdentitiesAnswer : UInt8 := 12
def sshAgentcSignRequest : UInt8 := 13
def sshAgentSignResponse : UInt8 := 14
def sshAgentcExtension : UInt8 := 27
def sshAgentExtensionFailure : UInt8 := 28
def sessionBind : String := "session-bind@openssh.com"

/-! ## Third-party functions -/

/-- The functions of `ssh-encoding` and `ssh-key` the agent calls.  A key or signature decoder
returns the value and the bytes it left unread. -/
structure Crates (KeyData Signature : Type) where
  reader : Wire.Reader
  decodeKey : Bytes → Option (KeyData × Bytes)
  encodeKey : KeyData → Bytes
  decodeSignature : Bytes → Option (Signature × Bytes)
  verify : KeyData → (message : Bytes) → Signature → Bool

section Messages

variable {KeyData Signature : Type} (c : Crates KeyData Signature)

/-! ## Framing -/

/-- Outcome of `read_frame`: the message and the rest of the stream, a closed stream, or a
frame that ends the connection. -/
inductive Frame where
  | message (msg rest : Bytes)
  | closed
  | broken
deriving DecidableEq, Repr

/-- One frame off the stream.  Fewer than four bytes are an end of file and count as closed; a
length of zero or above the limit, or a body cut short, is an error. -/
def readFrame : Bytes → Frame
  | b₀ :: b₁ :: b₂ :: b₃ :: rest =>
    let len := Wire.wordValue b₀ b₁ b₂ b₃
    if len = 0 ∨ maxMessage < len then .broken
    else if rest.length < len then .broken
    else .message (rest.take len) (rest.drop len)
  | _ => .closed

def writeFrame (body : Bytes) : Bytes := Wire.word body.length ++ body

/-! ## Requests -/

/-- A request the agent received. -/
inductive Request (KeyData Signature : Type) where
  | Identities
  | Sign (key : KeyData) (data : Bytes) (flags : UInt32)
  | SessionBind (hostKey : KeyData) (sessionId : Bytes) (signature : Signature) (forwarding : Bool)
  /-- An extension other than session-bind, by name. -/
  | Extension (name : String)
  /-- An unsupported kind or unreadable content. -/
  | Unsupported
deriving DecidableEq, Repr

/-- A length-prefixed field whose content must be used up exactly by the decoder. -/
def readPrefixedExact {T : Type} (decode : Bytes → Option (T × Bytes)) (input : Bytes) :
    Option (T × Bytes) := do
  let (nested, rest) ← c.reader.readString input
  let (value, left) ← decode nested
  if left.isEmpty then some (value, rest) else none

/-- A length-prefixed field holding UTF-8 text. -/
def readText (input : Bytes) : Option (String × Bytes) := do
  let (bytes, rest) ← c.reader.readString input
  let text ← Wire.decodeText bytes
  some (text, rest)

/-- Succeeds only when nothing is left to read. -/
def finish {T : Type} (input : Bytes) (value : T) : Option T :=
  if input.isEmpty then some value else none

/-- The body of a sign request. -/
def parseSign (body : Bytes) : Option (Request KeyData Signature) := do
  let (key, body) ← readPrefixedExact c c.decodeKey body
  let (data, body) ← c.reader.readString body
  let (flags, body) ← c.reader.readWord body
  finish body (.Sign key data flags)

/-- The body of a session-bind after the extension name. -/
def parseSessionBind (body : Bytes) : Option (Request KeyData Signature) := do
  let (hostKey, body) ← readPrefixedExact c c.decodeKey body
  let (sessionId, body) ← c.reader.readString body
  let (signature, body) ← readPrefixedExact c c.decodeSignature body
  let (forwarding, body) ← c.reader.readByte body
  finish body (.SessionBind hostKey sessionId signature (forwarding != 0))

/-- The body of an extension request; only session-bind is read past its name. -/
def parseExtension (body : Bytes) : Option (Request KeyData Signature) := do
  let (name, body) ← readText c body
  if name != sessionBind then some (.Extension name) else parseSessionBind c body

/-- One agent message without its length; anything unreadable is `Unsupported`. -/
def parseRequest : Bytes → Request KeyData Signature
  | [] => .Unsupported
  | kind :: body =>
    let parsed :=
      if kind = sshAgentcRequestIdentities then finish body .Identities
      else if kind = sshAgentcSignRequest then parseSign c body
      else if kind = sshAgentcExtension then parseExtension c body
      else some .Unsupported
    parsed.getD .Unsupported

/-! ## Replies -/

/-- Number of keys, then each public key with its comment. -/
def identitiesAnswer (keys : List (KeyData × String)) : Bytes :=
  sshAgentIdentitiesAnswer :: (Wire.word keys.length ++
    keys.flatMap fun (key, comment) =>
      Wire.string (c.encodeKey key) ++ Wire.string (Wire.textBytes comment))

/-- The signature blob as one string. -/
def signResponse (signatureBlob : Bytes) : Bytes :=
  sshAgentSignResponse :: Wire.string signatureBlob

/-! ## User authentication data -/

/-- The data signed to log in with a public key. -/
structure Userauth (KeyData : Type) where
  sessionId : Bytes
  user : String
  key : KeyData
  hostboundHostKey : Option KeyData
deriving DecidableEq, Repr

/-- Whether the method is the host-bound one; nothing for any other method. -/
def hostboundMethod (method : String) : Option Bool :=
  if method = "publickey" then some false
  else if method = "publickey-hostbound-v00@openssh.com" then some true
  else none

/-- The host key that follows the public key in the host-bound method. -/
def readHostboundKey (hostbound : Bool) (input : Bytes) : Option (Option KeyData × Bytes) :=
  if hostbound then (readPrefixedExact c c.decodeKey input).map fun (key, rest) => (some key, rest)
  else some (none, input)

/-- A complete login to the `ssh-connection` service, with no data left over. -/
def parseUserauth (data : Bytes) : Option (Userauth KeyData) := do
  let (sessionId, r) ← c.reader.readString data
  let (message, r) ← c.reader.readByte r
  guard (message = 50)
  let (user, r) ← readText c r
  let (service, r) ← readText c r
  guard (service = "ssh-connection")
  let (method, r) ← readText c r
  let hostbound ← hostboundMethod method
  let (signed, r) ← c.reader.readByte r
  guard (signed = 1)
  let (_algorithm, r) ← readText c r
  let (key, r) ← readPrefixedExact c c.decodeKey r
  let (hostboundHostKey, r) ← readHostboundKey c hostbound r
  finish r { sessionId, user, key, hostboundHostKey }

end Messages

end Sshelter.Agent
