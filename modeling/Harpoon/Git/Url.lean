import Harpoon.Deploy.Envvars
import Harpoon.Wire.Fields
import Harpoon.Wire.Number

/-!
# Repository URLs

Which URLs a repository may have, the path that a `file://` URL names, and the destination of a URL: where
its requests go, and with them any saved credential (`git.rs`).
-/

namespace Harpoon.Git

open Deploy.Envvars (isControl)

/-! ## Characters -/

/-- White space, in the sense of Unicode. -/
def isWhitespace (c : Char) : Bool :=
  let n := c.toNat
  (9 ≤ n && n ≤ 13) || n = 0x20 || n = 0x85 || n = 0xA0 || n = 0x1680 || (0x2000 ≤ n && n ≤ 0x200A) ||
    n = 0x2028 || n = 0x2029 || n = 0x202F || n = 0x205F || n = 0x3000

/-- Does `p` occur in the text? -/
def occurs (p : List Char) : List Char → Bool
  | [] => p.isEmpty
  | c :: cs => p.isPrefixOf (c :: cs) || occurs p cs

def containsText (p s : String) : Bool := occurs p.toList s.toList

def containsChar (c : Char) (s : String) : Bool := s.toList.contains c

def startsWith (c : Char) (s : String) : Bool := s.toList.head? = some c

def endsWith (c : Char) (s : String) : Bool := s.toList.getLast? = some c

/-- The text up to the first `sep`, or all of it. -/
def firstPart (sep : Char) (s : String) : String := (Wire.fields sep s).headD ""

/-- The text after the last `sep`, or all of it. -/
def lastPart (sep : Char) (s : String) : String := (Wire.fields sep s).getLast?.getD ""

/-- A code point as `U+` is followed by it. -/
def codePoint (c : Char) : String := (Wire.hexPadded 4 c.toNat).toUpper

/-! ## Local paths -/

/-- The bytes of a path whose `%` escapes are decoded once. -/
def percentDecoded : Wire.Bytes → Except String Wire.Bytes
  | [] => .ok []
  | b :: rest =>
    if b ≠ 0x25 then (b :: ·) <$> percentDecoded rest
    else
      match rest with
      | h :: l :: rest =>
        match Wire.digitValue (Char.ofNat h.toNat), Wire.digitValue (Char.ofNat l.toNat) with
        | some high, some low =>
          let byte := UInt8.ofNat (high * 16 + low)
          -- It would hide a separator from the checks of the components.
          if byte = 0x2F then .error "an encoded '/'" else (byte :: ·) <$> percentDecoded rest
        | _, _ => .error "a malformed %-escape"
      | _ => .error "a malformed %-escape"

def checkDecoded (decoded : String) : Except String Unit :=
  if decoded.toList.any isControl then .error "it decodes to a control character"
  else if !startsWith '/' decoded || (Wire.fields '/' decoded).any (fun c => c = ".." || c = ".") then
    .error "it must be absolute, without '.' or '..' components"
  else .ok ()

/-- The path that a `file://` URL names, decoded exactly once: the path that Git opens. -/
def fileUrlPath (path : String) : Except String String := do
  let bad (why : String) : String := s!"a file:// URL path is not acceptable: {why}"
  let bytes ← (percentDecoded (Wire.utf8 path)).mapError bad
  match Wire.fromUtf8 bytes with
  | none => .error (bad "it is not valid UTF-8")
  | some decoded => do
    (checkDecoded decoded).mapError bad
    return decoded

/-! ## Accepted URLs -/

def maxUrl : Nat := 512

inductive UrlKind where
  | https
  /-- Plain `http`, to this machine only. -/
  | httpLoopback
  | ssh
  /-- A repository on this machine. -/
  | file
  deriving DecidableEq, Repr

/-- Is there a password before the first `@`? -/
def hasPassword (authority : String) : Bool := containsChar '@' authority && containsChar ':' (firstPart '@' authority)

/-- The host of an authority, without the digits of a port. -/
def hostOf (authority : String) : String :=
  let host := lastPart '@' authority
  match Wire.rsplitOnce ':' host with
  | some (h, p) => if p.toList.all Char.isDigit then h else host
  | none => host

def validateHttps (rest : String) : Except String UrlKind :=
  let a := firstPart '/' rest
  if containsChar ':' a && hasPassword a then
    .error "a repository URL cannot contain a password; the credential is stored in the Keychain"
  else if a.isEmpty || startsWith '@' a then .error "the URL has no host"
  else .ok .https

def validateHttp (rest : String) : Except String UrlKind :=
  let a := firstPart '/' rest
  if hasPassword a then .error "a repository URL cannot contain a password"
  else if ["127.0.0.1", "localhost", "[::1]"].contains (hostOf a) then .ok .httpLoopback
  else .error "plain http is accepted only for a loopback host; use https"

def validateSsh (rest : String) : Except String UrlKind :=
  let a := firstPart '/' rest
  if containsChar ':' a && hasPassword a then .error "a repository URL cannot contain a password"
  else if a.isEmpty then .error "the URL has no host"
  else .ok .ssh

def validateFile (path : String) : Except String UrlKind :=
  if !startsWith '/' path || containsText ".." path then .error "a file:// URL needs an absolute path without '..'"
  else do
    let _ ← fileUrlPath path
    return .file

/-- `user@host:path`. -/
def isScpLike (url : String) : Bool :=
  match Wire.splitOnce ':' url with
  | some (left, path) =>
    containsChar '@' left && !containsChar '/' left && !path.isEmpty && !containsText "://" url
  | none => false

def validateTransport (url : String) : Except String UrlKind :=
  match Wire.stripPrefix "https://" url with
  | some rest => validateHttps rest
  | none =>
    match Wire.stripPrefix "http://" url with
    | some rest => validateHttp rest
    | none =>
      match Wire.stripPrefix "ssh://" url with
      | some rest => validateSsh rest
      | none =>
        match Wire.stripPrefix "file://" url with
        | some path => validateFile path
        | none =>
          if isScpLike url then .ok .ssh
          else .error "unsupported repository URL: use https://, ssh://, user@host:path or file:///absolute/path"

/-- Check a URL before anything uses it. It has no password, and its transport is a known one. -/
def validateUrl (url : String) : Except String UrlKind :=
  if url.isEmpty || maxUrl < url.utf8ByteSize then .error s!"a repository URL must be 1..={maxUrl} bytes"
  else if startsWith '-' url then .error "a repository URL cannot start with '-'"
  else
    match url.toList.find? fun c => isControl c || isWhitespace c with
    | some c =>
      .error s!"a repository URL cannot contain whitespace or control characters (U+{codePoint c})"
    | none => validateTransport url

/-! ## Destinations -/

inductive Transport where
  | https
  | http
  | ssh
  deriving DecidableEq, Repr

def Transport.name : Transport → String
  | .https => "https"
  | .http => "http"
  | .ssh => "ssh"

def Transport.defaultPort : Transport → UInt16
  | .https => 443
  | .http => 80
  | .ssh => 22

/-- Where a URL sends its requests. -/
structure Destination where
  transport : Transport
  /-- In lower case. -/
  host : String
  port : UInt16
  deriving DecidableEq, Repr

def Destination.toStr (d : Destination) : String := s!"{d.transport.name}://{d.host}:{d.port.toNat}"

def userOk (u : String) : Bool :=
  !u.isEmpty && u.toList.all fun c => c.isAlphanum || c = '.' || c = '_' || c = '~' || c = '-'

/-- A name or a dotted address, in plain ASCII. -/
def hostOk (h : String) : Bool :=
  h.utf8ByteSize ≤ 253 && (Wire.fields '.' h).all fun l =>
    1 ≤ l.utf8ByteSize && l.utf8ByteSize ≤ 63 && !startsWith '-' l && !endsWith '-' l &&
      l.toList.all fun c => c.isAlphanum || c = '-'

def lowered (s : String) : String := String.ofList (s.toList.map Char.toLower)

def hexDigit (c : Char) : Bool := (Wire.digitValue c).isSome

/-- The host of `host[:port]`, which may be an IPv6 address in brackets, and the text of the port. -/
def hostAndPort (hostport : String) : Option (String × Option String) :=
  match Wire.stripPrefix "[" hostport with
  | some rest => do
    let (inner, after) ← Wire.splitOnce ']' rest
    if !after.isEmpty && !startsWith ':' after then none
    else if containsChar ':' inner && inner.toList.all (fun c => hexDigit c || c = ':' || c = '.') then
      some (s!"[{lowered inner}]", Wire.stripPrefix ":" after)
    else none
  | none =>
    match Wire.splitOnce ':' hostport with
    | some (h, p) => if hostOk h then some (lowered h, some p) else none
    | none => if hostOk hostport then some (lowered hostport, none) else none

def portOf (default : UInt16) : Option String → Option UInt16
  | none => some default
  | some p =>
    if !p.isEmpty && p.utf8ByteSize ≤ 5 && p.toList.all Char.isDigit then
      ((Wire.parseUnsigned 10 65535 p).map UInt16.ofNat).filter (· ≠ 0)
    else none

/-- The host and the port of `[user@]host[:port]`. -/
def authority (a : String) (default : UInt16) : Option (String × UInt16) := do
  if 1 < a.toList.count '@' then none
  let hostport ←
    match Wire.splitOnce '@' a with
    | some (u, h) => if userOk u then some h else none
    | none => some a
  let (host, port) ← hostAndPort hostport
  return (host, ← portOf default port)

def schemes : List (String × Transport) := [("https://", .https), ("http://", .http), ("ssh://", .ssh)]

/-- The transport that the URL begins with, and what follows it. -/
def schemed (url : String) : Option (Transport × String) :=
  schemes.findSome? fun s => (Wire.stripPrefix s.1 url).map fun rest => (s.2, rest)

/-- The destination of a URL, where it can be told without doubt. -/
def destination (url : String) : Option Destination :=
  if url.isEmpty || url.toList.any (fun c => isControl c || isWhitespace c || c = '\\') then none
  else
    match schemed url with
    | some (transport, rest) => do
      let (host, port) ← authority (firstPart '/' rest) transport.defaultPort
      return ⟨transport, host, port⟩
    | none =>
      if containsText "://" url then none
      else do
        -- `[user@]host:path`, with the colon before any slash.
        let (left, path) ← Wire.splitOnce ':' url
        if containsChar '/' left || path.isEmpty then none
        let (host, _) ← authority left 22
        return ⟨.ssh, host, 22⟩

end Harpoon.Git
