import Harpoon.Desktop.Router
import Harpoon.Host.HostPathTranslator
import Harpoon.Host.RuntimeConfig
import Harpoon.Wire.Segments

/-!
# The bridge to Docker

What a client of the bridge sends goes on to the daemon request by request (`UnixBridge.swift`): the bridge looks for
the end of a head, reads from the head how long the body is, and holds the request back until all of it is there. A
body that creates a container is checked and translated on the way. What does not look like HTTP goes on as it is, and
so does everything behind a request to switch protocols.

The daemon takes all that is written to it. `JSONSerialization` is a parameter: the object that bytes are read as, if
they are an object, and the bytes it is written as. What is logged and the ports' synchronisation are left out.
-/

namespace Harpoon.UnixBridge

open HostPaths (Mac Members SharedRoot Reason firstInvalidHostPath translateCreateBody)
open Host (lowercased)
open Wire (Bytes fields fromUtf8 positionOf utf8)

structure JSONSerialization where
  jsonObject : Bytes → Option Members
  data : Members → Bytes

/-! ## Marks -/

/-- `\r\n\r\n` -/
def headerMark : Bytes := [0x0D, 0x0A, 0x0D, 0x0A]

/-- `\r\n0\r\n\r\n` -/
def term : Bytes := [0x0D, 0x0A, 0x30, 0x0D, 0x0A, 0x0D, 0x0A]

/-- `\n0\n\n` -/
def term2 : Bytes := [0x0A, 0x30, 0x0A, 0x0A]

/-! ## A head -/

/-- `CharacterSet.whitespaces` -/
def isWhitespace (c : Char) : Bool :=
  let n := c.toNat
  n = 9 || n = 0x20 || n = 0xA0 || n = 0x1680 || 0x2000 ≤ n && n ≤ 0x200A || n = 0x202F || n = 0x205F || n = 0x3000

def trimmed (s : String) : String :=
  String.ofList ((s.toList.dropWhile isWhitespace).reverse.dropWhile isWhitespace).reverse

def maxInt : Nat := 0x7FFFFFFFFFFFFFFF

def contains (lower : List Char) (s : String) : Bool := Git.occurs s.toList lower

def hasPrefix (lower : List Char) (s : String) : Bool := s.toList.isPrefixOf lower

def isLength (l : String) : Bool := hasPrefix (lowercased l) "content-length:"

/-- The number behind the last colon. -/
def lengthOf (l : String) : Option Int := Host.Machine.swiftInt (trimmed (((Wire.rsplitOnce ':' l).map (·.2)).getD l))

def isCoding (l : String) : Bool := contains (lowercased l) "transfer-encoding:" && contains (lowercased l) "chunked"

structure Head where
  method : String
  path : String
  lines : List String
  contentLength : Option Int
  isChunked : Bool
  isUpgrade : Bool
  deriving DecidableEq, Repr

/-- What one line says of the body and of the connection. -/
def Head.addLine (h : Head) (l : String) : Head :=
  let lower := lowercased l
  let h := if isLength l then { h with contentLength := lengthOf l } else h
  let h := if isCoding l then { h with isChunked := true } else h
  let h := if hasPrefix lower "connection:" && contains lower "upgrade" then { h with isUpgrade := true } else h
  if hasPrefix lower "upgrade:" && (contains lower "tcp" || contains lower "h2c" || contains lower "hijack") then
    { h with isUpgrade := true }
  else h

/-- Nothing where the first line is empty. -/
def Head.ofText (headerStr : String) : Option Head :=
  let lines := (Desktop.crlfLines headerStr.toList).map String.ofList
  match lines with
  | requestLine :: _ =>
    if requestLine = "" then none
    else
      let parts := (fields ' ' requestLine).filter (· ≠ "")
      let h := lines.foldl Head.addLine ⟨parts[0]?.getD "", parts[1]?.getD "", lines, none, false, false⟩
      let lowerHeader := lowercased headerStr
      some
        (if contains lowerHeader "connection: upgrade" && contains lowerHeader "upgrade:" then { h with isUpgrade := true }
        else h)
  | [] => none

/-! ## A request -/

inductive BodyLen where
  | needMore
  /-- An overflow. -/
  | trap
  /-- What there is goes on as it is. -/
  | raw
  | bytes (n : Int)
  deriving DecidableEq, Repr

def bodyLen (h : Head) (headerLen : Nat) (clientBuf : Bytes) : BodyLen :=
  if h.isChunked then
    match positionOf term (clientBuf.drop headerLen) with
    | some i => .bytes (i + term.length)
    | none =>
      match positionOf term2 clientBuf with
      | some i => .bytes ((i + term2.length : Nat) - headerLen)
      | none => if clientBuf.length > 1024 * 1024 then .raw else .needMore
  else
    match h.contentLength with
    | some cl =>
      if headerLen + cl > maxInt then .trap
      else if (clientBuf.length : Int) < headerLen + cl then .needMore
      else .bytes cl
    | none => .bytes 0

/-- What the loop does next with what is in the buffer. -/
inductive Next where
  | wait
  | raw
  /-- The program stops: by an overflow, or by a range that ends before it begins. -/
  | trap
  | request (h : Head) (headerLen totalLen : Nat)
  deriving DecidableEq, Repr

/-- With the head, and the end of the body, if it is there. -/
def frame (h : Head) (headerLen : Nat) (clientBuf : Bytes) : Next :=
  match bodyLen h headerLen clientBuf with
  | .needMore => .wait
  | .trap => .trap
  | .raw => .raw
  | .bytes n =>
    if (clientBuf.length : Int) < headerLen + n then .wait
    else if headerLen + n < 0 then .trap
    else .request h headerLen (headerLen + n).toNat

def next (clientBuf : Bytes) : Next :=
  match positionOf headerMark clientBuf with
  | none => .wait
  | some headerEnd =>
    let headerLen := headerEnd + headerMark.length
    match fromUtf8 (clientBuf.take headerLen) with
    | none => .raw
    | some headerStr =>
      match Head.ofText headerStr with
      | none => .wait
      | some h => frame h headerLen clientBuf

/-! ## The connection -/

structure Bridge where
  clientBuf : Bytes
  hijacked : Bool
  /-- What has been written to the daemon, and what the client was answered in its place. -/
  daemon : Bytes
  client : List (String × Reason)
  deriving DecidableEq, Repr

def Bridge.start : Bridge := ⟨[], false, [], []⟩

def Bridge.append (b : Bridge) (data : Bytes) : Bridge := { b with clientBuf := b.clientBuf ++ data }

/-- All that is there goes on, and so does all that comes. -/
def Bridge.hijack (b : Bridge) : Bridge := { b with clientBuf := [], hijacked := true, daemon := b.daemon ++ b.clientBuf }

section

variable {File : Type} (json : JSONSerialization) (mac : Mac File) (roots : List SharedRoot)

/-- The head with the length of another body. -/
def newHeader (h : Head) (newLen : Nat) : String :=
  let lines := h.lines.map fun l => if isLength l then s!"Content-Length: {newLen}" else l
  let lines :=
    if !h.lines.any isLength && newLen > 0 then
      lines.take (lines.length - 1) ++ s!"Content-Length: {newLen}" :: lines.drop (lines.length - 1)
    else lines
  "\r\n".intercalate lines

/-- A request that is all there: what goes on in its place, or why it does not. -/
def outData (h : Head) (requestData bodyData : Bytes) : Except (String × Reason) Bytes :=
  if h.method = "POST" && contains h.path.toList "containers/create" && bodyData ≠ [] && !h.isChunked then
    match (json.jsonObject bodyData).bind (firstInvalidHostPath mac roots) with
    | some invalid => .error invalid
    | none =>
      match (json.jsonObject bodyData).bind (translateCreateBody mac roots) with
      | some translated => .ok (utf8 (newHeader h (json.data translated).length) ++ json.data translated)
      | none => .ok requestData
  else .ok requestData

/-- One round of `drainClientBuffer`: what is left, and whether there is another. -/
def Bridge.round (b : Bridge) : Option (Bridge × Bool) :=
  match next b.clientBuf with
  | .wait => some (b, false)
  | .raw => some (b.hijack, false)
  | .trap => none
  | .request h headerLen totalLen =>
    if h.isUpgrade then some (b.hijack, false)
    else
      let rest := { b with clientBuf := b.clientBuf.drop totalLen }
      match outData json mac roots h (b.clientBuf.take totalLen) ((b.clientBuf.take totalLen).drop headerLen) with
      | .error invalid => some ({ rest with client := b.client ++ [invalid] }, true)
      | .ok out => some ({ rest with daemon := b.daemon ++ out }, true)

/-- At most so many rounds; none if the program stops, or the loop does not end. -/
def Bridge.rounds : Nat → Bridge → Option Bridge
  | 0, _ => none
  | n + 1, b =>
    match b.round json mac roots with
    | some (b, true) => b.rounds n
    | some (b, false) => some b
    | none => none

/-- A round that consumes nothing is made again for ever. Any other consumes a byte. -/
def Bridge.drainClientBuffer (b : Bridge) : Option Bridge := b.rounds json mac roots (b.clientBuf.length + 1)

/-- What the client's socket was read for. -/
def Bridge.read (b : Bridge) (data : Bytes) : Option Bridge :=
  if b.hijacked then some { b with daemon := b.daemon ++ data }
  else if (b.append data).clientBuf.length > 4 * 1024 * 1024 then some (b.append data).hijack
  else (b.append data).drainClientBuffer json mac roots

end

end Harpoon.UnixBridge
