import Harpoon.Deploy.Logs
import Harpoon.Wire.Utf8
import Harpoon.Docker.Api

/-!
# The output of a build

The build writes to two pipes. What is read of them arrives in chunks, in any order, is decoded to text and goes to the
log (`buildx_run.rs`).
-/

namespace Harpoon.Docker

open Wire (Bytes decodeFrom lossyEnd)
open Deploy (LogCapture LogLimits LogSink Redactor)

inductive Pipe where
  | stdout
  | stderr
  deriving DecidableEq, Repr

/-- What was read of a pipe at once. -/
structure OutputChunk where
  pipe : Pipe
  bytes : Bytes
  deriving DecidableEq, Repr

/-- Decode a chunk without splitting a character: the start of one at its end is carried to the next. -/
def decodeChunk (carry bytes : Bytes) : String × Bytes :=
  let (text, carry) := decodeFrom carry bytes
  (String.ofList text, carry)

/-- The texts that a run of the build hands to its log. The carry is one for both pipes. -/
def outputTexts (carry : Bytes) : List OutputChunk → List String
  | [] => if carry = [] then [] else [String.ofList (lossyEnd carry)]
  | chunk :: rest =>
    let (text, carry) := decodeChunk carry chunk.bytes
    if text.isEmpty then outputTexts carry rest else text :: outputTexts carry rest

/-- What the build stores of its output. -/
def buildLog (limits : LogLimits) (redactor : Redactor) (chunks : List OutputChunk) : LogCapture :=
  ((outputTexts [] chunks).foldl LogSink.pushChunk (LogSink.new limits redactor)).capture

end Harpoon.Docker

/-!
## Log frames

Docker's log stream of two outputs: each frame is a header of eight bytes (the stream, three zeros, the length in big-endian order)
and its payload (`demux`, `api.rs`).
-/

namespace Harpoon.Docker

open Wire (Bytes lossy)

/-- Up to 32 bits, as the header has them. -/
def bigEndian (a b c d : UInt8) : Nat := ((a.toNat * 256 + b.toNat) * 256 + c.toNat) * 256 + d.toNat

/-- The length in the header that the bytes begin with, and what is behind it. -/
def frameHeader : Bytes → Option (Nat × Bytes)
  | stream :: x :: y :: z :: a :: b :: c :: d :: rest =>
    if stream.toNat ≤ 2 ∧ x = 0 ∧ y = 0 ∧ z = 0 then some (bigEndian a b c d, rest) else none
  | _ => none

/-- The payloads, and whether something is missing. Each round takes a header, so that rounds as many as there are bytes are
enough. -/
def demuxFrames : Nat → Bytes → Bytes × Bool
  | 0, _ => ([], false)
  | n + 1, body =>
    if body = [] then ([], false)
    else
      match frameHeader body with
      | none => ([], true)
      | some (len, rest) =>
        let (out, truncated) := demuxFrames n (rest.drop len)
        (rest.take len ++ out, rest.length < len || truncated)

/-- A body that does not start with a valid header is a TTY stream and is returned as it is. -/
def demux (body : Bytes) : LogText :=
  if (frameHeader body).isSome then
    let (out, truncated) := demuxFrames body.length body
    { text := String.ofList (lossy out), truncated }
  else { text := String.ofList (lossy body), truncated := false }

end Harpoon.Docker
