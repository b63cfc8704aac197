import Harpoon.Wire.Utf8Errors

/-!
# Streams of text

Two parts of the product decode bytes as they come: the output of a build (`decode_chunk` of `buildx_run.rs`) and that of a shell
(`decode_output` of `shell.rs`). Both ask where the bytes stop being text, and let the start of a character wait for the next chunk.
What waits when the stream ends is decoded as it is.
-/

namespace Harpoon.Streams

open Wire

/-! ## The output of a build -/

/-- The loop of `decode_chunk`: what it has put out, and the bytes that it still has. -/
def decodeLoop (out : String) (carry : Bytes) : String × Bytes :=
  match _ : utf8Error carry with
  | none => (out ++ validText carry, [])
  | some e =>
    match _ : e.errorLen with
    -- An incomplete character at the end waits for the next chunk.
    | none => (out ++ validText (carry.take e.validUpTo), carry.drop e.validUpTo)
    | some n => decodeLoop (out ++ validText (carry.take e.validUpTo) ++ "\ufffd") (carry.drop (e.validUpTo + n))
termination_by carry.length
decreasing_by exact (utf8Error_some (by assumption)).shorter (by assumption)

/-- `decode_chunk`: the text of one more chunk, and what waits behind it. -/
def decodeChunk (carry bytes : Bytes) : String × Bytes := decodeLoop "" (carry ++ bytes)

/-- The texts that the build runner passes on, for the chunks that it reads. -/
def buildTexts : (carry : Bytes) → List Bytes → List String
  | carry, [] => if carry.isEmpty then [] else [utf8Lossy carry]
  | carry, chunk :: chunks =>
    let text := (decodeChunk carry chunk).1
    let later := buildTexts (decodeChunk carry chunk).2 chunks
    if text.isEmpty then later else text :: later

/-! ## The output of a shell -/

/-- The loop of `decode_output`. It would stop the program at a prefix that is no text. -/
def outputLoop (text : String) (rest : Bytes) : Option (String × Bytes) :=
  match _ : utf8Error rest with
  | none => some (text ++ validText rest, [])
  | some e =>
    match fromUtf8 (rest.take e.validUpTo) with
    | none => none
    | some valid =>
      match _ : e.errorLen with
      | some n => outputLoop (text ++ valid ++ "\ufffd") (rest.drop (e.validUpTo + n))
      | none => some (text ++ valid, rest.drop e.validUpTo)
termination_by rest.length
decreasing_by exact (utf8Error_some (by assumption)).shorter (by assumption)

def decodeOutput (pending chunk : Bytes) : Option (String × Bytes) := outputLoop "" (pending ++ chunk)

/-- The data of the output events of a session, for the reads of its terminal. -/
def sessionTexts : (pending : Bytes) → List Bytes → Option (List String)
  | pending, [] => some (if pending.isEmpty then [] else [utf8Lossy pending])
  | pending, chunk :: chunks => do
    let (data, pending) ← decodeOutput pending chunk
    let later ← sessionTexts pending chunks
    return if data.isEmpty then later else data :: later

end Harpoon.Streams
