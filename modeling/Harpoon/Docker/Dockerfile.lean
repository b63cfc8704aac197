import Harpoon.Deploy.Envvars
import Harpoon.Git.Url

/-!
# The base images a Dockerfile needs

Read from its text before any build (`dockerfile.rs`): builds use local images only, so an external
frontend and a variable base image are refused.
-/

namespace Harpoon.Docker.Dockerfile

open Git (isWhitespace)

inductive DockerfileProblem where
  | externalFrontend (line : String)
  | variableImage (line : String)
  | empty
  deriving DecidableEq, Repr

def DockerfileProblem.display : DockerfileProblem → String
  | .externalFrontend l => s!"the Dockerfile requests an external frontend ({Deploy.Envvars.debugStr l}); Harpoon builds with the built-in frontend only, because the frontend image would have to be pulled"
  | .variableImage l => s!"the base image in {Deploy.Envvars.debugStr l} is a variable, so Harpoon cannot confirm it exists locally; write the image name literally"
  | .empty => "the Dockerfile has no FROM instruction"

def trimChars (cs : List Char) : List Char :=
  ((cs.dropWhile isWhitespace).reverse.dropWhile isWhitespace).reverse

/-- The words of a line, given the word that is being read. -/
def splitWords : (word : List Char) → List Char → List String
  | word, [] => if word.isEmpty then [] else [String.ofList word]
  | word, c :: cs =>
    if isWhitespace c then
      if word.isEmpty then splitWords [] cs else String.ofList word :: splitWords [] cs
    else splitWords (word ++ [c]) cs

def asciiLower (s : String) : String := String.ofList (s.toList.map Char.toLower)

def asciiUpper (s : String) : String := String.ofList (s.toList.map Char.toUpper)

/-- Add to a set that is kept in order. -/
def insertName (name : String) : List String → List String
  | [] => [name]
  | other :: names =>
    if name = other then other :: names
    else if name < other then name :: other :: names
    else other :: insertName name names

structure Reading where
  stages : List String
  images : List String
  seenFrom : Bool
  inDirectives : Bool
  stageCount : Nat
  deriving DecidableEq, Repr

/-- A name with a variable in it. -/
def isVariable (name : String) : Bool := name.toList.contains '$'

/-- `FROM`, given its words without the options. -/
def readFrom (line : String) (rest : List String) (r : Reading) : Except DockerfileProblem Reading :=
  match rest with
  | [] => .ok { r with seenFrom := true }
  | image :: more =>
    if isVariable image then .error (.variableImage line)
    else
      let local_ := asciiLower image = "scratch" || r.stages.contains (asciiLower image)
      let stages := match more with
        | as :: name :: _ => if asciiLower as = "as" then insertName (asciiLower name) r.stages else r.stages
        | _ => r.stages
      .ok
        { r with
          seenFrom := true
          images := if local_ then r.images else insertName image r.images
          stages := stages
          stageCount := r.stageCount + 1 }

/-- The words after `COPY` and `ADD`. -/
def readCopy (line : String) : List String → Reading → Except DockerfileProblem Reading
  | [], r => .ok r
  | word :: words, r =>
    match Wire.stripPrefix "--from=" word with
    | none => readCopy line words r
    | some source =>
      if isVariable source then .error (.variableImage line)
      else
        let isStage := r.stages.contains (asciiLower source) ||
          (Wire.parseUnsigned 10 (UInt64.size - 1) source).any (· < r.stageCount)
        readCopy line words (if isStage then r else { r with images := insertName source r.images })

def readInstruction (line : String) (r : Reading) : Except DockerfileProblem Reading :=
  match splitWords [] line.toList with
  | [] => .ok r
  | op :: words =>
    if asciiUpper op = "FROM" then
      readFrom line (words.filter fun w => (Wire.stripPrefix "--" w).isNone) r
    else if asciiUpper op = "COPY" ∨ asciiUpper op = "ADD" then readCopy line words r
    else .ok r

def readLine (r : Reading) (raw : String) : Except DockerfileProblem Reading :=
  match trimChars raw.toList with
  | [] => .ok { r with inDirectives := false }
  | '#' :: comment =>
    let directive := ((trimChars comment).map Char.toLower).filter (· ≠ ' ')
    if r.inDirectives && "syntax=".toList.isPrefixOf directive then
      .error (.externalFrontend (String.ofList (trimChars raw.toList)))
    else .ok r
  | line => readInstruction (String.ofList line) { r with inDirectives := false }

/-- The images outside the Dockerfile that a build of it needs, in order. -/
def requiredImages (text : String) : Except DockerfileProblem (List String) := do
  let r ← (Wire.fields '\n' text).foldlM readLine ⟨[], [], false, true, 0⟩
  if r.seenFrom then return r.images else throw .empty

example : (requiredImages "# syntax=docker/dockerfile:1\nFROM alpine").toOption = none := by decide

example : (requiredImages "FROM rust AS build\nFROM alpine\nCOPY --from=build /a /b\nCOPY --from=tools /c /d").toOption =
    some ["alpine", "rust", "tools"] := by decide +kernel

end Harpoon.Docker.Dockerfile
