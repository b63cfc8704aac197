import Harpoon.Docker.Dockerfile
import Harpoon.Docker.Json

/-!
# What a build of a Dockerfile refers to

Our own statement of how BuildKit's built-in frontend reads a Dockerfile: a byte-order mark and the parser directives first, then
instructions over lines that continue, with comments between them and here-documents after them. It says which images a build refers
to, and nothing for a text that the frontend refuses; where a text has faults that are not looked at here, it is taken at its word.

`expand` is what the frontend makes of the word that names a base: quotes go, and variables get their values.
-/

namespace Harpoon.Docker.Frontend

open Git (isWhitespace)
open Dockerfile (asciiLower trimChars)

def isBlank (c : Char) : Bool := c = ' ' || c = '\t' || c = '\r' || c = Char.ofNat 11 || c = Char.ofNat 12

def isQuote (c : Char) : Bool := c = '"' || c = Char.ofNat 39

def trimStart (cs : List Char) : List Char := cs.dropWhile isWhitespace

/-! ## Lines -/

/-- The text without its byte-order mark. -/
def dropMark : List Char → List Char
  | [] => []
  | c :: cs => if c = Char.ofNat 0xFEFF then cs else c :: cs

def lines (text : String) : List (List Char) :=
  (Wire.fields '\n' (String.ofList (dropMark text.toList))).map fun l => (l.toList.reverse.dropWhile (· = '\r')).reverse

def isComment (line : List Char) : Bool := (trimStart line).head? = some '#'

/-- Between the parts of a directive. -/
def isSpace (c : Char) : Bool := c = ' ' || c = '\t' || c = '\r' || c = Char.ofNat 12

/-- `#key=value` -/
def directive : List Char → Option (String × String)
  | '#' :: cs =>
    let key := (cs.dropWhile isSpace).takeWhile Char.isAlphanum
    match ((cs.dropWhile isSpace).dropWhile Char.isAlphanum).dropWhile isSpace with
    | '=' :: rest =>
      let value := ((rest.dropWhile isSpace).reverse.dropWhile isSpace).reverse
      if key.head?.any Char.isAlpha && !value.isEmpty then some (asciiLower (String.ofList key), String.ofList value) else none
    | _ => none
  | _ => none

/-- The parser directives: the first lines, as long as each is one. -/
def directives : List (List Char) → List (String × String)
  | [] => []
  | line :: lines =>
    match directive line with
    | some d => if ["syntax", "escape", "check"].contains d.1 then d :: directives lines else []
    | none => []

/-- The character that continues a line. -/
def escapeOf (ds : List (String × String)) : Option Char :=
  match ds.lookup "escape" with
  | none => some '\\'
  | some "\\" => some '\\'
  | some v => if v.toList = [Char.ofNat 96] then some (Char.ofNat 96) else none

/-- The line without the character that continues it, if it continues. -/
def continued (escape : Char) (line : List Char) : Option (List Char) :=
  match line.reverse.dropWhile fun c => c = ' ' || c = '\t' with
  | [] => none
  | c :: before => if c = escape && before.head? != some escape then some before.reverse else none

/-! ## Words -/

/-- The words of an instruction, given the word that is being read. -/
def words : (word : List Char) → List Char → List String
  | word, [] => if word.isEmpty then [] else [String.ofList word]
  | word, c :: cs =>
    if isBlank c then
      if word.isEmpty then words [] cs else String.ofList word :: words [] cs
    else words (word ++ [c]) cs

/-- The words of a shell as they are written. A blank in quotes or behind a backslash is of the word. -/
def shellWords : (quote : Option Char) → (escaped : Bool) → (word : List Char) → List Char → List (List Char)
  | _, _, word, [] => if word.isEmpty then [] else [word]
  | quote, true, word, c :: cs => shellWords quote false (word ++ [c]) cs
  | quote, false, word, c :: cs =>
    if c = '\\' && quote != some (Char.ofNat 39) then shellWords quote true (word ++ [c]) cs
    else
      match quote with
      | some q => shellWords (if c = q then none else quote) false (word ++ [c]) cs
      | none =>
        if isQuote c then shellWords (some c) false (word ++ [c]) cs
        else if isBlank c then
          if word.isEmpty then shellWords none false [] cs else word :: shellWords none false [] cs
        else shellWords none false (word ++ [c]) cs

/-- An option of an instruction without its quotes and escapes, and what comes after it. -/
def flagWord : (quote : Option Char) → (word : List Char) → List Char → List Char × List Char
  | _, word, [] => (word, [])
  | _, word, ['\\'] => (word, [])
  | quote, word, '\\' :: c :: cs => flagWord quote (word ++ [c]) cs
  | quote, word, c :: cs =>
    match quote with
    | some q => if c = q then flagWord none word cs else flagWord (some q) (word ++ [c]) cs
    | none =>
      if isQuote c then flagWord (some c) word cs
      else if isWhitespace c then (word, cs)
      else flagWord none (word ++ [c]) cs

/-- The options in front of the arguments, at most so many, and the arguments. -/
def options : Nat → List Char → List String × List Char
  | 0, cs => ([], cs)
  | n + 1, cs =>
    if "--".toList.isPrefixOf (trimStart cs) then
      let (word, rest) := flagWord none [] (trimStart cs)
      if word = "--".toList then ([], rest)
      else (String.ofList word :: (options n rest).1, (options n rest).2)
    else ([], trimStart cs)

/-! ## Instructions -/

structure Instruction where
  command : String
  flags : List String
  args : List String
  deriving DecidableEq, Repr

def Instruction.ofText (text : List Char) : Instruction :=
  let rest := (trimStart text).dropWhile fun c => !isBlank c
  let split := options rest.length rest
  ⟨asciiLower (String.ofList ((trimStart text).takeWhile fun c => !isBlank c)), split.1, words [] split.2⟩

/-- A here-document: the line that ends it, and whether tabs in front of that line do not count. -/
structure Document where
  chomp : Bool
  name : List Char
  deriving DecidableEq, Repr

/-- `<<NAME` or `<<-NAME`, perhaps after the number of a file. -/
def document (word : List Char) : Option Document :=
  match word.dropWhile Char.isDigit with
  | '<' :: '<' :: '-' :: name => if name.isEmpty || name.contains '<' then none else some ⟨true, name.filter fun c => !isQuote c⟩
  | '<' :: '<' :: name => if name.isEmpty || name.contains '<' then none else some ⟨false, name.filter fun c => !isQuote c⟩
  | _ => none

/-- The arguments are a list of texts. -/
def isJson (rest : List Char) : Bool :=
  match Json.parse (String.ofList rest) with
  | .ok (.arr items) => items.all fun v => v.asStr.isSome
  | _ => false

/-- The here-documents that come after an instruction, or after the one that `ONBUILD` keeps for later. -/
def documents (text : List Char) : List Document :=
  let rest (text : List Char) := (options text.length ((trimStart text).dropWhile fun c => !isBlank c)).2
  let kept := if (Instruction.ofText text).command = "onbuild" then rest text else text
  if ["run", "copy", "add"].contains (Instruction.ofText kept).command && !isJson (rest kept) then
    (shellWords none false [] text).filterMap document
  else []

def Document.ends (d : Document) (line : List Char) : Bool := (if d.chomp then line.dropWhile (· = '\t') else line) = d.name

/-- Where the frontend is: between two instructions, in one that continues, or in here-documents. -/
inductive Place where
  | between
  | within (text : List Char)
  | inside (first : Document) (more : List Document)
  deriving DecidableEq, Repr

def Place.ofDocuments : List Document → Place
  | [] => .between
  | first :: more => .inside first more

/-- The texts of the instructions; none if a here-document does not end. -/
def instructions (escape : Char) : Place → List (List Char) → Option (List (List Char))
  | .between, [] => some []
  | .within text, [] => if documents text = [] then some [text] else none
  | .inside _ _, [] => none
  | .between, line :: lines =>
    if isComment line || (trimStart line).isEmpty then instructions escape .between lines
    else
      match continued escape (trimStart line) with
      | some part => instructions escape (.within part) lines
      | none => (trimStart line :: ·) <$> instructions escape (.ofDocuments (documents (trimStart line))) lines
  | .within text, line :: lines =>
    -- Comments and empty lines do not end an instruction that continues.
    if isComment line || (trimStart line).isEmpty then instructions escape (.within text) lines
    else
      match continued escape line with
      | some part => instructions escape (.within (text ++ part)) lines
      | none => ((text ++ line) :: ·) <$> instructions escape (.ofDocuments (documents (text ++ line))) lines
  | .inside first more, line :: lines =>
    instructions escape (if first.ends line then .ofDocuments more else .inside first more) lines

/-! ## References -/

def commands : List String :=
  ["add", "arg", "cmd", "copy", "entrypoint", "env", "expose", "from", "healthcheck", "label", "maintainer", "onbuild", "run",
    "shell",
    "stopsignal", "user", "volume", "workdir"]

/-- The values of an option. -/
def valuesOf (name : String) (flags : List String) : List String := flags.filterMap (Wire.stripPrefix ("--" ++ name ++ "="))

def isStageName (name : String) : Bool :=
  name.toList.head?.any (fun c => 'a' ≤ c && c ≤ 'z') &&
    name.toList.all fun c => 'a' ≤ c && c ≤ 'z' || c.isDigit || c = '-' || c = '_' || c = '.'

/-- The base of a stage, and the names under which later ones find the stage. -/
def stageOf : List String → Option (String × List String)
  | [base] => some (base, [])
  | [base, as_, name] =>
    if asciiLower as_ = "as" && isStageName (asciiLower name) then some (base, [asciiLower name]) else none
  | _ => none

/-- An image, unless it is a stage or nothing at all. -/
def external (stages : List String) (name : String) : List String :=
  if stages.contains (asciiLower name) || name = "scratch" then [] else [name]

/-- The image or stage that a mount is from. -/
def mountSource (mount : String) : List String :=
  (Wire.fields ',' mount).filterMap fun f =>
    match Wire.splitOnce '=' f with
    | some (key, value) => if asciiLower key = "from" then some value else none
    | none => none

variable (expand : String → Option String)

/-- The images that the instructions refer to, after stages of these names; none for what the frontend refuses. -/
def imagesOf (started : Bool) (stages : List String) : List Instruction → Option (List String)
  | [] => some []
  | i :: is =>
    if !commands.contains i.command || !started && i.command ≠ "from" && i.command ≠ "arg" then none
    else if i.command = "from" then do
      let (word, names) ← stageOf i.args
      let base ← expand word
      return external stages base ++ (← imagesOf true (names ++ stages) is)
    else if i.command = "copy" then
      -- A number is that of a stage.
      (((valuesOf "from" i.flags).filter fun s => (Wire.parseSigned 9223372036854775807 s).isNone).flatMap
        (external stages) ++ ·) <$>
        imagesOf started stages is
    else if i.command = "run" then
      if ((valuesOf "mount" i.flags).flatMap mountSource).any fun s => s.toList.contains '$' then none
      else (((valuesOf "mount" i.flags).flatMap mountSource).flatMap (external stages) ++ ·) <$> imagesOf started stages is
    else imagesOf started stages is

/-- The frontend that a build asks for, by the first word of a syntax directive. -/
def frontends (ds : List (String × String)) : List String :=
  (ds.filter fun d => d.1 = "syntax").flatMap fun d => (words [] d.2.toList).take 1

/-- The images that a build of the text refers to, with the image of its frontend. -/
def references (text : String) : List String :=
  let ds := directives ((lines text).map trimStart)
  frontends (directives (lines text)) ++
    (do
      let escape ← if (ds.map Prod.fst).Nodup then escapeOf ds else none
      imagesOf expand false [] ((← instructions escape .between (lines text)).map Instruction.ofText)).getD []

end Harpoon.Docker.Frontend
