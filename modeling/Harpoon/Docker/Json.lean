import Harpoon.Wire.Double

/-!
# JSON

The small reader and writer of JSON for Docker's API (`json.rs`). It reads by what is left of the text: all that it looks for is
ASCII, so that it goes by characters as the source goes by bytes, and an error names its place in bytes.
-/

namespace Harpoon.Docker

open Wire (Double)

inductive Json where
  | null
  | bool (b : Bool)
  | num (x : Double)
  | str (s : String)
  | arr (items : List Json)
  | obj (members : List (String × Json))
  deriving Repr

namespace Json

/-! ## Looking into a value -/

/-- The first member of the name. -/
def get (key : String) : Json → Option Json
  | .obj members => (members.find? fun m => m.1 = key).map (·.2)
  | _ => none

def asStr : Json → Option String
  | .str s => some s
  | _ => none

def asBool : Json → Option Bool
  | .bool b => some b
  | _ => none

/-- Below this magnitude a number is written and taken as an integer. -/
def integerBound : Nat := 9000000000000000

/-- An integer, as an `i64`. -/
def integer? (x : Double) : Option Int := x.toInt?.filter fun n => n.natAbs < integerBound

def asInt : Json → Option Int
  | .num x => integer? x
  | _ => none

def asArray : Json → Option (List Json)
  | .arr items => some items
  | _ => none

def asObject : Json → Option (List (String × Json))
  | .obj members => some members
  | _ => none

/-! ## Writing -/

/-- A character of a string, as it is written. -/
def escaped (c : Char) : List Char :=
  if c = '"' then ['\\', '"']
  else if c = '\\' then ['\\', '\\']
  else if c = '\n' then ['\\', 'n']
  else if c = '\r' then ['\\', 'r']
  else if c = '\t' then ['\\', 't']
  else if c.toNat < 0x20 then '\\' :: 'u' :: (Wire.hexPadded 4 c.toNat).toList
  else [c]

def writeStr (s : String) : List Char := '"' :: s.toList.flatMap escaped ++ ['"']

/-- How an integer is displayed. -/
def decimal (n : Int) : List Char := if n < 0 then '-' :: Nat.toDigits 10 n.natAbs else Nat.toDigits 10 n.natAbs

section

/- How a double that is no such integer is displayed. -/
variable (display : Double → String)

mutual

def write : Json → List Char
  | .null => ['n', 'u', 'l', 'l']
  | .bool true => ['t', 'r', 'u', 'e']
  | .bool false => ['f', 'a', 'l', 's', 'e']
  | .num x =>
    match integer? x with
    | some n => decimal n
    | none => (display x).toList
  | .str s => writeStr s
  | .arr items => '[' :: writeItems items ++ [']']
  | .obj members => '{' :: writeMembers members ++ ['}']

def writeItems : List Json → List Char
  | [] => []
  | [v] => write v
  | v :: vs => write v ++ ',' :: writeItems vs

def writeMembers : List (String × Json) → List Char
  | [] => []
  | [(k, v)] => writeStr k ++ ':' :: write v
  | (k, v) :: ms => writeStr k ++ ':' :: write v ++ ',' :: writeMembers ms

end

/-- Compact, with the members in their order. -/
def toJson (v : Json) : String := String.ofList (write display v)

end

end Json

/-! ## Reading -/

namespace JsonText

def maxDepth : Nat := 32

/-- On what is left of the text. An error comes with what was left where it was found. -/
abbrev Parser (α : Type) := StateT (List Char) (Except (String × List Char)) α

def err {α : Type} (m : String) : Parser α := fun rest => .error (m, rest)

def isWs (c : Char) : Bool := c = ' ' || c = '\t' || c = '\n' || c = '\r'

def ws : Parser Unit := modify (·.dropWhile isWs)

def eat (c : Char) : Parser Unit := do
  match ← get with
  | d :: cs => if d = c then set cs else err s!"expected '{c}'"
  | [] => err s!"expected '{c}'"

def lit (word : List Char) (v : Json) : Parser Json := do
  let rest ← get
  if word.isPrefixOf rest then
    set (rest.drop word.length)
    return v
  else err "unexpected token"

/-- The digits here. -/
def digits : Parser (List Char) := do
  let rest ← get
  set (rest.dropWhile Char.isDigit)
  return rest.takeWhile Char.isDigit

/-- At least one digit. -/
def someDigits : Parser (List Char) := do
  let ds ← digits
  if ds = [] then err "malformed number" else return ds

def sign (c : Char) : Parser Bool := do
  match ← get with
  | d :: cs =>
    if d = c then
      set cs
      return true
    else return false
  | [] => return false

def fraction : Parser (List Char) := do
  if ← sign '.' then someDigits else return []

/-- The value of digits. -/
def valueOf (ds : List Char) : Nat := (Wire.readDigits 10 0 ds).getD 0

def exponent : Parser Int := do
  match ← get with
  | c :: cs =>
    if c = 'e' ∨ c = 'E' then
      set cs
      if ← sign '-' then
        let ds ← someDigits
        return -(valueOf ds)
      else
        let _ ← sign '+'
        let ds ← someDigits
        return valueOf ds
    else return 0
  | [] => return 0

def number : Parser Json := do
  let negative ← sign '-'
  let int ← someDigits
  let frac ← fraction
  let e ← exponent
  -- What was read is a number for `f64` as well; it is refused where it is beyond all doubles.
  match Double.ofDecimal negative (valueOf (int ++ frac)) (e - frac.length) with
  | some x => return .num x
  | none => err "malformed number"

/-- How many bytes the characters are. -/
def bytes (cs : List Char) : Nat := (cs.map Char.utf8Size).foldl (· + ·) 0

/-- The value of four hexadecimal digits, as `u32` reads them: with a sign as well. -/
def hex4 : Parser Nat := do
  match ← get with
  | a :: b :: c :: d :: cs =>
    match Wire.parseUnsigned 16 0xFFFFFFFF (String.ofList [a, b, c, d]) with
    | some n =>
      set cs
      return n
    | none => err "bad \\u escape"
  | rest => err (if 4 ≤ bytes rest then "bad \\u escape" else "short \\u escape")

def isHigh (n : Nat) : Bool := 0xD800 ≤ n && n < 0xDC00

def isLow (n : Nat) : Bool := 0xDC00 ≤ n && n < 0xE000

def charFrom (n : Nat) : Parser Char := if n.isValidChar then return Char.ofNat n else err "bad code point"

/-- The number that two surrogates are for. -/
def combined (hi lo : Nat) : Nat := 0x10000 + (hi - 0xD800) * 1024 + (lo - 0xDC00)

/-- A character by its number, or by two numbers. -/
def unit : Parser Char := do
  let hi ← hex4
  if isHigh hi then
    match ← get with
    | a :: b :: cs =>
      if a = '\\' ∧ b = 'u' then
        set cs
        let lo ← hex4
        if isLow lo then charFrom (combined hi lo) else err "bad surrogate pair"
      else err "lone surrogate"
    | _ => err "lone surrogate"
  else if isLow hi then err "lone surrogate"
  else charFrom hi

/-- The characters with a letter of their own. -/
def escapes : List (Char × Char) :=
  [('"', '"'), ('\\', '\\'), ('/', '/'), ('b', '\x08'), ('f', '\x0c'), ('n', '\n'), ('r', '\r'), ('t', '\t')]

/-- Behind a backslash. -/
def escape : Parser Char := do
  match ← get with
  | [] => err "unterminated escape"
  | c :: cs =>
    set cs
    if c = 'u' then unit
    else
      match escapes.find? (·.1 = c) with
      | some e => return e.2
      | none => err "unknown escape"

/-- The rest of a string. Each round takes a character at least, so that rounds as many as there are characters are enough. -/
def chars : Nat → Parser (List Char)
  | 0 => err "unterminated string"
  | n + 1 => do
    match ← get with
    | [] => err "unterminated string"
    | c :: cs =>
      if c = '"' then
        set cs
        return []
      else if c = '\\' then
        set cs
        let d ← escape
        return d :: (← chars n)
      else if c.toNat < 0x20 then err "control character in string"
      else
        set cs
        return c :: (← chars n)

def string : Parser String := do
  eat '"'
  let rest ← get
  return String.ofList (← chars (rest.length + 1))

/-- The items of a list up to its end, each read by `item`. -/
def series {α : Type} (item : Parser α) (close : Char) : Nat → Parser (List α)
  | 0 => err s!"expected ',' or '{close}'"
  | n + 1 => do
    ws
    let v ← item
    ws
    match ← get with
    | c :: cs =>
      if c = ',' then
        set cs
        return v :: (← series item close n)
      else if c = close then
        set cs
        return [v]
      else err s!"expected ',' or '{close}'"
    | [] => err s!"expected ',' or '{close}'"

/-- A list in brackets, which may be empty. -/
def bracketed {α : Type} (item : Parser α) (close : Char) : Parser (List α) := do
  ws
  match ← get with
  | c :: cs =>
    if c = close then
      set cs
      return []
    else series item close (cs.length + 1)
  | [] => series item close 1

def member (value : Parser Json) : Parser (String × Json) := do
  match ← get with
  | '"' :: _ =>
    let k ← string
    ws
    eat ':'
    ws
    return (k, ← value)
  | _ => err "expected a string key"

/-- A value, with so many levels to go. -/
def value : Nat → Parser Json
  | 0 => err "nesting too deep"
  | levels + 1 => do
    match ← get with
    | [] => err "unexpected end of input"
    | c :: cs =>
      if c = 'n' then lit ['n', 'u', 'l', 'l'] .null
      else if c = 't' then lit ['t', 'r', 'u', 'e'] (.bool true)
      else if c = 'f' then lit ['f', 'a', 'l', 's', 'e'] (.bool false)
      else if c = '"' then return .str (← string)
      else if c = '[' then
        set cs
        return .arr (← bracketed (value levels) ']')
      else if c = '{' then
        set cs
        return .obj (← bracketed (member (value levels)) '}')
      else if c = '-' ∨ c.isDigit then number
      else err "unexpected character"

def text : Parser Json := do
  ws
  let v ← value (maxDepth + 1)
  ws
  if (← get) = [] then return v else err "trailing characters after the value"

end JsonText

def Json.parse (s : String) : Except String Json :=
  match JsonText.text s.toList with
  | .ok (v, _) => .ok v
  | .error (m, rest) => .error s!"{m} (at byte {JsonText.bytes s.toList - JsonText.bytes rest})"

end Harpoon.Docker
