/-!
# Words of a shell, and options of ssh

How a POSIX shell takes a command apart into words, for commands that are words and quotes and nothing else: where a
character may have another meaning there is no answer. And how ssh takes the text of an option apart into a keyword and
its arguments.
-/

namespace Harpoon.Shell

/-! ## The shell -/

inductive Quoting where
  | bare
  /-- Behind a backslash. -/
  | escaped
  /-- Between single quotes. -/
  | single
  /-- Between double quotes. -/
  | double
  /-- Behind a backslash between double quotes. -/
  | doubleEscaped
  /-- Behind a number sign. -/
  | comment
  deriving DecidableEq, Repr

/-- A command that is taken apart. -/
structure Reading where
  /-- The words that have ended, the last one first. -/
  words : List (List Char)
  /-- The word that has begun. -/
  word : Option (List Char)
  quoting : Quoting
  deriving DecidableEq, Repr

def Reading.start : Reading := ⟨[], none, .bare⟩

/-- The word goes on. -/
def Reading.add (r : Reading) (cs : List Char) (quoting : Quoting) : Reading := ⟨r.words, some (r.word.getD [] ++ cs), quoting⟩

/-- The word ends. -/
def Reading.done (r : Reading) (quoting : Quoting) : Reading := ⟨r.word.toList ++ r.words, none, quoting⟩

/-- A character that means itself outside of quotes. -/
def isOrdinary (c : Char) : Bool := c.isAlphanum || ['/', '_', '.', '-', '=', ',', ':', '+', '@'].contains c

def bareStep (r : Reading) (c : Char) : Option Reading :=
  if c = ' ' ∨ c = '\t' then some (r.done .bare)
  else if c = '\'' then some (r.add [] .single)
  else if c = '"' then some (r.add [] .double)
  else if c = '\\' then some (r.add [] .escaped)
  else if c = '#' ∧ r.word = none then some { r with quoting := .comment }
  else if isOrdinary c then some (r.add [c] .bare)
  else none

/-- One more character. -/
def step (r : Reading) (c : Char) : Option Reading :=
  match r.quoting with
  | .bare => bareStep r c
  | .escaped => if c = '\n' then none else some (r.add [c] .bare)
  | .single => some (if c = '\'' then r.add [] .bare else r.add [c] .single)
  | .double =>
    if c = '"' then some (r.add [] .bare)
    else if c = '\\' then some (r.add [] .doubleEscaped)
    else if c = '$' ∨ c = '`' then none
    else some (r.add [c] .double)
  | .doubleEscaped =>
    if c = '\n' then none
    else if ['$', '`', '"', '\\'].contains c then some (r.add [c] .double)
    else some (r.add ['\\', c] .double)
  | .comment => if c = '\n' then none else some r

/-- No quote is open, and the command does not begin with an assignment. -/
def finish (r : Reading) : Option (List String) :=
  if r.quoting = .bare ∨ r.quoting = .comment then
    let words := (r.done .bare).words.reverse
    if words.head?.any (·.contains '=') then none else some (words.map String.ofList)
  else none

/-- The words of a command. -/
def words (command : String) : Option (List String) := (command.toList.foldlM step .start).bind finish

/-! ## Options of ssh -/

namespace Ssh

def isBlank (c : Char) : Bool := [' ', '\t', '\r', '\n'].contains c

/-- Arguments that are taken apart. -/
structure Arguments where
  /-- The arguments that have ended, the last one first. -/
  ended : List (List Char)
  /-- The argument that has begun. -/
  begun : Option (List Char)
  /-- The quote that is open. -/
  quote : Option Char
  /-- Behind a backslash. -/
  escape : Bool
  comment : Bool
  deriving DecidableEq, Repr

/-- A backslash stands for itself unless a quote or another backslash follows, or a blank outside of quotes. -/
def escapes (quote : Option Char) (c : Char) : Bool := c = '\'' || c = '"' || c = '\\' || quote.isNone && c = ' '

/-- One more character, of an argument that has begun. -/
def inside (a : Arguments) (word : List Char) (c : Char) : Arguments :=
  if c = '\\' then { a with begun := some word, escape := true }
  else if a.quote = none ∧ (c = ' ' ∨ c = '\t') then { a with ended := word :: a.ended, begun := none }
  else if a.quote = none ∧ (c = '"' ∨ c = '\'') then { a with begun := some word, quote := some c }
  else if a.quote = some c then { a with begun := some word, quote := none }
  else { a with begun := some (word ++ [c]) }

def argumentStep (a : Arguments) (c : Char) : Arguments :=
  if a.comment then a
  else if a.escape then
    if escapes a.quote c then { a with begun := some (a.begun.getD [] ++ [c]), escape := false }
    else inside { a with escape := false } (a.begun.getD [] ++ ['\\']) c
  else
    match a.begun with
    | some word => inside a word c
    | none => if c = ' ' ∨ c = '\t' then a else if c = '#' then { a with comment := true } else inside a [] c

/-- The arguments of an option, up to a comment; none where a quote stays open. -/
def arguments (s : List Char) : Option (List String) :=
  let a := s.foldl argumentStep ⟨[], none, none, false, false⟩
  let last := a.begun.map (· ++ if a.escape then ['\\'] else [])
  if a.quote = none then some ((last.toList ++ a.ended).reverse.map String.ofList) else none

/-- A blank, or a form feed, at the end of a line. -/
def isTrailing (c : Char) : Bool := isBlank c || c = '\x0c'

/-- A character of a keyword. -/
def isKeyword (c : Char) : Bool := !isBlank c && c ≠ '=' && c ≠ '"'

/-- What separates a keyword from its arguments: blanks, with at most one equals sign among them. -/
def separated (s : List Char) : List Char :=
  let s := s.dropWhile isBlank
  if s.head? = some '=' then (s.drop 1).dropWhile isBlank else s

/-- The text of an option: its keyword, which nothing stands in front of, and at least one argument. -/
def option (line : String) : Option (String × List String) :=
  let line := (line.toList.reverse.dropWhile isTrailing).reverse
  let keyword := line.takeWhile isKeyword
  let rest := line.dropWhile isKeyword
  if keyword = [] ∨ keyword.head? = some '#' ∨ rest.head? = some '"' ∨ separated rest = [] then none
  else (arguments (separated rest)).map fun arguments => (String.ofList keyword, arguments)

end Ssh

end Harpoon.Shell
