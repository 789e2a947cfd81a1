import MeshTasks.Structured.Settings

/-!
# Settings as text

Settings are written in TOML, one `name = value` to a line. Of the values of
TOML only whole numbers and truth values can be settings, so a text with a
table, a list, a string, a date or a dotted name is refused like a text that is
not TOML at all, and the reader knows no more than lines of this form, blank
lines and comments.
-/

namespace MeshTasks

namespace SettingsText

/-- The lines of a text. A line feed ends a line, and so does a carriage return
before it. -/
def lines : List Char → List (List Char)
  | [] => [[]]
  | '\n' :: rest => [] :: lines rest
  | '\r' :: '\n' :: rest => [] :: lines rest
  | char :: rest =>
      match lines rest with
      | [] => [[char]]
      | line :: others => (char :: line) :: others

def isBlank (char : Char) : Bool :=
  decide (char = ' ') || decide (char = '\t')

/-- Blanks are space and tab; neither has a meaning between the parts of a
line. -/
def skipBlanks (chars : List Char) : List Char :=
  chars.dropWhile isBlank

/-- Whether a character may stand in a comment or a quoted name: no control
character but tab. -/
def isPrintable (char : Char) : Bool :=
  decide (char = '\t') || (decide (32 ≤ char.toNat) && decide (char.toNat ≠ 127))

/-- Whether a line may end here, with or without a comment. -/
def isLineEnd (chars : List Char) : Bool :=
  match skipBlanks chars with
  | [] => true
  | '#' :: comment => comment.all isPrintable
  | _ => false

/-- The value of a digit in a base up to sixteen. -/
def digit? (base : Nat) (char : Char) : Option Nat :=
  let code := char.toNat
  let value :=
    if 48 ≤ code ∧ code ≤ 57 then code - 48
    else if 97 ≤ code ∧ code ≤ 102 then code - 87
    else if 65 ≤ code ∧ code ≤ 70 then code - 55
    else base
  if value < base then some value else none

/-- The values of digits that may be parted by single underscores. -/
def digits? (base : Nat) : List Char → Option (List Nat)
  | [] => none
  | [char] => (digit? base char).map fun value => [value]
  | char :: '_' :: rest => do return (← digit? base char) :: (← digits? base rest)
  | char :: rest => do return (← digit? base char) :: (← digits? base rest)

/-- The number that digits denote, the first being the greatest. -/
def ofDigits (base : Nat) (values : List Nat) : Nat :=
  values.foldl (fun total value => total * base + value) 0

/-- A number without a sign. Only a decimal number may not begin with a zero,
unless it is zero. -/
def magnitude? (chars : List Char) : Option Nat := do
  let values ← digits? 10 chars
  if values.length ≠ 1 ∧ values.head? = some 0 then none else some (ofDigits 10 values)

/-- A whole number: decimal with or without a sign, or hexadecimal, octal or
binary. -/
def number? : List Char → Option Int
  | '+' :: rest => (magnitude? rest).map fun value => (value : Int)
  | '-' :: rest => (magnitude? rest).map fun value => -(value : Int)
  | '0' :: 'x' :: rest => (digits? 16 rest).map fun values => (ofDigits 16 values : Int)
  | '0' :: 'o' :: rest => (digits? 8 rest).map fun values => (ofDigits 8 values : Int)
  | '0' :: 'b' :: rest => (digits? 2 rest).map fun values => (ofDigits 2 values : Int)
  | chars => (magnitude? chars).map fun value => (value : Int)

/-- A truth value or a whole number. -/
def value? (chars : List Char) : Option Datum :=
  if chars = ['t', 'r', 'u', 'e'] then
    some (.flag true)
  else if chars = ['f', 'a', 'l', 's', 'e'] then
    some (.flag false)
  else
    (number? chars).map .number

/-- Whether a character may stand in a name without quotes. -/
def isBare (char : Char) : Bool :=
  char.isAlphanum || decide (char = '_') || decide (char = '-')

/-- Whether a character may stand in a truth value or a whole number. -/
def isValueChar (char : Char) : Bool :=
  isBare char || decide (char = '+')

/-- The character with the number that hexadecimal digits denote. -/
def escaped? (digits : List Char) : Option Char := do
  let values ← digits.mapM (digit? 16)
  let code := ofDigits 16 values
  if code.isValidChar then some (Char.ofNat code) else none

/-- The rest of a name in double quotes, with what follows it. -/
def quotedName? : List Char → Option (List Char × List Char)
  | [] => none
  | '"' :: rest => some ([], rest)
  | '\\' :: 'x' :: a :: b :: rest => do
      let char ← escaped? [a, b]
      let (name, after) ← quotedName? rest
      return (char :: name, after)
  | '\\' :: 'u' :: a :: b :: c :: d :: rest => do
      let char ← escaped? [a, b, c, d]
      let (name, after) ← quotedName? rest
      return (char :: name, after)
  | '\\' :: 'U' :: a :: b :: c :: d :: e :: f :: g :: h :: rest => do
      let char ← escaped? [a, b, c, d, e, f, g, h]
      let (name, after) ← quotedName? rest
      return (char :: name, after)
  | '\\' :: mark :: rest => do
      let char ← [('b', '\x08'), ('t', '\t'), ('n', '\n'), ('f', '\x0c'), ('r', '\r'),
        ('e', '\x1b'), ('"', '"'), ('\\', '\\')].lookup mark
      let (name, after) ← quotedName? rest
      return (char :: name, after)
  | char :: rest =>
      if isPrintable char then do
        let (name, after) ← quotedName? rest
        return (char :: name, after)
      else
        none

/-- The name at the start of a line, with what follows it. -/
def name? : List Char → Option (List Char × List Char)
  | '"' :: rest => quotedName? rest
  | '\'' :: rest =>
      match rest.span fun char => decide (char ≠ '\'') with
      | (name, '\'' :: after) => if name.all isPrintable then some (name, after) else none
      | _ => none
  | chars =>
      match chars.span isBare with
      | ([], _) => none
      | (name, after) => some (name, after)

/-- The name and the value on a line that is not blank. -/
def assignment? (chars : List Char) : Option (String × Datum) := do
  let (name, afterName) ← name? chars
  match skipBlanks afterName with
  | '=' :: rest =>
      let (written, afterValue) := (skipBlanks rest).span isValueChar
      let value ← value? written
      if isLineEnd afterValue then some (String.ofList name, value) else none
  | _ => none

/-- The names and values of some lines. No name may occur twice. -/
def assignments? : List (List Char) → Option (List (String × Datum))
  | [] => some []
  | line :: rest => do
      let others ← assignments? rest
      if isLineEnd line then
        return others
      else
        let first ← assignment? (skipBlanks line)
        if (others.lookup first.1).isSome then none else some (first :: others)

/-- The text without the byte order mark that it may begin with. -/
def withoutMark : List Char → List Char
  | '\ufeff' :: rest => rest
  | chars => chars

end SettingsText

namespace Settings

/-- The settings written in a text. -/
def ofText? (text : String) : Option Settings := do
  let fields ← SettingsText.assignments? <|
    SettingsText.lines (SettingsText.withoutMark text.toList)
  ofDatum? (.record fields)

/-- Why settings cannot be had. -/
inductive Refusal where
  /-- The content of a file is no text. -/
  | notText
  /-- The text holds no settings. -/
  | unreadable
  /-- The settings are there and cannot be used. -/
  | unusable (error : Error)

/-- Reads settings from a text and checks them. -/
def read (text : String) : Except Refusal Settings :=
  match ofText? text with
  | none => .error .unreadable
  | some settings =>
      match settings.check with
      | .error error => .error (.unusable error)
      | .ok () => .ok settings

/-- Reads settings from the content of a file, which must be encoded in
UTF-8. -/
def readBytes (content : ByteArray) : Except Refusal Settings :=
  match String.fromUTF8? content with
  | none => .error .notText
  | some text => read text

end Settings

end MeshTasks
