import Lox.Text.Glyph
import Lox.Text.Quoted
import Lox.Yaml.Scalar

/-! Writing a string as a scalar that reads back as that string: plain where that is safe, else in
quotes or as a block of lines. Bytes that are no text are written six bits at a time, as letters,
digits and two signs. -/
namespace Lox

namespace Text

def base64Digit (n : Nat) : UInt8 :=
  if n < 26 then (65 + n).toUInt8
  else if n < 52 then (97 + (n - 26)).toUInt8
  else if n < 62 then (48 + (n - 52)).toUInt8
  else if n = 62 then 43
  else 47

/-- Four signs for each three bytes, filled up with equals signs. -/
def base64 : Text → Text
  | [] => []
  | [a] =>
    let n := a.toNat * 16
    [base64Digit (n / 64), base64Digit (n % 64), 61, 61]
  | [a, b] =>
    let n := (a.toNat * 256 + b.toNat) * 4
    [base64Digit (n / 4096), base64Digit (n / 64 % 64), base64Digit (n % 64), 61]
  | a :: b :: c :: rest =>
    let n := (a.toNat * 256 + b.toNat) * 256 + c.toNat
    base64Digit (n / 262144) :: base64Digit (n / 4096 % 64) :: base64Digit (n / 64 % 64)
      :: base64Digit (n % 64) :: base64 rest

end Text

namespace Yaml

inductive Style where
  | plain | single | double | literal
  deriving DecidableEq, Repr

/-- Words that older readers take for truth values. -/
def oldBooleans : List String :=
  ["y", "Y", "yes", "Yes", "YES", "on", "On", "ON", "n", "N", "no", "No", "NO", "off", "Off", "OFF"]

/-- One or more groups of a colon and a number below sixty, then perhaps a fraction. -/
def sixties : (fuel : Nat) → Text → Bool
  | 0, _ => false
  | fuel + 1, t =>
    match t with
    | 58 :: a :: b :: rest =>
      (Decimal.isDigit a && a < 54 && Decimal.isDigit b && (sixties fuel rest || isTail rest))
        || (Decimal.isDigit a && (sixties fuel (b :: rest) || isTail (b :: rest)))
    | [58, a] => Decimal.isDigit a
    | _ => false
where
  /-- The end of the number, or a fraction. -/
  isTail : Text → Bool
    | [] => true
    | 46 :: rest => rest.all fun b => Decimal.isDigit b || b == 95
    | _ => false

/-- A number in base sixty, such as a time of day, which older readers take for a number. -/
def isSexagesimal (t : Text) : Bool :=
  match (Decimal.splitSign t).2 with
  | [] => false
  | b :: rest =>
    Decimal.isDigit b &&
      sixties (t.length + 1) (rest.dropWhile fun b => Decimal.isDigit b || b == 95)

/-- A string that stands for itself when written plain. -/
def isPlainString (t : Text) : Bool :=
  (match Scalar.ofPlain t with
    | .str => true
    | _ => false) &&
    !isSexagesimal t && !(oldBooleans.any fun w => Text.ofString w == t)

def isPrintable (c : Char) : Bool :=
  let n := c.toNat
  n == 0x0A || (0x20 ≤ n && n ≤ 0x7E) ||
    (0xA0 ≤ n && n ≤ 0xFFFD && n != 0xFEFF)

def isBreak (c : Char) : Bool :=
  let n := c.toNat
  n == 0x0A || n == 0x0D || n == 0x85 || n == 0x2028 || n == 0x2029

def openers : List Char :=
  ['#', ',', '[', ']', '{', '}', '&', '*', '!', '|', '>', '\'', '"', '%', '@', Char.ofNat 96]

/-- Whether the next character is blank or there is none. -/
def blankAhead : List Char → Bool
  | [] => true
  | c :: _ => c == ' ' || c == '\t'

/-- Whether a colon or number sign after the first character would be taken for markup. -/
def markupInside : (previous : Char) → List Char → Bool
  | _, [] => false
  | previous, c :: rest =>
    (c == ':' && blankAhead rest) ||
      (c == '#' && (previous == ' ' || previous == '\t' || isBreak previous)) ||
      markupInside c rest

/-- Whether a plain scalar would be taken for markup. -/
def looksLikeMarkup : List Char → Bool
  | [] => false
  | c :: rest =>
    openers.contains c || ((c == '?' || c == ':' || c == '-') && blankAhead rest) ||
      [c, rest.headD ' ', (rest.drop 1).headD ' '] == ['-', '-', '-'] ||
      [c, rest.headD ' ', (rest.drop 1).headD ' '] == ['.', '.', '.'] ||
      markupInside c rest

/-- Whether a character with the first property stands right before one with the second. -/
def adjacent (p q : Char → Bool) : List Char → Bool
  | c :: d :: rest => (p c && q d) || adjacent p q (d :: rest)
  | _ => false

/-- The style of a string that may be plain if `plainAllowed`. -/
def styleOf (plainAllowed : Bool) (chars : List Char) : Style :=
  let isSpace (c : Char) : Bool := c == ' '
  let special := chars.any fun c => c != '\t' && !isPrintable c
  let tabs := chars.contains '\t'
  let breakSpace := adjacent isBreak isSpace chars
  let spaceBreak := adjacent isSpace isBreak chars
  let outerBlank := [chars.head?, chars.getLast?].any fun c? => c?.any fun c => isSpace c || isBreak c
  let trailingSpace := chars.getLast? == some ' '
  let singleAllowed := !(breakSpace || spaceBreak || tabs || special)
  if chars.contains '\n' then
    if trailingSpace || spaceBreak || special then .double else .literal
  else if !plainAllowed then .double
  else if outerBlank || !singleAllowed || chars.any isBreak || looksLikeMarkup chars then
    if singleAllowed then .single else .double
  else .plain

def hexUpper (n : Nat) : UInt8 := if n < 10 then (48 + n).toUInt8 else (55 + n).toUInt8

def hexDigits : (width n : Nat) → Text
  | 0, _ => []
  | width + 1, n => hexDigits width (n / 16) ++ [hexUpper (n % 16)]

def doubleQuotedChar (c : Char) : Text :=
  let n := c.toNat
  if isPrintable c && !isBreak c && c != '"' && c != '\\' then Text.ofChar c
  else match n with
    | 0 => "\\0"
    | 7 => "\\a"
    | 8 => "\\b"
    | 9 => "\\t"
    | 10 => "\\n"
    | 11 => "\\v"
    | 12 => "\\f"
    | 13 => "\\r"
    | 27 => "\\e"
    | 34 => "\\\""
    | 92 => "\\\\"
    | 0x85 => "\\N"
    | 0xA0 => "\\_"
    | 0x2028 => "\\L"
    | 0x2029 => "\\P"
    | n =>
      if n ≤ 0xFF then Text.concat ["\\x", hexDigits 2 n]
      else if n ≤ 0xFFFF then Text.concat ["\\u", hexDigits 4 n]
      else Text.concat ["\\U", hexDigits 8 n]

/-- What stands before a block of lines: a digit where the block begins with a blank, a minus where
it does not end in a newline, a plus where it ends in more than one. -/
def blockHeader (chars : List Char) : Text :=
  let indentation : Text := if chars.head?.any fun c => c == ' ' || isBreak c then "2" else ""
  let chomping : Text := match chars.reverse with
    | [] => "-"
    | c :: rest =>
      if !isBreak c then "-"
      else if rest.isEmpty || rest.head?.any isBreak then "+"
      else ""
  Text.concat ["|", indentation, chomping]

/-- The lines of a block, indented by two blanks unless they are empty. The last newline is left
out. -/
def blockLines (t : Text) : Text :=
  let lines := Text.lines t
  let lines := if t.getLast? = some Text.newline then lines.dropLast else lines
  Text.join "\n" (lines.map fun l => if l.isEmpty then l else Text.concat ["  ", l])

def styled (style : Style) (t : Text) : Text :=
  let chars := (Text.glyphs t).map Glyph.char
  match style with
  | .plain => t
  | .single => Text.concat
    ["'", chars.flatMap fun c => if c = '\'' then Text.ofString "''" else Text.ofChar c, "'"]
  | .double => Text.concat ["\"", chars.flatMap doubleQuotedChar, "\""]
  | .literal => Text.concat [blockHeader chars, "\n", blockLines t]

/-- The text cut into lines of at most seventy bytes, each ended by a newline; a shorter text stays
as it is. -/
def wrapped (t : Text) : Text :=
  if t.length < 70 then t
  else go (t.length + 1) t
where
  /-- Cuts off one line after the other. -/
  go : (fuel : Nat) → Text → Text
    | 0, t => t
    | fuel + 1, t => if t.isEmpty then [] else t.take 70 ++ [Text.newline] ++ go fuel (t.drop 70)

/-- A string as a scalar. Bytes that are no text are written in base 64. -/
def writeString (t : Text) : Text :=
  let glyphs := Text.glyphs t
  if glyphs.any fun g => g.char == Glyph.replacement && g.bytes.length == 1 then
    let encoded := wrapped (Text.base64 t)
    Text.concat ["!!binary ",
      styled (styleOf true ((Text.glyphs encoded).map Glyph.char)) encoded]
  else styled (styleOf (isPlainString t) (glyphs.map Glyph.char)) t

end Yaml
end Lox
