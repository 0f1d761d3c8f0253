import Lox.Text.Glyph
import Lox.Text.Quoted
import Lox.Decimal.Layout

/-! JSON documents and their compact text. -/
namespace Lox

/-- A JSON document. A number is kept as it is spelled, and the members of an object in order. -/
inductive Json where
  | null
  | bool (b : Bool)
  | number (spelling : Text)
  | string (s : Text)
  | array (items : List Json)
  | object (members : List (Text × Json))
  deriving Repr

namespace Json

def int (n : Int) : Json := .number (Text.ofInt n)

/-- The spelling of a finite double: the shortest digits that read back, positionally from
`10^-6` up to `10^21` and with an exponent outside. -/
def floatSpelling (x : Float) : Text :=
  let magnitude := Decimal.Dyadic.ofFloat x
  let sign : Text := if Decimal.isNegative x then "-" else ""
  if magnitude.m = 0 then Text.concat [sign, "0"]
  else
    let digits := Decimal.shortest magnitude
    let size := digits.k + ((Text.ofNat digits.n).length : Int)
    if -6 < size ∧ size ≤ 21 then sign ++ Decimal.positional digits
    else sign ++ Decimal.scientific digits

def float (x : Float) : Json := .number (floatSpelling x)

/-- One character of a JSON string. Besides quotes, backslashes and control characters, the
characters `<`, `>`, `&` and the two Unicode line ends are escaped, so that the text can stand
inside a script. A stray byte becomes the replacement character. -/
def escapedGlyph (g : Glyph) : Text :=
  match g.char.toNat with
  | 8 => "\\b"
  | 9 => "\\t"
  | 10 => "\\n"
  | 12 => "\\f"
  | 13 => "\\r"
  | 34 => "\\\""
  | 92 => "\\\\"
  | n =>
    if n < 0x20 || n == 0x3C || n == 0x3E || n == 0x26 || n == 0x2028 || n == 0x2029 then
      Text.concat ["\\u", Text.hex 4 n]
    else Text.ofChar g.char

def quotedString (t : Text) : Text :=
  Text.concat ["\"", (Text.glyphs t).flatMap escapedGlyph, "\""]

mutual

/-- The document on one line without blanks. -/
def render : Json → Text
  | .null => "null"
  | .bool true => "true"
  | .bool false => "false"
  | .number spelling => spelling
  | .string s => quotedString s
  | .array items => Text.concat ["[", Text.join "," (renderItems items), "]"]
  | .object members => Text.concat ["\x7b", Text.join "," (renderMembers members), "\x7d"]

def renderItems : List Json → List Text
  | [] => []
  | item :: rest => render item :: renderItems rest

/-- Each member of an object, its key before a colon. -/
def renderMembers : List (Text × Json) → List Text
  | [] => []
  | (key, value) :: rest => Text.concat [quotedString key, ":", render value] :: renderMembers rest

end

end Json
end Lox
