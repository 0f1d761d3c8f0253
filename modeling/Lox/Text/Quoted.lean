import Lox.Text.Glyph
import Lox.Text.Printable

/-! Text in double quotes, with escapes for what does not print. Messages quote names and settings
this way. -/
namespace Lox.Text

def hexDigit (n : Nat) : UInt8 := if n < 10 then (48 + n).toUInt8 else (87 + n).toUInt8

/-- The lowest `width` hexadecimal digits of `n`. -/
def hex : (width n : Nat) → Text
  | 0, _ => []
  | width + 1, n => hex width (n / 16) ++ [hexDigit (n % 16)]

def namedEscape (c : Char) : Option Text :=
  match c.toNat with
  | 7 => some "\\a"
  | 8 => some "\\b"
  | 9 => some "\\t"
  | 10 => some "\\n"
  | 11 => some "\\v"
  | 12 => some "\\f"
  | 13 => some "\\r"
  | 34 => some "\\\""
  | 92 => some "\\\\"
  | _ => none

/-- One character as it stands inside quotes. A stray byte is written by its value. -/
def quotedGlyph (g : Glyph) : Text :=
  match namedEscape g.char, g.bytes with
  | some escape, _ => escape
  | none, [b] =>
    if 0x80 ≤ b || b < 0x20 || b == 0x7F then Text.concat ["\\x", hex 2 b.toNat] else [b]
  | none, bytes =>
    if isPrintable g.char then bytes
    else if g.char.toNat < 0x10000 then Text.concat ["\\u", hex 4 g.char.toNat]
    else Text.concat ["\\U", hex 8 g.char.toNat]

def quoted (t : Text) : Text := Text.concat ["\"", (glyphs t).flatMap quotedGlyph, "\""]

end Lox.Text
