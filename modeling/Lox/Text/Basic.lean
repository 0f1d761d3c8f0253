/-! Program text and program output are strings of bytes. Source text is never validated, so a
`Text` need not be UTF-8. -/
namespace Lox

abbrev Text := List UInt8

namespace Text

def ofString (s : String) : Text := s.toUTF8.data.toList

instance : Coe String Text := ⟨ofString⟩

def ofChar (c : Char) : Text := String.utf8EncodeChar c

def concat (pieces : List Text) : Text := pieces.flatten

/-- The pieces one after the other with `separator` between neighbours. -/
def join (separator : Text) (pieces : List Text) : Text := List.intercalate separator pieces

def times (n : Nat) (t : Text) : Text := (List.replicate n t).flatten

def newline : UInt8 := 10

def quote : UInt8 := 34

/-- The decimal digits of a natural number. -/
def ofNat (n : Nat) : Text := (Nat.toDigits 10 n).map fun c => c.toNat.toUInt8

/-- The decimal digits of an integer, after a minus sign when it is negative. -/
def ofInt : Int → Text
  | .ofNat n => ofNat n
  | .negSucc n => 45 :: ofNat (n + 1)

/-- `text` followed by blanks up to `width` bytes. -/
def padRight (width : Nat) (text : Text) : Text := text ++ List.replicate (width - text.length) 32

/-- `text` after blanks that fill it up to `width` bytes. -/
def padLeft (width : Nat) (text : Text) : Text := List.replicate (width - text.length) 32 ++ text

/-- The byte order of texts: the first byte that differs decides. -/
def le (a b : Text) : Bool := decide (a ≤ b)

/-- The pieces of a text between its newlines. There is always at least one. -/
def lines (t : Text) : List Text := t.splitOn newline

/-- A line has fewer bytes than this. -/
def lineLimit : Nat := 65536

/-- What is said of an input with a longer line. -/
def tooLong : String := "bufio.Scanner: token too long"

/-- The text without a carriage return at its end. -/
def dropReturn (t : Text) : Text := if t.getLast? = some 13 then t.dropLast else t

/-- The lines of an input up to the first that is too long, and whether there is such a line. The
newline that ends a line does not belong to it, nor does a carriage return before it. -/
def boundedLines (input : Text) : List Text × Bool :=
  let pieces := lines input
  let pieces := if pieces.getLast? = some [] then pieces.dropLast else pieces
  let fits (piece : Text) : Bool := piece.length < lineLimit
  ((pieces.takeWhile fits).map dropReturn, !pieces.all fits)

end Text
end Lox
