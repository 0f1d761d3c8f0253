import Lox.Text.Basic

/-! A text as a list of characters, each with the bytes that spell it. Every byte string can be
read this way: a byte that no UTF-8 sequence explains stands alone as the replacement character.
Sets of characters are given as ranges of code points in increasing order. -/
namespace Lox

/-- One character of a text together with the bytes that spell it there. -/
structure Glyph where
  char : Char
  bytes : Text
  deriving DecidableEq, Repr

namespace Glyph

def replacement : Char := Char.ofNat 0xFFFD

/-- A byte that belongs to no UTF-8 sequence. -/
def stray (b : UInt8) : Glyph := ⟨replacement, [b]⟩

/-- A byte that can continue a UTF-8 sequence. -/
def isTail (b : UInt8) : Bool := 0x80 ≤ b && b ≤ 0xBF

/-- A first and second byte that together begin a sequence of three. The second byte is limited
so that no character has two spellings and no surrogate has any. -/
def beginsThree (a b : UInt8) : Bool :=
  if a == 0xE0 then 0xA0 ≤ b && b ≤ 0xBF
  else if a == 0xED then 0x80 ≤ b && b ≤ 0x9F
  else 0xE1 ≤ a && a ≤ 0xEF && isTail b

/-- A first and second byte that together begin a sequence of four. -/
def beginsFour (a b : UInt8) : Bool :=
  if a == 0xF0 then 0x90 ≤ b && b ≤ 0xBF
  else if a == 0xF4 then 0x80 ≤ b && b ≤ 0x8F
  else 0xF1 ≤ a && a ≤ 0xF3 && isTail b

/-- The six bits that a continuation byte carries. -/
def payload (b : UInt8) : Nat := b.toNat % 64

/-- The first glyph of the text `a :: rest`. -/
def first (a : UInt8) (rest : Text) : Glyph :=
  if a < 0x80 then ⟨Char.ofNat a.toNat, [a]⟩
  else match rest with
    | [] => stray a
    | b :: rest =>
      if 0xC2 ≤ a && a ≤ 0xDF && isTail b then
        ⟨Char.ofNat ((a.toNat - 0xC0) * 64 + payload b), [a, b]⟩
      else match rest with
        | [] => stray a
        | c :: rest =>
          if beginsThree a b && isTail c then
            ⟨Char.ofNat ((a.toNat - 0xE0) * 4096 + payload b * 64 + payload c), [a, b, c]⟩
          else match rest with
            | [] => stray a
            | d :: _ =>
              if beginsFour a b && isTail c && isTail d then
                ⟨Char.ofNat ((a.toNat - 0xF0) * 262144 + payload b * 4096 + payload c * 64
                  + payload d), [a, b, c, d]⟩
              else stray a

end Glyph

namespace Text

def glyphs : Text → List Glyph
  | [] => []
  | a :: rest =>
    let g := Glyph.first a rest
    g :: glyphs (rest.drop (g.bytes.length - 1))
termination_by t => t.length
decreasing_by rw [List.length_drop, List.length_cons]; omega

def ofGlyphs (gs : List Glyph) : Text := gs.flatMap Glyph.bytes

/-- The code points from the first to the second number, both included. -/
abbrev CharRange := Nat × Nat

/-- Whether a code point lies in one of the ranges. The ranges are in increasing order, so the
search stops at the first one that begins beyond the code point. -/
def inRanges : List CharRange → Nat → Bool
  | [], _ => false
  | (lo, hi) :: rest, c => if c < lo then false else c ≤ hi || inRanges rest c

/-- The characters with the Unicode property White_Space. -/
def isBlank (c : Char) : Bool :=
  let n := c.toNat
  (0x09 ≤ n && n ≤ 0x0D) || n == 0x20 || n == 0x85 || n == 0xA0 || n == 0x1680
    || (0x2000 ≤ n && n ≤ 0x200A) || n == 0x2028 || n == 0x2029 || n == 0x202F
    || n == 0x205F || n == 0x3000

/-- The text without the white space at its start and end. -/
def trim (t : Text) : Text :=
  let kept := ((glyphs t).dropWhile fun g => isBlank g.char).reverse
  ofGlyphs (kept.dropWhile fun g => isBlank g.char).reverse

end Text
end Lox
