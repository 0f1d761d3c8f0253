import Lox.Text.Glyph
import Lox.Text.Letter
import Lox.Text.Numeral
import Lox.Token

/-! Source text cut into segments: blanks, comments, lexemes, and what is none of these. The
segments of a text, put together, are the text. -/
namespace Lox

/-- A stretch of source text that is read as one thing. -/
inductive Segment where
  /-- A white-space character. -/
  | blank (text : Text)
  /-- A line comment, without the newline that ends it. -/
  | comment (text : Text)
  /-- The spelling of a token. -/
  | lexeme (kind : Kind) (text : Text)
  /-- A character that begins no token. -/
  | unexpected (text : Text)
  /-- A string without its closing quote, and whether a newline cut it short. -/
  | unterminated (text : Text) (broken : Bool)
  deriving DecidableEq, Repr

namespace Segment

def text : Segment → Text
  | .blank t => t
  | .comment t => t
  | .lexeme _ t => t
  | .unexpected t => t
  | .unterminated t broken => if broken then t ++ [Text.newline] else t

def newlines (s : Segment) : Nat := s.text.count Text.newline

def isDigit (c : Char) : Bool := '0' ≤ c && c ≤ '9'

def beginsName (c : Char) : Bool := Text.isLetter c || c == '_'

def continuesName (c : Char) : Bool := beginsName c || Text.isNumeral c

def single (kind : Kind) (g : Glyph) (rest : List Glyph) : Segment × List Glyph :=
  (.lexeme kind g.bytes, rest)

/-- An operator that a following equals sign changes into another one. -/
def withEqual (alone joined : Kind) (g : Glyph) : List Glyph → Segment × List Glyph
  | [] => (.lexeme alone g.bytes, [])
  | e :: rest =>
    if e.char = '=' then (.lexeme joined (g.bytes ++ e.bytes), rest)
    else (.lexeme alone g.bytes, e :: rest)

/-- A slash: the operator, or the first half of what begins a comment. -/
def slash (g : Glyph) : List Glyph → Segment × List Glyph
  | [] => (.lexeme .slash g.bytes, [])
  | s :: rest =>
    if s.char = '/' then
      (.comment (Text.ofGlyphs (g :: s :: rest.takeWhile (·.char != '\n'))),
        rest.dropWhile (·.char != '\n'))
    else (.lexeme .slash g.bytes, s :: rest)

/-- A string, which ends on its own line or not at all. -/
def string (g : Glyph) (rest : List Glyph) : Segment × List Glyph :=
  let inside (h : Glyph) : Bool := h.char != '"' && h.char != '\n'
  let body := g :: rest.takeWhile inside
  match rest.dropWhile inside with
  | [] => (.unterminated (Text.ofGlyphs body) false, [])
  | last :: rest =>
    if last.char = '"' then (.lexeme .string (Text.ofGlyphs (body ++ [last])), rest)
    else (.unterminated (Text.ofGlyphs body) true, rest)

/-- A numeral: digits, and a fraction when a digit follows the point. -/
def number (g : Glyph) (rest : List Glyph) : Segment × List Glyph :=
  let whole := g :: rest.takeWhile (isDigit ·.char)
  match rest.dropWhile (isDigit ·.char) with
  | point :: digit :: rest =>
    if point.char = '.' ∧ isDigit digit.char then
      (.lexeme .number
        (Text.ofGlyphs (whole ++ point :: digit :: rest.takeWhile (isDigit ·.char))),
        rest.dropWhile (isDigit ·.char))
    else (.lexeme .number (Text.ofGlyphs whole), point :: digit :: rest)
  | rest => (.lexeme .number (Text.ofGlyphs whole), rest)

def word (g : Glyph) (rest : List Glyph) : Segment × List Glyph :=
  let spelling := Text.ofGlyphs (g :: rest.takeWhile (continuesName ·.char))
  (.lexeme (Kind.ofWord spelling) spelling, rest.dropWhile (continuesName ·.char))

/-- The segment that begins with `g`, and what follows it. -/
def next (g : Glyph) (rest : List Glyph) : Segment × List Glyph :=
  match g.char with
  | '(' => single .leftParen g rest
  | ')' => single .rightParen g rest
  | '{' => single .leftBrace g rest
  | '}' => single .rightBrace g rest
  | ',' => single .comma g rest
  | '.' => single .dot g rest
  | '-' => single .minus g rest
  | '+' => single .plus g rest
  | ';' => single .semicolon g rest
  | '*' => single .star g rest
  | '!' => withEqual .bang .bangEqual g rest
  | '=' => withEqual .equal .equalEqual g rest
  | '<' => withEqual .less .lessEqual g rest
  | '>' => withEqual .greater .greaterEqual g rest
  | '/' => slash g rest
  | ' ' | '\r' | '\t' | '\n' => (.blank g.bytes, rest)
  | '"' => string g rest
  | c =>
    if isDigit c then number g rest
    else if beginsName c then word g rest
    else (.unexpected g.bytes, rest)

theorem length_dropWhile_le {α : Type} (p : α → Bool) (l : List α) :
    (l.dropWhile p).length ≤ l.length :=
  (List.dropWhile_sublist p).length_le

theorem length_withEqual (alone joined : Kind) (g : Glyph) (rest : List Glyph) :
    (withEqual alone joined g rest).2.length ≤ rest.length := by
  cases rest with
  | nil => simp [withEqual]
  | cons e rest => simp only [withEqual]; split <;> simp

theorem length_slash (g : Glyph) (rest : List Glyph) :
    (slash g rest).2.length ≤ rest.length := by
  cases rest with
  | nil => simp [slash]
  | cons s rest =>
    simp only [slash]
    split
    · have := length_dropWhile_le (fun h : Glyph => h.char != '\n') rest
      simp only [List.length_cons]; omega
    · simp

theorem length_string (g : Glyph) (rest : List Glyph) :
    (string g rest).2.length ≤ rest.length := by
  have := length_dropWhile_le (fun h : Glyph => h.char != '"' && h.char != '\n') rest
  simp only [string]
  split
  · simp
  · rename_i last tail h
    rw [h] at this
    simp only [List.length_cons] at this
    split <;> simp <;> omega

theorem length_number (g : Glyph) (rest : List Glyph) :
    (number g rest).2.length ≤ rest.length := by
  have := length_dropWhile_le (fun h : Glyph => isDigit h.char) rest
  simp only [number]
  split
  · rename_i point digit tail h
    rw [h] at this
    have := length_dropWhile_le (fun h : Glyph => isDigit h.char) tail
    simp only [List.length_cons] at *
    split <;> simp <;> omega
  · exact this

/-- A segment takes at least its first character. -/
theorem length_next (g : Glyph) (rest : List Glyph) : (next g rest).2.length ≤ rest.length := by
  unfold next
  split <;> try exact Nat.le_refl _
  all_goals first
    | exact length_withEqual ..
    | exact length_slash ..
    | exact length_string ..
    | skip
  split
  · exact length_number ..
  · split
    · exact length_dropWhile_le _ _
    · exact Nat.le_refl _

def all : List Glyph → List Segment
  | [] => []
  | g :: rest => (next g rest).1 :: all (next g rest).2
termination_by gs => gs.length
decreasing_by have := length_next g rest; simp only [List.length_cons]; omega

def ofText (source : Text) : List Segment := all (Text.glyphs source)

/-- Each segment with the line it begins on, the first one on `line`. -/
def located (line : Int) : List Segment → List (Int × Segment)
  | [] => []
  | s :: rest => (line, s) :: located (line + s.newlines) rest

end Segment
end Lox
