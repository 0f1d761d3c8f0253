import Lox.Text.Glyph

/-! Reading a document of settings. Nesting is shown by indentation or by brackets and braces;
scalars are plain or in single or double quotes; a comment begins at a number sign. Only the first
document of a text is read. -/
namespace Lox.Yaml

/-- A part of a document. A value that is missing is a plain scalar without text. -/
inductive Node where
  | scalar (text : Text) (quoted : Bool) (line : Nat)
  | sequence (items : List Node) (line : Nat)
  | mapping (entries : List (Node × Node)) (line : Nat)
  deriving Repr

def Node.line : Node → Nat
  | .scalar _ _ line => line
  | .sequence _ line => line
  | .mapping _ line => line

def Node.missing (line : Nat) : Node := .scalar [] false line

/-- A place in a document: the characters from there on, the line and column, and whether the key
of a mapping may begin there. -/
structure Cursor where
  rest : List Char
  line : Nat
  column : Nat
  mayBeKey : Bool
  deriving Repr

/-- A blank, the end of a line, or the end of the document. -/
def endsWord : List Char → Bool
  | [] => true
  | c :: _ => c == ' ' || c == '\t' || c == '\n'

namespace Cursor

/-- The place after `n` characters of the same line. -/
def advance (n : Nat) (c : Cursor) : Cursor :=
  { c with rest := c.rest.drop n, column := c.column + n }

/-- Skips comments, blanks and line ends. Between brackets the start of a line is nothing special;
elsewhere a key may begin on a new line, but not after a tab. -/
def skipFrom (flow comment : Bool) : List Char → Nat → Nat → Bool → Cursor
  | [], line, column, key => ⟨[], line, column, key⟩
  | c :: rest, line, column, key =>
    if c = '\n' then skipFrom flow false rest (line + 1) 0 (!flow || key)
    else if comment then skipFrom flow true rest line (column + 1) key
    else if c = '#' then skipFrom flow true rest line (column + 1) key
    else if c = ' ' ∨ (c = '\t' ∧ (flow ∨ !key)) then
      skipFrom flow false rest line (column + 1) key
    else ⟨c :: rest, line, column, key⟩

def skip (flow : Bool) (c : Cursor) : Cursor :=
  skipFrom flow false c.rest c.line c.column c.mayBeKey

end Cursor

/-- Blanks and line ends inside a scalar: the blanks before the first line end, the number of line
ends, and what follows. -/
structure Gap where
  blanks : List Char
  breaks : Nat
  after : Cursor

def gapFrom (blanks : List Char) (breaks : Nat) : List Char → Nat → Nat → Gap
  | [], line, column => ⟨blanks.reverse, breaks, ⟨[], line, column, breaks != 0⟩⟩
  | c :: rest, line, column =>
    if c = '\n' then gapFrom blanks (breaks + 1) rest (line + 1) 0
    else if c = ' ' ∨ c = '\t' then
      gapFrom (if breaks = 0 then c :: blanks else blanks) breaks rest line (column + 1)
    else ⟨blanks.reverse, breaks, ⟨c :: rest, line, column, breaks != 0⟩⟩

namespace Gap

def ofCursor (c : Cursor) : Gap := gapFrom [] 0 c.rest c.line c.column

/-- What a gap leaves of itself in a scalar: one line end becomes a blank, more of them lose one. -/
def folded (g : Gap) : List Char :=
  if g.breaks = 0 then g.blanks
  else if g.breaks = 1 then [' ']
  else List.replicate (g.breaks - 1) '\n'

end Gap

/-- The characters that end a plain scalar between brackets. -/
def flowMarks : List Char := [',', '?', '[', ']', '{', '}']

/-- The characters of a plain scalar up to a blank or the end of the scalar. -/
def plainWord (flow : Bool) : List Char → List Char
  | [] => []
  | c :: rest =>
    if endsWord (c :: rest) || (c == ':' && endsWord rest) || (flow && flowMarks.contains c) then []
    else c :: plainWord flow rest

/-- A plain scalar. It goes on over lines that are indented by more than `indent`. -/
def plain (flow : Bool) (indent : Int) : (fuel : Nat) → List Char → Cursor → List Char × Cursor
  | 0, text, c => (text, c)
  | fuel + 1, text, c =>
    let word := plainWord flow c.rest
    let text := text ++ word
    let c := { c.advance word.length with mayBeKey := false }
    let gap := Gap.ofCursor c
    let ends := word.isEmpty || !endsWord c.rest || gap.after.rest.isEmpty
      || gap.after.rest.head? == some '#'
      || (!flow && gap.breaks != 0 && (gap.after.column : Int) ≤ indent)
      || (plainWord flow gap.after.rest).isEmpty
    if ends then (text, if endsWord c.rest then gap.after else c)
    else plain flow indent fuel (text ++ gap.folded) gap.after

/-- The inside of a scalar in single quotes, where a quote is written twice. -/
def singleQuoted : (fuel : Nat) → List Char → Cursor → Option (List Char × Cursor)
  | 0, _, _ => none
  | fuel + 1, text, c =>
    match c.rest with
    | [] => none
    | '\'' :: '\'' :: _ => singleQuoted fuel (text ++ ['\'']) (c.advance 2)
    | '\'' :: _ => some (text, { c.advance 1 with mayBeKey := false })
    | ch :: rest =>
      if endsWord (ch :: rest) then
        let gap := Gap.ofCursor c
        singleQuoted fuel (text ++ gap.folded) gap.after
      else singleQuoted fuel (text ++ [ch]) (c.advance 1)

def escape? : Char → Option Char
  | '0' => some (Char.ofNat 0)
  | 'a' => some (Char.ofNat 7)
  | 'b' => some (Char.ofNat 8)
  | 't' => some '\t'
  | '\t' => some '\t'
  | 'n' => some '\n'
  | 'v' => some (Char.ofNat 11)
  | 'f' => some (Char.ofNat 12)
  | 'r' => some (Char.ofNat 13)
  | 'e' => some (Char.ofNat 27)
  | ' ' => some ' '
  | '"' => some '"'
  | '\'' => some '\''
  | '/' => some '/'
  | '\\' => some '\\'
  | 'N' => some (Char.ofNat 0x85)
  | '_' => some (Char.ofNat 0xA0)
  | 'L' => some (Char.ofNat 0x2028)
  | 'P' => some (Char.ofNat 0x2029)
  | _ => none

/-- How many hexadecimal digits follow a letter after a backslash. -/
def escapeWidth? : Char → Option Nat
  | 'x' => some 2
  | 'u' => some 4
  | 'U' => some 8
  | _ => none

def hexDigit? (c : Char) : Option Nat :=
  if '0' ≤ c ∧ c ≤ '9' then some (c.toNat - 48)
  else if 'a' ≤ c ∧ c ≤ 'f' then some (c.toNat - 87)
  else if 'A' ≤ c ∧ c ≤ 'F' then some (c.toNat - 55)
  else none

def hexChar? (width : Nat) (digits : List Char) : Option Char := do
  if digits.length ≠ width then none
  else
    let n ← digits.foldlM (fun n d => (hexDigit? d).map (n * 16 + ·)) 0
    if n.isValidChar then some (Char.ofNat n) else none

/-- The inside of a scalar in double quotes. A backslash at the end of a line joins it to the
next. -/
def doubleQuoted : (fuel : Nat) → List Char → Cursor → Option (List Char × Cursor)
  | 0, _, _ => none
  | fuel + 1, text, c =>
    match c.rest with
    | [] => none
    | '"' :: _ => some (text, { c.advance 1 with mayBeKey := false })
    | '\\' :: '\n' :: _ =>
      let gap := Gap.ofCursor (c.advance 1)
      doubleQuoted fuel (text ++ List.replicate (gap.breaks - 1) '\n') gap.after
    | '\\' :: e :: rest =>
      match escapeWidth? e with
      | some width => do
        let ch ← hexChar? width (rest.take width)
        doubleQuoted fuel (text ++ [ch]) (c.advance (2 + width))
      | none => do
        let ch ← escape? e
        doubleQuoted fuel (text ++ [ch]) (c.advance 2)
    | ch :: rest =>
      if endsWord (ch :: rest) then
        let gap := Gap.ofCursor c
        doubleQuoted fuel (text ++ gap.folded) gap.after
      else doubleQuoted fuel (text ++ [ch]) (c.advance 1)

/-- The characters that begin no plain scalar. -/
def indicators : List Char :=
  ['-', '?', ':', ',', '[', ']', '{', '}', '#', '&', '*', '!', '|', '>', '\'', '"', '%', '@',
   Char.ofNat 96]

def beginsPlain (flow : Bool) : List Char → Bool
  | [] => false
  | c :: rest =>
    !endsWord (c :: rest) &&
      (!indicators.contains c || (c == '-' && !endsWord rest)
        || (!flow && (c == '?' || c == ':') && !endsWord rest))

def textOf (chars : List Char) : Text := chars.flatMap Text.ofChar

/-- A scalar in quotes or plain, as a node. -/
def scalar (flow : Bool) (indent : Int) (fuel : Nat) (c : Cursor) : Option (Node × Cursor) :=
  match c.rest with
  | '\'' :: _ => (singleQuoted fuel [] (c.advance 1)).map fun (t, next) =>
    (.scalar (textOf t) true c.line, next)
  | '"' :: _ => (doubleQuoted fuel [] (c.advance 1)).map fun (t, next) =>
    (.scalar (textOf t) true c.line, next)
  | rest =>
    if beginsPlain flow rest then
      let (t, next) := plain flow indent fuel [] c
      some (.scalar (textOf t) false c.line, next)
    else none

mutual

def flowNode : (fuel : Nat) → Cursor → Option (Node × Cursor)
  | 0, _ => none
  | fuel + 1, c =>
    let c := c.skip true
    match c.rest with
    | '[' :: _ => (flowItems fuel (c.advance 1)).map fun (items, next) =>
      (.sequence items c.line, next)
    | '{' :: _ => (flowEntries fuel (c.advance 1)).map fun (entries, next) =>
      (.mapping entries c.line, next)
    | _ => scalar true 0 fuel c

/-- What follows a colon between brackets; the value may be missing. -/
def flowValue : (fuel : Nat) → Cursor → Option (Node × Cursor)
  | 0, _ => none
  | fuel + 1, c =>
    let c := c.skip true
    match c.rest with
    | ',' :: _ | ']' :: _ | '}' :: _ => some (.missing c.line, c)
    | _ => flowNode fuel c

/-- The items of a sequence up to and with the closing bracket. An item may be a single pair. -/
def flowItems : (fuel : Nat) → Cursor → Option (List Node × Cursor)
  | 0, _ => none
  | fuel + 1, c =>
    let c := c.skip true
    match c.rest with
    | ']' :: _ => some ([], { c.advance 1 with mayBeKey := false })
    | _ => do
      let (item, next) ← match c.rest with
        | ':' :: _ => some (Node.missing c.line, c)
        | _ => flowNode fuel c
      let next := next.skip true
      let (item, next) ← match next.rest with
        | ':' :: _ => (flowValue fuel (next.advance 1)).map fun (value, after) =>
          (Node.mapping [(item, value)] item.line, after)
        | _ => some (item, next)
      let next := next.skip true
      match next.rest with
      | ',' :: _ => do
        let (items, after) ← flowItems fuel (next.advance 1)
        some (item :: items, after)
      | ']' :: _ => some ([item], { next.advance 1 with mayBeKey := false })
      | _ => none

/-- The pairs of a mapping up to and with the closing brace. A key may stand alone. -/
def flowEntries : (fuel : Nat) → Cursor → Option (List (Node × Node) × Cursor)
  | 0, _ => none
  | fuel + 1, c =>
    let c := c.skip true
    match c.rest with
    | '}' :: _ => some ([], { c.advance 1 with mayBeKey := false })
    | _ => do
      let (key, next) ← match c.rest with
        | ':' :: _ => some (Node.missing c.line, c)
        | _ => flowNode fuel c
      let next := next.skip true
      let (value, next) ← match next.rest with
        | ':' :: _ => flowValue fuel (next.advance 1)
        | _ => some (Node.missing next.line, next)
      let next := next.skip true
      match next.rest with
      | ',' :: _ => do
        let (entries, after) ← flowEntries fuel (next.advance 1)
        some ((key, value) :: entries, after)
      | '}' :: _ => some ([(key, value)], { next.advance 1 with mayBeKey := false })
      | _ => none

end

/-- A scalar, or a sequence or mapping in brackets. -/
def atom (indent : Int) (fuel : Nat) (c : Cursor) : Option (Node × Cursor) :=
  match c.rest with
  | '[' :: _ | '{' :: _ => flowNode fuel c
  | _ => scalar false indent fuel c

/-- A dash before a blank, as it begins an item of a sequence. -/
def isDash : List Char → Bool
  | '-' :: rest => endsWord rest
  | _ => false

/-- A colon before a blank, as it ends a key. -/
def isColon : List Char → Bool
  | ':' :: rest => endsWord rest
  | _ => false

/-- The place after the colon that makes an atom which began at `start` and ended at `c` a key.
A key keeps to its line. -/
def colonAfter? (start c : Cursor) : Option Cursor :=
  let next := { c with mayBeKey := false }.skip false
  if start.mayBeKey ∧ start.line = c.line ∧ c.line = next.line ∧ isColon next.rest then
    some (next.advance 1)
  else none

mutual

/-- A node inside a mapping or sequence at column `indent`. -/
def blockNode : (fuel : Nat) → (indent : Int) → Cursor → Option (Node × Cursor)
  | 0, _, _ => none
  | fuel + 1, indent, c =>
    let c := c.skip false
    if c.rest.isEmpty ∨ (c.column : Int) ≤ indent ∧ c.mayBeKey then some (.missing c.line, c)
    else if isDash c.rest then
      if c.mayBeKey then
        (blockItems fuel c.column c).map fun (items, next) => (.sequence items c.line, next)
      else none
    else do
      let (node, next) ← atom indent fuel c
      match colonAfter? c next with
      | some value =>
        let (entries, next) ← blockEntries fuel c.column node value
        some (.mapping entries c.line, next)
      | none =>
        let colon := next.skip false
        if isColon colon.rest ∧ colon.line = next.line ∧ !next.mayBeKey then none
        else some (node, next)

/-- The pairs of a mapping at some column, from the value of the first key on. -/
def blockEntries : (fuel column : Nat) → (key : Node) → Cursor →
    Option (List (Node × Node) × Cursor)
  | 0, _, _, _ => none
  | fuel + 1, column, key, c => do
    let start := { c with mayBeKey := false }.skip false
    let (value, next) ←
      if isDash start.rest ∧ start.mayBeKey ∧ start.column = column then
        (blockItems fuel column start).map fun (items, next) =>
          (Node.sequence items start.line, next)
      else if start.rest.isEmpty ∨ start.column ≤ column ∧ start.mayBeKey then
        some (Node.missing c.line, start)
      else blockNode fuel column start
    let next := next.skip false
    if next.rest.isEmpty ∨ next.column < column ∧ next.mayBeKey then some ([(key, value)], next)
    else if next.column ≠ column ∨ !next.mayBeKey ∨ isDash next.rest then none
    else do
      let (key', after) ← atom column fuel next
      let value' ← colonAfter? next after
      let (entries, after) ← blockEntries fuel column key' value'
      some ((key, value) :: entries, after)

/-- The items of a sequence whose dashes stand at some column. -/
def blockItems : (fuel column : Nat) → Cursor → Option (List Node × Cursor)
  | 0, _, _ => none
  | fuel + 1, column, c => do
    let (item, next) ← blockNode fuel column { c.advance 1 with mayBeKey := true }
    let next := next.skip false
    if isDash next.rest ∧ next.column = column ∧ next.mayBeKey then do
      let (items, after) ← blockItems fuel column next
      some (item :: items, after)
    else if next.rest.isEmpty ∨ next.column ≤ column ∧ next.mayBeKey then some ([item], next)
    else none

end

/-- A line that begins with a mark between documents. -/
def isMarker (mark : String) (line : List Char) : Bool :=
  line.take 3 == mark.toList && endsWord (line.drop 3)

def isIdle (line : List Char) : Bool :=
  match line.dropWhile (· == ' ') with
  | [] => true
  | c :: _ => c == '#'

/-- The lines of the first document with the number of the first of them, and whether a mark stood
before it. The text after such a mark belongs to the document; a mark that ends no document is
nothing. -/
def firstDocument (lines : List (List Char)) : List (List Char) × Nat × Bool :=
  let idle := (lines.takeWhile fun l => isIdle l || isMarker "..." l).length
  let upToEnd (ls : List (List Char)) : List (List Char) :=
    ls.takeWhile fun l => !(isMarker "---" l || isMarker "..." l)
  match lines.drop idle with
  | l :: rest =>
    if isMarker "---" l then (([' ', ' ', ' '] ++ l.drop 3) :: upToEnd rest, idle + 1, true)
    else (upToEnd (l :: rest), idle + 1, false)
  | [] => ([], idle + 1, false)

/-- The characters of a text with every kind of line end written as a newline. -/
def normalized : List Char → List Char
  | [] => []
  | '\r' :: '\n' :: rest => '\n' :: normalized rest
  | c :: rest => (if c = '\r' ∨ c = Char.ofNat 0x85 then '\n' else c) :: normalized rest

def isAllowed (c : Char) : Bool :=
  let n := c.toNat
  n == 9 || n == 10 || n == 13 || (0x20 ≤ n && n ≤ 0x7E) || n == 0x85 || (0xA0 ≤ n && n ≤ 0xFFFD)
    || 0x10000 ≤ n

/-- The first document of a text: its root, or nothing if the text is not well formed. -/
def parse? (source : Text) : Option Node :=
  let glyphs := Text.glyphs source
  let stray := glyphs.any fun g => g.char == Glyph.replacement && g.bytes.length == 1
  let chars := match glyphs.map Glyph.char with
    | c :: rest => if c = Char.ofNat 0xFEFF then rest else c :: rest
    | [] => []
  if stray || !chars.all isAllowed then none
  else
    let (lines, number, marked) := firstDocument ((normalized chars).splitOn '\n')
    let body := List.intercalate ['\n'] lines
    (blockNode (4 * body.length + 16) (-1) ⟨body, number, 0, !marked⟩).map Prod.fst

end Lox.Yaml
