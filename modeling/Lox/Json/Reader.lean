import Lox.Decimal.Numeral
import Lox.Json.Basic

/-! Reading a JSON document. -/
namespace Lox.Json

def maxDepth : Nat := 10000

def skipBlanks (t : Text) : Text := t.dropWhile fun b => b == 32 || b == 9 || b == 10 || b == 13

def hexValue? (b : UInt8) : Option Nat :=
  if 48 ≤ b && b ≤ 57 then some (b.toNat - 48)
  else if 97 ≤ b && b ≤ 102 then some (b.toNat - 87)
  else if 65 ≤ b && b ≤ 70 then some (b.toNat - 55)
  else none

/-- The code unit of four hexadecimal digits. -/
def unit? (digits : List UInt8) : Option Nat :=
  digits.foldlM (fun n b => (hexValue? b).map (n * 16 + ·)) 0

/-- The byte that a letter stands for after a backslash. -/
def escape? (b : UInt8) : Option UInt8 :=
  match b with
  | 34 => some 34
  | 92 => some 92
  | 47 => some 47
  | 98 => some 8
  | 102 => some 12
  | 110 => some 10
  | 114 => some 13
  | 116 => some 9
  | _ => none

/-- The replacement character, backwards. -/
def lost : Text := (Text.ofChar Glyph.replacement).reverse

/-- What has been read, backwards, when no second half follows a first half of a pair. -/
def flush (high : Option Nat) (done : Text) : Text := if high.isSome then lost ++ done else done

/-- The inside of a string after `done`, which is kept backwards; `high` is the first half of a
surrogate pair that has just been read. A half without its other half is lost. -/
def readString (high : Option Nat) (done : Text) : Text → Option (Text × Text)
  | [] => none
  | 34 :: rest => some ((flush high done).reverse, rest)
  | 92 :: 117 :: a :: b :: c :: d :: rest =>
    match unit? [a, b, c, d] with
    | none => none
    | some n =>
      if 0xDC00 ≤ n ∧ n ≤ 0xDFFF then
        match high with
        | some h =>
          let c := Char.ofNat (0x10000 + (h - 0xD800) * 1024 + (n - 0xDC00))
          readString none ((Text.ofChar c).reverse ++ done) rest
        | none => readString none (lost ++ done) rest
      else if 0xD800 ≤ n ∧ n ≤ 0xDBFF then readString (some n) (flush high done) rest
      else readString none ((Text.ofChar (Char.ofNat n)).reverse ++ flush high done) rest
  | 92 :: e :: rest =>
    match escape? e with
    | none => none
    | some b => readString none (b :: flush high done) rest
  | b :: rest => if b < 0x20 then none else readString none (b :: flush high done) rest

/-- The text with every stray byte replaced by the replacement character. -/
def repaired (t : Text) : Text := (Text.glyphs t).flatMap fun g => Text.ofChar g.char

def string? (t : Text) : Option (Text × Text) :=
  (readString none [] t).map fun (s, rest) => (repaired s, rest)

def digits? (t : Text) : Option (Text × Text) :=
  let digits := t.takeWhile Decimal.isDigit
  if digits.isEmpty then none else some (digits, t.dropWhile Decimal.isDigit)

/-- A fraction at the front, if there is one; a point needs a digit after it. -/
def fraction? : Text → Option (Text × Text)
  | 46 :: t => (digits? t).map fun (digits, rest) => (46 :: digits, rest)
  | t => some ([], t)

/-- An exponent at the front, if there is one. -/
def exponent? : Text → Option (Text × Text)
  | [] => some ([], [])
  | e :: t =>
    if e = 101 ∨ e = 69 then
      match t with
      | s :: rest =>
        if s = 43 ∨ s = 45 then
          (digits? rest).map fun (digits, rest) => (e :: s :: digits, rest)
        else (digits? t).map fun (digits, rest) => (e :: digits, rest)
      | [] => none
    else some ([], e :: t)

/-- The spelling of a number at the front. No digit follows a leading zero. -/
def number? (t : Text) : Option (Text × Text) := do
  let (sign, t) : Text × Text := match t with
    | 45 :: rest => ([45], rest)
    | t => ([], t)
  let (whole, t) ← match t with
    | 48 :: rest => some ([48], rest)
    | t => digits? t
  let (fraction, t) ← fraction? t
  let (exponent, t) ← exponent? t
  some (sign ++ whole ++ fraction ++ exponent, t)

def word? (word : String) (t : Text) : Option Text :=
  if (Text.ofString word).isPrefixOf t then some (t.drop (Text.ofString word).length) else none

mutual

/-- A value after blanks, nested in fewer than `depth` others. -/
def value? : (fuel depth : Nat) → Text → Option (Json × Text)
  | 0, _, _ => none
  | fuel + 1, depth, t =>
    match skipBlanks t with
    | [] => none
    | b :: rest =>
      if b = 34 then (string? rest).map fun (s, rest) => (.string s, rest)
      else if b = 91 then
        match depth with
        | 0 => none
        | depth + 1 =>
          match skipBlanks rest with
          | 93 :: rest => some (.array [], rest)
          | rest => items? fuel depth [] rest
      else if b = 123 then
        match depth with
        | 0 => none
        | depth + 1 =>
          match skipBlanks rest with
          | 125 :: rest => some (.object [], rest)
          | rest => members? fuel depth [] rest
      else if b = 110 then (word? "null" (b :: rest)).map fun rest => (.null, rest)
      else if b = 116 then (word? "true" (b :: rest)).map fun rest => (.bool true, rest)
      else if b = 102 then (word? "false" (b :: rest)).map fun rest => (.bool false, rest)
      else (number? (b :: rest)).map fun (spelling, rest) => (.number spelling, rest)

/-- The items of an array after those in `done`, which are kept backwards. -/
def items? : (fuel depth : Nat) → List Json → Text → Option (Json × Text)
  | 0, _, _, _ => none
  | fuel + 1, depth, done, t =>
    match value? fuel depth t with
    | none => none
    | some (item, t) =>
      match skipBlanks t with
      | 44 :: rest => items? fuel depth (item :: done) rest
      | 93 :: rest => some (.array (item :: done).reverse, rest)
      | _ => none

/-- The members of an object after those in `done`, which are kept backwards. -/
def members? : (fuel depth : Nat) → List (Text × Json) → Text → Option (Json × Text)
  | 0, _, _, _ => none
  | fuel + 1, depth, done, t =>
    match skipBlanks t with
    | 34 :: t =>
      match string? t with
      | none => none
      | some (key, t) =>
        match skipBlanks t with
        | 58 :: t =>
          match value? fuel depth t with
          | none => none
          | some (value, t) =>
            match skipBlanks t with
            | 44 :: rest => members? fuel depth ((key, value) :: done) rest
            | 125 :: rest => some (.object ((key, value) :: done).reverse, rest)
            | _ => none
        | _ => none
    | _ => none

end

/-- The document that a text holds, with nothing but blanks around it. -/
def parse? (t : Text) : Option Json :=
  match value? (2 * t.length + 2) maxDepth t with
  | some (json, rest) => if (skipBlanks rest).isEmpty then some json else none
  | none => none

end Lox.Json
