import Lox.Proofs.Decimal.ReadBack
import Lox.Proofs.Lexing.Glyphs
import Lox.Token.Segment

/-! The lexemes of the language. Whatever a source text is cut into, each of its lexemes is cut out
again wherever it stands before a delimiter. -/
namespace Lox

/-- The kinds with one spelling that is no word, each with its spelling. -/
def Kind.signs : List (Kind × Text) :=
  [(.leftParen, "("), (.rightParen, ")"), (.leftBrace, "\x7b"), (.rightBrace, "\x7d"),
   (.comma, ","), (.dot, "."), (.minus, "-"), (.plus, "+"), (.semicolon, ";"), (.slash, "/"),
   (.star, "*"), (.bang, "!"), (.bangEqual, "!="), (.equal, "="), (.equalEqual, "=="),
   (.greater, ">"), (.greaterEqual, ">="), (.less, "<"), (.lessEqual, "<=")]

namespace Segment

/-- The spellings of the tokens of each kind. -/
inductive Lexeme : Kind → Text → Prop where
  | sign {k : Kind} {t : Text} (h : (k, t) ∈ Kind.signs) : Lexeme k t
  | string {s : Text} (h : ∀ b ∈ s, b ≠ Text.quote ∧ b ≠ Text.newline) :
      Lexeme .string (Text.quote :: (s ++ [Text.quote]))
  | number {t : Text} (h : Decimal.IsNumeral t) : Lexeme .number t
  | word {g : Glyph} {gs : List Glyph} (hBegins : beginsName g.char = true)
      (hContinues : ∀ h ∈ gs, continuesName h.char = true) (hWhole : ∀ h ∈ g :: gs, h.IsWhole) :
      Lexeme (Kind.ofWord (Text.ofGlyphs (g :: gs))) (Text.ofGlyphs (g :: gs))

/-- The bytes that go on no lexeme before them: blank, newline, semicolon, closing parenthesis. -/
def delimiters : List UInt8 := [32, 10, 59, 41]

/-- The text begins with a delimiter, or is empty. -/
def Delimits (t : Text) : Prop := ∀ b ∈ t.head?, b ∈ delimiters

/-- The text is a lexeme of the kind wherever it stands before a delimiter. -/
def Spells (k : Kind) (t : Text) : Prop :=
  ∀ rest, Delimits rest → ofText (t ++ rest) = .lexeme k t :: ofText rest

open Glyph Text

theorem all_cons (g : Glyph) (rest : List Glyph) :
    all (g :: rest) = (next g rest).1 :: all (next g rest).2 := by
  rw [all]

/-- Scanning takes one segment after the other. -/
theorem ofText_cons {b : UInt8} (h : b < 128) (rest : Text) :
    ofText (b :: rest) = (next (ascii b) (glyphs rest)).1 :: all (next (ascii b) (glyphs rest)).2 := by
  rw [ofText, glyphs_of_ascii h, all_cons]

theorem ofText_nil : ofText [] = [] := by
  rw [ofText, glyphs, all]

/-- A sign of one byte that no other sign begins with. -/
theorem ofText_single {b : UInt8} {k : Kind} (h : b < 128)
    (hNext : ∀ rest, next (ascii b) rest = single k (ascii b) rest) (rest : Text) :
    ofText (b :: rest) = .lexeme k [b] :: ofText rest := by
  rw [ofText_cons h, hNext]
  rfl

/-- A sign of one byte that an equals sign would change. -/
theorem ofText_alone {b : UInt8} {k joined : Kind} (h : b < 128)
    (hNext : ∀ rest, next (ascii b) rest = withEqual k joined (ascii b) rest) {rest : Text}
    (hRest : rest.head? ≠ some 61) : ofText (b :: rest) = .lexeme k [b] :: ofText rest := by
  rw [ofText_cons h, hNext]
  cases rest with
  | nil => simp [withEqual, glyphs, ofText_nil, all, ascii]
  | cons c rest =>
      have hChar : (first c rest).char ≠ '=' := by
        intro hChar
        exact hRest (by simp [@eq_of_char_first c 61 rest (by decide) (by decide) hChar])
      rw [ofText, glyphs_cons, withEqual, if_neg hChar]
      rfl

/-- A sign of two bytes of which the second is an equals sign. -/
theorem ofText_joined {b : UInt8} {k joined : Kind} (h : b < 128)
    (hNext : ∀ rest, next (ascii b) rest = withEqual k joined (ascii b) rest) (rest : Text) :
    ofText (b :: 61 :: rest) = .lexeme joined [b, 61] :: ofText rest := by
  rw [ofText_cons h, hNext, glyphs_of_ascii (by decide), withEqual,
    if_pos (show (ascii 61).char = '=' from rfl)]
  rfl

/-- A slash is a sign of its own unless another one follows. -/
theorem ofText_slash {rest : Text} (hRest : rest.head? ≠ some 47) :
    ofText (47 :: rest) = .lexeme .slash [47] :: ofText rest := by
  have hNext : ∀ rest, next (ascii 47) rest = slash (ascii 47) rest := fun _ => rfl
  rw [ofText_cons (by decide), hNext]
  cases rest with
  | nil => simp [slash, glyphs, ofText_nil, all, ascii]
  | cons c rest =>
      have hChar : (first c rest).char ≠ '/' := by
        intro hChar
        exact hRest (by simp [@eq_of_char_first c 47 rest (by decide) (by decide) hChar])
      rw [ofText, glyphs_cons, slash, if_neg hChar]
      rfl

theorem signs_eq : Kind.signs =
    [(.leftParen, [40]), (.rightParen, [41]), (.leftBrace, [123]), (.rightBrace, [125]),
     (.comma, [44]), (.dot, [46]), (.minus, [45]), (.plus, [43]), (.semicolon, [59]), (.slash, [47]),
     (.star, [42]), (.bang, [33]), (.bangEqual, [33, 61]), (.equal, [61]), (.equalEqual, [61, 61]),
     (.greater, [62]), (.greaterEqual, [62, 61]), (.less, [60]), (.lessEqual, [60, 61])] := by
  decide

/-- A sign is cut out where nothing that follows could go on it. -/
theorem ofText_sign {k : Kind} {t rest : Text} (h : (k, t) ∈ Kind.signs)
    (hEqual : rest.head? ≠ some 61) (hSlash : rest.head? ≠ some 47) :
    ofText (t ++ rest) = .lexeme k t :: ofText rest := by
  simp only [signs_eq, List.mem_cons, List.not_mem_nil, or_false, Prod.mk.injEq] at h
  rcases h with ⟨rfl, rfl⟩ | ⟨rfl, rfl⟩ | ⟨rfl, rfl⟩ | ⟨rfl, rfl⟩ | ⟨rfl, rfl⟩ | ⟨rfl, rfl⟩ |
    ⟨rfl, rfl⟩ | ⟨rfl, rfl⟩ | ⟨rfl, rfl⟩ | ⟨rfl, rfl⟩ | ⟨rfl, rfl⟩ | ⟨rfl, rfl⟩ | ⟨rfl, rfl⟩ |
    ⟨rfl, rfl⟩ | ⟨rfl, rfl⟩ | ⟨rfl, rfl⟩ | ⟨rfl, rfl⟩ | ⟨rfl, rfl⟩ | ⟨rfl, rfl⟩
  all_goals first
    | exact ofText_slash hSlash
    | exact ofText_single (by decide) (fun _ => rfl) rest
    | exact ofText_joined (by decide) (fun _ => rfl) rest
    | exact ofText_alone (by decide) (fun _ => rfl) hEqual

/-- The bytes of white space: blank, carriage return, tab, newline. -/
def blanks : List UInt8 := [32, 13, 9, 10]

/-- White space is cut into single bytes. -/
theorem ofText_blank {b : UInt8} (h : b ∈ blanks) (rest : Text) :
    ofText (b :: rest) = .blank [b] :: ofText rest := by
  have hPlain : ∀ b ∈ blanks, b < 128 := by decide +kernel
  rw [ofText_cons (hPlain b h)]
  simp only [blanks, List.mem_cons, List.not_mem_nil, or_false] at h
  rcases h with rfl | rfl | rfl | rfl <;> rfl

/-- A comment goes on to the end of its line. -/
theorem ofText_comment (t : Text) :
    ofText (47 :: 47 :: t) = .comment (47 :: 47 :: t.takeWhile (· != newline)) ::
      ofText (t.dropWhile (· != newline)) := by
  obtain ⟨hTake, hDrop⟩ := span_glyphs (sorts_ne (b := newline) (by decide) (by decide)) t
  have hNext : next (ascii 47) (glyphs (47 :: t)) =
      (.comment (47 :: 47 :: t.takeWhile (· != newline)), glyphs (t.dropWhile (· != newline))) := by
    rw [glyphs_of_ascii (by decide), ← hTake, ← hDrop]
    rfl
  rw [ofText_cons (by decide), hNext]
  rfl

def isInside (b : UInt8) : Bool := b != quote && b != newline

/-- Whether a glyph can stand inside a string is told by its bytes. -/
theorem sorts_isInside : Sorts (fun g => g.char != '"' && g.char != '\n') isInside :=
  (sorts_ne (b := quote) (by decide) (by decide)).and (sorts_ne (b := newline) (by decide) (by decide))

theorem isInside_iff {b : UInt8} : isInside b = true ↔ b ≠ quote ∧ b ≠ newline := by
  simp [isInside]

/-- What follows a quote, up to the first byte that cannot stand inside a string. -/
theorem next_quote {s r : Text} (hs : ∀ b ∈ s, isInside b = true)
    (hr : ∀ b ∈ r.head?, isInside b = false) :
    next (ascii quote) (glyphs (s ++ r)) = match glyphs r with
      | [] => (.unterminated (quote :: s) false, [])
      | last :: rest =>
        if last.char = '"' then (.lexeme .string (quote :: (s ++ last.bytes)), rest)
        else (.unterminated (quote :: s) true, rest) := by
  obtain ⟨hTake, hDrop⟩ := span_glyphs_append sorts_isInside hs hr
  have hNext : next (ascii quote) (glyphs (s ++ r)) = string (ascii quote) (glyphs (s ++ r)) := rfl
  rw [hNext, string, hDrop]
  have hBody : ofGlyphs (ascii quote :: (glyphs (s ++ r)).takeWhile
      fun g => g.char != '"' && g.char != '\n') = quote :: s := congrArg (quote :: ·) hTake
  cases glyphs r with
  | nil => simp only [hBody]
  | cons last rest =>
      have hClosed : ofGlyphs (ascii quote :: (glyphs (s ++ r)).takeWhile
          (fun g => g.char != '"' && g.char != '\n') ++ [last]) = quote :: (s ++ last.bytes) := by
        rw [ofGlyphs, List.flatMap_append, ← ofGlyphs, hBody, List.flatMap_singleton]
        rfl
      simp only [hBody, hClosed]

/-- A string goes on to the next quote. -/
theorem ofText_closed {s : Text} (hs : ∀ b ∈ s, isInside b = true) (rest : Text) :
    ofText (quote :: (s ++ quote :: rest)) =
      .lexeme .string (quote :: (s ++ [quote])) :: ofText rest := by
  rw [ofText_cons (by decide), next_quote hs (by simp [isInside]), glyphs_of_ascii (by decide)]
  rfl

/-- A string that is left open at the end of its line is cut off there. -/
theorem ofText_broken {s : Text} (hs : ∀ b ∈ s, isInside b = true) (rest : Text) :
    ofText (quote :: (s ++ newline :: rest)) = .unterminated (quote :: s) true :: ofText rest := by
  rw [ofText_cons (by decide), next_quote hs (by simp [isInside]), glyphs_of_ascii (by decide)]
  rfl

/-- A string that is left open at the end of the text goes on to it. -/
theorem ofText_unclosed {s : Text} (hs : ∀ b ∈ s, isInside b = true) :
    ofText (quote :: s) = [.unterminated (quote :: s) false] := by
  have hNext := next_quote (r := []) hs (by simp)
  rw [List.append_nil] at hNext
  rw [ofText_cons (by decide), hNext]
  simp [glyphs, all]

/-- Whole glyphs are read back from their bytes. -/
theorem glyphs_of_whole {gs : List Glyph} (h : ∀ g ∈ gs, g.IsWhole) (rest : Text) :
    glyphs (ofGlyphs gs ++ rest) = gs ++ glyphs rest := by
  induction gs with
  | nil => rfl
  | cons g gs ih =>
      rw [ofGlyphs, List.flatMap_cons, List.append_assoc, h g (by simp), List.cons_append]
      rw [ofGlyphs] at ih
      rw [ih fun g' hg' => h g' (by simp [hg'])]

theorem beginsName_of_isDigit {c : Char} (h : isDigit c = true) : beginsName c = false := by
  have hTable : ∀ n < 58, 48 ≤ n → beginsName (Char.ofNat n) = false := by decide
  simp only [isDigit, Bool.and_eq_true, decide_eq_true_eq] at h
  rw [← Char.ofNat_toNat c]
  exact hTable c.toNat (Nat.lt_succ_of_le h.2) h.1

theorem next_of_beginsName {g : Glyph} (h : beginsName g.char = true) (rest : List Glyph) :
    next g rest = word g rest := by
  have hDigit : isDigit g.char = false := by
    by_contra hDigit
    rw [beginsName_of_isDigit (by simpa using hDigit)] at h
    cases h
  unfold next
  split
  case h_21 => rw [if_neg (by simp [hDigit]), if_pos h]
  all_goals
    rename_i hChar
    rw [hChar] at h
    exact absurd h (by decide)

/-- A word before something that does not continue it. -/
theorem ofText_word {g : Glyph} {gs : List Glyph} (hBegins : beginsName g.char = true)
    (hContinues : ∀ h ∈ gs, continuesName h.char = true) (hWhole : ∀ h ∈ g :: gs, h.IsWhole)
    {rest : Text} (hRest : ∀ h ∈ (glyphs rest).head?, continuesName h.char = false) :
    ofText (ofGlyphs (g :: gs) ++ rest) =
      .lexeme (Kind.ofWord (ofGlyphs (g :: gs))) (ofGlyphs (g :: gs)) :: ofText rest := by
  have hSpan : (gs ++ glyphs rest).takeWhile (continuesName ·.char) = gs ∧
      (gs ++ glyphs rest).dropWhile (continuesName ·.char) = glyphs rest := by
    rw [List.takeWhile_append_of_pos hContinues, List.dropWhile_append_of_pos hContinues]
    cases hGlyphs : glyphs rest with
    | nil => simp
    | cons h more => simp [hRest h (by simp [hGlyphs])]
  rw [ofText, glyphs_of_whole hWhole, List.cons_append, all_cons, next_of_beginsName hBegins, word,
    hSpan.1, hSpan.2]
  rfl

theorem isDigit_iff {c : Char} : isDigit c = true ↔ 48 ≤ c.toNat ∧ c.toNat ≤ 57 := by
  simp only [isDigit, Bool.and_eq_true, decide_eq_true_eq]
  rfl

/-- Whether a glyph is a digit is told by its byte. -/
theorem sorts_isDigit : Sorts (isDigit ·.char) Decimal.isDigit := by
  have hByte (b : UInt8) : Decimal.isDigit b = true ↔ 48 ≤ b.toNat ∧ b.toNat ≤ 57 := by
    simp only [Decimal.isDigit, Bool.and_eq_true, decide_eq_true_eq, UInt8.le_iff_toNat_le]
    rfl
  constructor
  · intro b hb
    rw [Bool.eq_iff_iff, isDigit_iff, hByte, toNat_char_ascii hb]
  · intro g hWide b hb
    have hWideChar := hWide.char
    have hWideByte : 128 ≤ b.toNat := UInt8.le_iff_toNat_le.mp (hWide.bytes b hb)
    rw [Bool.eq_iff_iff, isDigit_iff, hByte]
    omega

theorem isDigit_ascii {b : UInt8} (h : Decimal.isDigit b = true) :
    b < 128 ∧ isDigit (ascii b).char = true := by
  have hPlain : b < 128 := by
    simp only [Decimal.isDigit, Bool.and_eq_true, decide_eq_true_eq] at h
    exact UInt8.lt_of_le_of_lt h.2 (by decide)
  exact ⟨hPlain, by rw [← h, sorts_isDigit.plain b hPlain]⟩

theorem next_of_isDigit {g : Glyph} (h : isDigit g.char = true) (rest : List Glyph) :
    next g rest = number g rest := by
  unfold next
  split
  case h_21 => rw [if_pos h]
  all_goals
    rename_i hChar
    rw [hChar] at h
    exact absurd h (by decide)

/-- A point before a digit goes on a number. -/
def BeginsFraction (t : Text) : Prop := ∃ d r, t = 46 :: d :: r ∧ Decimal.isDigit d = true

/-- A point and a digit among the glyphs stand among the bytes. -/
theorem beginsFraction_of_glyphs {t : Text} {point digit : Glyph} {more : List Glyph}
    (h : glyphs t = point :: digit :: more) (hPoint : point.char = '.')
    (hDigit : isDigit digit.char = true) : BeginsFraction t := by
  cases t with
  | nil => simp [glyphs] at h
  | cons a t =>
      have hFirst : first a t = point := by
        rw [glyphs_cons] at h
        exact (List.cons.inj h).1
      obtain rfl : a = 46 := eq_of_char_first (by decide) (by decide) (hFirst ▸ hPoint)
      rw [glyphs_of_ascii (by decide), List.cons.injEq] at h
      cases t with
      | nil => simp [glyphs] at h
      | cons d r =>
          have hSecond : first d r = digit := by
            rw [glyphs_cons] at h
            exact (List.cons.inj h.2).1
          refine ⟨d, r, rfl, ?_⟩
          rw [← hSecond] at hDigit
          rcases first_spec d r with ⟨hd, hAscii⟩ | hWide
          · rw [← sorts_isDigit.plain d hd, ← hAscii]
            exact hDigit
          · obtain ⟨tail, _, _, hBytes⟩ := bytes_first d r
            rw [← sorts_isDigit.wide _ hWide d (by simp [hBytes])]
            exact hDigit

/-- Digits before something that goes on neither them nor the number. -/
theorem ofText_whole {s rest : Text} (hs : Decimal.IsDigits s)
    (hRest : ∀ b ∈ rest.head?, Decimal.isDigit b = false) (hPoint : ¬ BeginsFraction rest) :
    ofText (s ++ rest) = .lexeme .number s :: ofText rest := by
  obtain ⟨hSome, hDigits⟩ := hs
  obtain ⟨b, s, rfl⟩ := List.exists_cons_of_ne_nil hSome
  obtain ⟨hb, hTail⟩ := List.forall_mem_cons.mp hDigits
  obtain ⟨hPlain, hDigit⟩ := isDigit_ascii hb
  obtain ⟨hTake, hDrop⟩ := span_glyphs_append sorts_isDigit hTail hRest
  have hText : ofGlyphs (ascii b :: (glyphs (s ++ rest)).takeWhile (isDigit ·.char)) = b :: s :=
    congrArg (b :: ·) hTake
  have hNumber : number (ascii b) (glyphs (s ++ rest)) = (.lexeme .number (b :: s), glyphs rest) := by
    rw [number, hDrop]
    split
    next point digit more hGlyphs =>
      have hOther : ¬ (point.char = '.' ∧ isDigit digit.char = true) :=
        fun h => hPoint (beginsFraction_of_glyphs hGlyphs h.1 h.2)
      rw [if_neg hOther, hText, hGlyphs]
    next => rw [hText]
  rw [List.cons_append, ofText_cons hPlain, next_of_isDigit hDigit, hNumber]
  rfl

/-- Digits, a point and more digits, before something that goes on none of these. -/
theorem ofText_point {s t rest : Text} (hs : Decimal.IsDigits s) (ht : Decimal.IsDigits t)
    (hRest : ∀ b ∈ rest.head?, Decimal.isDigit b = false) :
    ofText (s ++ 46 :: (t ++ rest)) = .lexeme .number (s ++ 46 :: t) :: ofText rest := by
  obtain ⟨hSome, hDigits⟩ := hs
  obtain ⟨b, s, rfl⟩ := List.exists_cons_of_ne_nil hSome
  obtain ⟨hb, hTail⟩ := List.forall_mem_cons.mp hDigits
  obtain ⟨hPlain, hDigit⟩ := isDigit_ascii hb
  obtain ⟨hSome', hDigits'⟩ := ht
  obtain ⟨d, t, rfl⟩ := List.exists_cons_of_ne_nil hSome'
  obtain ⟨hd, hTail'⟩ := List.forall_mem_cons.mp hDigits'
  obtain ⟨hPlain', hDigit'⟩ := isDigit_ascii hd
  obtain ⟨hTake, hDrop⟩ := span_glyphs_append (r := 46 :: (d :: t ++ rest)) sorts_isDigit hTail
    (by simp; decide)
  obtain ⟨hTake', hDrop'⟩ := span_glyphs_append sorts_isDigit hTail' hRest
  have hGlyphs : glyphs (46 :: (d :: t ++ rest)) = ascii 46 :: ascii d :: glyphs (t ++ rest) := by
    rw [glyphs_of_ascii (by decide), List.cons_append, glyphs_of_ascii hPlain']
  have hText : ofGlyphs (ascii b :: (glyphs (s ++ 46 :: (d :: t ++ rest))).takeWhile (isDigit ·.char)
      ++ ascii 46 :: ascii d :: (glyphs (t ++ rest)).takeWhile (isDigit ·.char)) =
      b :: s ++ 46 :: d :: t := by
    rw [ofGlyphs, List.flatMap_append]
    exact congrArg₂ (b :: · ++ 46 :: d :: ·) hTake hTake'
  have hNumber : number (ascii b) (glyphs (s ++ 46 :: (d :: t ++ rest))) =
      (.lexeme .number (b :: s ++ 46 :: d :: t), glyphs rest) := by
    rw [number, hDrop, hGlyphs]
    dsimp only
    rw [if_pos ⟨rfl, hDigit'⟩, hText, hDrop']
  rw [List.cons_append, ofText_cons hPlain, next_of_isDigit hDigit, hNumber]
  rfl

theorem Delimits.ne_of_notMem {rest : Text} (h : Delimits rest) {b : UInt8}
    (hb : b ∉ delimiters) : rest.head? ≠ some b :=
  fun hHead => hb (h b hHead)

/-- A delimiter is a glyph of its own. -/
theorem Delimits.head_glyphs {rest : Text} (h : Delimits rest) :
    ∀ g ∈ (glyphs rest).head?, ∃ b ∈ delimiters, g = ascii b := by
  cases rest with
  | nil => simp [glyphs]
  | cons c rest =>
      have hPlain : ∀ b ∈ delimiters, b < 128 := by decide +kernel
      have hc : c ∈ delimiters := h c rfl
      rw [glyphs_of_ascii (hPlain c hc)]
      simpa using ⟨c, hc, rfl⟩

/-- A word before a delimiter is a lexeme. -/
theorem spells_word {g : Glyph} {gs : List Glyph} (hBegins : beginsName g.char = true)
    (hContinues : ∀ h ∈ gs, continuesName h.char = true) (hWhole : ∀ h ∈ g :: gs, h.IsWhole) :
    Spells (Kind.ofWord (ofGlyphs (g :: gs))) (ofGlyphs (g :: gs)) := by
  intro rest hRest
  have hTable : ∀ b ∈ delimiters, continuesName (ascii b).char = false := by decide +kernel
  refine ofText_word hBegins hContinues hWhole fun h hHead => ?_
  obtain ⟨b, hb, rfl⟩ := hRest.head_glyphs h hHead
  exact hTable b hb

/-- A numeral before a delimiter is a lexeme. -/
theorem spells_number {t : Text} (h : Decimal.IsNumeral t) : Spells .number t := by
  intro rest hRest
  have hTable : ∀ b ∈ delimiters, Decimal.isDigit b = false := by decide +kernel
  have hDigits : ∀ b ∈ rest.head?, Decimal.isDigit b = false := fun b hb => hTable b (hRest b hb)
  cases h with
  | whole h =>
      refine ofText_whole h hDigits ?_
      rintro ⟨d, r, rfl, _⟩
      exact hRest.ne_of_notMem (b := 46) (by decide) rfl
  | point hWhole hFraction =>
      rw [List.append_assoc, List.cons_append]
      exact ofText_point hWhole hFraction hDigits

/-- Every lexeme is scanned whole before a delimiter. -/
theorem Lexeme.spells {k : Kind} {t : Text} (h : Lexeme k t) : Spells k t := by
  cases h with
  | sign h =>
      exact fun rest hRest =>
        ofText_sign h (hRest.ne_of_notMem (by decide)) (hRest.ne_of_notMem (by decide))
  | string h =>
      intro rest _
      rw [List.cons_append, List.append_assoc]
      exact ofText_closed (fun b hb => isInside_iff.mpr (h b hb)) rest
  | number h => exact spells_number h
  | word hBegins hContinues hWhole => exact spells_word hBegins hContinues hWhole

end Segment
end Lox
