import Lox.Json.Reader
import Lox.Proofs.Decimal.Numerals

/-! Numbers in JSON. Whole numbers and doubles are spelled as JSON has it, and a number that is spelled
so is read to its end. -/
namespace Lox

open Decimal (IsDigits isDigit isDigits_ofNat digitsValue)

namespace Json

/-- Digits, of which the first is a zero only if it is the only one. -/
inductive IsInteger : Text → Prop
  | zero : IsInteger [48]
  | digits {d : UInt8} {ds : Text} (hFirst : d ≠ 48) (h : IsDigits (d :: ds)) : IsInteger (d :: ds)

/-- A point and digits, or nothing. -/
inductive IsFraction : Text → Text → Prop
  | absent : IsFraction [] []
  | present {ds : Text} (h : IsDigits ds) : IsFraction (46 :: ds) ds

/-- An exponent with its sign, or nothing. -/
inductive IsExponent : Text → Int → Prop
  | absent : IsExponent [] 0
  | positive {ds : Text} (h : IsDigits ds) : IsExponent (101 :: 43 :: ds) (digitsValue ds)
  | negative {ds : Text} (h : IsDigits ds) : IsExponent (101 :: 45 :: ds) (-digitsValue ds)

/-- The text spells a number without a sign. -/
inductive Spells : Text → ℚ → Prop
  | mk {whole fraction exponent places : Text} {scale : Int} (hWhole : IsInteger whole)
      (hFraction : IsFraction fraction places) (hExponent : IsExponent exponent scale) :
      Spells (whole ++ fraction ++ exponent)
        (digitsValue (whole ++ places) * 10 ^ (scale - places.length))

inductive IsNumber : Text → Prop
  | plain {t : Text} {v : ℚ} (h : Spells t v) : IsNumber t
  | negative {t : Text} {v : ℚ} (h : Spells t v) : IsNumber (45 :: t)

/-- The text does not go on a number that stands before it. -/
def EndsNumber (rest : Text) : Prop :=
  ∀ b ∈ rest.head?, isDigit b = false ∧ b ≠ 46 ∧ b ≠ 101 ∧ b ≠ 69

variable {t rest places : Text} {scale : Int} {v : ℚ}

/-- Digits are read up to the first byte that is none. -/
theorem span_digits {ds : Text} (h : ∀ b ∈ ds, isDigit b = true)
    (hRest : ∀ b ∈ rest.head?, isDigit b = false) :
    (ds ++ rest).takeWhile isDigit = ds ∧ (ds ++ rest).dropWhile isDigit = rest := by
  rw [List.takeWhile_append_of_pos h, List.dropWhile_append_of_pos h]
  cases rest with
  | nil => simp
  | cons b rest =>
      have hb := hRest b rfl
      rw [List.takeWhile_cons_of_neg (by simp [hb]), List.dropWhile_cons_of_neg (by simp [hb])]
      simp

theorem digits?_append {ds : Text} (h : IsDigits ds) (hRest : ∀ b ∈ rest.head?, isDigit b = false) :
    digits? (ds ++ rest) = some (ds, rest) := by
  obtain ⟨hTake, hDrop⟩ := span_digits h.2 hRest
  rw [digits?, hTake, hDrop]
  simp [h.1]

/-- An exponent is read whole before what does not go on a number. -/
theorem IsExponent.read (h : IsExponent t scale) (hRest : EndsNumber rest) :
    exponent? (t ++ rest) = some (t, rest) := by
  cases h with
  | absent =>
      cases rest with
      | nil => rfl
      | cons b rest =>
          obtain ⟨-, -, hLower, hUpper⟩ := hRest b rfl
          rw [List.nil_append, exponent?.eq_def]
          simp only [hLower, hUpper, or_self, ↓reduceIte]
  | positive h =>
      rw [List.cons_append, List.cons_append, exponent?.eq_def]
      simp only [true_or, ↓reduceIte, digits?_append h fun b hb => (hRest b hb).1, Option.map_some]
  | negative h =>
      rw [List.cons_append, List.cons_append, exponent?.eq_def]
      simp only [true_or, or_true, ↓reduceIte, digits?_append h fun b hb => (hRest b hb).1,
        Option.map_some]

/-- Neither a digit nor a point begins an exponent or what follows a number. -/
theorem IsExponent.head (h : IsExponent t scale) (hRest : EndsNumber rest) :
    ∀ b ∈ (t ++ rest).head?, isDigit b = false ∧ b ≠ 46 := by
  cases h with
  | absent => exact fun b hb => ⟨(hRest b hb).1, (hRest b hb).2.1⟩
  | positive => simp [isDigit]
  | negative => simp [isDigit]

/-- The places behind a point are read whole before what is neither digit nor point. -/
theorem IsFraction.read (h : IsFraction t places) (hRest : ∀ b ∈ rest.head?, isDigit b = false ∧ b ≠ 46) :
    fraction? (t ++ rest) = some (t, rest) := by
  cases h with
  | absent =>
      rw [List.nil_append, fraction?.eq_def]
      split
      next => exact absurd rfl (hRest 46 rfl).2
      next => rfl
  | present h =>
      rw [List.cons_append, fraction?, digits?_append h fun b hb => (hRest b hb).1, Option.map_some]

theorem IsFraction.head (h : IsFraction t places) (hRest : ∀ b ∈ rest.head?, isDigit b = false ∧ b ≠ 46) :
    ∀ b ∈ (t ++ rest).head?, isDigit b = false := by
  cases h with
  | absent => exact fun b hb => (hRest b hb).1
  | present => simp [isDigit]

def whole? (t : Text) : Option (Text × Text) :=
  if t.head? = some 48 then some ([48], t.tail) else digits? t

def unsigned? (sign t : Text) : Option (Text × Text) := do
  let (whole, t) ← whole? t
  let (fraction, t) ← fraction? t
  let (exponent, t) ← exponent? t
  some (sign ++ whole ++ fraction ++ exponent, t)

theorem whole?_zero (t : Text) : whole? (48 :: t) = some ([48], t) := rfl

theorem whole?_of_ne (h : ∀ rest, t = 48 :: rest → False) : whole? t = digits? t := by
  refine if_neg fun hHead => ?_
  obtain ⟨rest, hText⟩ := List.head?_eq_some_iff.mp hHead
  exact h rest hText

/-- A number has at most one sign, and it is a minus. -/
theorem number?_eq (t : Text) : number? t =
    if t.head? = some 45 then unsigned? [45] t.tail else unsigned? [] t := by
  rw [number?.eq_def]
  split
  next sign u hSign =>
    have hUnsigned : (if t.head? = some 45 then unsigned? [45] t.tail else unsigned? [] t) =
        unsigned? sign u := by
      split at hSign
      next =>
        cases hSign
        rfl
      next hOther =>
        cases hSign
        refine if_neg fun hHead => ?_
        obtain ⟨rest, hText⟩ := List.head?_eq_some_iff.mp hHead
        exact hOther rest hText
    rw [hUnsigned, unsigned?]
    split
    next rest => rw [whole?_zero]
    next hOther => rw [whole?_of_ne hOther]

/-- The digits before a point are read whole. -/
theorem IsInteger.read (h : IsInteger t) (hRest : ∀ b ∈ rest.head?, isDigit b = false) :
    whole? (t ++ rest) = some (t, rest) := by
  cases h with
  | zero => rfl
  | digits hFirst h =>
      rw [whole?, if_neg (by simpa using hFirst)]
      exact digits?_append h hRest

/-- A number without its sign is read whole before what does not go on a number. -/
theorem Spells.read (h : Spells t v) (hRest : EndsNumber rest) (sign : Text) :
    unsigned? sign (t ++ rest) = some (sign ++ t, rest) := by
  obtain ⟨hWhole, hFraction, hExponent⟩ := h
  have hHead := hExponent.head hRest
  rw [unsigned?, List.append_assoc, List.append_assoc, hWhole.read (hFraction.head hHead)]
  simp only [hFraction.read hHead, hExponent.read hRest, Option.bind_eq_bind, Option.bind_some,
    List.append_assoc]

/-- A number begins with a digit, or with a minus sign. -/
theorem Spells.head (h : Spells t v) : ∃ d u, t = d :: u ∧ isDigit d = true := by
  obtain ⟨hWhole, hFraction, hExponent⟩ := h
  cases hWhole with
  | zero => exact ⟨48, _, rfl, rfl⟩
  | digits _ h => exact ⟨_, _, rfl, h.2 _ List.mem_cons_self⟩

/-- A number is read to its end. -/
theorem IsNumber.read (h : IsNumber t) (hRest : EndsNumber rest) :
    number? (t ++ rest) = some (t, rest) := by
  rw [number?_eq]
  cases h with
  | plain h =>
      obtain ⟨d, u, rfl, hDigit⟩ := h.head
      have hSign : d ≠ 45 := by
        rintro rfl
        exact absurd hDigit (by decide)
      rw [List.cons_append, List.head?_cons, if_neg (by simpa using hSign)]
      exact h.read hRest []
  | negative h => exact h.read hRest [45]

theorem isInteger_of_head (h : IsDigits t) (hHead : ∀ d ∈ t.head?, d ≠ 48) : IsInteger t := by
  cases t with
  | nil => exact absurd rfl h.1
  | cons d ds => exact .digits (hHead d rfl) h

/-- The digits of a positive number do not begin with a zero. -/
theorem head_ofNat {n : Nat} (hPos : 0 < n) : ∀ d ∈ (Text.ofNat n).head?, d ≠ 48 := by
  have hDigit : ∀ k < 10, 0 < k → (48 + k).toUInt8 ≠ 48 := by decide
  induction n using Nat.strongRecOn with
  | ind n ih =>
      rw [Decimal.ofNat_eq]
      split
      next hSmall =>
        rw [Nat.mod_eq_of_lt hSmall]
        simpa using hDigit n hSmall hPos
      next hLarge =>
        rw [List.head?_append_of_ne_nil _ (Decimal.ofNat_ne_nil _)]
        exact ih (n / 10) (by omega) (by omega)

/-- A natural number is written without needless zeros. -/
theorem isInteger_ofNat (n : Nat) : IsInteger (Text.ofNat n) := by
  rcases Nat.eq_zero_or_pos n with rfl | hPos
  · exact .zero
  · exact isInteger_of_head (isDigits_ofNat n) (head_ofNat hPos)

theorem spells_whole (h : IsInteger t) : Spells t (digitsValue t) := by
  have hSpells := Spells.mk h .absent .absent
  simpa using hSpells

/-- A natural number is spelled by its digits. -/
theorem spells_ofNat (n : Nat) : Spells (Text.ofNat n) n := by
  have hSpells := spells_whole (isInteger_ofNat n)
  rwa [Decimal.digitsValue_ofNat] at hSpells

/-- Digits on both sides of a point spell a fraction. -/
theorem spells_point {s : Text} (hWhole : IsInteger s) (hPlaces : IsDigits t) :
    Spells (s ++ 46 :: t) (digitsValue (s ++ t) * 10 ^ (-(t.length : Int))) := by
  have hSpells := Spells.mk hWhole (.present hPlaces) .absent
  simpa using hSpells

/-- An integer is written as a number. -/
theorem isNumber_ofInt (n : Int) : IsNumber (Text.ofInt n) := by
  cases n with
  | ofNat n => exact .plain (spells_ofNat n)
  | negSucc n => exact .negative (spells_ofNat (n + 1))

/-- A row of digits with a point before its last places. -/
theorem spells_cut {row : Text} {places : Nat} (h : IsDigits row) (hHead : ∀ d ∈ row.head?, d ≠ 48)
    (hPlaces : 0 < places) (hLess : places < row.length) :
    Spells (Text.concat [row.take (row.length - places), ".", row.drop (row.length - places)])
      (digitsValue row * 10 ^ (-(places : Int))) := by
  have hWhole : IsDigits (row.take (row.length - places)) := by
    refine ⟨?_, fun b hb => h.2 b (List.mem_of_mem_take hb)⟩
    rw [← List.length_pos_iff_ne_nil, List.length_take]
    omega
  have hFraction : IsDigits (row.drop (row.length - places)) := by
    refine ⟨?_, fun b hb => h.2 b (List.mem_of_mem_drop hb)⟩
    rw [← List.length_pos_iff_ne_nil, List.length_drop]
    omega
  have hFirst : ∀ d ∈ (row.take (row.length - places)).head?, d ≠ 48 := by
    rw [List.head?_take, if_neg (by omega)]
    exact hHead
  have hSpells := spells_point (isInteger_of_head hWhole hFirst) hFraction
  rw [List.take_append_drop, List.length_drop,
    show row.length - (row.length - places) = places by omega] at hSpells
  simpa [Text.concat, show Text.ofString "." = [46] by decide] using hSpells

/-- A row of digits behind a point, filled up with zeros. -/
theorem spells_filled {row : Text} {places : Nat} (h : IsDigits row) (hMore : row.length ≤ places) :
    Spells (Text.concat ["0.", List.replicate (places - row.length) 48, row])
      (digitsValue row * 10 ^ (-(places : Int))) := by
  have hSpells := spells_point .zero (Decimal.isDigits_zeros_append h (places - row.length))
  rw [Decimal.digitsValue_append, Decimal.digitsValue_append, Decimal.digitsValue_zeros,
    List.length_append, List.length_replicate,
    show places - row.length + row.length = places by omega] at hSpells
  simpa [Text.concat, digitsValue, show Text.ofString "0." = [48, 46] by decide] using hSpells

/-- Digits that are laid out around a point spell their value. -/
theorem spells_positional (d : Decimal.Digits) : Spells (Decimal.positional d) d.value := by
  obtain ⟨n, k⟩ := d
  have hDigits := isDigits_ofNat n
  simp only [Decimal.positional, Decimal.Digits.value]
  split
  next hk =>
    have hPow : (10 : ℚ) ^ k = 10 ^ k.toNat := by rw [← zpow_natCast, Int.toNat_of_nonneg hk]
    split
    next hn =>
      rw [hn, show Text.ofString "0" = [48] by decide]
      simpa [digitsValue] using spells_whole .zero
    next hn =>
      have hHead : ∀ d ∈ (Text.ofNat n ++ List.replicate k.toNat 48).head?, d ≠ 48 := by
        rw [List.head?_append_of_ne_nil _ (Decimal.ofNat_ne_nil n)]
        exact head_ofNat (Nat.pos_of_ne_zero hn)
      have hSpells := spells_whole
        (isInteger_of_head (Decimal.isDigits_append_zeros hDigits k.toNat) hHead)
      rw [Decimal.digitsValue_append, Decimal.digitsValue_ofNat, Decimal.digitsValue_zeros,
        List.length_replicate] at hSpells
      simpa [hPow] using hSpells
  next hk =>
    have hPlaces : ((-k).toNat : Int) = -k := Int.toNat_of_nonneg (by omega)
    split
    next hLess =>
      have hLong : n ≠ 0 := by
        rintro rfl
        have hOne : (Text.ofNat 0).length = 1 := rfl
        omega
      have hSpells := spells_cut hDigits (head_ofNat (Nat.pos_of_ne_zero hLong)) (by omega) hLess
      rwa [Decimal.digitsValue_ofNat, hPlaces, neg_neg] at hSpells
    next hMore =>
      have hSpells := spells_filled hDigits (Nat.not_lt.mp hMore)
      rwa [Decimal.digitsValue_ofNat, hPlaces, neg_neg] at hSpells

theorem isExponent_ofInt (e : Int) :
    IsExponent (101 :: (if e < 0 then 45 else 43) :: Text.ofNat e.natAbs) e := by
  have hDigits := isDigits_ofNat e.natAbs
  have hValue := Decimal.digitsValue_ofNat e.natAbs
  split
  next h =>
    have hExponent := IsExponent.negative hDigits
    rwa [hValue, Int.ofNat_natAbs_of_nonpos h.le, neg_neg] at hExponent
  next h =>
    have hExponent := IsExponent.positive hDigits
    rwa [hValue, Int.natAbs_of_nonneg (Int.not_lt.mp h)] at hExponent

/-- Digits that are laid out with an exponent spell their value. -/
theorem spells_scientific (d : Decimal.Digits) : Spells (Decimal.scientific d) d.value := by
  obtain ⟨n, k⟩ := d
  have hDigits := isDigits_ofNat n
  have hValue := Decimal.digitsValue_ofNat n
  simp only [Decimal.scientific, Decimal.Digits.value]
  cases hRow : Text.ofNat n with
  | nil => exact absurd hRow (Decimal.ofNat_ne_nil n)
  | cons b row =>
      rw [hRow] at hDigits hValue
      have hWhole : IsInteger [b] := by
        by_cases hb : b = 48
        · exact hb ▸ .zero
        · exact .digits hb ⟨List.cons_ne_nil b [], by simpa using hDigits.2 b List.mem_cons_self⟩
      have hFraction : IsFraction
          (if (b :: row).length ≤ 1 then [] else Text.concat [".", (b :: row).drop 1]) row := by
        cases row with
        | nil => exact .absent
        | cons c row =>
            rw [if_neg (by simp), show Text.ofString "." = [46] by decide]
            simpa [Text.concat] using @IsFraction.present (c :: row)
              ⟨List.cons_ne_nil c row, fun d hd => hDigits.2 d (List.mem_cons_of_mem b hd)⟩
      have hSpells := Spells.mk hWhole hFraction
        (isExponent_ofInt (k + (((b :: row).length : Int) - 1)))
      have hScale : k + (((b :: row).length : Int) - 1) - row.length = k := by
        rw [List.length_cons]
        push_cast
        ring
      have hNumber : digitsValue ([b] ++ row) = n := hValue
      rw [hNumber, hScale] at hSpells
      convert hSpells using 1
      generalize (if (b :: row).length ≤ 1 then [] else Text.concat [".", (b :: row).drop 1]) = fraction
      have hLetter : Text.ofString "e" = [101] := by decide
      have hMinus : Text.ofString "-" = [45] := by decide
      have hPlus : Text.ofString "+" = [43] := by decide
      split <;> simp [Text.concat, hLetter, hMinus, hPlus]

def sign (negative : Bool) : Text := if negative then [45] else []

/-- A double is spelled as a number in its interval, whatever its size. -/
theorem exists_spells_floatSpelling (x : Float) :
    ∃ t v, floatSpelling x = sign (Decimal.isNegative x) ++ t ∧ Spells t v ∧
      if (Decimal.Dyadic.ofFloat x).m = 0 then v = 0
      else Decimal.InInterval (Decimal.Dyadic.ofFloat x).m (Decimal.Dyadic.ofFloat x).q v := by
  have hSign : (if Decimal.isNegative x then Text.ofString "-" else Text.ofString "") =
      sign (Decimal.isNegative x) := by
    rw [show Text.ofString "-" = [45] by decide, show Text.ofString "" = [] by decide, sign]
  simp only [floatSpelling, hSign]
  split
  next hm =>
    refine ⟨Text.ofNat 0, 0, ?_, by simpa using spells_ofNat 0, rfl⟩
    simp [Text.concat, show Text.ofString "0" = Text.ofNat 0 by decide]
  next hm =>
    have hInterval := Decimal.inInterval_shortest (Nat.pos_of_ne_zero hm)
    split
    · exact ⟨_, _, rfl, spells_positional _, hInterval⟩
    · exact ⟨_, _, rfl, spells_scientific _, hInterval⟩

theorem isNumber_signed (negative : Bool) (h : Spells t v) : IsNumber (sign negative ++ t) := by
  cases negative with
  | true => exact .negative h
  | false => exact .plain h

/-- A double is written as a number. -/
theorem isNumber_floatSpelling (x : Float) : IsNumber (floatSpelling x) := by
  obtain ⟨t, v, hText, hSpells, -⟩ := exists_spells_floatSpelling x
  rw [hText]
  exact isNumber_signed _ hSpells

open Decimal (Numeral splitSign)

/-- The sign can be told from what it stands before. -/
theorem splitSign_signed (h : Spells t v) (negative : Bool) :
    splitSign (sign negative ++ t) = (negative, t) := by
  cases negative with
  | true => rfl
  | false =>
      obtain ⟨d, u, rfl, hDigit⟩ := h.head
      change splitSign (d :: u) = _
      unfold splitSign
      split
      next hEq =>
        cases hEq
        exact absurd hDigit (by decide)
      next hEq =>
        cases hEq
        exact absurd hDigit (by decide)
      next => rfl

theorem IsInteger.isDigits (h : IsInteger t) : IsDigits t := by
  cases h with
  | zero => exact isDigits_ofNat 0
  | digits _ h => exact h

theorem IsFraction.isDigit (h : IsFraction t places) : ∀ b ∈ places, isDigit b = true := by
  cases h with
  | absent => exact List.forall_mem_nil _
  | present h => exact h.2

/-- The digits after a point, if the text starts with one, and what follows. -/
def cutFraction : Text → Text × Text
  | 46 :: rest => (rest.takeWhile isDigit, rest.dropWhile isDigit)
  | t => ([], t)

theorem cutFraction_append (hFraction : IsFraction t places)
    (hHead : ∀ b ∈ rest.head?, isDigit b = false ∧ b ≠ 46) :
    cutFraction (t ++ rest) = (places, rest) := by
  cases hFraction with
  | absent =>
      unfold cutFraction
      split
      next hEq =>
        rw [List.nil_append] at hEq
        exact absurd rfl (hHead 46 (by rw [hEq]; rfl)).2
      next => rfl
  | present h =>
      obtain ⟨hTake, hDrop⟩ := span_digits h.2 fun b hb => (hHead b hb).1
      exact Prod.ext hTake hDrop

/-- What a numeral is made of when its sign, its digits and its point are read. -/
def withExponent? (negative : Bool) (digits places : Text) : Text → Option Numeral
  | [] => some ⟨negative, digits ++ places, -(places.length : Int)⟩
  | e :: t =>
    if (e = 101 ∨ e = 69) ∧ (splitSign t).2 ≠ [] ∧ (splitSign t).2.all isDigit then
      some ⟨negative, digits ++ places, (if (splitSign t).1 then -(digitsValue (splitSign t).2 : Int)
        else digitsValue (splitSign t).2) - places.length⟩
    else none

/-- A numeral is read sign first, then the digits, the point and the exponent. -/
theorem ofText?_eq {u : Text} {negative : Bool} (h : splitSign u = (negative, t)) :
    Numeral.ofText? u =
      if t.takeWhile isDigit = [] ∧ (cutFraction (t.dropWhile isDigit)).1 = [] then none
      else withExponent? negative (t.takeWhile isDigit) (cutFraction (t.dropWhile isDigit)).1
        (cutFraction (t.dropWhile isDigit)).2 := by
  rw [Numeral.ofText?, h]
  rfl

/-- The exponent shifts the point of what was read before it. -/
theorem IsExponent.withExponent? (h : IsExponent t scale) (negative : Bool) (digits places : Text) :
    withExponent? negative digits places t =
      some ⟨negative, digits ++ places, scale - places.length⟩ := by
  cases h with
  | absent => simp [withExponent?]
  | positive h => exact if_pos ⟨.inl rfl, h.1, List.all_eq_true.mpr h.2⟩
  | negative h => exact if_pos ⟨.inl rfl, h.1, List.all_eq_true.mpr h.2⟩

/-- The numeral of a spelling, with or without a minus sign. -/
theorem Spells.ofText? (h : Spells t v) : ∃ digits scale, (∀ b ∈ digits, isDigit b = true) ∧
    (digitsValue digits : ℚ) * 10 ^ scale = v ∧
      ∀ negative, Numeral.ofText? (sign negative ++ t) = some ⟨negative, digits, scale⟩ := by
  have hSplit := splitSign_signed h
  obtain @⟨whole, fraction, exponent, places, scale, hWhole, hFraction, hExponent⟩ := h
  have hDigits := hWhole.isDigits
  refine ⟨whole ++ places, scale - places.length,
    List.forall_mem_append.mpr ⟨hDigits.2, hFraction.isDigit⟩, rfl, fun negative => ?_⟩
  have hHead := @IsExponent.head _ [] _ hExponent (by simp [EndsNumber])
  rw [List.append_nil] at hHead
  obtain ⟨hTake, hDrop⟩ := span_digits hDigits.2 (hFraction.head hHead)
  rw [ofText?_eq (hSplit negative), List.append_assoc, hTake, hDrop,
    cutFraction_append hFraction hHead, if_neg fun hNone => hDigits.1 hNone.1]
  exact hExponent.withExponent? negative whole places

open Decimal (IsDouble InInterval Dyadic)

/-- A number is read as the double in whose interval it lies. -/
theorem Spells.read?_of_inInterval {M : Nat} {q : Int} (h : Spells t v) (hDouble : IsDouble M q)
    (hv : InInterval M q v) (negative : Bool) : Decimal.read? (sign negative ++ t) =
      some (if negative then -hDouble.toFloat else hDouble.toFloat) := by
  obtain ⟨digits, scale, hDigits, rfl, hRead⟩ := h.ofText?
  rw [Decimal.read?, hRead, Option.bind_some]
  exact Decimal.toFloat?_of_inInterval hDigits hDouble hv negative

/-- Zero is read with the sign that it is written with. -/
theorem Spells.read?_of_zero (h : Spells t 0) (negative : Bool) :
    Decimal.read? (sign negative ++ t) = some (if negative then -0.0 else 0.0) := by
  obtain ⟨digits, scale, hDigits, hValue, hRead⟩ := h.ofText?
  have hPow : (10 : ℚ) ^ scale ≠ 0 := by positivity
  have hZero : digitsValue digits = 0 := by
    exact_mod_cast (mul_eq_zero.mp hValue).resolve_right hPow
  rw [Decimal.read?, hRead, Option.bind_some]
  exact Decimal.toFloat?_of_zero hDigits hZero negative

/-- The spelling of a finite double fits a double. -/
theorem isSome_read?_floatSpelling {x : Float} (hNaN : x.isNaN = false) (hInf : x.isInf = false) :
    (Decimal.read? (floatSpelling x)).isSome = true := by
  obtain ⟨t, v, hText, hSpells, hValue⟩ := exists_spells_floatSpelling x
  rw [hText]
  split at hValue
  next =>
    subst hValue
    rw [hSpells.read?_of_zero]
    rfl
  next hm =>
    have hDouble := Decimal.isDouble_ofFloat (Decimal.exponent_ne_of_finite hNaN hInf) hm
    rw [hSpells.read?_of_inInterval hDouble hValue]
    rfl

/-- A whole number below `2^53` is read exactly. -/
theorem exists_read?_ofNat {n : Nat} (hLt : n < 2 ^ 53) : ∃ x : Float,
    (∀ negative, Decimal.read? (sign negative ++ Text.ofNat n) = some (if negative then -x else x)) ∧
      Decimal.isNegative x = false ∧ (Dyadic.ofFloat x).floor = n := by
  have hSpells := spells_ofNat n
  rcases Nat.eq_zero_or_pos n with rfl | hPos
  · rw [Nat.cast_zero] at hSpells
    exact ⟨0.0, hSpells.read?_of_zero, by decide, Decimal.floor_zero⟩
  · have hDouble := Decimal.isDouble_ofNat hPos hLt
    have hInterval := Decimal.inInterval_self (n * 2 ^ (52 - n.log2)) ((n.log2 : Int) - 52)
    rw [Decimal.value_ofNat ((Nat.log2_lt hPos.ne').mpr hLt)] at hInterval
    exact ⟨hDouble.toFloat, hSpells.read?_of_inInterval hDouble hInterval,
      hDouble.isNegative_toFloat, Decimal.floor_toFloat hPos hLt⟩

theorem ofInt_eq (n : Int) : Text.ofInt n = sign (n < 0) ++ Text.ofNat n.natAbs := by
  cases n with
  | ofNat n => rw [Text.ofInt, sign, if_neg (by simp)]; rfl
  | negSucc n => rw [Text.ofInt, sign, if_pos (by simp [Int.negSucc_lt_zero])]; rfl

/-- An integer of at most 53 bits is read as a double. -/
theorem isSome_read?_ofInt {n : Int} (hLt : n.natAbs < 2 ^ 53) :
    (Decimal.read? (Text.ofInt n)).isSome = true := by
  obtain ⟨x, hRead, -⟩ := exists_read?_ofNat hLt
  rw [ofInt_eq, hRead]
  rfl

end Json
end Lox
