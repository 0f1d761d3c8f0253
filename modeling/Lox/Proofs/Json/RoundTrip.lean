import Lox.Proofs.Json.Numbers
import Lox.Proofs.Json.Strings

/-! Documents that are written and read back. A document that is nested no deeper than a reader follows
and whose numbers are spelled as such is read as it was written, with the stray bytes of its texts
replaced. -/
namespace Lox.Json

open Decimal (isDigit)

mutual

/-- The document with the stray bytes of its texts replaced. -/
def repair : Json → Json
  | .null => .null
  | .bool b => .bool b
  | .number spelling => .number spelling
  | .string s => .string (repaired s)
  | .array items => .array (repairItems items)
  | .object members => .object (repairMembers members)

def repairItems : List Json → List Json
  | [] => []
  | item :: rest => repair item :: repairItems rest

def repairMembers : List (Text × Json) → List (Text × Json)
  | [] => []
  | (key, value) :: rest => (repaired key, repair value) :: repairMembers rest

end

/-- The numbers of the document are spelled as such, and it is nested no deeper than `depth`. -/
inductive IsWritten : Nat → Json → Prop
  | null {depth : Nat} : IsWritten depth .null
  | bool {depth : Nat} (b : Bool) : IsWritten depth (.bool b)
  | number {depth : Nat} {spelling : Text} (h : IsNumber spelling) : IsWritten depth (.number spelling)
  | string {depth : Nat} (s : Text) : IsWritten depth (.string s)
  | array {depth : Nat} {items : List Json} (h : ∀ item ∈ items, IsWritten depth item) :
      IsWritten (depth + 1) (.array items)
  | object {depth : Nat} {members : List (Text × Json)} (h : ∀ m ∈ members, IsWritten depth m.2) :
      IsWritten (depth + 1) (.object members)

/-- The byte is neither blank nor a closing bracket. -/
abbrev Begins (b : UInt8) : Prop := b ∉ [32, 9, 10, 13, 93, 125]

variable {fuel depth : Nat} {b : UInt8} {t rest : Text} {j : Json}

theorem skipBlanks_cons (h : b ∉ [32, 9, 10, 13]) : skipBlanks (b :: t) = b :: t := by
  rw [skipBlanks, List.dropWhile_cons_of_neg]
  simpa [or_assoc] using h

/-- Nothing is skipped before a document. -/
theorem Begins.skipBlanks (h : Begins b) : skipBlanks (b :: t) = b :: t :=
  skipBlanks_cons fun hb => h (List.mem_append_left [93, 125] hb)

/-- A number begins with a minus or a digit. -/
theorem IsNumber.head (h : IsNumber t) : ∃ b u, t = b :: u ∧ (b = 45 ∨ isDigit b = true) := by
  cases h with
  | plain h =>
      obtain ⟨d, u, rfl, hDigit⟩ := h.head
      exact ⟨d, u, rfl, .inr hDigit⟩
  | negative h => exact ⟨45, _, rfl, .inl rfl⟩

/-- No byte but a minus sign or a digit begins a number. -/
theorem ne_of_begins_number {c : UInt8} (h : b = 45 ∨ isDigit b = true)
    (hc : ¬ (c = 45 ∨ isDigit c = true)) : b ≠ c :=
  fun hEq => hc (hEq ▸ h)

theorem begins_of_number (h : b = 45 ∨ isDigit b = true) : Begins b := by
  intro hb
  have hNone : [32, 9, 10, 13, 93, 125].all (fun c => !(c == 45 || isDigit c)) = true := by decide
  have hNot := List.all_eq_true.mp hNone b hb
  rcases h with rfl | h
  · exact absurd hNot (by decide)
  · simp [h] at hNot

/-- A string is written between quotes, each glyph escaped. -/
theorem render_string (s : Text) :
    render (.string s) = 34 :: ((Text.glyphs s).flatMap escapedGlyph ++ [34]) := by
  rw [render, quotedString_eq]

theorem render_array (items : List Json) :
    render (.array items) = 91 :: (Text.join [44] (renderItems items) ++ [93]) := by
  rw [render]
  simp [Text.concat, show Text.ofString "[" = [91] by decide, show Text.ofString "," = [44] by decide,
    show Text.ofString "]" = [93] by decide]

theorem render_object (members : List (Text × Json)) :
    render (.object members) = 123 :: (Text.join [44] (renderMembers members) ++ [125]) := by
  rw [render]
  simp [Text.concat, show Text.ofString "\x7b" = [123] by decide,
    show Text.ofString "," = [44] by decide, show Text.ofString "\x7d" = [125] by decide]

theorem renderMembers_cons (key : Text) (value : Json) (members : List (Text × Json)) :
    renderMembers ((key, value) :: members) =
      (34 :: ((Text.glyphs key).flatMap escapedGlyph ++ 34 :: 58 :: render value)) ::
        renderMembers members := by
  rw [renderMembers, quotedString_eq]
  simp [Text.concat, show Text.ofString ":" = [58] by decide]

/-- The text of a document begins with a byte that is neither blank nor a closing bracket. -/
theorem IsWritten.head (h : IsWritten depth j) : ∃ b u, render j = b :: u ∧ Begins b := by
  cases h with
  | null => exact ⟨110, _, by rw [render]; rfl, by decide⟩
  | bool b =>
      cases b with
      | true => exact ⟨116, _, by rw [render]; rfl, by decide⟩
      | false => exact ⟨102, _, by rw [render]; rfl, by decide⟩
  | number h =>
      obtain ⟨b, u, hText, hb⟩ := h.head
      exact ⟨b, u, by rw [render, hText], begins_of_number hb⟩
  | string s => exact ⟨34, _, render_string s, by decide⟩
  | array h => exact ⟨91, _, render_array _, by decide⟩
  | object h => exact ⟨123, _, render_object _, by decide⟩

/-- The document is read back behind whatever follows it. -/
def ReadsBack (depth : Nat) (j : Json) : Prop :=
  ∀ fuel rest, 2 * (render j).length ≤ fuel → EndsNumber rest →
    value? fuel depth (render j ++ rest) = some (j.repair, rest)

/-- It is enough to read a document back from its first byte on. -/
theorem IsWritten.readsBack_of (h : IsWritten depth j) (hRead : ∀ {fuel rest},
      2 * (render j).length ≤ fuel + 1 → EndsNumber rest →
        value? (fuel + 1) depth (render j ++ rest) = some (j.repair, rest)) :
    ReadsBack depth j := by
  intro fuel rest hFuel hRest
  obtain ⟨b, u, hText, -⟩ := h.head
  obtain ⟨fuel, rfl⟩ : ∃ n, fuel = n + 1 := by
    rw [hText, List.length_cons] at hFuel
    exact ⟨fuel - 1, by omega⟩
  exact hRead hFuel hRest

theorem join_cons_cons (separator s t : Text) (ts : List Text) :
    Text.join separator (s :: t :: ts) = s ++ separator ++ Text.join separator (t :: ts) := by
  simp [Text.join, List.intercalate]

theorem join_singleton (separator s : Text) : Text.join separator [s] = s := by
  simp [Text.join, List.intercalate]

theorem join_cons (separator s : Text) (ts : List Text) : ∃ u, Text.join separator (s :: ts) = s ++ u := by
  cases ts with
  | nil => exact ⟨[], by rw [join_singleton, List.append_nil]⟩
  | cons t ts => exact ⟨separator ++ Text.join separator (t :: ts), by simp [join_cons_cons]⟩

theorem exists_join_items {item : Json} (h : IsWritten depth item) (items : List Json) :
    ∃ b u, Text.join [44] (renderItems (item :: items)) = b :: u ∧ Begins b := by
  obtain ⟨b, u, hText, hBegins⟩ := h.head
  obtain ⟨v, hJoin⟩ := join_cons [44] (render item) (renderItems items)
  exact ⟨b, u ++ v, by rw [renderItems, hJoin, hText, List.cons_append], hBegins⟩

theorem exists_join_members (key : Text) (value : Json) (members : List (Text × Json)) :
    ∃ u, Text.join [44] (renderMembers ((key, value) :: members)) = 34 :: u := by
  rw [renderMembers_cons]
  obtain ⟨v, hJoin⟩ := join_cons [44]
    (34 :: ((Text.glyphs key).flatMap escapedGlyph ++ 34 :: 58 :: render value)) (renderMembers members)
  exact ⟨_, hJoin⟩

/-- What follows a value inside another one does not go on a number. -/
theorem endsNumber_cons (h : b = 44 ∨ b = 93 ∨ b = 125) : EndsNumber (b :: t) := by
  intro c hc
  obtain rfl : b = c := by simpa using hc
  rcases h with rfl | rfl | rfl <;> decide

/-- After a comma the next item is read. -/
theorem items?_more {item : Json} {done : List Json}
    (h : value? fuel depth t = some (item, 44 :: rest)) :
    items? (fuel + 1) depth done t = items? fuel depth (item :: done) rest := by
  rw [items?, h]
  rfl

/-- A closing bracket ends the items. -/
theorem items?_last {item : Json} {done : List Json}
    (h : value? fuel depth t = some (item, 93 :: rest)) :
    items? (fuel + 1) depth done t = some (.array (done.reverse ++ [item]), rest) := by
  rw [items?, h, ← List.reverse_cons]
  rfl

/-- The items of an array are read back one after the other. -/
theorem items?_of_readsBack {item : Json} {items : List Json}
    (h : ∀ j ∈ item :: items, ReadsBack depth j) (done : List Json)
    (hFuel : 2 * (Text.join [44] (renderItems (item :: items))).length + 1 ≤ fuel) :
    items? fuel depth done (Text.join [44] (renderItems (item :: items)) ++ 93 :: rest) =
      some (.array (done.reverse ++ repairItems (item :: items)), rest) := by
  obtain ⟨fuel, rfl⟩ : ∃ n, fuel = n + 1 := ⟨fuel - 1, by omega⟩
  obtain ⟨hItem, hItems⟩ := List.forall_mem_cons.mp h
  induction items generalizing fuel item done with
  | nil =>
      rw [renderItems, renderItems, join_singleton] at hFuel ⊢
      exact items?_last (hItem fuel (93 :: rest) (by omega) (endsNumber_cons (by decide)))
  | cons next items ih =>
      have hRow : renderItems (next :: items) = render next :: renderItems items := rfl
      rw [renderItems, hRow, join_cons_cons, ← hRow] at hFuel ⊢
      simp only [List.length_append, List.length_cons, List.length_nil] at hFuel
      have hRead := hItem fuel (44 :: (Text.join [44] (renderItems (next :: items)) ++ 93 :: rest))
        (by omega) (endsNumber_cons (by decide))
      simp only [List.append_assoc, List.cons_append, List.nil_append]
      rw [items?_more hRead]
      obtain ⟨fuel, rfl⟩ : ∃ n, fuel = n + 1 := ⟨fuel - 1, by omega⟩
      rw [ih hItems (item.repair :: done) fuel (by omega) (hItems next List.mem_cons_self)
        fun j hj => hItems j (List.mem_cons_of_mem next hj)]
      simp [repairItems]

theorem members?_more {key : Text} {value : Json} {done : List (Text × Json)}
    (h : value? fuel depth t = some (value, 44 :: rest)) :
    members? (fuel + 1) depth done (34 :: ((Text.glyphs key).flatMap escapedGlyph ++ 34 :: 58 :: t)) =
      members? fuel depth ((repaired key, value) :: done) rest := by
  rw [members?, skipBlanks_cons (by decide)]
  simp only [string?_quoted, skipBlanks_cons (show (58 : UInt8) ∉ [32, 9, 10, 13] by decide), h]
  rfl

theorem members?_last {key : Text} {value : Json} {done : List (Text × Json)}
    (h : value? fuel depth t = some (value, 125 :: rest)) :
    members? (fuel + 1) depth done (34 :: ((Text.glyphs key).flatMap escapedGlyph ++ 34 :: 58 :: t)) =
      some (.object (done.reverse ++ [(repaired key, value)]), rest) := by
  rw [members?, skipBlanks_cons (by decide), ← List.reverse_cons]
  simp only [string?_quoted, skipBlanks_cons (show (58 : UInt8) ∉ [32, 9, 10, 13] by decide), h]
  rfl

/-- The members of an object are read back one after the other. -/
theorem members?_of_readsBack {key : Text} {value : Json} {members : List (Text × Json)}
    (h : ∀ m ∈ (key, value) :: members, ReadsBack depth m.2) (done : List (Text × Json))
    (hFuel : 2 * (Text.join [44] (renderMembers ((key, value) :: members))).length + 1 ≤ fuel) :
    members? fuel depth done (Text.join [44] (renderMembers ((key, value) :: members)) ++ 125 :: rest) =
      some (.object (done.reverse ++ repairMembers ((key, value) :: members)), rest) := by
  obtain ⟨fuel, rfl⟩ : ∃ n, fuel = n + 1 := ⟨fuel - 1, by omega⟩
  obtain ⟨hValue, hMembers⟩ := List.forall_mem_cons.mp h
  induction members generalizing fuel key value done with
  | nil =>
      rw [renderMembers_cons, renderMembers, join_singleton] at hFuel ⊢
      simp only [List.length_append, List.length_cons] at hFuel
      have hRead := hValue fuel (125 :: rest) (by dsimp only; omega) (endsNumber_cons (by decide))
      simpa [repairMembers] using members?_last hRead
  | cons next members ih =>
      obtain ⟨nextKey, nextValue⟩ := next
      have hRow := renderMembers_cons nextKey nextValue members
      rw [renderMembers_cons, hRow, join_cons_cons, ← hRow] at hFuel ⊢
      simp only [List.length_append, List.length_cons, List.length_nil] at hFuel
      have hRead := hValue fuel
        (44 :: (Text.join [44] (renderMembers ((nextKey, nextValue) :: members)) ++ 125 :: rest))
        (by dsimp only; omega) (endsNumber_cons (by decide))
      simp only [List.append_assoc, List.cons_append, List.nil_append]
      rw [members?_more hRead]
      obtain ⟨fuel, rfl⟩ : ∃ n, fuel = n + 1 := ⟨fuel - 1, by omega⟩
      rw [ih hMembers _ fuel (by omega) (hMembers (nextKey, nextValue) List.mem_cons_self)
        fun m hm => hMembers m (List.mem_cons_of_mem _ hm)]
      simp [repairMembers]

/-- A number is read back as it is spelled. -/
theorem value?_number (h : IsNumber t) (hRest : EndsNumber rest) :
    value? (fuel + 1) depth (t ++ rest) = some (.number t, rest) := by
  have hRead := h.read hRest
  obtain ⟨b, u, rfl, hb⟩ := h.head
  rw [List.cons_append] at hRead ⊢
  rw [value?, (begins_of_number hb).skipBlanks]
  simp only [if_neg (ne_of_begins_number hb (c := 34) (by decide)),
    if_neg (ne_of_begins_number hb (c := 91) (by decide)),
    if_neg (ne_of_begins_number hb (c := 123) (by decide)),
    if_neg (ne_of_begins_number hb (c := 110) (by decide)),
    if_neg (ne_of_begins_number hb (c := 116) (by decide)),
    if_neg (ne_of_begins_number hb (c := 102) (by decide)), hRead, Option.map_some]

/-- A string is read back repaired. -/
theorem value?_string (s : Text) :
    value? (fuel + 1) depth (render (.string s) ++ rest) = some (.string (repaired s), rest) := by
  rw [render_string, List.cons_append, value?, skipBlanks_cons (by decide)]
  simp only [if_true, List.append_assoc, List.cons_append, List.nil_append, string?_quoted,
    Option.map_some]

/-- An array is read back if its items are. -/
theorem value?_array {items : List Json} (hWritten : ∀ item ∈ items, IsWritten depth item)
    (h : ∀ item ∈ items, ReadsBack depth item)
    (hFuel : 2 * (render (.array items)).length ≤ fuel + 1) :
    value? (fuel + 1) (depth + 1) (render (.array items) ++ rest) =
      some (.array (repairItems items), rest) := by
  rw [render_array] at hFuel ⊢
  rw [List.cons_append, value?, skipBlanks_cons (by decide), List.append_assoc]
  simp only [reduceIte, show (91 : UInt8) ≠ 34 by decide]
  cases items with
  | nil => rfl
  | cons item items =>
      simp only [List.length_cons, List.length_append] at hFuel
      have hRead := @items?_of_readsBack fuel depth rest item items h [] (by omega)
      obtain ⟨b, u, hText, hBegins⟩ := exists_join_items (hWritten item List.mem_cons_self) items
      rw [hText] at hRead ⊢
      simp only [List.cons_append, hBegins.skipBlanks] at hRead ⊢
      split
      next hEq =>
        cases hEq
        exact absurd hBegins (by decide)
      next => exact hRead

/-- An object is read back if its members are. -/
theorem value?_object {members : List (Text × Json)} (h : ∀ m ∈ members, ReadsBack depth m.2)
    (hFuel : 2 * (render (.object members)).length ≤ fuel + 1) :
    value? (fuel + 1) (depth + 1) (render (.object members) ++ rest) =
      some (.object (repairMembers members), rest) := by
  rw [render_object] at hFuel ⊢
  rw [List.cons_append, value?, skipBlanks_cons (by decide), List.append_assoc]
  simp only [reduceIte, show (123 : UInt8) ≠ 34 by decide, show (123 : UInt8) ≠ 91 by decide]
  cases members with
  | nil => rfl
  | cons m members =>
      obtain ⟨key, value⟩ := m
      simp only [List.length_cons, List.length_append] at hFuel
      have hRead := @members?_of_readsBack fuel depth rest key value members h [] (by omega)
      obtain ⟨u, hText⟩ := exists_join_members key value members
      rw [hText] at hRead ⊢
      simp only [List.cons_append, skipBlanks_cons (show (34 : UInt8) ∉ [32, 9, 10, 13] by decide)]
      exact hRead

/-- A document is read back from its text, given as much fuel as the text is long. -/
theorem value?_render (h : IsWritten depth j) (hFuel : 2 * (render j).length ≤ fuel + 1)
    (hRest : EndsNumber rest) :
    value? (fuel + 1) depth (render j ++ rest) = some (j.repair, rest) := by
  induction h generalizing fuel rest with
  | null => rfl
  | bool b => cases b <;> rfl
  | number h => exact value?_number h hRest
  | string s => exact value?_string s
  | array h ih => exact value?_array h (fun j hj => (h j hj).readsBack_of (ih j hj)) hFuel
  | object h ih => exact value?_object (fun m hm => (h m hm).readsBack_of (ih m hm)) hFuel

/-- A document is read back from its text. -/
theorem parse?_render (h : IsWritten maxDepth j) : parse? (render j) = some j.repair := by
  have hRead := @value?_render (2 * (render j).length + 1) maxDepth [] j h (by omega)
    (by simp [EndsNumber])
  rw [List.append_nil] at hRead
  rw [parse?, hRead]
  rfl

theorem all_of_isDigit (h : ∀ b ∈ t, isDigit b = true) : t.all (32 ≤ ·) = true := by
  refine List.all_eq_true.mpr fun b hb => decide_eq_true (UInt8.le_iff_toNat_le.mpr ?_)
  exact (by decide : 32 ≤ 48).trans (Decimal.toNat_of_isDigit (h b hb)).1

/-- A number is spelled without control bytes. -/
theorem Spells.all {v : ℚ} (h : Spells t v) : t.all (32 ≤ ·) = true := by
  obtain ⟨hWhole, hFraction, hExponent⟩ := h
  rw [List.all_append, List.all_append, Bool.and_eq_true, Bool.and_eq_true]
  refine ⟨⟨all_of_isDigit hWhole.isDigits.2, ?_⟩, ?_⟩
  · cases hFraction with
    | absent => rfl
    | present h => exact Bool.and_eq_true_iff.mpr ⟨rfl, all_of_isDigit h.2⟩
  · cases hExponent with
    | absent => rfl
    | positive h => exact Bool.and_eq_true_iff.mpr ⟨rfl, Bool.and_eq_true_iff.mpr ⟨rfl, all_of_isDigit h.2⟩⟩
    | negative h => exact Bool.and_eq_true_iff.mpr ⟨rfl, Bool.and_eq_true_iff.mpr ⟨rfl, all_of_isDigit h.2⟩⟩

theorem all_join {texts : List Text} (h : ∀ t ∈ texts, t.all (32 ≤ ·) = true) :
    (Text.join [44] texts).all (32 ≤ ·) = true := by
  induction texts with
  | nil => rfl
  | cons t texts ih =>
      obtain ⟨hFirst, hRest⟩ := List.forall_mem_cons.mp h
      cases texts with
      | nil => rwa [join_singleton]
      | cons u texts =>
          rw [join_cons_cons, List.all_append, List.all_append, hFirst, ih hRest]
          rfl

theorem renderItems_eq_map (items : List Json) : renderItems items = items.map render := by
  induction items with
  | nil => rfl
  | cons item items ih => rw [renderItems, ih, List.map_cons]

theorem renderMembers_eq_map (members : List (Text × Json)) :
    renderMembers members = members.map fun m => Text.concat [quotedString m.1, ":", render m.2] := by
  induction members with
  | nil => rfl
  | cons m members ih => rw [renderMembers, ih, List.map_cons]

/-- The text of a document has no control characters. -/
theorem IsWritten.all_render (h : IsWritten depth j) : (render j).all (32 ≤ ·) = true := by
  induction h with
  | null => rw [render]; decide
  | bool b => cases b <;> rw [render] <;> decide
  | number h =>
      rw [render]
      cases h with
      | plain h => exact h.all
      | negative h => exact Bool.and_eq_true_iff.mpr ⟨rfl, h.all⟩
  | string s =>
      rw [render]
      exact all_quotedString s
  | array _ ih =>
      rw [render_array, List.all_cons, List.all_append, renderItems_eq_map,
        all_join (List.forall_mem_map.mpr ih)]
      rfl
  | object _ ih =>
      have hMember : ∀ m : Text × Json, (render m.2).all (32 ≤ ·) = true →
          (Text.concat [quotedString m.1, ":", render m.2]).all (32 ≤ ·) = true := by
        intro m hValue
        simp only [Text.concat, List.flatten_cons, List.flatten_nil, List.append_nil, List.all_append,
          all_quotedString, hValue]
        decide
      rw [render_object, List.all_cons, List.all_append, renderMembers_eq_map,
        all_join (List.forall_mem_map.mpr fun m hm => hMember m (ih m hm))]
      rfl

/-- What is joined is found in the result. -/
theorem infix_join {t : Text} {ts : List Text} (h : t ∈ ts) (separator : Text) :
    t <:+: Text.join separator ts := by
  induction ts with
  | nil => cases h
  | cons s ts ih =>
      rcases List.mem_cons.mp h with rfl | hMem
      · obtain ⟨u, hJoin⟩ := join_cons separator t ts
        rw [hJoin]
        exact (List.prefix_append t u).isInfix
      · obtain ⟨s', ts, rfl⟩ := List.exists_cons_of_ne_nil (List.ne_nil_of_mem hMem)
        rw [join_cons_cons]
        exact (ih hMem).trans (List.suffix_append _ _).isInfix

/-- A member stands in the text of its object. -/
theorem infix_render_object {key : Text} {value : Json} {members : List (Text × Json)}
    (h : (key, value) ∈ members) : render value <:+: render (.object members) := by
  have hMember : Text.concat [quotedString key, ":", render value] ∈ renderMembers members := by
    rw [renderMembers_eq_map]
    exact List.mem_map_of_mem h
  have hValue : render value <:+: Text.concat [quotedString key, ":", render value] := by
    simp only [Text.concat, List.flatten_cons, List.flatten_nil, List.append_nil]
    exact ((List.suffix_append _ _).trans (List.suffix_append _ _)).isInfix
  rw [render_object]
  exact (hValue.trans (infix_join hMember [44])).trans
    ((List.prefix_append _ _).isInfix.trans (List.suffix_cons _ _).isInfix)

end Lox.Json
