import Lox.CommandLine
import Lox.Proofs.Execution.Extent
import Lox.Proofs.Json.RoundTrip

/-! Traces that are written and read back. An event is one line of JSON, and a line that is not too long
is read as the event it was written for, with the stray bytes of its texts replaced. -/
namespace Lox

namespace Text

/-- Lines that were put together can be taken apart. -/
theorem lines_flatMap {ts : List Text} (h : ∀ t ∈ ts, newline ∉ t) :
    lines (ts.flatMap (· ++ [newline])) = ts ++ [[]] := by
  induction ts with
  | nil => rfl
  | cons t ts ih =>
      obtain ⟨hFirst, hRest⟩ := List.forall_mem_cons.mp h
      rw [List.flatMap_cons, List.append_assoc, lines, List.singleton_append,
        List.splitOn_append_cons_self_of_not_mem hFirst, ← lines, ih hRest, List.cons_append]

theorem dropReturn_eq_self {t : Text} (h : t.all (32 ≤ ·) = true) : dropReturn t = t := by
  rw [dropReturn, if_neg]
  intro hLast
  have hReturn := List.all_eq_true.mp h 13 (List.mem_of_getLast? hLast)
  exact absurd hReturn (by decide)

/-- Lines without control characters are taken apart as they were put together, up to the first that is
too long. -/
theorem boundedLines_flatMap {ts : List Text} (h : ∀ t ∈ ts, t.all (32 ≤ ·) = true) :
    boundedLines (ts.flatMap (· ++ [newline])) =
      (ts.takeWhile (·.length < lineLimit), !ts.all (·.length < lineLimit)) := by
  have hNewline : ∀ t ∈ ts, newline ∉ t := by
    intro t ht hMem
    exact absurd (List.all_eq_true.mp (h t ht) newline hMem) (by decide)
  have hSame : ∀ t ∈ ts.takeWhile (·.length < lineLimit), dropReturn t = t :=
    fun t ht => dropReturn_eq_self (h t (List.takeWhile_sublist _ |>.subset ht))
  rw [boundedLines, lines_flatMap hNewline, List.getLast?_concat, if_pos rfl, List.dropLast_concat,
    List.map_congr_left hSame, List.map_id']

theorem bytes_ne_nil_of_mem {t : Text} {g : Glyph} (h : g ∈ glyphs t) : g.bytes ≠ [] := by
  obtain ⟨a, rest, rfl⟩ := exists_first_of_mem h
  obtain ⟨tail, rest', -, hBytes⟩ := Glyph.bytes_first a rest
  rw [hBytes]
  exact List.cons_ne_nil a tail

/-- An ASCII byte at the end of a text is its last glyph. -/
theorem getLast?_glyphs {t : Text} {b : UInt8} (hb : b < 128) :
    (glyphs (t ++ [b])).getLast? = some (Glyph.ascii b) := by
  have hText := ofGlyphs_glyphs (t ++ [b])
  cases hLast : (glyphs (t ++ [b])).getLast? with
  | none =>
      rw [List.getLast?_eq_none_iff.mp hLast] at hText
      simp [ofGlyphs] at hText
  | some g =>
      have hMem := List.mem_of_getLast? hLast
      have hByte : g.bytes.getLast? = some b := by
        obtain ⟨gs, hSplit⟩ := List.getLast?_eq_some_iff.mp hLast
        rw [hSplit, ofGlyphs, List.flatMap_append, List.flatMap_singleton] at hText
        have hEnd := congrArg List.getLast? hText
        rwa [List.getLast?_append_of_ne_nil _ (bytes_ne_nil_of_mem hMem), List.getLast?_concat] at hEnd
      obtain ⟨a, rest, rfl⟩ := exists_first_of_mem hMem
      rcases Glyph.first_spec a rest with ⟨ha, hFirst⟩ | hWide
      · rw [hFirst] at hByte ⊢
        obtain rfl : a = b := by simpa [Glyph.ascii] using hByte
        rfl
      · exact absurd (hWide.bytes b (List.mem_of_getLast? hByte)) (UInt8.not_le.mpr hb)

/-- A text between ASCII bytes that are not blank is not trimmed. -/
theorem trim_eq_self {a b : UInt8} (ha : a < 128) (hb : b < 128)
    (hFirst : isBlank (Glyph.ascii a).char = false) (hLast : isBlank (Glyph.ascii b).char = false)
    (t : Text) : trim (a :: (t ++ [b])) = a :: (t ++ [b]) := by
  have hEnd := @getLast?_glyphs (a :: t) b hb
  have hText := ofGlyphs_glyphs (a :: (t ++ [b]))
  rw [List.cons_append] at hEnd
  rw [Glyph.glyphs_of_ascii ha] at hEnd hText
  rw [trim, Glyph.glyphs_of_ascii ha, List.dropWhile_cons_of_neg (by simp [hFirst])]
  have hKept : (Glyph.ascii a :: glyphs (t ++ [b])).reverse.dropWhile (fun g => isBlank g.char) =
      (Glyph.ascii a :: glyphs (t ++ [b])).reverse := by
    rw [← List.head?_reverse] at hEnd
    cases hReverse : (Glyph.ascii a :: glyphs (t ++ [b])).reverse with
    | nil => rfl
    | cons g gs =>
        rw [hReverse] at hEnd
        cases hEnd
        rw [List.dropWhile_cons_of_neg (by simp [hLast])]
  rw [hKept, List.reverse_reverse, hText]

end Text

namespace Json

variable {depth : Nat}

theorem repaired_of_all {t : Text} (h : t.all (· < 128) = true) : repaired t = t :=
  repaired_of_ascii fun b hb => of_decide_eq_true (List.all_eq_true.mp h b hb)

theorem isWritten_int (n : Int) : IsWritten depth (.int n) := .number (isNumber_ofInt n)

/-- A value is written as a document that can be read back. -/
theorem isWritten_toJson (v : Value) : IsWritten depth v.toJson := by
  cases v with
  | nil => exact .null
  | bool b => exact .bool b
  | string s => exact .string s
  | number x =>
      rw [Value.toJson]
      split
      · exact .string _
      · dsimp only
        split
        · exact isWritten_int _
        · exact .number (isNumber_floatSpelling x)

theorem isWritten_object {members : List (String × Json)} (h : ∀ m ∈ members, IsWritten depth m.2) :
    IsWritten (depth + 1) (Trace.object members) :=
  .object (List.forall_mem_map.mpr h)

end Json

namespace Trace

open Json (IsWritten isWritten_int isWritten_toJson isWritten_object repair repaired)

/-- The data of an event is a document without nesting. -/
theorem isWritten_data {depth : Nat} (elapsedMs : Nat) (t : Trace) :
    ∀ m ∈ t.data elapsedMs, IsWritten depth m.2 := by
  cases t <;> simp [data, isWritten_int, isWritten_toJson, IsWritten.string]

/-- An event is a document nested two deep. -/
theorem isWritten_toJson (stamp : Stamp) (t : Trace) (depth : Nat) :
    IsWritten (depth + 2) (t.toJson stamp) := by
  refine isWritten_object (List.forall_mem_append.mpr ⟨List.forall_mem_append.mpr ⟨?_, ?_⟩, ?_⟩)
  · simp [IsWritten.string]
  · split
    · exact List.forall_mem_nil _
    · exact List.forall_mem_singleton.mpr (isWritten_int _)
  · split
    · exact List.forall_mem_nil _
    · exact List.forall_mem_singleton.mpr (isWritten_object (t.isWritten_data _))

/-- Keys of ASCII characters are read as they are. -/
theorem repair_object {members : List (String × Json)}
    (h : ∀ m ∈ members, (Text.ofString m.1).all (· < 128) = true) :
    (object members).repair = object (members.map fun m => (m.1, m.2.repair)) := by
  rw [object, repair, object]
  congr 1
  induction members with
  | nil => rfl
  | cons m members ih =>
      obtain ⟨hFirst, hRest⟩ := List.forall_mem_cons.mp h
      rw [List.map_cons, Json.repairMembers, ih hRest, Json.repaired_of_all hFirst]
      rfl

theorem all_key (elapsedMs : Nat) (t : Trace) :
    ∀ m ∈ t.data elapsedMs, (Text.ofString m.1).all (· < 128) = true := by
  cases t <;> simp only [data, List.forall_mem_cons] <;> decide

def readBack (stamp : Stamp) (t : Trace) : TraceLine where
  time := repaired stamp.time
  runId := repaired stamp.runId
  event := Text.ofString t.name
  data := (t.data stamp.elapsedMs).map fun m => (Text.ofString m.1, m.2.repair)

end Trace

namespace TraceLine

/-- The key of a member is compared with the name of a field without regard to case. -/
theorem names_of_ascii {key : Text} (h : key.all (· < 128) = true) (field : String) :
    names key field =
      ((key.map fun b => foldCase (Glyph.ascii b).char) == field.toList.map foldCase) := by
  rw [names, Json.glyphs_eq_map fun b hb => of_decide_eq_true (List.all_eq_true.mp h b hb), List.map_map]
  rfl

def fields : List String := ["ts", "runId", "event", "line", "data"]

theorem mem_fields : "ts" ∈ fields ∧ "runId" ∈ fields ∧ "event" ∈ fields ∧ "line" ∈ fields ∧
    "data" ∈ fields := by decide

/-- The fields are told apart although their case does not matter. -/
theorem names_ofString : ∀ key ∈ fields, ∀ field ∈ fields,
    names (Text.ofString key) field = (key == field) := by
  have hAscii : ∀ key ∈ fields, (Text.ofString key).all (· < 128) = true := by decide
  have hFold : ∀ key ∈ fields, ∀ field ∈ fields,
      ((Text.ofString key).map (fun b => foldCase (Glyph.ascii b).char) == field.toList.map foldCase) =
        (key == field) := by decide
  intro key hKey field hField
  rw [names_of_ascii (hAscii key hKey), hFold key hKey field hField]

theorem take_time (line : TraceLine) (s : Text) :
    line.take (Text.ofString "ts", .string s) = some { line with time := s } := by
  delta take
  simp [names_ofString, mem_fields]

theorem take_runId (line : TraceLine) (s : Text) :
    line.take (Text.ofString "runId", .string s) = some { line with runId := s } := by
  delta take
  simp [names_ofString, mem_fields]

theorem take_event (line : TraceLine) (s : Text) :
    line.take (Text.ofString "event", .string s) = some { line with event := s } := by
  delta take
  simp [names_ofString, mem_fields]

/-- A small integer is read as one of 64 bits. -/
theorem isInt64_ofInt {n : Int} (h : n.natAbs < 2 ^ 63) : isInt64 (Text.ofInt n) = true := by
  have hDigits := Decimal.isDigits_ofNat n.natAbs
  rw [Json.ofInt_eq, isInt64, Json.splitSign_signed (Json.spells_ofNat n.natAbs)]
  simp only [Decimal.digitsValue_ofNat, Decimal.int64Bound, Nat.pow_eq, Bool.and_eq_true,
    List.all_eq_true]
  refine ⟨hDigits.2, ?_⟩
  split
  · exact decide_eq_true h.le
  · exact decide_eq_true h

/-- The line number is checked but not kept. -/
theorem take_line (line : TraceLine) {n : Int} (h : n.natAbs < 2 ^ 63) :
    line.take (Text.ofString "line", .int n) = some line := by
  delta take
  simp [names_ofString, mem_fields, Json.int, isInt64_ofInt h]

/-- The data of a line is kept if its numbers can be read. -/
theorem take_data (line : TraceLine) {members : List (Text × Json)} (h : fitMembers members = true) :
    line.take (Text.ofString "data", .object members) =
      some { line with data := line.data ++ members } := by
  delta take
  simp [names_ofString, mem_fields, h]

theorem fitMembers_of_forall {members : List (Text × Json)} (h : ∀ m ∈ members, fits m.2 = true) :
    fitMembers members = true := by
  induction members with
  | nil => rfl
  | cons m members ih =>
      obtain ⟨hFirst, hRest⟩ := List.forall_mem_cons.mp h
      rw [fitMembers, hFirst, ih hRest]
      rfl

/-- An integer of at most 53 bits can be read. -/
theorem fits_int {n : Int} (h : n.natAbs < 2 ^ 53) : fits (Json.int n).repair = true :=
  Json.isSome_read?_ofInt h

/-- Every value can be read. -/
theorem fits_toJson (v : Value) : fits v.toJson.repair = true := by
  cases v with
  | number x =>
      rw [Value.toJson]
      split
      · rfl
      next hFinite =>
        simp only [Bool.or_eq_true, not_or, Bool.not_eq_true] at hFinite
        dsimp only
        split
        next hWhole =>
          simp only [Bool.and_eq_true, decide_eq_true_eq, Nat.pow_eq] at hWhole
          refine fits_int ?_
          split <;> simpa using hWhole.2
        next => exact Json.isSome_read?_floatSpelling hFinite.1 hFinite.2
  | _ => rfl

/-- The numbers of an event within a limit fit doubles. -/
theorem fits_data {limit elapsedMs : Nat} {t : Trace} (h : t.Within limit) (hLimit : limit < 2 ^ 53)
    (hElapsed : elapsedMs < 2 ^ 53) :
    ∀ m ∈ t.data elapsedMs, fits m.2.repair = true := by
  have hCount {n : Nat} (hn : n ∈ t.counts) : fits (Json.int n).repair = true :=
    fits_int ((h.counts n hn).trans_lt hLimit)
  cases t with
  | runStart line statements => exact List.forall_mem_singleton.mpr (hCount List.mem_cons_self)
  | runEnd executed errors =>
      refine List.forall_mem_cons.mpr ⟨fits_int hElapsed, List.forall_mem_cons.mpr ⟨?_, ?_⟩⟩
      · exact hCount (List.mem_cons_of_mem _ List.mem_cons_self)
      · exact List.forall_mem_singleton.mpr (hCount List.mem_cons_self)
  | stmtStart => exact List.forall_mem_singleton.mpr rfl
  | stmtEnd => exact List.forall_mem_nil _
  | scopePush line depth => exact List.forall_mem_singleton.mpr (hCount List.mem_cons_self)
  | scopePop line depth => exact List.forall_mem_singleton.mpr (hCount List.mem_cons_self)
  | print line value => exact List.forall_mem_singleton.mpr (fits_toJson value)
  | runtimeError => exact List.forall_mem_cons.mpr ⟨rfl, List.forall_mem_singleton.mpr rfl⟩
  | budgetExceeded => exact List.forall_mem_singleton.mpr rfl

/-- The members of an object, repaired, taken into a line one after the other. -/
def takeAll (line : TraceLine) (members : List (String × Json)) : Option TraceLine :=
  (members.map fun m => (Text.ofString m.1, m.2.repair)).foldlM take line

/-- Members are taken one after the other. -/
theorem takeAll_append (line : TraceLine) (first second : List (String × Json)) :
    line.takeAll (first ++ second) = line.takeAll first >>= fun line => line.takeAll second := by
  rw [takeAll, List.map_append, List.foldlM_append]
  rfl

theorem takeAll_singleton (line : TraceLine) (key : String) (value : Json) :
    line.takeAll [(key, value)] = line.take (Text.ofString key, value.repair) := by
  simp [takeAll]

/-- The first three members tell the time, the run and the name of the event. -/
theorem takeAll_head (stamp : Stamp) (t : Trace) :
    blank.takeAll [("ts", .string stamp.time), ("runId", .string stamp.runId),
      ("event", .string t.name)] = some { t.readBack stamp with data := [] } := by
  have hName : Json.repaired (Text.ofString t.name) = Text.ofString t.name :=
    Json.repaired_of_all (by cases t <;> simp only [Trace.name] <;> decide)
  simp only [takeAll, List.map_cons, List.map_nil, List.foldlM_cons, List.foldlM_nil, Json.repair,
    take_time, take_runId, take_event, hName]
  rfl

theorem takeAll_line (line : TraceLine) {n : Int} (h : n.natAbs < 2 ^ 63) :
    line.takeAll (if n = 0 then [] else [("line", .int n)]) = some line := by
  split
  · rfl
  · rw [takeAll_singleton]
    exact take_line line h

/-- An event without data has no member for it. -/
theorem takeAll_data {stamp : Stamp} {t : Trace}
    (hFits : ∀ m ∈ t.data stamp.elapsedMs, fits m.2.repair = true) (line : TraceLine) :
    line.takeAll (if (t.data 0).isEmpty then [] else [("data", Trace.object (t.data stamp.elapsedMs))]) =
      some { line with data := line.data ++ (t.readBack stamp).data } := by
  split
  next hEmpty =>
    have hNone : (t.readBack stamp).data = [] := by
      cases t with
      | stmtEnd => rfl
      | _ => simp [Trace.data] at hEmpty
    rw [hNone, List.append_nil]
    rfl
  next =>
    have hData : (Trace.object (t.data stamp.elapsedMs)).repair = .object (t.readBack stamp).data := by
      rw [Trace.repair_object (t.all_key _), Trace.object, List.map_map]
      rfl
    rw [takeAll_singleton, hData]
    exact take_data line (fitMembers_of_forall (List.forall_mem_map.mpr hFits))

/-- An event is read back from its document. -/
theorem ofJson?_toJson {stamp : Stamp} {t : Trace} (hLine : t.line.natAbs < 2 ^ 63)
    (hFits : ∀ m ∈ t.data stamp.elapsedMs, fits m.2.repair = true) :
    ofJson? (t.toJson stamp).repair = some (t.readBack stamp) := by
  rw [Trace.toJson, Trace.repair_object ?keys]
  case keys =>
    refine List.forall_mem_append.mpr ⟨List.forall_mem_append.mpr ⟨?_, ?_⟩, ?_⟩
    · simp only [List.forall_mem_cons]
      decide
    · split
      · exact List.forall_mem_nil _
      · exact List.forall_mem_singleton.mpr (show (Text.ofString "line").all (· < 128) = true by decide)
    · split
      · exact List.forall_mem_nil _
      · exact List.forall_mem_singleton.mpr (show (Text.ofString "data").all (· < 128) = true by decide)
  have hTake (members : List (String × Json)) :
      ofJson? (Trace.object (members.map fun m => (m.1, m.2.repair))) = blank.takeAll members := by
    rw [Trace.object, ofJson?, takeAll, List.map_map]
    rfl
  rw [hTake, takeAll_append, takeAll_append, takeAll_head]
  simp only [Option.bind_eq_bind, Option.bind_some, takeAll_line _ hLine, takeAll_data hFits]
  rfl

/-- An event that is written is read back. -/
theorem ofText?_render {stamp : Stamp} {t : Trace} (hLine : t.line.natAbs < 2 ^ 63)
    (hFits : ∀ m ∈ t.data stamp.elapsedMs, fits m.2.repair = true) :
    ofText? (t.toJson stamp).render = some (t.readBack stamp) := by
  have hRead := Json.parse?_render (t.isWritten_toJson stamp 9998)
  obtain ⟨u, hText⟩ : ∃ u, (t.toJson stamp).render = 123 :: (u ++ [125]) := ⟨_, Json.render_object _⟩
  have hTrim : Text.trim (t.toJson stamp).render = (t.toJson stamp).render := by
    rw [hText]
    exact Text.trim_eq_self (by decide) (by decide) (by decide) (by decide) u
  rw [ofText?]
  simp only [hTrim]
  rw [if_neg (by rw [hText]; exact List.cons_ne_nil _ _), hRead]
  exact ofJson?_toJson hLine hFits

/-- The depth of a scope is read back as it was. -/
theorem depth?_scopePush (stamp : Stamp) (line : Int) {depth : Nat} (h : depth < 2 ^ 53) :
    ((Trace.scopePush line depth).readBack stamp).depth? = some depth := by
  have hData : ((Trace.scopePush line depth).readBack stamp).particular? "depth" =
      some (.number (Text.ofNat depth)) := by
    simp [particular?, Trace.readBack, Trace.data, Json.int, Text.ofInt, Json.repair]
  obtain ⟨x, hRead, hSign, hFloor⟩ := Json.exists_read?_ofNat h
  have hBound : depth < Decimal.int64Bound := h.trans (by decide)
  have hPlain : Decimal.read? (Text.ofNat depth) = some x := hRead false
  simp [depth?, hData, hPlain, hSign, hFloor, hBound]

/-- The code of a failure is read back repaired. -/
theorem code?_runtimeError (stamp : Stamp) (line : Int) (code : Code) (message : Text) :
    ((Trace.runtimeError line code message).readBack stamp).code? =
      some (Json.repaired code.name) := by
  have hOther : (Text.ofString "code" == Text.ofString "message") = false := by decide
  simp [code?, particular?, Trace.readBack, Trace.data, Json.repair, List.lookup, hOther]

end TraceLine

namespace Trace

/-- An event is written on one line. -/
theorem all_written (stamp : Stamp) (t : Trace) : (t.written stamp).all (32 ≤ ·) = true :=
  (t.isWritten_toJson stamp 0).all_render

/-- The line of an event is read as the event. -/
theorem ofText?_written {stamp : Stamp} {limit : Nat} {t : Trace} (h : t.Within limit)
    (hLimit : limit < 2 ^ 53) (hElapsed : stamp.elapsedMs < 2 ^ 53) :
    TraceLine.ofText? (t.written stamp) = some (t.readBack stamp) :=
  TraceLine.ofText?_render (h.line.trans_lt (hLimit.trans (by decide)))
    (TraceLine.fits_data h hLimit hElapsed)

/-- What a line says of a text that was written is no shorter than the text. -/
theorem length_le_written_print {t : Text} (h : ∀ b ∈ t, b < 128) (stamp : Stamp) (line : Int) :
    t.length ≤ ((print line (.string t)).written stamp).length := by
  have hValue : Json.render (.string t) <:+: Json.render (.object [(Text.ofString "value", .string t)]) :=
    Json.infix_render_object List.mem_cons_self
  have hData : Json.render (.object [(Text.ofString "value", .string t)]) <:+:
      (print line (.string t)).written stamp := by
    have hMember : ("data", object [("value", .string t)]) ∈
        if ((print line (.string t)).data 0).isEmpty then []
        else [("data", object [("value", .string t)])] := List.mem_cons_self
    exact Json.infix_render_object (List.mem_map.mpr ⟨_, List.mem_append_right _ hMember, rfl⟩)
  exact (Json.length_le_quotedString h).trans (hValue.trans hData).length_le

end Trace
end Lox
