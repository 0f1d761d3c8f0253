import Lox.Clock.Instant
import Lox.Decimal.Numeral
import Lox.Json.Reader
import Lox.Value.Basic

/-! Summaries of written traces. -/
namespace Lox

/-- What a line of a written trace says. -/
structure TraceLine where
  time : Text
  runId : Text
  event : Text
  /-- The particulars, of which a later one replaces an earlier one of the same name. -/
  data : List (Text × Json)

namespace TraceLine

def blank : TraceLine := ⟨[], [], [], []⟩

/-- A letter in a form that does not depend on its case. Two letters outside ASCII are variants of
ASCII ones. -/
def foldCase (c : Char) : Char :=
  if c = Char.ofNat 0x17F then 's'
  else if c = Char.ofNat 0x212A then 'k'
  else c.toLower

/-- Whether a key names a field, without regard to case. -/
def names (key : Text) (field : String) : Bool :=
  (Text.glyphs key).map (fun g => foldCase g.char) == field.toList.map foldCase

/-- A whole number that fits 64 bits, written without fraction or exponent. -/
def isInt64 (spelling : Text) : Bool :=
  let (negative, digits) := Decimal.splitSign spelling
  let n := Decimal.digitsValue digits
  digits.all Decimal.isDigit && (if negative then n ≤ Decimal.int64Bound else n < Decimal.int64Bound)

mutual

/-- Whether every number in a document fits a double. -/
def fits : Json → Bool
  | .number spelling => (Decimal.read? spelling).isSome
  | .array items => fitItems items
  | .object members => fitMembers members
  | _ => true

def fitItems : List Json → Bool
  | [] => true
  | item :: rest => fits item && fitItems rest

/-- Whether every number in the members fits a double. -/
def fitMembers : List (Text × Json) → Bool
  | [] => true
  | (_, value) :: rest => fits value && fitMembers rest

end

/-- Takes one member of an object into a line. Null leaves a field as it is, and takes away what
was said in the particulars; a value of the wrong type spoils the line. -/
def take (line : TraceLine) (member : Text × Json) : Option TraceLine :=
  let (key, value) := member
  let text (set : Text → TraceLine) : Option TraceLine :=
    match value with
    | .null => some line
    | .string s => some (set s)
    | _ => none
  if names key "ts" then text fun time => { line with time }
  else if names key "runId" then text fun runId => { line with runId }
  else if names key "event" then text fun event => { line with event }
  else if names key "line" then
    match value with
    | .null => some line
    | .number spelling => if isInt64 spelling then some line else none
    | _ => none
  else if names key "data" then
    match value with
    | .null => some { line with data := [] }
    | .object members =>
      if fitMembers members then some { line with data := line.data ++ members } else none
    | _ => none
  else some line

/-- The line that a document stands for, if it is one. -/
def ofJson? : Json → Option TraceLine
  | .null => some blank
  | .object members => members.foldlM take blank
  | _ => none

/-- The line that a text stands for, if it is one. -/
def ofText? (t : Text) : Option TraceLine :=
  let t := Text.trim t
  if t = [] then none else Json.parse? t >>= ofJson?

def particular? (line : TraceLine) (name : String) : Option Json :=
  line.data.reverse.lookup (Text.ofString name)

/-- The depth that the line tells, rounded toward zero. -/
def depth? (line : TraceLine) : Option Int :=
  match line.particular? "depth" with
  | some (.number spelling) =>
    match Decimal.read? spelling with
    | some x =>
      let n := (Decimal.Dyadic.ofFloat x).floor
      if Decimal.isNegative x then some (-n) else if n < Decimal.int64Bound then some n else none
    | none => none
  | _ => none

def code? (line : TraceLine) : Option Text :=
  match line.particular? "code" with
  | some (.string s) => some s
  | _ => none

end TraceLine

/-- What a trace comes to. -/
structure TraceSummary where
  runId : Text
  events : Nat
  statements : Nat
  prints : Nat
  maxDepth : Int
  runtimeErrors : Nat
  /-- How often each code occurs, in the byte order of the codes. -/
  errorsByCode : List (Text × Nat)
  budgetExceeded : Nat
  startTime : Text
  endTime : Text
  deriving DecidableEq, Repr

namespace TraceSummary

def empty : TraceSummary := ⟨[], 0, 0, 0, 0, 0, [], 0, [], []⟩

/-- Counts one more of a code. -/
def count (code : Text) : List (Text × Nat) → List (Text × Nat)
  | [] => [(code, 1)]
  | (other, n) :: rest =>
    if other = code then (other, n + 1) :: rest
    else if code.le other then (code, 1) :: (other, n) :: rest
    else (other, n) :: count code rest

/-- The summary with one more line. The first run identifier and the first start count, and the
last end. -/
def add (s : TraceSummary) (line : TraceLine) : TraceSummary :=
  let s := { s with
    events := s.events + 1
    runId := if s.runId = [] then line.runId else s.runId }
  if line.event = "run_start" then
    { s with startTime := if s.startTime = [] then line.time else s.startTime }
  else if line.event = "run_end" then { s with endTime := line.time }
  else if line.event = "stmt_start" then { s with statements := s.statements + 1 }
  else if line.event = "print" then { s with prints := s.prints + 1 }
  else if line.event = "scope_push" then
    match line.depth? with
    | some d => { s with maxDepth := max s.maxDepth d }
    | none => s
  else if line.event = "runtime_error" then
    { s with
      runtimeErrors := s.runtimeErrors + 1
      errorsByCode := match line.code? with
        | some code => count code s.errorsByCode
        | none => s.errorsByCode }
  else if line.event = "budget_exceeded" then { s with budgetExceeded := s.budgetExceeded + 1 }
  else s

/-- The summary of a written trace, unless one of its lines is too long. Lines that are no events
are passed over. -/
def ofText? (trace : Text) : Option TraceSummary :=
  match Text.boundedLines trace with
  | (_, true) => none
  | (lines, false) => some ((lines.filterMap TraceLine.ofText?).foldl add empty)

/-- The microseconds between start and end, if both are known. They are limited to what 64 bits of
nanoseconds can hold. -/
def microseconds (s : TraceSummary) : Int :=
  match Clock.instant? s.startTime, Clock.instant? s.endTime with
  | some start, some stop =>
    let bound : Int := Decimal.int64Bound
    let nanos := max (-bound) (min (bound - 1) (stop - start))
    nanos.tdiv 1000
  | _, _ => 0

def durationMs (s : TraceSummary) : Float := Float.ofInt s.microseconds / 1000

def toJson (s : TraceSummary) : Json :=
  let known (name : String) (time : Text) : List (Text × Json) :=
    if time = [] then [] else [(Text.ofString name, .string time)]
  .object <|
    [(Text.ofString "runId", .string s.runId), (Text.ofString "totalEvents", .int s.events),
     (Text.ofString "statements", .int s.statements), (Text.ofString "prints", .int s.prints),
     (Text.ofString "maxDepth", .int s.maxDepth),
     (Text.ofString "runtimeErrors", .int s.runtimeErrors),
     (Text.ofString "errorsByCode", .object (s.errorsByCode.map fun (code, n) => (code, .int n))),
     (Text.ofString "budgetExceeded", .int s.budgetExceeded)] ++
    known "startTime" s.startTime ++ known "endTime" s.endTime ++
    [(Text.ofString "durationMs", .float s.durationMs)]

def lines (s : TraceSummary) : List Text :=
  let line (label : String) (value : Text) : Text := Text.concat [label, ": ", value, "\n"]
  [line "Run" s.runId, line "Events" (Text.ofNat s.events),
    line "Statements" (Text.ofNat s.statements), line "Prints" (Text.ofNat s.prints),
    line "Max scope depth" (Text.ofInt s.maxDepth),
    line "Runtime errors" (Text.ofNat s.runtimeErrors)] ++
  (s.errorsByCode.map fun (code, n) => Text.concat ["  ", code, ": ", Text.ofNat n, "\n"]) ++
  (if s.budgetExceeded = 0 then [] else [line "Budget exceeded" (Text.ofNat s.budgetExceeded)]) ++
  (if s.microseconds ≤ 0 then []
    else [Text.concat ["Duration: ", Decimal.fixed 3 s.durationMs, "ms\n"]])

def text (s : TraceSummary) : Text := Text.concat s.lines

end TraceSummary
end Lox
