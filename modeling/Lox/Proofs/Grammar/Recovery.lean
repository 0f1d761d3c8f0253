import Lox.Proofs.Grammar.Program
import Lox.Proofs.Grammar.Tracking

/-! Reading on after failures. Every attempt at a declaration begins where the one before it left
off and moves forward. One that fails is reported once, at a token that lies between its beginning
and the place where reading goes on, so that no two reports are about the same token. -/
namespace Lox

/-- The outcome is a problem, with `rest` left over. -/
def Reading.Fails {α : Type} {n : Nat} (r : Reading α n) (problem : Problem) (rest : List Token) :
    Prop :=
  ∃ atMost, r = .failed problem rest atMost

namespace Program

/-- A position at which a statement may begin: just after a semicolon, at a word that begins one, or
at the end. -/
def Boundary (ts : List Token) (position : Nat) : Prop :=
  position = ts.length ∨ (∃ t, ts[position - 1]? = some t ∧ t.kind = .semicolon) ∨
    ∃ t, ts[position]? = some t ∧ t.kind ∈ statementWords

/-- Reading that stopped at position `stop` goes on at position `next`, the first one after it at
which a statement may begin. -/
structure Resumes (ts : List Token) (stop next : Nat) : Prop where
  forward : stop < next ∨ next = ts.length
  within : next ≤ ts.length
  boundary : Boundary ts next
  first : ∀ position, stop < position → position < next → ¬ Boundary ts position

/-- What comes of an attempt to read a declaration: the declaration, or a complaint and the position
of the token that it is about. -/
inductive Attempt where
  | read (s : Stmt)
  | failed (complaint : Complaint) (position : Nat)

namespace Attempt

def statement? : Attempt → Option Stmt
  | .read s => some s
  | .failed _ _ => none

def failure? : Attempt → Option (Complaint × Nat)
  | .read _ => none
  | .failed complaint position => some (complaint, position)

/-- The problem that a complaint at some position of the tokens amounts to. The position just after
the last token is that of the end. -/
def problem (ts : List Token) (failure : Complaint × Nat) : Problem :=
  ⟨failure.1, ts[failure.2]?⟩

def result (ts : List Token) : Attempt → Except Problem Stmt
  | .read s => .ok s
  | .failed complaint position => .error (problem ts (complaint, position))

@[simp] theorem toOption_result (ts : List Token) (a : Attempt) :
    (a.result ts).toOption = a.statement? := by
  cases a <;> rfl

@[simp] theorem report?_result (ts : List Token) (last : Int) (a : Attempt) :
    report? last (a.result ts) =
      a.failure?.map fun failure => (problem ts failure).diagnostic last := by
  cases a <;> rfl

/-- The attempt that is made at position `start` of the tokens, and after which reading goes on at
position `next`. -/
inductive Made (ts : List Token) (start next : Nat) : Attempt → Prop
  | read {s : Stmt} (hForward : start < next) (hWithin : next ≤ ts.length)
      (hReads : (Stmt.readDeclaration (ts.drop start)).Reads s (ts.drop next)) :
      Made ts start next (.read s)
  | failed {complaint : Complaint} {position stop : Nat} (hForward : start < next)
      (hStart : start ≤ position) (hEnd : position ≤ ts.length)
      (hFails : (Stmt.readDeclaration (ts.drop start)).Fails
        (problem ts (complaint, position)) (ts.drop stop))
      (hStop : stop = position ∨ stop = position + 1) (hResumes : Resumes ts stop next) :
      Made ts start next (.failed complaint position)

/-- Every attempt takes up a token. -/
theorem Made.forward {ts : List Token} {start next : Nat} {a : Attempt} (h : a.Made ts start next) :
    start < next := by
  cases h <;> assumption

/-- No attempt goes beyond the end. -/
theorem Made.within {ts : List Token} {start next : Nat} {a : Attempt} (h : a.Made ts start next) :
    next ≤ ts.length := by
  cases h with
  | read _ hWithin _ => exact hWithin
  | failed _ _ _ _ _ hResumes => exact hResumes.within

end Attempt

/-- The attempts that are made from position `start` of the tokens on, up to their end. -/
inductive Course (ts : List Token) : Nat → List Attempt → Prop
  | nil : Course ts ts.length []
  | cons {start next : Nat} {a : Attempt} {as : List Attempt} (hMade : a.Made ts start next)
      (hRest : Course ts next as) : Course ts start (a :: as)

/-- A final part of the tokens begins at some position. -/
theorem exists_drop_eq {ts ts' : List Token} {start : Nat} (hStart : start ≤ ts.length)
    (h : ts' <:+ ts.drop start) :
    ∃ position, start ≤ position ∧ position ≤ ts.length ∧ ts' = ts.drop position := by
  obtain ⟨read, hRead⟩ := h
  have hLength : read.length + ts'.length = ts.length - start := by
    rw [← List.length_append, hRead, List.length_drop]
  refine ⟨start + read.length, by omega, by omega, ?_⟩
  rw [← List.drop_drop, ← hRead, List.drop_left]

variable {ts : List Token} {start : Nat}

/-- No statement begins after a token that is no semicolon, at one that is no word of a statement. -/
theorem not_boundary {position : Nat} {t t' : Token} (hLast : ts[position]? = some t)
    (hNext : ts[position + 1]? = some t') (hSemicolon : t.kind ≠ .semicolon)
    (hWord : t'.kind ∉ statementWords) : ¬ Boundary ts (position + 1) := by
  obtain ⟨hLength, _⟩ := List.getElem?_eq_some_iff.mp hNext
  rintro (hEnd | ⟨t, hAt, hKind⟩ | ⟨t, hAt, hKind⟩)
  · omega
  · rw [Nat.add_sub_cancel, hLast] at hAt
    cases hAt
    exact hSemicolon hKind
  · rw [hNext] at hAt
    cases hAt
    exact hWord hKind

/-- Recovery goes on at the next position at which a statement may begin. -/
theorem exists_resumes_boundary (hTokens : ∀ t ∈ ts, t.kind ≠ .eof) {stop : Nat} {last : Token}
    (hLast : ts[stop]? = some last) :
    ∃ next, boundary last (ts.drop (stop + 1)) = ts.drop next ∧ Resumes ts stop next := by
  induction hRest : ts.drop (stop + 1) generalizing stop last with
  | nil =>
      have hEnd : ts.length ≤ stop + 1 := List.drop_eq_nil_iff.mp hRest
      refine ⟨ts.length, by rw [boundary, List.drop_length], Or.inr rfl, Nat.le_refl _, Or.inl rfl, ?_⟩
      intro position hAfter hBefore
      omega
  | cons t rest ih =>
      obtain ⟨hNext, hLater⟩ : ts[stop + 1]? = some t ∧ ts.drop (stop + 2) = rest := by
        rw [← List.head?_drop, hRest, ← List.tail_drop, hRest]
        exact ⟨rfl, rfl⟩
      obtain ⟨hLength, hGet⟩ := List.getElem?_eq_some_iff.mp hNext
      have hKind : t.kind ≠ .eof := hTokens t (hGet ▸ List.getElem_mem hLength)
      rw [boundary]
      split
      next hBegins =>
        refine ⟨stop + 1, hRest.symm, Or.inl (Nat.lt_succ_self _), hLength.le, Or.inr ?_, ?_⟩
        · rcases hBegins with hEof | hSemicolon | hWord
          · exact absurd hEof hKind
          · exact Or.inl ⟨last, hLast, hSemicolon⟩
          · exact Or.inr ⟨t, hNext, hWord⟩
        · intro position hAfter hBefore
          omega
      next hNone =>
        obtain ⟨_, hSemicolon, hWord⟩ := not_or.mp hNone |>.imp_right not_or.mp
        obtain ⟨next, hEq, hResumes⟩ := ih hNext hLater
        refine ⟨next, hEq, hResumes.forward.imp_left Nat.lt_of_succ_lt, hResumes.within,
          hResumes.boundary, ?_⟩
        intro position hAfter hBefore
        rcases Nat.lt_or_eq_of_le hAfter with hLate | rfl
        · exact hResumes.first position hLate hBefore
        · exact not_boundary hLast hNext hSemicolon hWord

/-- Where reading goes on after it stopped at some position. -/
theorem exists_resumes (hTokens : ∀ t ∈ ts, t.kind ≠ .eof) {stop : Nat} (hStop : stop ≤ ts.length) :
    ∃ next, recover (ts.drop stop) = ts.drop next ∧ Resumes ts stop next := by
  rcases hStop.eq_or_lt with rfl | hBefore
  · refine ⟨ts.length, by rw [List.drop_length, recover], Or.inr rfl, Nat.le_refl _, Or.inl rfl, ?_⟩
    intro position hAfter hBefore
    omega
  · rw [List.drop_eq_getElem_cons hBefore, recover]
    exact exists_resumes_boundary hTokens (List.getElem?_eq_getElem hBefore)

/-- A declaration that is read is an attempt of its own. -/
theorem exists_made_read {s : Stmt} {rest : List Token} {fewer : rest.length < (ts.drop start).length}
    (hStart : start ≤ ts.length) (h : Stmt.readDeclaration (ts.drop start) = .done s rest fewer) :
    ∃ next, rest = ts.drop next ∧ (Attempt.read s).Made ts start next := by
  obtain ⟨next, _, hWithin, rfl⟩ := exists_drop_eq hStart (Stmt.suffix_of_readDeclaration h)
  have hForward : start < next := by
    rw [List.length_drop, List.length_drop] at fewer
    omega
  exact ⟨next, rfl, .read hForward hWithin ⟨fewer, h⟩⟩

/-- A problem is an attempt of its own, with the recovery after it. -/
theorem exists_made_failed {problem : Problem} {rest : List Token}
    {atMost : rest.length ≤ (ts.drop start).length} (hTokens : ∀ t ∈ ts, t.kind ≠ .eof)
    (hStart : start < ts.length)
    (h : Stmt.readDeclaration (ts.drop start) = .failed problem rest atMost) :
    ∃ position next, problem = Attempt.problem ts (problem.complaint, position) ∧
      recover rest = ts.drop next ∧
      (Attempt.failed problem.complaint position).Made ts start next := by
  obtain ⟨blamed, hBlamed, hToken, hRest⟩ := Stmt.blames_of_readDeclaration h
  obtain ⟨position, hPosition, hEnd, rfl⟩ := exists_drop_eq hStart.le hBlamed
  have hProblem : problem = Attempt.problem ts (problem.complaint, position) := by
    rw [Attempt.problem, ← List.head?_drop, ← hToken]
  -- reading stopped at the blamed token or just after it
  obtain ⟨stop, hStop, hStopEnd, rfl⟩ : ∃ stop, (stop = position ∨ stop = position + 1) ∧
      stop ≤ ts.length ∧ rest = ts.drop stop := by
    rcases hRest with hAt | ⟨t, hAfter⟩
    · exact ⟨position, Or.inl rfl, hEnd, hAt⟩
    · have hBefore : position < ts.length := by
        rw [← List.drop_eq_nil_iff.not.trans Nat.not_le, hAfter]
        exact List.cons_ne_nil t rest
      refine ⟨position + 1, Or.inr rfl, hBefore, ?_⟩
      rw [← List.tail_drop, hAfter, List.tail_cons]
  obtain ⟨next, hRecovers, hResumes⟩ := exists_resumes hTokens hStopEnd
  have hForward : start < next := by
    rcases hResumes.forward with hNext | hNext <;> omega
  refine ⟨position, next, hProblem, hRecovers, .failed hForward hPosition hEnd ⟨atMost, ?_⟩ hStop
    hResumes⟩
  rw [h, ← hProblem]

/-- The first of the attempts made from some position on. -/
theorem attempts_drop (hTokens : ∀ t ∈ ts, t.kind ≠ .eof) (hStart : start < ts.length) :
    ∃ (a : Attempt) (next : Nat), a.Made ts start next ∧
      attempts (ts.drop start) = a.result ts :: attempts (ts.drop next) := by
  have hAhead : Reading.ahead (ts.drop start) ≠ .eof := by
    rw [List.drop_eq_getElem_cons hStart, Reading.ahead_cons]
    exact hTokens _ (List.getElem_mem hStart)
  rw [attempts, dif_neg hAhead]
  split
  next s rest fewer h =>
    obtain ⟨next, rfl, hMade⟩ := exists_made_read hStart.le h
    exact ⟨_, next, hMade, rfl⟩
  next problem rest atMost h =>
    obtain ⟨position, next, hProblem, hRecovers, hMade⟩ := exists_made_failed hTokens hStart h
    refine ⟨_, next, hMade, ?_⟩
    rw [hRecovers, Attempt.result, ← hProblem]

/-- Reading makes a course of attempts up to the end of the tokens. -/
theorem exists_course (hTokens : ∀ t ∈ ts, t.kind ≠ .eof) (hStart : start ≤ ts.length) :
    ∃ as, Course ts start as ∧ attempts (ts.drop start) = as.map (Attempt.result ts) := by
  induction hLeft : ts.length - start using Nat.strong_induction_on generalizing start with
  | _ left ih =>
      rcases hStart.eq_or_lt with rfl | hBefore
      · refine ⟨[], .nil, ?_⟩
        rw [List.drop_length, List.map_nil, attempts_nil]
      · obtain ⟨a, next, hMade, hFirst⟩ := attempts_drop hTokens hBefore
        have hForward := hMade.forward
        obtain ⟨as, hCourse, hRest⟩ := ih (ts.length - next) (by omega) hMade.within rfl
        exact ⟨a :: as, .cons hMade hCourse, by rw [hFirst, hRest, List.map_cons]⟩

def failures (as : List Attempt) : List (Complaint × Nat) := as.filterMap Attempt.failure?

/-- Complaints are about positions that have not been passed before. -/
theorem Course.position_mem {as : List Attempt} (h : Course ts start as)
    {failure : Complaint × Nat} (hMem : failure ∈ failures as) :
    start ≤ failure.2 ∧ failure.2 ≤ ts.length := by
  induction h with
  | nil => cases hMem
  | @cons start next a as hMade _ ih =>
      cases hMade with
      | read hForward _ _ =>
          have := ih hMem
          omega
      | failed hForward hStart hEnd _ _ _ =>
          rcases List.mem_cons.mp hMem with rfl | hRest
          · exact ⟨hStart, hEnd⟩
          · have := ih hRest
            omega

/-- Complaints move forward along the tokens. -/
theorem Course.pairwise {as : List Attempt} (h : Course ts start as) :
    ((failures as).map Prod.snd).Pairwise (· < ·) := by
  induction h with
  | nil => exact .nil
  | @cons start next a as hMade hRest ih =>
      cases hMade with
      | read _ _ _ => exact ih
      | @failed _ position stop _ _ _ _ hStop hResumes =>
          refine List.Pairwise.cons ?_ ih
          intro later hLater
          obtain ⟨failure, hMem, rfl⟩ := List.mem_map.mp hLater
          rcases hResumes.forward with hPast | rfl
          · have := (hRest.position_mem hMem).1
            omega
          · -- nothing is attempted at the end of the tokens
            cases hRest with
            | nil => cases hMem
            | cons hMade _ => exact absurd hMade.within (Nat.not_le.mpr hMade.forward)

/-- Only the last complaint can be about the end. -/
theorem Course.before_end {as : List Attempt} (h : Course ts start as)
    {failure : Complaint × Nat} (hMem : failure ∈ (failures as).dropLast) :
    failure.2 < ts.length := by
  have hSome : failures as ≠ [] := by
    intro hNone
    rw [hNone] at hMem
    cases hMem
  have hOrdered := h.pairwise
  rw [← List.dropLast_append_getLast hSome, List.map_append, List.pairwise_append] at hOrdered
  have hLast := hOrdered.2.2 _ (List.mem_map_of_mem hMem) _
    (List.mem_map_of_mem (List.mem_singleton_self _))
  exact hLast.trans_le (h.position_mem (List.getLast_mem hSome)).2

theorem mem_splitEnd {tokens : List Token} {t : Token} (h : t ∈ (splitEnd tokens).1)
    (hEnd : ∀ t ∈ tokens.dropLast, t.kind ≠ .eof) : t.kind ≠ .eof := by
  cases tokens using List.reverseRecOn with
  | nil => cases h
  | append_singleton front last =>
      rw [List.dropLast_concat] at hEnd
      simp only [splitEnd, List.getLast?_concat, List.dropLast_concat] at h
      split at h
      next => exact hEnd t h
      next hLast =>
        rcases List.mem_append.mp h with hFront | hOnly
        · exact hEnd t hFront
        · rwa [List.mem_singleton.mp hOnly]

/-- A complaint about a token is not placed at the end of the input. -/
theorem place_diagnostic (hTokens : ∀ t ∈ ts, t.kind ≠ .eof) (last : Int)
    {failure : Complaint × Nat} (h : failure.2 < ts.length) :
    ((Attempt.problem ts failure).diagnostic last).place ≠ .endOfInput := by
  have hKind := hTokens _ (List.getElem_mem h)
  simp [Attempt.problem, Problem.diagnostic, List.getElem?_eq_getElem h, Diagnostic.atToken, hKind]

/-- A program is read from the tokens by some attempts at a declaration, and reported on by them. -/
structure ReadBy (tokens : List Token) (as : List Attempt) : Prop where
  /-- The attempts follow one another from the first token to the end. -/
  course : Course (splitEnd tokens).1 0 as
  statements : (ofTokens tokens).program.statements = as.filterMap Attempt.statement?
  /-- Each failure is reported once, at its token. -/
  diagnostics : (ofTokens tokens).diagnostics = (failures as).map fun failure =>
    (Attempt.problem (splitEnd tokens).1 failure).diagnostic (splitEnd tokens).2
  count : (ofTokens tokens).diagnostics.length = as.countP fun a => a.failure?.isSome
  ordered : ((failures as).map Prod.snd).Pairwise (· < ·)
  endLast : ∀ d ∈ (ofTokens tokens).diagnostics.dropLast, d.place ≠ .endOfInput

/-- Reading recovers from every failure and reports it once. Attempts that succeed give the
statements and take at least one token each, attempts that fail give one diagnostic each, in order
and at ever later tokens, and only the last diagnostic can be about the end. -/
theorem ofTokens_recovers {tokens : List Token} (hEnd : ∀ t ∈ tokens.dropLast, t.kind ≠ .eof) :
    ∃ as, ReadBy tokens as := by
  have hTokens : ∀ t ∈ (splitEnd tokens).1, t.kind ≠ .eof := fun t ht => mem_splitEnd ht hEnd
  obtain ⟨as, hCourse, hResults⟩ := exists_course hTokens (Nat.zero_le _)
  rw [List.drop_zero] at hResults
  have hDiagnostics : (ofTokens tokens).diagnostics = (failures as).map fun failure =>
      (Attempt.problem (splitEnd tokens).1 failure).diagnostic (splitEnd tokens).2 := by
    rw [diagnostics_ofTokens, hResults, List.filterMap_map, failures, List.map_filterMap]
    exact List.filterMap_congr fun a _ => a.report?_result _ _
  refine ⟨as, hCourse, ?_, hDiagnostics, ?_, hCourse.pairwise, ?_⟩
  · rw [statements_ofTokens, hResults, List.filterMap_map]
    exact List.filterMap_congr fun a _ => a.toOption_result _
  · rw [hDiagnostics, List.length_map, failures, List.length_filterMap_eq_countP]
  · intro d hMem
    rw [hDiagnostics, ← List.map_dropLast] at hMem
    obtain ⟨failure, hFailure, rfl⟩ := List.mem_map.mp hMem
    exact place_diagnostic hTokens _ (hCourse.before_end hFailure)

/-- The tokens of `print; a; (a) = a; {`, where the second of four attempts succeeds. The third one
stops after the token that it blames, and the last one blames the end. -/
theorem ofTokens_recovers_thrice :
    let tokens := [Kind.printWord, .semicolon, .identifier, .semicolon, .leftParen, .identifier,
      .rightParen, .equal, .identifier, .semicolon, .leftBrace].map fun k => Token.read k "a" 1
    (∀ t ∈ tokens.dropLast, t.kind ≠ .eof) ∧ (∃ as, ReadBy tokens as) ∧
      (ofTokens tokens).program.statements.length = 1 ∧
      (ofTokens tokens).diagnostics.map Diagnostic.place =
        [.lexeme "a", .lexeme "a", .endOfInput] :=
  ⟨by decide, ofTokens_recovers (by decide), by decide +kernel, by decide +kernel⟩

end Program
end Lox
