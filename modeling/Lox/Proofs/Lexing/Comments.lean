import Lox.Program.Printer
import Lox.Proofs.Lexing.Newline

/-! Comments, as they are looked for in a source and as scanning finds them. The search goes along each
line byte by byte and only tells what is between quotes from what is not; scanning cuts the source
into segments and goes on after bad ones. They stay in step, so that one finds a comment exactly when
the other does. -/
namespace Lox

open Segment Text

/-- No comment starts inside a string. -/
theorem commentIn_inside {t : Text} (h : ∀ b ∈ t, b ≠ quote) (rest : Text) :
    commentIn true (t ++ rest) = commentIn true rest := by
  induction t with
  | nil => rfl
  | cons b t ih =>
      obtain ⟨hQuote, hTail⟩ := List.forall_mem_cons.mp h
      simpa [commentIn, hQuote] using ih hTail

/-- Outside strings only a slash can start a comment. -/
theorem commentIn_outside {t : Text} (h : ∀ b ∈ t, b ≠ quote ∧ b ≠ 47) (rest : Text) :
    commentIn false (t ++ rest) = commentIn false rest := by
  induction t with
  | nil => rfl
  | cons b t ih =>
      obtain ⟨⟨hQuote, hSlash⟩, hTail⟩ := List.forall_mem_cons.mp h
      simpa [commentIn, hQuote, beq_false_of_ne hSlash] using ih hTail

theorem commentIn_quote (inString : Bool) (rest : Text) :
    commentIn inString (quote :: rest) = commentIn (!inString) rest := by
  have hSlash : quote ≠ 47 := by decide
  simp [commentIn, hSlash]

/-- A single slash starts no comment. -/
theorem commentIn_slash {rest : Text} (h : rest.head? ≠ some 47) :
    commentIn false (47 :: rest) = commentIn false rest := by
  have hQuote : 47 ≠ quote := by decide
  simp [commentIn, hQuote, h]

theorem commentIn_comment (rest : Text) : commentIn false (47 :: 47 :: rest) = true := by
  have hQuote : 47 ≠ quote := by decide
  simp [commentIn, hQuote]

theorem hasComments_of_line {line : Text} (h : newline ∉ line) :
    hasComments line = commentIn false line := by
  simp [hasComments, lines, List.splitOn_eq_singleton h]

/-- Comments are looked for line by line. -/
theorem hasComments_newline (a b : Text) :
    hasComments (a ++ newline :: b) = (hasComments a || hasComments b) := by
  simp [hasComments, lines, List.splitOn_append_cons_self]

namespace Segment

/-- A slash that is cut off alone stands before something else. -/
theorem Leads.head_ne_slash {rest : Text} (h : Leads (.lexeme .slash [47]) (47 :: rest)) :
    rest.head? ≠ some 47 := by
  intro hHead
  obtain ⟨more, rfl⟩ := List.head?_eq_some_iff.mp hHead
  have hLonger := h.longest (.comment [47, 47]) (.comment List.not_mem_nil) ⟨more, rfl⟩
  exact absurd hLonger (by decide)

/-- A string that is left open takes all of its line. -/
theorem Leads.eq_nil_of_open {t rest : Text} (h : Leads (.unterminated t false) (t ++ rest))
    (hLine : newline ∉ rest) : rest = [] := by
  by_contra hMore
  obtain ⟨b, more, rfl⟩ := List.exists_cons_of_ne_nil hMore
  obtain ⟨hNewline, -⟩ := List.ne_and_not_mem_of_not_mem_cons hLine
  obtain ⟨s, hValid, hText⟩ : ∃ s : Segment, s.Valid ∧ s.text = t ++ [b] := by
    cases h.valid with
    | @unterminated u hInside =>
        by_cases hQuote : b = quote
        · exact ⟨_, .string hInside, by rw [hQuote]; rfl⟩
        · refine ⟨.unterminated (quote :: (u ++ [b])) false, .unterminated ?_ false, rfl⟩
          exact List.forall_mem_append.mpr
            ⟨hInside, List.forall_mem_singleton.mpr ⟨hQuote, hNewline.symm⟩⟩
  have hLonger := h.longest s hValid ⟨more, by rw [hText, List.append_assoc]; rfl⟩
  rw [hText, List.length_append] at hLonger
  exact absurd hLonger (Nat.not_le.mpr (Nat.lt_succ_self _))

/-- The search goes past the first segment of a line, unless that is a comment. -/
theorem Leads.commentIn_iff {s : Segment} {rest : Text} (h : Leads s (s.text ++ rest))
    (hLine : newline ∉ s.text ++ rest) :
    commentIn false (s.text ++ rest) = true ↔ (∃ t, s = .comment t) ∨ commentIn false rest = true := by
  rw [List.mem_append, not_or] at hLine
  -- only a segment with a quote or a slash in it can change what the search sees
  by_cases hMarked : s.Marked
  · cases hMarked with
    | newline => exact absurd List.mem_cons_self hLine.1
    | slash =>
        rw [Segment.text, List.singleton_append] at h ⊢
        rw [commentIn_slash h.head_ne_slash]
        simp
    | comment => simp [Segment.text, commentIn_comment]
    | @string t hInside =>
        have hText : Segment.text (.lexeme .string (quote :: (t ++ [quote]))) ++ rest =
            quote :: (t ++ quote :: rest) := by
          simp [Segment.text]
        rw [hText, commentIn_quote, Bool.not_false, commentIn_inside fun b hb => (hInside b hb).1,
          commentIn_quote, Bool.not_true]
        simp
    | @unterminated t hInside broken =>
        cases broken with
        | true => exact absurd (List.mem_append_right _ List.mem_cons_self) hLine.1
        | false =>
            obtain rfl := h.eq_nil_of_open hLine.2
            rw [Segment.text, if_neg Bool.false_ne_true, List.append_nil, commentIn_quote,
              Bool.not_false, ← List.append_nil t, commentIn_inside fun b hb => (hInside b hb).1]
            simp [commentIn]
  · have hPlain : ∀ b ∈ s.text, b ≠ quote ∧ b ≠ 47 := by
      intro b hb
      have hNone : b ∉ marks := fun hMark => hMarked (h.valid.marked hMark hb)
      simp only [marks, List.mem_cons, not_or] at hNone
      exact ⟨hNone.2.1, hNone.2.2.1⟩
    have hNone : ¬ ∃ t, s = .comment t := by
      rintro ⟨t, rfl⟩
      cases h.valid with
      | comment hInside => exact hMarked (.comment hInside)
    rw [commentIn_outside hPlain, or_iff_right hNone]

/-- Within a line the search for comments finds those that scanning cuts off. -/
theorem Cut.commentIn_iff {line : Text} {segments : List Segment} (h : Cut line segments)
    (hLine : newline ∉ line) : commentIn false line = true ↔ ∃ t, .comment t ∈ segments := by
  induction h with
  | nil => simp [commentIn]
  | @cons s rest segments hLeads _ ih =>
      rw [hLeads.commentIn_iff hLine, ih fun hMem => hLine (List.mem_append_right _ hMem)]
      simp only [List.mem_cons, exists_or, eq_comm]

/-- A newline at the end neither starts nor ends a comment. -/
theorem EndsLine.comment_mem_iff {segments segments' : List Segment} (h : EndsLine segments segments')
    (t : Text) : .comment t ∈ segments' ↔ .comment t ∈ segments := by
  induction h with
  | white => simp
  | broken => simp
  | cons s _ ih => rw [List.mem_cons, List.mem_cons, ih]

/-- The comments of a text are those of its lines. -/
theorem comment_mem_newline (a b t : Text) :
    .comment t ∈ ofText (a ++ newline :: b) ↔ .comment t ∈ ofText a ∨ .comment t ∈ ofText b := by
  obtain ⟨segments, hEnds, hCut⟩ := (cut_ofText a).exists_endsLine b
  rw [← hCut.eq_ofText, List.mem_append, hEnds.comment_mem_iff]

end Segment

/-- A source is found to have comments exactly when scanning it skips one, whatever else is in it. -/
theorem hasComments_iff_skipped (source : Text) :
    hasComments source = true ↔ ∃ t, .comment t ∈ Segment.ofText source := by
  induction hLength : source.length using Nat.strong_induction_on generalizing source with
  | _ n ih =>
      by_cases hLine : newline ∈ source
      · obtain ⟨a, b, rfl⟩ := List.append_of_mem hLine
        rw [List.length_append, List.length_cons] at hLength
        rw [hasComments_newline, Bool.or_eq_true, ih a.length (by omega) a rfl,
          ih b.length (by omega) b rfl]
        simp only [comment_mem_newline, exists_or]
      · rw [hasComments_of_line hLine, (cut_ofText source).commentIn_iff hLine]

end Lox
