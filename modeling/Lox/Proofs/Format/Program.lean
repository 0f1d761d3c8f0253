import Lox.Proofs.Format.Lines
import Lox.Proofs.Format.Stmt
import Lox.Proofs.Grammar.Tracking

/-! Formatting and reading a program again. What a source is read as, with whatever was wrong with
it left out, has a text that is read without complaint as the same program. -/
namespace Lox

namespace Program

/-- A declaration that is read somewhere in the tokens is derivable from a stretch of them. -/
theorem derives_of_mem_attempts {ts : List Token} {s : Stmt} (h : .ok s ∈ attempts ts) :
    ∃ w, w <:+: ts ∧ Stmt.Derives true .declaration w [s] := by
  fun_induction attempts ts with
  | case1 => simp at h
  | case2 ts _ s' rest fewer hDone ih =>
      obtain ⟨w, rfl, hDerives⟩ := Stmt.derives_of_readDeclaration ⟨fewer, hDone⟩
      rcases List.mem_cons.mp h with hHead | hTail
      · cases hHead
        exact ⟨w, (List.prefix_append w rest).isInfix, hDerives⟩
      · obtain ⟨w', hInfix, hDerives'⟩ := ih hTail
        exact ⟨w', hInfix.trans (List.suffix_append w rest).isInfix, hDerives'⟩
  | case3 ts _ problem rest atMost hFailed ih =>
      have hSuffix : recover rest <:+ ts := (suffix_recover rest).trans
        ((List.tail_suffix rest).trans (Stmt.blames_of_readDeclaration hFailed).suffix)
      rcases List.mem_cons.mp h with hHead | hTail
      · cases hHead
      · obtain ⟨w, hInfix, hDerives⟩ := ih hTail
        exact ⟨w, hInfix.trans hSuffix.isInfix, hDerives⟩

/-- Every statement that a source is read as is derivable from scanned tokens. -/
theorem exists_derives_of_mem_ofSource {source : Text} {s : Stmt}
    (h : s ∈ (ofSource source).program.statements) :
    ∃ w, (∀ t ∈ w, t.IsScanned) ∧ Stmt.Derives true .declaration w [s] := by
  have hTokens : splitEnd (Scan.ofSource source).tokens =
      ((Segment.located 1 (Segment.ofText source)).filterMap Scan.token?, Scan.lastLine source) :=
    splitEnd_append rfl
  simp only [ofSource, ofTokens, hTokens, List.mem_filterMap] at h
  obtain ⟨result, hMem, hOk⟩ := h
  cases result with
  | error problem => cases hOk
  | ok s' =>
      cases hOk
      obtain ⟨w, hInfix, hDerives⟩ := derives_of_mem_attempts hMem
      exact ⟨w, fun t ht => Scan.isScanned_of_mem (hInfix.subset ht), hDerives⟩

/-- The text of each statement of a source spells tokens that it can be derived from. -/
theorem printed_of_mem_ofSource {source : Text} {s : Stmt}
    (h : s ∈ (ofSource source).program.statements) : Stmt.Printed .declaration s := by
  obtain ⟨w, hScanned, hDerives⟩ := exists_derives_of_mem_ofSource h
  exact hDerives.printed hScanned s List.mem_cons_self

/-- The text of a program whose statements are read as others spells tokens from which these can be
derived. -/
theorem exists_prints_of_readsAs {nearest : Bool} {p p' : Program}
    (h : List.Forall₂ (Stmt.ReadsAs nearest .declaration) p.statements p'.statements) :
    ∃ w, Segment.Prints p.format w ∧ Derives nearest w p' := by
  obtain ⟨w, hPrints, hDerives⟩ := Stmt.prints_lines h 0
  refine ⟨w, ?_, hDerives⟩
  obtain ⟨ss⟩ := p
  obtain ⟨ss'⟩ := p'
  cases ss with
  | nil =>
      cases h
      cases hDerives
      exact Segment.prints_nil
  | cons s ss =>
      have hText : format ⟨s :: ss⟩ = Text.join "\n" (Stmt.formatLines 0 (s :: ss)) ++ [10] := by
        simp [format, Text.concat, Text.ofString_newline]
      rw [hText, ← List.append_nil w]
      exact hPrints.append (Segment.begins_cons (by decide) []) Segment.prints_nil.newline

/-- The text of a program of printed statements spells tokens from which it can be derived. -/
theorem exists_prints_format {p : Program} (h : ∀ s ∈ p.statements, Stmt.Printed .declaration s) :
    ∃ w, Segment.Prints p.format w ∧ Derives true w p.plain :=
  exists_prints_of_readsAs (Stmt.forall₂_printed h)

/-- A text that spells the tokens of a derivation is read as the derived program, up to lines. -/
theorem ofSource_of_prints {text : Text} {w : List Token} {p : Program}
    (hPrints : Segment.Prints text w) (hDerives : Derives true w p) :
    (ofSource text).diagnostics = [] ∧ (ofSource text).program.unlined = p.unlined := by
  obtain ⟨hScan, w', last, hTokens, rfl⟩ := Scan.ofSource_of_prints hPrints
  obtain ⟨ss, hDerives', hEq⟩ := Stmt.Derives.of_unlined hDerives
  obtain ⟨hParse, hProgram⟩ :=
    (@ofTokens_eq_iff_attempts w' (Token.endOfInput last) rfl ⟨ss⟩).mpr
      (attempts_of_derives hDerives')
  simp only [ofSource, hScan, hTokens, hParse, hProgram, List.append_nil, true_and]
  exact congrArg Program.mk hEq

/-- Whatever a source is read as, its text is read without complaint, as the same program apart from
lines, the word of loops that were written with `for`, and literals that overflowed, which come back
as one divided by zero. Formatting that program gives the same text again. -/
theorem ofSource_format (source : Text) :
    let p := (ofSource source).program
    (ofSource p.format).diagnostics = [] ∧
      (ofSource p.format).program.unlined = p.plain ∧
      (ofSource p.format).program.format = p.format := by
  intro p
  obtain ⟨w, hPrints, hDerives⟩ := exists_prints_format fun s => printed_of_mem_ofSource (s := s)
  obtain ⟨hDiagnostics, hProgram⟩ := ofSource_of_prints hPrints hDerives
  rw [unlined_plain] at hProgram
  refine ⟨hDiagnostics, hProgram, ?_⟩
  rw [← format_rewrite Rewriting.keepsText_unlined, ← unlined, hProgram, plain,
    format_rewrite Rewriting.keepsText_plain]

end Program
end Lox
