/-
  The carets under a quoted line.

  A span names its last place as part of it, but a report takes the distance of the ends for the
  number of carets.  So the carets under a span of one line run from its first column to the last but
  one (`caretLine_eq`), and only a span of a single column is underlined as a whole.  In a text of
  printable ASCII characters a column is a character, and then the carets stand under the quoted line
  or right behind it (`carets_fall_short`).
-/
import SmallScript.Diagnostic.Report
import SmallScript.Proofs.Reading.Complaints

namespace SmallScript

namespace Report

variable {s : Span} {first last m n : Nat}

/-- Carets under the columns from `first` to `last`, both included. -/
def underline (first last : Nat) : String := run (first - 1) ' ' ++ run (last + 1 - first) '^'

theorem length_run (n : Nat) (c : Char) : (run n c).length = n := by
  unfold run
  rw [String.length_ofList, List.length_replicate]

theorem underline_inj (hm : first ≤ m + 1) (hn : first ≤ n + 1) :
    underline first m = underline first n ↔ m = n := by
  refine ⟨fun h => ?_, fun h => h ▸ rfl⟩
  have hlength := congrArg String.length h
  unfold underline at hlength
  rw [String.length_append, String.length_append, length_run, length_run, length_run] at hlength
  omega

/-- The last column of a span of several columns gets no caret. -/
theorem caretLine_eq (hline : s.last.line = s.first.line) (hle : s.first.column ≤ s.last.column) :
    caretLine false s = underline s.first.column (max s.first.column (s.last.column - 1)) := by
  unfold caretLine caretWidth underline
  rw [if_pos hline, Ink.paint_plain]
  congr 2
  omega

/-- Only a span of one column is underlined as a whole. -/
theorem caretLine_eq_underline (hline : s.last.line = s.first.line)
    (hle : s.first.column ≤ s.last.column) :
    caretLine false s = underline s.first.column s.last.column ↔
      s.first.column = s.last.column := by
  rw [caretLine_eq hline hle, underline_inj (by omega) (by omega)]
  omega

end Report

/-! ## Plain texts -/

/-- The text is printable ASCII characters and line feeds. -/
def Document.Plain (doc : Document) : Prop :=
  ∀ c ∈ doc.text.toList, c = '\n' ∨ (' ' ≤ c ∧ c ≤ '~')

instance (doc : Document) : Decidable doc.Plain :=
  decidable_of_iff (doc.text.toList.all fun c => decide (c = '\n' ∨ (' ' ≤ c ∧ c ≤ '~')))
    (List.all_eq_true.trans (forall₂_congr fun _ _ => decide_eq_true_iff))

section Plain

variable {cs piece : List Char} {c : Char} {n : Nat} {doc : Document}

/-- The characters between line feeds are those of the text. -/
theorem mem_piecesOf (hpiece : piece ∈ piecesOf cs) (hc : c ∈ piece) : c ∈ cs ∧ c ≠ '\n' := by
  induction cs generalizing piece with
  | nil =>
    rw [List.mem_singleton.1 hpiece] at hc
    exact absurd hc List.not_mem_nil
  | cons d cs ih =>
    by_cases hd : d = '\n'
    · subst hd
      rw [piecesOf_newline] at hpiece
      rcases List.mem_cons.1 hpiece with rfl | hpiece
      · exact absurd hc List.not_mem_nil
      · exact ⟨List.mem_cons_of_mem _ (ih hpiece hc).1, (ih hpiece hc).2⟩
    · obtain ⟨p, ps, hps, hcons⟩ := piecesOf_cons hd cs
      rw [hps] at ih
      rw [hcons] at hpiece
      rcases List.mem_cons.1 hpiece with rfl | hpiece
      · rcases List.mem_cons.1 hc with rfl | hc
        · exact ⟨List.mem_cons_self, hd⟩
        · exact ⟨List.mem_cons_of_mem _ (ih List.mem_cons_self hc).1, (ih List.mem_cons_self hc).2⟩
      · have hmem := ih (List.mem_cons_of_mem p hpiece) hc
        exact ⟨List.mem_cons_of_mem _ hmem.1, hmem.2⟩

theorem utf8Size_of_plain (hc : c ≤ '~') : c.utf8Size = 1 := by
  have hval : c.val ≤ 126 := hc
  unfold Char.utf8Size
  rw [if_pos (UInt32.le_trans hval (by decide))]

theorem byteCount_of_plain (h : ∀ c ∈ piece, c ≤ '~') : byteCount piece = piece.length := by
  induction piece with
  | nil => rfl
  | cons c cs ih =>
    rw [byteCount_cons, List.length_cons, utf8Size_of_plain (h c List.mem_cons_self),
      ih fun d hd => h d (List.mem_cons_of_mem c hd), Nat.add_comm]

/-- A line of a plain text is a whole piece of it, and has as many characters as bytes. -/
theorem Document.Plain.whole (h : doc.Plain)
    (hpiece : (doc.text.toList.splitOn '\n')[n]? = some piece) :
    piece.rdropWhile (· == '\r') = piece ∧ byteCount piece = piece.length := by
  have hplain : ∀ c ∈ piece, ' ' ≤ c ∧ c ≤ '~' := by
    intro c hc
    rw [← piecesOf_eq_splitOn] at hpiece
    obtain ⟨hmem, hne⟩ := mem_piecesOf (List.mem_of_getElem? hpiece) hc
    exact (h c hmem).resolve_left hne
  refine ⟨List.rdropWhile_eq_self_iff.2 fun hne hreturn => ?_,
    byteCount_of_plain fun c hc => (hplain c hc).2⟩
  have hlast := (hplain _ (List.getLast_mem hne)).1
  rw [beq_iff_eq.1 hreturn] at hlast
  exact absurd hlast (by decide)

end Plain

/-! ## Reports -/

/-- **Carets fall short.**  In a plain text a span on one line ends on that line or right behind it.
Under the quoted line stand, behind the gutter, blanks up to the first column and carets up to the
last column but one; so the span is underlined as a whole only if it has a single column. -/
theorem carets_fall_short (doc : Document) (hplain : doc.Plain) (d : Diagnostic)
    (hd : d ∈ (Parse.ofDocument doc).log.stored) (hline : d.span.last.line = d.span.first.line)
    (hsource : d.sourceLine ≠ "") :
    Report.ofDiagnostic false d =
        "error[" ++ d.code.text ++ "]" ++ ": " ++ d.message ++ "\n"
          ++ "  --> " ++ d.file ++ ":" ++ d.span.text ++ "\n"
          ++ "    |\n"
          ++ Report.lineNumber d.span.first.line ++ " | " ++ d.sourceLine ++ "\n"
          ++ "    | " ++ Report.underline d.span.first.column
            (max d.span.first.column (d.span.last.column - 1)) ++ "\n"
          ++ Report.help false d ∧
      1 ≤ d.span.first.column ∧ d.span.first.column ≤ d.span.last.column ∧
      d.span.last.column ≤ d.sourceLine.length + 1 ∧
      (Report.caretLine false d.span =
          Report.underline d.span.first.column d.span.last.column ↔
        d.span.first.column = d.span.last.column) := by
  obtain ⟨-, hspan, hquoted⟩ := Parse.log_cites doc d hd
  have hle : d.span.first.column ≤ d.span.last.column := by
    have hproper := hspan.proper
    unfold Span.Proper at hproper
    rw [Place.le_def] at hproper
    omega
  refine ⟨?_, hspan.first.column, hle, ?_, Report.caretLine_eq_underline hline hle⟩
  · unfold Report.ofDiagnostic Report.quotation
    rw [if_neg hsource, Report.caretLine_eq hline hle]
    simp only [Ink.paint_plain, String.append_assoc]
    rfl
  · obtain ⟨hfirst, -, piece, hpiece, hlast⟩ := hspan.last
    rw [hline] at hpiece hfirst
    obtain ⟨hwhole, hbytes⟩ := hplain.whole hpiece
    have hquote := doc.line?_eq_some hpiece
    rw [Nat.sub_add_cancel hfirst, hwhole] at hquote
    rw [hquoted, Document.line, hquote, Option.getD_some, String.length_ofList, ← hbytes]
    omega

/-- Two of the three characters of a string that is left open are underlined. -/
theorem carets_under_open_string :
    let doc : Document := { name := "", text := "write \"ab" }
    let s : Span := ⟨⟨1, 7⟩, ⟨1, 9⟩⟩
    let d := Diagnostic.about doc .unterminatedString "Unterminated string literal" s none
    (doc.Plain ∧ d ∈ (Parse.ofDocument doc).log.stored ∧ s.last.line = s.first.line ∧
      d.sourceLine ≠ "") ∧
      Report.ofDiagnostic false d =
        "error[" ++ d.code.text ++ "]" ++ ": " ++ d.message ++ "\n"
          ++ "  --> " ++ d.file ++ ":" ++ d.span.text ++ "\n"
          ++ "    |\n"
          ++ Report.lineNumber 1 ++ " | " ++ d.sourceLine ++ "\n"
          ++ "    | " ++ Report.underline 7 8 ++ "\n"
          ++ Report.help false d ∧
      1 ≤ 7 ∧ 7 ≤ 9 ∧ 9 ≤ d.sourceLine.length + 1 ∧
      (Report.caretLine false s = Report.underline 7 9 ↔ 7 = 9) := by
  intro doc s d
  have hinput : doc.Plain ∧ d ∈ (Parse.ofDocument doc).log.stored ∧
      s.last.line = s.first.line ∧ d.sourceLine ≠ "" := by decide +kernel
  obtain ⟨hplain, hstored, hline, hsource⟩ := hinput
  exact ⟨⟨hplain, hstored, hline, hsource⟩, carets_fall_short doc hplain d hstored hline hsource⟩

/-- A number stands where the semicolon should be, and its second digit is not underlined. -/
theorem second_digit_bare :
    let doc : Document := { name := "", text := "write 10 20;" }
    let s : Span := ⟨⟨1, 10⟩, ⟨1, 11⟩⟩
    let d := Diagnostic.about doc .unexpectedToken "expected ';', got '20'" s
      (some "end the statement with ';'")
    doc.Plain ∧ d ∈ (Parse.ofDocument doc).log.stored ∧ s.last.line = s.first.line ∧
      d.sourceLine = "write 10 20;" ∧ Report.caretLine false s = "         ^" ∧
      Report.caretLine false s ≠ Report.underline s.first.column s.last.column := by
  decide +kernel

end SmallScript
