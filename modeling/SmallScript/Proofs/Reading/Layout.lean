/-
  Layout does not matter to the reader.

  The grammar tells which words a tree is written in.  A text that is read without a complaint is a
  written form of its program (the way from the text to the tree), and every written form is read as
  what it is a form of (the way back).  So two texts with the same words that are both read without
  a complaint give the same program, up to places.  Numbers are handed out in the order of the text
  and none is lost, so even the numbers are the same.
-/
import SmallScript.Proofs.Reading.Completeness
import SmallScript.Proofs.Reading.Likeness
import SmallScript.Proofs.Reading.Soundness

namespace SmallScript

/-! ## Where a text ends -/

namespace Lexeme

/-- A lexeme is not the end of the text. -/
def Spoken (lexeme : Lexeme) : Prop := lexeme.sort ≠ .token .eof

theorem spoken_number (cs : List Char) : (number cs).1.Spoken := by
  have hradix : ∀ mark isDigit cs, (radixNumber mark isDigit cs).1.Spoken := by
    intro mark isDigit cs
    unfold radixNumber Spoken
    dsimp only
    split <;> nofun
  unfold number
  split
  · exact hradix _ _ _
  · exact hradix _ _ _
  · unfold decimalNumber Spoken
    dsimp only
    split <;> nofun

theorem spoken_blockComment (seen cs : List Char) : (blockComment seen cs).1.Spoken := by
  fun_induction blockComment seen cs with
  | case1 => exact LexemeSort.noConfusion
  | case2 _ _ _ _ ih => exact ih
  | case3 => exact LexemeSort.noConfusion

theorem spoken_string (seen cs : List Char) : (string seen cs).1.Spoken := by
  fun_induction string seen cs with
  | case1 =>
    intro h
    injection h with h
    cases h
  | case3 _ _ _ _ ih => exact ih
  | case5 _ _ _ _ _ _ ih => exact ih
  | _ => exact LexemeSort.noConfusion

theorem spoken_word (cs : List Char) : (word cs).1.Spoken := by
  unfold word Kind.ofWord Spoken
  dsimp only
  split <;> nofun

theorem spoken_symbol (c : Char) (rest : List Char) : (symbol c rest).1.Spoken := by
  unfold symbol
  split
  · nofun
  · split <;> nofun

theorem spoken_cut (c : Char) (rest : List Char) : (cut c rest).1.Spoken := by
  unfold cut
  split
  · nofun
  · split
    · exact spoken_number _
    · split
      · exact spoken_word _
      · split
        · exact spoken_string _ _
        · split
          · nofun
          · exact spoken_blockComment _ _
          · exact spoken_symbol _ _

theorem Spoken.kind_ne {lexeme : Lexeme} (h : lexeme.Spoken) {k : Kind}
    (hk : lexeme.kind? = some k) : k ≠ .eof := by
  rintro rfl
  unfold kind? at hk
  split at hk
  · rename_i k hsort
    exact h (hsort.trans (congrArg LexemeSort.token (Option.some.inj hk)))
  all_goals cases hk

end Lexeme

/-- A scan adds words to those that were read, and an end. -/
theorem Scan.kinds_go (doc : Document) (tokens : Array Token) (log : Log) (here : Place)
    (cs : List Char) :
    ∃ ks, (Scan.go doc tokens log here cs).tokens.toList.map Token.kind =
      tokens.toList.map Token.kind ++ (ks ++ [.eof]) ∧ .eof ∉ ks := by
  have hclose : ∀ tokens log here unread,
      (close tokens log here unread).tokens.toList.map Token.kind =
        tokens.toList.map Token.kind ++ ([] ++ [.eof]) := by
    intro tokens log here unread
    unfold close
    rw [Array.toList_push, List.map_append]
    rfl
  fun_induction Scan.go doc tokens log here cs with
  | case1 => exact ⟨[], hclose _ _ _ _, List.not_mem_nil⟩
  | case2 _ _ _ _ _ _ _ _ _ _ ih => exact ih
  | case3 tokens log here c rest lexeme next span log' kind hkind tokens' hfull =>
    -- The log is full, so the text is taken to end behind this word.
    have hnot : .eof ∉ [kind] := by
      rw [List.mem_singleton]
      exact ((Lexeme.spoken_cut c rest).kind_ne hkind).symm
    refine ⟨[kind], ?_, hnot⟩
    rw [hclose, Array.toList_push, List.map_append, List.append_assoc]
    rfl
  | case4 tokens log here c rest lexeme next span log' kind hkind tokens' hfull ih =>
    obtain ⟨ks, hks, hnot⟩ := ih
    refine ⟨kind :: ks, ?_, ?_⟩
    · rw [hks, Array.toList_push, List.map_append, List.append_assoc]
      rfl
    · rw [List.mem_cons, not_or]
      exact ⟨((Lexeme.spoken_cut c rest).kind_ne hkind).symm, hnot⟩

/-- The words of a document. -/
def Document.kinds (doc : Document) : List Kind := doc.scan.tokens.toList.map Token.kind

/-- The words of a document end where it ends, and not before. -/
theorem Document.kinds_ended (doc : Document) : ∃ ks, doc.kinds = ks ++ [.eof] ∧ .eof ∉ ks :=
  Scan.kinds_go doc #[] Log.empty Place.start doc.text.toList

/-! ## Texts with the same words -/

/-- A log that is appended loses no complaint. -/
theorem Log.total_le_append (log other : Log) : other.total ≤ (log.append other).total := by
  have hpush : ∀ (l : List Diagnostic) (log : Log),
      (l.foldl Log.push log).total = log.total + l.length := by
    intro l
    induction l with
    | nil => exact fun _ => rfl
    | cons d l ih =>
      intro log
      rw [List.foldl_cons, ih, Log.total_push, List.length_cons]
      omega
  unfold Log.append
  dsimp only
  rw [← Array.foldl_toList, hpush, Array.length_toList]
  omega

theorem Parse.quiet_ofDocument {doc : Document} (h : (Parse.ofDocument doc).log.hasErrors = false) :
    (Parse.ofTokens doc doc.scan.tokens.toList).log.total = 0 := by
  have hzero : (Parse.ofDocument doc).log.total = 0 :=
    Nat.eq_zero_of_not_pos (of_decide_eq_false h)
  exact Nat.le_zero.1 (Nat.le_trans (Log.total_le_append _ _) (Nat.le_of_eq hzero))

/-- What is read without a complaint is read as its words say. -/
theorem written_of_quiet {doc : Document} {tokens : List Token} {ks : List Kind}
    (hks : tokens.map Token.kind = ks ++ [.eof]) (hnot : .eof ∉ ks)
    (hquiet : (Parse.ofTokens doc tokens).log.total = 0) :
    Written Cursor.maxDepth (.stmts (Parse.ofTokens doc tokens).program.stmts) ks := by
  have hkinds := Cursor.kinds_ofTokens doc hks
  have hc : (Cursor.ofTokens doc tokens).Ended := ⟨ks, hkinds, hnot⟩
  have hempty : (Cursor.ofTokens doc tokens).log.total = 0 := by
    rw [Cursor.log_ofTokens]
    rfl
  obtain ⟨hread, hreach⟩ := Reading.faithful_programBody (Cursor.ofTokens doc tokens).turns [] _ hc
  have hend := hread.ended.kinds_of_eof (hreach (Nat.lt_succ_self _) hempty hquiet)
  obtain ⟨_, js, ⟨⟩, ⟨us, hus, hwritten⟩, hjs⟩ := hread.read (hquiet.trans hempty.symm)
  rw [hend, hkinds] at hjs
  rw [List.append_cancel_right hjs, Parse.stmts_ofTokens, hus, List.append_nil,
    List.reverse_reverse]
  rwa [Cursor.depth_ofTokens] at hwritten

/-- Words are read without a complaint, and as any tree is that can be written so. -/
theorem read_of_written {doc : Document} {tokens : List Token} {ts : List Stmt} {ks : List Kind}
    (hwritten : Written Cursor.maxDepth (.stmts ts) ks)
    (hks : tokens.map Token.kind = ks ++ [.eof]) :
    (Parse.ofTokens doc tokens).log = Log.empty ∧
      (Parse.ofTokens doc tokens).program.stmts.map Stmt.plain = ts.map Stmt.plain := by
  have hrow : Reading.Row Cursor.maxDepth ts ks := hwritten.complete
  have hready : (Cursor.ofTokens doc tokens).Ready Cursor.maxDepth := by
    unfold Cursor.Ready
    rw [Cursor.depth_ofTokens, Cursor.log_ofTokens]
    exact ⟨by decide, rfl⟩
  have hstop : ∀ turns before (c : Cursor), c.kind = .eof →
      Reading.programBody Reading.statement (turns + 1) before c = (before, c) := by
    intro turns before c hkind
    rw [Reading.programBody, Cursor.atEnd, hkind]
    rfl
  obtain ⟨us, d, hus, hplain, hd⟩ := Reading.read_row (by decide) hstop Reading.programBody_step hrow
    (Cursor.ofTokens doc tokens).turns [] _ [] (Cursor.kinds_ofTokens doc hks)
    (Nat.le_of_eq (Cursor.turns_eq _).symm) hready
  constructor
  · rw [Parse.log_ofTokens, hus]
    exact hd.log.trans (Cursor.log_ofTokens doc tokens)
  · rw [Parse.stmts_ofTokens, hus, List.map_reverse, hplain, List.append_nil, List.map_reverse,
      List.reverse_reverse]

/-- Documents with the same words that are read without a complaint hold the same program, up to
places. -/
theorem same_of_kinds {doc doc' : Document} (hkinds : doc.kinds = doc'.kinds)
    (h : (Parse.ofDocument doc).log.hasErrors = false)
    (h' : (Parse.ofDocument doc').log.hasErrors = false) :
    (Parse.ofDocument doc).program.plain = (Parse.ofDocument doc').program.plain ∧
      (Parse.ofDocument doc).program.numbers = (Parse.ofDocument doc').program.numbers := by
  have hquiet := Parse.quiet_ofDocument h
  have hquiet' := Parse.quiet_ofDocument h'
  obtain ⟨ks, hks, hnot⟩ := doc.kinds_ended
  have hwritten := written_of_quiet hks hnot hquiet
  have hstmts : (Parse.ofDocument doc').program.stmts.map Stmt.plain =
      (Parse.ofDocument doc).program.stmts.map Stmt.plain :=
    (read_of_written hwritten (hkinds.symm.trans hks)).2
  have hplain : (Parse.ofDocument doc).program.plain = (Parse.ofDocument doc').program.plain :=
    congrArg (Program.mk · default) hstmts.symm
  refine ⟨hplain, ?_⟩
  -- Both are numbered from zero without a gap, so it is enough that they have as many numbers.
  have hrange : ∀ d : Document, (Parse.ofTokens d d.scan.tokens.toList).log.total = 0 →
      (Parse.ofDocument d).program.numbers =
        List.range (Parse.ofDocument d).program.numbers.length := by
    intro d hd
    have hnumbers := (handed_atStop d d.scan.tokens.toList).2 hd
    change (Parse.ofDocument d).program.numbers = _ at hnumbers
    rw [hnumbers, List.length_range]
  rw [hrange doc hquiet, hrange doc' hquiet', Program.length_numbers_eq hplain]

end SmallScript
