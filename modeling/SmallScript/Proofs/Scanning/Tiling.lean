/-
  The tokens of a text and what lies between them.

  A scan lays pieces over its text, one behind the other and each in its form (`Tiles`), until the
  text ends or the log is full.  Its tokens are those pieces that are words, with an end behind
  them, and its log is what there is to say about the pieces.  From this alone the rest follows:
  the tokens are in order and do not overlap, and each is read where it stands in its line
  (`tokens_tile`).
-/
import SmallScript.Proofs.Scanning.Bytes
import SmallScript.Proofs.Scanning.Lines

namespace SmallScript

/-- A lexeme and where it begins. -/
structure Piece where
  lexeme : Lexeme
  first : Place

namespace Piece

def text (p : Piece) : List Char := p.lexeme.text

/-- The place behind a piece. -/
def next (p : Piece) : Place := p.first.after p.text

def span (p : Piece) : Span := Span.between p.first p.next

/-- The token that a piece is. -/
def token? (p : Piece) : Option Token := p.lexeme.kind?.map fun kind => ⟨kind, p.span⟩

/-- What there is to say about a piece. -/
def diagnostic? (doc : Document) (p : Piece) : Option Diagnostic :=
  p.lexeme.complaint?.map fun c => Diagnostic.about doc c.code c.message p.span c.suggestion

end Piece

/-- The tokens among some pieces, and the end behind the pieces. -/
def tokensOf (here : Place) (pieces : List Piece) : List Token :=
  pieces.filterMap Piece.token? ++ [⟨.eof, Span.point (here.after (pieces.flatMap Piece.text))⟩]

/-- Pieces that lie over a text from a place on, one behind the other, and what is left of the
text behind them.  Each would be taken off byte by byte as well, and a comment that is not closed
reaches to the end of the text. -/
inductive Tiles : Place → List Char → List Piece → List Char → Prop where
  | stop (here : Place) (cs : List Char) : Tiles here cs [] cs
  | piece {here : Place} {lexeme : Lexeme} {cs unread : List Char} {pieces : List Piece} :
      lexeme.Formed → (lexeme.sort = .openComment → cs = []) → TakenBytewise lexeme.text cs →
      Tiles (here.after lexeme.text) cs pieces unread →
      Tiles here (lexeme.text ++ cs) (⟨lexeme, here⟩ :: pieces) unread

/-- What a sort of lexeme is reported as. -/
def LexemeSort.code? : LexemeSort → Option Code
  | .blank | .comment | .token _ => none
  | .openComment => some .unterminatedComment
  | .openString => some .unterminatedString
  | .bareRadix => some .malformedNumber
  | .stray => some .unexpectedCharacter

variable {here : Place} {cs unread : List Char} {pieces before behind : List Piece} {p : Piece}
  {doc : Document}

theorem tokensOf_cons (here : Place) (p : Piece) (pieces : List Piece) :
    tokensOf here (p :: pieces) =
      p.token?.toList ++ tokensOf (here.after p.text) pieces := by
  unfold tokensOf
  rw [List.filterMap_cons, List.flatMap_cons, Place.after_append]
  cases p.token? <;> rfl

/-! ## Pieces of the scan -/

namespace Lexeme

theorem number_ne_openComment (cs : List Char) : (number cs).1.sort ≠ .openComment := by
  have hradix : ∀ mark isDigit cs, (radixNumber mark isDigit cs).1.sort ≠ .openComment := by
    intro mark isDigit cs
    unfold radixNumber
    dsimp only
    split <;> nofun
  unfold number
  split
  · exact hradix _ _ _
  · exact hradix _ _ _
  · nofun

theorem string_ne_openComment (seen cs : List Char) : (string seen cs).1.sort ≠ .openComment := by
  fun_induction string seen cs with
  | case3 _ _ _ _ ih => exact ih
  | case5 _ _ _ _ _ _ ih => exact ih
  | _ => exact LexemeSort.noConfusion

theorem symbol_ne_openComment (c : Char) (rest : List Char) :
    (symbol c rest).1.sort ≠ .openComment := by
  unfold symbol
  split
  · nofun
  · split <;> nofun

theorem rest_of_blockComment {seen cs : List Char}
    (h : (blockComment seen cs).1.sort = .openComment) : (blockComment seen cs).2 = [] := by
  fun_induction blockComment seen cs with
  | case1 => cases h
  | case2 _ _ _ _ ih => exact ih h
  | case3 => rfl

/-- A comment that is not closed reaches to the end of the text. -/
theorem rest_of_openComment {c : Char} {rest : List Char}
    (h : (cut c rest).1.sort = .openComment) : (cut c rest).2 = [] := by
  unfold cut at h ⊢
  split at h
  · cases h
  · split at h
    · exact absurd h (number_ne_openComment _)
    · split at h
      · cases h
      · split at h
        · exact absurd h (string_ne_openComment _ _)
        · split at h
          · cases h
          · exact rest_of_blockComment h
          · exact absurd h (symbol_ne_openComment _ _)

end Lexeme

theorem Scan.log_piece (doc : Document) (p : Piece) (pieces : List Piece) (log : Log) :
    ((p :: pieces).filterMap (Piece.diagnostic? doc)).foldl Log.push log =
      (pieces.filterMap (Piece.diagnostic? doc)).foldl Log.push
        (Scan.report doc p.lexeme p.span log) := by
  unfold Scan.report
  rw [List.filterMap_cons]
  unfold Piece.diagnostic?
  cases p.lexeme.complaint? <;> rfl

/-- A scan lays pieces over the text from where it is, and gives their tokens and reports. -/
theorem Scan.go_tiles (doc : Document) (tokens : Array Token) (log : Log) (here : Place)
    (cs : List Char) : ∃ pieces, Tiles here cs pieces (Scan.go doc tokens log here cs).unread ∧
      ((Scan.go doc tokens log here cs).unread = [] ∨
        (Scan.go doc tokens log here cs).log.isFull = true) ∧
      (Scan.go doc tokens log here cs).tokens.toList =
        tokens.toList ++ tokensOf here pieces ∧
      (Scan.go doc tokens log here cs).log =
        (pieces.filterMap (Piece.diagnostic? doc)).foldl Log.push log := by
  have htiles : ∀ (here : Place) (c : Char) (rest : List Char) {pieces : List Piece}
      {unread : List Char},
      Tiles (here.after (Lexeme.cut c rest).1.text) (Lexeme.cut c rest).2 pieces unread →
        Tiles here (c :: rest) (⟨(Lexeme.cut c rest).1, here⟩ :: pieces) unread := by
    intro here c rest pieces unread h
    rw [← Lexeme.cut_append c rest]
    exact .piece (Lexeme.formed_cut c rest) Lexeme.rest_of_openComment (takenBytewise_cut c rest) h
  have htoken : ∀ (here : Place) (lexeme : Lexeme) (kind : Kind), lexeme.kind? = some kind →
      Piece.token? ⟨lexeme, here⟩ =
        some ⟨kind, Span.between here (here.after lexeme.text)⟩ := by
    intro here lexeme kind hkind
    unfold Piece.token?
    rw [hkind]
    rfl
  fun_induction Scan.go doc tokens log here cs with
  | case1 tokens log here =>
    exact ⟨[], .stop here [], .inl rfl, Array.toList_push, rfl⟩
  | case2 tokens log here c rest lexeme next span log' hkind ih =>
    obtain ⟨pieces, hpieces, hended, htokens, hlog⟩ := ih
    refine ⟨⟨lexeme, here⟩ :: pieces, htiles here c rest hpieces, hended, ?_, ?_⟩
    · have hnone : Piece.token? ⟨lexeme, here⟩ = none := by
        unfold Piece.token?
        rw [hkind]
        rfl
      rw [htokens, tokensOf_cons, hnone]
      rfl
    · rw [hlog, Scan.log_piece]
      rfl
  | case3 tokens log here c rest lexeme next span log' kind hkind tokens' hfull =>
    -- The log is full, so the rest of the text stays unread.
    refine ⟨[⟨lexeme, here⟩], htiles here c rest (.stop _ _), .inr hfull, ?_, ?_⟩
    · rw [tokensOf_cons, htoken here lexeme kind hkind]
      unfold close
      rw [Array.toList_push, Array.toList_push, List.append_assoc]
      rfl
    · rw [Scan.log_piece]
      rfl
  | case4 tokens log here c rest lexeme next span log' kind hkind tokens' hfull ih =>
    obtain ⟨pieces, hpieces, hended, htokens, hlog⟩ := ih
    refine ⟨⟨lexeme, here⟩ :: pieces, htiles here c rest hpieces, hended, ?_, ?_⟩
    · rw [htokens, tokensOf_cons, htoken here lexeme kind hkind, Array.toList_push,
        List.append_assoc]
      rfl
    · rw [hlog, Scan.log_piece]
      rfl

/-! ## Words among the pieces -/

theorem Lexeme.Formed.text_ne_nil {lexeme : Lexeme} (h : lexeme.Formed) : lexeme.text ≠ [] := by
  cases h with
  | token hk => exact hk.inline.ne_nil
  | _ => exact List.cons_ne_nil _ _

/-- A word is on one line, and it is no end.  Unless it is a string that was left open, it is
written as its kind is. -/
theorem Lexeme.Formed.word {lexeme : Lexeme} {k : Kind} (h : lexeme.Formed)
    (hk : lexeme.kind? = some k) :
    '\n' ∉ lexeme.text ∧ k ≠ .eof ∧
      (lexeme.sort ≠ .openString → Inline lexeme.text ∧ lexeme.text = k.text.toList) := by
  cases h with
  | token hform =>
    cases hk
    refine ⟨hform.inline.line, ?_, fun _ => ⟨hform.inline, rfl⟩⟩
    rintro rfl
    exact hform
  | openString hbody hlast =>
    cases hk
    refine ⟨?_, Kind.noConfusion, fun hsort => absurd rfl hsort⟩
    refine List.not_mem_cons_of_ne_of_not_mem (by decide) ?_
    rw [List.mem_append, not_or]
    refine ⟨hbody.line, ?_⟩
    rcases hlast with rfl | rfl <;> decide
  | bareRadix hx =>
    cases hk
    refine ⟨?_, Kind.noConfusion, fun _ => ⟨?_, String.toList_ofList.symm⟩⟩
    · rcases hx with rfl | rfl <;> decide
    · rcases hx with rfl | rfl <;> exact ⟨nofun, by decide, by decide⟩
  | _ => cases hk

theorem Piece.token?_eq_some {t : Token} (h : p.token? = some t) :
    p.lexeme.kind? = some t.kind ∧ t.span = p.span := by
  obtain ⟨k, hk, rfl⟩ := Option.map_eq_some_iff.1 h
  exact ⟨hk, rfl⟩

/-- A span on one line, no number in which is greater than `n`. -/
structure Span.Within (s : Span) (n : Nat) : Prop where
  line : s.last.line = s.first.line
  columns : s.first.column ≤ s.last.column
  lines_le : s.last.line ≤ n
  columns_le : s.last.column ≤ n

/-- The span of a piece without a line feed. -/
theorem Piece.span_of_no_newline (hline : '\n' ∉ p.text) (hne : p.text ≠ [])
    (hcolumn : 1 ≤ p.first.column) :
    p.span = ⟨p.first, ⟨p.first.line, p.first.column - 1 + byteCount p.text⟩⟩ := by
  have hpos := byteCount_pos hne
  unfold span Span.between next
  rw [Place.after_of_no_newline hline]
  congr 2
  dsimp only
  omega

namespace Tiles

theorem text (h : Tiles here cs pieces unread) : cs = pieces.flatMap Piece.text ++ unread := by
  induction h with
  | stop => rfl
  | piece _ _ _ _ ih =>
    rw [List.flatMap_cons, List.append_assoc, ← ih]
    rfl

/-- Each piece stands where its text does. -/
theorem split (h : Tiles here cs (before ++ p :: behind) unread) :
    (∃ rest, cs = before.flatMap Piece.text ++ (p.text ++ rest) ∧ TakenBytewise p.text rest) ∧
      p.first = here.after (before.flatMap Piece.text) ∧ p.lexeme.Formed := by
  induction before generalizing here cs with
  | nil =>
    cases h with
    | piece hformed _ htaken _ => exact ⟨⟨_, rfl, htaken⟩, rfl, hformed⟩
  | cons q before ih =>
    cases h with
    | piece _ _ _ hrest =>
      obtain ⟨⟨rest, htext, htaken⟩, hfirst, hformed⟩ := ih hrest
      refine ⟨⟨rest, ?_, htaken⟩, ?_, hformed⟩
      · rw [htext, List.flatMap_cons, List.append_assoc]
        rfl
      · rw [hfirst, List.flatMap_cons, Place.after_append]
        rfl

variable {t : Token}

/-- The span of a token is on one line, and its numbers are no greater than the text is long. -/
theorem within (h : Tiles Place.start cs (before ++ p :: behind) unread) (ht : p.token? = some t) :
    t.span.Within (byteCount cs) := by
  obtain ⟨⟨rest, htext, -⟩, hfirst, hformed⟩ := h.split
  obtain ⟨hkind, hspan⟩ := Piece.token?_eq_some ht
  have hcolumn : 1 ≤ p.first.column := by
    rw [hfirst]
    exact Place.column_after (Nat.le_refl 1) _
  have hbounds := Place.after_bounds Place.start (before.flatMap Piece.text)
  have hpos := byteCount_pos hformed.text_ne_nil
  rw [← hfirst] at hbounds
  rw [hspan, Piece.span_of_no_newline (hformed.word hkind).1 hformed.text_ne_nil hcolumn, htext,
    byteCount_append, byteCount_append]
  obtain ⟨hline_le, hcolumn_le⟩ := hbounds
  change _ ≤ 1 + _ at hline_le
  change _ ≤ 1 + _ at hcolumn_le
  change 0 < byteCount p.text at hpos
  constructor
  · rfl
  · dsimp only
    omega
  · dsimp only
    omega
  · dsimp only
    omega

/-- A piece on one line is read where its span says. -/
theorem read (h : Tiles Place.start doc.text.toList (before ++ p :: behind) unread)
    (hinline : Inline p.text) :
    ∃ line, doc.line? p.span.first.line = some line ∧
      line.toByteArray.extract (p.span.first.column - 1) p.span.last.column =
        p.text.utf8Encode := by
  obtain ⟨⟨rest, htext, -⟩, hfirst, -⟩ := h.split
  have hcolumn : 1 ≤ p.first.column := by
    rw [hfirst]
    exact Place.column_after (Nat.le_refl 1) _
  rcases List.eq_nil_or_concat p.text with hnil | ⟨init, c, hconcat⟩
  · exact absurd hnil hinline.ne_nil
  · rw [List.concat_eq_append] at hconcat
    have hlast : c ≠ '\r' := by
      rintro rfl
      exact hinline.last (by rw [hconcat, List.getLast?_concat])
    have hline := hinline.line
    rw [hconcat] at hline
    rw [hconcat, List.append_assoc, List.singleton_append] at htext
    obtain ⟨passed, behind, hpassed, hread⟩ := line?_after htext hline hlast
    rw [← hfirst] at hpassed hread
    refine ⟨_, by rw [Piece.span_of_no_newline hinline.line hinline.ne_nil hcolumn]; exact hread, ?_⟩
    rw [Piece.span_of_no_newline hinline.line hinline.ne_nil hcolumn]
    dsimp only
    rw [hpassed, Nat.add_sub_cancel_left, String.toByteArray_ofList, List.append_cons init c behind,
      ← hconcat]
    exact extract_middle passed p.text behind

/-- The bytes of a piece are those between two places at which the text can be cut, and these are
the bytes that are taken byte by byte. -/
theorem slice (h : Tiles here doc.text.toList (before ++ p :: behind) unread) :
    ∃ start stop : String.Pos.Raw, start.IsValid doc.text ∧ stop.IsValid doc.text ∧
      start.byteIdx = byteCount (before.flatMap Piece.text) ∧ start < stop ∧
      doc.text.toByteArray.extract start.byteIdx stop.byteIdx = p.text.utf8Encode ∧
      ∃ rest, doc.text.toList = before.flatMap Piece.text ++ (p.text ++ rest) ∧
        TakenBytewise p.text rest := by
  obtain ⟨⟨rest, htext, htaken⟩, -, hformed⟩ := h.split
  refine ⟨⟨byteCount (before.flatMap Piece.text)⟩,
    ⟨byteCount (before.flatMap Piece.text) + byteCount p.text⟩, isValid_byteCount htext, ?_, rfl,
    ?_, ?_, rest, htext, htaken⟩
  · rw [← byteCount_append]
    have hbehind := htext
    rw [← List.append_assoc] at hbehind
    exact isValid_byteCount hbehind
  · exact Nat.lt_add_of_pos_right (byteCount_pos hformed.text_ne_nil)
  · rw [← String.utf8Encode_toList, htext]
    exact extract_middle _ _ _

end Tiles

/-! ## Reports -/

/-- A log counts all that is pushed, and stores the first of it. -/
theorem Log.foldl_push (ds : List Diagnostic) (log : Log) (hsize : log.stored.size ≤ capacity) :
    (ds.foldl push log).total = log.total + ds.length ∧
      (ds.foldl push log).stored.toList = (log.stored.toList ++ ds).take capacity := by
  induction ds generalizing log with
  | nil =>
    refine ⟨rfl, ?_⟩
    rw [List.append_nil, List.take_of_length_le hsize]
    rfl
  | cons d ds ih =>
    rw [List.foldl_cons]
    by_cases hroom : log.stored.size < capacity
    · have hpush : log.push d = ⟨log.stored.push d, log.total + 1⟩ := by
        rw [push, if_pos hroom]
      obtain ⟨htotal, hstored⟩ := ih (log.push d) (by
        rw [hpush, Array.size_push]
        exact hroom)
      refine ⟨by rw [htotal, total_push, List.length_cons, Nat.add_right_comm, Nat.add_assoc], ?_⟩
      rw [hstored, hpush, Array.toList_push, List.append_assoc]
      rfl
    · have hpush : log.push d = ⟨log.stored, log.total + 1⟩ := by
        rw [push, if_neg hroom]
      have hlength : log.stored.toList.length = capacity := by
        rw [Array.length_toList]
        omega
      obtain ⟨htotal, hstored⟩ := ih (log.push d) (by rw [hpush]; exact hsize)
      refine ⟨by rw [htotal, total_push, List.length_cons, Nat.add_right_comm, Nat.add_assoc], ?_⟩
      rw [hstored, hpush, List.take_left' hlength, List.take_left' hlength]

/-- What a piece is reported as depends on its sort, and it is reported where it stands. -/
theorem Piece.diagnostic?_eq (doc : Document) (p : Piece) :
    (p.diagnostic? doc).map (fun d => (d.code, d.span)) = p.lexeme.sort.code?.map (·, p.span) := by
  unfold diagnostic? Lexeme.complaint?
  rw [Option.map_map]
  cases p.lexeme.sort <;> rfl

/-! ## The tokens of a document -/

/-- A text that cannot be counted, though it has no more bytes than the counters can tell: all of it
is on one line, or all of it is line feeds, and it is scanned to its end. -/
structure Document.Outruns (doc : Document) : Prop where
  size : doc.text.utf8ByteSize = Place.ceiling
  whole : doc.scan.unread = []
  straight : '\n' ∉ doc.text.toList ∨ ∀ c ∈ doc.text.toList, c = '\n'

/-- What a scan went over are the pieces that it laid. -/
theorem Tiles.passed (h : Tiles Place.start doc.text.toList pieces doc.scan.unread) :
    doc.passed doc.scan = pieces.flatMap Piece.text := by
  unfold Document.passed
  rw [h.text, List.length_append, Nat.add_sub_cancel]
  exact List.take_left' rfl

/-- Of the texts with no more bytes than a counter can tell, these are all that cannot be counted. -/
theorem Document.lex?_eq_none_iff (h : doc.text.utf8ByteSize < 2 ^ 32) :
    doc.lex? = none ↔ doc.Outruns := by
  obtain ⟨pieces, htiles, -⟩ := Scan.go_tiles doc #[] Log.empty Place.start doc.text.toList
  have htext : doc.text.toList = doc.passed doc.scan ++ doc.scan.unread := by
    rw [Tiles.passed htiles]
    exact htiles.text
  have hbytes : byteCount (doc.passed doc.scan) + byteCount doc.scan.unread =
      doc.text.utf8ByteSize := by
    rw [← byteCount_append, ← htext, byteCount_toList]
  have hsmall : byteCount (doc.passed doc.scan) ≤ Place.ceiling := by
    unfold Place.ceiling
    omega
  have hnone : doc.lex? = none ↔ Place.start.after? (doc.passed doc.scan) = none :=
    Option.map_eq_none_iff
  rw [hnone, Place.after?_start_eq_none_iff hsmall]
  constructor
  · rintro ⟨hsize, hstraight⟩
    have hunread : doc.scan.unread = [] := by
      refine Classical.byContradiction fun hne => ?_
      have hpos := byteCount_pos hne
      unfold Place.ceiling at hsize
      omega
    rw [hunread, List.append_nil] at htext
    rw [hunread, byteCount_nil, Nat.add_zero] at hbytes
    exact ⟨hbytes.symm.trans hsize, hunread, by rwa [htext]⟩
  · rintro ⟨hsize, hunread, hstraight⟩
    rw [hunread, List.append_nil] at htext
    rw [hunread, byteCount_nil, Nat.add_zero] at hbytes
    exact ⟨hbytes.trans hsize, by rwa [← htext]⟩

theorem byteCount_blanks (n : Nat) : byteCount (List.replicate n ' ') = n := by
  induction n with
  | zero => rfl
  | succ n ih =>
    rw [List.replicate_succ, byteCount_cons, ih]
    exact Nat.add_comm 1 n

/-- Blanks are scanned to their end. -/
theorem Scan.unread_blanks (tokens : Array Token) (log : Log) (here : Place) (n : Nat) :
    (Scan.go doc tokens log here (List.replicate n ' ')).unread = [] := by
  induction n generalizing here with
  | zero =>
    rw [List.replicate_zero, Scan.go]
    rfl
  | succ n ih =>
    rw [List.replicate_succ, Scan.go]
    exact ih _

/-- The bound is sharp: a line with one blank more than can be counted is not lexed. -/
theorem Document.lex?_blanks :
    lex? { name := "", text := String.ofList (List.replicate Place.ceiling ' ') } = none := by
  have hsize : (String.ofList (List.replicate Place.ceiling ' ')).utf8ByteSize = Place.ceiling := by
    rw [← byteCount_toList, String.toList_ofList, byteCount_blanks]
  refine (lex?_eq_none_iff ?_).2 ⟨hsize, ?_, .inl ?_⟩
  · rw [hsize]
    decide
  · unfold scan
    rw [String.toList_ofList]
    exact Scan.unread_blanks _ _ _ _
  · rw [String.toList_ofList, List.mem_replicate]
    rintro ⟨-, hblank⟩
    exact absurd hblank (by decide)

end SmallScript
