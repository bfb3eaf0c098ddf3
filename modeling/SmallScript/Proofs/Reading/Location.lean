/-
  Places and spans in a document.

  A document holds a place if the place is on one of its lines and no farther along than right behind
  it; a span lies in a document if it begins no later than it ends and the document holds both ends.
  Whatever a scan has passed, it stands at a place that the document holds (`holds_after`), so each
  of its pieces lies in the document, also one that runs over several lines or up to the end of the
  text (`Tiles.located`), and so does the end itself.  Covering two spans that lie in the document
  gives another one, which is all that is done to spans later on.
-/
import Mathlib.Data.List.DropRight
import SmallScript.Proofs.Reading.Extent
import SmallScript.Proofs.Scanning.Tiling

namespace SmallScript

variable {doc : Document} {p q : Place} {s t : Span} {a b cs : List Char} {n : Nat}

/-! ## Lines -/

/-- The pieces of a text are what it falls into when it is split at its line feeds. -/
theorem piecesOf_eq_splitOn (cs : List Char) : piecesOf cs = cs.splitOn '\n' := by
  induction cs with
  | nil => rfl
  | cons c cs ih =>
    by_cases hc : c = '\n'
    · subst hc
      rw [piecesOf_newline, ih]
      unfold List.splitOn
      rw [List.splitOnP_cons_eq_if_modifyHead, if_pos (beq_self_eq_true _)]
    · obtain ⟨p, ps, hps, hcons⟩ := piecesOf_cons hc cs
      rw [hcons]
      unfold List.splitOn at ih ⊢
      rw [List.splitOnP_cons_eq_if_modifyHead, if_neg (by simpa using hc), ← ih, hps]
      rfl

/-- A line is a piece of the text without the carriage returns at its end. -/
theorem Document.line?_eq_some {piece : List Char}
    (h : (doc.text.toList.splitOn '\n')[n]? = some piece) :
    doc.line? (n + 1) = some (String.ofList (piece.rdropWhile (· == '\r'))) := by
  have hline : doc.line? (n + 1) = doc.lines[n]? := rfl
  rw [hline, doc.lines_eq, linesOf, List.getElem?_toArray, List.getElem?_map, piecesOf_eq_splitOn, h]
  rfl

/-- The place is on a line of the document, and it is right behind that line at the farthest. -/
structure Document.Holds (doc : Document) (p : Place) : Prop where
  line : 1 ≤ p.line
  column : 1 ≤ p.column
  piece : ∃ piece, (doc.text.toList.splitOn '\n')[p.line - 1]? = some piece ∧
    p.column ≤ 1 + byteCount piece

/-- A walk along the text stays in the document. -/
theorem Document.holds_after (h : doc.text.toList = a ++ b) : doc.Holds (Place.start.after a) := by
  obtain ⟨passed, n, hplace, hpiece⟩ := piece_after a b [] List.not_mem_nil 1
  have hstart : Place.start.after a = ⟨1 + n, 1 + byteCount passed⟩ := hplace
  rw [List.nil_append, ← h, piecesOf_eq_splitOn] at hpiece
  rw [hstart]
  refine ⟨Nat.le_add_right _ _, Nat.le_add_right _ _, passed ++ firstPiece b, ?_, ?_⟩
  · rw [Nat.add_sub_cancel_left]
    exact hpiece
  · rw [byteCount_append]
    exact Nat.add_le_add_left (Nat.le_add_right _ _) _

/-- A place that is not as far along its line. -/
theorem Document.Holds.mono (h : doc.Holds p) (hline : q.line = p.line) (hcolumn : 1 ≤ q.column)
    (hle : q.column ≤ p.column) : doc.Holds q := by
  obtain ⟨hfirst, -, piece, hpiece, hlast⟩ := h
  exact ⟨hline ▸ hfirst, hcolumn, piece, hline ▸ hpiece, Nat.le_trans hle hlast⟩

namespace Place

theorem lt_step (p : Place) (c : Char) : p < p.step c := by
  unfold step
  rw [lt_def]
  split
  · exact .inl (Nat.lt_succ_self _)
  · exact .inr ⟨rfl, Nat.lt_add_of_pos_right c.utf8Size_pos⟩

/-- Walking along something leads farther. -/
theorem lt_after (p : Place) (hcs : cs ≠ []) : p < p.after cs := by
  cases cs with
  | nil => exact absurd rfl hcs
  | cons c cs => exact lt_of_lt_of_le (p.lt_step c) (le_after _ cs)

end Place

/-! ## Spans -/

/-- The span begins no later than it ends, and the document holds both ends. -/
structure Span.In (s : Span) (doc : Document) : Prop where
  proper : s.Proper
  first : doc.Holds s.first
  last : doc.Holds s.last

theorem Span.In.cover (hs : s.In doc) (ht : t.In doc) : (s.cover t).In doc where
  proper := hs.proper.cover t
  first := by
    unfold Span.cover Place.earlier
    dsimp only
    split
    · exact hs.first
    · exact ht.first
  last := by
    unfold Span.cover Place.later
    dsimp only
    split
    · exact ht.last
    · exact hs.last

theorem Document.Holds.point (h : doc.Holds p) : (Span.point p).In doc :=
  ⟨Place.le_refl p, h, h⟩

/-- What a walk went over lies where the walk was. -/
theorem Document.Holds.between (hp : doc.Holds p) (hq : doc.Holds q) (h : p < q) :
    (Span.between p q).In doc where
  proper := by
    rw [Place.lt_def] at h
    unfold Span.between Span.Proper
    rw [Place.le_def]
    dsimp only
    omega
  first := hp
  last := hq.mono rfl (Nat.le_max_left _ _)
    (Nat.max_le.2 ⟨hq.column, Nat.sub_le _ _⟩)

/-! ## Pieces and tokens -/

variable {pieces before behind : List Piece} {unread : List Char} {p : Piece}

/-- Every piece of a text lies in the document. -/
theorem Tiles.located (h : Tiles Place.start doc.text.toList (before ++ p :: behind) unread) :
    p.span.In doc := by
  obtain ⟨⟨rest, htext, -⟩, hfirst, hformed⟩ := h.split
  have hstart : doc.Holds p.first := hfirst ▸ Document.holds_after htext
  have hnext : doc.Holds p.next := by
    unfold Piece.next
    rw [hfirst, ← Place.after_append]
    rw [← List.append_assoc] at htext
    exact Document.holds_after htext
  exact hstart.between hnext (p.first.lt_after hformed.text_ne_nil)

/-- Every token of a document lies in it, its end included. -/
theorem Document.token_located (doc : Document) :
    ∀ t ∈ doc.scan.tokens.toList, t.span.In doc := by
  obtain ⟨pieces, htiles, -, htokens, -⟩ :=
    Scan.go_tiles doc #[] Log.empty Place.start doc.text.toList
  have hlist : doc.scan.tokens.toList = tokensOf Place.start pieces := htokens
  intro t ht
  rw [hlist] at ht
  rcases List.mem_append.1 ht with ht | ht
  · obtain ⟨p, hp, htoken⟩ := List.mem_filterMap.1 ht
    obtain ⟨before, behind, rfl⟩ := List.append_of_mem hp
    rw [(Piece.token?_eq_some htoken).2]
    exact htiles.located
  · rw [List.mem_singleton.1 ht]
    exact (Document.holds_after htiles.text).point

end SmallScript
