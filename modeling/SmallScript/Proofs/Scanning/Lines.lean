/-
  Places and the lines they are on.

  A place is walked along character by character, and the lines of a document are cut at its line
  feeds.  The two agree: the line at which a walk has come is the one it is walking on, and the
  column counts the bytes of that line behind it (`line?_after`).  Carriage returns at the end of
  a line do not belong to it, so this can be said of all that ends in another character.
-/
import SmallScript.Source.Document

namespace SmallScript

variable {a b t : List Char} {p q r : Place}

/-! ## Bytes -/

/-- The number of bytes of some characters. -/
def byteCount : List Char → Nat
  | [] => 0
  | c :: cs => c.utf8Size + byteCount cs

@[simp] theorem byteCount_nil : byteCount [] = 0 := rfl

@[simp] theorem byteCount_cons (c : Char) (cs : List Char) :
    byteCount (c :: cs) = c.utf8Size + byteCount cs := rfl

theorem byteCount_append (a b : List Char) : byteCount (a ++ b) = byteCount a + byteCount b := by
  induction a with
  | nil => exact (Nat.zero_add _).symm
  | cons c cs ih => rw [List.cons_append, byteCount_cons, byteCount_cons, ih, Nat.add_assoc]

theorem size_utf8Encode (cs : List Char) : cs.utf8Encode.size = byteCount cs := by
  induction cs with
  | nil =>
    rw [List.utf8Encode_nil]
    rfl
  | cons c cs ih =>
    rw [List.utf8Encode_cons, ByteArray.size_append, List.utf8Encode_singleton,
      List.size_toByteArray, String.length_utf8EncodeChar, ih, byteCount_cons]

theorem byteCount_pos (h : t ≠ []) : 0 < byteCount t := by
  cases t with
  | nil => exact absurd rfl h
  | cons c cs =>
    have := c.utf8Size_pos
    rw [byteCount_cons]
    omega

theorem byteCount_toList (s : String) : byteCount s.toList = s.utf8ByteSize := by
  rw [← size_utf8Encode, String.utf8Encode_toList, String.size_toByteArray]

/-- The bytes that some characters have in a longer text. -/
theorem extract_middle (a t b : List Char) :
    (a ++ (t ++ b)).utf8Encode.extract (byteCount a) (byteCount a + byteCount t) =
      t.utf8Encode := by
  have hright := ByteArray.extract_append_size_add (a := a.utf8Encode) (b := (t ++ b).utf8Encode)
    (i := 0) (j := byteCount t)
  rw [size_utf8Encode, Nat.add_zero] at hright
  rw [List.utf8Encode_append, hright, List.utf8Encode_append]
  exact ByteArray.extract_append_eq_left (size_utf8Encode t).symm

/-- Between characters a text can be cut. -/
theorem isValid_byteCount {s : String} (h : s.toList = a ++ b) :
    (String.Pos.Raw.mk (byteCount a)).IsValid s := by
  rw [String.Pos.Raw.isValid_iff_exists_append]
  refine ⟨String.ofList a, String.ofList b, ?_, ?_⟩
  · rw [← String.ofList_append, ← h, String.ofList_toList]
  · have hsize := byteCount_toList (String.ofList a)
    rw [String.toList_ofList] at hsize
    exact congrArg String.Pos.Raw.mk hsize

/-! ## Order -/

namespace Place

/-- Strictly before in reading order. -/
protected def lt (p q : Place) : Prop := p.line < q.line ∨ (p.line = q.line ∧ p.column < q.column)

instance : LT Place := ⟨Place.lt⟩

theorem le_def : p ≤ q ↔ p.line < q.line ∨ (p.line = q.line ∧ p.column ≤ q.column) := Iff.rfl

theorem lt_def : p < q ↔ p.line < q.line ∨ (p.line = q.line ∧ p.column < q.column) := Iff.rfl

theorem le_refl (p : Place) : p ≤ p := .inr ⟨rfl, Nat.le_refl _⟩

theorem le_trans (h : p ≤ q) (h' : q ≤ r) : p ≤ r := by
  rw [le_def] at *
  omega

theorem lt_of_lt_of_le (h : p < q) (h' : q ≤ r) : p < r := by
  rw [le_def] at h'
  rw [lt_def] at *
  omega

theorem le_step (p : Place) (c : Char) : p ≤ p.step c := by
  unfold step
  rw [le_def]
  split
  · exact .inl (Nat.lt_succ_self _)
  · exact .inr ⟨rfl, Nat.le_add_right _ _⟩

/-- A walk goes on, never back. -/
theorem le_after (p : Place) (cs : List Char) : p ≤ p.after cs := by
  induction cs generalizing p with
  | nil => exact le_refl p
  | cons c cs ih => exact le_trans (le_step p c) (ih _)

/-- A walk without a line feed stays on its line. -/
theorem after_of_no_newline (h : '\n' ∉ t) (p : Place) :
    p.after t = ⟨p.line, p.column + byteCount t⟩ := by
  induction t generalizing p with
  | nil => rfl
  | cons c cs ih =>
    rw [List.mem_cons, not_or] at h
    have hstep : p.step c = ⟨p.line, p.column + c.utf8Size⟩ := if_neg fun hc => h.1 hc.symm
    rw [after_cons, hstep, ih h.2, byteCount_cons, Nat.add_assoc]

theorem column_after (h : 1 ≤ p.column) (cs : List Char) : 1 ≤ (p.after cs).column := by
  induction cs generalizing p with
  | nil => exact h
  | cons c cs ih =>
    refine ih ?_
    unfold step
    split
    · exact Nat.le_refl 1
    · exact Nat.le_add_right_of_le h

/-- No walk comes farther than its bytes. -/
theorem after_bounds (p : Place) (cs : List Char) :
    (p.after cs).line ≤ p.line + byteCount cs ∧
      (p.after cs).column ≤ max 1 p.column + byteCount cs := by
  induction cs generalizing p with
  | nil => exact ⟨Nat.le_refl _, Nat.le_max_right _ _⟩
  | cons c cs ih =>
    have hpos := c.utf8Size_pos
    obtain ⟨hline, hcolumn⟩ := ih (p.step c)
    rw [after_cons, byteCount_cons]
    unfold step at *
    split at hline <;> rename_i hc <;> simp only [hc, if_true, if_false] at * <;> omega

/-! ### Counted walks -/

/-- A walk is counted if the places on the way are. -/
theorem isSome_after? (hp : p.Counted) :
    (p.after? t).isSome ↔ ∀ a, a <+: t → (p.after a).Counted := by
  induction t generalizing p with
  | nil =>
    refine ⟨fun _ a ha => ?_, fun _ => rfl⟩
    rw [List.prefix_nil.1 ha]
    exact hp
  | cons c cs ih =>
    rw [after?_cons]
    by_cases hc : (p.step c).Counted
    · have hstep : p.step? c = some (p.step c) := if_pos hc
      rw [hstep, Option.bind_some, ih hc]
      refine ⟨fun h a ha => ?_, fun h a ha => h (c :: a) ((List.prefix_cons_inj c).2 ha)⟩
      rcases List.prefix_cons_iff.1 ha with rfl | ⟨a, rfl, hprefix⟩
      · exact hp
      · exact h a hprefix
    · have hstep : p.step? c = none := if_neg hc
      rw [hstep]
      exact ⟨nofun, fun h => absurd (h [c] ⟨cs, rfl⟩) hc⟩

/-- Behind a line feed the columns begin anew. -/
theorem column_after_le (h : '\n' ∈ t) : (start.after t).column ≤ byteCount t := by
  obtain ⟨a, b, rfl⟩ := List.append_of_mem h
  obtain ⟨-, hcolumn⟩ := after_bounds ((start.after a).step '\n') b
  rw [after_append, after_cons, byteCount_append, byteCount_cons]
  refine Nat.le_trans hcolumn ?_
  change 1 + byteCount b ≤ byteCount a + (1 + byteCount b)
  omega

/-- Other characters than line feeds do not count as lines. -/
theorem line_after_le {c : Char} (hc : c ≠ '\n') (h : c ∈ t) :
    (start.after t).line ≤ byteCount t := by
  obtain ⟨a, b, rfl⟩ := List.append_of_mem h
  obtain ⟨hbefore, -⟩ := after_bounds start a
  obtain ⟨hbehind, -⟩ := after_bounds ((start.after a).step c) b
  have hstep : ((start.after a).step c).line = (start.after a).line := by
    unfold step
    rw [if_neg hc]
  have hpos := c.utf8Size_pos
  change _ ≤ 1 + _ at hbefore
  rw [after_append, after_cons, byteCount_append, byteCount_cons]
  omega

/-- Each line feed is a line. -/
theorem line_after_newlines (h : ∀ c ∈ t, c = '\n') (p : Place) :
    (p.after t).line = p.line + byteCount t := by
  induction t generalizing p with
  | nil => rfl
  | cons c cs ih =>
    obtain ⟨rfl, hcs⟩ := List.forall_mem_cons.1 h
    rw [after_cons, ih hcs, byteCount_cons, ← Nat.add_assoc]
    rfl

/-- A place behind no more bytes than can be counted is counted, unless all of them are one line or
all of them are line feeds. -/
theorem not_counted_iff (h : byteCount t ≤ ceiling) :
    ¬ (start.after t).Counted ↔
      byteCount t = ceiling ∧ ('\n' ∉ t ∨ ∀ c ∈ t, c = '\n') := by
  have hstart : start.Counted := by decide
  by_cases hline : '\n' ∈ t
  · have hcolumn := Nat.le_trans (column_after_le hline) h
    by_cases hall : ∀ c ∈ t, c = '\n'
    · have hlines : (start.after t).line = 1 + byteCount t := line_after_newlines hall start
      refine ⟨fun hnot => ⟨?_, .inr hall⟩, fun hsize hcounted => ?_⟩
      · exact Nat.le_antisymm h (Nat.le_of_not_lt fun hlt => hnot ⟨by omega, hcolumn⟩)
      · have hcounted_line := hcounted.1
        omega
    · obtain ⟨c, hc⟩ := Classical.not_forall.1 hall
      obtain ⟨hmem, hne⟩ := Classical.not_imp.1 hc
      refine ⟨fun hnot => absurd ⟨Nat.le_trans (line_after_le hne hmem) h, hcolumn⟩ hnot, ?_⟩
      rintro ⟨-, hnone | hall'⟩
      · exact absurd hline hnone
      · exact absurd hall' hall
  · have hplace := after_of_no_newline hline start
    have hcolumn : (start.after t).column = 1 + byteCount t := by rw [hplace]; rfl
    have hlines : (start.after t).line ≤ ceiling := by
      rw [hplace]
      exact hstart.1
    refine ⟨fun hnot => ⟨?_, .inl hline⟩, fun hsize hcounted => ?_⟩
    · exact Nat.le_antisymm h (Nat.le_of_not_lt fun hlt => hnot ⟨hlines, by omega⟩)
    · have hcounted_column := hcounted.2
      omega

/-- A walk over no more bytes than can be counted comes to nothing just if the place behind them all
is not counted. -/
theorem after?_start_eq_none_iff (h : byteCount t ≤ ceiling) :
    start.after? t = none ↔
      byteCount t = ceiling ∧ ('\n' ∉ t ∨ ∀ c ∈ t, c = '\n') := by
  have hstart : start.Counted := by decide
  rw [← not_counted_iff h, ← Option.not_isSome_iff_eq_none, isSome_after? hstart]
  refine not_congr ⟨fun hall => hall t (List.prefix_refl t), fun hlast a ha => ?_⟩
  obtain ⟨b, rfl⟩ := ha
  rw [byteCount_append] at h
  cases b with
  | nil => rwa [List.append_nil] at hlast
  | cons c cs =>
    -- Fewer bytes than can be counted are no trouble.
    have hpos := c.utf8Size_pos
    rw [byteCount_cons] at h
    refine Decidable.byContradiction fun hnot => ?_
    obtain ⟨hsize, -⟩ := (not_counted_iff (by omega)).1 hnot
    omega

end Place

/-! ## Lines -/

/-- The part of a text before its first line feed. -/
def firstPiece (cs : List Char) : List Char := cs.takeWhile (· != '\n')

theorem piecesOf_cons {c : Char} (hc : c ≠ '\n') (cs : List Char) :
    ∃ p ps, piecesOf cs = p :: ps ∧ piecesOf (c :: cs) = (c :: p) :: ps := by
  obtain ⟨p, ps, hps⟩ := List.exists_cons_of_ne_nil (piecesOf_ne_nil cs)
  refine ⟨p, ps, hps, ?_⟩
  unfold piecesOf at hps ⊢
  rw [List.foldr_cons, if_neg hc, hps]

/-- The first line of a text. -/
theorem head_piecesOf (cs : List Char) : (piecesOf cs)[0]? = some (firstPiece cs) := by
  induction cs with
  | nil => rfl
  | cons c cs ih =>
    by_cases hc : c = '\n'
    · subst hc
      rw [piecesOf_newline]
      rfl
    · obtain ⟨p, ps, hps, hcons⟩ := piecesOf_cons hc cs
      rw [hps] at ih
      have hfirst : firstPiece (c :: cs) = c :: firstPiece cs := by
        unfold firstPiece
        rw [List.takeWhile_cons, if_pos (by simpa using hc)]
      rw [hcons, hfirst, ← Option.some.inj ih]
      rfl

/-- A line feed ends the piece before it. -/
theorem piecesOf_append_newline (ha : '\n' ∉ a) (b : List Char) :
    piecesOf (a ++ '\n' :: b) = a :: piecesOf b := by
  induction a with
  | nil => exact piecesOf_newline b
  | cons c cs ih =>
    rw [List.mem_cons, not_or] at ha
    obtain ⟨p, ps, hps, hcons⟩ := piecesOf_cons (fun hc => ha.1 hc.symm) (cs ++ '\n' :: b)
    rw [ih ha.2] at hps
    cases hps
    exact hcons

/-- The piece that a walk is on, `before` being what was passed of its first piece. -/
theorem piece_after (a b before : List Char) (hbefore : '\n' ∉ before) (line : Nat) :
    ∃ passed n, (Place.mk line (1 + byteCount before)).after a =
        ⟨line + n, 1 + byteCount passed⟩ ∧
      (piecesOf (before ++ (a ++ b)))[n]? = some (passed ++ firstPiece b) := by
  induction a generalizing before line with
  | nil =>
    refine ⟨before, 0, rfl, ?_⟩
    have hfirst : firstPiece (before ++ b) = before ++ firstPiece b :=
      List.takeWhile_append_of_pos fun c hc => bne_iff_ne.2 fun heq => hbefore (heq ▸ hc)
    rw [List.nil_append, head_piecesOf, hfirst]
  | cons c cs ih =>
    by_cases hc : c = '\n'
    · subst hc
      obtain ⟨passed, n, hplace, hpiece⟩ := ih [] List.not_mem_nil (line + 1)
      refine ⟨passed, n + 1, ?_, ?_⟩
      · rw [Place.after_cons, ← Nat.add_assoc, Nat.add_right_comm]
        exact hplace
      · rw [List.cons_append, piecesOf_append_newline hbefore]
        exact hpiece
    · have hnone : '\n' ∉ before ++ [c] := by
        rw [List.mem_append, List.mem_singleton, not_or]
        exact ⟨hbefore, fun heq => hc heq.symm⟩
      obtain ⟨passed, n, hplace, hpiece⟩ := ih (before ++ [c]) hnone line
      refine ⟨passed, n, ?_, ?_⟩
      · have hstep : (Place.mk line (1 + byteCount before)).step c =
            ⟨line, 1 + byteCount (before ++ [c])⟩ := by
          rw [byteCount_append, byteCount_cons, byteCount_nil, Nat.add_zero, ← Nat.add_assoc]
          exact if_neg hc
        rw [Place.after_cons, hstep]
        exact hplace
      · rw [List.append_assoc] at hpiece
        exact hpiece

/-- The carriage returns that do not belong to a line are behind all other characters. -/
theorem trimReturns_append {c : Char} (hc : c ≠ '\r') (a b : List Char) :
    trimReturns (a ++ c :: b) = a ++ c :: trimReturns b := by
  unfold trimReturns
  have hreverse : (a ++ c :: b).reverse = b.reverse ++ (c :: a.reverse) := by simp
  have hkept : (c :: a.reverse).dropWhile (· == '\r') = c :: a.reverse := by
    rw [List.dropWhile_cons, if_neg (by simpa using hc)]
  rw [hreverse, List.dropWhile_append]
  split
  · rename_i hempty
    rw [hkept, List.isEmpty_iff.1 hempty]
    simp
  · simp

/-- **Places and lines agree.**  The line at which a walk has come holds the text that is ahead,
behind as many bytes as the column says. -/
theorem line?_after {doc : Document} {c : Char} (h : doc.text.toList = a ++ (t ++ c :: b))
    (ht : '\n' ∉ t ++ [c]) (hc : c ≠ '\r') :
    ∃ passed behind, (Place.start.after a).column = 1 + byteCount passed ∧
      doc.line? (Place.start.after a).line =
        some (String.ofList (passed ++ (t ++ c :: behind))) := by
  obtain ⟨passed, n, hplace, hpiece⟩ := piece_after a (t ++ c :: b) [] List.not_mem_nil 1
  have hstart : Place.start.after a = ⟨1 + n, 1 + byteCount passed⟩ := hplace
  have hfirst : firstPiece (t ++ c :: b) = t ++ c :: firstPiece b := by
    have happend : ((t ++ [c]) ++ b).takeWhile (· != '\n') = (t ++ [c]) ++ firstPiece b :=
      List.takeWhile_append_of_pos fun d hd => bne_iff_ne.2 fun heq => ht (heq ▸ hd)
    rwa [List.append_assoc, List.append_assoc] at happend
  rw [List.nil_append, ← h, hfirst, ← List.append_assoc] at hpiece
  refine ⟨passed, trimReturns (firstPiece b), by rw [hstart], ?_⟩
  have hline : doc.line? (1 + n) = doc.lines[n]? := by
    unfold Document.line?
    rw [if_neg (by omega), Nat.add_sub_cancel_left]
  rw [hstart]
  dsimp only
  rw [hline, doc.lines_eq, linesOf, List.getElem?_toArray, List.getElem?_map, hpiece,
    Option.map_some, trimReturns_append hc, List.append_assoc]

end SmallScript
