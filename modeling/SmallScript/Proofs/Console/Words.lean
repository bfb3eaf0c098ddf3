/-
  The words of an input.

  An input serves the words of a text, and it can look at the whole text at once or at one line after
  the other.  What a word is, is told here without either of them: a text has words (`Words`) if it
  falls into them and white space around them, each word being as long as it can be, and white space
  being what Unicode counts as such.  In the same way a text has lines (`Lines`) if it is made up of
  them.  Each text has its words and its lines in one way only.

  The rest is one equation, that words end at white space (`wordsFrom_append_blank`): a line ends
  with a newline, so the words of a text are those of its lines.  Every input is then known by the
  words that are still to come from it (`Input.coming`), of which a reading takes the first.
-/
import SmallScript.Console

namespace SmallScript

/-! ## White space -/

namespace ClassTable

variable {c : Nat}

/-- The boundaries of a class that consists of intervals, the second end of each not being in it. -/
def boundaries (intervals : List (Nat × Nat)) : List Nat := intervals.flatMap fun i => [i.1, i.2]

theorem holds_eq (table : Array Nat) (c : Nat) :
    holds table c = (table.toList.countP (· ≤ c) % 2 == 1) := by
  have hcount : ∀ (l : List Nat) n,
      l.foldl (fun n b => if b ≤ c then n + 1 else n) n = n + l.countP (· ≤ c) := by
    intro l
    induction l with
    | nil => exact fun n => rfl
    | cons b l ih =>
      intro n
      rw [List.foldl_cons, ih, List.countP_cons]
      by_cases hb : b ≤ c <;> simp [hb]
      omega
  unfold holds
  rw [← Array.foldl_toList, hcount, Nat.zero_add]

/-- An odd number of boundaries lie at or below the members of intervals that are apart. -/
theorem odd_countP_iff {intervals : List (Nat × Nat)} (hends : ∀ i ∈ intervals, i.1 ≤ i.2)
    (hapart : intervals.Pairwise fun i j => i.2 ≤ j.1) :
    (boundaries intervals).countP (· ≤ c) % 2 = 1 ↔ ∃ i ∈ intervals, i.1 ≤ c ∧ c < i.2 := by
  induction intervals with
  | nil => simp [boundaries]
  | cons i rest ih =>
    obtain ⟨hbehind, hrest⟩ := List.pairwise_cons.1 hapart
    have hends' : ∀ j ∈ rest, j.1 ≤ j.2 := fun j hj => hends j (List.mem_cons_of_mem i hj)
    have hi : i.1 ≤ i.2 := hends i List.mem_cons_self
    have hcount : (boundaries (i :: rest)).countP (· ≤ c) =
        (boundaries rest).countP (· ≤ c) + (if i.2 ≤ c then 1 else 0) + if i.1 ≤ c then 1 else 0 := by
      show (i.1 :: i.2 :: boundaries rest).countP (· ≤ c) = _
      rw [List.countP_cons, List.countP_cons]
      simp only [decide_eq_true_eq]
    have hsplit : (∃ j ∈ i :: rest, j.1 ≤ c ∧ c < j.2) ↔
        (i.1 ≤ c ∧ c < i.2) ∨ ∃ j ∈ rest, j.1 ≤ c ∧ c < j.2 := by simp
    rw [hcount, hsplit]
    rcases Nat.lt_or_ge c i.2 with hlt | hge
    · -- Nothing of the other intervals is at or below `c`.
      have hnone : ∀ j ∈ rest, c < j.1 := fun j hj => Nat.lt_of_lt_of_le hlt (hbehind j hj)
      have hzero : (boundaries rest).countP (· ≤ c) = 0 := by
        refine List.countP_eq_zero.2 fun b hb => ?_
        obtain ⟨j, hj, hmem⟩ := List.mem_flatMap.1 hb
        have hfirst := hnone j hj
        have hsecond := hends' j hj
        simp only [List.mem_cons, List.not_mem_nil, or_false] at hmem
        rw [decide_eq_true_iff]
        omega
      have hother : ¬ ∃ j ∈ rest, j.1 ≤ c ∧ c < j.2 := by
        rintro ⟨j, hj, hle, -⟩
        have hfirst := hnone j hj
        omega
      rw [hzero, if_neg (Nat.not_le.2 hlt)]
      by_cases hle : i.1 ≤ c
      · rw [if_pos hle]
        exact iff_of_true rfl (.inl ⟨hle, hlt⟩)
      · rw [if_neg hle]
        exact iff_of_false (by decide) fun h => h.elim (fun h => hle h.1) hother
    · have hnot : ¬ (i.1 ≤ c ∧ c < i.2) := fun h => Nat.not_lt.2 hge h.2
      rw [if_pos hge, if_pos (Nat.le_trans hi hge), ← ih hends' hrest]
      constructor
      · intro hodd
        exact .inr (by omega)
      · rintro (h | hodd)
        · exact absurd h hnot
        · omega

/-- The intervals of white space. -/
def blanks : List (Nat × Nat) :=
  [(0x9, 0xE), (0x20, 0x21), (0x85, 0x86), (0xA0, 0xA1), (0x1680, 0x1681), (0x2000, 0x200B),
    (0x2028, 0x202A), (0x202F, 0x2030), (0x205F, 0x2060), (0x3000, 0x3001)]

theorem holds_blank_iff : holds blank c = true ↔ ∃ i ∈ blanks, i.1 ≤ c ∧ c < i.2 := by
  have hends : ∀ i ∈ blanks, i.1 ≤ i.2 := by simp [blanks]
  have hapart : blanks.Pairwise fun i j => i.2 ≤ j.1 := by simp [blanks]
  rw [holds_eq, beq_iff_eq, ← odd_countP_iff hends hapart]
  rfl

end ClassTable

/-- The white space of Unicode. -/
def IsWhiteSpace (c : Char) : Prop :=
  c.toNat ∈ [0x9, 0xA, 0xB, 0xC, 0xD, 0x20, 0x85, 0xA0, 0x1680, 0x2000, 0x2001, 0x2002, 0x2003,
    0x2004, 0x2005, 0x2006, 0x2007, 0x2008, 0x2009, 0x200A, 0x2028, 0x2029, 0x202F, 0x205F, 0x3000]

theorem isWhiteSpace_iff (c : Char) : isWhiteSpace c = true ↔ IsWhiteSpace c := by
  unfold isWhiteSpace IsWhiteSpace
  rw [ClassTable.holds_blank_iff]
  simp only [ClassTable.blanks, List.mem_cons, List.not_mem_nil, or_false, exists_eq_or_imp,
    exists_eq_left]
  omega

/-! ## Words -/

/-- The words of a text: it falls into them and white space around them.  Behind a word the text ends
or there is white space, so no word could be longer. -/
inductive Words : List Char → List (List Char) → Prop where
  | none {gap : List Char} : (∀ c ∈ gap, IsWhiteSpace c) → Words gap []
  | word {gap w rest : List Char} {ws : List (List Char)} :
      (∀ c ∈ gap, IsWhiteSpace c) → w ≠ [] → (∀ c ∈ w, ¬ IsWhiteSpace c) →
      (∀ c ∈ rest.head?, IsWhiteSpace c) → Words rest ws → Words (gap ++ (w ++ rest)) (w :: ws)

section Words

variable {c : Char} {w cs gap rest : List Char} {ws : List (List Char)}

theorem wordsFrom_cons_blank (hc : IsWhiteSpace c) (w rest : List Char) :
    wordsFrom w (c :: rest) = wordsFrom w [] ++ wordsFrom [] rest := by
  simp only [wordsFrom, if_pos ((isWhiteSpace_iff c).2 hc)]
  split <;> rfl

theorem wordsFrom_cons_letter (hc : ¬ IsWhiteSpace c) (w rest : List Char) :
    wordsFrom w (c :: rest) = wordsFrom (c :: w) rest := by
  simp only [wordsFrom, if_neg (mt (isWhiteSpace_iff c).1 hc)]

/-- **Words end at white space.** -/
theorem wordsFrom_append_blank (hc : IsWhiteSpace c) (cs rest : List Char) :
    ∀ w, wordsFrom w (cs ++ c :: rest) = wordsFrom w cs ++ wordsFrom [] rest := by
  induction cs with
  | nil => exact fun w => wordsFrom_cons_blank hc w rest
  | cons d cs ih =>
    intro w
    rw [List.cons_append]
    by_cases hd : IsWhiteSpace d
    · rw [wordsFrom_cons_blank hd, wordsFrom_cons_blank hd, ih, List.append_assoc]
    · rw [wordsFrom_cons_letter hd, wordsFrom_cons_letter hd, ih]

/-- White space in front belongs to no word. -/
theorem wordsFrom_gap (hgap : ∀ c ∈ gap, IsWhiteSpace c) (cs : List Char) :
    wordsFrom [] (gap ++ cs) = wordsFrom [] cs := by
  induction gap with
  | nil => rfl
  | cons c gap ih =>
    rw [List.cons_append, wordsFrom_cons_blank (hgap c List.mem_cons_self)]
    exact ih fun d hd => hgap d (List.mem_cons_of_mem c hd)

theorem wordsFrom_letters (hw : ∀ c ∈ w, ¬ IsWhiteSpace c) (cs : List Char) :
    ∀ begun, wordsFrom begun (w ++ cs) = wordsFrom (w.reverse ++ begun) cs := by
  induction w with
  | nil => exact fun begun => rfl
  | cons c w ih =>
    intro begun
    rw [List.cons_append, wordsFrom_cons_letter (hw c List.mem_cons_self),
      ih (fun d hd => hw d (List.mem_cons_of_mem c hd)), List.reverse_cons, List.append_assoc]
    rfl

/-- A word that the text goes on behind with white space, if it goes on. -/
theorem wordsFrom_word (hne : w ≠ []) (hrest : ∀ c ∈ rest.head?, IsWhiteSpace c) :
    wordsFrom w.reverse rest = w :: wordsFrom [] rest := by
  have hend : wordsFrom w.reverse [] = [w] := by
    simp [wordsFrom, hne]
  cases rest with
  | nil => exact hend
  | cons c rest =>
    have hc : IsWhiteSpace c := hrest c rfl
    rw [wordsFrom_cons_blank hc, wordsFrom_cons_blank hc, hend]
    rfl

/-- What has words has the words that are found. -/
theorem Words.eq_wordsFrom (h : Words cs ws) : ws = wordsFrom [] cs := by
  induction h with
  | @none gap hgap =>
    have hgap := wordsFrom_gap hgap []
    rw [List.append_nil] at hgap
    exact hgap.symm
  | @word gap w rest ws hgap hne hw hrest _ ih =>
    rw [wordsFrom_gap hgap, wordsFrom_letters hw, List.append_nil, wordsFrom_word hne hrest, ih]

theorem Words.cons (hc : IsWhiteSpace c) (h : Words cs ws) : Words (c :: cs) ws := by
  have hfront : ∀ {gap : List Char}, (∀ d ∈ gap, IsWhiteSpace d) → ∀ d ∈ c :: gap, IsWhiteSpace d := by
    intro gap hgap d hd
    rcases List.mem_cons.1 hd with rfl | hd
    · exact hc
    · exact hgap d hd
  cases h with
  | none hgap => exact .none (hfront hgap)
  | word hgap hne hw hrest h => exact .word (hfront hgap) hne hw hrest h

/-- The words that are found are the words of the text; `begun` is what was read of the first. -/
theorem words_wordsFrom (cs : List Char) : ∀ begun : List Char, (∀ c ∈ begun, ¬ IsWhiteSpace c) →
    Words (begun.reverse ++ cs) (wordsFrom begun cs) := by
  have hfinish : ∀ {begun rest : List Char} {ws}, (∀ c ∈ begun, ¬ IsWhiteSpace c) →
      (∀ c ∈ rest.head?, IsWhiteSpace c) → Words rest ws →
      Words (begun.reverse ++ rest) (wordsFrom begun [] ++ ws) := by
    intro begun rest ws hbegun hrest h
    cases begun with
    | nil => exact h
    | cons d begun =>
      have hw : ∀ c ∈ (d :: begun).reverse, ¬ IsWhiteSpace c :=
        fun c hc => hbegun c (List.mem_reverse.1 hc)
      have hne : (d :: begun).reverse ≠ [] := by simp
      have hnothing : ∀ c ∈ ([] : List Char), IsWhiteSpace c := fun c hc => absurd hc List.not_mem_nil
      have hword := Words.word hnothing hne hw hrest h
      exact hword
  induction cs with
  | nil =>
    intro begun hbegun
    have hnil : Words [] [] := .none fun c hc => absurd hc List.not_mem_nil
    have hend : ∀ c ∈ ([] : List Char).head?, IsWhiteSpace c :=
      fun c hc => absurd hc (Option.not_mem_none c)
    have hwords := hfinish hbegun hend hnil
    simpa only [List.append_nil] using hwords
  | cons c cs ih =>
    intro begun hbegun
    by_cases hc : IsWhiteSpace c
    · rw [wordsFrom_cons_blank hc]
      refine hfinish hbegun (fun d hd => ?_) ((ih [] fun d hd => absurd hd List.not_mem_nil).cons hc)
      cases hd
      exact hc
    · have hmore : ∀ d ∈ c :: begun, ¬ IsWhiteSpace d := by
        intro d hd
        rcases List.mem_cons.1 hd with rfl | hd
        · exact hc
        · exact hbegun d hd
      have hwords := ih (c :: begun) hmore
      rw [List.reverse_cons, List.append_assoc] at hwords
      rw [wordsFrom_cons_letter hc]
      exact hwords

/-- **Each text has its words in one way.** -/
theorem words_iff : Words cs ws ↔ ws = wordsFrom [] cs := by
  constructor
  · exact Words.eq_wordsFrom
  · rintro rfl
    exact words_wordsFrom cs [] fun c hc => absurd hc List.not_mem_nil

end Words

/-! ## Lines -/

/-- The lines of a text, each with the newline at its end; the last one may be without. -/
inductive Lines : List Char → List (List Char) → Prop where
  | none : Lines [] []
  | last {line : List Char} : line ≠ [] → '\n' ∉ line → Lines line [line]
  | line {line rest : List Char} {ls : List (List Char)} :
      '\n' ∉ line → Lines rest ls → Lines (line ++ '\n' :: rest) ((line ++ ['\n']) :: ls)

section Lines

variable {cs line rest : List Char} {ls : List (List Char)}

theorem linesBehind_append (hline : '\n' ∉ line) (cs : List Char) :
    ∀ begun, linesBehind begun (line ++ cs) = linesBehind (line.reverse ++ begun) cs := by
  induction line with
  | nil => exact fun begun => rfl
  | cons c line ih =>
    intro begun
    obtain ⟨hc, hline⟩ := not_or.1 (mt List.mem_cons.2 hline)
    rw [List.cons_append, linesBehind, if_neg (Ne.symm hc), ih hline, List.reverse_cons,
      List.append_assoc]
    rfl

theorem Lines.eq_linesBehind (h : Lines cs ls) : ls = linesBehind [] cs := by
  induction h with
  | none => rfl
  | @last line hne hline =>
    have happend := linesBehind_append hline [] []
    rw [List.append_nil, List.append_nil] at happend
    rw [happend]
    simp [linesBehind, hne]
  | @line line rest ls hline _ ih =>
    rw [linesBehind_append hline, ih]
    simp [linesBehind]

theorem lines_linesBehind (cs : List Char) : ∀ begun : List Char, '\n' ∉ begun →
    Lines (begun.reverse ++ cs) (linesBehind begun cs) := by
  induction cs with
  | nil =>
    intro begun hbegun
    cases begun with
    | nil => exact .none
    | cons c begun =>
      rw [List.append_nil]
      exact .last (by simp) (mt List.mem_reverse.1 hbegun)
  | cons c cs ih =>
    intro begun hbegun
    by_cases hc : c = '\n'
    · subst hc
      rw [linesBehind, if_pos rfl, List.reverse_cons]
      exact .line (mt List.mem_reverse.1 hbegun) (ih [] List.not_mem_nil)
    · have hmore : '\n' ∉ c :: begun := mt List.mem_cons.1 (not_or.2 ⟨Ne.symm hc, hbegun⟩)
      have hlines := ih (c :: begun) hmore
      rw [List.reverse_cons, List.append_assoc] at hlines
      rw [linesBehind, if_neg hc]
      exact hlines

/-- **Each text has its lines in one way.** -/
theorem lines_iff : Lines cs ls ↔ ls = linesBehind [] cs := by
  constructor
  · exact Lines.eq_linesBehind
  · rintro rfl
    exact lines_linesBehind cs [] List.not_mem_nil

/-- The words of a text are those of its lines. -/
theorem Lines.flatMap_wordsFrom (h : Lines cs ls) : ls.flatMap (wordsFrom []) = wordsFrom [] cs := by
  have hnewline : IsWhiteSpace '\n' := by
    unfold IsWhiteSpace
    decide
  induction h with
  | none => rfl
  | last => simp
  | @line line rest ls _ _ ih =>
    have hend : wordsFrom [] [] = [] := rfl
    rw [List.flatMap_cons, ih, wordsFrom_append_blank hnewline, wordsFrom_append_blank hnewline, hend,
      List.append_nil]

end Lines

/-! ## Readings -/

/-- The words that are still to come from an input. -/
def Input.coming : Input → List String
  | words rest => rest
  | lines left unread => left ++ unread.flatMap wordsOf

theorem Input.nextFrom_eq (unread : List String) :
    (nextFrom unread).1 = (unread.flatMap wordsOf).head? ∧
      (nextFrom unread).2.coming = (unread.flatMap wordsOf).tail := by
  induction unread with
  | nil => exact ⟨rfl, rfl⟩
  | cons line unread ih =>
    unfold nextFrom
    rw [List.flatMap_cons]
    cases wordsOf line with
    | nil => exact ih
    | cons w left => exact ⟨rfl, rfl⟩

/-- A reading takes the first of the words that are to come. -/
theorem Input.next_eq (i : Input) : i.next.1 = i.coming.head? ∧ i.next.2.coming = i.coming.tail := by
  cases i with
  | words rest => cases rest <;> exact ⟨rfl, rfl⟩
  | lines left unread =>
    cases left with
    | nil => exact nextFrom_eq unread
    | cons w left => exact ⟨rfl, rfl⟩

namespace Console

/-- The result of the reading behind so many others. -/
def reading (c : Console) : Nat → Option String
  | 0 => c.read.1
  | n + 1 => c.read.2.reading n

/-- All that comes of readings: the words that are to come, and then nothing any more. -/
theorem reading_eq (c : Console) (n : Nat) : c.reading n = c.input.coming[n]? := by
  induction n generalizing c with
  | zero =>
    rw [← List.head?_eq_getElem?]
    exact c.input.next_eq.1
  | succ n ih =>
    have hrest : c.read.2.input.coming = c.input.coming.tail := c.input.next_eq.2
    show c.read.2.reading n = _
    rw [ih, hrest, List.getElem?_tail]

/-- A console with an input that looks at a whole text serves the words of the text. -/
theorem reading_ofText (c : Console) (s : String) (n : Nat) :
    ({ c with input := .ofText s } : Console).reading n =
      ((wordsFrom [] s.toList)[n]?).map String.ofList := by
  rw [reading_eq, ← List.getElem?_map]
  rfl

/-- A console that is given the lines of a text one by one serves the words of the text. -/
theorem reading_lines (c : Console) {cs : List Char} {ls : List (List Char)} (h : Lines cs ls)
    (n : Nat) : ({ c with input := .lines [] (ls.map String.ofList) } : Console).reading n =
      ((wordsFrom [] cs)[n]?).map String.ofList := by
  have hline : ∀ line : List Char,
      wordsOf (String.ofList line) = (wordsFrom [] line).map String.ofList := by
    intro line
    unfold wordsOf
    rw [String.toList_ofList]
  have hcoming : (ls.map String.ofList).flatMap wordsOf = (wordsFrom [] cs).map String.ofList := by
    rw [List.flatMap_map, ← h.flatMap_wordsFrom, List.map_flatMap]
    exact congrArg (ls.flatMap ·) (funext hline)
  rw [reading_eq, ← List.getElem?_map, ← hcoming]
  rfl

end Console

/-- **Both inputs serve the same words.**  A text has its words and its lines in one way.

1. A console that looks at the whole text answers the words of the text, each once and in order, and
   then nothing for ever.
2. A console that is given the lines of the text one by one answers the same; the lines it is given
   are those of the text. -/
theorem inputs_serve_words (s : String) :
    ∃ ws, (∀ vs, Words s.toList vs ↔ vs = ws) ∧
      (∀ (c : Console) n, ({ c with input := .ofText s } : Console).reading n =
        (ws[n]?).map String.ofList) ∧
      (∀ (c : Console) n, ({ c with input := .ofLines s } : Console).reading n =
        (ws[n]?).map String.ofList) ∧
      ∃ ls, (∀ l, Lines s.toList l ↔ l = ls) ∧ Input.ofLines s = .lines [] (ls.map String.ofList) := by
  have hlines : Lines s.toList (linesBehind [] s.toList) := lines_iff.2 rfl
  refine ⟨wordsFrom [] s.toList, fun vs => words_iff, ?_, ?_, ?_⟩
  · exact fun c n => c.reading_ofText s n
  · exact fun c n => c.reading_lines hlines n
  · exact ⟨linesBehind [] s.toList, fun l => lines_iff, rfl⟩

/-- A carriage return, an empty line, white space that is no blank of the language, and no newline at
the end. -/
example : (({ input := .ofLines "a\r\n\n\u2003b\u3000c" } : Console).reading 2) = some "c" ∧
    (({ input := .ofText "a\r\n\n\u2003b\u3000c" } : Console).reading 3) = none := by
  cbv

end SmallScript
