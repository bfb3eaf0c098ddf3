/-
  Data are written as expressions.

  What is printed of data is the text of an expression: a literal for each number, with a minus in
  front of it if it is negative, and brackets and commas for the lists.  It spells the words of that
  expression (`Data.spells`), which opens no more levels than there are lists inside each other and
  three (`Data.levels_expr`), so it is read without a complaint (`Data.read`).
-/
import SmallScript.Proofs.Printing.Data
import SmallScript.Proofs.Scanning.Spelling

namespace SmallScript

/-- A statement that is an expression without its places is one with them. -/
theorem Stmt.eq_expr_of_plain {t : Stmt} {e : Expr} (h : t.plain = .expr e) :
    ∃ e', t = .expr e' ∧ e'.plain = e := by
  cases t with
  | expr e' => exact ⟨e', rfl, Stmt.expr.inj h⟩
  | cond s test yes no => cases no <;> cases h
  | «return» s value => cases value <;> cases h
  | _ => cases h

namespace Data

/-! ## Expressions -/

/-- The literal of a natural number. -/
def numeral (n : Nat) : Expr := .int default 0 (toString n)

mutual

/-- The expression that data are written as. -/
def expr : Data → Expr
  | .null => .null default
  | .bool b => .bool default b
  | .int n =>
    if n.toInt < 0 then .unary default .minus (numeral n.toInt.natAbs) else numeral n.toInt.natAbs
  | .list items => .list default 0 (exprs items)

def exprs : List Data → List Expr
  | [] => []
  | d :: ds => d.expr :: exprs ds

end

mutual

theorem proper_expr : ∀ d : Data, d.expr.proper = true
  | .null | .bool _ => rfl
  | .int n => by
    unfold expr
    split <;> rfl
  | .list items => proper_exprs items

theorem proper_exprs : ∀ ds : List Data, itemsProper (exprs ds) = true
  | [] => rfl
  | d :: ds => by
    rw [exprs, itemsProper, proper_expr d, proper_exprs ds]
    rfl

end

mutual

/-- A list opens a level for its items, and a minus one for its number. -/
theorem levels_expr : ∀ d : Data, d.expr.levels ≤ d.depth + 1
  | .null | .bool _ => Nat.zero_le _
  | .int n => by
    unfold expr
    split
    · exact Nat.le_refl 1
    · exact Nat.zero_le _
  | .list items => Nat.le_trans (levels_exprs items) (Nat.le_refl _)

theorem levels_exprs : ∀ ds : List Data, itemsLevels (exprs ds) ≤ deepest ds + 2
  | [] => Nat.zero_le _
  | d :: ds => by
    have hd := levels_expr d
    have hds := levels_exprs ds
    rw [exprs, itemsLevels, deepest]
    omega

end

/-! ## Texts -/

theorem text_int (n : Int64) : (Data.int n).text.toList =
    if n.toInt < 0 then '-' :: Nat.toDigits 10 n.toInt.natAbs
    else Nat.toDigits 10 n.toInt.natAbs := toList_toString n.toInt

/-- How data can begin. -/
def opens (c : Char) : Bool := c.isAlpha || c.isDigit || c == '-' || c == '['

theorem opens_of_isDigit {c : Char} (h : c.isDigit = true) : opens c = true := by
  unfold opens
  rw [h, Bool.or_true, Bool.true_or, Bool.true_or]

theorem text_list (ds : List Data) : (Data.list ds).text.toList =
    '[' :: ((String.intercalate "," (texts ds)).toList ++ [']']) := by
  rw [text, String.append_assoc, String.toList_append, String.toList_append]
  rfl

theorem opens_text (d : Data) : ∃ c cs, d.text.toList = c :: cs ∧ opens c = true := by
  cases d with
  | null => exact ⟨'n', _, rfl, rfl⟩
  | bool b => cases b <;> exact ⟨_, _, rfl, rfl⟩
  | int n =>
    rw [text_int]
    split
    · exact ⟨'-', _, rfl, rfl⟩
    · have hrun := run_toDigits n.toInt.natAbs
      obtain ⟨c, cs, hcs⟩ := List.exists_cons_of_ne_nil hrun.ne_nil
      rw [hcs] at hrun
      exact ⟨c, cs, hcs, opens_of_isDigit (hrun.all c List.mem_cons_self)⟩
  | list ds => exact ⟨'[', _, text_list ds, rfl⟩

/-- So begins a list of them. -/
theorem opens_texts (d : Data) (ds : List Data) : ∃ c cs,
    (String.intercalate "," (texts (d :: ds))).toList = c :: cs ∧ opens c = true := by
  obtain ⟨c, cs, htext, hc⟩ := opens_text d
  cases ds with
  | nil =>
    rw [texts, texts, String.intercalate_singleton]
    exact ⟨c, cs, htext, hc⟩
  | cons e ds =>
    rw [texts, texts, String.intercalate_cons_cons, String.append_assoc, String.toList_append, htext]
    exact ⟨c, _, rfl, hc⟩

/-- A symbol in front of data is not gone on with. -/
theorem ends_of_opens {c : Char} (hc : opens c = true) {s : Symbol} (hs : s ≠ .slash)
    (cs : List Char) : (Kind.symbol s).Ends (c :: cs) := by
  refine ⟨.cons ?_ cs, fun h => absurd h hs⟩
  rw [beq_eq_false_iff_ne]
  rintro rfl
  cases hc

/-- What can stand behind data: a comma, a bracket, or the end of the statement. -/
inductive Closes : List Char → Prop where
  | comma (cs : List Char) : Closes (',' :: cs)
  | bracket (cs : List Char) : Closes (']' :: cs)
  | semicolon (cs : List Char) : Closes (';' :: cs)

variable {rest : List Char} {ks : List Kind}

theorem Closes.stops (h : Closes rest) {p : Char → Bool} (hcomma : p ',' = false)
    (hbracket : p ']' = false) (hsemicolon : p ';' = false) : Stops p rest := by
  cases h with
  | comma => exact .cons hcomma _
  | bracket => exact .cons hbracket _
  | semicolon => exact .cons hsemicolon _

theorem Closes.endsNumber (h : Closes rest) : EndsNumber rest :=
  ⟨h.stops rfl rfl rfl, h.stops rfl rfl rfl⟩

/-- A word at the beginning of a text. -/
theorem spells_word {k : Kind} {word : List Char} (hword : k.text.toList = word)
    (hk : k.WellFormed) (hends : k.Ends rest) (h : Spells rest ks) :
    Spells (word ++ rest) (k :: ks) := by
  rw [← hword]
  exact .cons .nil hk hends h

theorem spells_numeral (n : Nat) (hrest : Closes rest) (h : Spells rest ks) :
    Spells (Nat.toDigits 10 n ++ rest) ((numeral n).words ++ ks) := by
  have hraw : (toString n).toList = Nat.toDigits 10 n := Nat.toList_repr
  have hform : IntForm (toString n).toList := by
    rw [hraw]
    exact .decimal (run_toDigits n)
  exact spells_word (k := .int (toString n)) hraw hform hrest.endsNumber h

theorem spells_keyword (k : Keyword) (hrest : Closes rest) (h : Spells rest ks) :
    Spells (k.text.toList ++ rest) (.keyword k :: ks) :=
  spells_word rfl trivial (hrest.stops (p := Lexeme.isWordPart) rfl rfl rfl) h

mutual

/-- The text of data spells the words of their expression. -/
theorem spells_text : ∀ (d : Data) {rest : List Char} {ks : List Kind}, Closes rest →
    Spells rest ks → Spells (d.text.toList ++ rest) (d.expr.words ++ ks)
  | .null, rest, ks, hrest, h => spells_keyword .null hrest h
  | .bool true, rest, ks, hrest, h => spells_keyword .true hrest h
  | .bool false, rest, ks, hrest, h => spells_keyword .false hrest h
  | .int n, rest, ks, hrest, h => by
    have hnumeral := spells_numeral n.toInt.natAbs hrest h
    rw [text_int, expr]
    split
    · have hrun := run_toDigits n.toInt.natAbs
      obtain ⟨c, cs, hcs⟩ := List.exists_cons_of_ne_nil hrun.ne_nil
      rw [hcs] at hnumeral hrun ⊢
      have hends : (Kind.symbol .minus).Ends (c :: (cs ++ rest)) :=
        ends_of_opens (s := .minus) (opens_of_isDigit (hrun.all c List.mem_cons_self)) (by decide) _
      have hminus : (Kind.symbol .minus).text.toList = ['-'] := rfl
      have hall := spells_word hminus trivial hends hnumeral
      exact hall
    · exact hnumeral
  | .list ds, rest, ks, hrest, h => by
    have hbracket : Spells (']' :: rest) (.symbol .rbracket :: ks) :=
      spells_word (k := .symbol .rbracket) rfl trivial ⟨hrest.stops rfl rfl rfl, nofun⟩ h
    have hitems := spells_texts ds hbracket
    have hends : (Kind.symbol .lbracket).Ends
        ((String.intercalate "," (texts ds)).toList ++ ']' :: rest) := by
      cases ds with
      | nil =>
        rw [texts, String.intercalate_nil]
        exact ⟨.cons rfl rest, nofun⟩
      | cons d ds =>
        obtain ⟨c, cs, htext, hc⟩ := opens_texts d ds
        rw [htext]
        exact ends_of_opens (s := .lbracket) hc (by decide) _
    have hall := spells_word (k := .symbol .lbracket) rfl trivial hends hitems
    rw [text_list, List.cons_append, List.append_assoc]
    change Spells _ (.symbol .lbracket :: commas (itemsWords (exprs ds)) ++ [.symbol .rbracket] ++ ks)
    rw [List.append_assoc, List.cons_append]
    exact hall

/-- Data with commas between them spell the words of their expressions with commas between them. -/
theorem spells_texts : ∀ (ds : List Data) {rest : List Char} {ks : List Kind},
    Spells (']' :: rest) ks →
      Spells ((String.intercalate "," (texts ds)).toList ++ ']' :: rest)
        (commas (itemsWords (exprs ds)) ++ ks)
  | [], rest, ks, h => by
    rw [texts, String.intercalate_nil]
    exact h
  | [d], rest, ks, h => by
    rw [texts, texts, String.intercalate_singleton]
    exact spells_text d (.bracket rest) h
  | d :: e :: ds, rest, ks, h => by
    have hrest := spells_texts (e :: ds) h
    obtain ⟨c, cs, htext, hc⟩ := opens_texts e ds
    have hends : (Kind.symbol .comma).Ends
        ((String.intercalate "," (texts (e :: ds))).toList ++ ']' :: rest) := by
      rw [htext]
      exact ends_of_opens (s := .comma) hc (by decide) _
    have hcomma := spells_word (k := .symbol .comma) rfl trivial hends hrest
    have hall := spells_text d (.comma _) hcomma
    have hwords : commas (itemsWords (exprs (d :: e :: ds))) =
        d.expr.words ++ .symbol .comma :: commas (itemsWords (exprs (e :: ds))) := rfl
    have htexts : (String.intercalate "," (texts (d :: e :: ds))).toList =
        d.text.toList ++ ',' :: (String.intercalate "," (texts (e :: ds))).toList := by
      change (String.intercalate "," (d.text :: e.text :: texts ds)).toList = _
      rw [String.intercalate_cons_cons, String.append_assoc, String.toList_append,
        String.toList_append]
      rfl
    rw [hwords, htexts, List.append_assoc, List.append_assoc]
    exact hall

end

/-! ## Reading -/

mutual

theorem plain_expr : ∀ d : Data, d.expr.plain = d.expr
  | .null | .bool _ => rfl
  | .int n => by
    unfold expr
    split <;> rfl
  | .list items => by
    rw [expr, Expr.plain, plain_exprs items]

theorem plain_exprs : ∀ ds : List Data, plainItems (exprs ds) = exprs ds
  | [] => rfl
  | d :: ds => by rw [exprs, plainItems, plain_expr d, plain_exprs ds]

end

theorem written_expr {d : Data} {n : Nat} (hn : d.depth + 3 ≤ n) :
    Written n (.stmts [.expr d.expr]) (d.expr.words ++ [.symbol .semicolon]) := by
  have hlevels := levels_expr d
  have hprogram := Program.written_words ⟨[.expr d.expr], default⟩ (h := n) ?_ ?_
  · change Written n (.stmts [.expr d.expr])
      ((d.expr.words ++ [.symbol .semicolon]) ++ []) at hprogram
    rwa [List.append_nil] at hprogram
  · change (d.expr.proper && true) = true
    rw [proper_expr]
    rfl
  · change max (d.expr.levels + 1 + 1) 0 ≤ n
    omega

/-- The text of data that are not nested too deep is read as their expression, without a
complaint, and the nodes of what is read have numbers of their own. -/
theorem read {d : Data} (hd : d.depth ≤ 125) {doc : Document} (hdoc : doc.text = d.text ++ ";") :
    (Parse.ofDocument doc).log = Log.empty ∧
      ∃ e, (Parse.ofDocument doc).program.stmts = [.expr e] ∧ e.plain = d.expr ∧
        e.numbers.Nodup := by
  have hsemicolon : (Kind.symbol .semicolon).text.toList = [';'] := rfl
  have hend : Spells [';'] [.symbol .semicolon] :=
    spells_word hsemicolon trivial (Kind.ends_nil _) (.nil .nil)
  have hspells : Spells doc.text.toList (d.expr.words ++ [.symbol .semicolon]) := by
    rw [hdoc, String.toList_append]
    exact spells_text d (.semicolon []) hend
  obtain ⟨hkinds, hscan⟩ := Document.kinds_of_spells hspells
  have hmax : d.depth + 3 ≤ Cursor.maxDepth := by
    change d.depth + 3 ≤ 128
    omega
  obtain ⟨hlog, hplain⟩ := read_of_written (written_expr hmax) hkinds
  have hstmts : (Parse.ofDocument doc).program.stmts.map Stmt.plain = [.expr d.expr] := by
    rw [← plain_expr d]
    exact hplain
  obtain ⟨t, ht, hexpr⟩ := List.map_eq_singleton_iff.1 hstmts
  refine ⟨?_, ?_⟩
  · change doc.scan.log.append _ = _
    rw [hscan, hlog]
    rfl
  · obtain ⟨e, rfl, he⟩ := Stmt.eq_expr_of_plain hexpr
    have hascend : (stmtsParts (Parse.ofDocument doc).program.stmts).filterMap Part.id? |>.Nodup :=
      (numbers_ascend doc doc.scan.tokens.toList).imp Nat.ne_of_lt
    rw [ht] at hascend
    have hnumbers : (stmtsParts [.expr e]).filterMap Part.id? = e.numbers := by
      change numbers (.stmt (.expr e) :: (.expr e :: e.inner ++ [])) = e.numbers
      rw [List.append_nil]
      rfl
    rw [hnumbers] at hascend
    exact ⟨e, ht, he, hascend⟩

end Data

end SmallScript
