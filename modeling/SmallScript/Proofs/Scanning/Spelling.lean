/-
  Words are read as they are written.

  A word that is written in its form is cut off the text as it stands, unless the text behind it
  goes on with it: a digit behind a number, a letter behind a name, an equals sign behind a symbol.
  Blanks and closed comments are cut off without a trace.  So a text that spells some words
  (`Spells`) is scanned into these words and nothing is reported; and as all that is scanned without
  a report has its form, scanning what was written of it gives the same words again
  (`scan_spelled`).
-/
import SmallScript.Proofs.Reading.Layout
import SmallScript.Proofs.Scanning.Tiling

namespace SmallScript

open Lexeme (isBlank isHexDigit isWordStart isWordPart cut number decimalNumber radixNumber fraction
  sign exponent blockComment string string_plain word symbol symbol? doubled?)

/-! ## Where a run ends -/

/-- A text that does not begin with a character of a class. -/
def Stops (p : Char → Bool) (cs : List Char) : Prop := ∀ c ∈ cs.head?, p c = false

namespace Stops

variable {p q : Char → Bool} {a b : List Char}

/-- A run ends at the end of the text. -/
theorem nil : Stops p [] := fun _ h => nomatch h

/-- It ends where a character of another class stands. -/
theorem cons {c : Char} (h : p c = false) (cs : List Char) : Stops p (c :: cs) := by
  intro d hd
  cases hd
  exact h

/-- It ends in front of two texts if it ends in front of both. -/
theorem append (ha : Stops p a) (hb : Stops p b) : Stops p (a ++ b) := by
  cases a with
  | nil => exact hb
  | cons c cs => exact cons (ha c rfl) _

/-- A run of a smaller class ends there, too. -/
theorem mono (h : Stops q a) (hpq : ∀ c, q c = false → p c = false) : Stops p a :=
  fun c hc => hpq c (h c hc)

/-- A run with what it ends before is taken as it stands. -/
theorem takeWhile (hb : Stops p b) (ha : ∀ c ∈ a, p c = true) : (a ++ b).takeWhile p = a := by
  rw [List.takeWhile_append_of_pos ha]
  cases b with
  | nil => exact List.append_nil a
  | cons c cs => rw [List.takeWhile_cons, hb c rfl, if_neg Bool.false_ne_true, List.append_nil]

/-- What it ends before is left. -/
theorem dropWhile (hb : Stops p b) (ha : ∀ c ∈ a, p c = true) : (a ++ b).dropWhile p = b := by
  rw [List.dropWhile_append_of_pos ha]
  cases b with
  | nil => rfl
  | cons c cs => rw [List.dropWhile_cons, hb c rfl, if_neg Bool.false_ne_true]

end Stops

/-! ## Numbers -/

variable {cs ds rest whole f x : List Char} {c : Char}

/-- A text that does not go on with a number. -/
structure EndsNumber (rest : List Char) : Prop where
  word : Stops isWordPart rest
  point : Stops (· == '.') rest

/-- Nothing that goes on with a word follows a number. -/
theorem EndsNumber.stops (h : EndsNumber rest) {p : Char → Bool}
    (hp : ∀ c, p c = true → isWordPart c = true) : Stops p rest :=
  h.word.mono fun _ => of_not_isWordPart hp

theorem EndsNumber.digits (h : EndsNumber rest) : Stops Char.isDigit rest :=
  h.stops fun _ => isWordPart_of_isDigit

/-- A fraction begins with a point, or is not there. -/
theorem FractionForm.stops (h : FractionForm f) {p : Char → Bool} (hp : p '.' = false) :
    Stops p f := by
  cases h with
  | none => exact .nil
  | digits => exact .cons hp _

/-- An exponent begins with its mark, or is not there. -/
theorem ExponentForm.stops (h : ExponentForm x) {p : Char → Bool} (hp : p 'e' = false)
    (hp' : p 'E' = false) : Stops p x := by
  cases h with
  | none => exact .nil
  | digits he =>
    rcases he with rfl | rfl
    · exact .cons hp _
    · exact .cons hp' _

/-- A fraction is found as it is written. -/
theorem fraction_append_rest (hf : FractionForm f) (hdigits : Stops Char.isDigit rest)
    (hpoint : Stops (· == '.') rest) : fraction (f ++ rest) = (f, rest) := by
  cases hf with
  | none =>
    cases rest with
    | nil => rfl
    | cons c cs =>
      have hc : c ≠ '.' := by simpa using hpoint c rfl
      rw [List.nil_append, fraction]
      rintro _ ⟨⟩
      exact hc rfl
  | digits hds =>
    rw [List.cons_append, fraction, hdigits.takeWhile hds.all, hdigits.dropWhile hds.all]
    exact if_neg (by simpa using hds.ne_nil)

/-- So is a sign. -/
theorem sign_append_rest {sg : List Char} (hsign : SignForm sg) (hds : Run Char.isDigit ds)
    (rest : List Char) : sign (sg ++ (ds ++ rest)) = (sg, ds ++ rest) := by
  cases hsign with
  | plus => rfl
  | minus => rfl
  | none =>
    obtain ⟨d, ds, rfl⟩ := List.exists_cons_of_ne_nil hds.ne_nil
    have hd : d.isDigit = true := hds.all d List.mem_cons_self
    rw [List.nil_append, List.cons_append, sign, if_neg]
    rw [Bool.or_eq_true, beq_iff_eq, beq_iff_eq]
    rintro (rfl | rfl) <;> cases hd

/-- So is an exponent. -/
theorem exponent_append_rest (hx : ExponentForm x) (h : EndsNumber rest) :
    exponent (x ++ rest) = (x, rest) := by
  cases hx with
  | none =>
    cases rest with
    | nil => rfl
    | cons c cs =>
      have hc : isWordPart c = false := h.word c rfl
      rw [List.nil_append, exponent, if_neg]
      rw [Bool.or_eq_true, beq_iff_eq, beq_iff_eq]
      rintro (rfl | rfl) <;> cases hc
  | @digits e sg ds he hsign hds =>
    have hmark : (e == 'e' || e == 'E') = true := by
      rw [Bool.or_eq_true, beq_iff_eq, beq_iff_eq]
      exact he
    have hempty : ds.isEmpty = false := by simpa using hds.ne_nil
    rw [List.cons_append, List.append_assoc, exponent, if_pos hmark]
    dsimp only
    rw [sign_append_rest hsign hds, h.digits.takeWhile hds.all, h.digits.dropWhile hds.all, hempty,
      if_neg Bool.false_ne_true]

/-- A decimal number is cut off as it is written. -/
theorem decimalNumber_append_rest (hwhole : Run Char.isDigit whole) (hf : FractionForm f)
    (hx : ExponentForm x) (h : EndsNumber rest) :
    decimalNumber (whole ++ (f ++ (x ++ rest))) =
      (⟨.token (if f.isEmpty && x.isEmpty then .int (String.ofList (whole ++ (f ++ x)))
        else .float (String.ofList (whole ++ (f ++ x)))), whole ++ (f ++ x)⟩, rest) := by
  have hexponent : Stops Char.isDigit (x ++ rest) := (hx.stops rfl rfl).append h.digits
  have hfraction : Stops Char.isDigit (f ++ (x ++ rest)) := (hf.stops rfl).append hexponent
  have hpoint : Stops (· == '.') (x ++ rest) := (hx.stops rfl rfl).append h.point
  unfold decimalNumber
  rw [hfraction.takeWhile hwhole.all, hfraction.dropWhile hwhole.all,
    fraction_append_rest hf hexponent hpoint]
  dsimp only
  rw [exponent_append_rest hx h]

/-- A number without a mark behind its first digit is decimal. -/
theorem number_eq_decimalNumber (h : Stops (fun d => d == 'x' || d == 'o') cs) :
    number (c :: cs) = decimalNumber (c :: cs) := by
  unfold number
  split
  · rename_i heq
    cases heq
    cases h 'x' rfl
  · rename_i heq
    cases heq
    cases h 'o' rfl
  · rfl

/-- A digit begins a number. -/
theorem cut_digit (hc : c.isDigit = true) (cs : List Char) : cut c cs = number (c :: cs) := by
  have hblank : isBlank c = false := isBlank_of_isWordPart (isWordPart_of_isDigit hc)
  unfold cut
  rw [hblank, if_neg Bool.false_ne_true, if_pos hc]

/-- A number in decimal is cut off with its fraction and its exponent. -/
theorem cut_decimal (hwhole : Run Char.isDigit (c :: cs)) (hf : FractionForm f)
    (hx : ExponentForm x) (h : EndsNumber rest) :
    cut c (cs ++ (f ++ (x ++ rest))) =
      (⟨.token (if f.isEmpty && x.isEmpty then .int (String.ofList (c :: cs ++ (f ++ x)))
        else .float (String.ofList (c :: cs ++ (f ++ x)))), c :: cs ++ (f ++ x)⟩, rest) := by
  have hmark : ∀ d : Char, (d == 'x' || d == 'o') = true → isWordPart d = true := by
    intro d hd
    rw [Bool.or_eq_true, beq_iff_eq, beq_iff_eq] at hd
    rcases hd with rfl | rfl <;> rfl
  have hdigit : ∀ d : Char, d.isDigit = true → (d == 'x' || d == 'o') = false := by
    intro d hd
    rw [Bool.eq_false_iff, ne_eq, Bool.or_eq_true, beq_iff_eq, beq_iff_eq]
    rintro (rfl | rfl) <;> cases hd
  have hdigits : Stops (fun d => d == 'x' || d == 'o') cs := fun d hd =>
    hdigit d (hwhole.all d (List.mem_cons_of_mem c (List.mem_of_head? hd)))
  have hstops := hdigits.append
    ((hf.stops rfl).append ((hx.stops rfl rfl).append (h.stops hmark)))
  rw [cut_digit (hwhole.all c List.mem_cons_self), number_eq_decimalNumber hstops]
  exact decimalNumber_append_rest hwhole hf hx h

/-- A number in another base is cut off up to the last of its digits. -/
theorem cut_radix {mark : Char} {p : Char → Bool}
    (hnumber : ∀ cs, number ('0' :: mark :: cs) = radixNumber ['0', mark] p cs) (hds : Run p ds)
    (h : Stops p rest) :
    cut '0' (mark :: (ds ++ rest)) =
      (⟨.token (.int (String.ofList ('0' :: mark :: ds))), '0' :: mark :: ds⟩, rest) := by
  have hempty : ds.isEmpty = false := by simpa using hds.ne_nil
  rw [cut_digit rfl, hnumber, radixNumber, h.takeWhile hds.all, h.dropWhile hds.all, hempty,
    if_neg Bool.false_ne_true]
  rfl

/-! ## Strings, words and symbols -/

/-- By induction on the body of the string: escaped characters are passed in pairs. -/
theorem string_append_rest {body : List Char} (hbody : StringBody body) (seen rest : List Char) :
    string seen (body ++ '"' :: rest) =
      (⟨.token (.string (String.ofList (seen.reverse ++ (body ++ ['"'])))),
        seen.reverse ++ (body ++ ['"'])⟩, rest) := by
  induction hbody generalizing seen with
  | nil => rw [List.nil_append, string, List.reverse_cons, List.nil_append]
  | @plain c body hquote hback hline _ ih =>
    rw [List.cons_append, string_plain hquote hback hline, ih, List.reverse_cons, List.append_assoc]
    rfl
  | @escape c body hline _ ih =>
    rw [List.cons_append, List.cons_append, string, if_neg hline, ih, List.reverse_cons,
      List.reverse_cons, List.append_assoc, List.append_assoc]
    rfl

theorem cut_string {body : List Char} (hbody : StringBody body) (rest : List Char) :
    cut '"' (body ++ '"' :: rest) =
      (⟨.token (.string (String.ofList ('"' :: (body ++ ['"'])))), '"' :: (body ++ ['"'])⟩, rest) :=
  string_append_rest hbody ['"'] rest

/-- A word is cut off up to the character that ends it. -/
theorem cut_word {k : Kind} (hform : WordForm k.text.toList) (hk : Kind.ofWord k.text = k)
    (h : Stops isWordPart rest) :
    ∃ c cs, k.text.toList = c :: cs ∧ cut c (cs ++ rest) = (⟨.token k, c :: cs⟩, rest) := by
  have hrun := hform.run
  generalize htext : k.text.toList = text at hform hrun
  obtain ⟨hc, -⟩ := hform
  rename_i c cs
  refine ⟨c, cs, rfl, ?_⟩
  have hblank : isBlank c = false := isBlank_of_isWordPart (isWordPart_of_isWordStart hc)
  have hdigit : c.isDigit = false := isDigit_of_isWordStart hc
  unfold cut
  rw [hblank, hdigit, if_neg Bool.false_ne_true, if_neg Bool.false_ne_true, if_pos hc, word,
    ← List.cons_append, h.takeWhile hrun.all, h.dropWhile hrun.all, ← htext, String.ofList_toList,
    hk]

/-- A character that is no comment and begins nothing else is the beginning of a symbol. -/
theorem cut_eq_symbol (hc : isBlank c = false ∧ c.isDigit = false ∧ isWordStart c = false ∧ c ≠ '"')
    (hslash : c = '/' → Stops (fun d => d == '/' || d == '*') rest) :
    cut c rest = symbol c rest := by
  obtain ⟨hblank, hdigit, hword, hquote⟩ := hc
  unfold cut
  rw [hblank, hdigit, hword, if_neg Bool.false_ne_true, if_neg Bool.false_ne_true,
    if_neg Bool.false_ne_true, if_neg hquote]
  split
  · cases hslash rfl '/' rfl
  · cases hslash rfl '*' rfl
  · rfl

/-- A symbol stands alone unless an equals sign follows. -/
theorem symbol_single {s : Symbol} (hs : symbol? c = some s) (h : Stops (· == '=') rest) :
    symbol c rest = (⟨.token (.symbol s), s.text.toList⟩, rest) := by
  unfold symbol
  split
  · cases h '=' rfl
  · rw [hs, Lexeme.text_of_symbol? hs]

/-- With an equals sign behind it, it is another symbol. -/
theorem symbol_double {s : Symbol} (hs : doubled? c = some s) (rest : List Char) :
    symbol c ('=' :: rest) = (⟨.token (.symbol s), s.text.toList⟩, rest) := by
  unfold symbol
  rw [hs, Lexeme.text_of_doubled? hs]
  rfl

/-! ## Words with a text behind them -/

/-- A text does not go on with a word of some kind that stands before it. -/
def Kind.Ends : Kind → List Char → Prop
  | .int _, rest | .float _, rest => EndsNumber rest
  | .identifier _, rest | .keyword _, rest => Stops isWordPart rest
  | .symbol s, rest =>
    Stops (· == '=') rest ∧ (s = .slash → Stops (fun d => d == '/' || d == '*') rest)
  | .string _, _ | .eof, _ => True

/-- At the end of a text every word ends. -/
theorem Kind.ends_nil (k : Kind) : k.Ends [] := by
  cases k with
  | int | float => exact ⟨.nil, .nil⟩
  | identifier | keyword => exact .nil
  | symbol => exact ⟨.nil, fun _ => .nil⟩
  | string | eof => trivial

/-- No word goes on with a blank. -/
theorem Kind.ends_blank (k : Kind) (hc : isBlank c = true) (cs : List Char) :
    k.Ends (c :: cs) := by
  have hword : Stops isWordPart (c :: cs) := .cons (isWordPart_of_isBlank hc) cs
  have hstops : ∀ p : Char → Bool, (∀ d, p d = true → isBlank d = false) → Stops p (c :: cs) := by
    refine fun p hp => .cons (Bool.eq_false_iff.2 fun hpc => ?_) cs
    rw [hp c hpc] at hc
    cases hc
  have hequal : ∀ e : Char, isBlank e = false → ∀ d, (d == e) = true → isBlank d = false :=
    fun e he d hd => eq_of_beq hd ▸ he
  cases k with
  | int | float => exact ⟨hword, hstops _ (hequal '.' rfl)⟩
  | identifier | keyword => exact hword
  | symbol =>
    refine ⟨hstops _ (hequal '=' rfl), fun _ => hstops _ fun d hd => ?_⟩
    rcases Bool.or_eq_true_iff.1 hd with hd | hd
    · exact hequal '/' rfl d hd
    · exact hequal '*' rfl d hd
  | string | eof => trivial

/-- An integer is cut off as it is written, in any base. -/
theorem cut_int {raw : String} (hform : IntForm raw.toList) (h : EndsNumber rest) :
    ∃ c cs, raw.toList = c :: cs ∧ cut c (cs ++ rest) = (⟨.token (.int raw), c :: cs⟩, rest) := by
  generalize htext : raw.toList = text at hform
  have hraw : String.ofList text = raw := by rw [← htext, String.ofList_toList]
  cases hform with
  | decimal hds =>
    obtain ⟨c, cs, rfl⟩ := List.exists_cons_of_ne_nil hds.ne_nil
    have hcut := cut_decimal hds .none .none h
    simp only [List.append_nil, List.nil_append, List.isEmpty_nil, Bool.and_self, if_true,
      hraw] at hcut
    exact ⟨c, cs, rfl, hcut⟩
  | hex hds =>
    refine ⟨'0', _, rfl, ?_⟩
    rw [← hraw]
    exact cut_radix (fun _ => rfl) hds (h.stops fun _ => isWordPart_of_isHexDigit)
  | octal hds =>
    refine ⟨'0', _, rfl, ?_⟩
    rw [← hraw]
    exact cut_radix (fun _ => rfl) hds h.digits

/-- So is a float. -/
theorem cut_float {raw : String} (hform : FloatForm raw.toList) (h : EndsNumber rest) :
    ∃ c cs, raw.toList = c :: cs ∧ cut c (cs ++ rest) = (⟨.token (.float raw), c :: cs⟩, rest) := by
  generalize htext : raw.toList = text at hform
  have hraw : String.ofList text = raw := by rw [← htext, String.ofList_toList]
  obtain ⟨hwhole, hf, hx, hsome⟩ := hform
  rename_i whole f x
  obtain ⟨c, cs, rfl⟩ := List.exists_cons_of_ne_nil hwhole.ne_nil
  refine ⟨c, cs ++ (f ++ x), rfl, ?_⟩
  have hcut := cut_decimal hwhole hf hx h
  rw [hsome, if_neg Bool.false_ne_true, hraw] at hcut
  rw [List.append_assoc, List.append_assoc]
  exact hcut

/-- So is a symbol, of one character or two. -/
theorem cut_token {s : Symbol} (h : (Kind.symbol s).Ends rest) :
    ∃ c cs, s.text.toList = c :: cs ∧
      cut c (cs ++ rest) = (⟨.token (.symbol s), c :: cs⟩, rest) := by
  obtain ⟨hequals, hslash⟩ := h
  have hsingle : ∀ c, symbol? c = some s →
      (isBlank c = false ∧ c.isDigit = false ∧ isWordStart c = false ∧ c ≠ '"') →
      (c = '/' → s = .slash) →
      ∃ c cs, s.text.toList = c :: cs ∧
        cut c (cs ++ rest) = (⟨.token (.symbol s), c :: cs⟩, rest) := by
    intro c hs hc hc'
    refine ⟨c, [], Lexeme.text_of_symbol? hs, ?_⟩
    rw [List.nil_append, cut_eq_symbol hc fun h => hslash (hc' h), symbol_single hs hequals,
      Lexeme.text_of_symbol? hs]
  have hdouble : ∀ c, doubled? c = some s →
      (isBlank c = false ∧ c.isDigit = false ∧ isWordStart c = false ∧ c ≠ '"') → c ≠ '/' →
      ∃ c cs, s.text.toList = c :: cs ∧
        cut c (cs ++ rest) = (⟨.token (.symbol s), c :: cs⟩, rest) := by
    intro c hs hc hne
    refine ⟨c, ['='], Lexeme.text_of_doubled? hs, ?_⟩
    rw [List.singleton_append, cut_eq_symbol hc fun h => absurd h hne, symbol_double hs,
      Lexeme.text_of_doubled? hs]
  cases s with
  | plus => exact hsingle '+' rfl (by decide) (by decide)
  | minus => exact hsingle '-' rfl (by decide) (by decide)
  | star => exact hsingle '*' rfl (by decide) (by decide)
  | slash => exact hsingle '/' rfl (by decide) (fun _ => rfl)
  | percent => exact hsingle '%' rfl (by decide) (by decide)
  | eqEq => exact hdouble '=' rfl (by decide) (by decide)
  | bangEq => exact hdouble '!' rfl (by decide) (by decide)
  | less => exact hsingle '<' rfl (by decide) (by decide)
  | lessEq => exact hdouble '<' rfl (by decide) (by decide)
  | greater => exact hsingle '>' rfl (by decide) (by decide)
  | greaterEq => exact hdouble '>' rfl (by decide) (by decide)
  | eq => exact hsingle '=' rfl (by decide) (by decide)
  | question => exact hsingle '?' rfl (by decide) (by decide)
  | dot => exact hsingle '.' rfl (by decide) (by decide)
  | lparen => exact hsingle '(' rfl (by decide) (by decide)
  | rparen => exact hsingle ')' rfl (by decide) (by decide)
  | lbrace => exact hsingle '\x7b' rfl (by decide) (by decide)
  | rbrace => exact hsingle '\x7d' rfl (by decide) (by decide)
  | lbracket => exact hsingle '[' rfl (by decide) (by decide)
  | rbracket => exact hsingle ']' rfl (by decide) (by decide)
  | comma => exact hsingle ',' rfl (by decide) (by decide)
  | semicolon => exact hsingle ';' rfl (by decide) (by decide)
  | colon => exact hsingle ':' rfl (by decide) (by decide)

/-- A word that is written in its form is cut off as it is written. -/
theorem Kind.WellFormed.cut {k : Kind} (hk : k.WellFormed) (h : k.Ends rest) :
    ∃ c cs, k.text.toList = c :: cs ∧ cut c (cs ++ rest) = (⟨.token k, c :: cs⟩, rest) := by
  cases k with
  | int raw => exact cut_int hk h
  | float raw => exact cut_float hk h
  | string raw =>
    have hform : StringForm raw.toList := hk
    generalize htext : raw.toList = text at hform
    obtain ⟨hbody⟩ := hform
    rename_i body
    refine ⟨'"', body ++ ['"'], htext, ?_⟩
    rw [List.append_assoc, List.singleton_append, cut_string hbody, ← htext, String.ofList_toList]
  | identifier name =>
    refine cut_word hk.1 ?_ h
    unfold Kind.ofWord Kind.text
    dsimp only
    rw [hk.2]
  | keyword k =>
    refine cut_word k.form ?_ h
    unfold Kind.ofWord Kind.text
    dsimp only
    rw [Keyword.ofText?_text]
  | symbol s => exact cut_token h
  | eof => cases hk

/-! ## Between words -/

/-- What can be between words, and nothing too: blanks, line comments with their line feed, and
closed block comments. -/
inductive Gap : List Char → Prop where
  | nil : Gap []
  | blank {c : Char} {g : List Char} : isBlank c = true → Gap g → Gap (c :: g)
  | lineComment {body g : List Char} : '\n' ∉ body → Gap g →
      Gap ('/' :: '/' :: (body ++ '\n' :: g))
  | blockComment {body g : List Char} : Unclosed body → Gap g →
      Gap ('/' :: '*' :: (body ++ '*' :: '/' :: g))

/-- What keeps words apart, whatever they are: a gap that begins with a blank. -/
inductive Separator : List Char → Prop where
  | mk {c : Char} {g : List Char} : isBlank c = true → Gap g → Separator (c :: g)

/-- A separator is a gap: blanks or a closed comment. -/
theorem Separator.gap {s : List Char} (h : Separator s) : Gap s := by
  obtain ⟨hc, hg⟩ := h
  exact .blank hc hg

/-- Two gaps in a row are one. -/
theorem Gap.append {g g' : List Char} (hg : Gap g) (hg' : Gap g') : Gap (g ++ g') := by
  induction hg with
  | nil => exact hg'
  | blank hc _ ih => exact .blank hc ih
  | lineComment hbody _ ih =>
    rw [List.cons_append, List.cons_append, List.append_assoc]
    exact .lineComment hbody ih
  | blockComment hbody _ ih =>
    rw [List.cons_append, List.cons_append, List.append_assoc]
    exact .blockComment hbody ih

/-- A comment ends in front of the line feed. -/
theorem cut_lineComment {body : List Char} (hbody : '\n' ∉ body) (rest : List Char) :
    cut '/' ('/' :: (body ++ '\n' :: rest)) =
      (⟨.comment, '/' :: '/' :: body⟩, '\n' :: rest) := by
  have hline : Stops (· != '\n') ('\n' :: rest) := .cons rfl rest
  have hall : ∀ c ∈ body, (c != '\n') = true := fun c hc => by
    rw [bne_iff_ne]
    exact fun heq => hbody (heq ▸ hc)
  change ((⟨.comment, '/' :: '/' :: (body ++ '\n' :: rest).takeWhile (· != '\n')⟩ : Lexeme),
    (body ++ '\n' :: rest).dropWhile (· != '\n')) = _
  rw [hline.takeWhile hall, hline.dropWhile hall]

/-- A comment ends with the first end of a comment. -/
theorem blockComment_append_rest (body seen rest : List Char) (hbody : Unclosed body) :
    blockComment seen (body ++ '*' :: '/' :: rest) =
      (⟨.comment, seen.reverse ++ (body ++ ['*', '/'])⟩, rest) := by
  induction body generalizing seen with
  | nil =>
    rw [List.nil_append, blockComment, List.reverse_cons, List.reverse_cons, List.append_assoc]
    rfl
  | cons c body ih =>
    have hrest : Unclosed body := fun h => hbody (h.trans (List.suffix_cons c body).isInfix)
    have hopen : ∀ tail, c = '*' → body ++ '*' :: '/' :: rest = '/' :: tail → False := by
      rintro tail rfl htail
      cases body with
      | nil => cases htail
      | cons d body =>
        cases htail
        exact hbody ⟨[], body, rfl⟩
    rw [List.cons_append, blockComment, ih _ hrest, List.reverse_cons, List.append_assoc]
    · rfl
    · exact hopen

/-! ## Scanning what is spelled -/

/-- A text that spells some words: each is in its form, there may be gaps before and behind them,
and no word is gone on with. -/
inductive Spells : List Char → List Kind → Prop where
  | nil {g : List Char} : Gap g → Spells g []
  | cons {g rest : List Char} {k : Kind} {ks : List Kind} : Gap g → k.WellFormed → k.Ends rest →
      Spells rest ks → Spells (g ++ (k.text.toList ++ rest)) (k :: ks)

/-- A gap may be put in front of what spells some words. -/
theorem Spells.behind {g : List Char} {ks : List Kind} (hg : Gap g) (h : Spells cs ks) :
    Spells (g ++ cs) ks := by
  cases h with
  | nil hg' => exact .nil (hg.append hg')
  | cons hg' hk hends hrest =>
    rw [← List.append_assoc]
    exact .cons (hg.append hg') hk hends hrest

variable {doc : Document} {tokens : Array Token} {log : Log} {here : Place}

/-- What is no word and is not reported leaves no trace. -/
theorem Scan.go_skip {lexeme : Lexeme} (hcut : cut c cs = (lexeme, rest))
    (hkind : lexeme.kind? = none) (hcomplaint : lexeme.complaint? = none) :
    Scan.go doc tokens log here (c :: cs) =
      Scan.go doc tokens log (here.after lexeme.text) rest := by
  rw [Scan.go, hcut]
  dsimp only
  rw [hkind]
  dsimp only
  unfold Scan.report
  rw [hcomplaint]

/-- A word is read, and reading goes on behind it. -/
theorem Scan.go_word {k : Kind} {text : List Char} (hcut : cut c cs = (⟨.token k, text⟩, rest))
    (hlog : log.isFull = false) :
    Scan.go doc tokens log here (c :: cs) =
      Scan.go doc (tokens.push ⟨k, Span.between here (here.after text)⟩) log (here.after text)
        rest := by
  rw [Scan.go, hcut]
  exact if_neg (Bool.eq_false_iff.1 hlog)

/-- By induction on the gap: it is passed without a token and without a report. -/
theorem Scan.go_gap (doc : Document) (tokens : Array Token) (log : Log) {g : List Char} (hg : Gap g)
    (here : Place) (cs : List Char) :
    ∃ next, Scan.go doc tokens log here (g ++ cs) = Scan.go doc tokens log next cs := by
  induction hg generalizing here with
  | nil => exact ⟨here, rfl⟩
  | @blank c g hc _ ih =>
    have hcut : cut c (g ++ cs) = (⟨.blank, [c]⟩, g ++ cs) := by
      unfold cut
      rw [if_pos hc]
    rw [List.cons_append, Scan.go_skip hcut rfl rfl]
    exact ih _
  | @lineComment body g hbody _ ih =>
    have hline : cut '\n' (g ++ cs) = (⟨.blank, ['\n']⟩, g ++ cs) := rfl
    rw [List.cons_append, List.cons_append, List.append_assoc, List.cons_append,
      Scan.go_skip (cut_lineComment hbody _) rfl rfl, Scan.go_skip hline rfl rfl]
    exact ih _
  | @blockComment body g hbody _ ih =>
    have hcut : cut '/' ('*' :: (body ++ '*' :: '/' :: (g ++ cs))) = _ :=
      blockComment_append_rest body ['*', '/'] (g ++ cs) hbody
    rw [List.cons_append, List.cons_append, List.append_assoc, List.cons_append, List.cons_append,
      Scan.go_skip hcut rfl rfl]
    exact ih _

/-- What is spelled is read, and nothing is reported. -/
theorem Scan.go_spells {ks : List Kind} (h : Spells cs ks) (tokens : Array Token)
    (hlog : log.isFull = false) (here : Place) :
    (Scan.go doc tokens log here cs).tokens.toList.map Token.kind =
        tokens.toList.map Token.kind ++ (ks ++ [.eof]) ∧
      (Scan.go doc tokens log here cs).log = log := by
  induction h generalizing tokens here with
  | nil hg =>
    obtain ⟨next, hnext⟩ := Scan.go_gap doc tokens log hg here []
    rw [List.append_nil] at hnext
    rw [hnext, Scan.go, close, Array.toList_push, List.map_append]
    exact ⟨rfl, rfl⟩
  | @cons g rest k ks hg hk hends _ ih =>
    obtain ⟨next, hnext⟩ := Scan.go_gap doc tokens log hg here (k.text.toList ++ rest)
    obtain ⟨c, cs, htext, hcut⟩ := hk.cut hends
    rw [hnext, htext, List.cons_append, Scan.go_word hcut hlog]
    obtain ⟨hkinds, hsame⟩ := ih (tokens.push ⟨k, _⟩) (next.after (c :: cs))
    refine ⟨?_, hsame⟩
    rw [hkinds, Array.toList_push, List.map_append, List.append_assoc]
    rfl

/-- The words of a text are those that it spells. -/
theorem Document.kinds_of_spells {ks : List Kind} (h : Spells doc.text.toList ks) :
    doc.kinds = ks ++ [.eof] ∧ doc.scan.log = Log.empty :=
  Scan.go_spells h #[] rfl Place.start

/-! ## Words with separators -/

/-- A text of words with separators between them. -/
inductive Spelled : List Kind → List Char → Prop where
  | nil : Spelled [] []
  | single (k : Kind) : Spelled [k] k.text.toList
  | cons (k : Kind) {k' : Kind} {ks : List Kind} {s cs : List Char} : Separator s →
      Spelled (k' :: ks) cs → Spelled (k :: k' :: ks) (k.text.toList ++ (s ++ cs))

/-- Any words can be written so. -/
theorem exists_spelled (ks : List Kind) : ∃ cs, Spelled ks cs := by
  induction ks with
  | nil => exact ⟨[], .nil⟩
  | cons k ks ih =>
    cases ks with
    | nil => exact ⟨_, .single k⟩
    | cons k' ks =>
      obtain ⟨cs, hcs⟩ := ih
      exact ⟨_, .cons k (.mk (c := ' ') rfl .nil) hcs⟩

/-- Words with separators where they need them spell these words. -/
theorem Spelled.spells {ks : List Kind} (h : Spelled ks cs) (hks : ∀ k ∈ ks, k.WellFormed) :
    Spells cs ks := by
  induction h with
  | nil => exact .nil .nil
  | single k =>
    rw [← List.append_nil k.text.toList]
    exact .cons .nil (hks k List.mem_cons_self) k.ends_nil (.nil .nil)
  | cons k hs _ ih =>
    have hrest := (ih fun j hj => hks j (List.mem_cons_of_mem k hj)).behind hs.gap
    refine .cons .nil (hks k List.mem_cons_self) ?_ hrest
    obtain ⟨hc, -⟩ := hs
    exact k.ends_blank hc _

/-- A word about which there is nothing to say is in its form. -/
theorem Lexeme.Formed.wellFormed {lexeme : Lexeme} {k : Kind} (h : lexeme.Formed)
    (hkind : lexeme.kind? = some k) (hcode : lexeme.sort.code? = none) : k.WellFormed := by
  cases h with
  | token hk =>
    cases hkind
    exact hk
  | openString => cases hcode
  | bareRadix => cases hcode
  | _ => cases hkind

/-- What is scanned without a report is in its form. -/
theorem Document.wellFormed_of_quiet (h : doc.scan.log.hasErrors = false) :
    ∃ ks, doc.kinds = ks ++ [.eof] ∧ ∀ k ∈ ks, k.WellFormed := by
  obtain ⟨pieces, htiles, -, htokens, hlog⟩ :=
    Scan.go_tiles doc #[] Log.empty Place.start doc.text.toList
  refine ⟨(pieces.filterMap Piece.token?).map Token.kind, ?_, fun k hk => ?_⟩
  · have hkinds := congrArg (List.map Token.kind) htokens
    unfold tokensOf at hkinds
    rw [List.nil_append, List.map_append] at hkinds
    exact hkinds
  · obtain ⟨t, ht, rfl⟩ := List.mem_map.1 hk
    obtain ⟨p, hp, htoken⟩ := List.mem_filterMap.1 ht
    obtain ⟨before, behind, rfl⟩ := List.append_of_mem hp
    obtain ⟨htotal, -⟩ := Log.foldl_push
      ((before ++ p :: behind).filterMap (Piece.diagnostic? doc)) Log.empty (Nat.zero_le _)
    have hzero : doc.scan.log.total = 0 := Nat.eq_zero_of_not_pos (of_decide_eq_false h)
    have hlength : 0 + ((before ++ p :: behind).filterMap (Piece.diagnostic? doc)).length = 0 :=
      htotal.symm.trans ((congrArg Log.total hlog).symm.trans hzero)
    rw [Nat.zero_add, List.length_eq_zero_iff, List.filterMap_eq_nil_iff] at hlength
    have hcode := p.diagnostic?_eq doc
    rw [hlength p hp, Option.map_none] at hcode
    exact htiles.split.2.2.wellFormed (Piece.token?_eq_some htoken).1
      (Option.map_eq_none_iff.1 hcode.symm)

/-- **Scanning and writing undo each other.**  Words that are written in their forms with separators
between them are scanned as these words, and nothing is reported.  And all that is scanned without a
report is such words, so they can be written, and scanning what was written of them gives the same
words again. -/
theorem scan_spelled :
    (∀ (ks : List Kind) (doc : Document), (∀ k ∈ ks, k.WellFormed) → Spelled ks doc.text.toList →
      doc.kinds = ks ++ [.eof] ∧ doc.scan.log = Log.empty) ∧
    (∀ doc : Document, doc.scan.log.hasErrors = false →
      ∃ ks, doc.kinds = ks ++ [.eof] ∧ (∀ k ∈ ks, k.WellFormed) ∧ (∃ cs, Spelled ks cs) ∧
        ∀ doc' : Document, Spelled ks doc'.text.toList →
          doc'.kinds = doc.kinds ∧ doc'.scan.log = Log.empty) := by
  have hspelled : ∀ (ks : List Kind) (doc : Document), (∀ k ∈ ks, k.WellFormed) →
      Spelled ks doc.text.toList → doc.kinds = ks ++ [.eof] ∧ doc.scan.log = Log.empty :=
    fun ks doc hks h => Document.kinds_of_spells (h.spells hks)
  refine ⟨hspelled, fun doc hquiet => ?_⟩
  obtain ⟨ks, hkinds, hks⟩ := Document.wellFormed_of_quiet hquiet
  refine ⟨ks, hkinds, hks, exists_spelled ks, fun doc' h => ?_⟩
  rw [hkinds]
  exact hspelled ks doc' hks h

/-- Words of many kinds. -/
def mixedWords : List Kind :=
  [.int "0x2F", .symbol .slash, .float "1.5e-3", .identifier "iffy", .keyword .if,
    .string "\"é\\\"//\""]

/-- The words with comments between them, one of which looks like an end and one like a word. -/
def mixedSpelling : Document where
  name := "mixed"
  text := "0x2F /* * / */ / \n1.5e-3\t// if\niffy \r\nif \"é\\\"//\""

theorem mixedWords_wellFormed : ∀ k ∈ mixedWords, k.WellFormed := by
  have hone : Run Char.isDigit ['1'] := .of_all nofun rfl
  have hfraction : FractionForm ['.', '5'] := .digits (.of_all nofun rfl)
  have hexponent : ExponentForm ('e' :: (['-'] ++ ['3'])) :=
    .digits (.inl rfl) .minus (.of_all nofun rfl)
  have hfloat : FloatForm "1.5e-3".toList := .mk hone hfraction hexponent rfl
  have hslash : StringBody ['/', '/'] :=
    .plain (by decide) (by decide) (by decide) (.plain (by decide) (by decide) (by decide) .nil)
  have hstring : StringForm "\"é\\\"//\"".toList :=
    .mk (.plain (by decide) (by decide) (by decide) (.escape (by decide) hslash))
  simp only [mixedWords, List.forall_mem_cons]
  exact ⟨.hex (.of_all nofun rfl), trivial, hfloat, ⟨.mk rfl (List.all_eq_true.1 rfl), by decide⟩, trivial,
    hstring, nofun⟩

theorem mixedSpelling_spelled : Spelled mixedWords mixedSpelling.text.toList := by
  have hcomment : Separator " /* * / */ ".toList := by
    refine .mk (c := ' ') rfl (@Gap.blockComment " * / ".toList _ ?_ (.blank rfl .nil))
    unfold Unclosed
    decide
  have hline : Separator "\t// if\n".toList :=
    .mk (c := '\t') rfl (@Gap.lineComment " if".toList _ (by decide) .nil)
  exact .cons _ hcomment (.cons (s := " \n".toList) _ (.mk rfl (.blank rfl .nil)) (.cons _ hline
    (.cons (s := " \r\n".toList) _ (.mk rfl (.blank rfl (.blank rfl .nil)))
      (.cons (s := " ".toList) _ (.mk rfl .nil) (.single _)))))

theorem mixedSpelling_scanned :
    (∀ k ∈ mixedWords, k.WellFormed) ∧ Spelled mixedWords mixedSpelling.text.toList ∧
      mixedSpelling.kinds = mixedWords ++ [.eof] ∧ mixedSpelling.scan.log.hasErrors = false ∧
      ∃ ks, mixedSpelling.kinds = ks ++ [.eof] ∧ ∀ doc : Document,
        Spelled ks doc.text.toList → doc.kinds = mixedSpelling.kinds := by
  obtain ⟨hkinds, hlog⟩ :=
    scan_spelled.1 mixedWords mixedSpelling mixedWords_wellFormed mixedSpelling_spelled
  have hquiet : mixedSpelling.scan.log.hasErrors = false := by
    rw [hlog]
    rfl
  obtain ⟨ks, hks, -, -, hback⟩ := scan_spelled.2 mixedSpelling hquiet
  exact ⟨mixedWords_wellFormed, mixedSpelling_spelled, hkinds, hquiet, ks, hks,
    fun doc h => (hback doc h).1⟩

end SmallScript
