/-
  The form of words.

  Here it is said what numbers, strings and names look like (`Kind.WellFormed`) and what there is
  between words (`Lexeme.Formed`), without a word on how they are found.  All that is cut off a
  text has its form (`Lexeme.formed_cut`), so what follows is proved from the forms.
-/
import SmallScript.Token.Scan

namespace SmallScript

open Lexeme (isBlank isHexDigit isWordStart isWordPart)

/-! ## Classes of characters -/

/-- A blank ends a word. -/
theorem isWordPart_of_isBlank {c : Char} (h : isBlank c = true) : isWordPart c = false := by
  unfold isBlank at h
  simp only [Bool.or_eq_true, beq_iff_eq] at h
  rcases h with ((rfl | rfl) | rfl) | rfl <;> rfl

/-- What begins a word may go on with it. -/
theorem isWordPart_of_isWordStart {c : Char} (h : isWordStart c = true) : isWordPart c = true := by
  simp only [isWordStart, isWordPart, Char.isAlphanum, Bool.or_eq_true] at h ⊢
  exact h.imp_left Or.inl

/-- Digits go on with a word. -/
theorem isWordPart_of_isDigit {c : Char} (h : c.isDigit = true) : isWordPart c = true := by
  unfold isWordPart Char.isAlphanum
  rw [h, Bool.or_true, Bool.true_or]

theorem isWordPart_of_isHexDigit {c : Char} (h : isHexDigit c = true) : isWordPart c = true := by
  unfold isHexDigit Char.isDigit at h
  unfold isWordPart Char.isAlphanum Char.isAlpha Char.isUpper Char.isLower Char.isDigit
  simp only [Bool.or_eq_true, Bool.and_eq_true, decide_eq_true_eq, Char.le_def, beq_iff_eq,
    ge_iff_le, UInt32.le_iff_toNat_le] at h ⊢
  change ((48 ≤ c.toNat ∧ c.toNat ≤ 57) ∨ (97 ≤ c.toNat ∧ c.toNat ≤ 102)) ∨
    (65 ≤ c.toNat ∧ c.toNat ≤ 70) at h
  change (((65 ≤ c.toNat ∧ c.toNat ≤ 90) ∨ (97 ≤ c.toNat ∧ c.toNat ≤ 122)) ∨
    (48 ≤ c.toNat ∧ c.toNat ≤ 57)) ∨ c = '_'
  omega

/-- No word begins with a digit. -/
theorem isDigit_of_isWordStart {c : Char} (h : isWordStart c = true) : c.isDigit = false := by
  rw [Bool.eq_false_iff]
  intro hdigit
  unfold Char.isDigit at hdigit
  unfold isWordStart Char.isAlpha Char.isUpper Char.isLower at h
  simp only [Bool.or_eq_true, Bool.and_eq_true, decide_eq_true_eq, beq_iff_eq,
    ge_iff_le, UInt32.le_iff_toNat_le] at h hdigit
  change 48 ≤ c.toNat ∧ c.toNat ≤ 57 at hdigit
  rcases h with h | rfl
  · change (65 ≤ c.toNat ∧ c.toNat ≤ 90) ∨ (97 ≤ c.toNat ∧ c.toNat ≤ 122) at h
    omega
  · exact absurd hdigit.2 (by decide)

theorem isBlank_of_isWordPart {c : Char} (h : isWordPart c = true) : isBlank c = false := by
  rw [Bool.eq_false_iff]
  intro hblank
  rw [isWordPart_of_isBlank hblank] at h
  cases h

/-- What cannot stand in a word is neither a digit nor a mark of an exponent or a base. -/
theorem of_not_isWordPart {p : Char → Bool} (hp : ∀ c, p c = true → isWordPart c = true) {c : Char}
    (h : isWordPart c = false) : p c = false := by
  rw [Bool.eq_false_iff]
  intro hc
  rw [hp c hc] at h
  cases h

/-! ## Forms -/

/-- Some characters of one class, at least one. -/
structure Run (p : Char → Bool) (cs : List Char) : Prop where
  ne_nil : cs ≠ []
  all : ∀ c ∈ cs, p c = true

/-- Characters of one class are a run, if there are any. -/
theorem Run.of_all {p : Char → Bool} {cs : List Char} (hne : cs ≠ []) (h : cs.all p = true) :
    Run p cs := ⟨hne, List.all_eq_true.1 h⟩

/-- A number is written as a run of digits. -/
theorem run_toDigits (n : Nat) : Run Char.isDigit (Nat.toDigits 10 n) where
  ne_nil := Nat.toDigits_ne_nil
  all _ hc := Nat.isDigit_of_mem_toDigits (by decide) (by decide) hc

/-- Whole numbers are written with their digits, and negative ones with a minus in front. -/
theorem toList_toString (n : Int) : (toString n).toList =
    if n < 0 then '-' :: Nat.toDigits 10 n.natAbs else Nat.toDigits 10 n.natAbs := by
  cases n with
  | ofNat m =>
    rw [if_neg (Int.not_lt.2 (Int.natCast_nonneg m) : ¬ Int.ofNat m < 0)]
    exact Nat.toList_repr
  | negSucc m =>
    rw [if_pos (Int.negSucc_lt_zero m)]
    change ("-" ++ (m + 1).repr).toList = _
    rw [String.toList_append, Nat.toList_repr]
    rfl

/-- Integers are decimal, or announce their base. -/
inductive IntForm : List Char → Prop where
  | decimal {ds : List Char} : Run Char.isDigit ds → IntForm ds
  | hex {ds : List Char} : Run isHexDigit ds → IntForm ('0' :: 'x' :: ds)
  | octal {ds : List Char} : Run Char.isDigit ds → IntForm ('0' :: 'o' :: ds)

/-- A fraction, or none. -/
inductive FractionForm : List Char → Prop where
  | none : FractionForm []
  | digits {ds : List Char} : Run Char.isDigit ds → FractionForm ('.' :: ds)

inductive SignForm : List Char → Prop where
  | none : SignForm []
  | plus : SignForm ['+']
  | minus : SignForm ['-']

/-- An exponent, or none. -/
inductive ExponentForm : List Char → Prop where
  | none : ExponentForm []
  | digits {e : Char} {sign ds : List Char} : e = 'e' ∨ e = 'E' → SignForm sign →
      Run Char.isDigit ds → ExponentForm (e :: (sign ++ ds))

/-- Floats have a fraction or an exponent behind their digits. -/
inductive FloatForm : List Char → Prop where
  | mk {whole fraction exponent : List Char} : Run Char.isDigit whole → FractionForm fraction →
      ExponentForm exponent → (fraction.isEmpty && exponent.isEmpty) = false →
      FloatForm (whole ++ (fraction ++ exponent))

/-- What can stand between the quotes of a string: no line feed, no quote and no backslash, except
that a backslash takes the next character with it. -/
inductive StringBody : List Char → Prop where
  | nil : StringBody []
  | plain {c : Char} {body : List Char} : c ≠ '"' → c ≠ '\\' → c ≠ '\n' → StringBody body →
      StringBody (c :: body)
  | escape {c : Char} {body : List Char} : c ≠ '\n' → StringBody body →
      StringBody ('\\' :: c :: body)

inductive StringForm : List Char → Prop where
  | mk {body : List Char} : StringBody body → StringForm ('"' :: (body ++ ['"']))

inductive WordForm : List Char → Prop where
  | mk {c : Char} {cs : List Char} : isWordStart c = true → (∀ d ∈ cs, isWordPart d = true) →
      WordForm (c :: cs)

/-- A kind that is written as words of this kind are.  The end of a text is not written. -/
def Kind.WellFormed : Kind → Prop
  | .int raw => IntForm raw.toList
  | .float raw => FloatForm raw.toList
  | .string raw => StringForm raw.toList
  | .identifier name => WordForm name.toList ∧ Keyword.ofText? name = none
  | .keyword _ | .symbol _ => True
  | .eof => False

variable {cs : List Char}

theorem Kind.wellFormed_int : (Kind.int (String.ofList cs)).WellFormed ↔ IntForm cs := by
  rw [WellFormed, String.toList_ofList]

theorem Kind.wellFormed_float : (Kind.float (String.ofList cs)).WellFormed ↔ FloatForm cs := by
  rw [WellFormed, String.toList_ofList]

/-- The text of a string token has the form of a string. -/
theorem Kind.wellFormed_string : (Kind.string (String.ofList cs)).WellFormed ↔ StringForm cs := by
  rw [WellFormed, String.toList_ofList]

/-- Two bodies of strings, one behind the other, are one. -/
theorem StringBody.append {a b : List Char} (ha : StringBody a)
    (hb : StringBody b) : StringBody (a ++ b) := by
  induction ha with
  | nil => exact hb
  | plain hquote hback hline _ ih => exact .plain hquote hback hline ih
  | escape hline _ ih => exact .escape hline ih

/-- A word is of the kind that it is written as. -/
theorem Kind.text_ofWord (s : String) : (Kind.ofWord s).text = s := by
  unfold ofWord
  split
  · rename_i k hk
    unfold Keyword.ofText? at hk
    have htext := List.find?_some hk
    exact of_decide_eq_true htext
  · rfl

/-- A word is a keyword or a name, and has the form of either. -/
theorem Kind.wellFormed_ofWord {s : String} (h : WordForm s.toList) :
    (Kind.ofWord s).WellFormed := by
  unfold ofWord
  split
  · trivial
  · rename_i hnone
    exact ⟨h, hnone⟩

/-- A text in which no block comment ends. -/
def Unclosed (body : List Char) : Prop := ¬ ['*', '/'] <:+: body

theorem Unclosed.nil : Unclosed [] := fun h => nomatch List.infix_nil.1 h

/-- No block comment ends in `body ++ [c]` unless one ends in `body` or its slash is `c`. -/
theorem Unclosed.concat {body : List Char} {c : Char} (h : Unclosed body)
    (hc : ∀ before, body = before ++ ['*'] → c ≠ '/') : Unclosed (body ++ [c]) := by
  rintro ⟨before, behind, heq⟩
  rcases List.eq_nil_or_concat behind with rfl | ⟨behind, d, rfl⟩
  · rw [List.append_nil, show ['*', '/'] = ['*'] ++ ['/'] from rfl, ← List.append_assoc] at heq
    obtain ⟨hbody, hlast⟩ := List.append_inj' heq rfl
    exact hc before hbody.symm (List.cons.inj hlast).1.symm
  · rw [List.concat_eq_append, ← List.append_assoc] at heq
    exact h ⟨before, behind, (List.append_inj' heq rfl).1⟩

namespace Lexeme

/-- A character that nothing begins with. -/
structure Alien (c : Char) : Prop where
  blank : isBlank c = false
  digit : c.isDigit = false
  word : isWordStart c = false
  quote : c ≠ '"'
  symbol : symbol? c = none

/-- The forms of all that a text falls into. -/
inductive Formed : Lexeme → Prop where
  | blank {c : Char} : isBlank c = true → Formed ⟨.blank, [c]⟩
  | lineComment {body : List Char} : '\n' ∉ body → Formed ⟨.comment, '/' :: '/' :: body⟩
  | blockComment {body : List Char} : Unclosed body →
      Formed ⟨.comment, '/' :: '*' :: (body ++ ['*', '/'])⟩
  | openComment {body : List Char} : Unclosed body → Formed ⟨.openComment, '/' :: '*' :: body⟩
  | token {k : Kind} : k.WellFormed → Formed ⟨.token k, k.text.toList⟩
  | openString {body last : List Char} : StringBody body → last = [] ∨ last = ['\\'] →
      Formed ⟨.openString, '"' :: (body ++ last)⟩
  | bareRadix {x : Char} : x = 'x' ∨ x = 'o' → Formed ⟨.bareRadix, ['0', x]⟩
  | stray {c : Char} : Alien c → Formed ⟨.stray, [c]⟩

/-! ## Numbers -/

/-- What is taken of a class is a run, unless it is empty. -/
theorem run_takeWhile {p : Char → Bool} {cs : List Char} (h : (cs.takeWhile p).isEmpty = false) :
    Run p (cs.takeWhile p) where
  ne_nil hnil := by
    rw [hnil] at h
    cases h
  all := List.all_eq_true.1 List.all_takeWhile

/-- A fraction is a point with digits, or nothing. -/
theorem form_fraction (cs : List Char) : FractionForm (fraction cs).1 := by
  unfold fraction
  split
  · rename_i rest
    cases hdigits : (rest.takeWhile Char.isDigit).isEmpty with
    | true =>
      simp only [hdigits, if_true]
      exact .none
    | false =>
      simp only [hdigits, Bool.false_eq_true, if_false]
      exact .digits (run_takeWhile hdigits)
  · exact .none

/-- A sign is one character, or none. -/
theorem form_sign (cs : List Char) : SignForm (sign cs).1 := by
  unfold sign
  split
  · rename_i c rest
    split
    · rename_i hc
      rw [Bool.or_eq_true, beq_iff_eq, beq_iff_eq] at hc
      rcases hc with rfl | rfl
      · exact .plus
      · exact .minus
    · exact .none
  · exact .none

/-- An exponent is a mark, a sign and digits, or nothing. -/
theorem form_exponent (cs : List Char) : ExponentForm (exponent cs).1 := by
  unfold exponent
  split
  · exact .none
  · rename_i c rest
    split
    · rename_i hc
      rw [Bool.or_eq_true, beq_iff_eq, beq_iff_eq] at hc
      cases hdigits : ((sign rest).2.takeWhile Char.isDigit).isEmpty with
      | true =>
        simp only [hdigits, if_true]
        exact .none
      | false =>
        simp only [hdigits, Bool.false_eq_true, if_false]
        exact .digits hc (form_sign rest) (run_takeWhile hdigits)
    · exact .none

/-- So a number in decimal is an integer if neither follows its digits, and else a float. -/
theorem formed_decimalNumber {cs : List Char} (h : (cs.takeWhile Char.isDigit).isEmpty = false) :
    (decimalNumber cs).1.Formed := by
  unfold decimalNumber
  dsimp only
  have hwhole := run_takeWhile h
  have hfraction := form_fraction (cs.dropWhile Char.isDigit)
  have hexponent := form_exponent (fraction (cs.dropWhile Char.isDigit)).2
  generalize (fraction (cs.dropWhile Char.isDigit)).2 = rest at hexponent ⊢
  generalize (fraction (cs.dropWhile Char.isDigit)).1 = f at hfraction ⊢
  generalize (exponent rest).1 = x at hexponent ⊢
  generalize cs.takeWhile Char.isDigit = whole at hwhole ⊢
  have htoken : ∀ k : Kind, k.text = String.ofList (whole ++ (f ++ x)) → k.WellFormed →
      Formed ⟨.token k, whole ++ (f ++ x)⟩ := by
    intro k htext hk
    have hformed := Formed.token hk
    rwa [htext, String.toList_ofList] at hformed
  cases hplain : f.isEmpty && x.isEmpty with
  | true =>
    rw [Bool.and_eq_true, List.isEmpty_iff, List.isEmpty_iff] at hplain
    refine htoken (.int _) rfl ?_
    rw [Kind.wellFormed_int, hplain.1, hplain.2, List.append_nil, List.append_nil]
    exact .decimal hwhole
  | false =>
    exact htoken (.float _) rfl
      (Kind.wellFormed_float.2 (.mk hwhole hfraction hexponent hplain))

/-- A number that announces its base has digits, or it is bare. -/
theorem formed_radixNumber {x : Char} {p : Char → Bool} (hx : x = 'x' ∨ x = 'o')
    (hform : ∀ ds, Run p ds → IntForm ('0' :: x :: ds)) (cs : List Char) :
    (radixNumber ['0', x] p cs).1.Formed := by
  unfold radixNumber
  dsimp only
  cases hdigits : (cs.takeWhile p).isEmpty with
  | true =>
    rw [List.isEmpty_iff.1 hdigits]
    exact .bareRadix hx
  | false =>
    have hformed := Formed.token (Kind.wellFormed_int.2 (hform _ (run_takeWhile hdigits)))
    rwa [Kind.text, String.toList_ofList] at hformed

/-- A number in another base has its mark and its digits, or it is reported. -/
theorem formed_number {c : Char} (hc : c.isDigit = true) (rest : List Char) :
    (number (c :: rest)).1.Formed := by
  unfold number
  split
  · exact formed_radixNumber (.inl rfl) (fun _ => .hex) _
  · exact formed_radixNumber (.inr rfl) (fun _ => .octal) _
  · refine formed_decimalNumber ?_
    rw [List.takeWhile_cons, if_pos hc]
    rfl

/-! ## Comments, strings and words -/

/-- By induction on the characters: what has been seen holds no end of a comment. -/
theorem formed_blockComment (seen cs : List Char) {body : List Char}
    (hseen : seen.reverse = '/' :: '*' :: body) (hbody : Unclosed body)
    (hstar : ∀ before rest, body = before ++ ['*'] → cs ≠ '/' :: rest) :
    (blockComment seen cs).1.Formed := by
  fun_induction blockComment seen cs generalizing body with
  | case1 seen rest =>
    rw [List.reverse_cons, List.reverse_cons, hseen]
    have hformed := Formed.blockComment hbody
    rwa [show ['*', '/'] = ['*'] ++ ['/'] from rfl, ← List.append_assoc] at hformed
  | case2 seen c rest hopen ih =>
    refine @ih (body ++ [c]) ?_ ?_ ?_
    · rw [List.reverse_cons, hseen]
      rfl
    · refine hbody.concat fun before hbefore hc => ?_
      exact hstar before rest hbefore (congrArg (· :: rest) hc)
    · rintro before rest' hbefore rfl
      obtain ⟨-, hc⟩ := List.append_inj' hbefore rfl
      exact hopen rest' (List.cons.inj hc).1 rfl
  | case3 seen =>
    rw [hseen]
    exact .openComment hbody

/-- By induction on the characters: what has been seen is the body of a string. -/
theorem formed_string (seen cs : List Char) {body : List Char} (hseen : seen.reverse = '"' :: body)
    (hbody : StringBody body) : (string seen cs).1.Formed := by
  have hopen : ∀ (seen body : List Char), seen.reverse = '"' :: body → StringBody body →
      Formed ⟨.openString, seen.reverse⟩ := by
    intro seen body hseen hbody
    have hformed := Formed.openString hbody (.inl rfl)
    rwa [List.append_nil, ← hseen] at hformed
  have hbackslash : ∀ (seen body : List Char), seen.reverse = '"' :: body → StringBody body →
      Formed ⟨.openString, ('\\' :: seen).reverse⟩ := by
    intro seen body hseen hbody
    rw [List.reverse_cons, hseen]
    exact .openString hbody (.inr rfl)
  fun_induction string seen cs generalizing body with
  | case1 seen rest =>
    rw [List.reverse_cons, hseen]
    have hformed := Formed.token (Kind.wellFormed_string.2 (.mk hbody))
    rwa [Kind.text, String.toList_ofList] at hformed
  | case2 seen rest => exact hbackslash seen body hseen hbody
  | case3 seen c rest hc ih =>
    refine @ih (body ++ ['\\', c]) ?_ (hbody.append (.escape hc .nil))
    rw [List.reverse_cons, List.reverse_cons, hseen]
    simp
  | case4 seen rest => exact hopen seen body hseen hbody
  | case5 seen c rest hquote hescape hc ih =>
    by_cases hback : c = '\\'
    · -- The text ends in a backslash, which takes nothing with it.
      subst hback
      cases rest with
      | nil => exact hbackslash seen body hseen hbody
      | cons d rest => exact absurd rfl (hescape d rest rfl)
    · refine @ih (body ++ [c]) ?_ (hbody.append (.plain hquote hback hc .nil))
      rw [List.reverse_cons, hseen]
      rfl
  | case6 seen => exact hopen seen body hseen hbody

/-- A word is what is taken of its class. -/
theorem formed_word {c : Char} (hc : isWordStart c = true) (rest : List Char) :
    (word (c :: rest)).1.Formed := by
  have hpart : isWordPart c = true := isWordPart_of_isWordStart hc
  have htext : (c :: rest).takeWhile isWordPart = c :: rest.takeWhile isWordPart := by
    rw [List.takeWhile_cons, if_pos hpart]
  unfold word
  rw [htext]
  dsimp only
  have hform : WordForm (String.ofList (c :: rest.takeWhile isWordPart)).toList := by
    rw [String.toList_ofList]
    exact .mk hc (List.all_eq_true.1 List.all_takeWhile)
  have hformed := Formed.token (Kind.wellFormed_ofWord hform)
  rwa [Kind.text_ofWord, String.toList_ofList] at hformed

/-! ## Symbols -/

/-- A symbol of one character is written with it. -/
theorem text_of_symbol? {c : Char} {s : Symbol} (h : symbol? c = some s) :
    s.text.toList = [c] := by
  unfold symbol? at h
  split at h <;> cases h <;> rfl

/-- A symbol of two characters ends with an equals sign. -/
theorem text_of_doubled? {c : Char} {s : Symbol} (h : doubled? c = some s) :
    s.text.toList = [c, '='] := by
  unfold doubled? at h
  split at h <;> cases h <;> rfl

/-- What is none of all these is a symbol, or a character that is reported. -/
theorem formed_symbol {c : Char} (hblank : isBlank c = false) (hdigit : c.isDigit = false)
    (hword : isWordStart c = false) (hquote : c ≠ '"') (rest : List Char) :
    (symbol c rest).1.Formed := by
  have htoken : ∀ s : Symbol, Formed ⟨.token (.symbol s), s.text.toList⟩ :=
    fun _ => Formed.token (k := .symbol _) trivial
  unfold symbol
  split
  · rename_i s _ hdoubled
    rw [← text_of_doubled? hdoubled]
    exact htoken s
  · split
    · rename_i s hsymbol
      rw [← text_of_symbol? hsymbol]
      exact htoken s
    · rename_i hnone
      exact .stray ⟨hblank, hdigit, hword, hquote, hnone⟩

/-! ## All that is cut off -/

/-- What is cut off a text has the form of its sort. -/
theorem formed_cut (c : Char) (rest : List Char) : (cut c rest).1.Formed := by
  unfold cut
  split
  · rename_i hblank
    exact .blank hblank
  · rename_i hblank
    split
    · rename_i hdigit
      exact formed_number hdigit rest
    · rename_i hdigit
      split
      · rename_i hword
        exact formed_word hword rest
      · rename_i hword
        split
        · exact formed_string _ _ rfl .nil
        · rename_i hquote
          split
          · refine .lineComment fun h => ?_
            have hline := List.all_eq_true.1 List.all_takeWhile _ h
            simp at hline
          · exact formed_blockComment _ _ rfl .nil fun _ _ h => by simp at h
          · exact formed_symbol (Bool.eq_false_iff.2 hblank) (Bool.eq_false_iff.2 hdigit)
              (Bool.eq_false_iff.2 hword) hquote _

end Lexeme

/-! ## On one line -/

/-- A text on one line that no carriage return ends. -/
structure Inline (cs : List Char) : Prop where
  ne_nil : cs ≠ []
  line : '\n' ∉ cs
  last : cs.getLast? ≠ some '\r'

/-- Characters on the same line may be put in front. -/
theorem Inline.behind {a b : List Char} (ha : '\n' ∉ a) (hb : Inline b) : Inline (a ++ b) where
  ne_nil := List.append_ne_nil_of_right_ne_nil a hb.ne_nil
  line := by
    rw [List.mem_append, not_or]
    exact ⟨ha, hb.line⟩
  last := by
    have hlast := List.getLast?_eq_some_getLast hb.ne_nil
    rw [List.getLast?_append, hlast, Option.some_or, ← hlast]
    exact hb.last

/-- A run stays on its line if line feeds and carriage returns are not of its class. -/
theorem Run.inline {p : Char → Bool} {ds : List Char} (h : Run p ds) (hline : p '\n' = false)
    (hreturn : p '\r' = false) : Inline ds where
  ne_nil := h.ne_nil
  line hmem := Bool.false_ne_true (hline.symm.trans (h.all _ hmem))
  last hlast := Bool.false_ne_true (hreturn.symm.trans (h.all _ (List.mem_of_getLast? hlast)))

theorem Run.inline_digits {ds : List Char} (h : Run Char.isDigit ds) : Inline ds :=
  h.inline rfl rfl

theorem IntForm.inline (h : IntForm cs) : Inline cs := by
  cases h with
  | decimal hds => exact hds.inline_digits
  | hex hds => exact .behind (a := ['0', 'x']) (by decide) (hds.inline rfl rfl)
  | octal hds => exact .behind (a := ['0', 'o']) (by decide) hds.inline_digits

theorem FractionForm.inline (h : FractionForm cs) (hne : cs ≠ []) : Inline cs := by
  cases h with
  | none => exact absurd rfl hne
  | digits hds => exact .behind (a := ['.']) (by decide) hds.inline_digits

theorem ExponentForm.inline (h : ExponentForm cs) (hne : cs ≠ []) : Inline cs := by
  cases h with
  | none => exact absurd rfl hne
  | @digits e sign ds he hsign hds =>
    rw [← List.cons_append]
    refine .behind ?_ hds.inline_digits
    rcases he with rfl | rfl <;> cases hsign <;> decide

/-- A float has no line feed in any of its parts. -/
theorem FloatForm.inline (h : FloatForm cs) : Inline cs := by
  obtain ⟨hwhole, hfraction, hexponent, hsome⟩ := h
  refine .behind hwhole.inline_digits.line ?_
  rename_i f x
  by_cases hx : x = []
  · subst hx
    rw [List.append_nil]
    refine hfraction.inline fun hf => ?_
    subst hf
    cases hsome
  · refine .behind (fun hmem => ?_) (hexponent.inline hx)
    exact (hfraction.inline (List.ne_nil_of_mem hmem)).line hmem

/-- A string does not go over the end of its line. -/
theorem StringBody.line {body : List Char} (h : StringBody body) : '\n' ∉ body := by
  induction h with
  | nil => exact List.not_mem_nil
  | plain _ _ hline _ ih => exact List.not_mem_cons_of_ne_of_not_mem (Ne.symm hline) ih
  | escape hline _ ih =>
    refine List.not_mem_cons_of_ne_of_not_mem (by decide) ?_
    exact List.not_mem_cons_of_ne_of_not_mem (Ne.symm hline) ih

/-- So strings stay on their lines, with the quotes around them. -/
theorem StringForm.inline (h : StringForm cs) : Inline cs := by
  obtain ⟨hbody⟩ := h
  rw [← List.cons_append]
  refine .behind ?_ ⟨nofun, by decide, by decide⟩
  exact List.not_mem_cons_of_ne_of_not_mem (by decide) hbody.line

/-- A word is a run of characters of words. -/
theorem WordForm.run (h : WordForm cs) : Run isWordPart cs := by
  obtain ⟨hc, hcs⟩ := h
  refine ⟨nofun, fun d hd => ?_⟩
  rcases List.mem_cons.1 hd with rfl | hd
  · exact isWordPart_of_isWordStart hc
  · exact hcs d hd

theorem WordForm.inline (h : WordForm cs) : Inline cs := h.run.inline rfl rfl

/-- Keywords have the form of words. -/
theorem Keyword.form (k : Keyword) : WordForm k.text.toList := by
  cases k <;> exact .mk rfl (List.all_eq_true.1 rfl)

/-- No word of a script runs over a line. -/
theorem Kind.WellFormed.inline {k : Kind} (h : k.WellFormed) : Inline k.text.toList := by
  cases k with
  | int raw => exact IntForm.inline h
  | float raw => exact FloatForm.inline h
  | string raw => exact StringForm.inline h
  | identifier name => exact h.1.inline
  | keyword k => exact k.form.inline
  | symbol s => cases s <;> exact ⟨nofun, by decide, by decide⟩
  | eof => cases h

end SmallScript
