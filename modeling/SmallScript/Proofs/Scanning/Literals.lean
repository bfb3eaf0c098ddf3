/-
  What literals mean that a scan lets pass.

  The scan and the readers of literals decide apart from each other which texts are numbers and
  strings.  They agree on the forms: an integer in its form is a numeral whose digits have values in
  its base, save that `0o` announces base seven and takes every decimal digit; a float in its form is
  a decimal number; and a string in its form falls into items, each a character as it is or a
  backslash with a character behind it, so no backslash is left over at its end.

  A scan without a report has nothing but words in their forms, so these are the only ways in which a
  literal can fail (`literals_agree`).
-/
import Mathlib.Data.Nat.Digits.Defs
import Mathlib.Tactic.FinCases
import Mathlib.Tactic.IntervalCases
import SmallScript.Literal
import SmallScript.Proofs.Scanning.Spelling

namespace SmallScript

open Lexeme (isHexDigit)

namespace Literal

variable {base : Nat} {c : Char} {ds cs : List Char} {raw : String}

/-! ## Digits and numerals -/

/-- The value of a digit, in either case. -/
def digitValue (c : Char) : Nat := "0123456789abcdef".toList.idxOf c.toLower

/-- The number that a list of digits stands for, the digit of most weight first. -/
def value (base : Nat) (ds : List Char) : Nat := Nat.ofDigits base (ds.map digitValue).reverse

/-- The number that is reached digit by digit, wrapping around at each step. -/
def wrapped (base : Nat) (ds : List Char) : Int64 :=
  ds.foldl (fun n c => n * Int64.ofNat base + Int64.ofNat (digitValue c)) 0

/-- The digits that the scan knows. -/
def hexDigits : List Char := "0123456789abcdefABCDEF".toList

/-- The digits in base sixteen are twenty-two characters. -/
theorem mem_hexDigits (h : isHexDigit c = true) : c ∈ hexDigits := by
  have hrange : (48 ≤ c.toNat ∧ c.toNat ≤ 57) ∨ (97 ≤ c.toNat ∧ c.toNat ≤ 102) ∨
      (65 ≤ c.toNat ∧ c.toNat ≤ 70) := by
    unfold isHexDigit Char.isDigit at h
    simp only [Bool.or_eq_true, Bool.and_eq_true, decide_eq_true_eq, Char.le_def, ge_iff_le,
      UInt32.le_iff_toNat_le] at h
    exact or_assoc.1 h
  rw [← Char.ofNat_toNat c]
  generalize c.toNat = n at hrange
  rcases hrange with ⟨hlow, hhigh⟩ | ⟨hlow, hhigh⟩ | ⟨hlow, hhigh⟩ <;> interval_cases n <;> decide

/-- They are digits of all bases in which their value is one of a digit. -/
theorem digit?_of_isHexDigit (h : isHexDigit c = true) (base : Nat) :
    digit? base c = if digitValue c < base then some (digitValue c) else none := by
  have hc := mem_hexDigits h
  fin_cases hc <;> rfl

/-- Each of them stands for less than sixteen. -/
theorem digitValue_of_isHexDigit (h : isHexDigit c = true) : digitValue c < 16 := by
  have hc := mem_hexDigits h
  fin_cases hc <;> decide

theorem isHexDigit_of_isDigit (h : c.isDigit = true) : isHexDigit c = true := by
  unfold isHexDigit
  rw [h, Bool.true_or, Bool.true_or]

/-- A decimal digit stands for less than ten, and three of them for seven or more. -/
theorem digitValue_of_isDigit (h : c.isDigit = true) :
    digitValue c < 10 ∧ (digitValue c < 7 ↔ c ∉ ['7', '8', '9']) := by
  have hc := mem_hexDigits (isHexDigit_of_isDigit h)
  revert h
  fin_cases hc <;> decide

theorem isDigit_toLower (h : c.isDigit = true) : c.toLower.isDigit = true := by
  have hc := mem_hexDigits (isHexDigit_of_isDigit h)
  revert h
  fin_cases hc <;> decide

/-- A list of digits is read from left to right. -/
theorem value_eq_foldl (base : Nat) (ds : List Char) :
    value base ds = ds.foldl (fun n c => base * n + digitValue c) 0 := by
  unfold value
  rw [← List.map_reverse, Nat.ofDigits_eq_foldr, List.foldr_map, List.foldl_eq_foldr_reverse]
  congr 1
  funext c n
  exact Nat.add_comm _ _

/-- Wrapping around at each step or once in the end is the same. -/
theorem ofNat_value (base : Nat) (ds : List Char) : Int64.ofNat (value base ds) = wrapped base ds := by
  have hfold : ∀ high, Int64.ofNat (ds.foldl (fun n c => base * n + digitValue c) high) =
      ds.foldl (fun n c => n * Int64.ofNat base + Int64.ofNat (digitValue c)) (Int64.ofNat high) := by
    induction ds with
    | nil => exact fun high => rfl
    | cons c cs ih =>
      intro high
      rw [List.foldl_cons, List.foldl_cons, ih, Int64.ofNat_add, Nat.mul_comm, Int64.ofNat_mul]
  rw [value_eq_foldl]
  exact hfold 0

/-- Whether all digits have values in the base. -/
def fits (base : Nat) (ds : List Char) : Bool := ds.all fun c => decide (digitValue c < base)

/-- By induction on the digits: a value is had if all of them fit the base. -/
theorem valueBehind?_eq (hhex : ∀ c ∈ ds, isHexDigit c = true) (high : Nat) :
    valueBehind? base high ds =
      if fits base ds then some (ds.foldl (fun n c => base * n + digitValue c) high) else none := by
  induction ds generalizing high with
  | nil => rfl
  | cons c cs ih =>
    have hc := digit?_of_isHexDigit (hhex c List.mem_cons_self) base
    have hcs := ih fun d hd => hhex d (List.mem_cons_of_mem c hd)
    unfold fits at hcs ⊢
    rw [valueBehind?, hc, List.all_cons, List.foldl_cons]
    by_cases hlt : digitValue c < base
    · rw [if_pos hlt, Option.bind_some, hcs, decide_eq_true hlt, Bool.true_and]
    · rw [if_neg hlt, Option.bind_none, decide_eq_false hlt, Bool.false_and,
        if_neg Bool.false_ne_true]

/-- A numeral has a value if its digits have values in the base. -/
theorem numeral?_eq (hne : ds ≠ []) (hhex : ∀ c ∈ ds, isHexDigit c = true) :
    numeral? base ds = if fits base ds then some (value base ds) else none := by
  unfold numeral?
  rw [if_neg (mt List.isEmpty_iff.1 hne), valueBehind?_eq hhex, value_eq_foldl]

/-! ## Integers -/

/-- The base that an integer literal is written in, and its digits. -/
inductive Numeral : List Char → Nat → List Char → Prop where
  | decimal {ds : List Char} : Run Char.isDigit ds → Numeral ds 10 ds
  | hex {ds : List Char} : Run isHexDigit ds → Numeral ('0' :: 'x' :: ds) 16 ds
  | octal {ds : List Char} : Run Char.isDigit ds → Numeral ('0' :: 'o' :: ds) 7 ds

/-- A numeral has digits. -/
theorem Numeral.ne_nil {text : List Char} (h : Numeral text base ds) : ds ≠ [] := by
  cases h with
  | decimal hds | hex hds | octal hds => exact hds.ne_nil

/-- An integer in its form is a numeral in one of the bases. -/
theorem exists_numeral {text : List Char} (h : IntForm text) : ∃ base ds, Numeral text base ds := by
  cases h with
  | decimal hds => exact ⟨10, _, .decimal hds⟩
  | hex hds => exact ⟨16, _, .hex hds⟩
  | octal hds => exact ⟨7, _, .octal hds⟩

/-- Digits without a mark are decimal. -/
theorem baseAndDigits_digits {cs : List Char} (hcs : ∀ c ∈ cs, c.isDigit = true) :
    baseAndDigits cs = (10, cs) := by
  unfold baseAndDigits
  split
  · cases hcs 'x' (List.mem_cons_of_mem _ List.mem_cons_self)
  · cases hcs 'o' (List.mem_cons_of_mem _ List.mem_cons_self)
  · rfl

/-- The base of a numeral is announced by its mark. -/
theorem Numeral.baseAndDigits {text : List Char} (h : Numeral text base ds) :
    Literal.baseAndDigits text = (base, ds) := by
  cases h with
  | decimal hds => exact baseAndDigits_digits hds.all
  | hex hds | octal hds => rfl

/-- All of its digits are digits in base sixteen. -/
theorem Numeral.isHexDigit {text : List Char} (h : Numeral text base ds) :
    ∀ c ∈ ds, Lexeme.isHexDigit c = true := by
  cases h with
  | hex hds => exact hds.all
  | decimal hds | octal hds => exact fun c hc => isHexDigit_of_isDigit (hds.all c hc)

/-- Only base seven is announced without looking at the digits. -/
theorem Numeral.fits_iff {text : List Char} (h : Numeral text base ds) :
    fits base ds = true ↔ ¬ (base = 7 ∧ ∃ c ∈ ds, c ∈ ['7', '8', '9']) := by
  unfold fits
  rw [List.all_eq_true]
  cases h with
  | decimal hds =>
    refine iff_of_true (fun c hc => ?_) (fun h => by cases h.1)
    exact decide_eq_true (digitValue_of_isDigit (hds.all c hc)).1
  | hex hds =>
    refine iff_of_true (fun c hc => ?_) (fun h => by cases h.1)
    exact decide_eq_true (digitValue_of_isHexDigit (hds.all c hc))
  | octal hds =>
    rw [not_and, not_exists]
    refine ⟨fun h _ c hc => ?_, fun h c hc => decide_eq_true ?_⟩
    · exact (digitValue_of_isDigit (hds.all c hc.1)).2.1 (of_decide_eq_true (h c hc.1)) hc.2
    · exact (digitValue_of_isDigit (hds.all c hc)).2.2 fun hmem => h rfl c ⟨hc, hmem⟩

/-- An integer literal denotes its value wrapped around, unless it has digits that its base does
not have. -/
theorem int_eq (h : Numeral raw.toList base ds) :
    int raw = if fits base ds then .ok (wrapped base ds) else .error (.invalidLiteral "int" raw) := by
  unfold int
  rw [h.baseAndDigits]
  dsimp only
  rw [numeral?_eq h.ne_nil h.isHexDigit]
  cases fits base ds with
  | true => rw [if_pos rfl, if_pos rfl, ← ofNat_value]
  | false => rfl

/-- What does not fit 64 bits wraps around. -/
theorem toInt_wrapped (base : Nat) (ds : List Char) :
    (wrapped base ds).toInt = (value base ds : Int).bmod (2 ^ 64) := by
  rw [← ofNat_value]
  exact Int64.toInt_ofNat'

example : int "0o10" = .ok 7 := rfl

/-! ## Floats -/

/-- A digit is not a sign. -/
theorem readSign_digit (hc : c.isDigit = true) (rest : List Char) :
    Double.readSign (c :: rest) = (false, c :: rest) := by
  unfold Double.readSign
  split
  · rename_i heq
    cases heq
    cases hc
  · rename_i heq
    cases heq
    cases hc
  · rfl

/-- An exponent in its form is read. -/
theorem readExponent?_of_form {x : List Char} (h : ExponentForm x) :
    ∃ e, Double.readExponent? x = some e := by
  cases h with
  | none => exact ⟨0, rfl⟩
  | @digits e sign ds he hsign hds =>
    have hsigned : (Double.readSign (sign ++ ds)).2 = ds := by
      cases hsign with
      | plus => rfl
      | minus => rfl
      | none =>
        obtain ⟨d, ds, rfl⟩ := List.exists_cons_of_ne_nil hds.ne_nil
        rw [List.nil_append, readSign_digit (hds.all d List.mem_cons_self)]
    have hall : ds.all Char.isDigit = true := List.all_eq_true.2 hds.all
    have hempty : ds.isEmpty = false := by simpa using hds.ne_nil
    have hmark : (e == 'e' || e == 'E') = true := by
      rw [Bool.or_eq_true, beq_iff_eq, beq_iff_eq]
      exact he
    unfold Double.readExponent?
    dsimp only
    rw [if_pos hmark, hsigned, hall, hempty, if_neg (by decide)]
    exact ⟨_, rfl⟩

/-- Digits on both sides of a point are read as one number, shifted by those behind the point. -/
theorem readDecimal?_pointed {whole fraction x : List Char} {e : Int} (hwhole : Run Char.isDigit whole)
    (hfraction : Run Char.isDigit fraction) (hx : ExponentForm x)
    (he : Double.readExponent? x = some e) :
    Double.readDecimal? (whole ++ '.' :: (fraction ++ x)) =
      some (Double.nearestDecimal (digitsValue (whole ++ fraction)) (e - fraction.length)) := by
  have hpoint : Stops Char.isDigit ('.' :: (fraction ++ x)) := .cons rfl _
  have hend : Stops Char.isDigit x := hx.stops rfl rfl
  have hempty : whole.isEmpty = false := by simpa using hwhole.ne_nil
  unfold Double.readDecimal?
  rw [hpoint.takeWhile hwhole.all, hpoint.dropWhile hwhole.all]
  simp only [hend.takeWhile hfraction.all, hend.dropWhile hfraction.all, hempty, Bool.false_and, he]
  rfl

/-- Digits with a fraction or an exponent behind them are a number. -/
theorem readDecimal?_of_form {text : List Char} (h : FloatForm text) :
    ∃ m, Double.readDecimal? text = some m := by
  obtain ⟨hwhole, hf, hx, -⟩ := h
  rename_i whole f x
  obtain ⟨e, he⟩ := readExponent?_of_form hx
  cases hf with
  | none =>
    -- An exponent does not begin with a point.
    have hpoint : ∀ rest, x ≠ '.' :: rest := by
      rintro rest rfl
      cases hx.stops (p := (· == '.')) rfl rfl '.' rfl
    have hexponent : Stops Char.isDigit x := hx.stops rfl rfl
    have hempty : whole.isEmpty = false := by simpa using hwhole.ne_nil
    unfold Double.readDecimal?
    rw [List.nil_append, hexponent.takeWhile hwhole.all, hexponent.dropWhile hwhole.all]
    simp only [hempty, Bool.false_and, he]
    exact ⟨_, rfl⟩
  | digits hds => exact ⟨_, readDecimal?_pointed hwhole hds hx he⟩

/-- A float begins with a digit. -/
theorem head_of_form {text : List Char} (h : FloatForm text) :
    ∃ c rest, text = c :: rest ∧ c.isDigit = true := by
  obtain ⟨hwhole, -, -, -⟩ := h
  obtain ⟨c, cs, rfl⟩ := List.exists_cons_of_ne_nil hwhole.ne_nil
  exact ⟨c, _, rfl, hwhole.all c List.mem_cons_self⟩

/-- A text that begins with a digit, or with a minus and a digit, is no word but a decimal number. -/
theorem ofText?_of_digit {negative : Bool} {rest : List Char} (hc : c.isDigit = true)
    (hraw : raw.toList = (if negative then ['-'] else []) ++ c :: rest) :
    Double.ofText? raw = (Double.readDecimal? (c :: rest)).map (Double.ofParts negative) := by
  have hlower := isDigit_toLower hc
  have hword : ∀ d word, d.isDigit = false → (c :: rest).map Char.toLower ≠ d :: word := by
    intro d word hd heq
    rw [List.map_cons] at heq
    rw [(List.cons.inj heq).1, hd] at hlower
    cases hlower
  have hinf : ¬ (c :: rest).map Char.toLower = "inf".toList := hword 'i' _ rfl
  have hinfinity : ¬ (c :: rest).map Char.toLower = "infinity".toList := hword 'i' _ rfl
  have hnan : ¬ (c :: rest).map Char.toLower = "nan".toList := hword 'n' _ rfl
  have hsign : Double.readSign raw.toList = (negative, c :: rest) := by
    rw [hraw]
    cases negative with
    | true => rfl
    | false => exact readSign_digit hc rest
  unfold Double.ofText?
  rw [hsign]
  dsimp only
  rw [decide_eq_false hinf, decide_eq_false hinfinity, Bool.false_or, if_neg Bool.false_ne_true,
    if_neg hnan]

/-- A float in its form is neither signed nor a word, so it is read as digits. -/
theorem float_of_form (h : FloatForm raw.toList) : ∃ x, float raw = .ok x := by
  obtain ⟨m, hm⟩ := readDecimal?_of_form h
  obtain ⟨c, rest, hraw, hc⟩ := head_of_form h
  rw [hraw] at hm
  refine ⟨Double.ofParts false m, ?_⟩
  have hread := @ofText?_of_digit c raw false rest hc hraw
  unfold float
  rw [hread, hm]
  rfl

/-! ## Strings -/

/-- What stands between the quotes of a string: a character as it is, or one behind a backslash. -/
inductive Item where
  | plain (c : Char)
  | escape (c : Char)

namespace Item

def text : Item → List Char
  | plain c => [c]
  | escape c => ['\\', c]

/-- The scan lets the item pass. -/
def Legal : Item → Prop
  | plain c => c ≠ '"' ∧ c ≠ '\\' ∧ c ≠ '\n'
  | escape c => c ≠ '\n'

/-- What is meant by an item; some escapes mean nothing. -/
def meaning? : Item → Option Char
  | plain c => some c
  | escape c => escaped? c

end Item

variable {items before after : List Item}

/-- What stands between quotes falls into items. -/
theorem exists_items {body : List Char} (h : StringBody body) :
    ∃ items : List Item, (∀ i ∈ items, i.Legal) ∧ items.flatMap Item.text = body := by
  induction h with
  | nil => exact ⟨[], fun i hi => absurd hi List.not_mem_nil, rfl⟩
  | @plain c body hquote hback hline _ ih =>
    obtain ⟨items, hlegal, rfl⟩ := ih
    exact ⟨.plain c :: items, List.forall_mem_cons.2 ⟨⟨hquote, hback, hline⟩, hlegal⟩, rfl⟩
  | @escape c body hline _ ih =>
    obtain ⟨items, hlegal, rfl⟩ := ih
    exact ⟨.escape c :: items, List.forall_mem_cons.2 ⟨hline, hlegal⟩, rfl⟩

/-- A text with its escapes resolved, where a backslash that nothing follows gives `lone`. -/
def resolveOr (lone : Except Fault (List Char)) : List Char → Except Fault (List Char)
  | [] => .ok []
  | ['\\'] => lone
  | '\\' :: c :: rest =>
    match escaped? c with
    | some d => (resolveOr lone rest).map (d :: ·)
    | none => .error (.undefinedEscape c)
  | c :: rest => (resolveOr lone rest).map (c :: ·)

/-- A backslash that nothing follows is dropped. -/
theorem resolve_eq (cs : List Char) : resolve cs = resolveOr (.ok []) cs := by
  fun_induction resolve cs with
  | case1 => rfl
  | case2 => rfl
  | case3 c rest d hd ih => rw [resolveOr, hd, ih]
  | case4 c rest hd => rw [resolveOr, hd]
  | case5 c rest hlone hescape ih => rw [resolveOr, ih] <;> assumption

variable {lone : Except Fault (List Char)}

/-- A character that is no backslash stands for itself. -/
theorem resolveOr_plain (hback : c ≠ '\\') (rest : List Char) :
    resolveOr lone (c :: rest) = (resolveOr lone rest).map (c :: ·) := by
  rw [resolveOr]
  · exact fun h _ => hback h
  · exact fun _ _ h _ => hback h

/-- What an item means stands before what follows it. -/
theorem resolveOr_item {i : Item} {d : Char} (hlegal : i.Legal) (hd : i.meaning? = some d)
    (rest : List Char) : resolveOr lone (i.text ++ rest) = (resolveOr lone rest).map (d :: ·) := by
  cases i with
  | plain c =>
    cases hd
    exact resolveOr_plain hlegal.2.1 rest
  | escape c =>
    have hescaped : escaped? c = some d := hd
    show resolveOr lone ('\\' :: c :: rest) = _
    rw [resolveOr, hescaped]

/-- Items that mean something are passed, whatever follows them. -/
theorem resolveOr_append (hlegal : ∀ i ∈ before, i.Legal)
    (hmeaning : before.map Item.meaning? = cs.map some) (rest : List Char) :
    resolveOr lone (before.flatMap Item.text ++ rest) = (resolveOr lone rest).map (cs ++ ·) := by
  induction before generalizing cs with
  | nil =>
    obtain rfl : cs = [] := List.map_eq_nil_iff.1 hmeaning.symm
    show resolveOr lone rest = _
    cases resolveOr lone rest <;> rfl
  | cons i before ih =>
    obtain ⟨d, ds, rfl, hd, hds⟩ : ∃ d ds, cs = d :: ds ∧ i.meaning? = some d ∧
        before.map Item.meaning? = ds.map some := by
      cases cs with
      | nil => cases hmeaning
      | cons d ds => exact ⟨d, ds, rfl, (List.cons.inj hmeaning).1, (List.cons.inj hmeaning).2⟩
    rw [List.flatMap_cons, List.append_assoc, resolveOr_item (hlegal i List.mem_cons_self) hd,
      ih (fun j hj => hlegal j (List.mem_cons_of_mem i hj)) hds]
    cases resolveOr lone rest <;> rfl

/-- Some items mean something, and what follows them does not. -/
theorem exists_undefined (items : List Item) :
    (∃ cs : List Char, items.map Item.meaning? = cs.map some) ∨
      ∃ before c after, ∃ cs : List Char, items = before ++ .escape c :: after ∧
        before.map Item.meaning? = cs.map some ∧ escaped? c = none := by
  induction items with
  | nil => exact .inl ⟨[], rfl⟩
  | cons i items ih =>
    cases hi : i.meaning? with
    | none =>
      cases i with
      | plain c => cases hi
      | escape c => exact .inr ⟨[], c, items, [], rfl, rfl, hi⟩
    | some d =>
      rcases ih with ⟨cs, hcs⟩ | ⟨before, c, after, cs, rfl, hcs, hc⟩
      · exact .inl ⟨d :: cs, by rw [List.map_cons, List.map_cons, hi, hcs]⟩
      · exact .inr ⟨i :: before, c, after, d :: cs, rfl,
          by rw [List.map_cons, List.map_cons, hi, hcs], hc⟩

/-- Six characters mean something behind a backslash. -/
theorem escaped?_eq_none : escaped? c = none ↔ c ∉ ['\\', '"', 'r', 'n', 't', 'b'] := by
  unfold escaped?
  split <;> simp_all

/-- Items that all mean something denote what they mean. -/
theorem resolveOr_meant (hlegal : ∀ i ∈ items, i.Legal)
    (hcs : items.map Item.meaning? = cs.map some) :
    resolveOr lone (items.flatMap Item.text) = .ok cs := by
  have happend : resolveOr lone (items.flatMap Item.text ++ []) = .ok (cs ++ []) :=
    resolveOr_append hlegal hcs []
  rwa [List.append_nil, List.append_nil] at happend

/-- The first item that means nothing is at fault, whatever follows it. -/
theorem resolveOr_undefined (hlegal : ∀ i ∈ before, i.Legal)
    (hcs : before.map Item.meaning? = cs.map some) (hc : escaped? c = none) :
    resolveOr lone ((before ++ .escape c :: after).flatMap Item.text) =
      .error (.undefinedEscape c) := by
  rw [List.flatMap_append, resolveOr_append hlegal hcs]
  show (resolveOr lone ('\\' :: c :: after.flatMap Item.text)).map _ = _
  rw [resolveOr, hc]
  rfl

/-- The quotes of a string are taken off. -/
theorem unquoted_eq {body : List Char} : unquoted ('"' :: (body ++ ['"'])) = body := by
  show (if (body ++ ['"']).getLast? = some '"' then (body ++ ['"']).dropLast else _) = body
  rw [List.getLast?_concat, if_pos rfl, List.dropLast_concat]

/-- A string denotes what is between its quotes, if a backslash that nothing follows is never met
there. -/
theorem text_eq {body : List Char} {r : Except Fault (List Char)}
    (hraw : raw.toList = '"' :: (body ++ ['"'])) (hbody : ∀ lone, resolveOr lone body = r) :
    text raw = r.map String.ofList ∧
      ∀ lone, (resolveOr lone (unquoted raw.toList)).map String.ofList = text raw := by
  have htext : text raw = r.map String.ofList := by
    unfold text
    rw [hraw, unquoted_eq, resolve_eq, hbody]
  refine ⟨htext, fun lone => ?_⟩
  rw [hraw, unquoted_eq, hbody, htext]

/-- A string literal falls into items.  It denotes what they mean if all of them mean something;
otherwise the first that does not is at fault.  A backslash that nothing follows is never met. -/
theorem text_of_form (h : StringForm raw.toList) : ∃ items : List Item,
    (∀ i ∈ items, i.Legal) ∧ raw.toList = '"' :: (items.flatMap Item.text ++ ['"']) ∧
      ((∃ cs : List Char, items.map Item.meaning? = cs.map some ∧
          text raw = .ok (String.ofList cs)) ∨
        ∃ before c after, items = before ++ .escape c :: after ∧
          (∀ i ∈ before, i.meaning? ≠ none) ∧ c ∉ ['\\', '"', 'r', 'n', 't', 'b'] ∧
          text raw = .error (.undefinedEscape c)) ∧
      ∀ lone, (resolveOr lone (unquoted raw.toList)).map String.ofList = text raw := by
  generalize hraw : raw.toList = quoted at h
  obtain ⟨hbody⟩ := h
  obtain ⟨items, hlegal, rfl⟩ := exists_items hbody
  rw [← hraw]
  refine ⟨items, hlegal, hraw, ?_⟩
  rcases exists_undefined items with ⟨cs, hcs⟩ | ⟨before, c, after, cs, rfl, hcs, hc⟩
  · obtain ⟨hvalue, hlone⟩ := text_eq hraw fun lone => resolveOr_meant hlegal hcs
    exact ⟨.inl ⟨cs, hcs, hvalue⟩, hlone⟩
  · have hbefore : ∀ i ∈ before, i.Legal := fun i hi => hlegal i (List.mem_append_left _ hi)
    have hmeant : ∀ i ∈ before, i.meaning? ≠ none := by
      intro i hi hnone
      have hmem : none ∈ cs.map some := hcs ▸ hnone ▸ List.mem_map_of_mem hi
      obtain ⟨d, -, hd⟩ := List.mem_map.1 hmem
      cases hd
    obtain ⟨hfault, hlone⟩ := text_eq hraw fun lone => resolveOr_undefined hbefore hcs hc
    exact ⟨.inr ⟨before, c, after, rfl, hmeant, escaped?_eq_none.1 hc, hfault⟩, hlone⟩

end Literal

/-- **Scan and literals agree.**  Where a scan has nothing to report, every integer is a numeral and
denotes its value wrapped around at 64 bits, save that a numeral behind `0o` must do without the
digits from seven on; every float denotes a number; and every string denotes what its items mean, or
the first escape that means nothing is at fault. -/
theorem literals_agree (doc : Document) (hquiet : doc.scan.log.hasErrors = false) :
    (∀ raw, .int raw ∈ doc.kinds → ∃ base ds, Literal.Numeral raw.toList base ds ∧
      (base = 7 ∧ (∃ c ∈ ds, c ∈ ['7', '8', '9']) ∧
          Literal.int raw = .error (.invalidLiteral "int" raw) ∨
        ¬ (base = 7 ∧ ∃ c ∈ ds, c ∈ ['7', '8', '9']) ∧ ∃ n, Literal.int raw = .ok n ∧
          n.toInt = (Literal.value base ds : Int).bmod (2 ^ 64) ∧ n = Literal.wrapped base ds)) ∧
    (∀ raw, .float raw ∈ doc.kinds → ∃ x, Literal.float raw = .ok x) ∧
    (∀ raw, .string raw ∈ doc.kinds → ∃ items : List Literal.Item,
      (∀ i ∈ items, i.Legal) ∧ raw.toList = '"' :: (items.flatMap Literal.Item.text ++ ['"']) ∧
        ((∃ cs : List Char, items.map Literal.Item.meaning? = cs.map some ∧
            Literal.text raw = .ok (String.ofList cs)) ∨
          ∃ before c after, items = before ++ .escape c :: after ∧
            (∀ i ∈ before, i.meaning? ≠ none) ∧ c ∉ ['\\', '"', 'r', 'n', 't', 'b'] ∧
            Literal.text raw = .error (.undefinedEscape c)) ∧
        ∀ lone, (Literal.resolveOr lone (Literal.unquoted raw.toList)).map String.ofList =
          Literal.text raw) := by
  obtain ⟨ks, hkinds, hks⟩ := Document.wellFormed_of_quiet hquiet
  have hform : ∀ k ∈ doc.kinds, k ≠ .eof → k.WellFormed := by
    intro k hk hne
    rw [hkinds] at hk
    exact hks k ((List.mem_append.1 hk).resolve_right fun h => hne (List.mem_singleton.1 h))
  refine ⟨fun raw hraw => ?_, fun raw hraw => ?_, fun raw hraw => ?_⟩
  · obtain ⟨base, ds, hnumeral⟩ := Literal.exists_numeral (hform _ hraw Kind.noConfusion)
    refine ⟨base, ds, hnumeral, ?_⟩
    have hint := Literal.int_eq hnumeral
    by_cases hfits : Literal.fits base ds = true
    · rw [if_pos hfits] at hint
      exact .inr ⟨hnumeral.fits_iff.1 hfits, _, hint, Literal.toInt_wrapped base ds, rfl⟩
    · rw [if_neg hfits] at hint
      obtain ⟨hbase, hbeyond⟩ := not_not.1 (mt hnumeral.fits_iff.2 hfits)
      exact .inl ⟨hbase, hbeyond, hint⟩
  · exact Literal.float_of_form (hform _ hraw Kind.noConfusion)
  · exact Literal.text_of_form (hform _ hraw Kind.noConfusion)

/-- Base seven with a digit too many, a float, and a string with an escape that means nothing behind
one that does. -/
theorem literals_agree_mixed :
    let doc : Document := { name := "", text := "0o18 + 2E-3 + \"\\\\\\é\"" }
    doc.scan.log.hasErrors = false ∧
      (.int "0o18" ∈ doc.kinds ∧ ∃ base ds, Literal.Numeral "0o18".toList base ds ∧
        (base = 7 ∧ (∃ c ∈ ds, c ∈ ['7', '8', '9']) ∧
            Literal.int "0o18" = .error (.invalidLiteral "int" "0o18") ∨
          ¬ (base = 7 ∧ ∃ c ∈ ds, c ∈ ['7', '8', '9']) ∧ ∃ n, Literal.int "0o18" = .ok n ∧
            n.toInt = (Literal.value base ds : Int).bmod (2 ^ 64) ∧
            n = Literal.wrapped base ds)) ∧
      (.float "2E-3" ∈ doc.kinds ∧ ∃ x, Literal.float "2E-3" = .ok x) ∧
      .string "\"\\\\\\é\"" ∈ doc.kinds ∧
      Literal.text "\"\\\\\\é\"" = .error (.undefinedEscape 'é') ∧
      ∀ lone, (Literal.resolveOr lone (Literal.unquoted "\"\\\\\\é\"".toList)).map String.ofList =
        .error (.undefinedEscape 'é') := by
  intro doc
  have hquiet : doc.scan.log.hasErrors = false := by decide +kernel
  have hint : .int "0o18" ∈ doc.kinds := by decide +kernel
  have hfloat : .float "2E-3" ∈ doc.kinds := by decide +kernel
  have hstring : .string "\"\\\\\\é\"" ∈ doc.kinds := by decide +kernel
  have htext : Literal.text "\"\\\\\\é\"" = .error (.undefinedEscape 'é') := by rfl
  obtain ⟨hints, hfloats, hstrings⟩ := literals_agree doc hquiet
  obtain ⟨-, -, -, -, hlone⟩ := hstrings _ hstring
  exact ⟨hquiet, ⟨hint, hints _ hint⟩, ⟨hfloat, hfloats _ hfloat⟩, hstring, htext,
    fun lone => (hlone lone).trans htext⟩

end SmallScript
