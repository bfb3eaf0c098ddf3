/-
  Texts of numbers read back.

  A finite number is written with its shortest decimal, and the only question is what the layout does
  to it.  Positionally or with an exponent, the digits are moved to both sides of a point and padded
  with zeros; what comes out is digits, a point, digits and perhaps an exponent, and it denotes what
  the decimal does (`Pointed`).  The reader takes any such text apart in this one way, so it is read
  as the number nearest to the value that it denotes (`Pointed.read`), and this number is the one that
  was written (`Double.nearestDecimal_shortest`).

  It remains to look at the words for what has no digits, and to see that there is nothing in a text
  that a conversion would take off its ends.
-/
import SmallScript.Library.Conversion
import SmallScript.Number.FloatText
import SmallScript.Proofs.Console.Words
import SmallScript.Proofs.Numbers.Decimals
import SmallScript.Proofs.Scanning.Literals

namespace SmallScript

variable {ds : List Char} {d : Decimal} {e : ℤ}

/-! ## Digits -/

/-- The digits of a number denote it. -/
theorem digitsValue_toDigits (n : Nat) : digitsValue (Nat.toDigits 10 n) = n :=
  Nat.ofDigitChars_ten_toDigits

/-- A digit more makes ten times as much, and the digit. -/
theorem digitsValue_concat (ds : List Char) (c : Char) :
    digitsValue (ds ++ [c]) = 10 * digitsValue ds + (c.toNat - 48) := by
  unfold digitsValue
  rw [List.foldl_append]
  rfl

/-- Zeros behind digits multiply by ten. -/
theorem digitsValue_append_zeros (ds : List Char) (n : Nat) :
    digitsValue (ds ++ List.replicate n '0') = digitsValue ds * 10 ^ n := by
  induction n with
  | zero => rw [List.replicate_zero, List.append_nil, Nat.pow_zero, Nat.mul_one]
  | succ n ih =>
    rw [List.replicate_succ', ← List.append_assoc, digitsValue_concat, ih, Nat.pow_succ]
    show 10 * (digitsValue ds * 10 ^ n) + 0 = _
    rw [Nat.add_zero, Nat.mul_comm 10, Nat.mul_assoc]

/-- Zeros in front of digits make no difference. -/
theorem digitsValue_zeros_append (n : Nat) (ds : List Char) :
    digitsValue (List.replicate n '0' ++ ds) = digitsValue ds := by
  induction n with
  | zero => rfl
  | succ n ih =>
    rw [List.replicate_succ, List.cons_append]
    exact ih

theorem run_zero : Run Char.isDigit ['0'] := .of_all nofun rfl

theorem isDigit_of_mem_zeros {n : Nat} {c : Char} (hc : c ∈ List.replicate n '0') :
    c.isDigit = true := by
  rw [List.eq_of_mem_replicate hc]
  rfl

/-- Digits with zeros in front are digits. -/
theorem Run.zeros_append (hds : Run Char.isDigit ds) (n : Nat) :
    Run Char.isDigit (List.replicate n '0' ++ ds) where
  ne_nil := List.append_ne_nil_of_right_ne_nil _ hds.ne_nil
  all c hc := (List.mem_append.1 hc).elim isDigit_of_mem_zeros (hds.all c)

/-- So are digits with zeros behind. -/
theorem Run.append_zeros (hds : Run Char.isDigit ds) (n : Nat) :
    Run Char.isDigit (ds ++ List.replicate n '0') where
  ne_nil := List.append_ne_nil_of_left_ne_nil hds.ne_nil _
  all c hc := (List.mem_append.1 hc).elim (hds.all c) isDigit_of_mem_zeros

namespace Decimal

/-- Only zeros are left out at the end. -/
theorem exists_zeros_digits (d : Decimal) :
    ∃ n, Nat.toDigits 10 d.coefficient = d.digits ++ List.replicate n '0' := by
  unfold digits
  generalize Nat.toDigits 10 d.coefficient = cs
  have hzeros : ∀ c ∈ (cs.reverse.takeWhile (· == '0')).reverse, c = '0' := by
    intro c hc
    exact eq_of_beq (List.all_eq_true.1 List.all_takeWhile c (List.mem_reverse.1 hc))
  refine ⟨(cs.reverse.takeWhile (· == '0')).reverse.length, ?_⟩
  rw [← List.eq_replicate_of_mem hzeros, ← List.reverse_append, List.takeWhile_append_dropWhile,
    List.reverse_reverse]

/-- The digits of a decimal other than zero. -/
theorem run_digits (hd : 0 < d.coefficient) : Run Char.isDigit d.digits := by
  obtain ⟨n, hn⟩ := d.exists_zeros_digits
  have hrun := run_toDigits d.coefficient
  rw [hn] at hrun
  refine ⟨fun hnil => ?_, fun c hc => hrun.all c (List.mem_append_left _ hc)⟩
  have hvalue := digitsValue_toDigits d.coefficient
  rw [hn, hnil, digitsValue_append_zeros] at hvalue
  exact hd.ne (hvalue ▸ (Nat.zero_mul _).symm)

/-- The digits and the leading exponent tell the value. -/
theorem value_eq (hd : 0 < d.coefficient) : d.value =
    digitsValue d.digits * 10 ^ (d.leadingExponent + 1 - d.digits.length) := by
  obtain ⟨n, hn⟩ := d.exists_zeros_digits
  have hcoefficient : d.coefficient = digitsValue d.digits * 10 ^ n := by
    rw [← digitsValue_append_zeros, ← hn, digitsValue_toDigits]
  have hcount : digitCount d.coefficient = d.digits.length + n := by
    unfold digitCount
    rw [if_neg hd.ne', hn, List.length_append, List.length_replicate]
  have hexponent : d.leadingExponent + 1 - d.digits.length = n + d.exponent := by
    unfold leadingExponent
    rw [hcount]
    push_cast
    ring
  unfold value
  rw [hexponent, zpow_add₀ (by norm_num), zpow_natCast, ← mul_assoc]
  congr 1
  conv_lhs => rw [hcoefficient]
  push_cast
  rfl

end Decimal

/-! ## Exponents -/

/-- An exponent that is not too great is read to its last digit. -/
theorem exponentValue_eq (h : digitsValue ds < 2 ^ 16) :
    Double.exponentValue ds = digitsValue ds := by
  induction ds using List.reverseRecOn with
  | nil => rfl
  | append_singleton ds c ih =>
    rw [digitsValue_concat] at h ⊢
    have hprev := ih (by omega)
    unfold Double.exponentValue at hprev ⊢
    rw [List.foldl_append, hprev, List.foldl_cons, List.foldl_nil, if_pos (by omega)]

/-- An exponent is read as the number that its digits denote, with its sign. -/
theorem readExponent?_digits {negative : Bool} {cs : List Char} (hds : Run Char.isDigit ds)
    (hsign : Double.readSign cs = (negative, ds)) (hvalue : digitsValue ds < 2 ^ 16) :
    Double.readExponent? ('e' :: cs) =
      some (if negative then -(digitsValue ds : ℤ) else digitsValue ds) := by
  have hempty : ds.isEmpty = false := by simpa using hds.ne_nil
  have hall : ds.all Char.isDigit = true := List.all_eq_true.2 hds.all
  unfold Double.readExponent?
  dsimp only
  rw [if_pos (by decide), hsign]
  dsimp only
  rw [hempty, hall, if_neg (by decide), exponentValue_eq hvalue]

/-- A whole number is read as an exponent as it is written. -/
theorem readExponent?_toString (he : e.natAbs < 2 ^ 16) :
    Double.readExponent? ('e' :: (toString e).toList) = some e := by
  have hds := run_toDigits e.natAbs
  have hvalue := digitsValue_toDigits e.natAbs
  have hlt : digitsValue (Nat.toDigits 10 e.natAbs) < 2 ^ 16 := hvalue.trans_lt he
  rw [toList_toString]
  split
  case isTrue hneg =>
    rw [@readExponent?_digits _ true _ hds rfl hlt, hvalue, if_pos rfl]
    exact congrArg some (by omega)
  case isFalse hpos =>
    obtain ⟨c, cs, hcs⟩ := List.exists_cons_of_ne_nil hds.ne_nil
    have hsign : Double.readSign (Nat.toDigits 10 e.natAbs) = (false, Nat.toDigits 10 e.natAbs) := by
      rw [hcs] at hds ⊢
      exact Literal.readSign_digit (hds.all c List.mem_cons_self) cs
    rw [readExponent?_digits hds hsign hlt, hvalue, if_neg Bool.false_ne_true]
    exact congrArg some (by omega)

/-- Behind its mark, an integer has the form of an exponent. -/
theorem exponentForm_toString (e : ℤ) : ExponentForm ('e' :: (toString e).toList) := by
  have hds := run_toDigits e.natAbs
  rw [toList_toString]
  split
  · exact @ExponentForm.digits 'e' ['-'] _ (.inl rfl) .minus hds
  · exact @ExponentForm.digits 'e' [] _ (.inl rfl) .none hds

/-! ## Digits on each side of a point -/

/-- A text with a digit on each side of its point, an exponent behind them or nothing, and the value
that it denotes. -/
inductive Pointed (exponent : List Char) : List Char → ℚ → Prop where
  | mk {whole fraction : List Char} {e : ℤ} {r : ℚ} : Run Char.isDigit whole →
      Run Char.isDigit fraction → ExponentForm exponent → Double.readExponent? exponent = some e →
      r = digitsValue (whole ++ fraction) * 10 ^ (e - fraction.length) →
      Pointed exponent (whole ++ '.' :: (fraction ++ exponent)) r

section Pointed

variable {exponent text : List Char} {r : ℚ} {c : Nat}

/-- What is pointed has the form of a float. -/
theorem Pointed.form (h : Pointed exponent text r) : FloatForm text := by
  obtain ⟨hwhole, hfraction, hform, -, -⟩ := h
  exact .mk hwhole (.digits hfraction) hform rfl

/-- It is read as the decimal of its value. -/
theorem Pointed.read (h : Pointed exponent text r) (hr : r = c * 10 ^ e) :
    Double.readDecimal? text = some (Double.nearestDecimal c e) := by
  obtain ⟨hwhole, hfraction, hform, hexponent, hvalue⟩ := h
  rw [Literal.readDecimal?_pointed hwhole hfraction hform hexponent]
  refine congrArg some (Double.nearestDecimal_congr ?_)
  rw [← hvalue, hr]

/-- Zero is written with a point. -/
theorem pointed_zero : Pointed [] "0.0".toList 0 := by
  have hvalue : digitsValue (['0'] ++ ['0']) = 0 := rfl
  refine @Pointed.mk [] ['0'] ['0'] 0 _ run_zero run_zero .none rfl ?_
  rw [hvalue, Nat.cast_zero, zero_mul]

end Pointed

/-! ## Digits with a point -/

theorem ten_ne_zero : (10 : ℚ) ≠ 0 := by norm_num

/-- All digits behind the point, with zeros in front of them. -/
theorem pointed_behind (hds : Run Char.isDigit ds) (n : Nat) :
    Pointed [] ('0' :: '.' :: (List.replicate n '0' ++ ds))
      (digitsValue ds * 10 ^ (-(n + ds.length : Nat) : ℤ)) := by
  have hvalue : digitsValue (['0'] ++ (List.replicate n '0' ++ ds)) = digitsValue ds :=
    digitsValue_zeros_append n ds
  have hpointed := @Pointed.mk [] ['0'] _ 0 _ run_zero (hds.zeros_append n) .none rfl rfl
  rw [List.append_nil, hvalue, List.length_append, List.length_replicate, zero_sub] at hpointed
  exact hpointed

/-- All digits in front of the point, with zeros behind them. -/
theorem pointed_before (hds : Run Char.isDigit ds) (n : Nat) :
    Pointed [] (ds ++ List.replicate n '0' ++ ['.', '0']) (digitsValue ds * 10 ^ (n : ℤ)) := by
  have hvalue : digitsValue (ds ++ List.replicate n '0' ++ ['0']) = digitsValue ds * 10 ^ (n + 1) := by
    rw [List.append_assoc, ← digitsValue_append_zeros, List.replicate_succ']
  have hexponent : (n : ℤ) = (n + 1 : Nat) + (-1) := by omega
  refine @Pointed.mk [] _ ['0'] 0 _ (hds.append_zeros n) run_zero .none rfl ?_
  rw [hvalue, hexponent, zpow_add₀ ten_ne_zero, zpow_natCast, ← mul_assoc]
  push_cast
  rfl

/-- Digits on both sides of the point. -/
theorem pointed_between (hds : Run Char.isDigit ds) {n : Nat} (hpos : 0 < n) (hlt : n < ds.length) :
    Pointed [] (ds.take n ++ '.' :: ds.drop n)
      (digitsValue ds * 10 ^ (-(ds.length - n : Nat) : ℤ)) := by
  have hwhole : Run Char.isDigit (ds.take n) := by
    refine ⟨fun hnil => ?_, fun c hc => hds.all c (List.mem_of_mem_take hc)⟩
    exact hds.ne_nil ((List.take_eq_nil_iff.1 hnil).resolve_left hpos.ne')
  have hfraction : Run Char.isDigit (ds.drop n) := by
    refine ⟨fun hnil => ?_, fun c hc => hds.all c (List.mem_of_mem_drop hc)⟩
    exact Nat.not_le.2 hlt (List.drop_eq_nil_iff.1 hnil)
  have hpointed := @Pointed.mk [] _ _ 0 _ hwhole hfraction .none rfl rfl
  rw [List.append_nil, List.take_append_drop, List.length_drop, zero_sub] at hpointed
  exact hpointed

/-! ### Points that are put in -/

/-- Among digits there is nothing else. -/
theorem not_mem_digits {c : Char} (hc : c.isDigit = false) (hds : Run Char.isDigit ds) :
    c ∉ ds := fun hmem => by
  have hdigit := hds.all c hmem
  rw [hc] at hdigit
  cases hdigit

/-- A text with a point is left as it is. -/
theorem withPoint_of_mem {text : List Char} (h : '.' ∈ text) : withPoint text = text := if_pos h

/-- A text without one gets a point and a zero. -/
theorem withPoint_of_not_mem {text : List Char} (h : '.' ∉ text) :
    withPoint text = text ++ ['.', '0'] := if_neg h

/-- What stands in front and has no point is left alone. -/
theorem withPoint_append {front : List Char} (h : '.' ∉ front) (text : List Char) :
    withPoint (front ++ text) = front ++ withPoint text := by
  unfold withPoint
  by_cases hpoint : '.' ∈ text
  · rw [if_pos hpoint, if_pos (List.mem_append_right front hpoint)]
  · have hnone : '.' ∉ front ++ text := fun hmem => (List.mem_append.1 hmem).elim h hpoint
    rw [if_neg hpoint, if_neg hnone, List.append_assoc]

/-- The point of a mantissa is put in front of the exponent. -/
theorem withMantissaPoint_append {mantissa : List Char} (h : 'e' ∉ mantissa)
    (exponent : List Char) :
    withMantissaPoint (mantissa ++ 'e' :: exponent) = withPoint mantissa ++ 'e' :: exponent := by
  have hall : ∀ c ∈ mantissa, (c != 'e') = true := fun c hc =>
    bne_iff_ne.2 fun heq => h (heq ▸ hc)
  have htake : (mantissa ++ 'e' :: exponent).takeWhile (· != 'e') = mantissa := by
    rw [List.takeWhile_append_of_pos hall]
    exact List.append_nil _
  have hdrop : (mantissa ++ 'e' :: exponent).dropWhile (· != 'e') = 'e' :: exponent := by
    rw [List.dropWhile_append_of_pos hall]
    rfl
  unfold withMantissaPoint withPoint
  dsimp only
  rw [htake, hdrop]
  by_cases hpoint : '.' ∈ mantissa
  · rw [if_pos (.inr hpoint), if_pos hpoint]
  · have hneither : ¬ (('e' :: exponent).isEmpty = true ∨ '.' ∈ mantissa) :=
      not_or.2 ⟨Bool.false_ne_true, hpoint⟩
    rw [if_neg hneither, if_neg hpoint]

/-! ### Digits around a point -/

/-- Written with the point where the leading exponent puts it, digits denote what they stand for. -/
theorem pointed_positional (hds : Run Char.isDigit ds) (leading : ℤ) :
    Pointed [] (withPoint (positional ds leading))
      (digitsValue ds * 10 ^ (leading + 1 - ds.length)) := by
  unfold positional
  split
  case isTrue hneg =>
    have hpoint : '.' ∈ '0' :: '.' :: (List.replicate ((-leading).toNat - 1) '0' ++ ds) :=
      List.mem_cons_of_mem _ List.mem_cons_self
    have hpointed := pointed_behind hds ((-leading).toNat - 1)
    rw [withPoint_of_mem hpoint]
    rwa [show (-(((-leading).toNat - 1 + ds.length : Nat) : ℤ)) = leading + 1 - ds.length by omega]
      at hpointed
  case isFalse hpos =>
    unfold fractionText
    dsimp only
    split
    case isTrue hall =>
      have hlength : ds.length ≤ leading.toNat + 1 :=
        List.drop_eq_nil_iff.1 (List.isEmpty_iff.1 hall)
      have hrun := hds.append_zeros (leading.toNat + 1 - ds.length)
      have hpointed := pointed_before hds (leading.toNat + 1 - ds.length)
      rw [List.take_of_length_le hlength, List.append_nil,
        withPoint_of_not_mem (not_mem_digits rfl hrun)]
      rwa [show ((leading.toNat + 1 - ds.length : Nat) : ℤ) = leading + 1 - ds.length by omega]
        at hpointed
    case isFalse hsome =>
      have hlt : leading.toNat + 1 < ds.length := by
        rwa [List.isEmpty_iff, List.drop_eq_nil_iff, Nat.not_le] at hsome
      have hpointed := pointed_between hds (Nat.succ_pos leading.toNat) hlt
      rw [withPoint_of_mem (List.mem_append_right _ List.mem_cons_self),
        Nat.sub_eq_zero_of_le hlt.le, List.replicate_zero, List.append_nil]
      rwa [show (-((ds.length - (leading.toNat + 1) : Nat) : ℤ)) = leading + 1 - ds.length by omega]
        at hpointed

/-- A digit, and digits behind a point if there are any, have no exponent. -/
theorem exponent_not_mem_mantissa {c : Char} {cs : List Char} (hds : Run Char.isDigit (c :: cs)) :
    'e' ∉ [c] ++ fractionText cs := by
  have hnone : 'e' ∉ c :: cs := not_mem_digits rfl hds
  rw [List.mem_cons, not_or] at hnone
  unfold fractionText
  rw [List.mem_append, List.mem_singleton, not_or]
  refine ⟨hnone.1, ?_⟩
  split
  · exact List.not_mem_nil
  · exact List.not_mem_cons_of_ne_of_not_mem (by decide) hnone.2

/-- Written as a mantissa and an exponent, they do so as well. -/
theorem pointed_scientific (hds : Run Char.isDigit ds) {leading : ℤ}
    (hleading : leading.natAbs < 2 ^ 16) :
    Pointed ('e' :: (toString leading).toList)
      (withPoint (ds.take 1 ++ fractionText (ds.drop 1)) ++ 'e' :: (toString leading).toList)
      (digitsValue ds * 10 ^ (leading + 1 - ds.length)) := by
  have hexponent := readExponent?_toString hleading
  have hform := exponentForm_toString leading
  obtain ⟨c, cs, rfl⟩ := List.exists_cons_of_ne_nil hds.ne_nil
  have hwhole : Run Char.isDigit [c] :=
    ⟨nofun, fun d hd => List.mem_singleton.1 hd ▸ hds.all c List.mem_cons_self⟩
  cases cs with
  | nil =>
    have hmantissa : withPoint ([c].take 1 ++ fractionText ([c].drop 1)) = [c] ++ ['.', '0'] :=
      withPoint_of_not_mem (not_mem_digits rfl hwhole)
    have hvalue : digitsValue ([c] ++ ['0']) = digitsValue [c] * 10 ^ 1 :=
      digitsValue_append_zeros [c] 1
    have hshift : leading + 1 - ([c].length : Nat) =
        (1 : Nat) + (leading - (['0'].length : Nat)) := by
      rw [List.length_singleton, List.length_singleton]
      omega
    rw [hmantissa]
    refine @Pointed.mk _ [c] ['0'] leading _ hwhole run_zero hform hexponent ?_
    rw [hvalue, hshift, zpow_add₀ ten_ne_zero, zpow_natCast, ← mul_assoc]
    push_cast
    rfl
  | cons c' cs =>
    have hmantissa : withPoint ((c :: c' :: cs).take 1 ++ fractionText ((c :: c' :: cs).drop 1)) =
        [c] ++ '.' :: c' :: cs :=
      withPoint_of_mem (List.mem_cons_of_mem c List.mem_cons_self)
    have hfraction : Run Char.isDigit (c' :: cs) :=
      ⟨nofun, fun d hd => hds.all d (List.mem_cons_of_mem c hd)⟩
    have hshift : leading + 1 - ((c :: c' :: cs).length : Nat) =
        leading - ((c' :: cs).length : Nat) := by
      rw [List.length_cons]
      omega
    rw [hmantissa]
    refine @Pointed.mk _ [c] (c' :: cs) leading _ hwhole hfraction hform hexponent ?_
    rw [hshift]
    rfl

/-! ## Texts of numbers -/

section Visible

variable {c : Char} {exponent text : List Char} {r : ℚ}

/-- The characters of ASCII behind the space are no white space, up to the last that is printed. -/
theorem visible_of_range (hle : 0x21 ≤ c.toNat) (hlt : c.toNat < 0x7F) : ¬ IsWhiteSpace c := by
  unfold IsWhiteSpace
  simp only [List.mem_cons, List.not_mem_nil, or_false]
  omega

theorem visible_of_all {cs : List Char}
    (hall : cs.all (fun c => decide (0x21 ≤ c.toNat ∧ c.toNat < 0x7F)) = true) (hc : c ∈ cs) :
    ¬ IsWhiteSpace c := by
  obtain ⟨hle, hlt⟩ := of_decide_eq_true (List.all_eq_true.1 hall c hc)
  exact visible_of_range hle hlt

theorem visible_of_isDigit (hc : c.isDigit = true) : ¬ IsWhiteSpace c := by
  have hrange : 48 ≤ c.toNat ∧ c.toNat ≤ 57 := Char.isDigit_iff_toNat.1 hc
  exact visible_of_range (by omega) (by omega)

/-- An exponent has no white space in it. -/
theorem visible_of_form (h : ExponentForm exponent) (hc : c ∈ exponent) : ¬ IsWhiteSpace c := by
  obtain _ | ⟨he, hsign, hds⟩ := h
  · cases hc
  · rcases List.mem_cons.1 hc with rfl | hc
    · rcases he with rfl | rfl <;> exact visible_of_range (by decide) (by decide)
    · rcases List.mem_append.1 hc with hc | hc
      · cases hsign with
        | none => cases hc
        | plus => exact visible_of_all rfl hc
        | minus => exact visible_of_all rfl hc
      · exact visible_of_isDigit (hds.all c hc)

/-- Nor has anything that is pointed. -/
theorem Pointed.visible (h : Pointed exponent text r) (hc : c ∈ text) : ¬ IsWhiteSpace c := by
  obtain ⟨hwhole, hfraction, hform, -, -⟩ := h
  rcases List.mem_append.1 hc with hc | hc
  · exact visible_of_isDigit (hwhole.all c hc)
  · rcases List.mem_cons.1 hc with rfl | hc
    · exact visible_of_range (by decide) (by decide)
    · rcases List.mem_append.1 hc with hc | hc
      · exact visible_of_isDigit (hfraction.all c hc)
      · exact visible_of_form hform hc

/-- So nothing is taken off its ends. -/
theorem trimWhiteSpace_eq (h : ∀ c ∈ text, ¬ IsWhiteSpace c) : trimWhiteSpace text = text := by
  have hkeep : ∀ cs : List Char, (∀ c ∈ cs, ¬ IsWhiteSpace c) → cs.dropWhile isWhiteSpace = cs := by
    intro cs hcs
    have hnone : ∀ c ∈ cs, isWhiteSpace c = false := fun c hc =>
      Bool.eq_false_iff.2 (mt (isWhiteSpace_iff c).1 (hcs c hc))
    cases cs with
    | nil => rfl
    | cons c cs => exact List.dropWhile_cons_of_neg (by simp [hnone c List.mem_cons_self])
  unfold trimWhiteSpace
  rw [hkeep text h, hkeep _ fun c hc => h c (List.mem_reverse.1 hc), List.reverse_reverse]

end Visible

namespace Double

variable {x : Double}

/-- A number is its sign and its magnitude. -/
theorem ofParts_eq (x : Double) : ofParts x.isNegative x.magnitude = x := by
  have hlt := x.bits.toNat_lt
  have hbits : (if x.isNegative = true then signBit + x.magnitude else x.magnitude) =
      x.bits.toNat := by
    unfold isNegative magnitude signBit
    simp only [decide_eq_true_eq]
    split <;> omega
  unfold ofParts
  rw [hbits, UInt64.ofNat_toNat]

/-- A sign is a minus, or nothing. -/
theorem not_mem_signText {c : Char} (hc : c ≠ '-') (x : Double) : c ∉ x.signText := by
  unfold signText
  split
  · exact mt List.mem_singleton.1 hc
  · exact List.not_mem_nil

/-- With all its digits around the point, a number denotes the shortest decimal. -/
theorem exists_pointed_decimalText (hx : x.isFinite = true) (hne : x.magnitude ≠ 0) : ∃ cs,
    withPoint x.decimalText = x.signText ++ cs ∧ Pointed [] cs x.shortest.value := by
  have hpos := coefficient_shortest_pos hx hne
  refine ⟨_, withPoint_append (not_mem_signText (by decide) x) _, ?_⟩
  rw [x.shortest.value_eq hpos]
  exact pointed_positional (x.shortest.run_digits hpos) _

/-- With a mantissa and an exponent, it does so as well. -/
theorem exists_pointed_exponentText (hx : x.isFinite = true) (hne : x.magnitude ≠ 0) :
    ∃ exponent cs, exponent ≠ [] ∧ withMantissaPoint x.exponentText = x.signText ++ cs ∧
      Pointed exponent cs x.shortest.value := by
  have hpos := coefficient_shortest_pos hx hne
  have hds := x.shortest.run_digits hpos
  have hnone : 'e' ∉ x.signText ++
      (x.shortest.digits.take 1 ++ fractionText (x.shortest.digits.drop 1)) := by
    obtain ⟨c, cs, hcons⟩ := List.exists_cons_of_ne_nil hds.ne_nil
    rw [hcons] at hds ⊢
    intro hmem
    exact (List.mem_append.1 hmem).elim (not_mem_signText (by decide) x)
      (exponent_not_mem_mantissa hds)
  have hpointed := pointed_scientific hds (natAbs_leadingExponent_lt hx hne)
  rw [← x.shortest.value_eq hpos] at hpointed
  refine ⟨_, _, List.cons_ne_nil _ _, ?_, hpointed⟩
  unfold exponentText scientific
  rw [← List.append_assoc, withMantissaPoint_append hnone,
    withPoint_append (not_mem_signText (by decide) x), List.append_assoc]

theorem text_of_isNaN (hx : x.isNaN = true) : x.text = "NaN" := if_pos hx

/-- An infinite number is a word with its sign. -/
theorem text_of_isInfinite (hx : x.isInfinite = true) :
    x.text = if x.isNegative then "-Infinity" else "Infinity" := by
  have hnan : x.isNaN = false := decide_eq_false (of_decide_eq_true hx).not_gt
  unfold text FloatLayout.text signText
  dsimp only
  rw [hnan, if_neg Bool.false_ne_true, if_pos hx]
  split <;> rfl

/-- A finite number is written with its sign and its shortest decimal. -/
theorem exists_pointed (hx : x.isFinite = true) : ∃ exponent cs,
    x.text.toList = x.signText ++ cs ∧ Pointed exponent cs x.shortest.value ∧
      (exponent ≠ [] ↔ x.size ≠ 0 ∧ ¬ (1 / 1000 ≤ x.size ∧ x.size < 10 ^ 7)) := by
  have hfinite : x.magnitude < infinityMagnitude := of_decide_eq_true hx
  have hnan : x.isNaN = false := decide_eq_false hfinite.not_gt
  have hinfinite : x.isInfinite = false := decide_eq_false hfinite.ne
  unfold text FloatLayout.text
  dsimp only
  rw [hnan, hinfinite, if_neg Bool.false_ne_true, if_neg Bool.false_ne_true]
  by_cases hmagnitude : x.magnitude = 0
  · have hzero : x.isZero = true := decide_eq_true hmagnitude
    have hshortest : x.shortest = ⟨0, 0⟩ := @shortest_congr x ⟨0⟩ hmagnitude
    have hvalue : x.shortest.value = 0 := by
      rw [hshortest]
      exact zero_mul _
    rw [if_pos hzero, hvalue, String.toList_append, String.toList_ofList]
    exact ⟨[], _, rfl, pointed_zero,
      iff_of_false (fun h => h rfl) fun h => h.1 (size_eq_zero.2 hmagnitude)⟩
  · have hzero : x.isZero = false := decide_eq_false hmagnitude
    have hsize : x.size ≠ 0 := mt size_eq_zero.1 hmagnitude
    have hrange := leadingExponent_shortest_mem hx hmagnitude
    rw [hzero, if_neg Bool.false_ne_true, String.toList_ofList]
    split
    case isTrue hmem =>
      obtain ⟨cs, htext, hpointed⟩ := exists_pointed_decimalText hx hmagnitude
      exact ⟨[], cs, htext, hpointed,
        iff_of_false (fun h => h rfl) fun h => h.2 (hrange.1 hmem)⟩
    case isFalse hmem =>
      obtain ⟨exponent, cs, hne, htext, hpointed⟩ := exists_pointed_exponentText hx hmagnitude
      exact ⟨exponent, cs, htext, hpointed, iff_of_true hne ⟨hsize, mt hrange.2 hmem⟩⟩

/-- A number is finite, infinite, or none at all. -/
theorem isFinite_or_isInfinite (hx : x.isNaN = false) :
    x.isFinite = true ∨ x.isInfinite = true := by
  have hle := Nat.lt_or_eq_of_le (Nat.le_of_not_lt (of_decide_eq_false hx))
  exact hle.imp decide_eq_true decide_eq_true

/-- **The text of a number reads back** as the same number. -/
theorem ofText?_text (hx : x.isNaN = false) : ofText? x.text = some x := by
  rcases isFinite_or_isInfinite hx with hfinite | hinfinite
  · obtain ⟨exponent, cs, htext, hpointed, -⟩ := exists_pointed hfinite
    have hread := hpointed.read (c := x.shortest.coefficient) (e := x.shortest.exponent) rfl
    obtain ⟨c, rest, rfl, hc⟩ := Literal.head_of_form hpointed.form
    rw [@Literal.ofText?_of_digit c x.text x.isNegative rest hc htext, hread,
      nearestDecimal_shortest hfinite]
    exact congrArg some x.ofParts_eq
  · have hwords : ∀ b : Bool, ofText? (if b then "-Infinity" else "Infinity") =
        some (ofParts b infinityMagnitude) := by decide +kernel
    rw [text_of_isInfinite hinfinite, hwords, ← of_decide_eq_true hinfinite, x.ofParts_eq]

/-- So whatever a number is, its text has no white space. -/
theorem visible_text {c : Char} (hc : c ∈ x.text.toList) : ¬ IsWhiteSpace c := by
  cases hnan : x.isNaN with
  | true =>
    rw [text_of_isNaN hnan] at hc
    exact visible_of_all rfl hc
  | false =>
    rcases isFinite_or_isInfinite hnan with hfinite | hinfinite
    · obtain ⟨exponent, cs, htext, hpointed, -⟩ := exists_pointed hfinite
      rw [htext] at hc
      rcases List.mem_append.1 hc with hc | hc
      · unfold signText at hc
        split at hc
        · exact visible_of_all rfl hc
        · cases hc
      · exact hpointed.visible hc
    · rw [text_of_isInfinite hinfinite] at hc
      split at hc
      · exact visible_of_all rfl hc
      · exact visible_of_all rfl hc

/-- There is no white space to be taken off. -/
theorem number?_text (x : Double) : Conversion.number? x.text = ofText? x.text := by
  unfold Conversion.number?
  rw [trimWhiteSpace_eq fun c => visible_text, String.ofList_toList]

end Double

/-- **Numbers survive being written.**  A number that is written and read again, be it as a literal
or by conversion, is the same number to its last bit, and what is not a number stays so.  The text of
a finite number has a digit on each side of its point, and an exponent only if the number is neither
zero nor from a thousandth up to ten million.  If it is not negative, this text is a token. -/
theorem floats_restored (x : Double) :
    (x.isNaN = false → Literal.float x.text = .ok x ∧
      ∀ (h : Heap) (t : Text), t.content = x.text →
        Conversion.toFloat h (.text t) = .ok (.float x)) ∧
    (x.isNaN = true → ∃ y : Double, y.isNaN = true ∧ Literal.float x.text = .ok y ∧
      ∀ (h : Heap) (t : Text), t.content = x.text →
        Conversion.toFloat h (.text t) = .ok (.float y)) ∧
    (x.isFinite = true → ∃ whole fraction exponent,
      x.text.toList = x.signText ++ (whole ++ '.' :: (fraction ++ exponent)) ∧
        Run Char.isDigit whole ∧ Run Char.isDigit fraction ∧ ExponentForm exponent ∧
        (exponent ≠ [] ↔ x.size ≠ 0 ∧ ¬ (1 / 1000 ≤ x.size ∧ x.size < 10 ^ 7))) ∧
    (x.isFinite = true → x.isNegative = false → ∀ doc : Document, doc.text = x.text →
      doc.kinds = [.float x.text, .eof] ∧ doc.scan.log = Log.empty) := by
  have hread : ∀ y, Double.ofText? x.text = some y → Literal.float x.text = .ok y ∧
      ∀ (h : Heap) (t : Text), t.content = x.text →
        Conversion.toFloat h (.text t) = .ok (.float y) := by
    intro y hy
    constructor
    · unfold Literal.float
      rw [hy]
    · intro h t ht
      unfold Conversion.toFloat
      dsimp only
      rw [ht, x.number?_text, hy]
      rfl
  refine ⟨fun hx => hread x (Double.ofText?_text hx), fun hx => ?_, fun hx => ?_,
    fun hx hsign doc hdoc => ?_⟩
  · refine ⟨.nan, by decide, hread .nan ?_⟩
    rw [Double.text_of_isNaN hx]
    decide
  · obtain ⟨exponent, cs, htext, ⟨hwhole, hfraction, hform, -, -⟩, hexponent⟩ :=
      Double.exists_pointed hx
    exact ⟨_, _, exponent, htext, hwhole, hfraction, hform, hexponent⟩
  · obtain ⟨exponent, cs, htext, hpointed, -⟩ := Double.exists_pointed hx
    have hfloat : FloatForm x.text.toList := by
      unfold Double.signText at htext
      rw [hsign, if_neg Bool.false_ne_true, List.nil_append] at htext
      rw [htext]
      exact hpointed.form
    refine @Document.kinds_of_spells doc [.float x.text] ?_
    rw [hdoc]
    exact (Spelled.single (.float x.text)).spells (List.forall_mem_singleton.2 hfloat)

/-- Ten million, the least positive number, negative zero, the infinities and what is not a number. -/
theorem floats_restored_extremes :
    ((⟨0x416312D000000000⟩ : Double).text = "1.0e7" ∧
      (∃ whole fraction exponent, "1.0e7".toList = whole ++ '.' :: (fraction ++ exponent) ∧
        Run Char.isDigit whole ∧ Run Char.isDigit fraction ∧ exponent ≠ []) ∧
      ∀ doc : Document, doc.text = "1.0e7" →
        doc.kinds = [.float "1.0e7", .eof] ∧ doc.scan.log = Log.empty) ∧
    ((⟨1⟩ : Double).text = "5.0e-324" ∧ Literal.float "5.0e-324" = .ok ⟨1⟩) ∧
    ((Double.zero true).text = "-0.0" ∧ ∀ (h : Heap) (t : Text), t.content = "-0.0" →
      Conversion.toFloat h (.text t) = .ok (.float (Double.zero true))) ∧
    (∀ b, Literal.float (Double.infinity b).text = .ok (Double.infinity b)) ∧
    (Double.invalid.text = "NaN" ∧ ∃ y : Double, y.isNaN = true ∧ Literal.float "NaN" = .ok y) := by
  have hten : (⟨0x416312D000000000⟩ : Double).text = "1.0e7" := by decide +kernel
  have hleast : (⟨1⟩ : Double).text = "5.0e-324" := by decide +kernel
  have hzero : (Double.zero true).text = "-0.0" := by decide +kernel
  have hnan : Double.invalid.text = "NaN" := by decide +kernel
  refine ⟨⟨hten, ?_, ?_⟩, ⟨hleast, ?_⟩, ⟨hzero, ?_⟩, fun b => ?_, ⟨hnan, ?_⟩⟩
  · obtain ⟨whole, fraction, exponent, htext, hwhole, hfraction, -, hexponent⟩ :=
      (floats_restored ⟨0x416312D000000000⟩).2.2.1 (by decide)
    rw [hten] at htext
    rw [Double.size_tenMillion] at hexponent
    exact ⟨whole, fraction, exponent, htext, hwhole, hfraction, hexponent.2 (by norm_num)⟩
  · rw [← hten]
    exact (floats_restored ⟨0x416312D000000000⟩).2.2.2 (by decide) (by decide)
  · rw [← hleast]
    exact ((floats_restored ⟨1⟩).1 (by decide)).1
  · rw [← hzero]
    exact ((floats_restored (Double.zero true)).1 (by decide)).2
  · have hinfinity : (Double.infinity b).isNaN = false := by cases b <;> decide
    exact ((floats_restored (Double.infinity b)).1 hinfinity).1
  · rw [← hnan]
    obtain ⟨y, hy, hread, -⟩ := (floats_restored Double.invalid).2.1 (by decide)
    exact ⟨y, hy, hread⟩

end SmallScript
