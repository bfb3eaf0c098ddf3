/-
  Decimals that stand for numbers.

  A decimal is read as the magnitude nearest to its value, whatever its coefficient and its exponent
  are (`nearestDecimal_eq`); so decimals of one value are read alike, and of greater ones no less.
  The shortest decimal of a number reads back as the number (`nearestDecimal_shortest`): those that
  are tried are taken only if they do, and the exact value does in any case.  Thus shortest decimals
  have the order of their numbers, and where a power of ten is the shortest decimal of a number, the
  leading exponents of all others tell on which side of it they are (`le_leadingExponent_shortest`).
-/
import SmallScript.Number.Shortest
import SmallScript.Proofs.Numbers.Rounding

namespace SmallScript

variable {x y : Double} {c c' num den : Nat} {e e' : ℤ}

/-- The value of a decimal. -/
def Decimal.value (d : Decimal) : ℚ := d.coefficient * 10 ^ d.exponent

namespace Double

/-! ## Reading decimals -/

theorem zpow_ten_pos (e : ℤ) : (0 : ℚ) < 10 ^ e := zpow_pos (by norm_num) e

/-- Every decimal is a fraction. -/
theorem exists_fraction (c : Nat) (e : ℤ) :
    ∃ num den : Nat, 0 < den ∧ (num : ℚ) / den = c * 10 ^ e := by
  rcases Int.le_total 0 e with he | he
  · obtain ⟨n, rfl⟩ := Int.eq_ofNat_of_zero_le he
    refine ⟨c * 10 ^ n, 1, Nat.one_pos, ?_⟩
    rw [Nat.cast_one, div_one, Nat.cast_mul, Nat.cast_pow, Nat.cast_ofNat, zpow_natCast]
  · obtain ⟨n, hn⟩ := Int.eq_ofNat_of_zero_le (Int.neg_nonneg_of_nonpos he)
    obtain rfl : e = -n := by omega
    refine ⟨c, 10 ^ n, Nat.pow_pos (by decide), ?_⟩
    rw [zpow_neg, zpow_natCast, Nat.cast_pow, Nat.cast_ofNat, div_eq_mul_inv]

/-- What is so great is read as infinite. -/
theorem nearest_of_great (hden : 0 < den) (h : (10 : ℚ) ^ (400 : ℤ) ≤ num / den) :
    nearest num den = infinityMagnitude := by
  have hlimit : nearest (10 ^ 200 * 10 ^ 200) 1 = infinityMagnitude := by decide +kernel
  refine Nat.le_antisymm (nearest_le_infinity _ _) ?_
  rw [← hlimit]
  refine nearest_mono Nat.one_pos hden (le_of_eq_of_le ?_ h)
  rw [Nat.cast_one, div_one, Nat.cast_mul, Nat.cast_pow, Nat.cast_ofNat, ← pow_add]
  exact (zpow_natCast 10 400).symm

/-- What is so little is read as zero. -/
theorem nearest_of_little (hden : 0 < den) (h : (num / den : ℚ) ≤ 10 ^ (-400 : ℤ)) :
    nearest num den = 0 := by
  have hlimit : nearest 1 (10 ^ 200 * 10 ^ 200) = 0 := by decide +kernel
  refine Nat.le_zero.1 ?_
  rw [← hlimit]
  refine nearest_mono hden (by positivity) (le_of_le_of_eq h ?_)
  rw [Nat.cast_one, Nat.cast_mul, Nat.cast_pow, Nat.cast_ofNat, ← pow_add, one_div, zpow_neg]
  exact congrArg _ (zpow_natCast 10 400)

theorem le_ten_pow_log2 (c : Nat) : (c : ℚ) ≤ 10 ^ (c.log2 + 1) := by
  have hlt : c < 2 ^ (c.log2 + 1) := Nat.lt_log2_self
  have hle : 2 ^ (c.log2 + 1) ≤ 10 ^ (c.log2 + 1) := Nat.pow_le_pow_left (by decide) _
  exact_mod_cast hlt.le.trans hle

/-- **A decimal is read as the magnitude nearest to its value**, and that also where the value is
not computed. -/
theorem nearestDecimal_eq (hden : 0 < den) (h : (num : ℚ) / den = c * 10 ^ e) :
    nearestDecimal c e = nearest num den := by
  have hpos : (0 : ℚ) < den := by exact_mod_cast hden
  unfold nearestDecimal
  rcases Nat.eq_zero_or_pos c with rfl | hc
  · rw [if_pos rfl]
    rw [Nat.cast_zero, zero_mul, div_eq_zero_iff] at h
    rw [Nat.cast_eq_zero.1 (h.resolve_right hpos.ne'), nearest_zero]
  have hone : (1 : ℚ) ≤ c := by exact_mod_cast hc
  rw [if_neg hc.ne']
  split
  · refine (nearest_of_great hden ?_).symm
    rw [h]
    have hle : (10 : ℚ) ^ (400 : ℤ) ≤ 10 ^ e := zpow_le_zpow_right₀ (by norm_num) (by omega)
    exact hle.trans (le_mul_of_one_le_left (zpow_ten_pos e).le hone)
  · split
    · obtain ⟨n, rfl⟩ := Int.eq_ofNat_of_zero_le ‹0 ≤ e›
      refine nearest_congr Nat.one_pos hden ?_
      rw [h, Nat.cast_one, div_one, Int.toNat_natCast, Nat.cast_mul, Nat.cast_pow, Nat.cast_ofNat,
        zpow_natCast]
    · split
      · refine (nearest_of_little hden ?_).symm
        rw [h]
        calc (c : ℚ) * 10 ^ e ≤ 10 ^ (c.log2 + 1) * 10 ^ e :=
              mul_le_mul_of_nonneg_right (le_ten_pow_log2 c) (zpow_ten_pos e).le
          _ = 10 ^ ((c.log2 + 1 : Nat) + e) := by
              rw [zpow_add₀ (by norm_num), zpow_natCast]
          _ ≤ 10 ^ (-400 : ℤ) := zpow_le_zpow_right₀ (by norm_num) (by omega)
      · obtain ⟨n, hn⟩ := Int.eq_ofNat_of_zero_le (show 0 ≤ -e by omega)
        obtain rfl : e = -n := by omega
        rw [neg_neg, Int.toNat_natCast]
        refine nearest_congr (Nat.pow_pos (by decide)) hden ?_
        rw [h, zpow_neg, zpow_natCast, Nat.cast_pow, Nat.cast_ofNat, div_eq_mul_inv]

/-- Decimals of greater values are read as no lesser magnitudes. -/
theorem nearestDecimal_mono (h : (c : ℚ) * 10 ^ e ≤ c' * 10 ^ e') :
    nearestDecimal c e ≤ nearestDecimal c' e' := by
  obtain ⟨num, den, hden, hvalue⟩ := exists_fraction c e
  obtain ⟨num', den', hden', hvalue'⟩ := exists_fraction c' e'
  rw [nearestDecimal_eq hden hvalue, nearestDecimal_eq hden' hvalue']
  exact nearest_mono hden hden' (by rwa [hvalue, hvalue'])

/-- Only the value of a decimal counts. -/
theorem nearestDecimal_congr (h : (c : ℚ) * 10 ^ e = c' * 10 ^ e') :
    nearestDecimal c e = nearestDecimal c' e' :=
  Nat.le_antisymm (nearestDecimal_mono h.le) (nearestDecimal_mono h.ge)

/-! ## The shortest decimal -/

/-- A neighbour is taken only if it reads back. -/
theorem reads_neighbour? {magnitude : Nat} {d : Decimal}
    (h : neighbour? magnitude num den e = some d) :
    nearestDecimal d.coefficient d.exponent = magnitude := by
  unfold neighbour? at h
  dsimp only at h
  generalize (if e < 0 then num * 10 ^ (-e).toNat else num) = n at h
  generalize (if e < 0 then den else den * 10 ^ e.toNat) = m at h
  split at h
  case isTrue hbelow =>
    split at h
    case isTrue habove =>
      cases h
      exact eq_of_beq (Bool.and_eq_true_iff.1 habove).1
    case isFalse =>
      cases h
      exact eq_of_beq hbelow
  case isFalse =>
    split at h
    case isTrue habove =>
      cases h
      exact eq_of_beq habove
    case isFalse => cases h

/-- The exact value of a fraction is a decimal if its denominator is a power of two. -/
theorem value_exactDecimal (num k : Nat) :
    (exactDecimal num k).value = (num : ℚ) / (2 ^ k : Nat) := by
  have hten : (10 : ℚ) ^ k = 5 ^ k * 2 ^ k := by
    rw [← mul_pow]
    norm_num
  have hfive : (5 : ℚ) ^ k ≠ 0 := pow_ne_zero k (by norm_num)
  unfold exactDecimal Decimal.value
  dsimp only
  rw [zpow_neg, zpow_natCast, hten, Nat.cast_mul, Nat.cast_pow, Nat.cast_pow, Nat.cast_ofNat,
    Nat.cast_ofNat, ← div_eq_mul_inv, mul_comm (num : ℚ), mul_div_mul_left _ _ hfive]

theorem reads_shortestFrom (hx : x.isFinite = true) (leading : ℤ) (count more : Nat) :
    let d := shortestFrom x.magnitude x.fraction.1 x.fraction.2 leading count more
    nearestDecimal d.coefficient d.exponent = x.magnitude := by
  induction more generalizing count with
  | zero =>
    have hpower : x.fraction.2 = 2 ^ x.fraction.2.log2 := by
      unfold fraction
      dsimp only
      split
      · rfl
      · rw [Nat.log2_two_pow]
    have hvalue := value_exactDecimal x.fraction.1 x.fraction.2.log2
    rw [← hpower] at hvalue
    exact (nearestDecimal_eq x.fraction_pos hvalue.symm).trans (nearest_size hx x.fraction_pos rfl)
  | succ more ih =>
    unfold shortestFrom
    cases hd : neighbour? x.magnitude x.fraction.1 x.fraction.2 (leading - count + 1) with
    | some d => exact reads_neighbour? hd
    | none => exact ih (count + 1)

/-- **The shortest decimal reads back** as the number that it was made for. -/
theorem nearestDecimal_shortest (hx : x.isFinite = true) :
    nearestDecimal x.shortest.coefficient x.shortest.exponent = x.magnitude := by
  unfold shortest
  dsimp only
  split
  case isTrue hzero =>
    have hsize : x.size = 0 := by
      unfold size
      rw [hzero, Nat.cast_zero, zero_div]
    exact (size_eq_zero.1 hsize).symm
  case isFalse => exact reads_shortestFrom hx _ 1 17

theorem shortest_congr (h : x.magnitude = y.magnitude) : x.shortest = y.shortest := by
  unfold shortest fraction exponent significand exponentField
  rw [h]

/-- Shortest decimals have the order of their numbers. -/
theorem value_shortest_le (hx : x.isFinite = true) (hy : y.isFinite = true) :
    x.shortest.value ≤ y.shortest.value ↔ x.magnitude ≤ y.magnitude := by
  have hmono : ∀ {x y : Double}, x.isFinite = true → y.isFinite = true →
      x.shortest.value ≤ y.shortest.value → x.magnitude ≤ y.magnitude := by
    intro x y hx hy h
    have hle := nearestDecimal_mono h
    rwa [nearestDecimal_shortest hx, nearestDecimal_shortest hy] at hle
  refine ⟨hmono hx hy, fun hle => le_of_not_gt fun hlt => ?_⟩
  have hsame : x.magnitude = y.magnitude := Nat.le_antisymm hle (hmono hy hx hlt.le)
  exact absurd (congrArg Decimal.value (shortest_congr hsame)) hlt.ne'

end Double

/-! ## Leading exponents -/

namespace Decimal

variable {d : Decimal}

theorem pow_digitCount (hc : 0 < c) : 10 ^ (digitCount c - 1) ≤ c ∧ c < 10 ^ digitCount c := by
  unfold digitCount
  rw [if_neg hc.ne']
  have hpos : 0 < (Nat.toDigits 10 c).length := List.length_pos_of_ne_nil Nat.toDigits_ne_nil
  refine ⟨?_, (Nat.length_toDigits_le_iff (by decide) hpos).1 le_rfl⟩
  rcases Nat.eq_or_lt_of_le hpos with hone | hlt
  · rw [← hone]
    exact hc
  · refine Nat.le_of_not_lt fun hsmall => ?_
    have hle := (Nat.length_toDigits_le_iff (by decide) (by omega)).2 hsmall
    omega

/-- The leading exponent is that of the last power of ten which the value reaches. -/
theorem le_leadingExponent_iff (hd : 0 < d.coefficient) {k : ℤ} :
    k ≤ d.leadingExponent ↔ (10 : ℚ) ^ k ≤ d.value := by
  obtain ⟨hle, hlt⟩ := pow_digitCount hd
  have hpos := Double.zpow_ten_pos d.exponent
  have hten : (1 : ℚ) < 10 := by norm_num
  have hne : (10 : ℚ) ≠ 0 := by norm_num
  have hcount : 0 < digitCount d.coefficient := by
    refine Nat.pos_of_ne_zero fun hzero => ?_
    rw [hzero, Nat.pow_zero] at hlt
    omega
  unfold leadingExponent value
  constructor
  · intro hk
    calc (10 : ℚ) ^ k ≤ 10 ^ ((digitCount d.coefficient - 1 : Nat) + d.exponent) :=
          zpow_le_zpow_right₀ hten.le (by omega)
      _ = 10 ^ (digitCount d.coefficient - 1) * 10 ^ d.exponent := by
          rw [zpow_add₀ hne, zpow_natCast]
      _ ≤ d.coefficient * 10 ^ d.exponent := by
          refine mul_le_mul_of_nonneg_right ?_ hpos.le
          exact_mod_cast hle
  · intro hvalue
    have hbelow : (10 : ℚ) ^ k < 10 ^ (digitCount d.coefficient + d.exponent) := by
      rw [zpow_add₀ hne, zpow_natCast]
      refine lt_of_le_of_lt hvalue (mul_lt_mul_of_pos_right ?_ hpos)
      exact_mod_cast hlt
    have hlt := (zpow_lt_zpow_iff_right₀ hten).1 hbelow
    omega

end Decimal

namespace Double

theorem coefficient_shortest_pos (hx : x.isFinite = true) (hne : x.magnitude ≠ 0) :
    0 < x.shortest.coefficient := by
  refine Nat.pos_of_ne_zero fun hzero => hne ?_
  have hread := nearestDecimal_shortest hx
  rw [hzero] at hread
  exact hread.symm

/-- The exponents with which numbers are written are not great. -/
theorem natAbs_leadingExponent_lt (hx : x.isFinite = true) (hne : x.magnitude ≠ 0) :
    x.shortest.leadingExponent.natAbs < 2 ^ 16 := by
  have hpos := coefficient_shortest_pos hx hne
  have hfinite : x.magnitude < infinityMagnitude := of_decide_eq_true hx
  obtain ⟨num, den, hden, hvalue⟩ := exists_fraction x.shortest.coefficient x.shortest.exponent
  have hread := nearestDecimal_shortest hx
  rw [nearestDecimal_eq hden hvalue] at hread
  have habove : ¬ 400 ≤ x.shortest.leadingExponent := by
    intro h
    rw [nearest_of_great hden (hvalue ▸ (Decimal.le_leadingExponent_iff hpos).1 h)] at hread
    omega
  have hbelow : -400 ≤ x.shortest.leadingExponent := by
    by_contra h
    have hlittle := le_of_not_ge (mt (Decimal.le_leadingExponent_iff hpos).2 h)
    exact hne (hread.symm.trans (nearest_of_little hden (hvalue ▸ hlittle)))
  omega

/-- Where a power of ten is the shortest decimal of a number that is no less than it, the leading
exponents of all numbers tell on which side of this power they are. -/
theorem le_leadingExponent_shortest {k : ℤ} (hx : x.isFinite = true) (hne : x.magnitude ≠ 0)
    (hy : y.isFinite = true) (hpower : y.shortest = ⟨1, k⟩) (hle : (10 : ℚ) ^ k ≤ y.size) :
    k ≤ x.shortest.leadingExponent ↔ (10 : ℚ) ^ k ≤ x.size := by
  have hvalue : y.shortest.value = 10 ^ k := by
    rw [hpower]
    unfold Decimal.value
    rw [Nat.cast_one, one_mul]
  rw [Decimal.le_leadingExponent_iff (coefficient_shortest_pos hx hne), ← hvalue,
    value_shortest_le hy hx]
  constructor
  · intro h
    rw [hvalue]
    exact hle.trans ((size_le_size hy hx).2 h)
  · intro h
    obtain ⟨num, den, hden, hfraction⟩ :=
      exists_fraction y.shortest.coefficient y.shortest.exponent
    have hread := nearestDecimal_shortest hy
    rw [nearestDecimal_eq hden hfraction] at hread
    rw [← hread, ← nearest_size hx x.fraction_pos rfl]
    exact nearest_mono hden x.fraction_pos (hfraction.trans_le h)

/-- The number nearest to a thousandth is a little more than it. -/
theorem thousandth_le_size : (1 / 1000 : ℚ) ≤ (⟨0x3F50624DD2F1A9FC⟩ : Double).size := by
  have hfraction : (⟨0x3F50624DD2F1A9FC⟩ : Double).fraction = (0x10624DD2F1A9FC, 2 ^ 62) := by
    decide +kernel
  unfold size
  rw [hfraction]
  norm_num

theorem size_tenMillion : (⟨0x416312D000000000⟩ : Double).size = 10 ^ 7 := by
  have hfraction : (⟨0x416312D000000000⟩ : Double).fraction = (10 ^ 7 * 2 ^ 29, 2 ^ 29) := by
    decide +kernel
  unfold size
  rw [hfraction]
  norm_num

/-- The numbers from a thousandth up to ten million are known by their leading exponents. -/
theorem leadingExponent_shortest_mem (hx : x.isFinite = true) (hne : x.magnitude ≠ 0) :
    -3 ≤ x.shortest.leadingExponent ∧ x.shortest.leadingExponent ≤ 6 ↔
      1 / 1000 ≤ x.size ∧ x.size < 10 ^ 7 := by
  have hthree : (10 : ℚ) ^ (-3 : ℤ) = 1 / 1000 := by norm_num
  have hseven : (10 : ℚ) ^ (7 : ℤ) = 10 ^ 7 := by norm_num
  have hleast := @le_leadingExponent_shortest x ⟨0x3F50624DD2F1A9FC⟩ (-3) hx hne rfl
    (by decide +kernel) (hthree.trans_le thousandth_le_size)
  have hbeyond := @le_leadingExponent_shortest x ⟨0x416312D000000000⟩ 7 hx hne rfl
    (by decide +kernel) (hseven.trans_le size_tenMillion.ge)
  rw [hthree] at hleast
  rw [hseven] at hbeyond
  rw [hleast, ← not_le, ← hbeyond]
  refine and_congr_right fun _ => ?_
  omega

end Double

end SmallScript
