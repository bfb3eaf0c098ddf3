/-
  Rounding keeps the order of numbers.

  A fraction is rounded on a grid whose step depends on its size: it is a power of two, so that the
  fraction has 53 binary digits before it, or the least step there is (`LastPlace`).  Greater
  fractions have greater steps.  On one grid rounding to a whole number keeps the order, since what
  decides is on which side of a middle between two whole numbers a fraction lies
  (`lt_roundDiv_iff`); and from one grid to the next the magnitudes go on where they stopped.  So the
  magnitude nearest to a fraction only grows with the fraction (`nearest_mono`).

  A finite number is a fraction itself (`size`), and it is the nearest to itself (`nearest_size`).
  From these two facts come all that is said elsewhere of reading and writing numbers; that rounding
  is to the nearest is not needed.
-/
import Mathlib.Algebra.Order.Field.Power
import Mathlib.Algebra.Order.Field.Rat
import Mathlib.Tactic.Linarith
import Mathlib.Tactic.Positivity
import Mathlib.Tactic.Ring
import SmallScript.Number.Rounding

namespace SmallScript

/-! ## Rounding to whole numbers -/

section Whole

variable {k num den num' den' : Nat}

/-- A whole part is rounded up behind a middle, and in a middle if it is odd. -/
theorem roundDiv_eq (num den : Nat) : roundDiv num den = num / den +
    if den < 2 * (num % den) ∨ den = 2 * (num % den) ∧ num / den % 2 = 1 then 1 else 0 := by
  unfold roundDiv
  dsimp only
  split
  · rw [if_neg (by omega), Nat.add_zero]
  · split
    · rw [if_pos (by omega)]
    · split
      · rw [if_neg (by omega), Nat.add_zero]
      · rw [if_pos (by omega)]

/-- A fraction is rounded to more than `k` if it lies behind the middle that follows `k`, or in that
middle if `k` is odd. -/
theorem lt_roundDiv_iff (hden : 0 < den) : k < roundDiv num den ↔
    (k : ℚ) + 1 / 2 < num / den ∨ (k : ℚ) + 1 / 2 = num / den ∧ k % 2 = 1 := by
  have hpos : (0 : ℚ) < den := by exact_mod_cast hden
  have hlt : (k : ℚ) + 1 / 2 < num / den ↔ 2 * (den * k) + den < 2 * num := by
    rw [lt_div_iff₀ hpos, ← Nat.cast_lt (α := ℚ)]
    push_cast
    constructor <;> intro h <;> linarith
  have heq : (k : ℚ) + 1 / 2 = num / den ↔ 2 * (den * k) + den = 2 * num := by
    rw [eq_div_iff hpos.ne', ← Nat.cast_inj (R := ℚ)]
    push_cast
    constructor <;> intro h <;> linarith
  have hsplit : den * (num / den) + num % den = num := Nat.div_add_mod num den
  have hrest : num % den < den := Nat.mod_lt _ hden
  rw [hlt, heq, roundDiv_eq]
  rcases Nat.lt_trichotomy k (num / den) with hk | hk | hk
  · -- The whole part alone is more than `k`.
    have hle : den * (k + 1) ≤ den * (num / den) := Nat.mul_le_mul_left den hk
    rw [Nat.mul_add, Nat.mul_one] at hle
    refine iff_of_true (Nat.lt_of_lt_of_le hk (Nat.le_add_right _ _)) (.inl ?_)
    omega
  · rw [← hk] at hsplit ⊢
    split <;> omega
  · have hle : den * (num / den + 1) ≤ den * k := Nat.mul_le_mul_left den hk
    rw [Nat.mul_add, Nat.mul_one] at hle
    refine iff_of_false ?_ ?_
    · split <;> omega
    · omega

/-- A greater fraction is not rounded to less. -/
theorem roundDiv_mono (hden : 0 < den) (hden' : 0 < den') (h : (num : ℚ) / den ≤ num' / den') :
    roundDiv num den ≤ roundDiv num' den' := by
  refine Nat.le_of_not_lt fun hlt => ?_
  have hk := (lt_roundDiv_iff hden).1 hlt
  refine Nat.lt_irrefl (roundDiv num' den') ((lt_roundDiv_iff hden').2 ?_)
  rcases hk with hk | ⟨hk, hodd⟩
  · exact .inl (lt_of_lt_of_le hk h)
  · rcases lt_or_eq_of_le h with hlt | heq
    · exact .inl (hk ▸ hlt)
    · exact .inr ⟨hk.trans heq, hodd⟩

/-- A whole number is rounded to itself. -/
theorem roundDiv_one (n : Nat) : roundDiv n 1 = n := by
  rw [roundDiv_eq, Nat.mod_one, Nat.div_one, if_neg (by omega), Nat.add_zero]

/-- A whole number is rounded to itself. -/
theorem roundDiv_of_eq {n : Nat} (hden : 0 < den) (h : (num : ℚ) / den = n) :
    roundDiv num den = n := by
  have hone : (n : ℚ) = n / (1 : Nat) := by rw [Nat.cast_one, div_one]
  rw [← roundDiv_one n]
  exact Nat.le_antisymm (roundDiv_mono hden Nat.one_pos (h.trans hone).le)
    (roundDiv_mono Nat.one_pos hden (h.trans hone).ge)

/-- So what is no more than a whole number is not rounded past it. -/
theorem roundDiv_le {n : Nat} (hden : 0 < den) (h : (num : ℚ) / den ≤ n) :
    roundDiv num den ≤ n := by
  have hone : (n : ℚ) = n / (1 : Nat) := by rw [Nat.cast_one, div_one]
  have hmono := roundDiv_mono hden Nat.one_pos (h.trans hone.le)
  rwa [roundDiv_one] at hmono

/-- Nor is what is no less. -/
theorem le_roundDiv {n : Nat} (hden : 0 < den) (h : (n : ℚ) ≤ num / den) :
    n ≤ roundDiv num den := by
  have hone : (n : ℚ) / (1 : Nat) = n := by rw [Nat.cast_one, div_one]
  have hmono := roundDiv_mono Nat.one_pos hden (hone.le.trans h)
  rwa [roundDiv_one] at hmono

end Whole

namespace Double

/-! ## Steps -/

section Steps

variable {r r' : ℚ} {q q' : ℤ} {num den : Nat}

/-- The fraction `r` is rounded to a multiple of `2 ^ q`. -/
structure LastPlace (r : ℚ) (q : ℤ) : Prop where
  least : -1074 ≤ q
  lt : r < 2 ^ (q + 53)
  le : q = -1074 ∨ 2 ^ (q + 52) ≤ r

theorem zpow_two_lt_iff {m n : ℤ} : (2 : ℚ) ^ m < 2 ^ n ↔ m < n :=
  zpow_lt_zpow_iff_right₀ one_lt_two

/-- So many steps make a power of two. -/
theorem zpow_two_add (q : ℤ) (n : Nat) : (2 : ℚ) ^ (q + n) = (2 ^ n : Nat) * 2 ^ q := by
  rw [zpow_add₀ two_ne_zero, zpow_natCast, Nat.cast_pow, Nat.cast_ofNat, mul_comm]

/-- Greater fractions have greater steps. -/
theorem LastPlace.mono (h : LastPlace r q) (h' : LastPlace r' q') (hr : r ≤ r') : q ≤ q' := by
  rcases h.le with hq | hle
  · exact hq.trans_le h'.least
  · have hlt : (2 : ℚ) ^ (q + 52) < 2 ^ (q' + 53) := lt_of_le_of_lt (hle.trans hr) h'.lt
    rw [zpow_two_lt_iff] at hlt
    omega

/-- Every fraction has one step. -/
theorem LastPlace.unique (h : LastPlace r q) (h' : LastPlace r q') : q = q' :=
  le_antisymm (h.mono h' le_rfl) (h'.mono h le_rfl)

theorem zpow_two_eq_div (a b : Nat) : (2 : ℚ) ^ ((a : ℤ) - b) = 2 ^ a / 2 ^ b := by
  rw [zpow_sub₀ two_ne_zero, zpow_natCast, zpow_natCast]

/-- Two to its binary logarithm is no more than a number. -/
theorem pow_log2_le {n : Nat} (hn : 0 < n) : (2 : ℚ) ^ n.log2 ≤ n := by
  exact_mod_cast Nat.log2_self_le hn.ne'

theorem lt_pow_log2 (n : Nat) : (n : ℚ) < 2 ^ (n.log2 + 1) := by
  exact_mod_cast Nat.lt_log2_self (n := n)

/-- Whether a fraction reaches a power of two is decided without fractions. -/
theorem reaches_iff (hden : 0 < den) (e : ℤ) :
    (if 0 ≤ e then decide (den * 2 ^ e.toNat ≤ num) else decide (den ≤ num * 2 ^ (-e).toNat)) = true
      ↔ (2 : ℚ) ^ e ≤ num / den := by
  have hpos : (0 : ℚ) < den := by exact_mod_cast hden
  rw [le_div_iff₀ hpos]
  split
  · obtain ⟨n, rfl⟩ := Int.eq_ofNat_of_zero_le ‹0 ≤ e›
    rw [decide_eq_true_iff, Int.toNat_natCast, ← Nat.cast_le (α := ℚ), zpow_natCast]
    push_cast
    rw [mul_comm]
  · obtain ⟨n, hn⟩ := Int.eq_ofNat_of_zero_le (show 0 ≤ -e by omega)
    obtain rfl : e = -n := by omega
    have htwo : (0 : ℚ) < 2 ^ n := by positivity
    rw [decide_eq_true_iff, neg_neg, Int.toNat_natCast, ← Nat.cast_le (α := ℚ), zpow_neg,
      zpow_natCast, inv_mul_le_iff₀ htwo]
    push_cast
    rw [mul_comm (num : ℚ)]

/-- The binary exponent is that of the last power of two which the fraction reaches. -/
theorem binaryExponent_spec (hnum : 0 < num) (hden : 0 < den) :
    (2 : ℚ) ^ binaryExponent num den ≤ num / den ∧
      (num / den : ℚ) < 2 ^ (binaryExponent num den + 1) := by
  have hpos : (0 : ℚ) < den := by exact_mod_cast hden
  have hbelow : (2 : ℚ) ^ ((num.log2 : ℤ) - den.log2 - 1) ≤ num / den := by
    rw [le_div_iff₀ hpos]
    have hsplit : ((num.log2 : ℤ) - den.log2 - 1) = num.log2 - (den.log2 + 1 : Nat) := by
      push_cast
      ring
    rw [hsplit, zpow_two_eq_div, div_mul_eq_mul_div, div_le_iff₀ (by positivity)]
    exact mul_le_mul (pow_log2_le hnum) (lt_pow_log2 den).le hpos.le (Nat.cast_nonneg _)
  have habove : (num / den : ℚ) < 2 ^ ((num.log2 : ℤ) - den.log2 + 1) := by
    have hsplit : ((num.log2 : ℤ) - den.log2 + 1) = (num.log2 + 1 : Nat) - den.log2 := by
      push_cast
      ring
    rw [hsplit, zpow_two_eq_div, div_lt_div_iff₀ hpos (by positivity)]
    exact mul_lt_mul (lt_pow_log2 num) (pow_log2_le hden) (by positivity) (by positivity)
  unfold binaryExponent
  dsimp only
  by_cases h : (2 : ℚ) ^ ((num.log2 : ℤ) - den.log2) ≤ num / den
  · rw [if_pos ((reaches_iff hden _).2 h)]
    exact ⟨h, habove⟩
  · rw [if_neg (mt (reaches_iff hden _).1 h), sub_add_cancel]
    exact ⟨hbelow, lt_of_not_ge h⟩

/-- The step that is computed is the one of the fraction. -/
theorem lastPlace_binaryExponent (hnum : 0 < num) (hden : 0 < den) :
    LastPlace (num / den) (max (binaryExponent num den - 52) (-1074)) := by
  obtain ⟨hle, hlt⟩ := binaryExponent_spec hnum hden
  refine ⟨le_max_right _ _, lt_of_lt_of_le hlt ?_, ?_⟩
  · exact zpow_le_zpow_right₀ one_le_two (by omega)
  · rcases le_total (binaryExponent num den - 52) (-1074) with h | h
    · exact .inl (max_eq_right h)
    · rw [max_eq_left h, sub_add_cancel]
      exact .inr hle

end Steps

/-! ## The nearest magnitude -/

section Nearest

variable {num den num' den' : Nat} {q : ℤ}

/-- Nothing is rounded to nothing. -/
theorem nearest_zero (den : Nat) : nearest 0 den = 0 := rfl

/-- No fraction is rounded past infinity. -/
theorem nearest_le_infinity (num den : Nat) : nearest num den ≤ infinityMagnitude := by
  unfold nearest
  split
  · exact Nat.zero_le _
  · exact Nat.min_le_left _ _

/-- A fraction is rounded to a whole number of steps, and the magnitudes of its step go on where
those of the step before stop. -/
theorem nearest_eq (hnum : 0 < num) (hden : 0 < den) (hq : LastPlace (num / den) q) :
    ∃ n d : Nat, 0 < d ∧ (n : ℚ) / d = num / den / 2 ^ q ∧
      nearest num den = min infinityMagnitude ((q + 1074).toNat * 2 ^ 52 + roundDiv n d) := by
  obtain rfl := hq.unique (lastPlace_binaryExponent hnum hden)
  unfold nearest
  rw [if_neg hnum.ne']
  dsimp only
  generalize max (binaryExponent num den - 52) (-1074) = q
  split
  · obtain ⟨n, rfl⟩ := Int.eq_ofNat_of_zero_le ‹0 ≤ q›
    refine ⟨num, den * 2 ^ n, Nat.mul_pos hden (Nat.two_pow_pos n), ?_, rfl⟩
    rw [zpow_natCast, div_div]
    push_cast
    rfl
  · obtain ⟨n, hn⟩ := Int.eq_ofNat_of_zero_le (show 0 ≤ -q by omega)
    obtain rfl : q = -n := by omega
    rw [neg_neg, Int.toNat_natCast]
    refine ⟨num * 2 ^ n, den, hden, ?_, rfl⟩
    rw [zpow_neg, zpow_natCast, div_inv_eq_mul, div_mul_eq_mul_div]
    push_cast
    rfl

/-- No more steps than to the end of the grid. -/
theorem LastPlace.roundDiv_le {r : ℚ} (hq : LastPlace r q) (hden : 0 < den)
    (h : (num / den : ℚ) = r / 2 ^ q) : roundDiv num den ≤ 2 ^ 53 := by
  refine SmallScript.roundDiv_le hden ?_
  rw [h, div_le_iff₀ (zpow_pos two_pos q), ← zpow_two_add]
  exact hq.lt.le

/-- No fewer steps than to its beginning, unless there is no finer grid. -/
theorem LastPlace.le_roundDiv {r : ℚ} (hq : LastPlace r q) (hcoarse : -1074 < q) (hden : 0 < den)
    (h : (num / den : ℚ) = r / 2 ^ q) : 2 ^ 52 ≤ roundDiv num den := by
  refine SmallScript.le_roundDiv hden ?_
  rw [h, le_div_iff₀ (zpow_pos two_pos q), ← zpow_two_add]
  exact hq.le.resolve_left hcoarse.ne'

/-- **Rounding keeps the order**: a greater fraction has no lesser nearest magnitude. -/
theorem nearest_mono (hden : 0 < den) (hden' : 0 < den') (h : (num : ℚ) / den ≤ num' / den') :
    nearest num den ≤ nearest num' den' := by
  rcases Nat.eq_zero_or_pos num with rfl | hnum
  · exact Nat.zero_le _
  have hpos : (0 : ℚ) < num / den := by positivity
  have hnum' : 0 < num' := by
    refine Nat.pos_of_ne_zero ?_
    rintro rfl
    rw [Nat.cast_zero, zero_div] at h
    exact absurd h (not_le.2 hpos)
  have hplace := lastPlace_binaryExponent hnum hden
  have hplace' := lastPlace_binaryExponent hnum' hden'
  generalize max (binaryExponent num den - 52) (-1074) = q at hplace
  generalize max (binaryExponent num' den' - 52) (-1074) = q' at hplace'
  obtain ⟨n, d, hd, hnd, heq⟩ := nearest_eq hnum hden hplace
  obtain ⟨n', d', hd', hnd', heq'⟩ := nearest_eq hnum' hden' hplace'
  rw [heq, heq']
  refine min_le_min_left _ ?_
  rcases lt_or_eq_of_le (hplace.mono hplace' h) with hlt | rfl
  · -- The greater fraction is on a coarser grid, which begins where the finer one ends.
    have hle := hplace.roundDiv_le hd hnd
    have hge := hplace'.le_roundDiv (hplace.least.trans_lt hlt) hd' hnd'
    have hleast := hplace.least
    omega
  · refine Nat.add_le_add_left (roundDiv_mono hd hd' ?_) _
    rw [hnd, hnd']
    exact div_le_div_of_nonneg_right h (zpow_pos two_pos q).le

/-- Equal fractions have the same nearest magnitude. -/
theorem nearest_congr (hden : 0 < den) (hden' : 0 < den') (h : (num : ℚ) / den = num' / den') :
    nearest num den = nearest num' den' :=
  Nat.le_antisymm (nearest_mono hden hden' h.le) (nearest_mono hden' hden h.ge)

end Nearest

/-! ## Numbers as fractions -/

section Size

variable {x y : Double} {num den : Nat}

/-- The value of a finite number without its sign. -/
def size (x : Double) : ℚ := x.fraction.1 / x.fraction.2

theorem fraction_pos (x : Double) : 0 < x.fraction.2 := by
  unfold fraction
  dsimp only
  split
  · exact Nat.one_pos
  · exact Nat.two_pow_pos _

/-- The size of a number is its significand on the grid of its exponent. -/
theorem size_eq (x : Double) : x.size = x.significand * 2 ^ x.exponent := by
  unfold size fraction
  dsimp only
  split
  · obtain ⟨n, hn⟩ := Int.eq_ofNat_of_zero_le ‹0 ≤ x.exponent›
    rw [hn, Int.toNat_natCast, zpow_natCast]
    push_cast
    rw [div_one]
  · obtain ⟨n, hn⟩ := Int.eq_ofNat_of_zero_le (show 0 ≤ -x.exponent by omega)
    obtain hexponent : x.exponent = -n := by omega
    rw [hexponent, neg_neg, Int.toNat_natCast, zpow_neg, zpow_natCast, div_eq_mul_inv]
    push_cast
    rfl

/-- Magnitudes are numbered by their significands, step after step. -/
theorem magnitude_eq (x : Double) :
    x.magnitude = (x.exponent + 1074).toNat * 2 ^ 52 + x.significand := by
  have hsplit : 2 ^ 52 * x.exponentField + x.magnitude % 2 ^ 52 = x.magnitude :=
    Nat.div_add_mod x.magnitude (2 ^ 52)
  unfold exponent significand
  split <;> omega

/-- A significand has 53 binary digits. -/
theorem significand_lt (x : Double) : x.significand < 2 ^ 53 := by
  have hrest : x.magnitude % 2 ^ 52 < 2 ^ 52 := Nat.mod_lt _ (Nat.two_pow_pos 52)
  have hsplit : 2 ^ 52 * x.exponentField + x.magnitude % 2 ^ 52 = x.magnitude :=
    Nat.div_add_mod x.magnitude (2 ^ 52)
  unfold significand
  split <;> omega

/-- It has fewer only on the finest grid. -/
theorem exponent_cases (x : Double) :
    -1074 ≤ x.exponent ∧ (x.exponent = -1074 ∨ 2 ^ 52 ≤ x.significand) := by
  unfold exponent significand
  split <;> omega

/-- Its last place is that of its significand. -/
theorem lastPlace_size (x : Double) : LastPlace x.size x.exponent := by
  have htwo : (0 : ℚ) < 2 ^ x.exponent := zpow_pos two_pos _
  obtain ⟨hleast, hnormal⟩ := x.exponent_cases
  rw [size_eq]
  refine ⟨hleast, ?_, hnormal.imp_right fun hle => ?_⟩
  · refine lt_of_lt_of_eq ?_ (zpow_two_add x.exponent 53).symm
    exact mul_lt_mul_of_pos_right (Nat.cast_lt.2 x.significand_lt) htwo
  · refine le_of_eq_of_le (zpow_two_add x.exponent 52) ?_
    exact mul_le_mul_of_nonneg_right (Nat.cast_le.2 hle) htwo.le

/-- It is zero for zero alone. -/
theorem significand_eq_zero : x.significand = 0 ↔ x.magnitude = 0 := by
  have hsplit : 2 ^ 52 * x.exponentField + x.magnitude % 2 ^ 52 = x.magnitude :=
    Nat.div_add_mod x.magnitude (2 ^ 52)
  unfold significand
  split <;> omega

/-- A size does not depend on the sign. -/
theorem size_congr (h : x.magnitude = y.magnitude) : x.size = y.size := by
  unfold size fraction exponent significand exponentField
  rw [h]

/-- Only zero has no size. -/
theorem size_eq_zero : x.size = 0 ↔ x.magnitude = 0 := by
  rw [size_eq, mul_eq_zero_iff_right (zpow_pos two_pos _).ne', Nat.cast_eq_zero,
    significand_eq_zero]

/-- **A finite number is the nearest to itself**, however its value is written as a fraction. -/
theorem nearest_size (hx : x.isFinite = true) (hden : 0 < den) (h : (num : ℚ) / den = x.size) :
    nearest num den = x.magnitude := by
  have hfinite : x.magnitude < infinityMagnitude := of_decide_eq_true hx
  have hpos : (0 : ℚ) < den := by exact_mod_cast hden
  rcases Nat.eq_zero_or_pos num with rfl | hnum
  · rw [Nat.cast_zero, zero_div] at h
    rw [nearest_zero, size_eq_zero.1 h.symm]
  · obtain ⟨n, d, hd, hnd, heq⟩ := nearest_eq hnum hden (h ▸ x.lastPlace_size)
    have hround : roundDiv n d = x.significand := by
      refine roundDiv_of_eq hd ?_
      rw [hnd, h, size_eq, mul_div_cancel_right₀ _ (zpow_pos two_pos _).ne']
    rw [heq, hround, ← magnitude_eq]
    exact Nat.min_eq_right hfinite.le

/-- Numbers are ordered by their magnitudes. -/
theorem size_le_size (hx : x.isFinite = true) (hy : y.isFinite = true) :
    x.size ≤ y.size ↔ x.magnitude ≤ y.magnitude := by
  have hmono : ∀ {x y : Double}, x.isFinite = true → y.isFinite = true → x.size ≤ y.size →
      x.magnitude ≤ y.magnitude := by
    intro x y hx hy h
    have hle := nearest_mono x.fraction_pos y.fraction_pos h
    rwa [nearest_size hx x.fraction_pos rfl, nearest_size hy y.fraction_pos rfl] at hle
  refine ⟨hmono hx hy, fun hle => le_of_not_gt fun hlt => ?_⟩
  -- Of two numbers with the same magnitude neither is greater.
  have hsame : x.magnitude = y.magnitude := Nat.le_antisymm hle (hmono hy hx hlt.le)
  exact absurd (size_congr hsame) hlt.ne'

end Size

end Double

end SmallScript
