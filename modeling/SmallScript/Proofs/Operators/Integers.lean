/-
  Arithmetic on integers of 64 bits.

  Among the integers without bounds every operator has one exact result (`ArithOp.exact`), and what
  is answered is that result modulo `2 ^ 64`, in the range of 64 bits (`Operator.onInts_exact`).
  So a law of the integers is a law of the language as soon as it can be read modulo `2 ^ 64`: a
  quotient times its divisor, and the remainder, give the number that was divided even where the
  quotient does not fit.
-/
import SmallScript.Operator

namespace SmallScript

/-! ## Exact results -/

namespace ArithOp

/-- The result among the integers without bounds.  A quotient is cut off toward zero. -/
def exact : ArithOp → Int → Int → Int
  | add, m, n => m + n
  | sub, m, n => m - n
  | mul, m, n => m * n
  | div, m, n => m.tdiv n
  | rem, m, n => m.tmod n

/-- Whether an operator has no result where its right operand is zero. -/
def divides : ArithOp → Bool
  | add | sub | mul => false
  | div | rem => true

end ArithOp

/-- What is left over in a division is less than the divisor. -/
theorem natAbs_tmod_lt {n : Int} (hn : n ≠ 0) (m : Int) : (m.tmod n).natAbs < n.natAbs := by
  have hpos : 0 < n.natAbs := Int.natAbs_pos.2 hn
  rw [Int.natAbs_tmod]
  exact Nat.mod_lt _ hpos

/-- What is left over in a division is nothing, or has the sign of the number that is divided. -/
theorem tmod_eq_zero_or_sign (m n : Int) : m.tmod n = 0 ∨ (m.tmod n).sign = m.sign := by
  by_cases hdvd : n ∣ m
  · exact .inl (Int.tmod_eq_zero_of_dvd hdvd)
  · refine .inr ?_
    rw [Int.sign_tmod, if_neg hdvd]

/-! ## Results of 64 bits -/

theorem ofInt_toInt_tdiv (a b : Int64) : Int64.ofInt (a.toInt.tdiv b.toInt) = a / b := by
  rw [Int64.ofInt_eq_iff_bmod_eq_toInt, Int64.toInt_div]

/-- A remainder always fits. -/
theorem ofInt_toInt_tmod (a b : Int64) : Int64.ofInt (a.toInt.tmod b.toInt) = a % b := by
  rw [← Int64.toInt_mod, Int64.ofInt_toInt]

/-- A quotient times its divisor, and the remainder, give the number that was divided, whether the
quotient fits or not. -/
theorem div_mul_add_mod (a b : Int64) : a / b * b + a % b = a := by
  have hexact : a.toInt.tdiv b.toInt * b.toInt + a.toInt.tmod b.toInt = a.toInt :=
    Int.tdiv_mul_add_tmod a.toInt b.toInt
  calc a / b * b + a % b
      = Int64.ofInt (a.toInt.tdiv b.toInt) * Int64.ofInt b.toInt +
          Int64.ofInt (a.toInt.tmod b.toInt) := by
        rw [Int64.ofInt_toInt, ofInt_toInt_tmod, ofInt_toInt_tdiv]
    _ = Int64.ofInt (a.toInt.tdiv b.toInt * b.toInt + a.toInt.tmod b.toInt) := by
        rw [Int64.ofInt_add, Int64.ofInt_mul]
    _ = a := by rw [hexact, Int64.ofInt_toInt]

namespace Operator

variable {op : ArithOp} {a b : Int64}

/-- An operator answers its exact result, as far as it fits. -/
theorem onInts_exact (hb : op.divides = true → b ≠ 0) :
    onInts op a b = .ok (Int64.ofInt (op.exact a.toInt b.toInt)) := by
  unfold onInts ArithOp.exact
  cases op with
  | add => rw [Int64.ofInt_add, Int64.ofInt_toInt, Int64.ofInt_toInt]
  | sub => rw [Int64.ofInt_sub, Int64.ofInt_toInt, Int64.ofInt_toInt]
  | mul => rw [Int64.ofInt_mul, Int64.ofInt_toInt, Int64.ofInt_toInt]
  | div =>
    rw [ofInt_toInt_tdiv]
    exact if_neg (hb rfl)
  | rem =>
    rw [ofInt_toInt_tmod]
    exact if_neg (hb rfl)

theorem onInts_zero (hop : op.divides = true) : onInts op a 0 = .error .divisionByZero := by
  cases op with
  | div | rem => rfl
  | _ => cases hop

/-- An operator that divides fails for a zero, and nothing else fails. -/
theorem onInts_error_iff {f : Fault} :
    onInts op a b = .error f ↔ f = .divisionByZero ∧ b = 0 ∧ op.divides = true := by
  by_cases hzero : op.divides = true ∧ b = 0
  · obtain ⟨hop, rfl⟩ := hzero
    rw [onInts_zero hop]
    constructor
    · rintro ⟨⟩
      exact ⟨rfl, rfl, hop⟩
    · rintro ⟨rfl, -⟩
      rfl
  · rw [onInts_exact fun hop hb => hzero ⟨hop, hb⟩]
    constructor
    · rintro ⟨⟩
    · rintro ⟨-, hb, hop⟩
      exact absurd ⟨hop, hb⟩ hzero

theorem binary_ints (h : Heap) (op : ArithOp) (a b : Int64) :
    binary h (.arith op) (.int a) (.int b) = (onInts op a b).map fun n => .value (.int n) := by
  cases op <;> rfl

theorem binary_exact (h : Heap) (hb : op.divides = true → b ≠ 0) :
    binary h (.arith op) (.int a) (.int b) =
      .ok (.value (.int (Int64.ofInt (op.exact a.toInt b.toInt)))) := by
  rw [binary_ints, onInts_exact hb]
  rfl

/-- Between integers the only fault is a division by zero. -/
theorem binary_ints_error_iff {h : Heap} {op : BinaryOp} {f : Fault} :
    binary h op (.int a) (.int b) = .error f ↔
      f = .divisionByZero ∧ b = 0 ∧ (op = .arith .div ∨ op = .arith .rem) := by
  have hother : ∀ p : Product, op ≠ .arith .div → op ≠ .arith .rem →
      (Except.ok p = .error f ↔
        f = .divisionByZero ∧ b = 0 ∧ (op = .arith .div ∨ op = .arith .rem)) := by
    intro p hdiv hrem
    exact iff_of_false nofun fun hf => hf.2.2.elim hdiv hrem
  cases op with
  | arith op =>
    have hop : op.divides = true ↔
        BinaryOp.arith op = .arith .div ∨ BinaryOp.arith op = .arith .rem := by
      cases op <;> simp [ArithOp.divides]
    rw [← hop, ← onInts_error_iff, binary_ints]
    cases onInts op a b <;> simp [Except.map]
  | order question => exact hother _ nofun nofun
  | eq => exact hother _ nofun nofun
  | notEq => exact hother _ nofun nofun

end Operator

/-- **Arithmetic on integers of 64 bits.**

1. An operator between integers fails just where it divides by zero.
2. Everywhere else `+`, `-`, `*`, `/` and `%` answer their exact result modulo `2 ^ 64`, in the
   range of 64 bits.
3. The least integer divided by -1 is itself.
4. A remainder is less than its divisor, and is zero or has the sign of the number that is divided;
   the quotient times the divisor, and the remainder, give that number, computed by the operators
   themselves.
5. An integer with a minus in front is zero less that integer. -/
theorem integer_arithmetic (h : Heap) (a b : Int64) :
    (∀ op f, Operator.binary h op (.int a) (.int b) = .error f ↔
      f = .divisionByZero ∧ b = 0 ∧ (op = .arith .div ∨ op = .arith .rem)) ∧
    (∀ op : ArithOp, (op.divides = true → b ≠ 0) → ∃ r : Int64,
      Operator.binary h (.arith op) (.int a) (.int b) = .ok (.value (.int r)) ∧
        r.toInt = (op.exact a.toInt b.toInt).bmod (2 ^ 64)) ∧
    Operator.binary h (.arith .div) (.int Int64.minValue) (.int (-1)) =
      .ok (.value (.int Int64.minValue)) ∧
    (b ≠ 0 → ∃ q r p : Int64,
      Operator.binary h (.arith .div) (.int a) (.int b) = .ok (.value (.int q)) ∧
      Operator.binary h (.arith .rem) (.int a) (.int b) = .ok (.value (.int r)) ∧
      r.toInt.natAbs < b.toInt.natAbs ∧ (r = 0 ∨ r.toInt.sign = a.toInt.sign) ∧
      Operator.binary h (.arith .mul) (.int q) (.int b) = .ok (.value (.int p)) ∧
      Operator.binary h (.arith .add) (.int p) (.int r) = .ok (.value (.int a))) ∧
    Operator.unary h .minus (.int a) = Operator.binary h (.arith .sub) (.int 0) (.int a) := by
  refine ⟨?_, ?_, ?_, ?_, ?_⟩
  · intro op f
    exact Operator.binary_ints_error_iff
  · intro op hb
    exact ⟨_, Operator.binary_exact h hb, Int64.toInt_ofInt⟩
  · rfl
  · intro hb
    have hb' : b.toInt ≠ 0 := fun hzero => hb (Int64.toInt_inj.1 hzero)
    refine ⟨a / b, a % b, a / b * b, ?_, ?_, ?_, ?_, rfl, ?_⟩
    · rw [Operator.binary_ints, Operator.onInts, if_neg hb]
      rfl
    · rw [Operator.binary_ints, Operator.onInts, if_neg hb]
      rfl
    · rw [Int64.toInt_mod]
      exact natAbs_tmod_lt hb' a.toInt
    · rw [← Int64.toInt_inj, Int64.toInt_mod]
      exact tmod_eq_zero_or_sign a.toInt b.toInt
    · rw [Operator.binary_ints, Operator.onInts, div_mul_add_mod]
      rfl
  · have hminus : -a = 0 - a := (Int64.zero_sub a).symm
    exact congrArg (fun n => Except.ok (Product.value (.int n))) hminus

/-- The least integer divided by -1 is itself, and nothing is left over. -/
theorem integer_arithmetic_at_least :
    let a := Int64.minValue
    let b : Int64 := -1
    (ArithOp.div.divides = true → b ≠ 0) ∧
    ∃ q r p : Int64,
      Operator.binary {} (.arith .div) (.int a) (.int b) = .ok (.value (.int q)) ∧
      Operator.binary {} (.arith .rem) (.int a) (.int b) = .ok (.value (.int r)) ∧
      r.toInt.natAbs < b.toInt.natAbs ∧ (r = 0 ∨ r.toInt.sign = a.toInt.sign) ∧
      Operator.binary {} (.arith .mul) (.int q) (.int b) = .ok (.value (.int p)) ∧
      Operator.binary {} (.arith .add) (.int p) (.int r) = .ok (.value (.int a)) := by
  intro a b
  have hb : b ≠ 0 := by decide
  exact ⟨fun _ => hb, (integer_arithmetic {} a b).2.2.2.1 hb⟩

end SmallScript
