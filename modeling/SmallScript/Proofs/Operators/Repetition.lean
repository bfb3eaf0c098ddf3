/-
  Repetitions of texts.

  Before a repetition is made its size is computed, and a product that does not fit into 64 bits is
  never looked at.  Still the check is exact (`Operator.allowed_iff`): it lets a repetition pass just
  where the product among the integers without bounds is allowed, and that product is the size of
  what is made (`Operator.utf8ByteSize_repeated`).  So nothing has to be said of overflow in the law
  that repetitions add up; only an empty text can be asked for so often that the sum of the counts
  wraps around, and it does not mind.
-/
import SmallScript.Proofs.Evaluation.Slices

namespace SmallScript

namespace Operator

variable {s : String} {m n count : Int64}

/-! ## Texts several times over -/

theorem repeated_eq_join (s : String) (times : Nat) :
    repeated s times = String.join (List.replicate times s) := by
  unfold repeated
  by_cases hempty : s.isEmpty = true
  · rw [if_pos hempty, String.isEmpty_iff.1 hempty]
    induction times with
    | zero => rfl
    | succ times ih => rw [List.replicate_succ, String.join_cons, ← ih, String.empty_append]
  · rw [if_neg hempty]
    induction times with
    | zero => rfl
    | succ times ih =>
      rw [List.replicate_succ', String.join_append, ← ih, String.join_cons, String.join_nil,
        String.append_empty]
      rfl

theorem repeated_append (s : String) (j k : Nat) :
    repeated s j ++ repeated s k = repeated s (j + k) := by
  simp only [repeated_eq_join]
  rw [← List.replicate_append_replicate, String.join_append]

theorem utf8ByteSize_repeated (s : String) (times : Nat) :
    (repeated s times).utf8ByteSize = s.utf8ByteSize * times := by
  rw [repeated_eq_join]
  induction times with
  | zero => rfl
  | succ times ih =>
    rw [List.replicate_succ, String.join_cons, String.utf8ByteSize_append, ih, Nat.mul_succ,
      Nat.add_comm]

/-! ## Counts and sizes -/

theorem times_eq_toNat (count : Int64) : times count = count.toInt.toNat := by
  unfold times
  cases count.toInt <;> rfl

theorem times_eq_max (count : Int64) : (times count : Int) = max count.toInt 0 := by
  rw [times_eq_toNat]
  omega

/-- The size of a repetition among the integers without bounds. -/
def exactSize (s : String) (count : Int64) : Int := s.utf8ByteSize * max count.toInt 0

theorem exactSize_eq (s : String) (count : Int64) :
    exactSize s count = (s.utf8ByteSize * times count : Nat) := by
  unfold exactSize
  rw [← times_eq_max, Int.natCast_mul]

/-- A product that is allowed is not too large to be computed. -/
theorem allowed_iff (j k : Nat) :
    (productOfSizes? j k).any (· ≤ longestRepetition) = true ↔ j * k ≤ longestRepetition := by
  unfold productOfSizes?
  split
  · rw [Option.any_some, decide_eq_true_iff]
  · rename_i hlarge
    refine iff_of_false nofun fun hallowed => hlarge ?_
    exact Nat.lt_of_le_of_lt hallowed (by decide)

/-- **The check is exact.** -/
theorem repetition_eq (s : String) (count : Int64) :
    repetition s count =
      if exactSize s count ≤ longestRepetition then .ok (.text (repeated s (times count)))
      else .error (.repeatTooLong s.utf8ByteSize count) := by
  have hsize : exactSize s count ≤ longestRepetition ↔
      (productOfSizes? s.utf8ByteSize (times count)).any (· ≤ longestRepetition) = true := by
    rw [allowed_iff, exactSize_eq, Int.ofNat_le]
  unfold repetition
  by_cases hallowed : exactSize s count ≤ longestRepetition
  · rw [if_pos hallowed, if_pos (hsize.1 hallowed)]
  · rw [if_neg hallowed, if_neg (mt hsize.2 hallowed)]

/-! ## Sums of counts -/

/-- A text that can be repeated so often is empty, or the sum of the counts is an integer. -/
theorem empty_or_sum (hm : 0 ≤ m.toInt) (hn : 0 ≤ n.toInt)
    (hsize : s.utf8ByteSize * (m.toInt + n.toInt) ≤ longestRepetition) :
    s = "" ∨ (m + n).toInt = m.toInt + n.toInt := by
  by_cases hempty : s = ""
  · exact .inl hempty
  · refine .inr ?_
    have hpos : 1 ≤ (s.utf8ByteSize : Int) := by
      have hzero := mt String.utf8ByteSize_eq_zero_iff.1 hempty
      omega
    have hsum : 1 * (m.toInt + n.toInt) ≤ s.utf8ByteSize * (m.toInt + n.toInt) :=
      Int.mul_le_mul_of_nonneg_right hpos (by omega)
    have hlongest : (longestRepetition : Int) = 2 ^ 30 := rfl
    rw [Int64.toInt_add]
    exact Int.bmod_eq_of_le (by omega) (by omega)

/-- Both repetitions, and the one of the sum, are allowed, and the first two make up the third. -/
theorem repeated_sum (hm : 0 ≤ m.toInt) (hn : 0 ≤ n.toInt)
    (hsize : s.utf8ByteSize * (m.toInt + n.toInt) ≤ longestRepetition) :
    exactSize s m ≤ longestRepetition ∧ exactSize s n ≤ longestRepetition ∧
      exactSize s (m + n) ≤ longestRepetition ∧
      repeated s (times m) ++ repeated s (times n) = repeated s (times (m + n)) := by
  rcases empty_or_sum hm hn hsize with rfl | hsum
  · have hzero : ∀ count, exactSize "" count ≤ longestRepetition := by
      intro count
      rw [exactSize_eq, show ("" : String).utf8ByteSize = 0 from rfl, Nat.zero_mul]
      decide
    exact ⟨hzero m, hzero n, hzero (m + n), rfl⟩
  · have hle : ∀ {k : Int64}, 0 ≤ k.toInt → k.toInt ≤ m.toInt + n.toInt →
        exactSize s k ≤ longestRepetition := by
      intro k hk hkle
      refine Int.le_trans ?_ hsize
      unfold exactSize
      rw [Int.max_eq_left hk]
      exact Int.mul_le_mul_of_nonneg_left hkle (Int.natCast_nonneg _)
    refine ⟨hle hm (by omega), hle hn (by omega), hle (by omega) (by omega), ?_⟩
    rw [repeated_append, times_eq_toNat, times_eq_toNat, times_eq_toNat, hsum]
    congr 1
    omega

end Operator

/-! ## In the language -/

open Operator Walker

section Language

variable {t : Text} {m n : Int64} {s s' : State} {x : Eval Value}

theorem operated_mul (hx : x s = .done (.int n) s') :
    operated (.arith .mul) (pure (.text t)) x s =
      Eval.produce (fun _ => repetition t.content n) s' := operated_of_done rfl hx

/-- A text times an integer, if its size is allowed. -/
theorem operated_mul_makes (hx : x s = .done (.int n) s')
    (hsize : exactSize t.content n ≤ longestRepetition) :
    operated (.arith .mul) (pure (.text t)) x s =
      .done (.text ⟨s'.world.heap.texts.size, repeated t.content (times n)⟩)
        (s'.inWorld (s'.world.withHeap (s'.world.heap.newText (repeated t.content (times n))).2)) := by
  rw [operated_mul hx]
  refine Eval.produce_text ?_
  rw [repetition_eq, if_pos hsize]

theorem operated_mul_fails (hx : x s = .done (.int n) s')
    (hsize : longestRepetition < exactSize t.content n) :
    operated (.arith .mul) (pure (.text t)) x s =
      .unwound (.fault (.repeatTooLong t.content.utf8ByteSize n)) s' := by
  rw [operated_mul hx]
  refine Eval.produce_error ?_
  rw [repetition_eq, if_neg (Int.not_le.2 hsize)]

theorem operated_mul_done_iff : (∃ v s', operated (.arith .mul) (pure (.text t)) (pure (.int n)) s =
    .done v s') ↔ exactSize t.content n ≤ longestRepetition := by
  constructor
  · rintro ⟨v, s', hdone⟩
    have hcount : (pure (.int n) : Eval Value) s = .done (.int n) s := rfl
    by_contra hsize
    rw [operated_mul_fails hcount (Int.not_le.1 hsize)] at hdone
    cases hdone
  · exact fun hsize => ⟨_, _, operated_mul_makes rfl hsize⟩

/-- Repetitions of one text add up. -/
theorem operated_mul_sum (hm : 0 ≤ m.toInt) (hn : 0 ≤ n.toInt)
    (hsize : t.content.utf8ByteSize * (m.toInt + n.toInt) ≤ longestRepetition) (s : State) :
    ∃ s', operated .eq
      (operated (.arith .add) (operated (.arith .mul) (pure (.text t)) (pure (.int m)))
        (operated (.arith .mul) (pure (.text t)) (pure (.int n))))
      (operated (.arith .mul) (pure (.text t))
        (operated (.arith .add) (pure (.int m)) (pure (.int n)))) s = .done (.bool true) s' := by
  obtain ⟨hallowed, hallowed', hallowed'', hjoined⟩ := repeated_sum hm hn hsize
  obtain ⟨s₁, hleft⟩ := operated_add_texts
    (operated_mul_makes (s := s) (x := pure (.int m)) rfl hallowed)
    (operated_mul_makes (x := pure (.int n)) rfl hallowed')
  have hsum : operated (.arith .add) (pure (.int m)) (pure (.int n)) s₁ = .done (.int (m + n)) s₁ :=
    (operated_of_done rfl rfl).trans (Eval.produce_value rfl)
  refine ⟨_, operated_eq hleft (operated_mul_makes hsum hallowed'') ?_⟩
  show some (compare (repeated t.content (times m) ++ repeated t.content (times n))
    (repeated t.content (times (m + n)))) = some .eq
  rw [hjoined, Std.ReflOrd.compare_self]

end Language

/-- **Repetitions of texts.**

1. A text times an integer succeeds just where its size, among the integers without bounds, is at
   most `2 ^ 30`; a negative count is no time at all.
2. Then it makes a new text, which is the text so many times over, and has that size.
3. Otherwise it fails, and names the size of the text and the count; the state is as it was.
4. An empty text can be repeated as often as one likes.
5. Where both counts are not negative, and the size for their sum is allowed, the repetitions add
   up, computed by the operators themselves. -/
theorem repetitions (t : Text) (m n : Int64) (s : State) :
    ((∃ v s', operated (.arith .mul) (pure (.text t)) (pure (.int n)) s = .done v s') ↔
      (t.content.utf8ByteSize : Int) * max n.toInt 0 ≤ 2 ^ 30) ∧
    ((t.content.utf8ByteSize : Int) * max n.toInt 0 ≤ 2 ^ 30 → ∃ c : String,
      (operated (.arith .mul) (pure (.text t)) (pure (.int n))).Makes s c ∧
      c = String.join (List.replicate (max n.toInt 0).toNat t.content) ∧
      (c.utf8ByteSize : Int) = t.content.utf8ByteSize * max n.toInt 0) ∧
    ((2 : Int) ^ 30 < t.content.utf8ByteSize * max n.toInt 0 →
      operated (.arith .mul) (pure (.text t)) (pure (.int n)) s =
        .unwound (.fault (.repeatTooLong t.content.utf8ByteSize n)) s) ∧
    (t.content = "" → (operated (.arith .mul) (pure (.text t)) (pure (.int n))).Makes s "") ∧
    (0 ≤ m.toInt → 0 ≤ n.toInt → (t.content.utf8ByteSize : Int) * (m.toInt + n.toInt) ≤ 2 ^ 30 →
      ∃ s', operated .eq
        (operated (.arith .add) (operated (.arith .mul) (pure (.text t)) (pure (.int m)))
          (operated (.arith .mul) (pure (.text t)) (pure (.int n))))
        (operated (.arith .mul) (pure (.text t))
          (operated (.arith .add) (pure (.int m)) (pure (.int n)))) s = .done (.bool true) s') := by
  refine ⟨operated_mul_done_iff, ?_, ?_, ?_, ?_⟩
  · intro hsize
    refine ⟨repeated t.content (times n), operated_mul_makes rfl hsize, ?_, ?_⟩
    · rw [repeated_eq_join, ← times_eq_max, Int.toNat_natCast]
    · rw [utf8ByteSize_repeated, Int.natCast_mul, times_eq_max]
  · intro hsize
    exact operated_mul_fails rfl hsize
  · intro hempty
    have hsize : exactSize t.content n ≤ longestRepetition := by
      unfold exactSize
      rw [hempty, show (("" : String).utf8ByteSize : Int) = 0 from rfl, Int.zero_mul]
      decide
    have hmakes := operated_mul_makes (t := t) (s := s) (x := pure (.int n)) rfl hsize
    rw [hempty] at hmakes
    exact hmakes
  · intro hm hn hsize
    exact operated_mul_sum hm hn hsize s

/-- Two bytes, at the largest count that is allowed for them, at the next one, and at one for which
the product is too large for 64 bits; an empty text at counts whose sum wraps around. -/
theorem repetitions_at_limits :
    let t : Text := ⟨0, "é"⟩
    let e : Text := ⟨1, ""⟩
    let s : State := default
    ((t.content.utf8ByteSize : Int) * max (536870912 : Int64).toInt 0 ≤ 2 ^ 30 ∧
      ∃ v s', operated (.arith .mul) (pure (.text t)) (pure (.int 536870912)) s = .done v s') ∧
    ((2 : Int) ^ 30 < t.content.utf8ByteSize * max (536870913 : Int64).toInt 0 ∧
      operated (.arith .mul) (pure (.text t)) (pure (.int 536870913)) s =
        .unwound (.fault (.repeatTooLong 2 536870913)) s) ∧
    ((2 : Int) ^ 30 < t.content.utf8ByteSize * max Int64.maxValue.toInt 0 ∧
      operated (.arith .mul) (pure (.text t)) (pure (.int Int64.maxValue)) s =
        .unwound (.fault (.repeatTooLong 2 Int64.maxValue)) s) ∧
    ((0 ≤ Int64.maxValue.toInt ∧ (e.content.utf8ByteSize : Int) *
        (Int64.maxValue.toInt + Int64.maxValue.toInt) ≤ 2 ^ 30) ∧
      ∃ s', operated .eq
        (operated (.arith .add) (operated (.arith .mul) (pure (.text e)) (pure (.int Int64.maxValue)))
          (operated (.arith .mul) (pure (.text e)) (pure (.int Int64.maxValue))))
        (operated (.arith .mul) (pure (.text e))
          (operated (.arith .add) (pure (.int Int64.maxValue)) (pure (.int Int64.maxValue)))) s =
            .done (.bool true) s') := by
  intro t e s
  have hlargest : (t.content.utf8ByteSize : Int) * max (536870912 : Int64).toInt 0 ≤ 2 ^ 30 := by
    decide
  have hnext : (2 : Int) ^ 30 < t.content.utf8ByteSize * max (536870913 : Int64).toInt 0 := by
    decide
  have hhuge : (2 : Int) ^ 30 < t.content.utf8ByteSize * max Int64.maxValue.toInt 0 := by decide
  have hpos : 0 ≤ Int64.maxValue.toInt := by decide
  have hnothing : (e.content.utf8ByteSize : Int) *
      (Int64.maxValue.toInt + Int64.maxValue.toInt) ≤ 2 ^ 30 := by decide
  exact ⟨⟨hlargest, (repetitions t 0 536870912 s).1.2 hlargest⟩,
    ⟨hnext, (repetitions t 0 536870913 s).2.2.1 hnext⟩,
    ⟨hhuge, (repetitions t 0 Int64.maxValue s).2.2.1 hhuge⟩,
    ⟨hpos, hnothing⟩,
    (repetitions e Int64.maxValue Int64.maxValue s).2.2.2.2 hpos hpos hnothing⟩

end SmallScript
