/-
  Data are restored from their text.

  The expression that data are written as is evaluated to the same data, where nothing is remembered
  of its nodes yet.  Every list of what it yields is made while it is evaluated, and a list that was
  there before stays as it is, so what one item yields is not touched by the items behind it
  (`State.Builds`).  That is all that the induction on the data has to carry.

  Negative numbers are written with a minus in front of a literal that has none, and the least one
  has no opposite: its literal wraps around to the number itself, and so does the minus.
-/
import SmallScript.Proofs.Evaluation.Memory
import SmallScript.Proofs.Printing.Rereading
import SmallScript.Proofs.Scanning.Literals

namespace SmallScript

/-! ## Literals -/

namespace Literal

theorem digit?_of_isDigit {c : Char} (h : c.isDigit = true) :
    digit? 10 c = some (c.toNat - '0'.toNat) := by
  have hbounds : '0' ≤ c ∧ c ≤ '9' := by
    rw [Char.isDigit, Bool.and_eq_true, decide_eq_true_iff, decide_eq_true_iff] at h
    exact h
  have hlow : '0'.toNat ≤ c.toNat := hbounds.1
  have hhigh : c.toNat ≤ '9'.toNat := hbounds.2
  have hten : c.toNat - '0'.toNat < 10 := by
    change 48 ≤ c.toNat at hlow
    change c.toNat ≤ 57 at hhigh
    change c.toNat - 48 < 10
    omega
  unfold digit?
  rw [if_pos hbounds, if_pos hten]

theorem valueBehind?_digits {cs : List Char} (hcs : ∀ c ∈ cs, c.isDigit = true) (high : Nat) :
    valueBehind? 10 high cs = some (Nat.ofDigitChars 10 cs high) := by
  induction cs generalizing high with
  | nil => rfl
  | cons c cs ih =>
    have hc := digit?_of_isDigit (hcs c List.mem_cons_self)
    rw [valueBehind?, hc, Nat.ofDigitChars_cons]
    exact ih (fun d hd => hcs d (List.mem_cons_of_mem c hd)) _

/-- The literal of a natural number denotes that number, wrapped around. -/
theorem int_numeral (n : Nat) : int (toString n) = .ok (Int64.ofNat n) := by
  have hraw : (toString n).toList = Nat.toDigits 10 n := Nat.toList_repr
  have hrun := run_toDigits n
  have hnumeral : numeral? 10 (Nat.toDigits 10 n) = some n := by
    unfold numeral?
    rw [if_neg (mt List.isEmpty_iff.1 hrun.ne_nil), valueBehind?_digits hrun.all,
      Nat.ofDigitChars_ten_toDigits]
  unfold int
  simp only [hraw, baseAndDigits_digits hrun.all, hnumeral]

end Literal

namespace Data

theorem natAbs_of_nonneg {n : Int64} (h : ¬ n.toInt < 0) : Int64.ofNat n.toInt.natAbs = n := by
  have habs : ((n.toInt.natAbs : Nat) : Int) = n.toInt := Int.natAbs_of_nonneg (Int.not_lt.1 h)
  rw [← Int64.ofInt_eq_ofNat, habs, Int64.ofInt_toInt]

/-- Also the least number, whose literal is the number itself, as is its opposite. -/
theorem neg_natAbs_of_neg {n : Int64} (h : n.toInt < 0) : -Int64.ofNat n.toInt.natAbs = n := by
  have habs : ((n.toInt.natAbs : Nat) : Int) = -n.toInt :=
    Int.ofNat_natAbs_of_nonpos (Int.le_of_lt h)
  rw [← Int64.ofInt_eq_ofNat, habs, ← Int64.ofInt_neg, Int.neg_neg, Int64.ofInt_toInt]

end Data

/-! ## Expressions with places -/

namespace Expr

variable {e x : Expr} {xs : List Expr} {raw : String} {op : UnaryOp}

theorem eq_int_of_plain (h : e.plain = .int default 0 raw) : ∃ span id, e = .int span id raw := by
  cases e with
  | int span id raw' =>
    obtain rfl : raw' = raw := (Expr.int.inj h).2.2
    exact ⟨span, id, rfl⟩
  | _ => cases h

theorem eq_unary_of_plain (h : e.plain = .unary default op x) :
    ∃ span operand, e = .unary span op operand ∧ operand.plain = x := by
  cases e with
  | unary span op' operand =>
    obtain ⟨-, rfl, hoperand⟩ := Expr.unary.inj h
    exact ⟨span, operand, rfl, hoperand⟩
  | _ => cases h

theorem eq_list_of_plain (h : e.plain = .list default 0 xs) :
    ∃ span id items, e = .list span id items ∧ plainItems items = xs := by
  cases e with
  | list span id items => exact ⟨span, id, items, rfl, (Expr.list.inj h).2.2⟩
  | _ => cases h

end Expr

/-! ## What an evaluation builds -/

namespace State

/-- Nothing is remembered of these nodes. -/
def Fresh (s : State) (ids : List NodeId) : Prop :=
  ∀ id ∈ ids, s.memo.literals.get? id = none ∧ s.memo.lists.get? id = none

/-- From `s` to `t`, lists are made, and of those that were there only the ones of some kind are
filled; and something is remembered of these nodes only. -/
structure Builds (ids : List NodeId) (filled : ListRef → Prop) (s t : State) : Prop where
  lists : s.world.heap.lists.size ≤ t.world.heap.lists.size
  items {q : ListRef} : q.index < s.world.heap.lists.size → ¬ filled q →
    t.world.heap.items q = s.world.heap.items q
  memo {id : NodeId} : id ∉ ids → t.memo.literals.get? id = s.memo.literals.get? id ∧
    t.memo.lists.get? id = s.memo.lists.get? id

/-- A list that was made from `s` to `t`. -/
def Made (s t : State) (q : ListRef) : Prop :=
  s.world.heap.lists.size ≤ q.index ∧ q.index < t.world.heap.lists.size

variable {ids js : List NodeId} {filled : ListRef → Prop} {s t u : State}

namespace Builds

theorem refl (ids : List NodeId) (filled : ListRef → Prop) (s : State) : s.Builds ids filled s :=
  ⟨Nat.le_refl _, fun _ _ => rfl, fun _ => ⟨rfl, rfl⟩⟩

theorem trans (hst : s.Builds ids filled t) (htu : t.Builds js filled u) :
    s.Builds (ids ++ js) filled u where
  lists := Nat.le_trans hst.lists htu.lists
  items hq hfilled :=
    (htu.items (Nat.lt_of_lt_of_le hq hst.lists) hfilled).trans (hst.items hq hfilled)
  memo hid := by
    obtain ⟨hids, hjs⟩ := not_or.1 (mt List.mem_append.2 hid)
    exact ⟨(htu.memo hjs).1.trans (hst.memo hids).1, (htu.memo hjs).2.trans (hst.memo hids).2⟩

/-- Where no list is filled that was there, more can be allowed. -/
theorem allow (h : s.Builds ids (fun _ => False) t) (filled : ListRef → Prop) :
    s.Builds ids filled t :=
  ⟨h.lists, fun hq _ => h.items hq id, h.memo⟩

/-- A list that was made can be filled: it was not there. -/
theorem fill_made (hst : s.Builds ids (fun _ => False) t) {r : ListRef} (hr : s.Made t r)
    (htu : t.Builds js (· = r) u) : s.Builds (ids ++ js) (fun _ => False) u := by
  have hsu := (hst.allow (· = r)).trans htu
  refine ⟨hsu.lists, fun hq _ => hsu.items hq ?_, hsu.memo⟩
  rintro rfl
  exact Nat.not_lt.2 hr.1 hq

theorem fresh (h : s.Builds ids filled t) (hjs : s.Fresh js) (hdisjoint : ids.Disjoint js) :
    t.Fresh js := by
  intro id hid
  have hmemo := h.memo fun h => hdisjoint h hid
  exact ⟨hmemo.1.trans (hjs id hid).1, hmemo.2.trans (hjs id hid).2⟩

end Builds

theorem Fresh.append_iff : s.Fresh (ids ++ js) ↔ s.Fresh ids ∧ s.Fresh js :=
  List.forall_mem_append

end State

namespace Walker

open Eval State

variable {config : Config} {n : Nat} {s : State} {id : NodeId}

/-- A literal that means a value yields it, and only remembers it. -/
theorem literal_value {m : Unit → Except Fault Product} {v : Value}
    (h : s.memo.literals.get? id = none) (hm : m () = .ok (.value v)) :
    ∃ t, literal id m s = .done v t ∧ t.world = s.world ∧ s.Builds [id] (fun _ => False) t := by
  refine ⟨s.remembering { s.memo with literals := s.memo.literals.put id v }, ?_, rfl,
    Nat.le_refl _, fun _ _ => rfl, fun {j} hj => ⟨?_, rfl⟩⟩
  · unfold literal produce
    simp only [bind, Eval.bind, look, h, hm]
    rfl
  · show (s.memo.literals.put id v).get? j = _
    rw [Assoc.get?_put, if_neg]
    rintro rfl
    exact hj List.mem_cons_self

/-- A list literal begins with a list of its own that is empty. -/
theorem listOf_fresh (h : s.memo.lists.get? id = none) :
    ∃ r t, listOf id s = .done r t ∧ s.Made t r ∧ t.world.heap.items r = #[] ∧
      s.Builds [id] (fun _ => False) t := by
  have hsize : (s.world.heap.newList #[]).2.lists.size = s.world.heap.lists.size + 1 :=
    Array.size_push _
  refine ⟨_, _, listOf_unknown h, ⟨Nat.le_refl _, ?_⟩, ?_, ?_, fun {q} hq _ => ?_,
    fun {j} hj => ⟨rfl, ?_⟩⟩
  · exact hsize ▸ Nat.lt_succ_self _
  · exact (Heap.items_newList _ _ _).trans (if_pos rfl)
  · exact hsize ▸ Nat.le_succ _
  · exact (Heap.items_newList _ _ _).trans (if_neg (Nat.ne_of_lt hq))
  · show (s.memo.lists.put id _).get? j = _
    rw [Assoc.get?_put, if_neg]
    rintro rfl
    exact hj List.mem_cons_self

/-- A change of a list that is there. -/
theorem modify_builds {r : ListRef} (hr : r.index < s.world.heap.lists.size)
    (f : Array Value → Array Value) :
    ∃ t, Eval.onHeap (fun h => ((), h.modifyItems r f)) s = .done () t ∧
      t.world.heap.items r = f (s.world.heap.items r) ∧ s.Builds [] (· = r) t := by
  refine ⟨s.inWorld (s.world.withHeap (s.world.heap.modifyItems r f)), rfl, ?_, ?_,
    fun {q} _ hq => ?_, fun _ => ⟨rfl, rfl⟩⟩
  · exact (Heap.items_modifyItems _ _ _ _).trans (if_pos ⟨rfl, hr⟩)
  · exact Nat.le_of_eq (Array.size_modify ..).symm
  · exact (Heap.items_modifyItems _ _ _ _).trans (if_neg fun h => hq h.1.symm)

end Walker

namespace State

variable {ids : List NodeId} {filled : ListRef → Prop} {s t u : State} {r : ListRef}

/-- Lists that were made stay as they are when one is filled that was there before. -/
theorem Builds.keeps (htu : t.Builds ids (· = r) u) (hr : r.index < s.world.heap.lists.size) :
    ∀ q, s.Made t q → s.Made u q ∧ u.world.heap.items q = t.world.heap.items q := by
  intro q hq
  refine ⟨⟨hq.1, Nat.lt_of_lt_of_le hq.2 htu.lists⟩, htu.items hq.2 ?_⟩
  rintro rfl
  exact Nat.not_lt.2 hq.1 hr

/-- What was made later was made. -/
theorem Builds.made {q : ListRef} (hst : s.Builds ids filled t) (hq : t.Made u q) : s.Made u q :=
  ⟨Nat.le_trans hst.lists hq.1, hq.2⟩

end State

namespace Data

open State

variable (config : Config)

/-- The literal of a number. -/
theorem evaluates_numeral {m n : Nat} {e : Expr} {s : State} (he : e.plain = numeral m)
    (hs : s.Fresh e.numbers) : ∃ t,
      (walker config (n + 1)).eval e s = .done (.int (Int64.ofNat m)) t ∧
        s.Builds e.numbers (fun _ => False) t := by
  obtain ⟨span, id, rfl⟩ := Expr.eq_int_of_plain he
  obtain ⟨hnone, -⟩ := hs id List.mem_cons_self
  have hmeaning : (Literal.int (toString m)).map (fun n => Product.value (.int n)) =
      .ok (.value (.int (Int64.ofNat m))) := by
    rw [Literal.int_numeral]
    rfl
  obtain ⟨t, ht, -, hbuilds⟩ := Walker.literal_value (m := fun _ => _) hnone hmeaning
  exact ⟨t, ht, hbuilds⟩

mutual

/-- The expression of data is evaluated to the data, in lists that are made. -/
theorem evaluates : ∀ (d : Data) {e : Expr} {n : Nat} {s : State}, e.plain = d.expr →
    d.depth + 2 ≤ n → e.numbers.Nodup → s.Fresh e.numbers →
      ∃ v t, (walker config n).eval e s = .done v t ∧ t.world.heap.HoldsIn (s.Made t) v d ∧
        s.Builds e.numbers (fun _ => False) t
  | .null, e, n + 1, s, he, _, _, _ => by
    cases e with
    | null span => exact ⟨.null, s, rfl, trivial, .refl _ _ s⟩
    | _ => cases he
  | .bool b, e, n + 1, s, he, _, _, _ => by
    cases e with
    | bool span c =>
      obtain rfl : c = b := (Expr.bool.inj he).2
      exact ⟨.bool c, s, rfl, rfl, .refl _ _ s⟩
    | _ => cases he
  | .int m, e, n + 2, s, he, _, _, hs => by
    rw [expr] at he
    split at he
    · next hneg =>
      obtain ⟨span, operand, rfl, hoperand⟩ := Expr.eq_unary_of_plain he
      obtain ⟨t, ht, hbuilds⟩ := evaluates_numeral config (n := n) hoperand hs
      refine ⟨.int m, t, Eval.bind_eq_done.2 ⟨_, t, ht, ?_⟩, rfl, hbuilds⟩
      change Outcome.done (Value.int (-Int64.ofNat m.toInt.natAbs)) t = .done (Value.int m) t
      rw [neg_natAbs_of_neg hneg]
    · next hneg =>
      obtain ⟨t, ht, hbuilds⟩ := evaluates_numeral config (n := n + 1) he hs
      exact ⟨_, t, ht, natAbs_of_nonneg hneg, hbuilds⟩
  | .list ds, e, n + 1, s, he, hn, hnodup, hs => by
    obtain ⟨span, id, items, rfl, hitems⟩ := Expr.eq_list_of_plain he
    obtain ⟨hid, hnodup⟩ := List.nodup_cons.1 hnodup
    obtain ⟨r, t, ht, hr, hempty, hst⟩ := Walker.listOf_fresh (hs id List.mem_cons_self).2
    obtain ⟨u, hu, hemptied, htu⟩ := Walker.modify_builds hr.2 fun _ => #[]
    have hsu : s.Builds [id] (fun _ => False) u := hst.fill_made hr htu
    have hfresh : u.Fresh (numbers (itemsParts items)) :=
      hsu.fresh (fun j hj => hs j (List.mem_cons_of_mem _ hj)) (List.singleton_disjoint.2 hid)
    have hru : s.Made u r := ⟨hr.1, Nat.lt_of_lt_of_le hr.2 htu.lists⟩
    obtain ⟨vs, o, ho, hvs, hholds, huo⟩ :=
      pushes (n := n) ds hitems (Nat.le_of_succ_le_succ hn) hnodup hfresh hru.2
    refine ⟨.list r, o, ?_, ⟨⟨hr.1, ?_⟩, ?_⟩, hsu.fill_made hru huo⟩
    · exact Eval.bind_eq_done.2 ⟨r, t, ht, Eval.bind_eq_done.2 ⟨(), u, hu,
        Eval.bind_eq_done.2 ⟨(), o, ho, rfl⟩⟩⟩
    · exact Nat.lt_of_lt_of_le hru.2 huo.lists
    · rw [hvs, hemptied]
      exact hholds.congr fun q hq => ⟨hsu.made hq, rfl⟩

/-- The expressions of data are evaluated to the data one by one, and pushed. -/
theorem pushes : ∀ (ds : List Data) {es : List Expr} {n : Nat} {s : State} {r : ListRef},
    plainItems es = exprs ds → deepest ds + 2 ≤ n → (numbers (itemsParts es)).Nodup →
      s.Fresh (numbers (itemsParts es)) → r.index < s.world.heap.lists.size →
        ∃ vs t, (walker config n).pushAll r es s = .done () t ∧
          (t.world.heap.items r).toList = (s.world.heap.items r).toList ++ vs ∧
          t.world.heap.HoldAllIn (s.Made t) vs ds ∧
          s.Builds (numbers (itemsParts es)) (· = r) t
  | [], [], n, s, r, _, _, _, _, _ =>
    ⟨[], s, rfl, (List.append_nil _).symm, trivial, .refl _ _ s⟩
  | d :: ds, e :: es, n, s, r, hes, hn, hnodup, hs, hr => by
    obtain ⟨he, hes⟩ := List.cons.inj hes
    rw [itemsParts, numbers_expr_cons] at hnodup hs ⊢
    obtain ⟨hnodup₁, hnodup₂, hdisjoint⟩ := List.nodup_append'.1 hnodup
    obtain ⟨hs₁, hs₂⟩ := Fresh.append_iff.1 hs
    rw [deepest] at hn
    obtain ⟨v, t, ht, hv, hst⟩ := evaluates d he (n := n) (by omega) hnodup₁ hs₁
    have hrt := Nat.lt_of_lt_of_le hr hst.lists
    obtain ⟨u, hu, hpushed, htu⟩ := Walker.modify_builds hrt (·.push v)
    have hfresh := htu.fresh (hst.fresh hs₂ hdisjoint) (List.disjoint_nil_left _)
    obtain ⟨vs, o, ho, hvs, hholds, huo⟩ :=
      pushes ds hes (n := n) (by omega) hnodup₂ hfresh (Nat.lt_of_lt_of_le hrt htu.lists)
    have hto : t.Builds _ (· = r) o := htu.trans huo
    refine ⟨v :: vs, o, ?_, ?_, ⟨hv.congr (hto.keeps hr), ?_⟩, (hst.allow _).trans hto⟩
    · exact Eval.bind_eq_done.2 ⟨v, t, ht, Eval.bind_eq_done.2 ⟨(), u, hu, ho⟩⟩
    · rw [hvs, hpushed, Array.toList_push, hst.items hr id, List.append_assoc]
      rfl
    · exact hholds.congr fun q hq => ⟨((hst.allow _).trans htu).made hq, rfl⟩

end

end Data

/-! ## Restoring -/

/-- **Data are restored from what is printed of them.**  Let a value hold data whose lists are at
most 125 deep in each other.  What is printed of it, with a semicolon behind, is read without a
complaint as a single expression; and in a state in which nothing was done yet this is evaluated to
a value that holds the same data, so that the same is printed of it.
The least number is written as a minus in front of a literal that wraps around to that number, and
the minus wraps around as well.
Nodes are numbered without end here, so this is about data with fewer than 2^32 literals in them. -/
theorem printed_restored {h : Heap} {v : Value} {d : Data} (hv : h.Holds v d) (hd : d.depth ≤ 125)
    {doc : Document} (hdoc : doc.text = h.print v ++ ";") (config : Config)
    (libraries : List Maker) (console : Console) (clock : Clock) :
    (Parse.ofDocument doc).log = Log.empty ∧
      ∃ e, (Parse.ofDocument doc).program.stmts = [.expr e] ∧
        (∃ w t, Interpreter.eval config e (State.start libraries console clock) = .done w t ∧
          t.world.heap.Holds w d ∧ t.world.heap.print w = h.print v) ∧
        (v = .int Int64.minValue → ∃ span span' id,
          e = .unary span .minus (.int span' id "9223372036854775808") ∧
            Literal.int "9223372036854775808" = .ok Int64.minValue ∧
            -Int64.minValue = Int64.minValue) := by
  rw [Heap.print_of_holds hv] at hdoc ⊢
  obtain ⟨hlog, e, hstmts, he, hnodup⟩ := Data.read hd hdoc
  have hlevels : d.depth + 2 ≤ Interpreter.levels := by
    have hmany : 127 ≤ Interpreter.levels := by
      unfold Interpreter.levels
      decide
    omega
  have hfresh : (State.start libraries console clock).Fresh e.numbers := fun _ _ => ⟨rfl, rfl⟩
  obtain ⟨w, t, ht, hw, -⟩ := d.evaluates config he hlevels hnodup hfresh
  have hholds : t.world.heap.Holds w d := hw.congr fun _ _ => ⟨trivial, rfl⟩
  refine ⟨hlog, e, hstmts, ⟨w, t, ht, hholds, Heap.print_of_holds hholds⟩, ?_⟩
  rintro rfl
  cases d with
  | int n =>
    obtain rfl : Int64.minValue = n := hv
    obtain ⟨span, operand, rfl, hoperand⟩ := Expr.eq_unary_of_plain he
    obtain ⟨span', id, rfl⟩ := Expr.eq_int_of_plain hoperand
    exact ⟨span, span', id, rfl, Literal.int_numeral 9223372036854775808, rfl⟩
  | _ => exact hv.elim

/-- A heap with the lists `[-9223372036854775808, a, a]` and `a = [null, true]`. -/
def sharedLists : Heap where
  lists := #[⟨#[.int Int64.minValue, .list ⟨1⟩, .list ⟨1⟩], none⟩, ⟨#[.null, .bool true], none⟩]

/-- The data of its first list: that one list comes up twice is not told by them. -/
def sharedData : Data := .list [.int Int64.minValue, .list [.null, .bool true],
  .list [.null, .bool true]]

theorem sharedLists_restored :
    let doc : Document := ⟨"", "[-9223372036854775808,[null,true],[null,true]];", _, rfl⟩
    sharedLists.Holds (.list ⟨0⟩) sharedData ∧ sharedData.depth ≤ 125 ∧
      doc.text = sharedLists.print (.list ⟨0⟩) ++ ";" ∧
      (Parse.ofDocument doc).log = Log.empty ∧
      ∃ e, (Parse.ofDocument doc).program.stmts = [.expr e] ∧
        ∃ w t, Interpreter.eval {} e (State.start [] {} {}) = .done w t ∧
          t.world.heap.Holds w sharedData ∧
          t.world.heap.print w = sharedLists.print (.list ⟨0⟩) := by
  intro doc
  have hholds : sharedLists.Holds (.list ⟨0⟩) sharedData :=
    ⟨trivial, rfl, ⟨trivial, trivial, rfl, trivial⟩, ⟨trivial, trivial, rfl, trivial⟩, trivial⟩
  have hdepth : sharedData.depth ≤ 125 := by decide
  have hdoc : doc.text = sharedLists.print (.list ⟨0⟩) ++ ";" := by
    rw [Heap.print_of_holds hholds]
    decide
  obtain ⟨hlog, e, hstmts, hvalue, -⟩ := printed_restored hholds hdepth hdoc {} [] {} {}
  exact ⟨hholds, hdepth, hdoc, hlog, e, hstmts, hvalue⟩

end SmallScript
