/-
  Parts of texts.

  A place of a text is told by how many characters stand before it.  `Slice s i j p` says that `p`
  is what stands in `s` from the place `i` to the place `j`; no other text does (`Slice.unique`),
  and two parts that touch are a part together (`Slice.append`).  What the methods of a text answer
  is told by this relation alone: `sub` answers the part between its two indices, each of which is
  first moved to the nearest place of the text (`Text.place`), and `at` the part of one character.
  So what holds of parts holds of answers, and no character is ever counted twice.

  Lengths are integers of 64 bits.  What is said of them holds of texts of every size; only where an
  answer is read as a number is it asked that the text is one that can be in memory (`Text.Fits`).
-/
import SmallScript.Proofs.Evaluation.Act
import SmallScript.Proofs.Evaluation.Change
import SmallScript.Proofs.Operators.Comparison

namespace SmallScript

/-! ## Parts -/

/-- The text `p` stands in `s` from the place `i` to the place `j`. -/
def Slice (s : String) (i j : Int) (p : String) : Prop :=
  ∃ before after : List Char, s.toList = before ++ (p.toList ++ after) ∧
    (before.length : Int) = i ∧ (before.length + p.length : Int) = j

namespace Slice

variable {s p q : String} {i j k : Int}

theorem length (h : Slice s i j p) : (p.length : Int) = j - i := by
  obtain ⟨before, after, -, hi, hj⟩ := h
  omega

/-- One text stands between two places. -/
theorem unique (hp : Slice s i j p) (hq : Slice s i j q) : p = q := by
  have hlength : p.toList.length = q.toList.length := by
    have hp := hp.length
    have hq := hq.length
    rw [String.length_toList, String.length_toList]
    omega
  obtain ⟨before, after, hs, hi, -⟩ := hp
  obtain ⟨before', after', hs', hi', -⟩ := hq
  have hbefore : before.length = before'.length := by omega
  rw [hs] at hs'
  obtain ⟨-, hrest⟩ := List.append_inj hs' hbefore
  exact String.toList_inj.1 (List.append_inj hrest hlength).1

/-- Two parts that touch are a part together. -/
theorem append (hp : Slice s i k p) (hq : Slice s k j q) : Slice s i j (p ++ q) := by
  obtain ⟨before, after, hs, hi, hk⟩ := hp
  obtain ⟨before', after', hs', hk', hj⟩ := hq
  have hlength : (before ++ p.toList).length = before'.length := by
    rw [List.length_append, String.length_toList]
    omega
  have hboth := hs.symm.trans hs'
  rw [← List.append_assoc] at hboth
  obtain ⟨rfl, rfl⟩ := List.append_inj hboth hlength
  refine ⟨before, after', ?_, hi, ?_⟩
  · rw [hs', String.toList_append, List.append_assoc, List.append_assoc]
  · rw [String.length_append]
    omega

end Slice

namespace TextMethod

/-- The characters between two places are a part. -/
theorem slice_between {s : String} {m n : Nat} (hmn : m ≤ n) (hn : n ≤ s.length) :
    Slice s m n (String.ofList (between s.toList m n)) := by
  have hlength : s.toList.length = s.length := String.length_toList
  refine ⟨s.toList.take m, s.toList.drop n, ?_, ?_, ?_⟩
  · have hdrop : s.toList.drop n = (s.toList.drop m).drop (n - m) := by
      rw [List.drop_drop, Nat.add_sub_cancel' hmn]
    unfold between
    rw [String.toList_ofList, hdrop, List.take_append_drop, List.take_append_drop]
  · rw [List.length_take]
    omega
  · unfold between
    rw [String.length_ofList, List.length_take, List.length_take, List.length_drop]
    omega

end TextMethod

/-! ## Places -/

namespace Text

variable {t : Text} {a b : Int64}

/-- The place of a text that is nearest to an index. -/
def place (t : Text) (i : Int64) : Int := max 0 (min i.toInt t.content.length)

/-- A text that can be in memory. -/
def Fits (t : Text) : Prop := t.content.length < 2 ^ 63

theorem clamped_eq_place (t : Text) (i : Int64) :
    (clamped i t.content.length : Int) = t.place i := by
  unfold clamped place
  omega

end Text

namespace TextMethod

variable {t : Text} {a b : Int64}

/-- Between two places in order there is a part. -/
theorem sliced_ordered (h : t.place a ≤ t.place b) :
    ∃ p, Slice t.content (t.place a) (t.place b) p ∧ sliced t.content a b = .ok p := by
  have hab : clamped a t.content.length ≤ clamped b t.content.length := by
    rw [← t.clamped_eq_place, ← t.clamped_eq_place] at h
    omega
  have hb : clamped b t.content.length ≤ t.content.length := Nat.min_le_right _ _
  have hpart := slice_between hab hb
  rw [t.clamped_eq_place, t.clamped_eq_place] at hpart
  exact ⟨_, hpart, if_pos hab⟩

theorem sliced_disordered (h : t.place b < t.place a) :
    sliced t.content a b = .error (.invalidRange (t.place a) (t.place b)) := by
  have hab : ¬ clamped a t.content.length ≤ clamped b t.content.length := by
    rw [← t.clamped_eq_place, ← t.clamped_eq_place] at h
    omega
  rw [← t.clamped_eq_place, ← t.clamped_eq_place]
  exact if_neg hab

/-- One character is what is between its place and the next one. -/
theorem character_eq_sliced (h : 0 ≤ a.toInt ∧ a.toInt < t.content.length)
    (hb : b.toInt = a.toInt + 1) : character t.content a = sliced t.content a b := by
  have hposition : position a t.content.length = .ok a.toInt.toNat := if_pos h
  have ha : clamped a t.content.length = a.toInt.toNat := by
    unfold clamped
    omega
  have hb : clamped b t.content.length = a.toInt.toNat + 1 := by
    unfold clamped
    omega
  unfold character sliced
  rw [hposition, ha, hb]
  exact (if_pos (Nat.le_succ _)).symm

/-- Where there is a character, it is the slice up to the next place. -/
theorem character_inside (h : 0 ≤ a.toInt ∧ a.toInt < t.content.length) :
    ∃ p, Slice t.content a.toInt (a.toInt + 1) p ∧ character t.content a = .ok p := by
  have hposition : position a t.content.length = .ok a.toInt.toNat := if_pos h
  have hslice : Slice t.content (a.toInt.toNat : Nat) ((a.toInt.toNat + 1 : Nat) : Int) _ :=
    slice_between (Nat.le_succ a.toInt.toNat) (by omega)
  have hplace : ((a.toInt.toNat : Nat) : Int) = a.toInt := Int.toNat_of_nonneg h.1
  rw [Int.natCast_add, hplace] at hslice
  refine ⟨_, hslice, ?_⟩
  unfold character
  rw [hposition]
  rfl

theorem character_outside (h : a.toInt < 0 ∨ t.content.length ≤ a.toInt) :
    character t.content a = .error (.indexOutOfBounds a t.content.length) := by
  have hposition : position a t.content.length = .error (.indexOutOfBounds a t.content.length) :=
    if_neg (by omega)
  unfold character
  rw [hposition]
  rfl

end TextMethod

/-! ## Calls and operators -/

/-- A step makes a new text of the content `c`, and leaves all else as it was. -/
def Eval.Makes (m : Eval Value) (s : State) (c : String) : Prop :=
  m s = .done (.text ⟨s.world.heap.texts.size, c⟩)
    (s.inWorld (s.world.withHeap (s.world.heap.newText c).2))

section Produce

variable {result : Heap → Except Fault Product} {s : State}

/-- What is produced is told by the result that is seen in the heap. -/
theorem Eval.produce_eq {r : Except Fault Product} (h : result s.world.heap = r) :
    Eval.produce result s =
      Eval.ofExcept (s.world.finish r).1 (s.inWorld (s.world.finish r).2) := by
  rw [← h]
  rfl

theorem Eval.produce_value {v : Value} (h : result s.world.heap = .ok (.value v)) :
    Eval.produce result s = .done v s := Eval.produce_eq h

theorem Eval.produce_text {c : String} (h : result s.world.heap = .ok (.text c)) :
    (Eval.produce result).Makes s c := Eval.produce_eq h

theorem Eval.produce_error {f : Fault} (h : result s.world.heap = .error f) :
    Eval.produce result s = .unwound (.fault f) s := Eval.produce_eq h

end Produce

namespace Walker

variable {w : Walker} {config : Config} {t u : Text} {a b m : Int64} {s s₁ s₂ : State}

/-- The call of a method of a text. -/
def asked (w : Walker) (config : Config) (t : Text) (m : TextMethod) (args : List Int64) :
    Eval Value :=
  w.call config (.native (.text t m)) (args.map .int)

/-- An operator between two values, one evaluated after the other. -/
def operated (op : BinaryOp) (x y : Eval Value) : Eval Value := do
  let a ← x
  let b ← y
  Eval.produce fun h => Operator.binary h op a b

theorem asked_eq {args : List Int64} {method : TextMethod}
    (hcount : args.length = method.params.length) :
    w.asked config t method args =
      Eval.produce fun h => method.apply h t.content (args.map .int) := by
  have harity : (args.map Value.int).length = (Callable.native (.text t method)).arity := by
    rw [List.length_map]
    exact hcount
  unfold asked call
  rw [if_pos harity]
  rfl

theorem asked_slice_eq (w : Walker) (config : Config) (t : Text) (a b : Int64) :
    w.asked config t .slice [a, b] =
      Eval.produce fun _ => (TextMethod.sliced t.content a b).map .text := asked_eq rfl

theorem asked_item_eq (w : Walker) (config : Config) (t : Text) (a : Int64) :
    w.asked config t .item [a] =
      Eval.produce fun _ => (TextMethod.character t.content a).map .text := asked_eq rfl

theorem operated_of_done {op : BinaryOp} {x y : Eval Value} {v v' : Value}
    (hx : x s = .done v s₁) (hy : y s₁ = .done v' s₂) :
    operated op x y s = Eval.produce (fun h => Operator.binary h op v v') s₂ := by
  show Eval.bind x _ s = _
  unfold Eval.bind
  rw [hx]
  show Eval.bind y _ s₁ = _
  unfold Eval.bind
  rw [hy]

/-! ### Methods -/

/-- `sub` answers what stands between the two places, if they are in order. -/
theorem asked_slice (w : Walker) (config : Config) (h : t.place a ≤ t.place b) (s : State) :
    ∃ p, Slice t.content (t.place a) (t.place b) p ∧
      (w.asked config t .slice [a, b]).Makes s p := by
  obtain ⟨p, hp, hsliced⟩ := TextMethod.sliced_ordered h
  refine ⟨p, hp, ?_⟩
  rw [asked_slice_eq]
  exact Eval.produce_text (congrArg (Except.map Product.text) hsliced)

theorem asked_slice_disordered (h : t.place b < t.place a) (s : State) :
    w.asked config t .slice [a, b] s =
      .unwound (.fault (.invalidRange (t.place a) (t.place b))) s := by
  rw [asked_slice_eq, TextMethod.sliced_disordered h]
  exact Eval.produce_error rfl

/-- `at` answers a character, if there is one at the place. -/
theorem asked_item (h : 0 ≤ a.toInt ∧ a.toInt < t.content.length) (s : State) :
    ∃ p, Slice t.content a.toInt (a.toInt + 1) p ∧ (w.asked config t .item [a]).Makes s p := by
  obtain ⟨p, hp, hcharacter⟩ := TextMethod.character_inside h
  refine ⟨p, hp, ?_⟩
  rw [asked_item_eq]
  exact Eval.produce_text (congrArg (Except.map Product.text) hcharacter)

/-- That is what `sub` answers for the place and the next one. -/
theorem asked_item_eq_slice (h : 0 ≤ a.toInt ∧ a.toInt < t.content.length)
    (hb : b.toInt = a.toInt + 1) :
    w.asked config t .item [a] = w.asked config t .slice [a, b] := by
  rw [asked_item_eq, asked_slice_eq, TextMethod.character_eq_sliced h hb]

theorem asked_item_outside (h : a.toInt < 0 ∨ t.content.length ≤ a.toInt) (s : State) :
    w.asked config t .item [a] s =
      .unwound (.fault (.indexOutOfBounds a t.content.length)) s := by
  rw [asked_item_eq, TextMethod.character_outside h]
  exact Eval.produce_error rfl

theorem asked_len (w : Walker) (config : Config) (t : Text) (s : State) :
    w.asked config t .len [] s = .done (.int (Int64.ofNat t.content.length)) s := by
  rw [asked_eq rfl]
  exact Eval.produce_value rfl

/-! ### Laws -/

/-- Two values that are equal in their order are equal. -/
theorem operated_eq {x y : Eval Value} {v v' : Value} (hx : x s = .done v s₁)
    (hy : y s₁ = .done v' s₂) (horder : Operator.order? v v' = some .eq) :
    operated .eq x y s = .done (.bool true) s₂ := by
  rw [operated_of_done hx hy]
  exact Eval.produce_value (Operator.says_eq_iff horder |>.2 rfl)

theorem operated_add_texts {x y : Eval Value} {p q : String} {i j : Nat}
    (hx : x s = .done (.text ⟨i, p⟩) s₁) (hy : y s₁ = .done (.text ⟨j, q⟩) s₂) :
    ∃ s₃, operated (.arith .add) x y s = .done (.text ⟨s₂.world.heap.texts.size, p ++ q⟩) s₃ := by
  rw [operated_of_done hx hy]
  exact ⟨_, Eval.produce_text rfl⟩

/-- Two parts that touch give the part of both. -/
theorem slices_join (ham : t.place a ≤ t.place m) (hmb : t.place m ≤ t.place b) (s : State) :
    ∃ s', operated .eq
      (operated (.arith .add) (w.asked config t .slice [a, m]) (w.asked config t .slice [m, b]))
      (w.asked config t .slice [a, b]) s = .done (.bool true) s' := by
  obtain ⟨p, hp, hmakes⟩ := asked_slice w config ham s
  obtain ⟨q, hq, hmakes'⟩ := asked_slice w config hmb
    (s.inWorld (s.world.withHeap (s.world.heap.newText p).2))
  obtain ⟨s₁, hadd⟩ := operated_add_texts hmakes hmakes'
  obtain ⟨r, hr, hmakes''⟩ := asked_slice w config (Int.le_trans ham hmb) s₁
  have hwhole : p ++ q = r := (hp.append hq).unique hr
  refine ⟨_, operated_eq hadd hmakes'' ?_⟩
  show some (compare (p ++ q) r) = some .eq
  rw [hwhole, Std.ReflOrd.compare_self]

/-- A joined text is as long as both texts together. -/
theorem lengths_add (w : Walker) (config : Config) (t u : Text) (s : State) :
    ∃ v s₁ s₂,
      operated (.arith .add) (pure (.text t)) (pure (.text u)) s = .done (.text v) s₁ ∧
      operated .eq (w.asked config v .len [])
        (operated (.arith .add) (w.asked config t .len []) (w.asked config u .len [])) s₁ =
          .done (.bool true) s₂ := by
  obtain ⟨s₁, hadd⟩ :=
    operated_add_texts (x := pure (.text t)) (y := pure (.text u)) (s := s) rfl rfl
  have hsum : operated (.arith .add) (w.asked config t .len []) (w.asked config u .len []) s₁ =
      .done (.int (Int64.ofNat t.content.length + Int64.ofNat u.content.length)) s₁ := by
    rw [operated_of_done (asked_len w config t s₁) (asked_len w config u s₁)]
    exact Eval.produce_value rfl
  refine ⟨_, s₁, s₁, hadd, operated_eq (asked_len w config _ s₁) hsum ?_⟩
  rw [String.length_append, Int64.ofNat_add]
  exact congrArg some Std.ReflOrd.compare_self

end Walker

/-! ## The methods of texts -/

/-- As long as no property of a text is set, its methods are those of the text. -/
theorem Heap.property?_text {h : Heap} {t : Text} (ht : h.texts[t.id]?.join = none)
    (m : TextMethod) : h.property? (.text t) m.name = some (.function (.native (.text t m))) := by
  have hbag : h.bag? (.text t) = some t.methods := by
    show some (h.texts[t.id]?.join.getD t.methods) = _
    rw [ht]
    rfl
  unfold property?
  rw [hbag]
  cases m <;> rfl

/-- The length of a slice of a text that is in memory. -/
theorem Text.Fits.slice {t : Text} (ht : t.Fits) {a b : Int64} {p : String}
    (hp : Slice t.content (t.place a) (t.place b) p) :
    (Int64.ofNat p.length).toInt = t.place b - t.place a := by
  have hlength := hp.length
  have hbound : p.length < 2 ^ 63 := by
    unfold Fits at ht
    unfold place at hlength
    omega
  rw [Int64.toInt_ofNat_of_lt hbound, hlength]

/-- The place behind a character is an integer in a text that is in memory. -/
theorem Text.Fits.next {t : Text} (ht : t.Fits) {a : Int64} (ha : a.toInt < t.content.length) :
    (a + 1).toInt = a.toInt + 1 := by
  have hone : (1 : Int64).toInt = 1 := rfl
  have hlow := a.le_toInt
  unfold Fits at ht
  rw [Int64.toInt_add, hone]
  exact Int.bmod_eq_of_le (by omega) (by omega)

/-- **Texts are cut by characters.**

1. `sub` answers a new text, which is what stands between its two indices, each moved to the
   nearest place of the text; if these are in the wrong order it fails, and names them.
2. `at` answers, for a place with a character behind it, what `sub` answers for that place and the
   next; for anything else it fails.
3. `len` answers the number of characters.
4. Two slices that touch are equal to the slice of both when they are joined.
5. A slice is as long as its two places are apart, and a joined text as long as both texts together.
6. In a text that can be in memory a length is the integer that is answered, and the place behind
   that of a character is an integer as well.
7. The methods are had from the text, if no property of it was set. -/
theorem texts_by_characters (w : Walker) (config : Config) (t : Text) (a b : Int64) (s : State) :
    (t.place a ≤ t.place b → ∃ p, Slice t.content (t.place a) (t.place b) p ∧
      (w.asked config t .slice [a, b]).Makes s p) ∧
    (t.place b < t.place a → w.asked config t .slice [a, b] s =
      .unwound (.fault (.invalidRange (t.place a) (t.place b))) s) ∧
    (0 ≤ a.toInt ∧ a.toInt < t.content.length →
      (∃ p, Slice t.content a.toInt (a.toInt + 1) p ∧ (w.asked config t .item [a]).Makes s p) ∧
      (b.toInt = a.toInt + 1 →
        w.asked config t .item [a] s = w.asked config t .slice [a, b] s)) ∧
    (a.toInt < 0 ∨ t.content.length ≤ a.toInt → w.asked config t .item [a] s =
      .unwound (.fault (.indexOutOfBounds a t.content.length)) s) ∧
    w.asked config t .len [] s = .done (.int (Int64.ofNat t.content.length)) s ∧
    (∀ m, t.place a ≤ t.place m → t.place m ≤ t.place b → ∃ s', Walker.operated .eq
      (Walker.operated (.arith .add) (w.asked config t .slice [a, m])
        (w.asked config t .slice [m, b]))
      (w.asked config t .slice [a, b]) s = .done (.bool true) s') ∧
    (t.place a ≤ t.place b → ∃ u s' l, w.asked config t .slice [a, b] s = .done (.text u) s' ∧
      w.asked config u .len [] s' = .done (.int l) s' ∧
      l = Int64.ofInt (t.place b - t.place a) ∧ (t.Fits → l.toInt = t.place b - t.place a)) ∧
    (∀ u, ∃ v s₁ s₂, Walker.operated (.arith .add) (pure (.text t)) (pure (.text u)) s =
        .done (.text v) s₁ ∧
      Walker.operated .eq (w.asked config v .len [])
        (Walker.operated (.arith .add) (w.asked config t .len []) (w.asked config u .len []))
        s₁ = .done (.bool true) s₂) ∧
    (t.Fits → (Int64.ofNat t.content.length).toInt = t.content.length ∧
      (0 ≤ a.toInt ∧ a.toInt < t.content.length → (a + 1).toInt = a.toInt + 1)) ∧
    (∀ (h : Heap) m, h.texts[t.id]?.join = none →
      h.property? (.text t) m.name = some (.function (.native (.text t m)))) := by
  refine ⟨?_, ?_, ?_, ?_, ?_, ?_, ?_, ?_, ?_, ?_⟩
  · intro hab
    exact Walker.asked_slice w config hab s
  · intro hba
    exact Walker.asked_slice_disordered hba s
  · intro ha
    exact ⟨Walker.asked_item ha s, fun hb => congrFun (Walker.asked_item_eq_slice ha hb) s⟩
  · intro ha
    exact Walker.asked_item_outside ha s
  · exact Walker.asked_len w config t s
  · intro m ham hmb
    exact Walker.slices_join ham hmb s
  · intro hab
    obtain ⟨p, hp, hmakes⟩ := Walker.asked_slice w config hab s
    refine ⟨_, _, _, hmakes, Walker.asked_len w config _ _, ?_, fun ht => ht.slice hp⟩
    rw [← hp.length, Int64.ofInt_eq_ofNat]
  · intro u
    exact Walker.lengths_add w config t u s
  · intro ht
    exact ⟨Int64.toInt_ofNat_of_lt ht, fun ha => ht.next ha.2⟩
  · intro h m hm
    exact h.property?_text hm m

/-- Characters of one, two and four bytes, an index far behind the text and one far before it. -/
theorem texts_by_characters_wide :
    let t : Text := ⟨0, "aé😀"⟩
    let w := walker {} 1
    let behind := Int64.maxValue
    let before := Int64.minValue
    let s : State := default
    (t.place 1 ≤ t.place 2 ∧ t.place 2 ≤ t.place behind ∧
      (w.asked {} t .slice [1, behind]).Makes s "é😀" ∧
      ∃ s', Walker.operated .eq
        (Walker.operated (.arith .add) (w.asked {} t .slice [1, 2])
          (w.asked {} t .slice [2, behind]))
        (w.asked {} t .slice [1, behind]) s = .done (.bool true) s') ∧
    (t.place before < t.place behind ∧
      w.asked {} t .slice [behind, before] s = .unwound (.fault (.invalidRange 3 0)) s) ∧
    ((0 ≤ (1 : Int64).toInt ∧ (1 : Int64).toInt < t.content.length) ∧
      w.asked {} t .item [1] s = w.asked {} t .slice [1, 2] s) ∧
    (before.toInt < 0 ∧
      w.asked {} t .item [before] s = .unwound (.fault (.indexOutOfBounds before 3)) s) := by
  intro t w behind before s
  obtain ⟨hslice, -, -, -, -, hjoin, -⟩ := texts_by_characters w {} t 1 behind s
  obtain ⟨-, hdisordered, -⟩ := texts_by_characters w {} t behind before s
  obtain ⟨-, -, hitem, -⟩ := texts_by_characters w {} t 1 2 s
  obtain ⟨-, -, -, houtside, -⟩ := texts_by_characters w {} t before before s
  have hone : t.place 1 ≤ t.place 2 := by decide
  have htwo : t.place 2 ≤ t.place behind := by decide
  have hback : t.place before < t.place behind := by decide
  have hinside : 0 ≤ (1 : Int64).toInt ∧ (1 : Int64).toInt < t.content.length := by decide
  have hbefore : before.toInt < 0 := by decide
  have hrest : Slice t.content (t.place 1) (t.place behind) "é😀" :=
    ⟨['a'], [], by decide, by decide, by decide⟩
  obtain ⟨p, hp, hmakes⟩ := hslice (Int.le_trans hone htwo)
  rw [hp.unique hrest] at hmakes
  have hfail := hdisordered hback
  rw [show t.place behind = 3 by decide, show t.place before = 0 by decide] at hfail
  have hfail' := houtside (.inl hbefore)
  rw [show t.content.length = 3 by decide] at hfail'
  exact ⟨⟨hone, htwo, hmakes, hjoin 2 hone htwo⟩, ⟨hback, hfail⟩,
    ⟨hinside, (hitem hinside).2 rfl⟩, ⟨hbefore, hfail'⟩⟩

end SmallScript
