/-
  Lists are plain sequences that are shared.

  What a method does is told of a plain sequence of values, by the shape of the sequence and without
  any arithmetic (`ListMethod.Does`): an index stands for the values before it.  Whoever has a list
  has this one sequence: the methods of a list know its place in the heap and nothing else, so it does
  not matter through which value they were come by, or when.

  A history is a list of moves (`State.History`): a method of some list is called, a list literal
  empties its list or pushes the value of an element, or something happens that leaves the lists
  alone.  One move does to the sequence of a list what it says (`State.Moves.plays`), so a whole
  history does what its moves say one after the other (`State.History.replay`).  Evaluating a list
  literal is such a history (`Walker.history_literal`), whatever its elements do under way.
-/
import Mathlib.Data.List.Basic
import SmallScript.Proofs.Evaluation.Memory
import SmallScript.Proofs.Evaluation.Refill

namespace SmallScript

/-! ## Plain sequences -/

/-- What an index finds in a sequence: the values before its place, the value there and those behind
it.  `names` tells what types are called in complaints. -/
inductive Finds (names : Value → String) :
    Value → List Value → Except Fault (List Value × Value × List Value) → Prop where
  | inside {before after : List Value} {v : Value} {i : Int64} : i.toInt = before.length →
      Finds names (.int i) (before ++ v :: after) (.ok (before, v, after))
  | outside {vs : List Value} {i : Int64} : i.toInt < 0 ∨ vs.length ≤ i.toInt →
      Finds names (.int i) vs (.error (.indexOutOfBounds i vs.length))
  | noInt {vs : List Value} {k : Value} : (∀ i, k ≠ .int i) →
      Finds names k vs (.error (.typeMismatch "int" (names k)))

/-- A sequence with the value that was found replaced, if one was found. -/
def replaced (vs : List Value) (x : Value) :
    Except Fault (List Value × Value × List Value) → List Value
  | .ok (before, _, after) => before ++ x :: after
  | .error _ => vs

/-- What a call of a method does to a sequence of values: its result, and the sequence behind it. -/
inductive ListMethod.Does (names : Value → String) :
    ListMethod → List Value → List Value → Except Fault Value → List Value → Prop where
  | len (vs : List Value) : Does names .len [] vs (.ok (.int (Int64.ofNat vs.length))) vs
  | item {vs : List Value} {k : Value} {found : Except Fault (List Value × Value × List Value)} :
      Finds names k vs found → Does names .item [k] vs (found.map fun (_, v, _) => v) vs
  | assign {vs : List Value} {k x : Value}
      {found : Except Fault (List Value × Value × List Value)} :
      Finds names k vs found →
      Does names .assign [k, x] vs (found.map fun _ => .null) (replaced vs x found)
  | push (vs : List Value) (x : Value) : Does names .push [x] vs (.ok .null) (vs ++ [x])
  | pop (vs : List Value) (x : Value) : Does names .pop [] (vs ++ [x]) (.ok x) vs
  | popEmpty : Does names .pop [] [] (.error (.indexOutOfBounds (-1) 0)) []
  | miscounted {m : ListMethod} {args vs : List Value} : args.length ≠ m.params.length →
      Does names m args vs (.error (.arityMismatch m.params.length args.length)) vs

section Sequences

variable {names : Value → String} {k : Value} {vs ws ws' : List Value}

/-- An index finds one thing. -/
theorem Finds.unique {a b : Except Fault (List Value × Value × List Value)}
    (h : Finds names k vs a) (h' : Finds names k vs b) : a = b := by
  generalize hus : vs = us at h'
  cases h with
  | @inside before after v i hi =>
    have hin : ¬ (i.toInt < 0 ∨ ((before ++ v :: after).length : Int) ≤ i.toInt) := by
      rw [List.length_append, List.length_cons]
      omega
    cases h' with
    | @inside before' after' v' _ hi' =>
      have hlength : before.length = before'.length := by omega
      obtain ⟨rfl, hrest⟩ := List.append_inj hus hlength
      obtain ⟨rfl, rfl⟩ := List.cons.inj hrest
      rfl
    | outside hout => exact absurd (hus ▸ hout) hin
    | noInt hk => exact absurd rfl (hk i)
  | @outside _ i hout =>
    cases h' with
    | @inside before' after' v' _ hi' =>
      rw [hus, List.length_append, List.length_cons] at hout
      omega
    | outside _ => rw [hus]
    | noInt hk => exact absurd rfl (hk i)
  | noInt hk =>
    cases h' with
    | inside _ => exact absurd rfl (hk _)
    | outside _ => exact absurd rfl (hk _)
    | noInt _ => rfl

/-- A call does one thing to a sequence. -/
theorem ListMethod.Does.unique {m : ListMethod} {args : List Value} {a b : Except Fault Value}
    (h : m.Does names args vs a ws) (h' : m.Does names args vs b ws') : a = b ∧ ws = ws' := by
  generalize hus : vs = us at h'
  cases h with
  | len =>
    cases h' with
    | len => exact ⟨by rw [hus], hus⟩
    | miscounted hcount => exact absurd rfl hcount
  | item hfinds =>
    cases h' with
    | item hfinds' =>
      rw [hfinds.unique (hus ▸ hfinds')]
      exact ⟨rfl, hus⟩
    | miscounted hcount => exact absurd rfl hcount
  | assign hfinds =>
    cases h' with
    | assign hfinds' =>
      rw [hfinds.unique (hus ▸ hfinds'), hus]
      exact ⟨rfl, rfl⟩
    | miscounted hcount => exact absurd rfl hcount
  | push =>
    cases h' with
    | push => exact ⟨rfl, by rw [hus]⟩
    | miscounted hcount => exact absurd rfl hcount
  | pop ws x =>
    cases h' with
    | pop ws' x' =>
      obtain ⟨rfl, hx⟩ := List.append_inj' hus rfl
      cases hx
      exact ⟨rfl, rfl⟩
    | popEmpty => exact absurd hus (by simp)
    | miscounted hcount => exact absurd rfl hcount
  | popEmpty =>
    cases h' with
    | pop ws' x' => exact absurd hus (by simp)
    | popEmpty => exact ⟨rfl, rfl⟩
    | miscounted hcount => exact absurd rfl hcount
  | miscounted hcount =>
    cases h' with
    | miscounted _ => exact ⟨rfl, hus⟩
    | _ => exact absurd rfl hcount

end Sequences

/-! ## Calls -/

section Places

variable {i : Int64} {n : Nat} {before after : List Value} {v : Value}

/-- An index is outside of a sequence, or it stands for what is before some value of it. -/
theorem outside_or_split (i : Int64) (vs : List Value) :
    (i.toInt < 0 ∨ vs.length ≤ i.toInt) ∨
      ∃ before v after, vs = before ++ v :: after ∧ i.toInt = before.length := by
  by_cases hi : 0 ≤ i.toInt ∧ i.toInt < vs.length
  · have hlt : i.toInt.toNat < vs.length := by omega
    refine Or.inr ⟨vs.take i.toInt.toNat, vs[i.toInt.toNat], vs.drop (i.toInt.toNat + 1), ?_, ?_⟩
    · rw [List.getElem_cons_drop, List.take_append_drop]
    · rw [List.length_take]
      omega
  · exact Or.inl (by omega)

/-- An index outside of a sequence is no position. -/
theorem position_outside (h : i.toInt < 0 ∨ n ≤ i.toInt) :
    position i n = .error (.indexOutOfBounds i n) := by
  unfold position
  rw [if_neg (by omega)]

/-- An index in it stands for the values before it. -/
theorem position_split (h : i.toInt = before.length) :
    position i (before ++ v :: after).length = .ok before.length := by
  have hinside : 0 ≤ i.toInt ∧ i.toInt < (before ++ v :: after).length := by
    rw [List.length_append, List.length_cons]
    omega
  unfold position
  rw [if_pos hinside, h]
  rfl

end Places

/-- The method of a call. -/
def ListCall.method : ListCall → ListMethod
  | len => .len
  | item _ => .item
  | assign _ _ => .assign
  | push _ => .push
  | pop => .pop

/-- The arguments of a call. -/
def ListCall.args : ListCall → List Value
  | len => []
  | item i => [.int i]
  | assign i x => [.int i, x]
  | push x => [x]
  | pop => []

section Calls

variable {h : Heap} {r : ListRef} {m : ListMethod} {args : List Value}

/-- A call whose arguments fit does to an array what it does to a plain sequence. -/
theorem ListCall.does (names : Value → String) (vs : List Value) (call : ListCall) :
    call.method.Does names call.args vs (call.result vs.toArray) (call.after vs.toArray).toList := by
  cases call with
  | len => exact .len vs
  | item i =>
    show ListMethod.item.Does names [.int i] vs
      ((position i vs.length).map fun p => vs.toArray[p]?.getD .null) vs
    rcases outside_or_split i vs with hout | ⟨before, v, after, rfl, hi⟩
    · rw [position_outside hout]
      exact .item (.outside hout)
    · have hat : (before ++ v :: after).toArray[before.length]? = some v := by simp
      rw [position_split hi]
      show ListMethod.item.Does names _ _ (.ok ((before ++ v :: after).toArray[_]?.getD .null)) _
      rw [hat]
      exact .item (.inside hi)
  | assign i x =>
    show ListMethod.assign.Does names [.int i, x] vs ((position i vs.length).map fun _ => .null)
      ((ListCall.assign i x).after vs.toArray).toList
    unfold after
    dsimp only
    rw [List.size_toArray]
    rcases outside_or_split i vs with hout | ⟨before, v, after, rfl, hi⟩
    · rw [position_outside hout]
      exact .assign (.outside hout)
    · have hset : (before ++ v :: after).toArray.setIfInBounds before.length x =
          (before ++ x :: after).toArray := by simp
      rw [position_split hi]
      dsimp only
      rw [hset]
      exact .assign (.inside hi)
  | push x =>
    show ListMethod.push.Does names [x] vs (.ok .null) (vs.toArray.push x).toList
    rw [Array.toList_push]
    exact .push vs x
  | pop =>
    unfold result
    dsimp only
    rcases List.eq_nil_or_concat vs with rfl | ⟨vs, x, rfl⟩
    · exact .popEmpty
    · have hlast : (vs ++ [x]).toArray.back? = some x := by simp
      have hpop : (vs ++ [x]).toArray.pop = vs.toArray := by simp
      rw [List.concat_eq_append, hlast]
      show ListMethod.pop.Does names [] (vs ++ [x]) (.ok x) (vs ++ [x]).toArray.pop.toList
      rw [hpop]
      exact .pop vs x

/-- A value is an integer, or there is a complaint about it. -/
theorem Heap.expectInt_cases (h : Heap) (k : Value) :
    (∃ i, k = .int i) ∨
      (∀ i, k ≠ .int i) ∧ h.expectInt k = .error (.typeMismatch "int" (h.typeName k)) := by
  cases k with
  | int i => exact Or.inl ⟨i, rfl⟩
  | _ => exact Or.inr ⟨nofun, rfl⟩

/-- A call with another number of arguments is refused. -/
theorem ListMethod.call_miscounted (hcount : args.length ≠ m.params.length) (h : Heap) :
    m.call h args = .error (.arityMismatch m.params.length args.length) := by
  unfold call
  split
  case h_6 => rfl
  all_goals exact absurd rfl hcount

/-- The arguments of a method fit, or there is a complaint about them. -/
theorem ListMethod.call_cases (h : Heap) (m : ListMethod) (args : List Value) :
    (∃ call : ListCall, m = call.method ∧ args = call.args ∧ m.call h args = .ok call) ∨
      ∃ f, m.call h args = .error f ∧ ∀ vs, m.Does h.typeName args vs (.error f) vs := by
  by_cases hcount : args.length = m.params.length
  · cases m with
    | len =>
      obtain rfl : args = [] := List.length_eq_zero_iff.1 hcount
      exact Or.inl ⟨.len, rfl, rfl, rfl⟩
    | item =>
      obtain ⟨k, rfl⟩ := List.length_eq_one_iff.1 hcount
      rcases h.expectInt_cases k with ⟨i, rfl⟩ | ⟨hk, hexpect⟩
      · exact Or.inl ⟨.item i, rfl, rfl, rfl⟩
      · exact Or.inr ⟨_, congrArg (Except.map ListCall.item) hexpect, fun _ => .item (.noInt hk)⟩
    | assign =>
      obtain ⟨k, x, rfl⟩ := List.length_eq_two.1 hcount
      rcases h.expectInt_cases k with ⟨i, rfl⟩ | ⟨hk, hexpect⟩
      · exact Or.inl ⟨.assign i x, rfl, rfl, rfl⟩
      · exact Or.inr ⟨_, congrArg (Except.map (ListCall.assign · x)) hexpect,
          fun _ => .assign (.noInt hk)⟩
    | push =>
      obtain ⟨x, rfl⟩ := List.length_eq_one_iff.1 hcount
      exact Or.inl ⟨.push x, rfl, rfl, rfl⟩
    | pop =>
      obtain rfl : args = [] := List.length_eq_zero_iff.1 hcount
      exact Or.inl ⟨.pop, rfl, rfl, rfl⟩
  · exact Or.inr ⟨_, call_miscounted hcount h, fun _ => .miscounted hcount⟩

/-- Arguments that do not fit leave the heap alone. -/
theorem ListMethod.apply_refused {f : Fault} (hcall : m.call h args = .error f) (r : ListRef) :
    m.apply r args h = (.error f, h) := by
  unfold apply
  rw [hcall]

/-- A call on a list answers from its items and changes them. -/
theorem ListMethod.apply_of_call {call : ListCall} (hcall : m.call h args = .ok call)
    (r : ListRef) : m.apply r args h = (call.result (h.items r), h.modifyItems r call.after) := by
  unfold apply
  rw [hcall]

/-- Every call of a method of a list does to its items what it does to a plain sequence. -/
theorem ListMethod.does_apply (hr : r.index < h.lists.size) (m : ListMethod)
    (args : List Value) :
    m.Does h.typeName args (h.items r).toList (m.apply r args h).1
      ((m.apply r args h).2.items r).toList := by
  rcases m.call_cases h args with ⟨call, rfl, rfl, hcall⟩ | ⟨f, hcall, hdoes⟩
  · rw [apply_of_call hcall]
    dsimp only
    rw [Heap.items_modifyItems, if_pos ⟨rfl, hr⟩]
    exact call.does h.typeName (h.items r).toList
  · rw [apply_refused hcall]
    exact hdoes _

/-- What is changed in no way is the heap that it was. -/
theorem Heap.modifyItems_same {f : Array Value → Array Value} (hf : f (h.items r) = h.items r) :
    h.modifyItems r f = h := by
  have hlists : (h.lists.modify r.index fun cell => { cell with items := f cell.items }) =
      h.lists := by
    refine Array.ext Array.size_modify fun i hi hi' => ?_
    rw [Array.getElem_modify]
    split
    · rename_i hri
      unfold Heap.items at hf
      rw [hri, Array.getElem?_eq_getElem hi'] at hf
      exact congrArg (fun items => { h.lists[i] with items }) hf
    · rfl
  unfold modifyItems
  rw [hlists]

end Calls

/-! ## Moves -/

/-- What can happen to lists. -/
inductive Move where
  /-- A method of a list is called, with a result; `names` tells what types are called then. -/
  | call (names : Value → String) (q : ListRef) (m : ListMethod) (args : List Value)
      (result : Except Fault Value)
  /-- A list literal empties its list. -/
  | clear (q : ListRef)
  /-- A list literal pushes the value of an element. -/
  | push (q : ListRef) (v : Value)
  /-- Something else, which leaves the lists alone. -/
  | other

/-- The lists that are there stay there and hold what they held. -/
structure Heap.SameLists (h k : Heap) : Prop where
  items (q : ListRef) : q.index < h.lists.size → k.items q = h.items q
  size : h.lists.size ≤ k.lists.size

theorem Heap.SameLists.refl (h : Heap) : h.SameLists h := ⟨fun _ _ => rfl, Nat.le_refl _⟩

/-- A move that is made in the state `s`, and the state behind it.  A method is called as any function
is, with a value or a fault behind it. -/
inductive State.Moves (w : Walker) (config : Config) (s : State) : Move → State → Prop where
  | call {t : State} {q : ListRef} {m : ListMethod} {args : List Value}
      {result : Except Fault Value} :
      w.call config (.native (.list q m)) args s = Eval.ofExcept result t →
      Moves w config s (.call s.world.heap.typeName q m args result) t
  | clear {t : State} {id : NodeId} {q : ListRef} : Walker.emptied id s = .done q t →
      Moves w config s (.clear q) t
  | push (q : ListRef) (v : Value) : Moves w config s (.push q v) (Walker.pushed q v s)
  | other {t : State} : s.world.heap.SameLists t.world.heap → Moves w config s .other t

/-- One move after the other. -/
inductive State.History (w : Walker) (config : Config) : State → List Move → State → Prop where
  | nil (s : State) : History w config s [] s
  | cons {s t u : State} {move : Move} {moves : List Move} : s.Moves w config move t →
      History w config t moves u → History w config s (move :: moves) u

/-- What a move does to the sequence in the list `r`. -/
inductive Move.Plays (r : ListRef) : Move → List Value → List Value → Prop where
  | call {names : Value → String} {m : ListMethod} {args vs vs' : List Value}
      {result : Except Fault Value} : m.Does names args vs result vs' →
      Plays r (.call names r m args result) vs vs'
  | callOther {names : Value → String} {q : ListRef} {m : ListMethod} {args vs : List Value}
      {result : Except Fault Value} : q ≠ r → Plays r (.call names q m args result) vs vs
  | clear (vs : List Value) : Plays r (.clear r) vs []
  | clearOther {q : ListRef} {vs : List Value} : q ≠ r → Plays r (.clear q) vs vs
  | push (v : Value) (vs : List Value) : Plays r (.push r v) vs (vs ++ [v])
  | pushOther {q : ListRef} {v : Value} {vs : List Value} : q ≠ r → Plays r (.push q v) vs vs
  | other (vs : List Value) : Plays r .other vs vs

/-- What moves do to the sequence in the list `r`, one after the other. -/
inductive Replay (r : ListRef) : List Move → List Value → List Value → Prop where
  | nil (vs : List Value) : Replay r [] vs vs
  | cons {move : Move} {moves : List Move} {us vs ws : List Value} : move.Plays r us vs →
      Replay r moves vs ws → Replay r (move :: moves) us ws

section Moves

variable {w : Walker} {config : Config} {r q : ListRef} {s t u : State}

theorem Heap.size_modifyItems (q : ListRef) (f : Array Value → Array Value) (h : Heap) :
    (h.modifyItems q f).lists.size = h.lists.size :=
  Array.size_modify

/-- Another list keeps its items. -/
theorem Heap.items_modifyItems_of_ne {h : Heap} (hqr : q ≠ r) (f : Array Value → Array Value) :
    (h.modifyItems q f).items r = h.items r := by
  rw [Heap.items_modifyItems, if_neg fun hboth => hqr hboth.1]

/-- A move that is one change of the items of one list. -/
theorem Move.plays_modifyItems {move : Move} {f : Array Value → Array Value} {h : Heap}
    (hat : move.Plays q (h.items q).toList (f (h.items q)).toList)
    (hother : q ≠ r → move.Plays r (h.items r).toList (h.items r).toList)
    (hr : r.index < h.lists.size) :
    move.Plays r (h.items r).toList ((h.modifyItems q f).items r).toList ∧
      r.index < (h.modifyItems q f).lists.size := by
  refine ⟨?_, by rwa [Heap.size_modifyItems]⟩
  by_cases hqr : q = r
  · subst hqr
    rw [Heap.items_modifyItems, if_pos ⟨rfl, hr⟩]
    exact hat
  · rw [Heap.items_modifyItems_of_ne hqr]
    exact hother hqr

/-- So the method of a list leaves all other lists alone. -/
theorem ListMethod.items_apply_of_ne (hqr : q ≠ r) (m : ListMethod) (args : List Value) (h : Heap) :
    (m.apply q args h).2.items r = h.items r := by
  unfold apply
  split
  · rfl
  · exact Heap.items_modifyItems_of_ne hqr _

/-- It makes no list. -/
theorem ListMethod.size_apply (q : ListRef) (m : ListMethod) (args : List Value) (h : Heap) :
    (m.apply q args h).2.lists.size = h.lists.size := by
  unfold apply
  split
  · rfl
  · exact Heap.size_modifyItems _ _ _

/-- To call a method of a list is to apply it to the heap. -/
theorem Walker.call_list (w : Walker) (config : Config) (q : ListRef) (m : ListMethod)
    (args : List Value) (s : State) :
    w.call config (.native (.list q m)) args s =
      Eval.ofExcept (m.apply q args s.world.heap).1
        (s.inWorld (s.world.withHeap (m.apply q args s.world.heap).2)) := by
  by_cases hcount : args.length = m.params.length
  · have hcall : w.call config (.native (.list q m)) args =
        Eval.tryWorld ((Native.list q m).invoke args) := if_pos hcount
    rw [hcall]
    rfl
  · have hcall : w.call config (.native (.list q m)) args =
        Eval.fail (.arityMismatch m.params.length args.length) := if_neg hcount
    rw [hcall, ListMethod.apply_refused (ListMethod.call_miscounted hcount s.world.heap)]
    rfl

/-- A step that passes on a result tells the result and the state. -/
theorem Eval.ofExcept_inj {α : Type} {a b : Except Fault α} (h : ofExcept a s = ofExcept b t) :
    a = b ∧ s = t := by
  cases a <;> cases b <;> cases h <;> exact ⟨rfl, rfl⟩

/-! ### List literals -/

namespace Walker

variable {id : NodeId}

/-- The state in which a list was emptied. -/
def cleared (q : ListRef) (s : State) : State :=
  s.inWorld (s.world.withHeap (s.world.heap.modifyItems q fun _ => #[]))

/-- The list of a literal that is remembered is emptied. -/
theorem emptied_known (h : s.memo.lists.get? id = some q) :
    emptied id s = .done q (cleared q s) := by
  show Eval.bind (listOf id) _ s = _
  unfold Eval.bind
  rw [listOf_known h]
  rfl

/-- The first evaluation of a list literal makes the list that it empties. -/
theorem emptied_unknown (h : s.memo.lists.get? id = none) :
    let made := s.world.heap.newList #[]
    emptied id s = .done made.1 (cleared made.1 ((s.inWorld (s.world.withHeap made.2)).remembering
      { s.memo with lists := s.memo.lists.put id made.1 })) := by
  show Eval.bind (listOf id) _ s = _
  unfold Eval.bind
  rw [listOf_unknown h]
  rfl

/-- A literal always gets a list. -/
theorem emptied_done (id : NodeId) (s : State) : ∃ q t, emptied id s = .done q t := by
  cases h : s.memo.lists.get? id with
  | some q => exact ⟨_, _, emptied_known h⟩
  | none => exact ⟨_, _, emptied_unknown h⟩

/-- Whichever list it gets, the lists that were there see it emptied. -/
theorem plays_emptied (h : emptied id s = .done q t) (hr : r.index < s.world.heap.lists.size) :
    (Move.clear q).Plays r (s.world.heap.items r).toList (t.world.heap.items r).toList ∧
      r.index < t.world.heap.lists.size := by
  cases hid : s.memo.lists.get? id with
  | some p =>
    rw [emptied_known hid] at h
    cases h
    exact Move.plays_modifyItems (.clear _) .clearOther hr
  | none =>
    rw [emptied_unknown hid] at h
    cases h
    -- The new list stands behind those that are there.
    have hsame : (s.world.heap.newList #[]).2.items r = s.world.heap.items r := by
      rw [Heap.items_newList, if_neg (Nat.ne_of_lt hr)]
    have hthere : r.index < (s.world.heap.newList #[]).2.lists.size := by
      show r.index < (s.world.heap.lists.push _).size
      rw [Array.size_push]
      omega
    rw [← hsame]
    exact Move.plays_modifyItems (.clear _) .clearOther hthere

end Walker

/-! ### One move -/

/-- A move does to the sequence in a list what it says, and the list stays there. -/
theorem State.Moves.plays {move : Move} (h : s.Moves w config move t)
    (hr : r.index < s.world.heap.lists.size) :
    move.Plays r (s.world.heap.items r).toList (t.world.heap.items r).toList ∧
      r.index < t.world.heap.lists.size := by
  cases h with
  | @call _ q m args result hcall =>
    rw [Walker.call_list] at hcall
    obtain ⟨rfl, rfl⟩ := Eval.ofExcept_inj hcall
    show Move.Plays r _ _ ((m.apply q args s.world.heap).2.items r).toList ∧
      r.index < (m.apply q args s.world.heap).2.lists.size
    rw [ListMethod.size_apply]
    refine ⟨?_, hr⟩
    by_cases hqr : q = r
    · subst hqr
      exact .call (ListMethod.does_apply hr m args)
    · rw [ListMethod.items_apply_of_ne hqr]
      exact .callOther hqr
  | @clear _ id q hempty => exact Walker.plays_emptied hempty hr
  | push q v =>
    refine Move.plays_modifyItems ?_ .pushOther hr
    rw [Array.toList_push]
    exact .push v _
  | other hsame =>
    rw [hsame.items r hr]
    exact ⟨.other _, Nat.lt_of_lt_of_le hr hsame.size⟩

/-! ## Histories -/

/-- At the end of a history a list holds what its moves made of what it held. -/
theorem State.History.replay {moves : List Move} (h : State.History w config s moves t)
    (hr : r.index < s.world.heap.lists.size) :
    Replay r moves (s.world.heap.items r).toList (t.world.heap.items r).toList ∧
      r.index < t.world.heap.lists.size := by
  induction h with
  | nil s => exact ⟨.nil _, hr⟩
  | cons hmove _ ih =>
    obtain ⟨hplays, hthere⟩ := hmove.plays hr
    obtain ⟨hreplay, hstill⟩ := ih hthere
    exact ⟨.cons hplays hreplay, hstill⟩

/-- A history may go on with another. -/
theorem State.History.append {moves more : List Move} (h : State.History w config s moves t)
    (hmore : State.History w config t more u) :
    State.History w config s (moves ++ more) u := by
  induction h with
  | nil s => exact hmore
  | cons hmove _ ih => exact .cons hmove (ih hmore)

namespace Walker

/-- The moves of the elements of a list literal, whose own moves are given: each is followed by the
push of its value, up to the first that has none. -/
def fillMoves (w : Walker) (q : ListRef) (own : Expr → State → List Move) :
    List Expr → State → List Move
  | [], _ => []
  | e :: es, s =>
    own e s ++
      match w.eval e s with
      | .done v u => .push q v :: fillMoves w q own es (pushed q v u)
      | .unwound _ _ | .exhausted => []

/-- By induction on the elements: the history of one, and then its value is pushed. -/
theorem history_fill {own : Expr → State → List Move} (es : List Expr)
    (hown : ∀ e ∈ es, ∀ u u', (w.eval e u).state? = some u' →
      State.History w config u (own e u) u') :
    ∀ s, (w.fill q es s).state? = some t →
      State.History w config s (w.fillMoves q own es s) t := by
  induction es with
  | nil =>
    intro s h
    cases h
    exact .nil _
  | cons e es ih =>
    intro s h
    have ih := ih fun e' he' => hown e' (List.mem_cons_of_mem e he')
    have hown : ∀ u, (w.eval e s).state? = some u → State.History w config s (own e s) u :=
      hown e List.mem_cons_self s
    change (Eval.bind (w.eval e) _ s).state? = some t at h
    unfold fillMoves
    unfold Eval.bind at h
    cases hv : w.eval e s with
    | done v u =>
      rw [hv] at h hown
      have hrest : (w.fill q es (pushed q v u)).state? = some t := by
        change (Eval.bind (w.fill q es) (fun vs => pure (v :: vs)) (pushed q v u)).state? = _ at h
        unfold Eval.bind at h
        cases hvs : w.fill q es (pushed q v u) <;> rw [hvs] at h <;> exact h
      exact (hown u rfl).append (.cons (.push q v) (ih _ hrest))
    | unwound e' u =>
      rw [hv] at h hown
      cases h
      rw [List.append_nil]
      exact hown _ rfl
    | exhausted =>
      rw [hv] at h
      cases h

/-- Evaluating a list literal empties its list, and then each element moves as it does and has its
value pushed. -/
theorem history_literal {own : Expr → State → List Move} (span : Span) {id : NodeId}
    {es : List Expr} (hown : ∀ e ∈ es, ∀ u u', (w.eval e u).state? = some u' →
      State.History w config u (own e u) u')
    (h : (w.evaluate config (.list span id es) s).state? = some t) :
    ∃ q s₀, emptied id s = .done q s₀ ∧
      State.History w config s (.clear q :: w.fillMoves q own es s₀) t := by
  obtain ⟨q, s₀, hempty⟩ := emptied_done id s
  refine ⟨q, s₀, hempty, .cons (.clear hempty) (history_fill es hown s₀ ?_)⟩
  rw [evaluate_list] at h
  change (Eval.bind (emptied id) _ s).state? = some t at h
  unfold Eval.bind at h
  rw [hempty] at h
  change (Eval.bind (w.fill q es) _ s₀).state? = some t at h
  unfold Eval.bind at h
  cases hfill : w.fill q es s₀ <;> rw [hfill] at h <;> exact h

end Walker

end Moves

/-! ## Success and failure -/

section Failures

variable {h : Heap} {r : ListRef} {m : ListMethod} {args : List Value}

/-- A call that fails leaves a sequence as it was. -/
theorem ListCall.after_of_error {call : ListCall} {items : Array Value} {f : Fault}
    (hresult : call.result items = .error f) : call.after items = items := by
  cases call with
  | len => rfl
  | item i => rfl
  | assign i x =>
    unfold result at hresult
    unfold after
    dsimp only at hresult ⊢
    cases hi : position i items.size with
    | ok p =>
      rw [hi] at hresult
      cases hresult
    | error f => rfl
  | push x => cases hresult
  | pop =>
    unfold result at hresult
    dsimp only at hresult
    split at hresult
    · cases hresult
    · rename_i hback
      have hempty : items = #[] := by simpa using hback
      rw [hempty]
      rfl

/-- A call that fails leaves the heap as it was. -/
theorem ListMethod.apply_error {f : Fault} (hresult : (m.apply r args h).1 = .error f) :
    (m.apply r args h).2 = h := by
  unfold apply at hresult ⊢
  split
  · rfl
  · rename_i call hcall
    rw [hcall] at hresult
    exact Heap.modifyItems_same (ListCall.after_of_error hresult)

end Failures

namespace Walker

variable {w : Walker} {config : Config} {r : ListRef} {m : ListMethod} {s t : State} {k x : Value}

/-- A call of a list's method that fails leaves the whole state as it was. -/
theorem state_of_call_unwound {args : List Value} {u : Unwind}
    (h : w.call config (.native (.list r m)) args s = .unwound u t) : t = s := by
  rw [call_list] at h
  cases hresult : (m.apply r args s.world.heap).1 with
  | ok v =>
    rw [hresult] at h
    cases h
  | error f =>
    rw [hresult, ListMethod.apply_error hresult] at h
    cases h
    rfl

/-- A call of a list's method succeeds as the method does. -/
theorem call_list_succeeds {args : List Value} :
    (∃ v t, w.call config (.native (.list r m)) args s = .done v t) ↔
      ∃ v, (m.apply r args s.world.heap).1 = .ok v := by
  rw [call_list]
  cases (m.apply r args s.world.heap).1 with
  | ok v => exact iff_of_true ⟨v, _, rfl⟩ ⟨v, rfl⟩
  | error f => exact iff_of_false (by rintro ⟨v, t, ⟨⟩⟩) (by rintro ⟨v, ⟨⟩⟩)

end Walker

section Places

variable {h : Heap} {r : ListRef} {k x : Value} {n : Nat}

/-- Whether there is a place for a value that is given as an index. -/
theorem place_iff : (∃ p, (h.expectInt k >>= fun i => position i n) = .ok p) ↔
    ∃ i, k = .int i ∧ 0 ≤ i.toInt ∧ i.toInt < n := by
  rcases h.expectInt_cases k with ⟨i, rfl⟩ | ⟨hk, hexpect⟩
  · show (∃ p, position i n = .ok p) ↔ _
    unfold position
    by_cases hi : 0 ≤ i.toInt ∧ i.toInt < n
    · rw [if_pos hi]
      exact iff_of_true ⟨_, rfl⟩ ⟨i, rfl, hi⟩
    · rw [if_neg hi]
      refine iff_of_false (by rintro ⟨p, ⟨⟩⟩) ?_
      rintro ⟨j, hj, hin⟩
      cases hj
      exact hi hin
  · rw [hexpect]
    refine iff_of_false (by rintro ⟨p, ⟨⟩⟩) ?_
    rintro ⟨i, rfl, -⟩
    exact hk i rfl

/-- What is made of a result is there if the result is. -/
theorem map_ok_iff {α β : Type} {a : Except Fault α} {g : α → β} :
    (∃ b, a.map g = .ok b) ↔ ∃ c, a = .ok c := by
  cases a with
  | ok c => exact iff_of_true ⟨g c, rfl⟩ ⟨c, rfl⟩
  | error f => exact iff_of_false (by rintro ⟨b, ⟨⟩⟩) (by rintro ⟨c, ⟨⟩⟩)

/-- An item is had at an integer that lies in the list. -/
theorem ListMethod.item_ok_iff : (∃ v, (ListMethod.item.apply r [k] h).1 = .ok v) ↔
    ∃ i, k = .int i ∧ 0 ≤ i.toInt ∧ i.toInt < (h.items r).size := by
  have hresult : (ListMethod.item.apply r [k] h).1 =
      (h.expectInt k >>= fun i => position i (h.items r).size).map fun p =>
        (h.items r)[p]?.getD .null := by
    rcases h.expectInt_cases k with ⟨i, rfl⟩ | ⟨-, hexpect⟩
    · rfl
    · have hcall : ListMethod.item.call h [k] = .error _ :=
        congrArg (Except.map ListCall.item) hexpect
      rw [hexpect, apply_refused hcall]
      rfl
  rw [hresult, map_ok_iff, place_iff]

/-- It may be replaced there, by anything. -/
theorem ListMethod.assign_ok_iff : (∃ v, (ListMethod.assign.apply r [k, x] h).1 = .ok v) ↔
    ∃ i, k = .int i ∧ 0 ≤ i.toInt ∧ i.toInt < (h.items r).size := by
  have hresult : (ListMethod.assign.apply r [k, x] h).1 =
      (h.expectInt k >>= fun i => position i (h.items r).size).map fun _ => .null := by
    rcases h.expectInt_cases k with ⟨i, rfl⟩ | ⟨-, hexpect⟩
    · rfl
    · have hcall : ListMethod.assign.call h [k, x] = .error _ :=
        congrArg (Except.map (ListCall.assign · x)) hexpect
      rw [hexpect, apply_refused hcall]
      rfl
  rw [hresult, map_ok_iff, place_iff]

end Places

/-- As long as no property of a list is set, its methods are those of the list. -/
theorem Heap.property?_list {h : Heap} {r : ListRef}
    (hr : h.lists[r.index]?.bind ListCell.changed = none) (m : ListMethod) :
    h.property? (.list r) m.name = some (.function (.native (.list r m))) := by
  have hbag : h.bag? (.list r) = some r.methods := by
    show some ((h.lists[r.index]?.bind ListCell.changed).getD r.methods) = _
    rw [hr]
    rfl
  unfold property?
  rw [hbag]
  cases m <;> rfl

/-- **A list is one plain sequence, whoever calls its methods.**

1. Behind any history a list holds what the history's moves make of what it held: each call of one of
   its methods has the result, and leaves the sequence, that the same call has on a plain sequence;
   a list literal of the list empties it and pushes to it; and all else leaves it alone.  That is so
   after each move, since what leads up to a move is a history too.
2. A call has one result on a sequence, and leaves one sequence.
3. A call that fails leaves everything as it was.
4. `at` and `set` succeed just for the integers that are places of the sequence.
5. However a list was come by, its methods are those of the list, if no property of it was set.
6. Evaluating a list literal is a history: its list is emptied, which is the list that is remembered
   if there is one, and the moves of each element are followed by the push of its value. -/
theorem lists_are_plain_sequences (config : Config) (n : Nat) (r : ListRef) :
    let w := walker config n
    (∀ s moves t, r.index < s.world.heap.lists.size → State.History w config s moves t →
      Replay r moves (s.world.heap.items r).toList (t.world.heap.items r).toList ∧
        r.index < t.world.heap.lists.size) ∧
    (∀ names (m : ListMethod) args vs a b ws ws', m.Does names args vs a ws →
      m.Does names args vs b ws' → a = b ∧ ws = ws') ∧
    (∀ m args s u t, w.call config (.native (.list r m)) args s = .unwound u t → t = s) ∧
    (∀ k x s,
      ((∃ v t, w.call config (.native (.list r .item)) [k] s = .done v t) ↔
        ∃ i, k = .int i ∧ 0 ≤ i.toInt ∧ i.toInt < (s.world.heap.items r).size) ∧
      ((∃ v t, w.call config (.native (.list r .assign)) [k, x] s = .done v t) ↔
        ∃ i, k = .int i ∧ 0 ≤ i.toInt ∧ i.toInt < (s.world.heap.items r).size)) ∧
    (∀ (h : Heap) m, h.lists[r.index]?.bind ListCell.changed = none →
      h.property? (.list r) m.name = some (.function (.native (.list r m)))) ∧
    (∀ span id es own s t,
      (∀ e ∈ es, ∀ u u', (w.eval e u).state? = some u' →
        State.History w config u (own e u) u') →
      ((walker config (n + 1)).eval (.list span id es) s).state? = some t →
      ∃ q s₀, Walker.emptied id s = .done q s₀ ∧ (s.memo.lists.get? id = some r → q = r) ∧
        State.History w config s (.clear q :: w.fillMoves q own es s₀) t) := by
  intro w
  refine ⟨?_, ?_, ?_, ?_, ?_, ?_⟩
  · intro s moves t hr hhistory
    exact hhistory.replay hr
  · intro names m args vs a b ws ws' h h'
    exact h.unique h'
  · intro m args s u t h
    exact Walker.state_of_call_unwound h
  · intro k x s
    rw [Walker.call_list_succeeds, Walker.call_list_succeeds]
    exact ⟨ListMethod.item_ok_iff, ListMethod.assign_ok_iff⟩
  · intro h m hr
    exact h.property?_list hr m
  · intro span id es own s t hown h
    obtain ⟨q, s₀, hempty, hhistory⟩ := Walker.history_literal span hown h
    refine ⟨q, s₀, hempty, fun hknown => ?_, hhistory⟩
    rw [Walker.emptied_known hknown] at hempty
    cases hempty
    rfl

/-- The literal `[true]` of the node 1 refills the list that it is known to have, which held null.
Then there is no item at -1; and `pop`, had from the list, is its method. -/
theorem plain_sequence_refilled :
    let r : ListRef := ⟨0⟩
    let w := walker {} 2
    let s : State :=
      { (default : State) with
        world := { heap := { lists := #[{ items := #[.null] }] } }
        memo := { lists := Assoc.put {} 1 r } }
    let moves : List Move := [.clear r, .other, .push r (.bool true)]
    ∃ t, ((walker {} 3).eval (.list default 1 [.bool default true]) s).state? = some t ∧
      State.History w {} s moves t ∧ Replay r moves [.null] [.bool true] ∧
      (∃ u t', w.call {} (.native (.list r .item)) [.int (-1)] t = .unwound u t' ∧ t' = t) ∧
      t.world.heap.property? (.list r) "pop" = some (.function (.native (.list r .pop))) := by
  intro r w s moves
  obtain ⟨hhistory, -, hfails, -, halias, hliteral⟩ := lists_are_plain_sequences {} 2 r
  obtain ⟨t, ht, ⟨u, t', hcall⟩, hchanged⟩ : ∃ t,
      ((walker {} 3).eval (.list default 1 [.bool default true]) s).state? = some t ∧
      (∃ u t', w.call {} (.native (.list r .item)) [.int (-1)] t = .unwound u t') ∧
      t.world.heap.lists[r.index]?.bind ListCell.changed = none :=
    ⟨_, rfl, ⟨_, _, rfl⟩, rfl⟩
  -- The element leaves the lists alone.
  have hown : ∀ e ∈ [Expr.bool default true], ∀ u u', (w.eval e u).state? = some u' →
      State.History w {} u [Move.other] u' := by
    intro e he u u' h
    rw [List.mem_singleton.1 he] at h
    cases h
    exact .cons (.other (.refl _)) (.nil _)
  obtain ⟨q, s₀, -, hq, hmoves⟩ := hliteral default 1 _ (fun _ _ => [.other]) s t hown ht
  obtain rfl := hq rfl
  have hreplay := (hhistory s moves t (by decide) hmoves).1
  have hitems : (t.world.heap.items r).toList = [.bool true] := by
    cases ht
    rfl
  rw [hitems] at hreplay
  exact ⟨t, ht, hmoves, hreplay, ⟨u, t', hcall, hfails _ _ t u t' hcall⟩, halias _ .pop hchanged⟩

end SmallScript
