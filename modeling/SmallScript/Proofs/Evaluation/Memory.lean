/-
  What is remembered of nodes.

  The tables of literals and of list literals are kept by the numbers of nodes alone, from one run
  of a program to the next.  What is in them stays (`State.Recalls`), so whoever evaluates a literal
  of a number first settles what all literals of that number yield (`nodes_remembered`).

  Nodes of one program have different numbers.  As long as only that program is executed, each
  literal yields what it means, and each list literal has a list of its own.
-/
import SmallScript.Proofs.Evaluation.Occurrence
import SmallScript.Proofs.Reading.Numbering

namespace SmallScript

/-! ## Literals -/

/-- A value that a result may give: a string that is made has the content. -/
inductive Product.Gives : Product → Value → Prop where
  | value (v : Value) : Gives (.value v) v
  | text (t : Text) : Gives (.text t.content) (.text t)

/-- The outcome, from the state `s`, that a literal has by itself: a value that its meaning gives;
or, if it means nothing, its fault, and nothing is changed. -/
inductive Outcome.Meant (s : State) : Except Fault Product → Outcome Value → Prop where
  | value {p : Product} {v : Value} {t : State} : p.Gives v → Meant s (.ok p) (.done v t)
  | fault (f : Fault) : Meant s (.error f) (.unwound (.fault f) s)

namespace Walker

open Eval

variable {id : NodeId} {m : Unit → Except Fault Product} {s t : State} {v : Value} {r : ListRef}

/-- A literal that is known yields its value. -/
theorem literal_known (h : s.memo.literals.get? id = some v) : literal id m s = .done v s := by
  unfold literal
  simp only [bind, Eval.bind, look, h]
  rfl

/-- A literal that is not known and means nothing fails, and nothing is remembered of it. -/
theorem literal_meaningless {f : Fault} (h : s.memo.literals.get? id = none)
    (hf : m () = .error f) : literal id m s = .unwound (.fault f) s := by
  unfold literal
  simp only [bind, Eval.bind, look, h]
  change Eval.bind (tryWorld fun w => w.finish (m ())) _ s = _
  rw [hf]
  rfl

/-- A literal that is not known yields what it means, and that is remembered. -/
theorem literal_unknown {p : Product} (h : s.memo.literals.get? id = none) (hp : m () = .ok p) :
    ∃ v w, p.Gives v ∧ s.world.heap.Grows w.heap ∧
      literal id m s = .done v ((s.inWorld w).remembering
        { s.memo with literals := s.memo.literals.put id v }) := by
  have hliteral : literal id m s = Eval.bind (tryWorld fun w => w.finish (.ok p)) (fun v => do
      onMemo fun memo => { memo with literals := memo.literals.put id v }
      pure v) s := by
    unfold literal produce
    simp only [bind, Eval.bind, look, h, hp]
  rw [hliteral]
  cases p with
  | value v => exact ⟨v, s.world, .value v, .refl _, rfl⟩
  | text content =>
    exact ⟨_, s.world.withHeap (s.world.heap.newText content).2, .text ⟨_, content⟩,
      .newText s.world.heap content, rfl⟩

theorem listOf_known (h : s.memo.lists.get? id = some r) : listOf id s = .done r s := by
  unfold listOf
  simp only [bind, Eval.bind, look, h]
  rfl

theorem listOf_unknown (h : s.memo.lists.get? id = none) :
    let made := s.world.heap.newList #[]
    listOf id s = .done made.1 ((s.inWorld (s.world.withHeap made.2)).remembering
      { s.memo with lists := s.memo.lists.put id made.1 }) := by
  unfold listOf
  simp only [bind, Eval.bind, look, h]
  rfl

end Walker

/-! ## What stays -/

/-- The lists of list literals are there, and different numbers have different lists. -/
structure State.ListsApart (s : State) : Prop where
  there {id : NodeId} {r : ListRef} :
    s.memo.lists.get? id = some r → r.index < s.world.heap.lists.size
  apart {id id' : NodeId} {r : ListRef} :
    s.memo.lists.get? id = some r → s.memo.lists.get? id' = some r → id = id'

/-- In `t` all is remembered that is in `s`, and of literals only what `made` tells is added. -/
structure State.Recalls (made : NodeId → Value → Prop) (s t : State) : Prop where
  heap : s.world.heap.Grows t.world.heap
  literals {id : NodeId} {v : Value} :
    s.memo.literals.get? id = some v → t.memo.literals.get? id = some v
  added {id : NodeId} {v : Value} :
    t.memo.literals.get? id = some v → s.memo.literals.get? id = some v ∨ made id v
  lists {id : NodeId} {r : ListRef} :
    s.memo.lists.get? id = some r → t.memo.lists.get? id = some r
  apart : s.ListsApart → t.ListsApart

section Recalls

variable {made : NodeId → Value → Prop} {s t : State}

/-- What leaves the two tables as they are. -/
theorem State.Recalls.of_eq (heap : s.world.heap.Grows t.world.heap)
    (literals : t.memo.literals = s.memo.literals) (lists : t.memo.lists = s.memo.lists) :
    s.Recalls made t where
  heap := heap
  literals h := literals ▸ h
  added h := Or.inl (literals ▸ h)
  lists h := lists ▸ h
  apart h :=
    { there := fun hr => Nat.lt_of_lt_of_le (h.there (lists ▸ hr)) heap.lists
      apart := fun hr hr' => h.apart (lists ▸ hr) (lists ▸ hr') }

theorem own_recalls : Own (State.Recalls made) where
  refl _ := .of_eq (.refl _) rfl rfl
  trans _ _ _ hst htu :=
    { heap := hst.heap.trans htu.heap
      literals := fun h => htu.literals (hst.literals h)
      added := fun h => (htu.added h).elim hst.added Or.inr
      lists := fun h => htu.lists (hst.lists h)
      apart := fun h => htu.apart (hst.apart h) }
  world _ _ hw := .of_eq hw rfl rfl
  frames _ _ := .of_eq (.refl _) rfl rfl
  place _ _ _ := .of_eq (.refl _) rfl rfl
  defined _ _ := .of_eq (.refl _) rfl rfl

/-- A literal that gets known. -/
theorem recalls_putLiteral {w : World} {id : NodeId} {v : Value} (hw : s.world.heap.Grows w.heap)
    (hnone : s.memo.literals.get? id = none) (hmade : made id v) :
    s.Recalls made ((s.inWorld w).remembering
      { s.memo with literals := s.memo.literals.put id v }) where
  heap := hw
  literals {j a} h := by
    show (s.memo.literals.put id v).get? j = some a
    rw [Assoc.get?_put, if_neg]
    · exact h
    · rintro rfl
      rw [hnone] at h
      cases h
  added {j a} h := by
    change (s.memo.literals.put id v).get? j = some a at h
    rw [Assoc.get?_put] at h
    split at h
    · next heq =>
      cases h
      exact Or.inr (heq ▸ hmade)
    · exact Or.inl h
  lists h := h
  apart h := ⟨fun hr => Nat.lt_of_lt_of_le (h.there hr) hw.lists, h.apart⟩

/-- A list literal that gets a list. -/
theorem recalls_putList {id : NodeId} (hnone : s.memo.lists.get? id = none) :
    let new := s.world.heap.newList #[]
    s.Recalls made ((s.inWorld (s.world.withHeap new.2)).remembering
      { s.memo with lists := s.memo.lists.put id new.1 }) := by
  intro new
  have hsize : new.2.lists.size = s.world.heap.lists.size + 1 := Array.size_push _
  have hgrows : s.world.heap.Grows new.2 := .newList s.world.heap #[]
  have hget : ∀ {j q}, (s.memo.lists.put id new.1).get? j = some q →
      (j = id ∧ q = new.1) ∨ s.memo.lists.get? j = some q := by
    intro j q hq
    rw [Assoc.get?_put] at hq
    split at hq
    · next heq => exact Or.inl ⟨heq.symm, (Option.some.inj hq).symm⟩
    · exact Or.inr hq
  refine ⟨hgrows, fun h => h, Or.inl, fun {j q} h => ?_,
    fun h => ⟨fun {j q} hq => ?_, fun {j k q} hj hk => ?_⟩⟩
  · show (s.memo.lists.put id new.1).get? j = some q
    rw [Assoc.get?_put, if_neg]
    · exact h
    · rintro rfl
      rw [hnone] at h
      cases h
  · show q.index < new.2.lists.size
    rw [hsize]
    rcases hget hq with ⟨-, rfl⟩ | hq
    · exact Nat.lt_succ_self _
    · exact Nat.lt_succ_of_lt (h.there hq)
  · -- The new list is behind all others.
    rcases hget hj with ⟨rfl, rfl⟩ | hold <;> rcases hget hk with ⟨rfl, hq⟩ | hold'
    · rfl
    · exact absurd (h.there hold') (Nat.lt_irrefl _)
    · rw [hq] at hold
      exact absurd (h.there hold) (Nat.lt_irrefl _)
    · exact h.apart hold hold'

/-- A node that is remembered keeps to the tables, if `made` tells the literals that it makes
known. -/
theorem permits_recalls {q : Task}
    (hmade : ∀ e id meaning v t, q = .part (.expr e) → e.literal? = some (id, meaning) →
      s.memo.literals.get? id = none → Walker.literal id (fun _ => meaning) s = .done v t →
      made id v) :
    Permits (State.Recalls made) q s where
  literal {e id meaning} hq he t ht := by
    cases hs : s.memo.literals.get? id with
    | some v =>
      rw [Walker.literal_known hs] at ht
      cases ht
      exact own_recalls.refl s
    | none =>
      cases meaning with
      | error f =>
        rw [Walker.literal_meaningless hs rfl] at ht
        cases ht
        exact own_recalls.refl s
      | ok p =>
        obtain ⟨v, w, -, hw, hdone⟩ :=
          Walker.literal_unknown (m := fun _ => .ok p) hs rfl
        rw [hdone] at ht
        cases ht
        exact recalls_putLiteral hw hs (hmade e id _ v _ hq he hs hdone)
  list {span id items} _ t ht := by
    cases hs : s.memo.lists.get? id with
    | some r =>
      rw [Walker.listOf_known hs] at ht
      cases ht
      exact own_recalls.refl s
    | none =>
      rw [Walker.listOf_unknown hs] at ht
      cases ht
      exact recalls_putList hs

end Recalls

namespace Walker

open Eval

variable {config : Config} {n : Nat} {s t : State} {v : Value}

/-- Whatever is evaluated, what is remembered stays. -/
theorem keeps_eval (config : Config) (n : Nat) (e : Expr) :
    ((walker config n).eval e).Keeps (State.Recalls fun _ _ => True) := by
  intro s t ht
  cases n with
  | zero => cases ht
  | succ n =>
    have hpermitted : Occurrence.Permitted config (State.Recalls fun _ _ => True)
        ⟨n, .part (.expr e), s⟩ := fun b _ => permits_recalls fun _ _ _ _ _ _ _ _ _ => trivial
    exact own_recalls.outcome hpermitted ht

theorem keeps_pushAll (config : Config) (n : Nat) (r : ListRef) (es : List Expr) :
    ((walker config n).pushAll r es).Keeps (State.Recalls fun _ _ => True) := by
  induction es with
  | nil => exact own_recalls.keeps_pure ()
  | cons e es ih =>
    refine own_recalls.keeps_bind (keeps_eval config n e) fun v => ?_
    exact own_recalls.keeps_bind (own_recalls.keeps_modifyItems r _) fun _ => ih

/-- The list of a number is remembered once it is had. -/
theorem listOf_remembered {id : NodeId} {r : ListRef} (h : listOf id s = .done r t) :
    t.memo.lists.get? id = some r := by
  cases hs : s.memo.lists.get? id with
  | some q =>
    rw [listOf_known hs] at h
    cases h
    exact hs
  | none =>
    rw [listOf_unknown hs] at h
    cases h
    exact (Assoc.get?_put _ _ _ _).trans (if_pos rfl)

/-- What a list literal yields is the list that is remembered of its number. -/
theorem list_remembered {span : Span} {id : NodeId} {es : List Expr}
    (h : (walker config n).evaluate config (.list span id es) s = .done v t) :
    ∃ r, v = .list r ∧ t.memo.lists.get? id = some r := by
  simp only [evaluate, bind_eq_done] at h
  obtain ⟨r, u, hr, _, u', hempty, _, t', hpush, hdone⟩ := h
  cases hdone
  have hemptied : u.Recalls (fun _ _ => True) u' :=
    own_recalls.keeps_modifyItems r _ u u' (congrArg Outcome.state? hempty)
  have hpushed := keeps_pushAll config n r es u' t (congrArg Outcome.state? hpush)
  exact ⟨r, rfl, hpushed.lists (hemptied.lists (listOf_remembered hr))⟩

end Walker

section Literals

variable {config : Config} {n : Nat} {e : Expr} {id : NodeId} {meaning : Except Fault Product}
  {s t : State} {v : Value} {b : Occurrence}

theorem id?_of_literal (he : e.literal? = some (id, meaning)) : Part.id? (.expr e) = some id := by
  cases e with
  | int | float | string =>
    cases he
    rfl
  | _ => cases he

/-- Nothing else is done in evaluating a literal. -/
theorem occurs_literal (he : e.literal? = some (id, meaning))
    (h : Occurs config ⟨n, .part (.expr e), s⟩ b) : b = ⟨n, .part (.expr e), s⟩ := by
  cases h with
  | here => rfl
  | inside hasks _ =>
    obtain ⟨w, -, -, hdiffer⟩ := hasks
    refine absurd ?_ hdiffer
    show w.evaluate config e s = (walker config _).evaluate config e s
    rw [Walker.evaluate_literal he, Walker.evaluate_literal he]

/-- What a literal yields is the value that is remembered of its number. -/
theorem literal_remembered (he : e.literal? = some (id, meaning))
    (h : (walker config n).evaluate config e s = .done v t) : t.memo.literals.get? id = some v := by
  rw [Walker.evaluate_literal he] at h
  cases hs : s.memo.literals.get? id with
  | some a =>
    rw [Walker.literal_known hs] at h
    cases h
    exact hs
  | none =>
    cases meaning with
    | error f =>
      rw [Walker.literal_meaningless hs rfl] at h
      cases h
    | ok p =>
      obtain ⟨a, w, -, -, hdone⟩ := Walker.literal_unknown (m := fun _ => .ok p) hs rfl
      rw [hdone] at h
      cases h
      exact (Assoc.get?_put _ _ _ _).trans (if_pos rfl)

end Literals

/-! ## The memory of a session -/

/-- The task is a literal of this number that is not known when it is evaluated, and yields `v`. -/
inductive Founds (config : Config) (id : NodeId) (v : Value) : Occurrence → Prop where
  | mk {n e s t meaning} : e.literal? = some (id, meaning) → s.memo.literals.get? id = none →
      (walker config n).evaluate config e s = .done v t → Founds config id v ⟨n, .part (.expr e), s⟩

namespace Founds

variable {config : Config} {id : NodeId} {v : Value} {a b : Occurrence}

theorem unknown (h : Founds config id v a) : a.state.memo.literals.get? id = none := by
  cases h with
  | mk _ hnone _ => exact hnone

theorem ends (h : Founds config id v a) :
    ∃ e, a.Ends config e ∧ e.memo.literals.get? id = some v := by
  cases h with
  | @mk n e s t meaning he _ hdone =>
    exact ⟨t, congrArg Outcome.state? hdone, literal_remembered he hdone⟩

theorem eq_of_occurs (h : Founds config id v a) (hab : Occurs config a b) : b = a := by
  cases h with
  | mk he _ _ => exact occurs_literal he hab

end Founds

namespace Interpreter

variable {config : Config} {us : List Use} {s t t' : State} {id : NodeId} {v : Value}
  {a b : Occurrence}

/-- The literals that get known in a session. -/
def Made (config : Config) (us : List Use) (s : State) (id : NodeId) (v : Value) : Prop :=
  ∃ a, OccursIn config (course config us s) a ∧ Founds config id v a

/-- From each moment to each later one, what is remembered stays, and what is added was
evaluated. -/
theorem Later.recalls (hs : Stretch us s) (h : Later config us s t t') :
    t.Recalls (Made config us s) t' := by
  refine h.related own_recalls hs fun b hb => ?_
  refine permits_recalls fun e id meaning v t hq he hnone hdone => ⟨b, hb, ?_⟩
  obtain ⟨n, q, s'⟩ := b
  cases hq
  exact .mk he hnone ((congrFun (Walker.evaluate_literal he _ config) s').trans hdone)

theorem outset_unknown (hs : Stretch us s) : (outset us s).memo.literals.get? id = none := by
  rw [hs.memo]
  rfl

/-- Where a value is not remembered, it was not remembered before. -/
theorem Later.unknown (hs : Stretch us s) (h : Later config us s t t')
    (hnone : t'.memo.literals.get? id = none) : t.memo.literals.get? id = none := by
  cases hv : t.memo.literals.get? id with
  | none => rfl
  | some v =>
    rw [(h.recalls hs).literals hv] at hnone
    cases hnone

/-- A value that is remembered was settled before. -/
theorem founded_before (hs : Stretch us s) (h : Later config us s (outset us s) t)
    (hv : t.memo.literals.get? id = some v) :
    ∃ a e, OccursIn config (course config us s) a ∧ Founds config id v a ∧ a.Ends config e ∧
      Later config us s e t := by
  have hknown : t.memo.literals.get? id ≠ none := by
    rw [hv]
    exact nofun
  obtain ⟨a, ha, hfounds⟩ : Made config us s id v := by
    refine ((h.recalls hs).added hv).resolve_left ?_
    rw [outset_unknown hs]
    exact nofun
  obtain ⟨e, he, -⟩ := hfounds.ends
  refine ⟨a, e, ha, hfounds, he, ?_⟩
  -- Nothing is remembered when the literal is evaluated, so the moment is not before that.
  have hafter : ¬ Later config us s t a.state :=
    fun hbefore => hknown (hbefore.unknown hs hfounds.unknown)
  rcases h.moment with rfl | ht | ⟨b, hb, hmoment⟩
  · exact absurd (outset_unknown hs) hknown
  · exact .last ha he ht
  · rcases ha.order hb with hab | hba | hab | hba
    · cases hfounds.eq_of_occurs hab
      rcases hmoment with rfl | hend
      · exact absurd hfounds.unknown hknown
      · cases he.symm.trans hend
        exact .refl _
    · rcases hmoment with rfl | hend
      · exact absurd (.into hb hba) hafter
      · exact .outOf hb hba he hend
    · rcases hmoment with rfl | hend
      · exact .next hab he
      · exact .trans (.next hab he) (.through hb hend)
    · obtain ⟨u, hu⟩ := ended_of_precedesIn hs hba
      have hnext : Later config us s u a.state := .next hba hu
      rcases hmoment with rfl | hend
      · exact absurd (.trans (.through hb hu) hnext) hafter
      · cases hu.symm.trans hend
        exact absurd hnext hafter

/-- Whoever settles the value of a number is the first to have it. -/
theorem founded_first (hs : Stretch us s) (ha : OccursIn config (course config us s) a)
    (hfounds : Founds config id v a) {u : State} (hu : a.Ends config u) {n : Nat} {e : Expr}
    {meaning : Except Fault Product} {w : Value}
    (hb : OccursIn config (course config us s) ⟨n, .part (.expr e), t⟩)
    (he : e.literal? = some (id, meaning))
    (hw : (SmallScript.walker config n).evaluate config e t = .done w t') :
    Later config us s u t' := by
  have hends : Occurrence.Ends config ⟨n, .part (.expr e), t⟩ t' := congrArg Outcome.state? hw
  have hsame : ∀ {b}, b = a → b.Ends config t' → Later config us s u t' := by
    rintro b rfl hend
    cases hend.symm.trans hu
    exact .refl _
  rcases ha.order hb with hab | hba | hab | hba
  · exact hsame (hfounds.eq_of_occurs hab) hends
  · exact hsame (occurs_literal he hba).symm hends
  · exact .trans (.next hab hu) (.through hb hends)
  · have hnone := (Later.next hba hends).unknown hs hfounds.unknown
    rw [literal_remembered he hw] at hnone
    cases hnone

/-- In a course an expression is evaluated in a state, and this is how that ends. -/
def EvaluatedIn (config : Config) (l : List Occurrence) (e : Expr) (t : State) (r : Outcome Value) :
    Prop :=
  ∃ n, OccursIn config l ⟨n, .part (.expr e), t⟩ ∧
    (SmallScript.walker config n).evaluate config e t = r

/-- What an evaluation of a literal comes to. -/
theorem EvaluatedIn.literal {l : List Occurrence} {e : Expr} {meaning : Except Fault Product}
    {r : Outcome Value} (h : EvaluatedIn config l e t r) (he : e.literal? = some (id, meaning)) :
    (∀ v, t.memo.literals.get? id = some v → r = .done v t) ∧
    (t.memo.literals.get? id = none → r.Meant t meaning) ∧
    (∀ v u, r = .done v u → u.memo.literals.get? id = some v) := by
  obtain ⟨n, -, rfl⟩ := h
  refine ⟨fun v hv => ?_, fun hnone => ?_, fun v u => literal_remembered he⟩
  · rw [Walker.evaluate_literal he, Walker.literal_known hv]
  · rw [Walker.evaluate_literal he]
    cases meaning with
    | error f =>
      rw [Walker.literal_meaningless hnone rfl]
      exact .fault f
    | ok p =>
      obtain ⟨v, w, hgives, -, hdone⟩ := Walker.literal_unknown (m := fun _ => .ok p) hnone rfl
      rw [hdone]
      exact .value hgives

/-- The value that is remembered of a number is that of the first evaluation that succeeded. -/
theorem value_settled (hs : Stretch us s) (h : Later config us s (outset us s) t)
    (hv : t.memo.literals.get? id = some v) :
    ∃ e meaning t₀ u, e.literal? = some (id, meaning) ∧ t₀.memo.literals.get? id = none ∧
      EvaluatedIn config (course config us s) e t₀ (.done v u) ∧ Later config us s u t ∧
      ∀ e' meaning' t' v' u', e'.literal? = some (id, meaning') →
        EvaluatedIn config (course config us s) e' t' (.done v' u') →
        Later config us s u u' ∧ v' = v := by
  obtain ⟨a, u, ha, hfounds, hu, hlater⟩ := founded_before hs h hv
  have hsettled := hfounds
  cases hsettled with
  | @mk n e t₀ u' meaning he hnone hdone =>
    cases (congrArg Outcome.state? hdone).symm.trans hu
    refine ⟨e, meaning, t₀, u, he, hnone, ⟨n, ha, hdone⟩, hlater, ?_⟩
    rintro e' meaning' t' v' u' he' ⟨n', hb, hdone'⟩
    have hu' := founded_first hs ha hfounds hu hb he' hdone'
    have hkept := (hu'.recalls hs).literals (literal_remembered he hdone)
    exact ⟨hu', Option.some.inj ((literal_remembered he' hdone').symm.trans hkept)⟩

/-- List literals yield the same list if they have the same number, and else different lists. -/
theorem lists_told (hs : Stretch us s) {span span' : Span} {id id' : NodeId}
    {items items' : List Expr} {v v' : Value} {u u' : State}
    (h : EvaluatedIn config (course config us s) (.list span id items) t (.done v u))
    (h' : EvaluatedIn config (course config us s) (.list span' id' items') t' (.done v' u')) :
    (∃ r, v = .list r) ∧ (v = v' ↔ id = id') := by
  obtain ⟨n, hb, hv⟩ := h
  obtain ⟨n', hb', hv'⟩ := h'
  have hu := congrArg Outcome.state? hv
  have hu' := congrArg Outcome.state? hv'
  obtain ⟨r, rfl, hr⟩ := Walker.list_remembered hv
  obtain ⟨r', rfl, hr'⟩ := Walker.list_remembered hv'
  -- Both lists are remembered at the later of the two ends.
  obtain ⟨o, ho, hor, hor'⟩ : ∃ o, Later config us s (outset us s) o ∧
      o.memo.lists.get? id = some r ∧ o.memo.lists.get? id' = some r' := by
    rcases ends_later hb hb' hu hu' with h | h
    · exact ⟨u', .trans (.first hb') (.through hb' hu'), (h.recalls hs).lists hr, hr'⟩
    · exact ⟨u, .trans (.first hb) (.through hb hu), hr, (h.recalls hs).lists hr'⟩
  have hapart : o.ListsApart := by
    refine (ho.recalls hs).apart ?_
    constructor <;> rw [hs.memo] <;> exact nofun
  refine ⟨⟨r, rfl⟩, fun heq => ?_, fun heq => ?_⟩
  · cases heq
    exact hapart.apart hor hor'
  · cases heq
    exact congrArg Value.list (Option.some.inj (hor.symm.trans hor'))

/-- Where one program is executed, each literal yields what it means. -/
theorem literal_of_program (hs : Stretch us s) {doc : Document} {tokens : List Token}
    (hp : ∀ n x t, OccursIn config (course config us s) ⟨n, .part x, t⟩ →
      x ∈ (Parse.ofTokens doc tokens).program.parts)
    {e : Expr} {meaning : Except Fault Product} {r : Outcome Value}
    (he : e.literal? = some (id, meaning)) (h : EvaluatedIn config (course config us s) e t r) :
    r.Meant t meaning := by
  obtain ⟨hknown, hunknown, -⟩ := h.literal he
  cases hv : t.memo.literals.get? id with
  | none => exact hunknown hv
  | some v =>
    obtain ⟨n, hb, -⟩ := h
    obtain ⟨e₀, meaning₀, t₀, u₀, he₀, hnone, h₀, -⟩ := value_settled hs (.first hb) hv
    -- The number tells the literal that settled the value, so it is this one.
    have ⟨n₀, hb₀, _⟩ := h₀
    have hsame := eq_of_number (hp n₀ _ _ hb₀) (hp n _ _ hb) (id?_of_literal he₀)
      (id?_of_literal he)
    cases hsame
    cases he.symm.trans he₀
    rw [hknown v hv]
    cases (h₀.literal he).2.1 hnone with
    | value hgives => exact .value hgives

/-- **What is remembered of nodes.**  From a run of a program to the next one:
what is remembered stays;
the value that is remembered of a number is that of the first evaluation of a literal of the number
that succeeded, and all others that succeed have it too;
a literal whose number is known yields what is known, any other yields what it means, or fails with
the fault that it means and leaves everything as it was;
list literals yield the same list if they have the same number, and else different lists.
If only one program that was read is executed, then each literal yields what it means, and two list
literals never yield the same list.
Nodes are numbered without end here, so all this is about programs with fewer than 2^32 nodes that
have a number. -/
theorem nodes_remembered (hs : Stretch us s) :
    let l := course config us s
    (∀ t t' id, Later config us s t t' →
      (∀ v, t.memo.literals.get? id = some v → t'.memo.literals.get? id = some v) ∧
      (∀ r, t.memo.lists.get? id = some r → t'.memo.lists.get? id = some r)) ∧
    (∀ t id v, Later config us s (outset us s) t → t.memo.literals.get? id = some v →
      ∃ e meaning t₀ u, e.literal? = some (id, meaning) ∧ t₀.memo.literals.get? id = none ∧
        EvaluatedIn config l e t₀ (.done v u) ∧ Later config us s u t ∧
        ∀ e' meaning' t' v' u', e'.literal? = some (id, meaning') →
          EvaluatedIn config l e' t' (.done v' u') → Later config us s u u' ∧ v' = v) ∧
    (∀ e id meaning t r, e.literal? = some (id, meaning) → EvaluatedIn config l e t r →
      (∀ v, t.memo.literals.get? id = some v → r = .done v t) ∧
      (t.memo.literals.get? id = none → r.Meant t meaning) ∧
      (∀ v u, r = .done v u → u.memo.literals.get? id = some v)) ∧
    (∀ span id items t v u span' id' items' t' v' u',
      EvaluatedIn config l (.list span id items) t (.done v u) →
      EvaluatedIn config l (.list span' id' items') t' (.done v' u') →
      (∃ r, v = .list r) ∧ (v = v' ↔ id = id')) ∧
    (∀ doc tokens, let p := (Parse.ofTokens doc tokens).program
      (∀ n x t, OccursIn config l ⟨n, .part x, t⟩ → x ∈ p.parts) →
      (∀ e id meaning t r, e.literal? = some (id, meaning) → EvaluatedIn config l e t r →
        r.Meant t meaning) ∧
      (∀ span id items t v u span' id' items' t' v' u',
        [.expr (.list span id items), .expr (.list span' id' items')].Sublist p.parts →
        EvaluatedIn config l (.list span id items) t (.done v u) →
        EvaluatedIn config l (.list span' id' items') t' (.done v' u') → v ≠ v')) := by
  refine ⟨fun t t' id h => ⟨fun v => (h.recalls hs).literals, fun r => (h.recalls hs).lists⟩,
    fun t id v h hv => value_settled hs h hv, fun e id meaning t r he h => h.literal he,
    fun span id items t v u span' id' items' t' v' u' h h' => lists_told hs h h', ?_⟩
  intro doc tokens p hp
  refine ⟨fun e id meaning t r he h => literal_of_program hs hp he h, ?_⟩
  intro span id items t v u span' id' items' t' v' u' hsub h h' heq
  have hlt : id < id' := number_lt hsub rfl rfl
  have hsame : id = id' := (lists_told hs h h').2.1 heq
  exact Nat.lt_irrefl _ (hsame ▸ hlt)

section Session

variable {e e' : Expr} {n : Nat} {r : Outcome Value}

/-- In a session the first expression is evaluated in the state in which the session begins. -/
theorem evaluatedIn_first (hn : levels = n + 1) :
    EvaluatedIn config (course config (.eval e :: us) s) e s
      ((SmallScript.walker config n).evaluate config e s) := by
  refine ⟨n, ⟨_, ?_, .here _⟩, rfl⟩
  unfold course
  rw [hn]
  cases (Use.eval e).state? config s with
  | none => exact List.mem_singleton.2 rfl
  | some t => exact List.mem_append_left _ (List.mem_singleton.2 rfl)

/-- The others are evaluated behind it. -/
theorem EvaluatedIn.behind (hn : levels = n + 1)
    (h : (SmallScript.walker config n).evaluate config e s = .done v t)
    (hev : EvaluatedIn config (course config us t) e' t' r) :
    EvaluatedIn config (course config (.eval e :: us) s) e' t' r := by
  have hstate : (Use.eval e).state? config s = some t := by
    show (Interpreter.eval config e s).state? = some t
    unfold Interpreter.eval Interpreter.walker
    rw [hn]
    exact congrArg Outcome.state? h
  obtain ⟨k, ⟨a, ha, hocc⟩, hr⟩ := hev
  refine ⟨k, ⟨a, ?_, hocc⟩, hr⟩
  unfold course
  rw [hstate]
  exact List.mem_append_right _ ha

/-- A list literal without items yields a list. -/
theorem evaluate_empty (config : Config) (n : Nat) (span : Span) (id : NodeId) (s : State) :
    ∃ r t, (SmallScript.walker config n).evaluate config (.list span id []) s = .done (.list r) t := by
  have hlist : ∃ r t, Walker.listOf id s = .done r t := by
    cases hs : s.memo.lists.get? id with
    | some r => exact ⟨r, s, Walker.listOf_known hs⟩
    | none => exact ⟨_, _, Walker.listOf_unknown hs⟩
  obtain ⟨r, t, hr⟩ := hlist
  refine ⟨r, t.inWorld (t.world.withHeap (t.world.heap.modifyItems r fun _ => #[])), ?_⟩
  unfold Walker.evaluate
  simp only [bind, Eval.bind, hr]
  rfl

end Session

/-- The number is evaluated twice, and so is the first of two lists.  The number keeps its value, the
first list stays the same, and the second one is another. -/
theorem remembered_in_session :
    let e : Expr := .int default 0 "7"
    let l : Expr := .list default 1 []
    let l' : Expr := .list default 2 []
    let us : List Use := [.eval e, .eval e, .eval l, .eval l', .eval l]
    let s := State.start [] {} {}
    ∃ t t₁ t₂ t₃ r r',
      EvaluatedIn {} (course {} us s) e s (.done (.int 7) t) ∧
      EvaluatedIn {} (course {} us s) e t (.done (.int 7) t) ∧
      EvaluatedIn {} (course {} us s) l t (.done (.list r) t₁) ∧
      EvaluatedIn {} (course {} us s) l' t₁ (.done (.list r') t₂) ∧
      EvaluatedIn {} (course {} us s) l t₂ (.done (.list r) t₃) ∧ r ≠ r' := by
  intro e l l' us s
  obtain ⟨n, hn⟩ : ∃ n, levels = n + 1 := ⟨levels - 1, rfl⟩
  have hs : Stretch us s := by
    refine ⟨Or.inl rfl, fun u hu => ?_⟩
    simp only [us, List.tail_cons, List.mem_cons, List.not_mem_nil, or_false] at hu
    rcases hu with rfl | rfl | rfl | rfl <;> rfl
  obtain ⟨-, -, hliteral, hlists, -⟩ := @nodes_remembered {} us s hs
  -- The number means its value the first time, and is known the second time.
  have hfirst : EvaluatedIn {} (course {} us s) e s _ := evaluatedIn_first hn
  obtain ⟨t, h⟩ : ∃ t, (SmallScript.walker {} n).evaluate {} e s = .done (.int 7) t := by
    have hmeant := (hliteral e 0 (.ok (.value (.int 7))) s _ rfl hfirst).2.1 rfl
    cases hmeant with
    | value hgives =>
      cases hgives
      exact ⟨_, rfl⟩
  rw [h] at hfirst
  have hsecond : EvaluatedIn {} (course {} us s) e t _ := (evaluatedIn_first hn).behind hn h
  have hknown : t.memo.literals.get? 0 = some (.int 7) :=
    (hliteral e 0 (.ok (.value (.int 7))) s _ rfl hfirst).2.2 _ _ rfl
  have h' := (hliteral e 0 (.ok (.value (.int 7))) t _ rfl hsecond).1 _ hknown
  rw [h'] at hsecond
  -- The lists are told apart by their numbers.
  obtain ⟨r, t₁, h₁⟩ := evaluate_empty {} n default 1 t
  obtain ⟨r', t₂, h₂⟩ := evaluate_empty {} n default 2 t₁
  obtain ⟨q, t₃, h₃⟩ := evaluate_empty {} n default 1 t₂
  have hlist : EvaluatedIn {} (course {} us s) l t (.done (.list r) t₁) :=
    h₁ ▸ ((evaluatedIn_first hn).behind hn h').behind hn h
  have hother : EvaluatedIn {} (course {} us s) l' t₁ (.done (.list r') t₂) :=
    h₂ ▸ (((evaluatedIn_first hn).behind hn h₁).behind hn h').behind hn h
  have hagain : EvaluatedIn {} (course {} us s) l t₂ (.done (.list q) t₃) :=
    h₃ ▸ ((((evaluatedIn_first hn).behind hn h₂).behind hn h₁).behind hn h').behind hn h
  have hsame : Value.list r = .list q := (hlists _ _ _ _ _ _ _ _ _ _ _ _ hlist hagain).2.2 rfl
  have hdiffer : Value.list r ≠ .list r' := fun heq =>
    absurd ((hlists _ _ _ _ _ _ _ _ _ _ _ _ hlist hother).2.1 heq) (by decide)
  cases hsame
  exact ⟨t, t₁, t₂, t₃, r, r', hfirst, hsecond, hlist, hother, hagain,
    fun heq => hdiffer (congrArg Value.list heq)⟩

end Interpreter

end SmallScript
