/-
  Two evaluations side by side.

  Two programs that are alike take the same course from states that correspond: each step of one is
  a step of the other, and behind each of them the states correspond again, up to one and the same
  link.  The crux are the tables of what is remembered of nodes.  They are kept by number, so the
  numbers that belong together must be unique on both sides; then an entry that is made in one run
  is made in the other, and no other entry is touched.

  There is one rule for each way of building a step, then one level of a walk, then all levels.
-/
import SmallScript.Proofs.Evaluation.Operations

namespace SmallScript

namespace Link

variable (L : Link)

/-! ## States that correspond -/

/-- The same is remembered of nodes that belong together. -/
structure Memos (m m' : Memo) : Prop where
  literals {i j : NodeId} : L.nodes i j →
    Option.Rel L.Values (m.literals.get? i) (m'.literals.get? j)
  lists {i j : NodeId} : L.nodes i j →
    Option.Rel (fun r r' : ListRef => L.lists.Pairs r.index r'.index) (m.lists.get? i)
      (m'.lists.get? j)
  defined {i j : NodeId} : L.nodes i j → (i ∈ m.defined ↔ j ∈ m'.defined)

/-- What there is between two programs: worlds, frames and global frames that correspond. -/
structure Matches (s s' : State) : Prop where
  world : L.Worlds s.world s'.world
  frames : L.Frames s.frames s'.frames
  globals : L.Scopes s.globals s'.globals

structure States (s s' : State) : Prop extends L.Matches s s' where
  memo : L.Memos s.memo s'.memo
  scope : L.Scopes s.scope s'.scope
  depth : s.depth = s'.depth

inductive Unwinds : Unwind → Unwind → Prop where
  | return {v v' : Value} : L.Values v v' → Unwinds (.return v) (.return v')
  | jump (j : Jump) : Unwinds (.jump j) (.jump j)
  | fault (f : Fault) : Unwinds (.fault f) (.fault f)

/-- Both evaluations end, in the same way and in states that correspond, or neither does. -/
inductive Outcomes {α β : Type} (R : α → β → Prop) : Outcome α → Outcome β → Prop where
  | done {a : α} {b : β} {s s' : State} :
      R a b → L.States s s' → Outcomes R (.done a s) (.done b s')
  | unwound {u u' : Unwind} {s s' : State} :
      L.Unwinds u u' → L.States s s' → Outcomes R (.unwound u s) (.unwound u' s')
  | exhausted : Outcomes R .exhausted .exhausted

/-- From states that correspond two steps end alike. -/
def Steps {α β : Type} (R : α → β → Prop) (x : Eval α) (y : Eval β) : Prop :=
  ∀ s s', L.States s s' → L.Outcomes R (x s) (y s')

variable {L}

/-! ## Steps -/

namespace Steps

open Eval

variable {α β γ δ : Type} {R : α → β → Prop} {S : γ → δ → Prop} {x : Eval α} {y : Eval β}

theorem pure {a : α} {b : β} (h : R a b) : L.Steps R (pure a) (pure b) :=
  fun _ _ hs => .done h hs

/-- What follows two steps that end alike may rely on their results being related. -/
theorem bind (hxy : L.Steps R x y) {f : α → Eval γ} {g : β → Eval δ}
    (hfg : ∀ a b, R a b → L.Steps S (f a) (g b)) : L.Steps S (x >>= f) (y >>= g) := by
  intro s s' hs
  have hout := hxy s s' hs
  show L.Outcomes S (Eval.bind x f s) (Eval.bind y g s')
  unfold Eval.bind
  generalize x s = o at hout
  generalize y s' = o' at hout
  cases hout with
  | done hab ht => exact hfg _ _ hab _ _ ht
  | unwound hu ht => exact .unwound hu ht
  | exhausted => exact .exhausted

/-- Both runs are left in the same way. -/
theorem unwind {u u' : Unwind} (h : L.Unwinds u u') : L.Steps R (unwind u) (unwind u') :=
  fun _ _ hs => .unwound h hs

theorem fail (f : Fault) : L.Steps R (fail f) (fail f) := unwind (.fault f)

/-- Results that are related end two steps alike, whether they are values or faults. -/
theorem ofExcept {r : Except Fault α} {r' : Except Fault β} (h : Results R r r') :
    L.Steps R (ofExcept r) (ofExcept r') := by
  cases h with
  | ok hab => exact pure hab
  | error f => exact fail f

/-- Looking at corresponding states gives what corresponds in them. -/
theorem look {f : State → α} {g : State → β} (h : ∀ s s', L.States s s' → R (f s) (g s')) :
    L.Steps R (look f) (look g) := fun s s' hs => .done (h s s' hs) hs

/-- A step on the world is one on the states: frames and tables are not touched. -/
theorem onWorld {f : World → α × World} {g : World → β × World}
    (h : ∀ w w', L.Worlds w w' → L.AndWorlds R (f w) (g w')) :
    L.Steps R (onWorld f) (onWorld g) := by
  intro s s' hs
  obtain ⟨hab, hw⟩ := h _ _ hs.world
  exact .done hab { hs with world := hw }

theorem onHeap {f : Heap → α × Heap} {g : Heap → β × Heap}
    (h : ∀ k k', L.Heaps k k' → L.AndHeaps R (f k) (g k')) : L.Steps R (onHeap f) (onHeap g) :=
  onWorld fun _ _ hw => hw.onHeap (h _ _ hw.heap)

theorem tryWorld {f : World → Except Fault α × World} {g : World → Except Fault β × World}
    (h : ∀ w w', L.Worlds w w' → L.AndWorlds (Results R) (f w) (g w')) :
    L.Steps R (tryWorld f) (tryWorld g) :=
  (onWorld h).bind fun _ _ => ofExcept

theorem tryHeap {f : Heap → Except Fault α × Heap} {g : Heap → Except Fault β × Heap}
    (h : ∀ k k', L.Heaps k k' → L.AndHeaps (Results R) (f k) (g k')) :
    L.Steps R (tryHeap f) (tryHeap g) :=
  tryWorld fun _ _ hw => hw.onHeap (h _ _ hw.heap)

/-- A product is put into both heaps, at places that correspond from then on. -/
theorem produce {f g : Heap → Except Fault Product}
    (h : ∀ k k', L.Heaps k k' → Results L.Products (f k) (g k')) :
    L.Steps L.Values (produce f) (produce g) :=
  tryWorld fun _ _ hw => hw.finish (h _ _ hw.heap)

/-- A step on the frames is one on the states, too. -/
theorem onFrames {f : SmallScript.Frames → α × SmallScript.Frames}
    {g : SmallScript.Frames → β × SmallScript.Frames}
    (h : ∀ fs fs', L.Frames fs fs' → R (f fs).1 (g fs').1 ∧ L.Frames (f fs).2 (g fs').2) :
    L.Steps R (onFrames f) (onFrames g) := by
  intro s s' hs
  obtain ⟨hab, hfs⟩ := h _ _ hs.frames
  exact .done hab { hs with frames := hfs }

/-- A name is bound in frames that correspond, to values that do. -/
theorem define {f f' : FrameRef} (hf : L.frames.Pairs f.index f'.index) (x : String) {v v' : Value}
    (hv : L.Values v v') : L.Steps Eq (define f x v) (define f' x v') :=
  onFrames fun _ _ hfs => ⟨rfl, Frames.define hfs hf x hv⟩

/-- A step on what is remembered keeps the states if it keeps the tables. -/
theorem onMemo {f g : Memo → Memo} (h : ∀ m m', L.Memos m m' → L.Memos (f m) (g m')) :
    L.Steps Eq (onMemo f) (onMemo g) :=
  fun _ _ hs => .done rfl { hs with memo := h _ _ hs.memo }

/-- Entering and leaving keep the states, whatever the step between them has come to. -/
theorem within {σ : Type} {enter enter' : State → σ × State} {leave leave' : σ → State → State}
    (hxy : L.Steps R x y)
    (henter : ∀ s s', L.States s s' → L.States (enter s).2 (enter' s').2)
    (hleave : ∀ s s' t t', L.States s s' → L.States t t' →
      L.States (leave (enter s).1 t) (leave' (enter' s').1 t')) :
    L.Steps R (within enter leave x) (within enter' leave' y) := by
  intro s s' hs
  have hout := hxy _ _ (henter s s' hs)
  change L.Outcomes R ((x (enter s).2).onState _) ((y (enter' s').2).onState _)
  generalize x (enter s).2 = o at hout
  generalize y (enter' s').2 = o' at hout
  cases hout with
  | done hab ht => exact .done hab (hleave _ _ _ _ hs ht)
  | unwound hu ht => exact .unwound hu (hleave _ _ _ _ hs ht)
  | exhausted => exact .exhausted

/-- Two steps end alike in scopes that correspond. -/
theorem inScope {c c' : Scope} (hc : L.Scopes c c') (hxy : L.Steps R x y) :
    L.Steps R (inScope c x) (inScope c' y) :=
  hxy.within (fun _ _ hs => { hs with scope := hc }) fun _ _ _ _ hs ht =>
    { ht with scope := hs.scope }

/-- A call counts one level in both runs, and takes it back in both. -/
theorem counted (hxy : L.Steps R x y) : L.Steps R (counted x) (counted y) :=
  hxy.within (fun _ _ hs => { hs with depth := congrArg (· + 1) hs.depth }) fun _ _ _ _ _ ht =>
    { ht with depth := congrArg (· - 1) ht.depth }

end Steps

/-! ## What is remembered -/

namespace Memos

variable {m m' : Memo} (hm : L.Memos m m') {i j : NodeId} (hij : L.nodes i j)

include hm hij

/-- An entry for a literal is made for both nodes; no other pair of nodes meets it. -/
theorem putLiteral {v v' : Value} (hv : L.Values v v') :
    L.Memos { m with literals := m.literals.put i v }
      { m' with literals := m'.literals.put j v' } := by
  refine { hm with literals := fun {i' j'} => ?_ }
  exact rel_put (fun _ _ => hm.literals) (fun _ _ h => Relator.rel_eq L.unique hij h) hv i' j'

/-- An entry for the list of a list literal is made for both nodes, too. -/
theorem putList {r r' : ListRef} (hr : L.lists.Pairs r.index r'.index) :
    L.Memos { m with lists := m.lists.put i r } { m' with lists := m'.lists.put j r' } := by
  refine { hm with lists := fun {i' j'} => ?_ }
  exact rel_put (fun _ _ => hm.lists) (fun _ _ h => Relator.rel_eq L.unique hij h) hr i' j'

/-- A definition is noted for both nodes. -/
theorem define :
    L.Memos { m with defined := i :: m.defined } { m' with defined := j :: m'.defined } := by
  refine { hm with defined := fun {i' j'} hij' => ?_ }
  have hsame : i' = i ↔ j' = j := Relator.rel_eq L.unique hij' hij
  rw [List.mem_cons, List.mem_cons, hm.defined hij', hsame]

end Memos

/-- Nothing is remembered before a program. -/
theorem memos_empty : L.Memos {} {} := ⟨fun _ => .none, fun _ => .none, fun _ => ⟨nofun, nofun⟩⟩

/-! ## One level of a walk -/

variable (L) in
/-- Walkers that take like trees through the same steps. -/
structure Walkers (v w : Walker) : Prop where
  eval {e e' : Expr} : Expr.Like L.nodes e e' → L.Steps L.Values (v.eval e) (w.eval e')
  exec {t t' : Stmt} : Stmt.Like L.nodes t t' → L.Steps Eq (v.exec t) (w.exec t')
  rounds : v.rounds = w.rounds

namespace Steps

/-- A literal is remembered on both sides or on neither, so both look it up or both work it out. -/
theorem literal {i j : NodeId} (hij : L.nodes i j) (meaning : Unit → Except Fault Product)
    (hplain : Answers Product.Plain (meaning ())) :
    L.Steps L.Values (Walker.literal i meaning) (Walker.literal j meaning) := by
  refine (look fun s s' hs => hs.memo.literals hij).bind fun known known' hknown => ?_
  cases hknown with
  | some hv => exact pure hv
  | none =>
    refine (produce fun _ _ _ => results_products rfl hplain).bind fun v v' hv => ?_
    exact (onMemo fun _ _ hm => hm.putLiteral hij hv).bind fun _ _ _ => pure hv

/-- The list of a list literal is found on both sides, or it is created on both. -/
theorem listOf {i j : NodeId} (hij : L.nodes i j) :
    L.Steps (fun r r' : ListRef => L.lists.Pairs r.index r'.index) (Walker.listOf i)
      (Walker.listOf j) := by
  refine (look fun s s' hs => hs.memo.lists hij).bind fun known known' hknown => ?_
  cases hknown with
  | some hr => exact pure hr
  | none =>
    refine (onHeap fun _ _ hh => hh.newList Items.empty).bind fun r r' hr => ?_
    exact (onMemo fun _ _ hm => hm.putList hij hr).bind fun _ _ _ => pure hr

/-- What is called is a function on both sides, or the same complaint is made. -/
theorem asFunction {v v' : Value} (hv : L.Values v v') :
    L.Steps L.Callables (Walker.asFunction v) (Walker.asFunction v') := by
  have hother : L.Steps L.Callables
      (Eval.look (fun s => s.world.heap.unexpected "<fn>" v) >>= Eval.fail)
      (Eval.look (fun s => s.world.heap.unexpected "<fn>" v') >>= Eval.fail) := by
    refine (look (R := Eq) fun s s' hs => hs.world.heap.unexpected_eq "<fn>" hv).bind ?_
    rintro f f' rfl
    exact fail f
  cases hv with
  | function hf => exact pure hf
  | _ => exact hother

/-- A definition is noted for the second time in both runs, or in neither. -/
theorem noteDefinition {i j : NodeId} (hij : L.nodes i j) (x : String) :
    L.Steps Eq (Walker.noteDefinition i x) (Walker.noteDefinition j x) := by
  refine (look (R := Eq) fun s s' hs => ?_).bind ?_
  · rw [Bool.eq_iff_iff, List.contains_iff_mem, List.contains_iff_mem]
    exact hs.memo.defined hij
  · rintro known known' rfl
    split
    · exact pure rfl
    · refine (look (R := Eq) fun s s' hs => ?_).bind ?_
      · have hframe : L.frames.Pairs s.scope.frame.index s'.scope.frame.index :=
          (List.forall₂_cons.1 hs.scope).1
        exact isSome_eq_of_rel (Frames.bag hs.frames hframe x)
      · rintro taken taken' rfl
        split
        · exact fail _
        · exact onMemo fun _ _ hm => hm.define hij

/-! ### Calls -/

/-- What becomes of a fault is for the rules to say, and they are the same. -/
theorem contain (config : Config) (f : Fault) :
    L.Steps L.Values (Walker.contain config f) (Walker.contain config f) := by
  unfold Walker.contain
  split
  · exact fail f
  · exact pure .null

/-- Bodies that end alike come to the same answer. -/
theorem finishCall (config : Config) {x y : Eval Unit} (hxy : L.Steps Eq x y) :
    L.Steps L.Values (Walker.finishCall config x) (Walker.finishCall config y) := by
  intro s s' hs
  have hout := hxy s s' hs
  unfold Walker.finishCall
  generalize x s = o at hout
  generalize y s' = o' at hout
  cases hout with
  | done _ ht => exact .done .null ht
  | exhausted => exact .exhausted
  | unwound hu ht =>
    cases hu with
    | «return» hv => exact .done hv ht
    | jump j => exact contain config _ _ _ ht
    | fault f => exact contain config f _ _ ht

/-- A loop goes on after its body in both runs, or it is left in both. -/
theorem goesOn {x y : Eval Unit} (hxy : L.Steps Eq x y) :
    L.Steps Eq (Walker.goesOn x) (Walker.goesOn y) := by
  intro s s' hs
  have hout := hxy s s' hs
  unfold Walker.goesOn
  generalize x s = o at hout
  generalize y s' = o' at hout
  cases hout with
  | done _ ht => exact .done rfl ht
  | exhausted => exact .exhausted
  | unwound hu ht =>
    cases hu with
    | «return» hv => exact .unwound (.return hv) ht
    | fault f => exact .unwound (.fault f) ht
    | jump j =>
      cases j with
      | «break» => exact .done rfl ht
      | «continue» => exact .done rfl ht

/-- Rounds that end alike do so any number of times. -/
theorem repeated {round round' : Eval Bool} (hround : L.Steps Eq round round') (n : Nat) :
    L.Steps Eq (Walker.repeated round n) (Walker.repeated round' n) := by
  induction n with
  | zero => exact fun _ _ _ => .exhausted
  | succ n ih =>
    rw [Walker.repeated_succ, Walker.repeated_succ]
    refine hround.bind ?_
    rintro more more' rfl
    split
    · exact ih
    · exact pure rfl

end Steps

namespace Walkers

open Steps

variable {v w : Walker} (h : L.Walkers v w)

include h

/-- Statements in a row, one beside the other. -/
theorem execAll {ts ts' : List Stmt} (hts : List.Forall₂ (Stmt.Like L.nodes) ts ts') :
    L.Steps Eq (v.execAll ts) (w.execAll ts') := by
  induction hts with
  | nil => exact pure rfl
  | cons ht _ ih => exact (h.exec ht).bind fun _ _ _ => ih

/-- So the arguments of two calls come to values that correspond. -/
theorem evalAll {es es' : List Expr} (hes : List.Forall₂ (Expr.Like L.nodes) es es') :
    L.Steps (List.Forall₂ L.Values) (v.evalAll es) (w.evalAll es') := by
  induction hes with
  | nil => exact pure .nil
  | cons he _ ih =>
    refine (h.eval he).bind fun a a' ha => ih.bind fun as as' has => ?_
    exact pure (.cons ha has)

/-- Members are added to objects that correspond. -/
theorem addAll {r r' : ObjectRef} (hr : L.objects.Pairs r.index r'.index) {ms ms' : List Member}
    (hms : List.Forall₂ (Member.Like L.nodes) ms ms') :
    L.Steps Eq (v.addAll r ms) (w.addAll r' ms') := by
  induction hms with
  | nil => exact pure rfl
  | cons hm _ ih =>
    cases hm with
    | @mk x x' e e' hx he =>
      refine (h.eval he).bind fun a a' ha => ?_
      have hadd : L.Steps Eq (Eval.tryHeap (Heap.addProperty (.object r) x.name a))
          (Eval.tryHeap (Heap.addProperty (.object r') x'.name a')) := by
        rw [hx]
        exact tryHeap fun k k' hk => hk.addProperty (.object hr) x'.name ha
      exact hadd.bind fun _ _ _ => ih

/-- Items are appended to lists that correspond. -/
theorem pushAll {r r' : ListRef} (hr : L.lists.Pairs r.index r'.index) {es es' : List Expr}
    (hes : List.Forall₂ (Expr.Like L.nodes) es es') :
    L.Steps Eq (v.pushAll r es) (w.pushAll r' es') := by
  induction hes with
  | nil => exact pure rfl
  | cons he _ ih =>
    refine (h.eval he).bind fun a a' ha => ?_
    have hpush : ∀ k k', L.Heaps k k' → L.AndHeaps Eq ((), k.modifyItems r (·.push a))
        ((), k'.modifyItems r' (·.push a')) :=
      fun k k' hk => ⟨rfl, hk.modifyItems hr fun _ _ hxs => hxs.push ha⟩
    exact (onHeap hpush).bind fun _ _ _ => ih

/-- The frames of the two calls are linked when they are opened, with the parameters bound in
them. -/
theorem callClosure (config : Config) {c c' : Closure} (hc : L.Closures c c')
    {args args' : List Value} (hargs : List.Forall₂ L.Values args args') :
    L.Steps L.Values (v.callClosure config c args) (w.callClosure config c' args') := by
  refine (look (R := Eq) fun s s' hs => hs.depth).bind ?_
  rintro depth depth' rfl
  split
  · exact contain config _
  · -- The frame of the call is the next one on both sides, so the two frames belong together.
    obtain ⟨i, name, scope, params, body⟩ := c
    obtain ⟨i', name', scope', params', body'⟩ := c'
    obtain ⟨_, _, hscope, hdecl⟩ := hc
    cases hdecl with
    | mk hbody =>
      cases hbody with
      | mk hstmts =>
        refine (onFrames (R := L.Scopes) fun fs fs' hfs => ?_).bind fun s s' hs => ?_
        · obtain ⟨hchild, hfs⟩ := Frames.openChild hfs hscope
          have hframe := (List.forall₂_cons.1 hchild).1
          exact ⟨hchild, Frames.defineAll hfs hframe (entries_zip params hargs)⟩
        · exact finishCall config (counted (inScope hs (h.execAll hstmts)))

/-- By the kind of function; those of the embedder are uniform by hypothesis. -/
theorem call {config : Config} (hhost : config.host.Uniform) {f f' : Callable}
    (hf : L.Callables f f') {args args' : List Value} (hargs : List.Forall₂ L.Values args args') :
    L.Steps L.Values (v.call config f args) (w.call config f' args') := by
  have harity : f.arity = f'.arity := congrArg List.length hf.params_eq
  unfold Walker.call
  rw [harity, hargs.length_eq]
  split
  · cases hf with
    | native hop => exact tryWorld fun _ _ hw => hw.invoke hop hargs
    | closure hc => exact h.callClosure config hc hargs
    | host f => exact tryWorld fun w w' hw => hhost L f _ _ w w' hw hargs
  · exact fail _

/-- A loop whose test, body and step are alike ends alike. -/
theorem loop {e e' : Expr} (he : Expr.Like L.nodes e e') {x y : Eval Unit} (hxy : L.Steps Eq x y)
    {t t' : Stmt} (ht : Stmt.Like L.nodes t t') :
    L.Steps Eq (Walker.repeated (v.round e x t) v.rounds)
      (Walker.repeated (w.round e' y t') w.rounds) := by
  rw [h.rounds]
  refine repeated ((h.eval he).bind fun a a' ha => ?_) _
  rw [ha.isTruthy_eq]
  split
  · refine (goesOn (h.exec ht)).bind ?_
    rintro more more' rfl
    split
    · exact hxy.bind fun _ _ _ => pure rfl
    · exact pure rfl
  · exact pure rfl

/-! ### Nodes -/

/-- Nodes of the same kind are evaluated by the same steps, so each case is its rule. -/
theorem evaluate {config : Config} (hhost : config.host.Uniform) {e e' : Expr}
    (he : Expr.Like L.nodes e e') :
    L.Steps L.Values (v.evaluate config e) (w.evaluate config e') := by
  unfold Walker.evaluate
  cases he with
  | int hij =>
    refine literal hij _ ?_
    exact answers_map (fun n => .int n) _
  | float hij =>
    refine literal hij _ ?_
    exact answers_map (fun x => .float x) _
  | string hij =>
    refine literal hij _ ?_
    exact answers_map (fun _ => trivial) _
  | bool => exact pure (.bool _)
  | null => exact pure .null
  | list hij hes =>
    refine (listOf hij).bind fun r r' hr => ?_
    have hempty : ∀ k k', L.Heaps k k' → L.AndHeaps Eq ((), k.modifyItems r fun _ => #[])
        ((), k'.modifyItems r' fun _ => #[]) :=
      fun k k' hk => ⟨rfl, hk.modifyItems hr fun _ _ _ => Items.empty⟩
    refine (onHeap hempty).bind fun _ _ _ => ?_
    exact (h.pushAll hr hes).bind fun _ _ _ => pure (.list hr)
  | object hms =>
    refine (onHeap fun k k' hk => hk.newObject bags_empty).bind fun r r' hr => ?_
    exact (h.addAll hr hms).bind fun _ _ _ => pure (.object hr)
  | name =>
    refine (look fun s s' hs => Frames.read hs.frames hs.scope _).bind fun r r' hr => ?_
    exact ofExcept hr
  | @property _ _ _ _ x x' he hx =>
    refine (h.eval he).bind fun a a' ha => ?_
    rw [hx]
    refine (look fun s s' hs => hs.world.heap.property? ha x'.name).bind fun p p' hp => ?_
    cases hp with
    | none => exact fail _
    | some hv => exact pure hv
  | call he hes =>
    refine (h.eval he).bind fun a a' ha => (asFunction ha).bind fun f f' hf => ?_
    exact (h.evalAll hes).bind fun args args' hargs => h.call hhost hf hargs
  | lambda hd =>
    refine (look fun s s' hs => hs.scope).bind fun scope scope' hscope => ?_
    exact onHeap fun k k' hk => hk.newClosure "" hscope hd
  | binary ha hb =>
    refine (h.eval ha).bind fun a a' ha => (h.eval hb).bind fun b b' hb => ?_
    exact produce fun k k' hk =>
      results_products (hk.binary_eq _ ha hb) (Operator.plain_binary _ _ _ _)
  | unary he =>
    refine (h.eval he).bind fun a a' ha => ?_
    exact produce fun k k' hk => results_products (hk.unary_eq _ ha) (Operator.plain_unary _ _ _)
  | @logical _ _ op _ _ b b' ha hb =>
    refine (h.eval ha).bind fun a a' ha => ?_
    -- Whether the left value decides is the same on both sides, for either operator.
    have choice : ∀ decided : Bool,
        L.Steps L.Values (if decided then Pure.pure a else v.eval b)
          (if decided then Pure.pure a' else w.eval b') := by
      intro decided
      split
      · exact pure ha
      · exact h.eval hb
    dsimp only
    rw [ha.isTruthy_eq]
    cases op with
    | and => exact choice _
    | or => exact choice _
  | coalesce ha hb =>
    refine (h.eval ha).bind fun a a' ha => ?_
    rw [ha.isNull_eq]
    split
    · exact h.eval hb
    · exact pure ha

theorem execBlock {b b' : Block} (hb : Block.Like L.nodes b b') :
    L.Steps Eq (v.execBlock b) (w.execBlock b') := by
  cases hb with
  | mk hts =>
    refine (look (R := L.Scopes) fun s s' hs => hs.scope).bind fun outer outer' houter => ?_
    refine (onFrames fun fs fs' hfs => Frames.openChild hfs houter).bind fun c c' hc => ?_
    exact inScope hc (h.execAll hts)

/-- The same for statements. -/
theorem execute {t t' : Stmt} (ht : Stmt.Like L.nodes t t') :
    L.Steps Eq (v.execute t) (w.execute t') := by
  unfold Walker.execute
  cases ht with
  | expr he => exact (h.eval he).bind fun _ _ _ => pure rfl
  | @assign _ _ x x' _ _ hx he =>
    dsimp only
    rw [hx]
    have howner : L.Steps (fun f f' : FrameRef => L.frames.Pairs f.index f'.index)
        (Eval.look fun s => s.frames.owner s.scope x'.name)
        (Eval.look fun s => s.frames.owner s.scope x'.name) :=
      look fun s s' hs => Frames.owner hs.frames hs.scope x'.name
    refine howner.bind fun f f' hf => ?_
    exact (h.eval he).bind fun a a' ha => define hf _ ha
  | @assignProperty _ _ _ _ x x' _ _ ho hx he =>
    refine (h.eval ho).bind fun o o' ho => (h.eval he).bind fun a a' ha => ?_
    rw [hx]
    exact tryHeap fun k k' hk => hk.setProperty ho x'.name ha
  | @define _ _ _ _ x x' _ _ hij hx hd =>
    dsimp only
    rw [hx]
    refine (noteDefinition hij x'.name).bind fun _ _ _ => ?_
    refine (look fun s s' hs => hs.scope).bind fun scope scope' hscope => ?_
    refine (onHeap fun k k' hk => hk.newClosure x'.name hscope hd).bind fun f f' hf => ?_
    exact define (List.forall₂_cons.1 hscope).1 _ hf
  | cond he hyes =>
    refine (h.eval he).bind fun a a' ha => ?_
    rw [ha.isTruthy_eq]
    split
    · exact h.exec hyes
    · exact pure rfl
  | condElse he hyes hno =>
    refine (h.eval he).bind fun a a' ha => ?_
    rw [ha.isTruthy_eq]
    split
    · exact h.exec hyes
    · exact h.exec hno
  | «while» he hbody => exact h.loop he (pure rfl) hbody
  | «for» hinit he hstep hbody =>
    exact (h.exec hinit).bind fun _ _ _ => h.loop he (h.exec hstep) hbody
  | «break» => exact unwind (.jump .break)
  | «continue» => exact unwind (.jump .continue)
  | returnNull => exact unwind (.return .null)
  | «return» he => exact (h.eval he).bind fun a a' ha => unwind (.return ha)
  | write he =>
    refine (h.eval he).bind fun a a' ha => onWorld fun world world' hw => ⟨rfl, ?_⟩
    dsimp only
    rw [hw.heap.print_eq ha]
    exact hw.print _
  | block hb => exact h.execBlock hb

end Walkers

/-! ## All levels -/

/-- By induction on the levels, each resting on those below. -/
theorem walkers {config : Config} (hhost : config.host.Uniform) (n : Nat) :
    L.Walkers (walker config n) (walker config n) := by
  induction n with
  | zero => exact ⟨fun _ _ _ _ => .exhausted, fun _ _ _ _ => .exhausted, rfl⟩
  | succ n ih => exact ⟨fun he => ih.evaluate hhost he, fun ht => ih.execute ht, rfl⟩

/-- Between two programs nothing is remembered of nodes, and no call is open. -/
theorem Matches.ready {s s' : State} (h : L.Matches s s') : L.States s.ready s'.ready :=
  { h with memo := memos_empty, scope := h.globals, depth := rfl }

end Link

end SmallScript
