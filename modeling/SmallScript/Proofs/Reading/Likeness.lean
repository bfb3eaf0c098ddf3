/-
  Trees that differ in layout and numbering.

  `Expr.Like R` holds of two expressions that are built alike, wherever they stand in a text, if the
  numbers of their nodes are in the relation `R`.  It has one rule for each construct, so that an
  evaluation of the two can be followed node by node.

  Trees that are the same without places and numbers are alike, if their numbers in the order of
  the text are in the relation.
-/
import SmallScript.Proofs.Reading.Numbering
import SmallScript.Proofs.Reading.Rendering

namespace SmallScript

/-! ## Alike -/

mutual

inductive Expr.Like (R : NodeId → NodeId → Prop) : Expr → Expr → Prop where
  | int {s s' : Span} {i j : NodeId} {raw : String} :
      R i j → Expr.Like R (.int s i raw) (.int s' j raw)
  | float {s s' : Span} {i j : NodeId} {raw : String} :
      R i j → Expr.Like R (.float s i raw) (.float s' j raw)
  | string {s s' : Span} {i j : NodeId} {raw : String} :
      R i j → Expr.Like R (.string s i raw) (.string s' j raw)
  | bool {s s' : Span} {b : Bool} : Expr.Like R (.bool s b) (.bool s' b)
  | null {s s' : Span} : Expr.Like R (.null s) (.null s')
  | list {s s' : Span} {i j : NodeId} {es es' : List Expr} :
      R i j → List.Forall₂ (Expr.Like R) es es' → Expr.Like R (.list s i es) (.list s' j es')
  | object {s s' : Span} {ms ms' : List Member} :
      List.Forall₂ (Member.Like R) ms ms' → Expr.Like R (.object s ms) (.object s' ms')
  | name {s s' : Span} {x : String} : Expr.Like R (.name s x) (.name s' x)
  | property {s s' : Span} {e e' : Expr} {x x' : Ident} :
      Expr.Like R e e' → x.name = x'.name → Expr.Like R (.property s e x) (.property s' e' x')
  | call {s s' : Span} {e e' : Expr} {es es' : List Expr} :
      Expr.Like R e e' → List.Forall₂ (Expr.Like R) es es' →
      Expr.Like R (.call s e es) (.call s' e' es')
  | lambda {s s' : Span} {d d' : FnDecl} :
      FnDecl.Like R d d' → Expr.Like R (.lambda s d) (.lambda s' d')
  | binary {s s' : Span} {op : BinaryOp} {a a' b b' : Expr} :
      Expr.Like R a a' → Expr.Like R b b' → Expr.Like R (.binary s op a b) (.binary s' op a' b')
  | unary {s s' : Span} {op : UnaryOp} {e e' : Expr} :
      Expr.Like R e e' → Expr.Like R (.unary s op e) (.unary s' op e')
  | logical {s s' : Span} {op : LogicalOp} {a a' b b' : Expr} :
      Expr.Like R a a' → Expr.Like R b b' →
      Expr.Like R (.logical s op a b) (.logical s' op a' b')
  | coalesce {s s' : Span} {a a' b b' : Expr} :
      Expr.Like R a a' → Expr.Like R b b' → Expr.Like R (.coalesce s a b) (.coalesce s' a' b')

inductive Member.Like (R : NodeId → NodeId → Prop) : Member → Member → Prop where
  | mk {x x' : Ident} {e e' : Expr} :
      x.name = x'.name → Expr.Like R e e' → Member.Like R ⟨x, e⟩ ⟨x', e'⟩

inductive FnDecl.Like (R : NodeId → NodeId → Prop) : FnDecl → FnDecl → Prop where
  | mk {params : List String} {b b' : Block} :
      Block.Like R b b' → FnDecl.Like R ⟨params, b⟩ ⟨params, b'⟩

inductive Block.Like (R : NodeId → NodeId → Prop) : Block → Block → Prop where
  | mk {s s' : Span} {ts ts' : List Stmt} :
      List.Forall₂ (Stmt.Like R) ts ts' → Block.Like R ⟨ts, s⟩ ⟨ts', s'⟩

inductive Stmt.Like (R : NodeId → NodeId → Prop) : Stmt → Stmt → Prop where
  | expr {e e' : Expr} : Expr.Like R e e' → Stmt.Like R (.expr e) (.expr e')
  | assign {s s' : Span} {x x' : Ident} {e e' : Expr} :
      x.name = x'.name → Expr.Like R e e' → Stmt.Like R (.assign s x e) (.assign s' x' e')
  | assignProperty {s s' : Span} {o o' : Expr} {x x' : Ident} {e e' : Expr} :
      Expr.Like R o o' → x.name = x'.name → Expr.Like R e e' →
      Stmt.Like R (.assignProperty s o x e) (.assignProperty s' o' x' e')
  | define {s s' : Span} {i j : NodeId} {x x' : Ident} {d d' : FnDecl} :
      R i j → x.name = x'.name → FnDecl.Like R d d' →
      Stmt.Like R (.define s i x d) (.define s' j x' d')
  | cond {s s' : Span} {e e' : Expr} {t t' : Stmt} :
      Expr.Like R e e' → Stmt.Like R t t' → Stmt.Like R (.cond s e t none) (.cond s' e' t' none)
  | condElse {s s' : Span} {e e' : Expr} {t t' u u' : Stmt} :
      Expr.Like R e e' → Stmt.Like R t t' → Stmt.Like R u u' →
      Stmt.Like R (.cond s e t (some u)) (.cond s' e' t' (some u'))
  | while {s s' : Span} {e e' : Expr} {t t' : Stmt} :
      Expr.Like R e e' → Stmt.Like R t t' → Stmt.Like R (.while s e t) (.while s' e' t')
  | for {s s' : Span} {e e' : Expr} {t t' u u' v v' : Stmt} :
      Stmt.Like R t t' → Expr.Like R e e' → Stmt.Like R u u' → Stmt.Like R v v' →
      Stmt.Like R (.for s t e u v) (.for s' t' e' u' v')
  | break {s s' : Span} : Stmt.Like R (.break s) (.break s')
  | continue {s s' : Span} : Stmt.Like R (.continue s) (.continue s')
  | returnNull {s s' : Span} : Stmt.Like R (.return s none) (.return s' none)
  | return {s s' : Span} {e e' : Expr} :
      Expr.Like R e e' → Stmt.Like R (.return s (some e)) (.return s' (some e'))
  | write {s s' : Span} {e e' : Expr} : Expr.Like R e e' → Stmt.Like R (.write s e) (.write s' e')
  | block {b b' : Block} : Block.Like R b b' → Stmt.Like R (.block b) (.block b')

end

theorem FnDecl.Like.params_eq {R : NodeId → NodeId → Prop} {d d' : FnDecl}
    (h : FnDecl.Like R d d') :
    d.params = d'.params := by
  cases h with
  | mk _ => rfl

/-! ## From the plain tree and the numbers -/

/-- A statement is of the sort that its plain form is of. -/
theorem Stmt.ctorIdx_plain (t : Stmt) : t.plain.ctorIdx = t.ctorIdx := by
  cases t with
  | cond s e t no => cases no <;> rfl
  | «return» s e => cases e <;> rfl
  | _ => rfl

theorem Stmt.ctorIdx_eq {t t' : Stmt} (h : t.plain = t'.plain) : t.ctorIdx = t'.ctorIdx := by
  rw [← Stmt.ctorIdx_plain t, ← Stmt.ctorIdx_plain t', h]

section Plain

variable {R : NodeId → NodeId → Prop}

-- The recursion is on the first tree.  What stands behind the trees (`ps` and `qs`) is kept, so
-- that the numbers of each tree are taken from the front of the list, however many they are.
mutual

theorem Expr.like_of_plain : ∀ {e e' : Expr} {ps qs : List Part}, e.plain = e'.plain →
    List.Forall₂ R (numbers (.expr e :: (e.inner ++ ps))) (numbers (.expr e' :: (e'.inner ++ qs))) →
    Expr.Like R e e' ∧ List.Forall₂ R (numbers ps) (numbers qs)
  | .int s i raw, e', ps, qs, h, hn => by
    cases e' with
    | int s' j raw' =>
      injection h with _ _ hraw
      subst hraw
      obtain ⟨hij, hrest⟩ := List.forall₂_cons.1 hn
      exact ⟨.int hij, hrest⟩
    | _ => injection h
  | .float s i raw, e', ps, qs, h, hn => by
    cases e' with
    | float s' j raw' =>
      injection h with _ _ hraw
      subst hraw
      obtain ⟨hij, hrest⟩ := List.forall₂_cons.1 hn
      exact ⟨.float hij, hrest⟩
    | _ => injection h
  | .string s i raw, e', ps, qs, h, hn => by
    cases e' with
    | string s' j raw' =>
      injection h with _ _ hraw
      subst hraw
      obtain ⟨hij, hrest⟩ := List.forall₂_cons.1 hn
      exact ⟨.string hij, hrest⟩
    | _ => injection h
  | .bool s b, e', ps, qs, h, hn => by
    cases e' with
    | bool s' b' =>
      injection h with _ hb
      subst hb
      exact ⟨.bool, hn⟩
    | _ => injection h
  | .null s, e', ps, qs, h, hn => by
    cases e' with
    | null s' => exact ⟨.null, hn⟩
    | _ => injection h
  | .list s i es, e', ps, qs, h, hn => by
    cases e' with
    | list s' j es' =>
      injection h with _ _ hes
      obtain ⟨hij, hn⟩ := List.forall₂_cons.1 hn
      obtain ⟨hlike, hrest⟩ := like_of_plainItems hes hn
      exact ⟨.list hij hlike, hrest⟩
    | _ => injection h
  | .object s ms, e', ps, qs, h, hn => by
    cases e' with
    | object s' ms' =>
      injection h with _ hms
      obtain ⟨hlike, hrest⟩ := like_of_plainMembers hms hn
      exact ⟨.object hlike, hrest⟩
    | _ => injection h
  | .name s x, e', ps, qs, h, hn => by
    cases e' with
    | name s' x' =>
      injection h with _ hx
      subst hx
      exact ⟨.name, hn⟩
    | _ => injection h
  | .property s e x, e', ps, qs, h, hn => by
    cases e' with
    | property s' e' x' =>
      injection h with _ he hx
      injection hx with hx
      obtain ⟨hlike, hrest⟩ := Expr.like_of_plain he hn
      exact ⟨.property hlike hx, hrest⟩
    | _ => injection h
  | .call s e es, e', ps, qs, h, hn => by
    cases e' with
    | call s' e' es' =>
      injection h with _ he hes
      simp only [Expr.inner, List.cons_append, List.append_assoc] at hn
      obtain ⟨hcallee, hn⟩ := Expr.like_of_plain he hn
      obtain ⟨hargs, hrest⟩ := like_of_plainItems hes hn
      exact ⟨.call hcallee hargs, hrest⟩
    | _ => injection h
  | .lambda s d, e', ps, qs, h, hn => by
    cases e' with
    | lambda s' d' =>
      injection h with _ hd
      obtain ⟨hlike, hrest⟩ := FnDecl.like_of_plain hd hn
      exact ⟨.lambda hlike, hrest⟩
    | _ => injection h
  | .binary s op a b, e', ps, qs, h, hn => by
    cases e' with
    | binary s' op' a' b' =>
      injection h with _ hop ha hb
      subst hop
      simp only [Expr.inner, List.cons_append, List.append_assoc] at hn
      obtain ⟨hleft, hn⟩ := Expr.like_of_plain ha hn
      obtain ⟨hright, hrest⟩ := Expr.like_of_plain hb hn
      exact ⟨.binary hleft hright, hrest⟩
    | _ => injection h
  | .unary s op e, e', ps, qs, h, hn => by
    cases e' with
    | unary s' op' e' =>
      injection h with _ hop he
      subst hop
      obtain ⟨hlike, hrest⟩ := Expr.like_of_plain he hn
      exact ⟨.unary hlike, hrest⟩
    | _ => injection h
  | .logical s op a b, e', ps, qs, h, hn => by
    cases e' with
    | logical s' op' a' b' =>
      injection h with _ hop ha hb
      subst hop
      simp only [Expr.inner, List.cons_append, List.append_assoc] at hn
      obtain ⟨hleft, hn⟩ := Expr.like_of_plain ha hn
      obtain ⟨hright, hrest⟩ := Expr.like_of_plain hb hn
      exact ⟨.logical hleft hright, hrest⟩
    | _ => injection h
  | .coalesce s a b, e', ps, qs, h, hn => by
    cases e' with
    | coalesce s' a' b' =>
      injection h with _ ha hb
      simp only [Expr.inner, List.cons_append, List.append_assoc] at hn
      obtain ⟨hleft, hn⟩ := Expr.like_of_plain ha hn
      obtain ⟨hright, hrest⟩ := Expr.like_of_plain hb hn
      exact ⟨.coalesce hleft hright, hrest⟩
    | _ => injection h
termination_by structural x => x

theorem like_of_plainItems : ∀ {es es' : List Expr} {ps qs : List Part},
    plainItems es = plainItems es' →
    List.Forall₂ R (numbers (itemsParts es ++ ps)) (numbers (itemsParts es' ++ qs)) →
    List.Forall₂ (Expr.Like R) es es' ∧ List.Forall₂ R (numbers ps) (numbers qs)
  | [], es', ps, qs, h, hn => by
    cases es' with
    | nil => exact ⟨.nil, hn⟩
    | cons e' es' => exact nomatch h
  | e :: es, es', ps, qs, h, hn => by
    cases es' with
    | nil => exact nomatch h
    | cons e' es' =>
      injection h with he hes
      simp only [itemsParts, List.cons_append, List.append_assoc] at hn
      obtain ⟨hlike, hn⟩ := Expr.like_of_plain he hn
      obtain ⟨hlikes, hrest⟩ := like_of_plainItems hes hn
      exact ⟨.cons hlike hlikes, hrest⟩
termination_by structural x => x

theorem Member.like_of_plain : ∀ {m m' : Member} {ps qs : List Part}, m.plain = m'.plain →
    List.Forall₂ R (numbers (m.inner ++ ps)) (numbers (m'.inner ++ qs)) →
    Member.Like R m m' ∧ List.Forall₂ R (numbers ps) (numbers qs)
  | ⟨x, e⟩, ⟨x', e'⟩, ps, qs, h, hn => by
    injection h with hx he
    injection hx with hx
    obtain ⟨hlike, hrest⟩ := Expr.like_of_plain he hn
    exact ⟨.mk hx hlike, hrest⟩
termination_by structural x => x

theorem like_of_plainMembers : ∀ {ms ms' : List Member} {ps qs : List Part},
    plainMembers ms = plainMembers ms' →
    List.Forall₂ R (numbers (membersParts ms ++ ps)) (numbers (membersParts ms' ++ qs)) →
    List.Forall₂ (Member.Like R) ms ms' ∧ List.Forall₂ R (numbers ps) (numbers qs)
  | [], ms', ps, qs, h, hn => by
    cases ms' with
    | nil => exact ⟨.nil, hn⟩
    | cons m' ms' => exact nomatch h
  | m :: ms, ms', ps, qs, h, hn => by
    cases ms' with
    | nil => exact nomatch h
    | cons m' ms' =>
      injection h with hm hms
      simp only [membersParts, List.append_assoc] at hn
      obtain ⟨hlike, hn⟩ := Member.like_of_plain hm hn
      obtain ⟨hlikes, hrest⟩ := like_of_plainMembers hms hn
      exact ⟨.cons hlike hlikes, hrest⟩
termination_by structural x => x

theorem FnDecl.like_of_plain : ∀ {d d' : FnDecl} {ps qs : List Part}, d.plain = d'.plain →
    List.Forall₂ R (numbers (d.inner ++ ps)) (numbers (d'.inner ++ qs)) →
    FnDecl.Like R d d' ∧ List.Forall₂ R (numbers ps) (numbers qs)
  | ⟨params, b⟩, ⟨params', b'⟩, ps, qs, h, hn => by
    injection h with hparams hb
    subst hparams
    obtain ⟨hlike, hrest⟩ := Block.like_of_plain hb hn
    exact ⟨.mk hlike, hrest⟩
termination_by structural x => x

theorem Block.like_of_plain : ∀ {b b' : Block} {ps qs : List Part}, b.plain = b'.plain →
    List.Forall₂ R (numbers (b.inner ++ ps)) (numbers (b'.inner ++ qs)) →
    Block.Like R b b' ∧ List.Forall₂ R (numbers ps) (numbers qs)
  | ⟨ts, s⟩, ⟨ts', s'⟩, ps, qs, h, hn => by
    injection h with hts
    obtain ⟨hlikes, hrest⟩ := like_of_plainStmts hts hn
    exact ⟨.mk hlikes, hrest⟩
termination_by structural x => x

theorem like_of_plainStmts : ∀ {ts ts' : List Stmt} {ps qs : List Part},
    plainStmts ts = plainStmts ts' →
    List.Forall₂ R (numbers (stmtsParts ts ++ ps)) (numbers (stmtsParts ts' ++ qs)) →
    List.Forall₂ (Stmt.Like R) ts ts' ∧ List.Forall₂ R (numbers ps) (numbers qs)
  | [], ts', ps, qs, h, hn => by
    cases ts' with
    | nil => exact ⟨.nil, hn⟩
    | cons t' ts' => exact nomatch h
  | t :: ts, ts', ps, qs, h, hn => by
    cases ts' with
    | nil => exact nomatch h
    | cons t' ts' =>
      injection h with ht hts
      simp only [stmtsParts, List.cons_append, List.append_assoc] at hn
      obtain ⟨hlike, hn⟩ := Stmt.like_of_plain ht hn
      obtain ⟨hlikes, hrest⟩ := like_of_plainStmts hts hn
      exact ⟨.cons hlike hlikes, hrest⟩
termination_by structural x => x

theorem Stmt.like_of_plain : ∀ {t t' : Stmt} {ps qs : List Part}, t.plain = t'.plain →
    List.Forall₂ R (numbers (.stmt t :: (t.inner ++ ps))) (numbers (.stmt t' :: (t'.inner ++ qs))) →
    Stmt.Like R t t' ∧ List.Forall₂ R (numbers ps) (numbers qs)
  | .expr e, t', ps, qs, h, hn => by
    -- Where a statement has an optional part, `plain` does not compute until that is known; the
    -- sorts of the two statements are compared without it.
    have hsort := Stmt.ctorIdx_eq h
    cases t' with
    | expr e' =>
      injection h with he
      obtain ⟨hlike, hrest⟩ := Expr.like_of_plain he hn
      exact ⟨.expr hlike, hrest⟩
    | _ => cases hsort
  | .assign s x e, t', ps, qs, h, hn => by
    have hsort := Stmt.ctorIdx_eq h
    cases t' with
    | assign s' x' e' =>
      injection h with _ hx he
      injection hx with hx
      obtain ⟨hlike, hrest⟩ := Expr.like_of_plain he hn
      exact ⟨.assign hx hlike, hrest⟩
    | _ => cases hsort
  | .assignProperty s o x e, t', ps, qs, h, hn => by
    have hsort := Stmt.ctorIdx_eq h
    cases t' with
    | assignProperty s' o' x' e' =>
      injection h with _ ho hx he
      injection hx with hx
      simp only [Stmt.inner, List.cons_append, List.append_assoc] at hn
      obtain ⟨htarget, hn⟩ := Expr.like_of_plain ho hn
      obtain ⟨hvalue, hrest⟩ := Expr.like_of_plain he hn
      exact ⟨.assignProperty htarget hx hvalue, hrest⟩
    | _ => cases hsort
  | .define s i x d, t', ps, qs, h, hn => by
    have hsort := Stmt.ctorIdx_eq h
    cases t' with
    | define s' j x' d' =>
      injection h with _ _ hx hd
      injection hx with hx
      obtain ⟨hij, hn⟩ := List.forall₂_cons.1 hn
      obtain ⟨hlike, hrest⟩ := FnDecl.like_of_plain hd hn
      exact ⟨.define hij hx hlike, hrest⟩
    | _ => cases hsort
  | .cond s e t none, t', ps, qs, h, hn => by
    have hsort := Stmt.ctorIdx_eq h
    cases t' with
    | cond s' e' t' no =>
      cases no with
      | none =>
        injection h with _ he ht
        simp only [Stmt.inner, List.cons_append, List.append_assoc] at hn
        obtain ⟨htest, hn⟩ := Expr.like_of_plain he hn
        obtain ⟨hyes, hrest⟩ := Stmt.like_of_plain ht hn
        exact ⟨.cond htest hyes, hrest⟩
      | some u' =>
        injection h with _ _ _ hno
        exact nomatch hno
    | _ => cases hsort
  | .cond s e t (some u), t', ps, qs, h, hn => by
    have hsort := Stmt.ctorIdx_eq h
    cases t' with
    | cond s' e' t' no =>
      cases no with
      | none =>
        injection h with _ _ _ hno
        exact nomatch hno
      | some u' =>
        injection h with _ he ht hu
        injection hu with hu
        simp only [Stmt.inner, List.cons_append, List.append_assoc] at hn
        obtain ⟨htest, hn⟩ := Expr.like_of_plain he hn
        obtain ⟨hyes, hn⟩ := Stmt.like_of_plain ht hn
        obtain ⟨hno, hrest⟩ := Stmt.like_of_plain hu hn
        exact ⟨.condElse htest hyes hno, hrest⟩
    | _ => cases hsort
  | .while s e t, t', ps, qs, h, hn => by
    have hsort := Stmt.ctorIdx_eq h
    cases t' with
    | «while» s' e' t' =>
      injection h with _ he ht
      simp only [Stmt.inner, List.cons_append, List.append_assoc] at hn
      obtain ⟨htest, hn⟩ := Expr.like_of_plain he hn
      obtain ⟨hbody, hrest⟩ := Stmt.like_of_plain ht hn
      exact ⟨.while htest hbody, hrest⟩
    | _ => cases hsort
  | .for s t e u v, t', ps, qs, h, hn => by
    have hsort := Stmt.ctorIdx_eq h
    cases t' with
    | «for» s' t' e' u' v' =>
      injection h with _ ht he hu hv
      simp only [Stmt.inner, List.cons_append, List.append_assoc] at hn
      obtain ⟨hinit, hn⟩ := Stmt.like_of_plain ht hn
      obtain ⟨htest, hn⟩ := Expr.like_of_plain he hn
      obtain ⟨hstep, hn⟩ := Stmt.like_of_plain hu hn
      obtain ⟨hbody, hrest⟩ := Stmt.like_of_plain hv hn
      exact ⟨.for hinit htest hstep hbody, hrest⟩
    | _ => cases hsort
  | .break s, t', ps, qs, h, hn => by
    have hsort := Stmt.ctorIdx_eq h
    cases t' with
    | «break» s' => exact ⟨.break, hn⟩
    | _ => cases hsort
  | .continue s, t', ps, qs, h, hn => by
    have hsort := Stmt.ctorIdx_eq h
    cases t' with
    | «continue» s' => exact ⟨.continue, hn⟩
    | _ => cases hsort
  | .return s none, t', ps, qs, h, hn => by
    have hsort := Stmt.ctorIdx_eq h
    cases t' with
    | «return» s' e' =>
      cases e' with
      | none => exact ⟨.returnNull, hn⟩
      | some e' => exact nomatch h
    | _ => cases hsort
  | .return s (some e), t', ps, qs, h, hn => by
    have hsort := Stmt.ctorIdx_eq h
    cases t' with
    | «return» s' e' =>
      cases e' with
      | none => exact nomatch h
      | some e' =>
        injection h with _ he
        injection he with he
        obtain ⟨hlike, hrest⟩ := Expr.like_of_plain he hn
        exact ⟨.return hlike, hrest⟩
    | _ => cases hsort
  | .write s e, t', ps, qs, h, hn => by
    have hsort := Stmt.ctorIdx_eq h
    cases t' with
    | write s' e' =>
      injection h with _ he
      obtain ⟨hlike, hrest⟩ := Expr.like_of_plain he hn
      exact ⟨.write hlike, hrest⟩
    | _ => cases hsort
  | .block b, t', ps, qs, h, hn => by
    have hsort := Stmt.ctorIdx_eq h
    cases t' with
    | block b' =>
      injection h with hb
      obtain ⟨hlike, hrest⟩ := Block.like_of_plain hb hn
      exact ⟨.block hlike, hrest⟩
    | _ => cases hsort
termination_by structural x => x

end

/-- Programs that are the same without places and numbers are alike, if their numbers are in the
relation one by one. -/
theorem Program.like_of_plain {p p' : Program} (h : p.plain = p'.plain)
    (hn : List.Forall₂ R p.numbers p'.numbers) : List.Forall₂ (Stmt.Like R) p.stmts p'.stmts := by
  injection h with hstmts
  rw [← plainStmts_eq, ← plainStmts_eq] at hstmts
  have hparts : List.Forall₂ R (SmallScript.numbers (stmtsParts p.stmts ++ []))
      (SmallScript.numbers (stmtsParts p'.stmts ++ [])) := by
    rw [List.append_nil, List.append_nil]
    exact hn
  exact (like_of_plainStmts hstmts hparts).1

end Plain

theorem exists_parts (n : Nat) : ∃ ps : List Part, (numbers ps).length = n := by
  have hone : (Part.expr (.int default 0 "")).id? = some 0 := rfl
  refine ⟨List.replicate n (.expr (.int default 0 "")), ?_⟩
  unfold numbers
  rw [List.filterMap_replicate_of_some hone, List.length_replicate]

/-- Programs that are the same without places and numbers have as many numbers.  If numbers were
missing from one of them, others could be put behind it; but behind trees that are alike no number
is left over. -/
theorem Program.length_numbers_eq {p p' : Program} (h : p.plain = p'.plain) :
    p.numbers.length = p'.numbers.length := by
  have hle : ∀ {p p' : Program}, p.plain = p'.plain →
      ¬ p.numbers.length < p'.numbers.length := by
    intro p p' h hlt
    injection h with hstmts
    rw [← plainStmts_eq, ← plainStmts_eq] at hstmts
    obtain ⟨missing, hmissing⟩ := exists_parts (p'.numbers.length - p.numbers.length)
    have hlength : (SmallScript.numbers (stmtsParts p.stmts ++ missing)).length =
        (SmallScript.numbers (stmtsParts p'.stmts ++ [])).length := by
      rw [numbers_append, List.length_append, hmissing, List.append_nil]
      exact Nat.add_sub_of_le (Nat.le_of_lt hlt)
    have hall : List.Forall₂ (fun _ _ => True) (SmallScript.numbers (stmtsParts p.stmts ++ missing))
        (SmallScript.numbers (stmtsParts p'.stmts ++ [])) :=
      List.forall₂_iff_zip.2 ⟨hlength, fun _ => trivial⟩
    -- Behind the statements nothing is left on one side, so nothing was missing on the other.
    have hnone := (like_of_plainStmts hstmts hall).2.length_eq
    rw [hmissing, numbers_nil, List.length_nil] at hnone
    omega
  have := hle h
  have := hle h.symm
  omega

end SmallScript
