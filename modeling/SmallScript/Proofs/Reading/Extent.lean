/-
  How the spans of a tree lie over the tokens it is read from.

  An `Extent` is what is left of a tree when only spans are looked at: a node is its span with the
  nodes and names in it, in the order of the text.  It is `Nested` if every node begins no later
  than it ends and holds what is in it, one part behind the other.

  That is a matter of order alone.  `Laid xs ts` says that the extents `xs` are nested, lie one
  behind the other and do not leave the tokens `ts`, provided that these are in order themselves.
  What is laid over some tokens is laid over more of them, what lies over tokens behind lies behind,
  and a node may be put around extents whose ends it reaches.
-/
import SmallScript.Proofs.Scanning.Lines
import SmallScript.Token
import SmallScript.Tree

namespace SmallScript

/-! ## Spans -/

namespace Place

variable {p q r : Place}

theorem lt_of_le_of_lt (h : p ≤ q) (h' : q < r) : p < r := by
  rw [le_def] at h
  rw [lt_def] at *
  omega

theorem le_of_lt (h : p < q) : p ≤ q := by
  rw [lt_def] at h
  rw [le_def]
  omega

/-- Of two places one is no later than the other. -/
theorem le_total (p q : Place) : p ≤ q ∨ q ≤ p := by
  rw [le_def, le_def]
  omega

/-- The earlier of two places is no later than either. -/
theorem earlier_le_left (p q : Place) : p.earlier q ≤ p := by
  unfold earlier
  split
  · exact le_refl p
  · next h => exact (le_total p q).resolve_left h

theorem earlier_le_right (p q : Place) : p.earlier q ≤ q := by
  unfold earlier
  split
  · next h => exact h
  · exact le_refl q

/-- The later of two places is no earlier than either. -/
theorem left_le_later (p q : Place) : p ≤ p.later q := by
  unfold later
  split
  · next h => exact h
  · exact le_refl p

theorem right_le_later (p q : Place) : q ≤ p.later q := by
  unfold later
  split
  · exact le_refl q
  · next h => exact (le_total p q).resolve_left h

end Place

namespace Span

variable {s t u : Span}

/-- The span begins no later than it ends. -/
def Proper (s : Span) : Prop := s.first ≤ s.last

/-- One span ends before another begins. -/
def Before (s t : Span) : Prop := s.last < t.first

/-- One span holds another. -/
structure Inside (s t : Span) : Prop where
  first : t.first ≤ s.first
  last : s.last ≤ t.last

theorem inside_refl (s : Span) : s.Inside s := ⟨Place.le_refl _, Place.le_refl _⟩

/-- What is inside a span is inside every span around it. -/
theorem Inside.trans (h : s.Inside t) (h' : t.Inside u) : s.Inside u :=
  ⟨Place.le_trans h'.first h.first, Place.le_trans h.last h'.last⟩

/-- Two merged spans reach over the first of them. -/
theorem inside_cover_left (s t : Span) : s.Inside (s.cover t) :=
  ⟨Place.earlier_le_left _ _, Place.left_le_later _ _⟩

/-- They reach over the second as well. -/
theorem inside_cover_right (s t : Span) : t.Inside (s.cover t) :=
  ⟨Place.earlier_le_right _ _, Place.right_le_later _ _⟩

/-- Two merged spans begin no later than they end. -/
theorem Proper.cover (h : s.Proper) (t : Span) : (s.cover t).Proper :=
  Place.le_trans (Place.earlier_le_left _ _) (Place.le_trans h (Place.left_le_later _ _))

/-- A span before another ends no later. -/
theorem Before.le (h : s.Before t) (ht : t.Proper) : s.last ≤ t.last :=
  Place.le_trans (Place.le_of_lt h) ht

/-- What is inside a span lies before what the span lies before. -/
theorem Inside.before (hu : u.Inside s) (h : s.Before t) : u.Before t :=
  Place.lt_of_le_of_lt hu.last h

end Span

/-! ## Extents of trees -/

/-- The span of a node, and the extents of what is in the node. -/
inductive Extent where
  | node (span : Span) (inner : List Extent)

namespace Extent

def span : Extent → Span
  | node s _ => s

/-- Every node begins no later than it ends and holds what is in it, one part behind the other. -/
inductive Nested : Extent → Prop where
  | node {s : Span} {inner : List Extent} : s.Proper → (∀ x ∈ inner, x.span.Inside s) →
      inner.Pairwise (fun x y => x.span.Before y.span) → (∀ x ∈ inner, x.Nested) →
      Nested (.node s inner)

/-- A nested node begins no later than it ends. -/
theorem Nested.proper {x : Extent} (h : x.Nested) : x.span.Proper := by
  cases h with
  | node hs _ _ _ => exact hs

end Extent

/-- A name has nothing in it. -/
def Ident.extent (x : Ident) : Extent := .node x.span []

mutual

/-- The spans in an expression: its own, and those of the expressions, names and function bodies in
it. -/
def Expr.extent : Expr → Extent
  | .int s _ _ | .float s _ _ | .string s _ _ | .bool s _ | .null s | .name s _ => .node s []
  | .list s _ items => .node s (itemsExtents items)
  | .object s members => .node s (membersExtents members)
  | .property s target x => .node s [target.extent, x.extent]
  | .call s callee args => .node s (callee.extent :: itemsExtents args)
  | .lambda s decl => .node s [decl.extent]
  | .binary s _ left right => .node s [left.extent, right.extent]
  | .unary s _ operand => .node s [operand.extent]
  | .logical s _ left right => .node s [left.extent, right.extent]
  | .coalesce s left right => .node s [left.extent, right.extent]

def itemsExtents : List Expr → List Extent
  | [] => []
  | e :: es => e.extent :: itemsExtents es

/-- A member has no span of its own. -/
def Member.extents : Member → List Extent
  | ⟨x, value⟩ => [x.extent, value.extent]

def membersExtents : List Member → List Extent
  | [] => []
  | m :: ms => m.extents ++ membersExtents ms

/-- Parameters have no spans: a function is its body. -/
def FnDecl.extent : FnDecl → Extent
  | ⟨_, body⟩ => body.extent

def Block.extent : Block → Extent
  | ⟨stmts, s⟩ => .node s (stmtsExtents stmts)

def stmtsExtents : List Stmt → List Extent
  | [] => []
  | t :: ts => t.extent :: stmtsExtents ts

/-- The spans in a statement: its own, and those of the statements, expressions, names and function
bodies in it. -/
def Stmt.extent : Stmt → Extent
  | .expr e => .node e.span [e.extent]
  | .assign s x value => .node s [x.extent, value.extent]
  | .assignProperty s target x value => .node s [target.extent, x.extent, value.extent]
  | .define s _ x decl => .node s [x.extent, decl.extent]
  | .cond s test yes none => .node s [test.extent, yes.extent]
  | .cond s test yes (some no) => .node s [test.extent, yes.extent, no.extent]
  | .while s test body => .node s [test.extent, body.extent]
  | .for s init test step body =>
    .node s [init.extent, test.extent, step.extent, body.extent]
  | .break s | .continue s | .return s none => .node s []
  | .return s (some value) => .node s [value.extent]
  | .write s value => .node s [value.extent]
  | .block b => b.extent

end

/-- The spans in a program. -/
def Program.extent (p : Program) : Extent := .node p.span (stmtsExtents p.stmts)

/-- The extents of items come in their order. -/
theorem itemsExtents_eq_flatMap (es : List Expr) :
    itemsExtents es = es.flatMap fun e => [e.extent] := by
  induction es with
  | nil => rfl
  | cons e es ih =>
    rw [itemsExtents, ih, List.flatMap_cons]
    rfl

theorem membersExtents_eq_flatMap (ms : List Member) :
    membersExtents ms = ms.flatMap Member.extents := by
  induction ms with
  | nil => rfl
  | cons m ms ih => rw [membersExtents, ih, List.flatMap_cons]

theorem stmtsExtents_eq_map (ts : List Stmt) : stmtsExtents ts = ts.map Stmt.extent := by
  induction ts with
  | nil => rfl
  | cons t ts ih => rw [stmtsExtents, ih, List.map_cons]

/-- The extent of an expression has its span. -/
@[simp] theorem Expr.span_extent (e : Expr) : e.extent.span = e.span := by cases e <;> rfl

/-- Another span changes nothing inside. -/
theorem Expr.extent_withSpan (s : Span) (e : Expr) :
    ∃ inner, e.extent = .node e.span inner ∧ (e.withSpan s).extent = .node s inner := by
  cases e <;> exact ⟨_, rfl, rfl⟩

/-! ## Over tokens -/

/-- Every token begins no later than it ends, and ends before the next one begins. -/
structure InOrder (ts : List Token) : Prop where
  proper : ∀ t ∈ ts, t.span.Proper
  apart : ts.Pairwise fun t u => t.span.Before u.span

section Tokens

variable {s : Span} {t u : Token} {ts us vs : List Token} {x y : Extent} {xs ys : List Extent}

/-- Some of the tokens are in order if all are. -/
theorem InOrder.sublist (h : InOrder us) (hts : ts.Sublist us) : InOrder ts :=
  ⟨fun t ht => h.proper t (hts.subset ht), h.apart.sublist hts⟩

/-- The first token begins before all others. -/
theorem InOrder.first_le (h : InOrder (t :: ts)) (hu : u ∈ t :: ts) :
    t.span.first ≤ u.span.first := by
  rcases List.mem_cons.1 hu with rfl | hu
  · exact Place.le_refl _
  · exact Place.le_trans (h.proper t List.mem_cons_self)
      (Place.le_of_lt (List.rel_of_pairwise_cons h.apart hu))

/-- The last token ends behind all others. -/
theorem InOrder.le_last (h : InOrder ts) (hu : u ∈ ts) (ht : t ∈ ts.getLast?) :
    u.span.last ≤ t.span.last := by
  obtain ⟨us, rfl⟩ := List.getLast?_eq_some_iff.1 ht
  rcases List.mem_append.1 hu with hu | hu
  · have hbefore : u.span.Before t.span :=
      (List.pairwise_append.1 h.apart).2.2 u hu t List.mem_cons_self
    exact hbefore.le (h.proper t (List.mem_append_right _ List.mem_cons_self))
  · rw [List.mem_singleton.1 hu]
    exact Place.le_refl _

/-- The span leaves the tokens neither in front nor behind. -/
structure Span.Over (s : Span) (ts : List Token) : Prop where
  first : ∃ t ∈ ts, t.span.first ≤ s.first
  last : ∃ t ∈ ts, s.last ≤ t.span.last

/-- What lies over tokens lies over more of them. -/
theorem Span.Over.mono (h : s.Over ts) (hts : ts ⊆ us) : s.Over us := by
  obtain ⟨⟨t, ht, hfirst⟩, u, hu, hlast⟩ := h
  exact ⟨⟨t, hts ht, hfirst⟩, u, hts hu, hlast⟩

/-- What is inside a span lies over the tokens that the span lies over. -/
theorem Span.Over.inside {s' : Span} (h : s.Over ts) (hs : s'.Inside s) : s'.Over ts := by
  obtain ⟨⟨t, ht, hfirst⟩, u, hu, hlast⟩ := h
  exact ⟨⟨t, ht, Place.le_trans hfirst hs.first⟩, u, hu, Place.le_trans hs.last hlast⟩

/-- Two spans over some tokens are merged over them. -/
theorem Span.Over.cover {s' : Span} (h : s.Over ts) (h' : s'.Over ts) : (s.cover s').Over ts := by
  constructor
  · unfold Span.cover Place.earlier
    dsimp only
    split
    · exact h.first
    · exact h'.first
  · unfold Span.cover Place.later
    dsimp only
    split
    · exact h'.last
    · exact h.last

theorem Span.over_token (ht : t ∈ ts) : t.span.Over ts :=
  ⟨⟨t, ht, Place.le_refl _⟩, t, ht, Place.le_refl _⟩

/-- Tokens in order keep apart what lies over them. -/
theorem Span.Over.before {s' : Span} (hs : s.Over ts) (hs' : s'.Over us)
    (h : InOrder (ts ++ us)) : s.Before s' := by
  obtain ⟨-, t, ht, hlast⟩ := hs
  obtain ⟨⟨u, hu, hfirst⟩, -⟩ := hs'
  have hapart : t.span.Before u.span := (List.pairwise_append.1 h.apart).2.2 t ht u hu
  exact Place.lt_of_lt_of_le (Place.lt_of_le_of_lt hlast hapart) hfirst

/-- If the tokens are in order, the extents over them are nested and lie one behind the other. -/
def Laid (xs : List Extent) (ts : List Token) : Prop :=
  InOrder ts → (∀ x ∈ xs, x.Nested ∧ x.span.Over ts) ∧
    xs.Pairwise fun x y => x.span.Before y.span

/-- No extents are laid over anything. -/
theorem laid_nil (ts : List Token) : Laid [] ts :=
  fun _ => ⟨fun _ hx => absurd hx List.not_mem_nil, .nil⟩

/-- Extents over tokens behind lie behind. -/
theorem Laid.append (h : Laid xs ts) (h' : Laid ys us) : Laid (xs ++ ys) (ts ++ us) := by
  intro horder
  obtain ⟨hxs, hxsApart⟩ := h (horder.sublist (List.sublist_append_left ts us))
  obtain ⟨hys, hysApart⟩ := h' (horder.sublist (List.sublist_append_right ts us))
  refine ⟨fun x hx => ?_, List.pairwise_append.2 ⟨hxsApart, hysApart, fun x hx y hy => ?_⟩⟩
  · rcases List.mem_append.1 hx with hx | hx
    · exact ⟨(hxs x hx).1, (hxs x hx).2.mono (List.subset_append_left ts us)⟩
    · exact ⟨(hys x hx).1, (hys x hx).2.mono (List.subset_append_right ts us)⟩
  · exact (hxs x hx).2.before (hys y hy).2 horder

/-- Tokens may be passed behind the last extent. -/
theorem Laid.append_right (h : Laid xs ts) (us : List Token) : Laid xs (ts ++ us) := by
  have hboth := h.append (laid_nil us)
  rwa [List.append_nil] at hboth

/-- Tokens may be passed before the first extent. -/
theorem Laid.append_left (h : Laid xs us) (ts : List Token) : Laid xs (ts ++ us) :=
  (laid_nil ts).append h

/-- A node without parts is laid over its token. -/
theorem laid_token (t : Token) : Laid [.node t.span []] [t] := by
  refine fun horder => ⟨fun x hx => ?_, List.pairwise_singleton _ _⟩
  rw [List.mem_singleton.1 hx]
  have hproper := horder.proper t List.mem_cons_self
  exact ⟨.node hproper (fun _ hy => absurd hy List.not_mem_nil) .nil
    (fun _ hy => absurd hy List.not_mem_nil), Span.over_token List.mem_cons_self⟩

/-- A node may stand around extents that it holds. -/
theorem Laid.node (h : Laid xs ts)
    (hs : InOrder ts → s.Proper ∧ s.Over ts ∧ ∀ x ∈ xs, x.span.Inside s) :
    Laid [.node s xs] ts := by
  refine fun horder => ⟨fun x hx => ?_, List.pairwise_singleton _ _⟩
  obtain ⟨hxs, hapart⟩ := h horder
  obtain ⟨hproper, hover, hinside⟩ := hs horder
  rw [List.mem_singleton.1 hx]
  exact ⟨.node hproper hinside hapart fun y hy => (hxs y hy).1, hover⟩

/-- A node may be taken from around its parts. -/
theorem Laid.inner (h : Laid (.node s xs :: ys) ts) : Laid (xs ++ ys) ts := by
  intro horder
  obtain ⟨hall, hapart⟩ := h horder
  obtain ⟨⟨_, hinside, hxs, hnested⟩, hover⟩ := hall _ List.mem_cons_self
  obtain ⟨hbefore, hys⟩ := List.pairwise_cons.1 hapart
  refine ⟨fun x hx => ?_, List.pairwise_append.2 ⟨hxs, hys, fun x hx y hy => ?_⟩⟩
  · rcases List.mem_append.1 hx with hx | hx
    · exact ⟨hnested x hx, hover.inside (hinside x hx)⟩
    · exact hall x (List.mem_cons_of_mem _ hx)
  · exact (hinside x hx).before (hbefore y hy)

/-- A node may be no wider than its only part. -/
theorem Laid.same (h : Laid [x] ts) : Laid [.node x.span [x]] ts := by
  refine h.node fun horder => ?_
  obtain ⟨hx, hover⟩ := (h horder).1 x List.mem_cons_self
  refine ⟨hx.proper, hover, fun y hy => ?_⟩
  rw [List.mem_singleton.1 hy]
  exact Span.inside_refl _

/-- From its first token to its last one a node holds all that lies between. -/
theorem Laid.between (h : Laid xs (t :: ts)) (hu : u ∈ (t :: ts).getLast?) :
    Laid [.node (t.span.cover u.span) xs] (t :: ts) := by
  refine h.node fun horder => ⟨?_, ?_, fun x hx => ?_⟩
  · exact Span.Proper.cover (horder.proper t List.mem_cons_self) _
  · exact (Span.over_token List.mem_cons_self).cover (Span.over_token (List.mem_of_getLast? hu))
  · obtain ⟨⟨v, hv, hfirst⟩, w, hw, hlast⟩ := ((h horder).1 x hx).2
    exact
      { first := Place.le_trans (Span.inside_cover_left _ _).first
          (Place.le_trans (horder.first_le hv) hfirst)
        last := Place.le_trans hlast
          (Place.le_trans (horder.le_last hw hu) (Span.inside_cover_right _ _).last) }

/-- From its first part to its last token a node holds all parts. -/
theorem Laid.fromFirst (h : Laid (x :: xs) ts) (hu : u ∈ ts.getLast?) :
    Laid [.node (x.span.cover u.span) (x :: xs)] ts := by
  refine h.node fun horder => ?_
  obtain ⟨hall, hapart⟩ := h horder
  obtain ⟨hx, hover⟩ := hall x List.mem_cons_self
  refine ⟨hx.proper.cover _, hover.cover (Span.over_token (List.mem_of_getLast? hu)), fun y hy => ?_⟩
  obtain ⟨-, w, hw, hlast⟩ := (hall y hy).2
  refine ⟨Place.le_trans (Span.inside_cover_left _ _).first ?_,
    Place.le_trans hlast (Place.le_trans (horder.le_last hw hu) (Span.inside_cover_right _ _).last)⟩
  rcases List.mem_cons.1 hy with rfl | hy
  · exact Place.le_refl _
  · exact Place.le_trans hx.proper (Place.le_of_lt (List.rel_of_pairwise_cons hapart hy))

/-- From its first token to its only part a node holds that part. -/
theorem Laid.toLast (h : Laid [x] (t :: ts)) :
    Laid [.node (t.span.cover x.span) [x]] (t :: ts) := by
  refine h.node fun horder => ?_
  obtain ⟨-, hover⟩ := (h horder).1 x List.mem_cons_self
  refine ⟨Span.Proper.cover (horder.proper t List.mem_cons_self) _,
    (Span.over_token List.mem_cons_self).cover hover, fun y hy => ?_⟩
  rw [List.mem_singleton.1 hy]
  exact Span.inside_cover_right _ _

/-- From its first part to its second one a node holds both. -/
theorem Laid.pair (h : Laid [x, y] ts) :
    Laid [.node (x.span.cover y.span) [x, y]] ts := by
  refine h.node fun horder => ?_
  obtain ⟨hall, -⟩ := h horder
  obtain ⟨hx, hoverx⟩ := hall x List.mem_cons_self
  obtain ⟨-, hovery⟩ := hall y (List.mem_cons_of_mem _ List.mem_cons_self)
  refine ⟨hx.proper.cover _, hoverx.cover hovery, fun z hz => ?_⟩
  rcases List.mem_cons.1 hz with rfl | hz
  · exact Span.inside_cover_left _ _
  · rw [List.mem_singleton.1 hz]
    exact Span.inside_cover_right _ _

/-- The first of two parts may be taken apart where they are joined. -/
theorem Laid.pairInner (h : Laid [.node s xs, y] ts) :
    Laid [.node (s.cover y.span) (xs ++ [y])] ts := by
  refine h.inner.node fun horder => ?_
  obtain ⟨hnode, hover⟩ := (h.pair horder).1 _ List.mem_cons_self
  obtain ⟨⟨_, hinside, _, _⟩, -⟩ := (h horder).1 _ List.mem_cons_self
  refine ⟨hnode.proper, hover, fun z hz => ?_⟩
  rcases List.mem_append.1 hz with hz | hz
  · exact (hinside z hz).trans (Span.inside_cover_left s y.span)
  · rw [List.mem_singleton.1 hz]
    exact Span.inside_cover_right s y.span

end Tokens

end SmallScript
