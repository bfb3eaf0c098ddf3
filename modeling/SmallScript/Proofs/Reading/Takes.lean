/-
  Readings that take given words.

  `Takes m h Q S ks` says that `m` reads the words `ks` without a complaint: begun before them, with `h`
  levels of nesting left and room in the log, it succeeds with a result that satisfies `Q`, behind the
  last of them.  What may stand there matters, since most readers look at the word behind their
  own to see that it is none of theirs: `S` is what is asked of it.

  There is one lemma for each step and for each way of building a reader.  A step that only looks
  takes no words; the words that follow are those of the steps behind it, and `Heads` says what is
  known of the first of them.
-/
import SmallScript.Proofs.Reading.Faithful

namespace SmallScript

namespace Cursor

/-- The current word is the first one to come. -/
theorem kind_of_kinds {c : Cursor} {k : Kind} {ks : List Kind} (h : c.kinds = k :: ks) :
    c.kind = k := (List.cons.inj h).1

/-- The word behind it is the second one. -/
theorem nextKind_of_kinds {c : Cursor} {k j : Kind} {ks : List Kind} (h : c.kinds = k :: j :: ks) :
    c.nextKind = j := by
  have hlater : c.later.map Token.kind = j :: ks := (List.cons.inj h).2
  unfold nextKind
  cases hl : c.later with
  | nil =>
    rw [hl] at hlater
    cases hlater
  | cons t ts =>
    rw [hl] at hlater
    exact (List.cons.inj hlater).1

/-- There may be as many turns as there are words to come. -/
theorem turns_eq (c : Cursor) : c.turns = c.kinds.length := by
  unfold turns kinds
  rw [List.length_cons, List.length_map]

/-- While there is a word to come, enough turns are more than none. -/
theorem exists_turn {c : Cursor} {turns : Nat} (h : c.kinds.length ≤ turns) :
    ∃ t, turns = t + 1 := by
  unfold kinds at h
  rw [List.length_cons] at h
  exact Nat.exists_eq_succ_of_ne_zero (by omega)

/-- There are `h` levels of nesting left, and the log has room. -/
def Ready (h : Nat) (c : Cursor) : Prop := c.depth + h ≤ maxDepth ∧ c.log.isFull = false

/-- From `c` a reading has come to `d`, before the words `rest`, and has logged nothing. -/
structure Reached (c : Cursor) (rest : List Kind) (d : Cursor) : Prop where
  kinds : d.kinds = rest
  log : d.log = c.log
  depth : d.depth = c.depth

variable {c d e : Cursor} {h : Nat} {k : Kind} {ks rest : List Kind}

theorem Reached.refl (hc : c.kinds = rest) : c.Reached rest c := ⟨hc, rfl, rfl⟩

/-- What is reached from a cursor that was reached is reached. -/
theorem Reached.trans (hd : c.Reached ks d) (he : d.Reached rest e) : c.Reached rest e :=
  ⟨he.kinds, he.log.trans hd.log, he.depth.trans hd.depth⟩

/-- Where one cursor is ready, those that are reached from it are. -/
theorem Reached.ready (hd : c.Reached rest d) (hc : c.Ready h) : d.Ready h := by
  obtain ⟨hdepth, hlog⟩ := hc
  constructor
  · rw [hd.depth]
    exact hdepth
  · rw [hd.log]
    exact hlog

/-- Going on reaches the next word. -/
theorem reached_advance (hc : c.kinds = k :: rest) (hrest : rest ≠ []) :
    c.Reached rest c.advance := by
  have hlater : c.later ≠ [] := by
    intro hl
    unfold kinds at hc
    rw [hl] at hc
    exact hrest (List.cons.inj hc).2.symm
  refine ⟨?_, c.log_advance, Reading.depth_advance c⟩
  have hadvance := kinds_advance hlater
  rw [hc] at hadvance
  exact (List.cons.inj hadvance).2.symm

end Cursor

namespace Reading

variable {α β : Type} {h : Nat} {k : Kind} {ks js rest : List Kind}

/-! ## What stands behind -/

/-- There is a next word, and it satisfies `S`. -/
def Follows (S : Kind → Prop) (rest : List Kind) : Prop := ∃ k ks, rest = k :: ks ∧ S k

/-- The first of the words behind is what is asked of. -/
theorem follows_cons {S : Kind → Prop} (hk : S k) : Follows S (k :: rest) := ⟨k, rest, rfl, hk⟩

theorem Follows.ne_nil {S : Kind → Prop} (h : Follows S rest) : rest ≠ [] := by
  obtain ⟨k, ks, rfl, -⟩ := h
  exact List.cons_ne_nil k ks

/-- Less may be asked of it. -/
theorem Follows.mono {S T : Kind → Prop} (h : Follows S rest) (hST : ∀ k, S k → T k) :
    Follows T rest := by
  obtain ⟨k, ks, rfl, hk⟩ := h
  exact ⟨k, ks, rfl, hST k hk⟩

/-- The first of the words `js` satisfies `S`; if there is none, it is the word behind them. -/
def Heads (S T : Kind → Prop) (js : List Kind) : Prop :=
  ∀ rest, Follows T rest → Follows S (js ++ rest)

/-- The first of some words stands behind what is in front of them. -/
theorem heads_cons {S T : Kind → Prop} (hk : S k) : Heads S T (k :: js) :=
  fun _ _ => follows_cons hk

/-- Of no words, the first is the one that follows. -/
theorem heads_nil {S T : Kind → Prop} (hTS : ∀ k, T k → S k) : Heads S T [] :=
  fun _ hrest => hrest.mono hTS

theorem heads_any {T : Kind → Prop} : Heads (fun _ => True) T js := by
  intro rest hrest
  obtain ⟨k, is, hk⟩ := List.exists_cons_of_ne_nil
    (show js ++ rest ≠ [] from List.append_ne_nil_of_right_ne_nil js hrest.ne_nil)
  exact ⟨k, is, hk, trivial⟩

/-! ## Taking words -/

/-- The reading `m` takes the words `ks`. -/
def Takes (m : Reading α) (h : Nat) (Q : α → Prop) (S : Kind → Prop) (ks : List Kind) : Prop :=
  ∀ c rest, c.kinds = ks ++ rest → Follows S rest → c.Ready h →
    ∃ x d, m c = (some x, d) ∧ Q x ∧ c.Reached rest d

/-- Any word may stand behind. -/
abbrev Any : Kind → Prop := fun _ => True

/-- A reading that succeeds is followed by the next one. -/
theorem bind_of_some {m : Reading α} {f : α → Reading β} {c d : Cursor} {x : α}
    (h : m c = (some x, d)) : (m >>= f) c = f x d := by
  change Reading.bind m f c = f x d
  unfold Reading.bind
  rw [h]

theorem look_bind (g : Cursor → α) (f : α → Reading β) (c : Cursor) :
    (look g >>= f) c = f (g c) c := rfl

section Steps

variable {m : Reading α} {f : α → Reading β} {Q : α → Prop} {R : β → Prop} {S T : Kind → Prop}

/-- Less may be said of the result, and more asked of what follows. -/
theorem Takes.mono {Q' : α → Prop} (hm : Takes m h Q S ks) (hQ : ∀ x, Q x → Q' x)
    (hS : ∀ k, T k → S k) : Takes m h Q' T ks := by
  intro c rest hc hrest hready
  obtain ⟨x, d, hx, hQx, hd⟩ := hm c rest hc (hrest.mono hS) hready
  exact ⟨x, d, hx, hQ x hQx, hd⟩

/-- What follows a reading takes the words behind it. -/
theorem Takes.bind (hm : Takes m h Q S ks) (hS : Heads S T js)
    (hf : ∀ x, Q x → Takes (f x) h R T js) : Takes (m >>= f) h R T (ks ++ js) := by
  intro c rest hc hrest hready
  rw [List.append_assoc] at hc
  obtain ⟨x, d, hx, hQx, hd⟩ := hm c (js ++ rest) hc (hS rest hrest) hready
  obtain ⟨y, e, hy, hRy, he⟩ := hf x hQx d rest hd.kinds hrest (hd.ready hready)
  rw [bind_of_some hx]
  exact ⟨y, e, hy, hRy, hd.trans he⟩

/-- What follows a reading may take no more words. -/
theorem Takes.bind_nil (hm : Takes m h Q S ks) (hTS : ∀ k, T k → S k)
    (hf : ∀ x, Q x → Takes (f x) h R T []) : Takes (m >>= f) h R T ks := by
  have hboth := hm.bind (heads_nil hTS) hf
  rw [List.append_nil] at hboth
  exact hboth

/-- What reads nothing takes no words. -/
theorem takes_pure {x : α} (hx : Q x) : Takes (pure x) h Q S [] :=
  fun c _ hc _ _ => ⟨x, c, rfl, hx, .refl hc⟩

theorem takes_pureBind {x : α} (hf : Takes (f x) h R T js) : Takes (pure x >>= f) h R T js := hf

/-- What is made of the result satisfies what follows from it. -/
theorem Takes.map {g : α → β} (hm : Takes m h Q S ks) (hR : ∀ x, Q x → R (g x)) :
    Takes (g <$> m) h R S ks :=
  hm.bind_nil (fun _ hk => hk) fun x hx => takes_pure (hR x hx)

/-- What is read one level deeper takes one level more. -/
theorem Takes.nested (hm : Takes m h Q S ks) : Takes (nested m) (h + 1) Q S ks := by
  rintro c rest hc hrest ⟨hdepth, hlog⟩
  have hlimit : c.depth < Cursor.maxDepth := by omega
  have hready : Cursor.Ready h { c with depth := c.depth + 1 } :=
    ⟨show c.depth + 1 + h ≤ Cursor.maxDepth by omega, hlog⟩
  obtain ⟨x, d, hx, hQ, hd⟩ := hm { c with depth := c.depth + 1 } rest hc hrest hready
  refine ⟨x, { d with depth := d.depth - 1 }, ?_, hQ, hd.kinds, hd.log, ?_⟩
  · unfold Reading.nested
    rw [if_pos hlimit, hx]
  · show d.depth - 1 = c.depth
    rw [hd.depth]
    rfl

/-- A step that reads one word. -/
theorem takes_word {x : Cursor → α} (hm : ∀ c, c.kind = k → m c = (some (x c), c.advance))
    (hQ : ∀ c, c.kind = k → Q (x c)) (hf : ∀ x, Q x → Takes (f x) h R T js) :
    Takes (m >>= f) h R T (k :: js) := by
  have hword : Takes m h Q Any [k] := by
    intro c rest hc hrest _
    have hk := Cursor.kind_of_kinds hc
    exact ⟨x c, c.advance, hm c hk, hQ c hk, Cursor.reached_advance hc hrest.ne_nil⟩
  exact hword.bind heads_any hf

theorem takes_tokenSpan {f : Span → Reading β} (hf : ∀ s, Takes (f s) h R T js) :
    Takes (tokenSpan >>= f) h R T (k :: js) :=
  takes_word (Q := fun _ => True) (fun _ _ => rfl) (fun _ _ => trivial) fun s _ => hf s

/-- A token is one word. -/
theorem takes_token {f : Token → Reading β} (hf : ∀ t, Takes (f t) h R T js) :
    Takes (token >>= f) h R T (k :: js) :=
  takes_word (Q := fun _ => True) (fun _ _ => rfl) (fun _ _ => trivial) fun t _ => hf t

/-- A symbol that must be there is taken if it is. -/
theorem takes_expect {s : Symbol} {f : Unit → Reading β} (hf : Takes (f ()) h R T js) :
    Takes (expect s >>= f) h R T (.symbol s :: js) := by
  refine takes_word (Q := fun _ => True) (x := fun _ => ()) (fun c hk => ?_) (fun _ _ => trivial)
    fun _ _ => hf
  unfold expect
  rw [if_pos hk]

/-- So is the semicolon behind a statement. -/
theorem takes_endStatement {f : Unit → Reading β} (hf : Takes (f ()) h R T js) :
    Takes (endStatement >>= f) h R T (.symbol .semicolon :: js) := by
  refine takes_word (Q := fun _ => True) (x := fun _ => ()) (fun c hk => ?_) (fun _ _ => trivial)
    fun _ _ => hf
  unfold endStatement
  rw [if_pos hk]

theorem identifier_of_kind {x : String} {c : Cursor} (hk : c.kind = .identifier x) :
    identifier c = (some ⟨x, c.current.span⟩, c.advance) := by
  unfold identifier
  rw [hk]

/-- So is a name. -/
theorem takes_identifier {x : String} {f : Ident → Reading β}
    (hf : ∀ y : Ident, y.name = x → Takes (f y) h R T js) :
    Takes (identifier >>= f) h R T (.identifier x :: js) :=
  takes_word (Q := fun y => y.name = x) (fun _ hk => identifier_of_kind hk) (fun _ _ => rfl) hf

/-- Handing out a number takes no word. -/
theorem takes_freshId {f : NodeId → Reading β} (hf : ∀ id, Takes (f id) h R T js) :
    Takes (freshId >>= f) h R T js := by
  intro c rest hc hrest hready
  obtain ⟨y, d, hy, hR, hd⟩ := hf c.nextId { c with nextId := c.nextId + 1 } rest hc hrest hready
  exact ⟨y, d, hy, hR, hd.kinds, hd.log, hd.depth⟩

/-- Looking at the cursor takes no words. -/
theorem takes_look {g : Cursor → α} (hf : ∀ x, Takes (f x) h R T js) :
    Takes (look g >>= f) h R T js :=
  fun c rest hc hrest hready => hf (g c) c rest hc hrest hready

/-- A choice by the current word is made by the first of the words to be taken. -/
theorem takes_byKind {f : Kind → Reading β} (hf : Takes (f k) h R T (k :: js)) :
    Takes (look Cursor.kind >>= f) h R T (k :: js) := by
  intro c rest hc hrest hready
  rw [look_bind, Cursor.kind_of_kinds hc]
  exact hf c rest hc hrest hready

/-- If there are none, it is made by the word that follows. -/
theorem takes_byKindBehind {f : Kind → Reading β} (hf : ∀ k, T k → Takes (f k) h R T []) :
    Takes (look Cursor.kind >>= f) h R T [] := by
  intro c rest hc hrest hready
  obtain ⟨k, ks, rfl, hk⟩ := hrest
  rw [look_bind, Cursor.kind_of_kinds hc]
  exact hf k hk c _ hc (follows_cons hk) hready

/-- Moving the cursor takes no words if it does not move there. -/
theorem takes_move {g : Cursor → Cursor} {f : Unit → Reading β} (hg : ∀ c, S c.kind → g c = c)
    (hS : Heads S T js) (hf : Takes (f ()) h R T js) : Takes (move g >>= f) h R T js := by
  intro c rest hc hrest hready
  obtain ⟨k, ks, hks, hk⟩ := hS rest hrest
  have hmove : move g c = (some (), c) :=
    congrArg (fun d => (some (), d)) (hg c (Cursor.kind_of_kinds (hc.trans hks) ▸ hk))
  rw [bind_of_some hmove]
  exact hf c rest hc hrest hready

/-- A choice by two words is made by the first of them and by any second. -/
theorem takes_byKinds {f : Kind × Kind → Reading β} (hf : ∀ next, Takes (f (k, next)) h R T (k :: js)) :
    Takes (look (fun c => (c.kind, c.nextKind)) >>= f) h R T (k :: js) := by
  intro c rest hc hrest hready
  rw [look_bind, Cursor.kind_of_kinds hc]
  exact hf c.nextKind c rest hc hrest hready

/-- Two words tell how to go on. -/
theorem takes_byBothKinds {j : Kind} {f : Kind × Kind → Reading β}
    (hf : Takes (f (k, j)) h R T (k :: j :: js)) :
    Takes (look (fun c => (c.kind, c.nextKind)) >>= f) h R T (k :: j :: js) := by
  intro c rest hc hrest hready
  rw [look_bind, Cursor.kind_of_kinds hc, Cursor.nextKind_of_kinds hc]
  exact hf c rest hc hrest hready

/-- Where the symbol comes next, a reader that asks for it goes on as it does there. -/
theorem takes_at? {s : Symbol} {f : Bool → Reading β}
    (hf : Takes (f true) h R T (.symbol s :: js)) :
    Takes (at? s >>= f) h R T (.symbol s :: js) := by
  intro c rest hc hrest hready
  show ∃ y d, f (decide (c.kind = .symbol s)) c = (some y, d) ∧ R y ∧ c.Reached rest d
  rw [decide_eq_true (Cursor.kind_of_kinds hc)]
  exact hf c rest hc hrest hready

/-- A symbol is not seen where another word stands. -/
theorem takes_notAt? {s : Symbol} {f : Bool → Reading β} (hno : Heads (· ≠ .symbol s) T js)
    (hf : Takes (f false) h R T js) : Takes (at? s >>= f) h R T js := by
  intro c rest hc hrest hready
  obtain ⟨k, ks, hks, hk⟩ := hno rest hrest
  have hkind : c.kind ≠ .symbol s := by
    rw [Cursor.kind_of_kinds (hc.trans hks)]
    exact hk
  show ∃ y d, f (decide (c.kind = .symbol s)) c = (some y, d) ∧ R y ∧ c.Reached rest d
  rw [decide_eq_false hkind]
  exact hf c rest hc hrest hready

/-- A keyword that may be missing is taken if it is there. -/
theorem takes_eatKeyword {kw : Keyword} {f : Bool → Reading β} (hf : Takes (f true) h R T js) :
    Takes (eatKeyword kw >>= f) h R T (.keyword kw :: js) := by
  refine takes_word (Q := fun b => b = true) (x := fun _ => true) (fun c hk => ?_) (fun _ _ => rfl)
    fun b hb => hb ▸ hf
  unfold eatKeyword
  rw [if_pos hk]

/-- Where another word stands it is not taken. -/
theorem takes_notKeyword {kw : Keyword} {f : Bool → Reading β} (hno : Heads (· ≠ .keyword kw) T js)
    (hf : Takes (f false) h R T js) : Takes (eatKeyword kw >>= f) h R T js := by
  intro c rest hc hrest hready
  obtain ⟨k, ks, hks, hk⟩ := hno rest hrest
  have hkind : c.kind ≠ .keyword kw := by
    rw [Cursor.kind_of_kinds (hc.trans hks)]
    exact hk
  have heat : eatKeyword kw c = (some false, c) := by
    unfold eatKeyword
    rw [if_neg hkind]
  rw [bind_of_some heat]
  exact hf c rest hc hrest hready

end Steps

/-! ## Items with commas between them -/

section Items

variable {f : α → β} {P : List α → α → List Kind → Prop} {close : Symbol}
  {item : List α → Reading α} {S : Kind → Prop}

/-- A symbol that may be missing is taken if it is there. -/
theorem eat_of_kind {s : Symbol} {c : Cursor} (hk : c.kind = .symbol s) :
    eat s c = (some true, c.advance) := by
  unfold eat
  rw [if_pos hk]

theorem eat_of_ne {s : Symbol} {c : Cursor} (hk : c.kind ≠ .symbol s) :
    eat s c = (some false, c) := by
  unfold eat
  rw [if_neg hk]

/-- One turn of reading items, where an item is to come. -/
theorem itemsFrom_step {turns : Nat} {before : List α} {c d : Cursor} {x : α}
    (hclose : c.kind ≠ .symbol close) (hx : item before c = (some x, d)) :
    itemsFrom close item (turns + 1) before c =
      (if d.kind = .symbol .comma then itemsFrom close item turns (x :: before) d.advance
        else (some (x :: before), d)) := by
  have hat : at? close c = (some false, c) := congrArg (fun b => (some b, c)) (decide_eq_false hclose)
  rw [itemsFrom, bind_of_some hat]
  show (item before >>= _) c = _
  rw [bind_of_some hx]
  split
  · rename_i hcomma
    rw [bind_of_some (eat_of_kind hcomma)]
    rfl
  · rename_i hcomma
    rw [bind_of_some (eat_of_ne hcomma)]
    rfl

/-- Items are read one by one.  What is read need not be what is written, but it looks the same
under `f`. -/
theorem takes_itemsFrom (hclose : close ≠ .comma) (hcomma : S (.symbol .comma))
    (hS : S (.symbol close))
    (hitem : ∀ before before' x ks, before'.map f = before.map f → P before x ks →
      (∃ k js, ks = k :: js ∧ k ≠ .symbol close) ∧
        Takes (item before') h (fun y => f y = f x) S ks)
    {before xs : List α} (hxs : Separated P before xs ks) :
    ∀ (turns : Nat) (before' : List α) (c : Cursor) (rest : List Kind),
      before'.map f = before.map f → c.kinds = ks ++ .symbol close :: rest →
      c.kinds.length ≤ turns → c.Ready h →
        ∃ ys d, itemsFrom close item turns before' c = (some ys, d) ∧
          ys.map f = (xs.reverse ++ before).map f ∧ c.Reached (.symbol close :: rest) d := by
  -- There are at least as many turns as words to come, and each turn takes a word at least.
  induction hxs with
  | none =>
    intro turns before' c rest hbefore hc hturns _
    obtain ⟨turns, rfl⟩ := Cursor.exists_turn hturns
    have hat : at? close c = (some true, c) :=
      congrArg (fun b => (some b, c)) (decide_eq_true (Cursor.kind_of_kinds hc))
    rw [itemsFrom, bind_of_some hat]
    exact ⟨before', c, rfl, hbefore, .refl hc⟩
  | @last before x ks hx =>
    intro turns before' c rest hbefore hc hturns hready
    obtain ⟨turns, rfl⟩ := Cursor.exists_turn hturns
    obtain ⟨⟨k, js, rfl, hk⟩, htakes⟩ := hitem before before' x ks hbefore hx
    have hkind : c.kind ≠ .symbol close := by rw [Cursor.kind_of_kinds hc]; exact hk
    obtain ⟨y, d, hy, hfy, hd⟩ := htakes c _ hc (follows_cons hS) hready
    have hend : d.kind ≠ .symbol .comma := by
      rw [Cursor.kind_of_kinds hd.kinds]
      exact fun h => hclose (Kind.symbol.inj h)
    rw [itemsFrom_step hkind hy, if_neg hend]
    refine ⟨y :: before', d, rfl, ?_, hd⟩
    rw [List.map_cons, hfy, hbefore]
    rfl
  | @next before x xs ks js hx _ ih =>
    intro turns before' c rest hbefore hc hturns hready
    obtain ⟨turns, rfl⟩ := Cursor.exists_turn hturns
    obtain ⟨⟨k, is, rfl, hk⟩, htakes⟩ := hitem before before' x ks hbefore hx
    have hkind : c.kind ≠ .symbol close := by rw [Cursor.kind_of_kinds hc]; exact hk
    rw [List.append_assoc] at hc
    obtain ⟨y, d, hy, hfy, hd⟩ := htakes c _ hc (follows_cons hcomma) hready
    have hmore : d.kind = .symbol .comma := Cursor.kind_of_kinds hd.kinds
    have hd' : d.Reached (js ++ .symbol close :: rest) d.advance :=
      Cursor.reached_advance hd.kinds (List.append_ne_nil_of_right_ne_nil js (List.cons_ne_nil _ _))
    rw [itemsFrom_step hkind hy, if_pos hmore]
    obtain ⟨ys, e, hys, hfys, he⟩ := ih turns (y :: before') d.advance rest
      (by rw [List.map_cons, List.map_cons, hfy, hbefore]) hd'.kinds
      (by
        rw [hd'.kinds]
        rw [hc] at hturns
        simp only [List.length_append, List.length_cons] at hturns ⊢
        omega)
      (hd'.ready (hd.ready hready))
    refine ⟨ys, e, hys, ?_, (hd.trans hd').trans he⟩
    rw [hfys, List.reverse_cons, List.append_assoc]
    rfl

/-- Items with commas between them are taken up to the symbol that closes them. -/
theorem takes_items {T : Kind → Prop} (hclose : close ≠ .comma) (hcomma : S (.symbol .comma))
    (hS : S (.symbol close))
    (hitem : ∀ before before' x ks, before'.map f = before.map f → P before x ks →
      (∃ k js, ks = k :: js ∧ k ≠ .symbol close) ∧
        Takes (item before') h (fun y => f y = f x) S ks)
    {xs : List α} (hxs : Separated P [] xs ks) :
    Takes (items close item) h (fun ys => ys.map f = xs.map f) T (ks ++ [.symbol close]) := by
  intro c rest hc hrest hready
  rw [List.append_assoc] at hc
  obtain ⟨ys, d, hys, hfys, hd⟩ := takes_itemsFrom hclose hcomma hS hitem hxs c.turns [] c rest rfl hc
    (Nat.le_of_eq c.turns_eq.symm) hready
  have hend : Takes (expect close >>= fun _ => pure ys.reverse) h
      (fun zs => zs.map f = xs.map f) T [.symbol close] := by
    refine takes_expect (takes_pure ?_)
    rw [List.map_reverse, hfys, List.append_nil, List.map_reverse, List.reverse_reverse]
  obtain ⟨zs, e, hzs, hfzs, he⟩ := hend d rest hd.kinds hrest (hd.ready hready)
  refine ⟨zs, e, ?_, hfzs, hd.trans he⟩
  show (itemsFrom close item c.turns [] >>= _) c = _
  rw [bind_of_some hys]
  exact hzs

end Items

end Reading

end SmallScript
