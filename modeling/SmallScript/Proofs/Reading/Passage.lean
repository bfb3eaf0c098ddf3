/-
  Which tokens a reader passes, and how its result lies over them.

  A cursor stands in a token list and is only ever moved forward, one token at a time and never past
  the end.  `c.Passed ts d` says that it has come from `c` to `d` past the tokens `ts`.  The span of
  the token read last is then that of the last of `ts`, and no more numbers were handed out than
  tokens were passed.

  `Lays n a Z m` says of a reader at depth `n` that it gets past some tokens, whether it gives up or
  not, and that `Z` tells its result from all tokens since the construct began that it is a part of:
  those are `a` when the reader begins.  So the first token of a construct is still at hand where its
  span is made.  There is one lemma for each step and each way of building a reader.
-/
import SmallScript.Proofs.Reading.Extent
import SmallScript.Proofs.Reading.Faithful

namespace SmallScript

/-! ## Passing tokens -/

namespace Cursor

/-- The tokens from the current one on. -/
def tokens (c : Cursor) : List Token := c.current :: c.later

/-- The words to come are those of the tokens to come. -/
theorem kinds_eq_map (c : Cursor) : c.kinds = c.tokens.map Token.kind := rfl

theorem length_tokens (c : Cursor) : c.tokens.length = c.turns := rfl

/-- From `c` a reader has come to `d`, past the tokens `ts`. -/
structure Passed (c : Cursor) (ts : List Token) (d : Cursor) : Prop where
  doc : d.doc = c.doc
  tokens : c.tokens = ts ++ d.tokens
  previous : d.previous = (ts.getLast?.map Token.span).getD c.previous
  nextId : d.nextId ≤ c.nextId + ts.length
  depth : d.depth = c.depth

variable {c d e : Cursor} {t : Token} {ts us : List Token}

theorem Passed.refl (c : Cursor) : c.Passed [] c := ⟨rfl, rfl, rfl, Nat.le_refl _, rfl⟩

/-- What has passed some tokens and then others has passed both. -/
theorem Passed.trans (hd : c.Passed ts d) (he : d.Passed us e) : c.Passed (ts ++ us) e := by
  refine ⟨he.doc.trans hd.doc, ?_, ?_, ?_, he.depth.trans hd.depth⟩
  · rw [hd.tokens, he.tokens, List.append_assoc]
  · rw [he.previous, hd.previous, List.getLast?_append]
    cases us.getLast? <;> rfl
  · rw [List.length_append, ← Nat.add_assoc]
    exact Nat.le_trans he.nextId (Nat.add_le_add_right hd.nextId _)

/-- Behind some tokens the span read last is that of the last of them. -/
theorem Passed.previous_eq (hd : c.Passed ts d) (hc : ∀ t ∈ us.getLast?, c.previous = t.span) :
    ∀ t ∈ (us ++ ts).getLast?, d.previous = t.span := by
  intro t ht
  rw [hd.previous]
  rw [List.getLast?_append] at ht
  cases hlast : ts.getLast? with
  | none =>
    rw [hlast] at ht
    exact hc t ht
  | some u =>
    rw [hlast] at ht
    cases ht
    rfl

/-- A list of tokens has one end, which is its last token. -/
def OneEnd (ts : List Token) : Prop := ∃ ks, ts.map Token.kind = ks ++ [.eof] ∧ .eof ∉ ks

theorem ended_iff : c.Ended ↔ OneEnd c.tokens := Iff.rfl

/-- Tokens that are no end, with one that is, have one end. -/
theorem oneEnd_append {ts : List Token} {e : Token} (hts : ∀ t ∈ ts, t.kind ≠ .eof)
    (he : e.kind = .eof) : OneEnd (ts ++ [e]) := by
  refine ⟨ts.map Token.kind, ?_, fun hmem => ?_⟩
  · rw [List.map_append, List.map_singleton, he]
  · obtain ⟨t, ht, hk⟩ := List.mem_map.1 hmem
    exact hts t ht hk

/-- Behind what was passed, the end is still to come. -/
theorem Passed.ended (hd : c.Passed ts d) (hc : c.Ended) : d.Ended := by
  obtain ⟨ks, hks, hnot⟩ := hc
  rw [kinds_eq_map, hd.tokens, List.map_append] at hks
  obtain ⟨js, hjs⟩ | ⟨js, hjs⟩ := List.append_eq_append_iff.1 hks
  · exact ⟨js, hjs.2, fun hmem => hnot (hjs.1 ▸ List.mem_append_right _ hmem)⟩
  · -- The words from the current one on are never none.
    have hlength := congrArg List.length hjs.2
    have hpos : d.tokens.length = d.turns := d.length_tokens
    rw [List.length_append, List.length_map, List.length_singleton] at hlength
    unfold turns at hpos
    obtain rfl : js = [] := List.eq_nil_of_length_eq_zero (by omega)
    exact ⟨[], hjs.2.symm, List.not_mem_nil⟩

/-- What is passed is no end. -/
theorem Passed.not_eof (hd : c.Passed ts d) (hc : c.Ended) : ∀ t ∈ ts, t.kind ≠ .eof := by
  obtain ⟨js, hjs, hnot⟩ := hd.ended hc
  obtain ⟨ks, hks, hnot'⟩ := hc
  rw [kinds_eq_map, hd.tokens, List.map_append, ← kinds_eq_map, hjs, ← List.append_assoc] at hks
  intro t ht hk
  refine hnot' ((List.append_cancel_right hks) ▸ List.mem_append_left _ ?_)
  exact hk ▸ List.mem_map_of_mem ht

/-- Going on before the end passes one token. -/
theorem passed_advance (hc : c.Ended) (hk : c.kind ≠ .eof) : c.Passed [c.current] c.advance := by
  have hlater : c.later ≠ [] := by
    rintro hl
    obtain ⟨ks, hks, hnot⟩ := hc
    unfold kinds at hks
    rw [hl] at hks
    cases ks with
    | nil => exact hk (List.cons.inj hks).1
    | cons k ks => exact absurd (List.cons.inj hks).2.symm (by simp)
  obtain ⟨t, ts, hl⟩ := List.exists_cons_of_ne_nil hlater
  unfold advance
  rw [hl]
  exact ⟨rfl, congrArg (c.current :: ·) hl, rfl, Nat.le_succ _, rfl⟩

/-- Complaining passes nothing. -/
theorem passed_complain (c : Cursor) (code : Code) (message : String) (span : Span)
    (suggestion : Option String) : c.Passed [] (c.complain code message span suggestion) :=
  ⟨rfl, rfl, rfl, Nat.le_refl _, rfl⟩

end Cursor

namespace Reading

variable {α β : Type} {n : Nat} {k : Kind} {a ts us : List Token}

/-! ## Laying a result over tokens -/

/-- The outcome of a reading that begins at `c` behind the tokens `a`. -/
def LaidOut (a : List Token) (Z : α → List Token → Prop) (c : Cursor) (r : Option α × Cursor) :
    Prop :=
  ∃ b, c.Passed b r.2 ∧ ∀ x, r.1 = some x → Z x (a ++ b)

/-- At depth `n` and behind the tokens `a`, a reader gets past some tokens, and `Z` tells its result
from them and those before. -/
def Lays (n : Nat) (a : List Token) (Z : α → List Token → Prop) (m : Reading α) : Prop :=
  ∀ c, c.Ended → c.depth = n → (∀ t ∈ a.getLast?, c.previous = t.span) → LaidOut a Z c (m c)

/-- The same where the word `k` comes next. -/
def LaysAt (k : Kind) (n : Nat) (a : List Token) (Z : α → List Token → Prop) (m : Reading α) :
    Prop :=
  ∀ c, c.Ended → c.depth = n → (∀ t ∈ a.getLast?, c.previous = t.span) → c.kind = k →
    LaidOut a Z c (m c)

section Build

variable {Y Z : α → List Token → Prop} {m : Reading α}

/-- What holds at every word holds at each. -/
theorem Lays.at (h : Lays n a Z m) (k : Kind) : LaysAt k n a Z m :=
  fun c hc hn hprev _ => h c hc hn hprev

/-- Less may be said of the result. -/
theorem Lays.mono (h : Lays n a Y m) (hYZ : ∀ x b, Y x b → Z x b) : Lays n a Z m := by
  intro c hc hn hprev
  obtain ⟨b, hb, hread⟩ := h c hc hn hprev
  exact ⟨b, hb, fun x hx => hYZ x _ (hread x hx)⟩

/-- A construct may be a part of another one. -/
theorem Lays.behind (h : Lays n [] Y m) (a : List Token) :
    Lays n a (fun x b => ∃ ts, b = a ++ ts ∧ Y x ts) m := by
  intro c hc hn _
  obtain ⟨b, hb, hread⟩ := h c hc hn nofun
  exact ⟨b, hb, fun x hx => ⟨b, rfl, hread x hx⟩⟩

/-- What follows a reading goes on behind the tokens that it passed. -/
theorem LaidOut.bind {Z : β → List Token → Prop} {f : α → Reading β} {c : Cursor} (hc : c.Ended)
    (hn : c.depth = n) (hprev : ∀ t ∈ a.getLast?, c.previous = t.span) (hm : LaidOut a Y c (m c))
    (hf : ∀ x b, Y x b → Lays n b Z (f x)) : LaidOut a Z c ((m >>= f) c) := by
  obtain ⟨b, hb, hread⟩ := hm
  change LaidOut a Z c (Reading.bind m f c)
  unfold Reading.bind
  rcases hr : m c with ⟨_ | x, d⟩
  · rw [hr] at hb
    exact ⟨b, hb, nofun⟩
  · rw [hr] at hb hread
    obtain ⟨b', hb', hread'⟩ := hf x _ (hread x rfl) d (hb.ended hc) (hb.depth.trans hn)
      (hb.previous_eq hprev)
    refine ⟨b ++ b', hb.trans hb', fun y hy => ?_⟩
    rw [← List.append_assoc]
    exact hread' y hy

/-- The second reading goes on with the tokens that the first has passed. -/
theorem LaysAt.bind {Z : β → List Token → Prop} {f : α → Reading β} (hm : LaysAt k n a Y m)
    (hf : ∀ x b, Y x b → Lays n b Z (f x)) : LaysAt k n a Z (m >>= f) :=
  fun c hc hn hprev hk => (hm c hc hn hprev hk).bind hc hn hprev hf

theorem Lays.bind {Z : β → List Token → Prop} {f : α → Reading β} (hm : Lays n a Y m)
    (hf : ∀ x b, Y x b → Lays n b Z (f x)) : Lays n a Z (m >>= f) :=
  fun c hc hn hprev => (hm c hc hn hprev).bind hc hn hprev hf

/-- What is read one level deeper is laid out one level deeper; at the limit nothing is passed. -/
theorem Lays.nested (h : n < Cursor.maxDepth → Lays (n + 1) a Z m) : Lays n a Z (nested m) := by
  intro c hc hn hprev
  unfold Reading.nested
  split
  · rename_i hlimit
    obtain ⟨b, hb, hread⟩ :=
      h (hn ▸ hlimit) { c with depth := c.depth + 1 } hc (congrArg (· + 1) hn) hprev
    refine ⟨b, ⟨hb.doc, hb.tokens, hb.previous, hb.nextId, ?_⟩, hread⟩
    change (m _).2.depth - 1 = c.depth
    rw [hb.depth]
    rfl
  · exact ⟨[], c.passed_complain _ _ _ _, nofun⟩

/-- What reads nothing passes nothing. -/
theorem lays_pure {x : α} (h : Z x a) : Lays n a Z (pure x : Reading α) := by
  refine fun c _ _ _ => ⟨[], .refl c, ?_⟩
  rintro y ⟨⟩
  rw [List.append_nil]
  exact h

/-- What is made of a result lies over the same tokens. -/
theorem Lays.map {Z : β → List Token → Prop} {f : α → β} (hm : Lays n a Y m)
    (hYZ : ∀ x b, Y x b → Z (f x) b) : Lays n a Z (f <$> m) :=
  hm.bind fun x b hY => lays_pure (hYZ x b hY)

end Build

/-! ## Steps -/

section Steps

variable {Z : α → List Token → Prop}

/-- Looking passes no token. -/
theorem lays_look (f : Cursor → α) : Lays n a (fun _ b => b = a) (look f) :=
  fun c _ _ _ => ⟨[], .refl c, fun _ _ => List.append_nil a⟩

/-- A reading that is refused has no result to lay. -/
theorem lays_refuse (code : Code) (message : Kind → String) : Lays n a Z (refuse code message) :=
  fun c _ _ _ => ⟨[], c.passed_complain _ _ _ _, nofun⟩

theorem lays_complain (code : Code) (message : String) (span : Span) (suggestion : Option String) :
    Lays n a Z fun c => (none, c.complain code message span suggestion) :=
  fun c _ _ _ => ⟨[], c.passed_complain _ _ _ _, nofun⟩

/-- Complaining in some cases and reading on. -/
theorem lays_complainIf (p : Cursor → Prop) [DecidablePred p] (code : Code) (message : String)
    (span : Cursor → Span) : Lays n a (fun _ b => b = a)
      (move fun c => if p c then c.complain code message (span c) none else c) := by
  intro c _ _ _
  refine ⟨[], ?_, fun _ _ => List.append_nil a⟩
  show c.Passed [] (if p c then c.complain code message (span c) none else c)
  split
  · exact c.passed_complain _ _ _ _
  · exact .refl c

/-- The span read last is that of the last token passed. -/
theorem lays_previous : Lays n a (fun s b => b = a ∧ ∀ t ∈ a.getLast?, s = t.span) previous := by
  intro c _ _ hprev
  refine ⟨[], .refl c, ?_⟩
  rintro s ⟨⟩
  exact ⟨List.append_nil a, hprev⟩

theorem laidOut_expect (s : Symbol) {c : Cursor} (hc : c.Ended) :
    LaidOut a (fun _ b => b = a ++ [c.current]) c (expect s c) := by
  unfold expect
  split
  · rename_i hk
    exact ⟨_, Cursor.passed_advance hc (hk ▸ nofun), fun _ _ => rfl⟩
  · exact ⟨[], c.passed_complain _ _ _ _, nofun⟩

/-- A symbol that must be there is passed. -/
theorem lays_expect (s : Symbol) : Lays n a (fun _ b => ∃ t, b = a ++ [t]) (expect s) := by
  intro c hc _ _
  obtain ⟨b, hb, hread⟩ := laidOut_expect (a := a) s hc
  exact ⟨b, hb, fun x hx => ⟨c.current, hread x hx⟩⟩

/-- The span of a symbol may be looked at before the symbol is read. -/
theorem lays_expectSpan {s : Symbol} {f : Span → Reading α}
    (hf : ∀ t, Lays n (a ++ [t]) Z (f t.span)) :
    Lays n a Z (do let start ← look (·.current.span); expect s; f start) := by
  intro c hc hn hprev
  show LaidOut a Z c ((expect s >>= fun _ => f c.current.span) c)
  refine (laidOut_expect s hc).bind hc hn hprev ?_
  rintro _ b rfl
  exact hf c.current

/-- So is a semicolon behind a statement. -/
theorem lays_endStatement : Lays n a (fun _ b => ∃ t, b = a ++ [t]) endStatement := by
  intro c hc _ _
  unfold endStatement
  split
  · rename_i hk
    exact ⟨_, Cursor.passed_advance hc (hk ▸ nofun), fun _ _ => ⟨c.current, rfl⟩⟩
  · exact ⟨[], c.passed_complain _ _ _ _, nofun⟩

/-- A name has the span of its token. -/
theorem lays_identifier :
    Lays n a (fun x b => ∃ t, b = a ++ [t] ∧ x.extent = .node t.span []) identifier := by
  intro c hc _ _
  unfold identifier
  split
  · rename_i hk
    refine ⟨_, Cursor.passed_advance hc (hk ▸ nofun), ?_⟩
    rintro x ⟨⟩
    exact ⟨c.current, rfl, rfl⟩
  · exact ⟨[], c.passed_complain _ _ _ _, nofun⟩
  · exact ⟨[], c.passed_complain _ _ _ _, nofun⟩

/-- A symbol that may be missing is passed or not. -/
theorem lays_eat (s : Symbol) : Lays n a (fun _ b => ∃ ts, b = a ++ ts) (eat s) := by
  intro c hc _ _
  unfold eat
  split
  · rename_i hk
    exact ⟨_, Cursor.passed_advance hc (hk ▸ nofun), fun _ _ => ⟨_, rfl⟩⟩
  · exact ⟨[], .refl c, fun _ _ => ⟨_, rfl⟩⟩

theorem lays_eatKeyword (kw : Keyword) :
    Lays n a (fun _ b => ∃ ts, b = a ++ ts) (eatKeyword kw) := by
  intro c hc _ _
  unfold eatKeyword
  split
  · rename_i hk
    exact ⟨_, Cursor.passed_advance hc (hk ▸ nofun), fun _ _ => ⟨_, rfl⟩⟩
  · exact ⟨[], .refl c, fun _ _ => ⟨_, rfl⟩⟩

/-- A reader that looks at the next word lays out if it does so at every word. -/
theorem lays_byKind {f : Kind → Reading α} (h : ∀ k, LaysAt k n a Z (f k)) :
    Lays n a Z (look Cursor.kind >>= f) :=
  fun c hc hn hprev => h c.kind c hc hn hprev rfl

/-- A choice by two words is laid if it is laid at each first word. -/
theorem lays_byKinds {f : Kind × Kind → Reading α} (h : ∀ k next, LaysAt k n a Z (f (k, next))) :
    Lays n a Z (look (fun c => (c.kind, c.nextKind)) >>= f) :=
  fun c hc hn hprev => h c.kind c.nextKind c hc hn hprev rfl

/-- A reader that asks for a symbol goes on in one way before it and in another elsewhere. -/
theorem lays_at? {s : Symbol} {f : Bool → Reading α} (hyes : LaysAt (.symbol s) n a Z (f true))
    (hno : Lays n a Z (f false)) : Lays n a Z (at? s >>= f) := by
  intro c hc hn hprev
  show LaidOut a Z c (f (decide (c.kind = .symbol s)) c)
  by_cases hk : c.kind = .symbol s
  · rw [decide_eq_true hk]
    exact hyes c hc hn hprev hk
  · rw [decide_eq_false hk]
    exact hno c hc hn hprev

/-- What begins with a word goes on behind it. -/
theorem laysAt_tokenSpan {f : Span → Reading α} (hne : k ≠ .eof)
    (hf : ∀ t, Lays n (a ++ [t]) Z (f t.span)) : LaysAt k n a Z (tokenSpan >>= f) := by
  have hword : LaysAt k n a (fun s b => ∃ t, b = a ++ [t] ∧ s = t.span) tokenSpan := by
    intro c hc _ _ hk
    refine ⟨_, Cursor.passed_advance hc (hk ▸ hne), ?_⟩
    rintro s ⟨⟩
    exact ⟨c.current, rfl, rfl⟩
  refine hword.bind ?_
  rintro s b ⟨t, rfl, rfl⟩
  exact hf t

/-- A token is passed and put behind those that were. -/
theorem laysAt_token {f : Token → Reading α} (hne : k ≠ .eof)
    (hf : ∀ t, Lays n (a ++ [t]) Z (f t)) : LaysAt k n a Z (token >>= f) := by
  have hword : LaysAt k n a (fun t b => b = a ++ [t]) token := by
    intro c hc _ _ hk
    refine ⟨_, Cursor.passed_advance hc (hk ▸ hne), ?_⟩
    rintro t ⟨⟩
    rfl
  refine hword.bind ?_
  rintro t b rfl
  exact hf t

/-- A number is handed out behind a word, so there are never more of them than words. -/
theorem laysAt_numbered {f : Span → NodeId → Reading α} (hne : k ≠ .eof)
    (hf : ∀ t id, Lays n (a ++ [t]) Z (f t.span id)) :
    LaysAt k n a Z (do let s ← tokenSpan; let id ← freshId; f s id) := by
  intro c hc hn hprev hk
  have hword := Cursor.passed_advance hc (hk ▸ hne : c.kind ≠ .eof)
  have hid : c.advance.nextId = c.nextId := by
    unfold Cursor.advance
    split <;> rfl
  -- Behind the word one number more is gone.
  let d : Cursor := { c.advance with nextId := c.advance.nextId + 1 }
  have hd : c.Passed [c.current] d :=
    ⟨hword.doc, hword.tokens, hword.previous, Nat.le_of_eq (congrArg (· + 1) hid), hword.depth⟩
  obtain ⟨b, hb, hread⟩ := hf c.current c.advance.nextId d (hd.ended hc) (hd.depth.trans hn)
    (hd.previous_eq hprev)
  refine ⟨c.current :: b, hd.trans hb, fun x hx => ?_⟩
  rw [← List.append_cons] at hread
  exact hread x hx

end Steps

end Reading

end SmallScript
