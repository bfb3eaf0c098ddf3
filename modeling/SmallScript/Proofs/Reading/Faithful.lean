/-
  Faithful readings: what they pass is what they yield.

  `Faithful Y c r` is a statement about the outcome `r` of one reading begun at `c`: unless
  something was logged, `r` is a result that `Y` relates to the words between the two cursors.  So
  no word is skipped and none is read twice, and a reading that gives up has logged why.  What a
  reader does after a complaint, skipping words, dropping statements or giving up, is never looked
  into: only that its log never shrinks.

  `Sound n Y m` says it of a reader at depth `n`, wherever it begins, and `SoundAt k n Y m` where
  the word `k` comes next.  There is one lemma for each step and for each way of building a reader.
-/
import SmallScript.Proofs.Reading.Recursion

namespace SmallScript

/-! ## Words to come -/

namespace Cursor

/-- The words from the current one on. -/
def kinds (c : Cursor) : List Kind := c.kind :: c.later.map Token.kind

/-- The last word to come is the end of the text, and no other is. -/
def Ended (c : Cursor) : Prop := ∃ ks, c.kinds = ks ++ [.eof] ∧ .eof ∉ ks

/-- Going on logs nothing. -/
@[simp] theorem log_advance (c : Cursor) : c.advance.log = c.log := by
  unfold advance
  split <;> rfl

/-- Passing a word that is not the last. -/
theorem kinds_advance {c : Cursor} (h : c.later ≠ []) : c.kinds = c.kind :: c.advance.kinds := by
  unfold kinds advance
  cases hl : c.later with
  | nil => exact absurd hl h
  | cons t ts => rfl

/-- At the end there is nothing else to come. -/
theorem Ended.kinds_of_eof {c : Cursor} (h : c.Ended) (hk : c.kind = .eof) : c.kinds = [.eof] := by
  obtain ⟨ks, hks, hnot⟩ := h
  cases ks with
  | nil => exact hks
  | cons k ks =>
    have : c.kind = k := by
      unfold kinds at hks
      exact (List.cons.inj hks).1
    exact absurd (by rw [← this, hk]; exact List.mem_cons_self) hnot

/-- Before the end every word can be passed. -/
theorem Ended.advance {c : Cursor} (h : c.Ended) (hk : c.kind ≠ .eof) :
    c.kinds = c.kind :: c.advance.kinds ∧ c.advance.Ended := by
  obtain ⟨ks, hks, hnot⟩ := h
  have hlater : c.later ≠ [] := by
    intro hl
    unfold kinds at hks
    rw [hl] at hks
    cases ks with
    | nil => exact hk (List.cons.inj hks).1
    | cons k ks => exact absurd (List.cons.inj hks).2.symm (by simp)
  have hadvance := kinds_advance hlater
  refine ⟨hadvance, ?_⟩
  cases ks with
  | nil =>
    rw [hadvance] at hks
    exact absurd (List.cons.inj hks).1 hk
  | cons k ks =>
    rw [hadvance] at hks
    exact ⟨ks, (List.cons.inj hks).2, fun hmem => hnot (List.mem_cons_of_mem k hmem)⟩

/-- A list of tokens that is not empty is read from its first one on. -/
theorem kinds_ofTokens {tokens : List Token} {ks : List Kind} {k : Kind} (doc : Document)
    (h : tokens.map Token.kind = ks ++ [k]) : (ofTokens doc tokens).kinds = ks ++ [k] := by
  cases tokens with
  | nil => cases ks <;> cases h
  | cons t ts => exact h

/-- The parser starts with an empty log. -/
@[simp] theorem log_ofTokens (doc : Document) (tokens : List Token) :
    (ofTokens doc tokens).log = Log.empty := by
  cases tokens <;> rfl

@[simp] theorem depth_ofTokens (doc : Document) (tokens : List Token) :
    (ofTokens doc tokens).depth = 0 := by
  cases tokens <;> rfl

/-- The cursor where the reading of a token list stops. -/
def atStop (doc : Document) (tokens : List Token) : Cursor :=
  (Reading.programBody Reading.statement (ofTokens doc tokens).turns [] (ofTokens doc tokens)).2

end Cursor

namespace Parse

/-- The log of a parse is the one its statements leave. -/
theorem log_ofTokens (doc : Document) (tokens : List Token) :
    (ofTokens doc tokens).log = (Reading.programBody Reading.statement
      (Cursor.ofTokens doc tokens).turns [] (Cursor.ofTokens doc tokens)).2.log := rfl

/-- The statements of a program are collected from the back. -/
theorem stmts_ofTokens (doc : Document) (tokens : List Token) :
    (ofTokens doc tokens).program.stmts = (Reading.programBody Reading.statement
      (Cursor.ofTokens doc tokens).turns [] (Cursor.ofTokens doc tokens)).1.reverse := rfl

end Parse

namespace Reading

variable {α β : Type} {n : Nat} {k : Kind}

/-! ## Faithful readings -/

/-- The outcome `r` of a reading that began at `c`: if nothing was logged, it is a result whose
words, as `Y` tells them, are those that were passed. -/
structure Faithful (Y : α → List Kind → Prop) (c : Cursor) (r : Option α × Cursor) : Prop where
  ended : r.2.Ended
  depth : r.2.depth = c.depth
  total_le : c.log.total ≤ r.2.log.total
  read : r.2.log.total = c.log.total →
    ∃ x ks, r.1 = some x ∧ Y x ks ∧ c.kinds = ks ++ r.2.kinds

/-- At depth `n` a reader is faithful. -/
def Sound (n : Nat) (Y : α → List Kind → Prop) (m : Reading α) : Prop :=
  ∀ c, c.Ended → c.depth = n → Faithful Y c (m c)

/-- At depth `n` a reader is faithful where the word `k` comes next. -/
def SoundAt (k : Kind) (n : Nat) (Y : α → List Kind → Prop) (m : Reading α) : Prop :=
  ∀ c, c.Ended → c.depth = n → c.kind = k → Faithful Y c (m c)

/-- What is sound everywhere is sound behind every word. -/
theorem Sound.at {Y : α → List Kind → Prop} {m : Reading α} (h : Sound n Y m) (k : Kind) :
    SoundAt k n Y m :=
  fun c hc hn _ => h c hc hn

/-- Less may be said of what is read. -/
theorem Faithful.mono {Y Z : α → List Kind → Prop} {c : Cursor} {r : Option α × Cursor}
    (h : Faithful Y c r) (hYZ : ∀ x ks, Y x ks → Z x ks) : Faithful Z c r := by
  refine ⟨h.ended, h.depth, h.total_le, fun hquiet => ?_⟩
  obtain ⟨x, ks, hx, hY, hks⟩ := h.read hquiet
  exact ⟨x, ks, hx, hYZ x ks hY, hks⟩

theorem Sound.mono {Y Z : α → List Kind → Prop} {m : Reading α} (h : Sound n Y m)
    (hYZ : ∀ x ks, Y x ks → Z x ks) : Sound n Z m :=
  fun c hc hn => (h c hc hn).mono hYZ

/-- A reading that gives up has logged something. -/
theorem Faithful.logged {Y : α → List Kind → Prop} {c : Cursor} {r : Option α × Cursor}
    (h : Faithful Y c r) (hr : r.1 = none) : c.log.total < r.2.log.total := by
  rcases Nat.lt_or_eq_of_le h.total_le with hlt | heq
  · exact hlt
  · obtain ⟨x, ks, hx, -⟩ := h.read heq.symm
    rw [hr] at hx
    cases hx

/-- A reading that logs something is faithful if it does no harm. -/
theorem Faithful.of_logged {Y : α → List Kind → Prop} {c : Cursor} {r : Option α × Cursor}
    (ended : r.2.Ended) (depth : r.2.depth = c.depth) (h : c.log.total < r.2.log.total) :
    Faithful Y c r :=
  ⟨ended, depth, Nat.le_of_lt h, fun hquiet => absurd hquiet (by omega)⟩

/-- What follows a reading goes on with the words behind it. -/
theorem Faithful.bind {Y : α → List Kind → Prop} {Z : β → List Kind → Prop} {m : Reading α}
    {f : α → Reading β} {c : Cursor} (hm : Faithful Y c (m c))
    (hf : ∀ x a d, m c = (some x, d) → d.Ended → d.depth = c.depth →
      Faithful (fun y b => Y x a → Z y (a ++ b)) d (f x d)) :
    Faithful Z c ((m >>= f) c) := by
  change Faithful Z c (Reading.bind m f c)
  unfold Reading.bind
  rcases hr : m c with ⟨_ | x, d⟩
  · rw [hr] at hm
    exact .of_logged hm.ended hm.depth (hm.logged rfl)
  · rw [hr] at hm
    have hrest := fun a => hf x a d hr hm.ended hm.depth
    -- The log only grows, so if it is as it was at the end, it was so in between as well.
    refine ⟨(hrest []).ended, (hrest []).depth.trans hm.depth,
      Nat.le_trans hm.total_le (hrest []).total_le, fun hquiet => ?_⟩
    have hle : d.log.total ≤ (f x d).2.log.total := (hrest []).total_le
    have hle' : c.log.total ≤ d.log.total := hm.total_le
    dsimp only at hquiet
    obtain ⟨x', a, hx', hY, hca⟩ := hm.read (by change d.log.total = _; omega)
    cases hx'
    obtain ⟨y, b, hy, hZ, hdb⟩ := (hrest a).read (by omega)
    refine ⟨y, a ++ b, hy, hZ hY, ?_⟩
    rw [hca, List.append_assoc]
    exact congrArg (a ++ ·) hdb

/-- The words of two readings are those of the first and then those of the second. -/
theorem SoundAt.bind {Y : α → List Kind → Prop} {Z : β → List Kind → Prop} {m : Reading α}
    {f : α → Reading β} (hm : SoundAt k n Y m)
    (hf : ∀ x a, Sound n (fun y b => Y x a → Z y (a ++ b)) (f x)) : SoundAt k n Z (m >>= f) :=
  fun c hc hn hk => (hm c hc hn hk).bind fun x a d _ hd hdepth => hf x a d hd (hdepth.trans hn)

theorem Sound.bind {Y : α → List Kind → Prop} {Z : β → List Kind → Prop} {m : Reading α}
    {f : α → Reading β} (hm : Sound n Y m)
    (hf : ∀ x a, Sound n (fun y b => Y x a → Z y (a ++ b)) (f x)) : Sound n Z (m >>= f) :=
  fun c hc hn => (hm.at c.kind).bind hf c hc hn rfl

/-- What is made of a result is related to the same words. -/
theorem Sound.map {Y : α → List Kind → Prop} {Z : β → List Kind → Prop} {m : Reading α}
    {f : α → β} (hm : Sound n Y m) (hYZ : ∀ x ks, Y x ks → Z (f x) ks) : Sound n Z (f <$> m) := by
  refine hm.bind fun x a c hc _ => ⟨hc, rfl, Nat.le_refl _, fun _ => ⟨f x, [], rfl, ?_, rfl⟩⟩
  intro hY
  rw [List.append_nil]
  exact hYZ x a hY

/-- What is read one level deeper is sound one level deeper; at the limit it is refused. -/
theorem Sound.nested {Y : α → List Kind → Prop} {m : Reading α}
    (h : n < Cursor.maxDepth → Sound (n + 1) Y m) : Sound n Y (nested m) := by
  intro c hc hn
  unfold Reading.nested
  split
  · rename_i hlimit
    have hm := h (hn ▸ hlimit) { c with depth := c.depth + 1 } hc (congrArg (· + 1) hn)
    -- Words and log are those of the reading inside; only the depth is set back.
    refine ⟨hm.ended, ?_, hm.total_le, hm.read⟩
    change (m _).2.depth - 1 = c.depth
    rw [hm.depth]
    rfl
  · exact .of_logged hc rfl (Nat.lt_succ_self _)

/-! ## Steps -/

/-- A reading that stays where it is yields no words. -/
theorem faithful_same {Y : α → List Kind → Prop} {c : Cursor} {x : α} (hc : c.Ended)
    (h : Y x []) : Faithful Y c (some x, c) :=
  ⟨hc, rfl, Nat.le_refl _, fun _ => ⟨x, [], rfl, h, rfl⟩⟩

/-- A reading that complains has logged why. -/
theorem faithful_complain {Y : α → List Kind → Prop} {c : Cursor} {x : Option α} (hc : c.Ended)
    (code : Code) (message : String) (span : Span) (suggestion : Option String) :
    Faithful Y c (x, c.complain code message span suggestion) :=
  .of_logged hc rfl (Nat.lt_succ_self _)

/-- Reading one word. -/
theorem faithful_advance {c : Cursor} {x : α} (hc : c.Ended) (hk : c.kind = k) (hne : k ≠ .eof) :
    Faithful (fun y ks => y = x ∧ ks = [k]) c (some x, c.advance) := by
  obtain ⟨hkinds, hended⟩ := hc.advance (hk ▸ hne)
  refine ⟨hended, depth_advance c, Nat.le_of_eq (congrArg Log.total c.log_advance.symm), ?_⟩
  rw [hk] at hkinds
  exact fun _ => ⟨x, [k], rfl, ⟨rfl, rfl⟩, hkinds⟩

/-- What reads nothing yields no words. -/
theorem sound_pure {Y : α → List Kind → Prop} {x : α} (h : Y x []) :
    Sound n Y (pure x : Reading α) :=
  fun _ hc _ => faithful_same hc h

/-- A reading that takes no more words keeps what it has. -/
theorem sound_keep {Y : α → List Kind → Prop} {x : α} {a : List Kind} :
    Sound n (fun y b => Y x a → Y y (a ++ b)) (pure x : Reading α) := by
  refine sound_pure fun hx => ?_
  rw [List.append_nil]
  exact hx

/-- A reading that is refused complains. -/
theorem sound_refuse {Y : α → List Kind → Prop} (code : Code) (message : Kind → String) :
    Sound n Y (refuse code message) :=
  fun _ hc _ => faithful_complain hc _ _ _ _

/-- A token yields its word. -/
theorem soundAt_token {Z : β → List Kind → Prop} {f : Token → Reading β} (hne : k ≠ .eof)
    (hf : ∀ t, Sound n (fun y b => Z y (k :: b)) (f t)) : SoundAt k n Z (token >>= f) := by
  have hword : SoundAt k n (fun _ ks => ks = [k]) token :=
    fun _ hc _ hk => (faithful_advance hc hk hne).mono fun _ _ h => h.2
  refine hword.bind fun t a => (hf t).mono ?_
  rintro y b hy rfl
  exact hy

/-- What begins with reading a word goes on behind it. -/
theorem soundAt_tokenSpan {Z : β → List Kind → Prop} {f : Span → Reading β} (hne : k ≠ .eof)
    (hf : ∀ s, Sound n (fun y b => Z y (k :: b)) (f s)) : SoundAt k n Z (tokenSpan >>= f) := by
  have hword : SoundAt k n (fun _ ks => ks = [k]) tokenSpan :=
    fun _ hc _ hk => (faithful_advance hc hk hne).mono fun _ _ h => h.2
  refine hword.bind fun s a => (hf s).mono ?_
  rintro y b hy rfl
  exact hy

/-- A symbol that must be there yields it, or is complained about. -/
theorem sound_expect (s : Symbol) : Sound n (fun _ ks => ks = [.symbol s]) (expect s) := by
  intro c hc _
  unfold expect
  split
  · rename_i hk
    exact (faithful_advance hc hk nofun).mono fun _ _ h => h.2
  · exact faithful_complain hc _ _ _ _

/-- So does the semicolon behind a statement. -/
theorem sound_endStatement :
    Sound n (fun _ ks => ks = [.symbol .semicolon]) endStatement := by
  intro c hc _
  unfold endStatement
  split
  · rename_i hk
    exact (faithful_advance hc hk nofun).mono fun _ _ h => h.2
  · exact faithful_complain hc _ _ _ _

/-- A name yields its word. -/
theorem sound_identifier : Sound n (fun x ks => ks = [.identifier x.name]) identifier := by
  intro c hc _
  unfold identifier
  split
  · rename_i name hk
    refine (faithful_advance hc hk nofun).mono ?_
    rintro x ks ⟨rfl, rfl⟩
    rfl
  · exact faithful_complain hc _ _ _ _
  · exact faithful_complain hc _ _ _ _

/-- A symbol that may be missing yields a word or none. -/
theorem sound_eat (s : Symbol) :
    Sound n (fun b ks => ks = if b then [.symbol s] else []) (eat s) := by
  intro c hc _
  unfold eat
  split
  · rename_i hk
    refine (faithful_advance hc hk nofun).mono ?_
    rintro x ks ⟨rfl, rfl⟩
    rfl
  · exact faithful_same hc rfl

theorem faithful_eatKeyword {c : Cursor} (hc : c.Ended) (kw : Keyword) :
    Faithful (fun b ks => (ks = if b then [.keyword kw] else []) ∧ (b = true → c.kind = .keyword kw))
      c (eatKeyword kw c) := by
  unfold eatKeyword
  split
  · rename_i hk
    refine (faithful_advance hc hk nofun).mono ?_
    rintro x ks ⟨rfl, rfl⟩
    exact ⟨rfl, fun _ => hk⟩
  · exact faithful_same hc ⟨rfl, nofun⟩

/-- Handing out a number yields none. -/
theorem sound_freshId : Sound n (fun _ ks => ks = []) freshId :=
  fun _ hc _ => ⟨hc, rfl, Nat.le_refl _, fun _ => ⟨_, [], rfl, rfl, rfl⟩⟩

/-- Looking yields none either. -/
theorem sound_look (f : Cursor → α) : Sound n (fun _ ks => ks = []) (look f) :=
  fun _ hc _ => faithful_same hc rfl

theorem sound_previous : Sound n (fun _ ks => ks = []) previous := sound_look _

/-- Complaining in some cases and reading on. -/
theorem faithful_complainIf {c : Cursor} (hc : c.Ended) (p : Cursor → Bool) (code : Code)
    (message : String) (span : Cursor → Span) :
    Faithful (fun _ ks => ks = [] ∧ p c = false) c
      (move (fun c => if p c then c.complain code message (span c) none else c) c) := by
  show Faithful _ c (some (), if p c then c.complain code message (span c) none else c)
  cases p c with
  | true => exact faithful_complain hc _ _ _ _
  | false => exact faithful_same hc ⟨rfl, rfl⟩

/-- A reader that looks at the next word is sound if it is sound at every word. -/
theorem sound_byKind {Z : β → List Kind → Prop} {f : Kind → Reading β}
    (h : ∀ k, SoundAt k n Z (f k)) : Sound n Z (look Cursor.kind >>= f) :=
  fun c hc hn => h c.kind c hc hn rfl

/-- A choice by two words is sound if it is sound behind each first word. -/
theorem sound_byKinds {Z : β → List Kind → Prop} {f : Kind × Kind → Reading β}
    (h : ∀ k next, SoundAt k n Z (f (k, next))) :
    Sound n Z (look (fun c => (c.kind, c.nextKind)) >>= f) :=
  fun c hc hn => h c.kind c.nextKind c hc hn rfl

/-- A reader that asks for a symbol goes on in one way before it and in another elsewhere. -/
theorem sound_at? {Z : β → List Kind → Prop} {s : Symbol} {f : Bool → Reading β}
    (hyes : SoundAt (.symbol s) n Z (f true)) (hno : Sound n Z (f false)) :
    Sound n Z (at? s >>= f) := by
  intro c hc hn
  show Faithful Z c (f (decide (c.kind = .symbol s)) c)
  by_cases hk : c.kind = .symbol s
  · rw [decide_eq_true hk]
    exact hyes c hc hn hk
  · rw [decide_eq_false hk]
    exact hno c hc hn

/-! ## Chains of operands -/

/-- Operators that join to the left: what they join on the left is of the relation `Z`, and so is
what they yield. -/
def Joins (join? : Kind → Option (α → α → α)) (Y Z : α → List Kind → Prop) : Prop :=
  ∀ k join, join? k = some join →
    k ≠ .eof ∧ ∀ x a y b, Z x a → Y y b → Z (join x y) (a ++ k :: b)

/-- A single word that joins. -/
theorem joins_word {Y Z : α → List Kind → Prop} {w : Kind} {join : α → α → α} (hne : w ≠ .eof)
    (hrule : ∀ x a y b, Z x a → Y y b → Z (join x y) (a ++ w :: b)) :
    Joins (fun k => if k = w then some join else none) Y Z := by
  intro k join' (hjoin : (if k = w then some join else none) = some join')
  by_cases hk : k = w
  · rw [if_pos hk] at hjoin
    cases hjoin
    rw [hk]
    exact ⟨hne, hrule⟩
  · rw [if_neg hk] at hjoin
    cases hjoin

/-- By induction on the turns: an operator and an operand stand behind what was read. -/
theorem sound_chainFrom {join? : Kind → Option (α → α → α)} {Y Z : α → List Kind → Prop}
    {operand : Reading α} (hop : Sound n Y operand) (hjoin : Joins join? Y Z) (turns : Nat) :
    ∀ left a, Sound n (fun z b => Z left a → Z z (a ++ b)) (chainFrom join? operand turns left) := by
  induction turns with
  | zero => exact fun left a => sound_keep
  | succ turns ih =>
    intro left a
    refine sound_byKind fun k => ?_
    cases hk : join? k with
    | none => exact sound_keep.at k
    | some join =>
      obtain ⟨hne, hjoin⟩ := hjoin k join hk
      refine soundAt_token hne fun _ => hop.bind fun right b => ?_
      -- The left operand has grown by the operator and the right operand.
      refine (ih (join left right) (a ++ k :: b)).mono fun z js hz hright hleft => ?_
      have := hz (hjoin left a right b hleft hright)
      rw [List.append_assoc] at this
      exact this

/-- A chain is sound for a relation that an operand has on its own and that joining keeps. -/
theorem sound_chain {join? : Kind → Option (α → α → α)} {Y Z : α → List Kind → Prop}
    {operand : Reading α} (hop : Sound n Y operand) (hfirst : ∀ x a, Y x a → Z x a)
    (hjoin : Joins join? Y Z) : Sound n Z (chain join? operand) := by
  refine hop.bind fun first a c hc hn => ?_
  have hrest := sound_chainFrom hop hjoin c.turns first a c hc hn
  exact hrest.mono fun z b hz hY => hz (hfirst first a hY)

/-! ## Items with commas between them -/

/-- Items and their words, with commas between them and perhaps one behind the last.  An item is
judged by `P`, which is told the items before it, the nearest first. -/
inductive Separated (P : List α → α → List Kind → Prop) : List α → List α → List Kind → Prop where
  | none {before} : Separated P before [] []
  | last {before x ks} : P before x ks → Separated P before [x] ks
  | next {before x xs ks js} : P before x ks → Separated P (x :: before) xs js →
      Separated P before (x :: xs) (ks ++ .symbol .comma :: js)

/-- By induction on the turns: items with commas between them, up to the closing symbol. -/
theorem sound_itemsFrom {P : List α → α → List Kind → Prop} {item : List α → Reading α}
    (hitem : ∀ before, Sound n (P before) (item before)) (close : Symbol) (turns : Nat) :
    ∀ before, Sound n (fun xs ks => ∃ ys, xs = ys.reverse ++ before ∧ Separated P before ys ks)
      (itemsFrom close item turns before) := by
  -- Running out of turns is as harmless as a closing symbol: what comes next then is no such
  -- symbol, and `expect` complains.
  induction turns with
  | zero => exact fun before => sound_pure ⟨[], rfl, .none⟩
  | succ turns ih =>
    intro before
    refine (sound_look _).bind fun closing a => ?_
    split
    · refine sound_pure fun ha => ⟨[], rfl, ?_⟩
      rw [ha]
      exact .none
    · refine (hitem before).bind fun x b => (sound_eat .comma).bind fun more d => ?_
      split
      · refine (ih (x :: before)).mono ?_
        rintro xs js ⟨ys, rfl, hys⟩ hd hx ha
        refine ⟨x :: ys, by rw [List.reverse_cons, List.append_assoc]; rfl, ?_⟩
        rw [ha, hd]
        exact .next hx hys
      · refine sound_pure fun hd hx ha => ⟨[x], rfl, ?_⟩
        rw [ha, hd]
        change Separated P before [x] (b ++ [])
        rw [List.append_nil]
        exact .last hx

/-- So a list of items yields its items, with commas, and the symbol that closes it. -/
theorem sound_items {P : List α → α → List Kind → Prop} {item : List α → Reading α}
    (hitem : ∀ before, Sound n (P before) (item before)) (close : Symbol) :
    Sound n (fun xs ks => ∃ js, ks = js ++ [.symbol close] ∧ Separated P [] xs js)
      (items close item) := by
  refine (sound_look _).bind fun turns a => ?_
  refine (sound_itemsFrom hitem close turns []).bind fun read b => ?_
  refine (sound_expect close).bind fun _ d => sound_pure ?_
  rintro hd ⟨xs, rfl, hxs⟩ ha
  refine ⟨b, by rw [ha, hd]; rfl, ?_⟩
  rw [List.append_nil, List.reverse_reverse]
  exact hxs

end Reading

end SmallScript
