/-
  Reading comes to an end.

  The readers are bounded twice over: each loop is given as many turns as there are tokens to come,
  and the calls of one reader by another count down a number.  Neither bound is ever felt.  That of the
  calls is not because the nesting limit is met first, whatever would be done beneath it
  (`above_fuel`).  As for the loops, `Completes turn s r` says that a loop which takes one turn after the
  other, for as long as `turn` tells it to, ends with `r`; and each loop of the readers does, since
  a turn passes at least one token and the end is never passed.

  Numbers are handed out behind tokens only, so there are fewer of them than tokens
  (`numbers_in_order`).
-/
import SmallScript.Proofs.Reading.Containment

namespace SmallScript

/-! ## Loops -/

section Loops

variable {σ ρ : Type} {turn : σ → σ ⊕ ρ} {s : σ} {r r' : ρ}

/-- The loop that goes on from a state to the next, or ends with a result, as `turn` tells, ends
with `r` when it begins at `s`. -/
inductive Completes (turn : σ → σ ⊕ ρ) : σ → ρ → Prop where
  | last {s : σ} {r : ρ} : turn s = .inr r → Completes turn s r
  | next {s t : σ} {r : ρ} : turn s = .inl t → Completes turn t r → Completes turn s r

/-- A loop has at most one result. -/
theorem Completes.unique (h : Completes turn s r) (h' : Completes turn s r') : r = r' := by
  induction h with
  | last hs =>
    cases h' with
    | last hs' =>
      rw [hs] at hs'
      exact Sum.inr.inj hs'
    | next hs' _ =>
      rw [hs] at hs'
      cases hs'
  | next hs _ ih =>
    cases h' with
    | last hs' =>
      rw [hs] at hs'
      cases hs'
    | next hs' hrest =>
      rw [hs] at hs'
      exact ih (Sum.inl.inj hs' ▸ hrest)

/-- The same loop with at most so many turns; `out` is the result when there are none left. -/
def takeTurns (turn : σ → σ ⊕ ρ) (out : σ → ρ) : Nat → σ → ρ
  | 0, s => out s
  | n + 1, s =>
    match turn s with
    | .inl t => takeTurns turn out n t
    | .inr r => r

/-- Where each turn lessens a measure, more turns than it counts are enough. -/
theorem completes_takeTurns {out : σ → ρ} (size : σ → Nat) {P : σ → Prop}
    (hturn : ∀ s t, P s → turn s = .inl t → P t ∧ size t < size s) (n : Nat) :
    ∀ s, P s → size s < n → Completes turn s (takeTurns turn out n s) := by
  induction n with
  | zero => exact fun s _ hn => absurd hn (Nat.not_lt_zero _)
  | succ n ih =>
    intro s hs hn
    unfold takeTurns
    cases ht : turn s with
    | inl t =>
      obtain ⟨hP, hlt⟩ := hturn s t hs ht
      exact .next ht (ih t hP (Nat.lt_of_lt_of_le hlt (Nat.le_of_lt_succ hn)))
    | inr r => exact .last ht

end Loops

/-! ## Tokens to come -/

/-- The tokens to come are those that were passed, and those still to come. -/
theorem Cursor.Passed.length_later {c d : Cursor} {ts : List Token} (h : c.Passed ts d) :
    c.later.length = ts.length + d.later.length := by
  have hlength := congrArg List.length h.tokens
  rw [List.length_append, Cursor.length_tokens, Cursor.length_tokens] at hlength
  unfold Cursor.turns at hlength
  omega

/-- So fewer are to come once one was passed. -/
theorem Cursor.Passed.later_lt {c d : Cursor} {ts : List Token} (h : c.Passed ts d)
    (hne : ts ≠ []) : d.later.length < c.later.length := by
  have := h.length_later
  have := List.length_pos_of_ne_nil hne
  omega

namespace Reading

variable {α : Type} {k : Kind}

/-- Wherever it begins, the reader gets past some tokens, though never past the end. -/
def Forward (m : Reading α) : Prop := ∀ c : Cursor, c.Ended → ∃ ts, c.Passed ts (m c).2

/-- What lays its result over tokens goes forward. -/
theorem Lays.forward {Z : α → List Token → Prop} {m : Reading α} (h : ∀ n, Lays n [] Z m) :
    Forward m := by
  intro c hc
  obtain ⟨ts, hts, -⟩ := h c.depth c hc rfl nofun
  exact ⟨ts, hts⟩

/-- Expressions go forward. -/
theorem forward_expression : Forward expression := Lays.forward fun n => (lays_tree n).1

/-! ## One turn of each loop -/

section Turns

/-- One turn of reading a chain: an operator and its right operand. -/
def chainTurn (join? : Kind → Option (α → α → α)) (operand : Reading α) :
    α × Cursor → (α × Cursor) ⊕ (Option α × Cursor)
  | (left, c) =>
    match join? c.kind with
    | none => .inr (some left, c)
    | some join =>
      match operand c.advance with
      | (some right, d) => .inl (join left right, d)
      | (none, d) => .inr (none, d)

/-- One turn of reading items: an item and the comma behind it. -/
def itemsTurn (close : Symbol) (item : List α → Reading α) :
    List α × Cursor → (List α × Cursor) ⊕ (Option (List α) × Cursor)
  | (before, c) =>
    if c.kind = .symbol close then .inr (some before, c)
    else
      match item before c with
      | (some x, d) =>
        if d.kind = .symbol .comma then .inl (x :: before, d.advance)
        else .inr (some (x :: before), d)
      | (none, d) => .inr (none, d)

/-- One turn of reading suffixes: a call or a property. -/
def suffixTurn (expr : Reading Expr) : Expr × Cursor → (Expr × Cursor) ⊕ (Option Expr × Cursor)
  | (target, c) =>
    if c.kind = .symbol .lparen then
      match items .rparen (fun _ => expr) c.advance with
      | (some args, d) => .inl (.call (target.span.cover d.previous) target args, d)
      | (none, d) => .inr (none, d)
    else if c.kind = .symbol .dot then
      match identifier c.advance with
      | (some name, d) => .inl (.property (target.span.cover name.span) target name, d)
      | (none, d) => .inr (none, d)
    else .inr (some target, c)

/-- One turn of skipping to the next statement. -/
def resyncTurn (c : Cursor) : Cursor ⊕ Cursor :=
  if c.atEnd then .inr c
  else if c.kind = .symbol .semicolon then .inr c.advance
  else if c.kind = .symbol .rbrace || c.kind.startsStatement then .inr c
  else .inl c.advance

/-- One turn of reading the statements of a block. -/
def blockTurn (statement : Reading Stmt) :
    List Stmt × Cursor → (List Stmt × Cursor) ⊕ (List Stmt × Cursor)
  | (before, c) =>
    if c.kind = .symbol .rbrace || c.atEnd || c.log.isFull then .inr (before, c)
    else .inl (statementOrSkip statement before c)

/-- One turn of reading the statements of a text. -/
def programTurn (statement : Reading Stmt) :
    List Stmt × Cursor → (List Stmt × Cursor) ⊕ (List Stmt × Cursor)
  | (before, c) =>
    if c.atEnd || c.log.isFull then .inr (before, c)
    else if c.kind = .symbol .rbrace then
      .inl (before, (c.complainHere .unexpectedToken "unmatched '\x7d'").advance)
    else .inl (statementOrSkip statement before c)

/-- A chain takes its turns as long as an operator follows. -/
theorem chainFrom_eq (join? : Kind → Option (α → α → α)) (operand : Reading α) (turns : Nat)
    (left : α) (c : Cursor) : chainFrom join? operand turns left c =
      takeTurns (chainTurn join? operand) (fun s => (some s.1, s.2)) turns (left, c) := by
  induction turns generalizing left c with
  | zero => rfl
  | succ turns ih =>
    rw [chainFrom, takeTurns, chainTurn]
    show Reading.bind _ _ c = _
    unfold Reading.bind
    dsimp only [look]
    cases join? c.kind with
    | none => rfl
    | some join =>
      show Reading.bind operand _ c.advance = _
      unfold Reading.bind
      rcases operand c.advance with ⟨_ | right, d⟩
      · rfl
      · exact ih (join left right) d

/-- Items are read as long as commas follow. -/
theorem itemsFrom_eq (close : Symbol) (item : List α → Reading α) (turns : Nat)
    (before : List α) (c : Cursor) : itemsFrom close item turns before c =
      takeTurns (itemsTurn close item) (fun s => (some s.1, s.2)) turns (before, c) := by
  induction turns generalizing before c with
  | zero => rfl
  | succ turns ih =>
    rw [takeTurns, itemsTurn]
    by_cases hclose : c.kind = .symbol close
    · have hat : at? close c = (some true, c) :=
        congrArg (fun b => (some b, c)) (decide_eq_true hclose)
      rw [itemsFrom, bind_of_some hat, if_pos hclose]
      rfl
    · rw [if_neg hclose]
      rcases hx : item before c with ⟨_ | x, d⟩
      · have hat : at? close c = (some false, c) :=
          congrArg (fun b => (some b, c)) (decide_eq_false hclose)
        rw [itemsFrom, bind_of_some hat]
        show Reading.bind (item before) _ c = _
        unfold Reading.bind
        rw [hx]
      · rw [itemsFrom_step hclose hx]
        by_cases hcomma : d.kind = .symbol .comma
        · simp only [if_pos hcomma]
          exact ih _ _
        · simp only [if_neg hcomma]

/-- Suffixes are read as long as a point or a parenthesis follows. -/
theorem suffixes_eq (expr : Reading Expr) (turns : Nat) (target : Expr) (c : Cursor) :
    suffixes expr turns target c =
      takeTurns (suffixTurn expr) (fun s => (some s.1, s.2)) turns (target, c) := by
  induction turns generalizing target c with
  | zero => rfl
  | succ turns ih =>
    rw [suffixes, takeTurns, suffixTurn]
    show Reading.bind _ _ c = _
    unfold Reading.bind
    dsimp only [look]
    by_cases hcall : c.kind = .symbol .lparen
    · rw [if_pos hcall, hcall]
      show Reading.bind (items .rparen fun _ => expr) _ c.advance = _
      unfold Reading.bind
      rcases items .rparen (fun _ => expr) c.advance with ⟨_ | args, d⟩
      · rfl
      · exact ih _ _
    · rw [if_neg hcall]
      by_cases hdot : c.kind = .symbol .dot
      · rw [if_pos hdot, hdot]
        show Reading.bind identifier _ c.advance = _
        unfold Reading.bind
        rcases identifier c.advance with ⟨_ | name, d⟩
        · rfl
        · exact ih _ _
      · rw [if_neg hdot]
        generalize c.kind = k at hcall hdot
        split
        · exact absurd rfl hcall
        · exact absurd rfl hdot
        · rfl

/-- Tokens are skipped up to one that ends or begins a statement. -/
theorem resync_eq (turns : Nat) (c : Cursor) : resync turns c = takeTurns resyncTurn id turns c := by
  induction turns generalizing c with
  | zero => rfl
  | succ turns ih =>
    rw [resync, takeTurns, resyncTurn]
    split
    · rfl
    · split
      · rfl
      · split
        · rfl
        · exact ih _

/-- Statements are read up to a brace or the end. -/
theorem blockBody_eq (statement : Reading Stmt) (turns : Nat) (before : List Stmt) (c : Cursor) :
    blockBody statement turns before c =
      takeTurns (blockTurn statement) id turns (before, c) := by
  induction turns generalizing before c with
  | zero => rfl
  | succ turns ih =>
    rw [blockBody, takeTurns, blockTurn]
    split
    · rfl
    · exact ih _ _

/-- Statements are read up to the end. -/
theorem programBody_eq (statement : Reading Stmt) (turns : Nat) (before : List Stmt) (c : Cursor) :
    programBody statement turns before c =
      takeTurns (programTurn statement) id turns (before, c) := by
  induction turns generalizing before c with
  | zero => rfl
  | succ turns ih =>
    rw [programBody, takeTurns, programTurn]
    split
    · rfl
    · split
      · exact ih _ _
      · exact ih _ _

end Turns

/-! ## Every loop comes to its end -/

section Passes

variable {σ ρ : Type} {turn : σ → σ ⊕ ρ} {out : σ → ρ}

/-- A turn that does not end the loop passes tokens. -/
def Passes (place : σ → Cursor) (turn : σ → σ ⊕ ρ) : Prop :=
  ∀ s t, (place s).Ended → turn s = .inl t → ∃ ts, ts ≠ [] ∧ (place s).Passed ts (place t)

/-- There are never more turns than tokens to come. -/
theorem Passes.completes {place : σ → Cursor} (h : Passes place turn) {s : σ}
    (hs : (place s).Ended) {n : Nat} (hn : (place s).turns ≤ n) :
    Completes turn s (takeTurns turn out n s) := by
  refine completes_takeTurns (fun s => (place s).later.length) (P := fun s => (place s).Ended)
    (fun s t hs ht => ?_) n s hs hn
  obtain ⟨ts, hne, hts⟩ := h s t hs ht
  exact ⟨hts.ended hs, hts.later_lt hne⟩

/-- Turns that are not needed make no difference. -/
theorem Passes.enough {place : σ → Cursor} (h : Passes place turn) {s : σ} (hs : (place s).Ended)
    {n : Nat} (hn : (place s).turns ≤ n) :
    takeTurns turn out n s = takeTurns turn out (place s).turns s :=
  (h.completes hs hn).unique (h.completes hs (Nat.le_refl _))

end Passes

section Loops

variable {join? : Kind → Option (α → α → α)} {operand : Reading α} {close : Symbol}
  {item : List α → Reading α}

/-- A turn of a chain passes an operator at least. -/
theorem passes_chainTurn (hjoin : join? .eof = none) (ho : Forward operand) :
    Passes Prod.snd (chainTurn join? operand) := by
  rintro ⟨left, c⟩ t hc ht
  unfold chainTurn at ht
  dsimp only at ht
  cases hk : join? c.kind with
  | none =>
    rw [hk] at ht
    cases ht
  | some join =>
    have hword := Cursor.passed_advance hc fun heof => by
      rw [heof, hjoin] at hk
      cases hk
    obtain ⟨ts, hts⟩ := ho c.advance (hword.ended hc)
    rw [hk] at ht
    dsimp only at ht
    rcases hr : operand c.advance with ⟨_ | right, d⟩
    · rw [hr] at ht
      cases ht
    · rw [hr] at ht hts
      cases ht
      exact ⟨_, List.cons_ne_nil _ _, hword.trans hts⟩

/-- A turn of a list passes its item at least. -/
theorem passes_itemsTurn (hitem : ∀ before, Forward (item before)) :
    Passes Prod.snd (itemsTurn close item) := by
  rintro ⟨before, c⟩ t hc ht
  unfold itemsTurn at ht
  dsimp only at ht
  split at ht
  · cases ht
  · obtain ⟨ts, hts⟩ := hitem before c hc
    rcases hr : item before c with ⟨_ | x, d⟩
    · rw [hr] at ht
      cases ht
    · rw [hr] at ht hts
      dsimp only at ht
      split at ht
      · rename_i hcomma
        cases ht
        have hword := Cursor.passed_advance (hts.ended hc) (hcomma ▸ nofun : d.kind ≠ .eof)
        exact ⟨_, List.append_ne_nil_of_right_ne_nil ts (List.cons_ne_nil _ _), hts.trans hword⟩
      · cases ht

/-- So lists go forward. -/
theorem forward_items (hitem : ∀ before, Forward (item before)) : Forward (items close item) :=
  Lays.forward fun n => (lays_items (f := fun _ => [])
    fun before c hc hn _ => by
      obtain ⟨ts, hts⟩ := hitem before c hc
      exact ⟨ts, hts, fun _ _ => laid_nil _⟩)

/-- A turn of the suffixes passes a point or a parenthesis. -/
theorem passes_suffixTurn {expr : Reading Expr} (he : Forward expr) :
    Passes Prod.snd (suffixTurn expr) := by
  rintro ⟨target, c⟩ t hc ht
  unfold suffixTurn at ht
  dsimp only at ht
  split at ht
  · rename_i hcall
    have hword := Cursor.passed_advance hc (hcall ▸ nofun : c.kind ≠ .eof)
    have hargs : Forward (items .rparen fun _ => expr) := forward_items fun _ => he
    obtain ⟨ts, hts⟩ := hargs c.advance (hword.ended hc)
    rcases hr : items .rparen (fun _ => expr) c.advance with ⟨_ | args, d⟩
    · rw [hr] at ht
      cases ht
    · rw [hr] at ht hts
      cases ht
      exact ⟨_, List.cons_ne_nil _ _, hword.trans hts⟩
  · split at ht
    · rename_i hdot
      have hword := Cursor.passed_advance hc (hdot ▸ nofun : c.kind ≠ .eof)
      obtain ⟨ts, hts, -⟩ := lays_identifier (a := []) c.advance (hword.ended hc) rfl nofun
      rcases hr : identifier c.advance with ⟨_ | name, d⟩
      · rw [hr] at ht
        cases ht
      · rw [hr] at ht hts
        cases ht
        exact ⟨_, List.cons_ne_nil _ _, hword.trans hts⟩
    · cases ht

/-- A turn of skipping passes one token. -/
theorem passes_resyncTurn : Passes id resyncTurn := by
  intro c t hc ht
  unfold resyncTurn at ht
  split at ht
  · cases ht
  · rename_i hend
    split at ht
    · cases ht
    · split at ht
      · cases ht
      · cases ht
        have hne : c.kind ≠ .eof := fun hk => hend (by rw [Cursor.atEnd, hk]; rfl)
        exact ⟨_, List.cons_ne_nil _ _, Cursor.passed_advance hc hne⟩

/-- A statement is read, or at least one token is skipped. -/
theorem passed_statementOrSkip (before : List Stmt) {c : Cursor} (hc : c.Ended)
    (hend : ¬c.atEnd = true) :
    ∃ ts, ts ≠ [] ∧ c.Passed ts (statementOrSkip statement before c).2 := by
  obtain ⟨ts, hts, hne⟩ := laidList_statementOrSkip (lays_statement c.depth) before hc rfl
  exact ⟨ts, hne fun hk => hend (by rw [Cursor.atEnd, hk]; rfl), hts.1⟩

/-- A turn of a block passes a statement, or skips something. -/
theorem passes_blockTurn : Passes Prod.snd (blockTurn statement) := by
  rintro ⟨before, c⟩ t hc ht
  unfold blockTurn at ht
  dsimp only at ht
  split at ht
  · cases ht
  · rename_i hgo
    cases ht
    exact passed_statementOrSkip before hc fun hend => hgo (by simp [hend])

/-- So does a turn of a document. -/
theorem passes_programTurn : Passes Prod.snd (programTurn statement) := by
  rintro ⟨before, c⟩ t hc ht
  unfold programTurn at ht
  dsimp only at ht
  split at ht
  · cases ht
  · rename_i hgo
    split at ht
    · rename_i hbrace
      cases ht
      exact ⟨_, List.cons_ne_nil _ _, passed_unmatched hc hbrace _⟩
    · cases ht
      exact passed_statementOrSkip before hc fun hend => hgo (by simp [hend])

/-- The statements of a text are read up to its end, unless the log is full before. -/
theorem stop_of_completes {s r : List Stmt × Cursor}
    (h : Completes (programTurn statement) s r) : r.2.kind = .eof ∨ Log.capacity ≤ r.2.log.total := by
  induction h with
  | @last s r hlast =>
    unfold programTurn at hlast
    split at hlast
    rename_i before c
    split at hlast
    · rename_i hstop
      cases hlast
      simpa [Cursor.atEnd, Log.isFull] using hstop
    · split at hlast <;> cases hlast
  | next _ _ ih => exact ih

end Loops

/-- Wherever a reader is called, there are tokens that it passes. -/
theorem Called.laysAt {m : Reading α} (h : Called k m) (n : Nat) : ∃ Z, LaysAt k n [] Z m := by
  obtain ⟨he, hs, ho⟩ := lays_tree n
  have hb := lays_block hs
  cases h with
  | statement => exact ⟨_, hs.at k⟩
  | statementBody => exact ⟨_, (lays_statementBody he hs).at k⟩
  | block => exact ⟨_, hb.at k⟩
  | definition => exact ⟨_, laysAt_definition hb⟩
  | conditional => exact ⟨_, laysAt_conditional he hs⟩
  | whileLoop => exact ⟨_, laysAt_whileLoop he hs⟩
  | forLoop => exact ⟨_, laysAt_forLoop he hs⟩
  | returning => exact ⟨_, laysAt_returning he⟩
  | «break» => exact ⟨_, laysAt_jump nofun fun _ => rfl⟩
  | «continue» => exact ⟨_, laysAt_jump nofun fun _ => rfl⟩
  | writing => exact ⟨_, laysAt_writing he⟩
  | simple => exact ⟨_, (lays_simple he).at k⟩
  | condition => exact ⟨_, (lays_condition he).at k⟩
  | declaration => exact ⟨_, (lays_declaration hb).at k⟩
  | params => exact ⟨_, lays_params.at k⟩
  | expression => exact ⟨_, he.at k⟩
  | disjunction => exact ⟨_, (lays_disjunction ho).at k⟩
  | conjunction => exact ⟨_, (lays_conjunction ho).at k⟩
  | coalescing => exact ⟨_, (lays_coalescing ho).at k⟩
  | comparison => exact ⟨_, (lays_comparison ho).at k⟩
  | additive => exact ⟨_, (lays_additive ho).at k⟩
  | multiplicative => exact ⟨_, (lays_multiplicative ho).at k⟩
  | prefixed => exact ⟨_, ho.at k⟩
  | suffixed => exact ⟨_, (lays_suffixed he hb).at k⟩
  | primary => exact ⟨_, (lays_primary he hb).at k⟩
  | parenthesized => exact ⟨_, laysAt_parenthesized he⟩
  | listLiteral => exact ⟨_, laysAt_listLiteral he⟩
  | objectLiteral => exact ⟨_, laysAt_objectLiteral he⟩
  | lambda => exact ⟨_, laysAt_lambda hb⟩
  | member => exact ⟨_, (lays_member he).at k⟩
  | items => exact ⟨_, (lays_items fun _ => he.mono fun _ _ h => h.2).at k⟩
  | members => exact ⟨_, (lays_items fun _ => lays_member he).at k⟩

/-- No reader ever runs out of what it is bounded by. -/
structure BoundsSuffice : Prop where
  /-- It makes no difference what is done when no more calls are left. -/
  calls (bottom : Readers) : bottom.above fuel = ⟨expression, prefixed, statement⟩
  chains {α : Type} {join? : Kind → Option (α → α → α)} {operand : Reading α} (left : α)
    {c : Cursor} : join? .eof = none → Forward operand → c.Ended →
      Completes (chainTurn join? operand) (left, c) (chainFrom join? operand c.turns left c)
  items {α : Type} (close : Symbol) {item : List α → Reading α} (before : List α) {c : Cursor} :
    (∀ before, Forward (item before)) → c.Ended →
      Completes (itemsTurn close item) (before, c) (itemsFrom close item c.turns before c)
  parameters (before : List String) : Forward (parameter before)
  suffixes (target : Expr) {c : Cursor} : c.Ended →
    Completes (suffixTurn expression) (target, c) (suffixes expression c.turns target c)
  skips {c : Cursor} : c.Ended → Completes resyncTurn c (resync c.turns c)
  blocks (before : List Stmt) {c : Cursor} : c.Ended →
    Completes (blockTurn statement) (before, c) (blockBody statement c.turns before c)
  texts (before : List Stmt) {c : Cursor} : c.Ended →
    Completes (programTurn statement) (before, c) (programBody statement c.turns before c)

/-- So no bound is ever felt. -/
theorem bounds_suffice : BoundsSuffice where
  calls := above_fuel
  chains left c hjoin ho hc := by
    rw [chainFrom_eq]
    exact (passes_chainTurn hjoin ho).completes hc (Nat.le_refl _)
  items close item before c hitem hc := by
    rw [itemsFrom_eq]
    exact (passes_itemsTurn hitem).completes hc (Nat.le_refl _)
  parameters before := Lays.forward fun _ => lays_parameter before
  suffixes target c hc := by
    rw [suffixes_eq]
    exact (passes_suffixTurn forward_expression).completes hc (Nat.le_refl _)
  skips hc := by
    rw [resync_eq]
    exact passes_resyncTurn.completes hc (Nat.le_refl _)
  blocks before c hc := by
    rw [blockBody_eq]
    exact passes_blockTurn.completes hc (Nat.le_refl _)
  texts before c hc := by
    rw [programBody_eq]
    exact passes_programTurn.completes hc (Nat.le_refl _)

end Reading

/-! ## Whole texts -/

section Texts

variable {tokens : List Token}

/-- What was passed where the reading of a text stops. -/
theorem Cursor.OneEnd.passed_atStop (hend : Cursor.OneEnd tokens) (doc : Document) :
    ∃ ts, (Cursor.ofTokens doc tokens).Passed ts (Cursor.atStop doc tokens) ∧
      tokens = ts ++ (Cursor.atStop doc tokens).tokens := by
  obtain ⟨ts, hts, -⟩ := Reading.laidList_programBody (Reading.lays_statement 0)
    (Cursor.ofTokens doc tokens).turns [] _ (hend.ended doc) (Cursor.depth_ofTokens doc tokens)
  have htokens := hts.tokens
  rw [Cursor.tokens_ofTokens doc hend.ne_nil] at htokens
  exact ⟨ts, hts, htokens⟩

/-- There are fewer numbers than tokens, as the end is given none. -/
theorem Cursor.OneEnd.nextId_atStop_lt (hend : Cursor.OneEnd tokens) (doc : Document) :
    (Cursor.atStop doc tokens).nextId < tokens.length := by
  obtain ⟨ts, hts, htokens⟩ := hend.passed_atStop doc
  have hstart : (Cursor.ofTokens doc tokens).nextId = 0 := by cases tokens <;> rfl
  have hle := hts.nextId
  rw [hstart, Nat.zero_add] at hle
  have hlength := congrArg List.length htokens
  rw [List.length_append] at hlength
  rw [hlength]
  exact Nat.lt_of_le_of_lt hle (Nat.lt_add_of_pos_right (Nat.succ_pos _))

end Texts

/-- **Reading comes to an end.**  No bound of the readers is ever felt.  No reader passes the end,
wherever it is called, and each turn of the loops over statements that is not their last passes a
token.  So the statements of any token list with one end, however broken, are read until that end has
been reached or the log is full. -/
theorem reading_ends :
    Reading.BoundsSuffice ∧
    (∀ (k : Kind) (α : Type) (m : Reading α) (c : Cursor), Reading.Called k m → c.Ended →
      c.kind = k → ∃ ts, c.Passed ts (m c).2 ∧ ∀ t ∈ ts, t.kind ≠ .eof) ∧
    (∀ (s t : List Stmt × Cursor), s.2.Ended →
      Reading.blockTurn Reading.statement s = .inl t ∨
        Reading.programTurn Reading.statement s = .inl t →
      ∃ ts, ts ≠ [] ∧ s.2.Passed ts t.2) ∧
    (∀ doc tokens, Cursor.OneEnd tokens →
      (∃ ts, tokens = ts ++ (Cursor.atStop doc tokens).tokens ∧ ∀ t ∈ ts, t.kind ≠ .eof) ∧
      ((Cursor.atStop doc tokens).kind = .eof ∨
        Log.capacity ≤ (Parse.ofTokens doc tokens).log.total)) := by
  refine ⟨Reading.bounds_suffice, fun k α m c hcalled hc hk => ?_, fun s t hs ht => ?_,
    fun doc tokens hend => ⟨?_, ?_⟩⟩
  · obtain ⟨Z, hZ⟩ := hcalled.laysAt c.depth
    obtain ⟨ts, hts, -⟩ := hZ c hc rfl nofun hk
    exact ⟨ts, hts, hts.not_eof hc⟩
  · exact ht.elim (Reading.passes_blockTurn s t hs) (Reading.passes_programTurn s t hs)
  · obtain ⟨ts, hts, htokens⟩ := hend.passed_atStop doc
    exact ⟨ts, htokens, hts.not_eof (hend.ended doc)⟩
  · exact Reading.stop_of_completes (Reading.bounds_suffice.texts [] (hend.ended doc))

/-- The tokens of `} write 1 + * [2,`: a brace that closes nothing, an operand that is missing and a
list that is left open. -/
def brokenTokens : List Token :=
  [.symbol .rbrace, .keyword .write, .int "1", .symbol .plus, .symbol .star, .symbol .lbracket,
    .int "2", .symbol .comma, .eof].map fun k => ⟨k, Span.point Place.start⟩

theorem brokenTokens_passed :
    let doc : Document := { name := "", text := "" }
    let start := Cursor.ofTokens doc brokenTokens
    let behind := (start.complainHere .unexpectedToken "unmatched '\x7d'").advance
    (∃ ts, behind.Passed ts (Reading.statement behind).2 ∧ ∀ t ∈ ts, t.kind ≠ .eof) ∧
      (∃ ts, ts ≠ [] ∧ start.Passed ts behind) ∧
      (∃ ts, brokenTokens = ts ++ (Cursor.atStop doc brokenTokens).tokens ∧
        ∀ t ∈ ts, t.kind ≠ .eof) ∧
      (Cursor.atStop doc brokenTokens).kind = .eof := by
  intro doc start behind
  have hstart : start.Ended := ⟨start.kinds.dropLast, rfl, by decide⟩
  have hbehind : behind.Ended := ⟨behind.kinds.dropLast, rfl, by decide⟩
  obtain ⟨-, hcalled, hturn, htext⟩ := reading_ends
  obtain ⟨hpassed, hstop⟩ := htext doc brokenTokens hstart
  refine ⟨hcalled _ Stmt _ _ .statement hbehind rfl, ?_, hpassed, hstop.resolve_right ?_⟩
  · exact hturn ([], start) ([], behind) hstart (.inr rfl)
  · decide +kernel

/-- **The numbers of a program** ascend in the order of the text, even where the text could not be
read as it stands; and fewer of them are handed out than there are tokens.  In a text without
complaints they are counted from zero without a gap. -/
theorem numbers_in_order (doc : Document) :
    (Parse.ofDocument doc).program.numbers.Pairwise (· < ·) ∧
    (∀ id ∈ (Parse.ofDocument doc).program.numbers,
      id < (Cursor.atStop doc doc.scan.tokens.toList).nextId) ∧
    (Cursor.atStop doc doc.scan.tokens.toList).nextId < doc.scan.tokens.size ∧
    ((Parse.ofDocument doc).log.hasErrors = false →
      (Parse.ofDocument doc).program.numbers =
        List.range (Parse.ofDocument doc).program.numbers.length) := by
  obtain ⟨hsome, hall⟩ := handed_atStop doc doc.scan.tokens.toList
  change (Parse.ofDocument doc).program.numbers.Sublist _ at hsome
  change _ → (Parse.ofDocument doc).program.numbers = _ at hall
  have hend : Cursor.OneEnd doc.scan.tokens.toList := doc.kinds_ended
  refine ⟨List.pairwise_lt_range.sublist hsome, fun id hid => ?_, hend.nextId_atStop_lt doc,
    fun hquiet => ?_⟩
  · exact List.mem_range.1 (hsome.subset hid)
  · rw [hall (Parse.quiet_ofDocument hquiet), List.length_range]

/-- A list, a literal in it, one in the function behind that, and an empty list. -/
theorem fourNodes_numbered :
    let doc : Document := { name := "", text := "write [1, fn () \x7b return 2; \x7d, [], a];" }
    (Parse.ofDocument doc).log.hasErrors = false ∧
      (Parse.ofDocument doc).program.numbers =
        List.range (Parse.ofDocument doc).program.numbers.length ∧
      (Parse.ofDocument doc).program.numbers.length = 4 := by
  intro doc
  have hquiet : (Parse.ofDocument doc).log.hasErrors = false := by decide +kernel
  exact ⟨hquiet, (numbers_in_order doc).2.2.2 hquiet, by decide +kernel⟩

end SmallScript
