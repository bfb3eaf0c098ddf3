/-
  Lexemes: the pieces a script's text falls into, before places and reports are added.

  `Lexeme.cut` takes one lexeme off the front of a text.  Nothing is lost (`cut_append`) and a
  lexeme is never empty (`cut_text_ne_nil`), so cutting again and again tiles the whole text.
  Which characters belong together is decided here and nowhere else:

    * blanks and comments separate tokens; a block comment may be left open at the end;
    * a number takes a fraction only if a digit follows the point, and an exponent only if it
      has digits; `0x` and `0o` announce other bases and should have digits behind them;
    * a string ends at the first quote that no backslash protects, and never runs over a line;
    * any character that begins nothing is a lexeme of its own.
-/
import SmallScript.Token

namespace SmallScript

/-- What a lexeme is. -/
inductive LexemeSort where
  | blank
  | comment
  /-- A block comment that the text ends in. -/
  | openComment
  | token (kind : Kind)
  /-- A string without its closing quote. -/
  | openString
  /-- `0x` or `0o` with no digit behind it. -/
  | bareRadix
  /-- A character that begins no token. -/
  | stray
deriving DecidableEq, Repr, Inhabited

/-- A piece of a text. -/
structure Lexeme where
  sort : LexemeSort
  text : List Char
deriving DecidableEq, Repr, Inhabited

namespace Lexeme

def isBlank (c : Char) : Bool := c == ' ' || c == '\t' || c == '\r' || c == '\n'

def isHexDigit (c : Char) : Bool :=
  c.isDigit || ('a' ≤ c && c ≤ 'f') || ('A' ≤ c && c ≤ 'F')

/-- Words are written in plain letters, digits and underscores; they begin with no digit. -/
def isWordStart (c : Char) : Bool := c.isAlpha || c == '_'

def isWordPart (c : Char) : Bool := c.isAlphanum || c == '_'

/-! ## Numbers -/

/-- The fraction a text begins with, if a digit follows its point. -/
def fraction : List Char → List Char × List Char
  | '.' :: rest =>
    let digits := rest.takeWhile Char.isDigit
    if digits.isEmpty then ([], '.' :: rest)
    else ('.' :: digits, rest.dropWhile Char.isDigit)
  | cs => ([], cs)

/-- The sign a text begins with. -/
def sign : List Char → List Char × List Char
  | c :: rest => if c == '+' || c == '-' then ([c], rest) else ([], c :: rest)
  | [] => ([], [])

/-- The exponent a text begins with, if it has digits. -/
def exponent : List Char → List Char × List Char
  | [] => ([], [])
  | c :: rest =>
    if c == 'e' || c == 'E' then
      let signed := sign rest
      let digits := signed.2.takeWhile Char.isDigit
      if digits.isEmpty then ([], c :: rest)
      else (c :: (signed.1 ++ digits), signed.2.dropWhile Char.isDigit)
    else ([], c :: rest)

/-- A number that announces its base by `mark`, with its digits. -/
def radixNumber (mark : List Char) (isDigit : Char → Bool) (cs : List Char) :
    Lexeme × List Char :=
  let digits := cs.takeWhile isDigit
  let text := mark ++ digits
  (⟨if digits.isEmpty then .bareRadix else .token (.int (String.ofList text)), text⟩,
    cs.dropWhile isDigit)

/-- A decimal number: an integer, or a float if it has a fraction or an exponent. -/
def decimalNumber (cs : List Char) : Lexeme × List Char :=
  let whole := cs.takeWhile Char.isDigit
  let (fractionText, rest) := fraction (cs.dropWhile Char.isDigit)
  let (exponentText, rest) := exponent rest
  let text := whole ++ (fractionText ++ exponentText)
  let raw := String.ofList text
  let kind := if fractionText.isEmpty && exponentText.isEmpty then Kind.int raw else .float raw
  (⟨.token kind, text⟩, rest)

/-- The number a text begins with. -/
def number : List Char → Lexeme × List Char
  | '0' :: 'x' :: rest => radixNumber ['0', 'x'] isHexDigit rest
  | '0' :: 'o' :: rest => radixNumber ['0', 'o'] Char.isDigit rest
  | cs => decimalNumber cs

/-! ## Comments, strings and words -/

/-- The rest of a block comment, `seen` being what was read of it, last character first. -/
def blockComment (seen : List Char) : List Char → Lexeme × List Char
  | '*' :: '/' :: rest => (⟨.comment, ('/' :: '*' :: seen).reverse⟩, rest)
  | c :: rest => blockComment (c :: seen) rest
  | [] => (⟨.openComment, seen.reverse⟩, [])

/-- The rest of a string, `seen` being what was read of it, last character first. -/
def string (seen : List Char) : List Char → Lexeme × List Char
  | '"' :: rest =>
    (⟨.token (.string (String.ofList ('"' :: seen).reverse)), ('"' :: seen).reverse⟩, rest)
  | '\\' :: c :: rest =>
    if c = '\n' then (⟨.openString, ('\\' :: seen).reverse⟩, c :: rest)
    else string (c :: '\\' :: seen) rest
  | c :: rest =>
    if c = '\n' then (⟨.openString, seen.reverse⟩, c :: rest) else string (c :: seen) rest
  | [] => (⟨.openString, seen.reverse⟩, [])

/-- The word a text begins with. -/
def word (cs : List Char) : Lexeme × List Char :=
  let text := cs.takeWhile isWordPart
  (⟨.token (Kind.ofWord (String.ofList text)), text⟩, cs.dropWhile isWordPart)

/-! ## Symbols -/

/-- The symbols of one character. -/
def symbol? : Char → Option Symbol
  | '+' => some .plus
  | '-' => some .minus
  | '*' => some .star
  | '/' => some .slash
  | '%' => some .percent
  | '<' => some .less
  | '>' => some .greater
  | '=' => some .eq
  | '?' => some .question
  | '.' => some .dot
  | '(' => some .lparen
  | ')' => some .rparen
  | '\x7b' => some .lbrace
  | '\x7d' => some .rbrace
  | '[' => some .lbracket
  | ']' => some .rbracket
  | ',' => some .comma
  | ';' => some .semicolon
  | ':' => some .colon
  | _ => none

/-- The symbols of two characters; all of them end in an equals sign. -/
def doubled? : Char → Option Symbol
  | '=' => some .eqEq
  | '!' => some .bangEq
  | '<' => some .lessEq
  | '>' => some .greaterEq
  | _ => none

/-- A symbol, the longer one where there are two; otherwise a stray character. -/
def symbol (c : Char) (rest : List Char) : Lexeme × List Char :=
  match doubled? c, rest with
  | some s, '=' :: rest => (⟨.token (.symbol s), [c, '=']⟩, rest)
  | _, rest =>
    match symbol? c with
    | some s => (⟨.token (.symbol s), [c]⟩, rest)
    | none => (⟨.stray, [c]⟩, rest)

/-! ## Cutting -/

/-- Take one lexeme off a text that begins with `c`. -/
def cut (c : Char) (rest : List Char) : Lexeme × List Char :=
  if isBlank c then (⟨.blank, [c]⟩, rest)
  else if c.isDigit then number (c :: rest)
  else if isWordStart c then word (c :: rest)
  else if c = '"' then string ['"'] rest
  else
    match c, rest with
    | '/', '/' :: rest =>
      (⟨.comment, '/' :: '/' :: rest.takeWhile (· != '\n')⟩, rest.dropWhile (· != '\n'))
    | '/', '*' :: rest => blockComment ['*', '/'] rest
    | c, rest => symbol c rest

/-! ## Nothing is lost -/

theorem fraction_append (cs : List Char) : (fraction cs).1 ++ (fraction cs).2 = cs := by
  unfold fraction
  split
  · dsimp only
    split <;> simp [List.takeWhile_append_dropWhile]
  · simp

theorem sign_append (cs : List Char) : (sign cs).1 ++ (sign cs).2 = cs := by
  unfold sign
  split
  · split <;> simp
  · simp

theorem exponent_append (cs : List Char) : (exponent cs).1 ++ (exponent cs).2 = cs := by
  unfold exponent
  split
  · simp
  · rename_i c rest
    split
    · dsimp only
      split
      · simp
      · simp [List.takeWhile_append_dropWhile, sign_append]
    · simp

theorem radixNumber_append (mark : List Char) (isDigit : Char → Bool) (cs : List Char) :
    (radixNumber mark isDigit cs).1.text ++ (radixNumber mark isDigit cs).2 = mark ++ cs := by
  simp [radixNumber, List.takeWhile_append_dropWhile]

theorem decimalNumber_append (cs : List Char) :
    (decimalNumber cs).1.text ++ (decimalNumber cs).2 = cs := by
  simp [decimalNumber, exponent_append, fraction_append, List.takeWhile_append_dropWhile]

theorem number_append (cs : List Char) : (number cs).1.text ++ (number cs).2 = cs := by
  unfold number
  split
  · simp [radixNumber_append]
  · simp [radixNumber_append]
  · exact decimalNumber_append cs

theorem blockComment_append (seen cs : List Char) :
    (blockComment seen cs).1.text ++ (blockComment seen cs).2 = seen.reverse ++ cs := by
  fun_induction blockComment seen cs <;> simp_all

theorem string_append (seen cs : List Char) :
    (string seen cs).1.text ++ (string seen cs).2 = seen.reverse ++ cs := by
  fun_induction string seen cs <;> simp_all

theorem word_append (cs : List Char) : (word cs).1.text ++ (word cs).2 = cs := by
  simp [word, List.takeWhile_append_dropWhile]

theorem symbol_append (c : Char) (rest : List Char) :
    (symbol c rest).1.text ++ (symbol c rest).2 = c :: rest := by
  unfold symbol
  split
  · simp
  · split <;> simp

/-- A lexeme and what is left behind it make up the text. -/
theorem cut_append (c : Char) (rest : List Char) :
    (cut c rest).1.text ++ (cut c rest).2 = c :: rest := by
  unfold cut
  split
  · simp
  · split
    · exact number_append _
    · split
      · exact word_append _
      · split
        · rename_i h; simp [string_append, h]
        · split
          · simp [List.takeWhile_append_dropWhile]
          · simp [blockComment_append]
          · exact symbol_append _ _

/-! ## Something is taken -/

theorem blockComment_text_ne_nil (seen cs : List Char) (h : seen ≠ []) :
    (blockComment seen cs).1.text ≠ [] := by
  fun_induction blockComment seen cs <;> simp_all

theorem string_text_ne_nil (seen cs : List Char) (h : seen ≠ []) :
    (string seen cs).1.text ≠ [] := by
  fun_induction string seen cs <;> simp_all

theorem number_text_ne_nil (c : Char) (rest : List Char) (h : c.isDigit = true) :
    (number (c :: rest)).1.text ≠ [] := by
  unfold number
  split
  · simp [radixNumber]
  · simp [radixNumber]
  · simp [decimalNumber, h]

/-- A lexeme holds at least one character. -/
theorem cut_text_ne_nil (c : Char) (rest : List Char) : (cut c rest).1.text ≠ [] := by
  unfold cut
  split
  · simp
  · split
    · rename_i h; exact number_text_ne_nil c rest h
    · split
      · rename_i h
        have : isWordPart c = true := by
          simp only [isWordStart, isWordPart, Char.isAlphanum, Bool.or_eq_true] at h ⊢
          rcases h with h | h <;> simp [h]
        simp [word, this]
      · split
        · exact string_text_ne_nil _ _ (by simp)
        · split
          · simp
          · exact blockComment_text_ne_nil _ _ (by simp)
          · unfold symbol
            split
            · simp
            · split <;> simp

/-- What is left behind a lexeme is shorter than the text. -/
theorem length_cut_lt (c : Char) (rest : List Char) :
    (cut c rest).2.length < (c :: rest).length := by
  have hne := cut_text_ne_nil c rest
  have happ := congrArg List.length (cut_append c rest)
  have hpos := List.length_pos_iff.2 hne
  simp only [List.length_append] at happ
  omega

end Lexeme

end SmallScript
