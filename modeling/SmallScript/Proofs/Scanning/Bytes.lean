/-
  Scanning byte by byte.

  A lexeme is cut off characters.  A scan that goes over bytes by the same rules, each byte taken for
  the character of its number, cuts off the same text (`takenBytewise_cut`), so it never ends inside
  a character.  For all that the rules tell apart is ASCII, and no byte of any other character is:
  whoever looks for ASCII goes over such a character as a whole, or stops before it.

  Two rules could stop inside a character.  A byte that begins nothing takes those with it that
  only go on with a character; and a backslash in a string protects one byte, but what is left of
  that character is neither a quote nor a backslash nor a line feed.
-/
import SmallScript.Proofs.Scanning.Form

namespace SmallScript

open Lexeme (isBlank isHexDigit isWordStart isWordPart)

/-! ## Bytes of characters -/

/-- The bytes of a character, each taken for the character of its number. -/
def charBytes (c : Char) : List Char := (String.utf8EncodeChar c).map Char.ofUInt8

/-- The bytes of a text. -/
def bytes (cs : List Char) : List Char := cs.flatMap charBytes

/-- A byte that only goes on with a character. -/
def isContinuation (b : Char) : Bool := decide (128 ≤ b.toNat) && decide (b.toNat < 192)

/-- Not ASCII. -/
def High (c : Char) : Prop := 128 ≤ c.toNat

instance (c : Char) : Decidable (High c) := inferInstanceAs (Decidable (128 ≤ c.toNat))

/-- A byte that only goes on with a character is not ASCII. -/
theorem high_of_isContinuation {b : Char} (h : isContinuation b = true) : High b := by
  unfold isContinuation at h
  rw [Bool.and_eq_true, decide_eq_true_iff] at h
  exact h.1

/-- How characters are encoded: ASCII as it is, and the others by bytes of which none is ASCII and
only the first is no continuation. -/
inductive Encoded : Char → List Char → Prop where
  | ascii {c : Char} : c.toNat < 128 → Encoded c [c]
  | wide {c b : Char} {bs : List Char} : High c → High b → isContinuation b = false →
      (∀ d ∈ bs, isContinuation d = true) → Encoded c (b :: bs)

/-- A byte stands for the character of its number. -/
theorem toNat_ofUInt8 (n : Nat) : (Char.ofUInt8 (UInt8.ofNat n)).toNat = n % 256 := by
  change (UInt8.ofNat n).toUInt32.toNat = _
  rw [UInt8.toNat_toUInt32, UInt8.toNat_ofNat']

theorem isContinuation_ofUInt8 (n : Nat) :
    isContinuation (Char.ofUInt8 (UInt8.ofNat (n % 64 + 128))) = true := by
  unfold isContinuation
  rw [toNat_ofUInt8, Bool.and_eq_true, decide_eq_true_iff, decide_eq_true_iff]
  omega

/-- All characters are encoded so. -/
theorem encoded (c : Char) : Encoded c (charBytes c) := by
  have hlead : ∀ n, 192 ≤ n → n < 256 → High (Char.ofUInt8 (UInt8.ofNat n)) ∧
      isContinuation (Char.ofUInt8 (UInt8.ofNat n)) = false := by
    intro n hlow hhigh
    unfold High isContinuation
    rw [toNat_ofUInt8, Bool.and_eq_false_iff, decide_eq_false_iff_not, decide_eq_false_iff_not]
    omega
  unfold charBytes String.utf8EncodeChar
  dsimp only
  split
  · rename_i hc
    have hascii : c.toNat < 128 := Nat.lt_succ_of_le hc
    have hsame : Char.ofUInt8 (UInt8.ofNat c.val.toNat) = c := by
      refine Char.toNat_inj.1 ?_
      rw [toNat_ofUInt8]
      exact Nat.mod_eq_of_lt (by change c.toNat < 256; omega)
    rw [List.map_singleton, hsame]
    exact .ascii hascii
  · rename_i hc
    have hwide : High c := Nat.lt_of_not_le hc
    split
    · obtain ⟨hb, hfirst⟩ := hlead (c.val.toNat / 64 % 32 + 192) (by omega) (by omega)
      refine .wide hwide hb hfirst ?_
      simp only [List.map_cons, List.map_nil, List.forall_mem_cons]
      exact ⟨isContinuation_ofUInt8 _, nofun⟩
    · split
      · obtain ⟨hb, hfirst⟩ := hlead (c.val.toNat / 4096 % 16 + 224) (by omega) (by omega)
        refine .wide hwide hb hfirst ?_
        simp only [List.map_cons, List.map_nil, List.forall_mem_cons]
        exact ⟨isContinuation_ofUInt8 _, isContinuation_ofUInt8 _, nofun⟩
      · obtain ⟨hb, hfirst⟩ := hlead (c.val.toNat / 262144 % 8 + 240) (by omega) (by omega)
        refine .wide hwide hb hfirst ?_
        simp only [List.map_cons, List.map_nil, List.forall_mem_cons]
        exact ⟨isContinuation_ofUInt8 _, isContinuation_ofUInt8 _, isContinuation_ofUInt8 _, nofun⟩

variable {cs rest : List Char} {c d : Char} {p : Char → Bool}

theorem bytes_nil : bytes [] = [] := rfl

/-- A text is encoded character by character. -/
theorem bytes_cons (c : Char) (cs : List Char) : bytes (c :: cs) = charBytes c ++ bytes cs :=
  List.flatMap_cons

theorem bytes_append (a b : List Char) : bytes (a ++ b) = bytes a ++ bytes b := List.flatMap_append

/-- An ASCII character is one byte, which is that character. -/
theorem charBytes_ascii (hc : c.toNat < 128) : charBytes c = [c] := by
  have h := encoded c
  generalize charBytes c = bs at h
  cases h with
  | ascii => rfl
  | wide hwide => exact absurd hc (Nat.not_lt.2 hwide)

/-- So a text that begins with it begins with that byte. -/
theorem bytes_cons_ascii (hc : c.toNat < 128) (cs : List Char) :
    bytes (c :: cs) = c :: bytes cs := by
  rw [bytes_cons, charBytes_ascii hc]
  rfl

/-- Bytes that begin with an ASCII character are those of a text that does. -/
theorem bytes_eq_cons (hd : d.toNat < 128) {r : List Char} :
    bytes cs = d :: r ↔ ∃ rest, cs = d :: rest ∧ r = bytes rest := by
  constructor
  · intro h
    cases cs with
    | nil => cases h
    | cons c cs =>
      rw [bytes_cons] at h
      have hc := encoded c
      generalize charBytes c = bs at hc h
      cases hc with
      | ascii =>
        cases h
        exact ⟨cs, rfl, rfl⟩
      | wide _ hb =>
        cases h
        exact absurd hd (Nat.not_lt.2 hb)
  · rintro ⟨rest, rfl, rfl⟩
    exact bytes_cons_ascii hd rest

/-- Every character has a byte. -/
theorem isEmpty_bytes (cs : List Char) : (bytes cs).isEmpty = cs.isEmpty := by
  cases cs with
  | nil => rfl
  | cons c cs =>
    rw [bytes_cons]
    have hc := encoded c
    generalize charBytes c = bs at hc
    cases hc <;> rfl

/-- Who looks for a class that the first byte of a character is not in stops before it. -/
theorem stops_charBytes (c : Char) (hascii : c.toNat < 128 → p c = false)
    (hwide : ∀ b, High c → High b → isContinuation b = false → p b = false) (bs : List Char) :
    (charBytes c ++ bs).takeWhile p = [] ∧ (charBytes c ++ bs).dropWhile p = charBytes c ++ bs := by
  have hfirst : ∃ b r, charBytes c = b :: r ∧ p b = false := by
    have hc := encoded c
    generalize charBytes c = bs at hc
    cases hc with
    | ascii hc => exact ⟨c, [], rfl, hascii hc⟩
    | wide hc hb hstart _ => exact ⟨_, _, rfl, hwide _ hc hb hstart⟩
  obtain ⟨b, r, hbytes, hb⟩ := hfirst
  rw [hbytes, List.cons_append, List.takeWhile_cons, List.dropWhile_cons, hb,
    if_neg Bool.false_ne_true, if_neg Bool.false_ne_true]
  exact ⟨rfl, rfl⟩

/-- The bytes of a text do not go on with a character before it. -/
theorem continuation_bytes (bs cs : List Char) (hbs : ∀ d ∈ bs, isContinuation d = true) :
    (bs ++ bytes cs).takeWhile isContinuation = bs ∧
      (bs ++ bytes cs).dropWhile isContinuation = bytes cs := by
  rw [List.takeWhile_append_of_pos hbs, List.dropWhile_append_of_pos hbs]
  cases cs with
  | nil => exact ⟨List.append_nil bs, rfl⟩
  | cons c cs =>
    have hascii : c.toNat < 128 → isContinuation c = false := by
      intro hc
      unfold isContinuation
      rw [decide_eq_false (Nat.not_le.2 hc), Bool.false_and]
    obtain ⟨htake, hdrop⟩ := stops_charBytes c hascii (fun _ _ _ hb => hb) (bytes cs)
    rw [bytes_cons, htake, hdrop, List.append_nil]
    exact ⟨rfl, rfl⟩

/-- Who looks for a class in which all that is not ASCII is, or nothing of it, finds the same. -/
theorem span_bytes {v : Bool} (hp : ∀ c, High c → p c = v) (cs : List Char) :
    (bytes cs).takeWhile p = bytes (cs.takeWhile p) ∧
      (bytes cs).dropWhile p = bytes (cs.dropWhile p) := by
  induction cs with
  | nil => exact ⟨rfl, rfl⟩
  | cons c cs ih =>
    rw [bytes_cons, List.takeWhile_cons, List.dropWhile_cons]
    cases hpc : p c with
    | true =>
      have hall : ∀ d ∈ charBytes c, p d = true := by
        have hc := encoded c
        generalize charBytes c = bs at hc
        cases hc with
        | ascii => exact List.forall_mem_singleton.2 hpc
        | wide hwide hb _ hbs =>
          rw [hp c hwide] at hpc
          refine List.forall_mem_cons.2 ⟨(hp _ hb).trans hpc, fun d hd => ?_⟩
          exact (hp d (high_of_isContinuation (hbs d hd))).trans hpc
      rw [List.takeWhile_append_of_pos hall, List.dropWhile_append_of_pos hall, ih.1, ih.2,
        if_pos rfl, if_pos rfl, bytes_cons]
      exact ⟨rfl, rfl⟩
    | false =>
      obtain ⟨htake, hdrop⟩ := stops_charBytes c (fun _ => hpc)
        (fun b hwide hb _ => (hp b hb).trans ((hp c hwide).symm.trans hpc)) (bytes cs)
      rw [htake, hdrop, if_neg Bool.false_ne_true, if_neg Bool.false_ne_true, bytes_cons]
      exact ⟨rfl, rfl⟩

/-! ## Classes of ASCII characters -/

/-- A byte that is not ASCII is no ASCII character. -/
theorem High.ne (hc : High c) (hd : d.toNat < 128) : c ≠ d := by
  rintro rfl
  exact absurd hd (Nat.not_lt.2 hc)

/-- So it is of no class of ASCII characters, those of words among them. -/
theorem High.isWordPart (hc : High c) : isWordPart c = false := by
  rw [Bool.eq_false_iff]
  intro h
  unfold High at hc
  unfold Lexeme.isWordPart Char.isAlphanum Char.isAlpha Char.isUpper Char.isLower Char.isDigit at h
  simp only [Bool.or_eq_true, Bool.and_eq_true, decide_eq_true_eq, beq_iff_eq, ge_iff_le,
    UInt32.le_iff_toNat_le] at h
  rcases h with h | rfl
  · change ((65 ≤ c.toNat ∧ c.toNat ≤ 90) ∨ (97 ≤ c.toNat ∧ c.toNat ≤ 122)) ∨
      (48 ≤ c.toNat ∧ c.toNat ≤ 57) at h
    omega
  · exact absurd hc (by decide)

/-- The same for every class inside that of words. -/
theorem High.class (hc : High c) (hp : ∀ c, p c = true → Lexeme.isWordPart c = true) :
    p c = false :=
  of_not_isWordPart hp hc.isWordPart

theorem High.isDigit (hc : High c) : c.isDigit = false := hc.class fun _ => isWordPart_of_isDigit

theorem High.isHexDigit (hc : High c) : isHexDigit c = false :=
  hc.class fun _ => isWordPart_of_isHexDigit

theorem High.isWordStart (hc : High c) : isWordStart c = false :=
  hc.class fun _ => isWordPart_of_isWordStart

theorem High.beq (hc : High c) (hd : d.toNat < 128) : (c == d) = false :=
  beq_eq_false_iff_ne.2 (hc.ne hd)

/-- It is no blank. -/
theorem High.isBlank (hc : High c) : isBlank c = false := by
  unfold Lexeme.isBlank
  rw [hc.beq (by decide), hc.beq (by decide), hc.beq (by decide), hc.beq (by decide)]
  rfl

/-- What is not ASCII begins nothing. -/
theorem High.cut (hc : High c) (cs : List Char) : Lexeme.cut c cs = (⟨.stray, [c]⟩, cs) := by
  have hdoubled : Lexeme.doubled? c = none := by
    unfold Lexeme.doubled?
    split <;> first | rfl | exact absurd hc (by decide)
  have hsymbol : Lexeme.symbol? c = none := by
    unfold Lexeme.symbol?
    split <;> first | rfl | exact absurd hc (by decide)
  unfold Lexeme.cut
  rw [hc.isBlank, hc.isDigit, hc.isWordStart, if_neg Bool.false_ne_true, if_neg Bool.false_ne_true,
    if_neg Bool.false_ne_true, if_neg (hc.ne (by decide))]
  split
  · exact absurd hc (by decide)
  · exact absurd hc (by decide)
  · unfold Lexeme.symbol
    rw [hdoubled, hsymbol]

namespace Lexeme

/-! ## Numbers -/

/-- Who takes something off only those texts that begin with some ASCII characters need only be
followed there. -/
theorem rest_bytes {f : List Char → List Char} {p : Char → Prop} (hascii : ∀ d, p d → d.toNat < 128)
    (hbegins : ∀ d rest, p d → f (d :: bytes rest) = bytes (f (d :: rest)))
    (hother : ∀ cs, (∀ d rest, p d → cs ≠ d :: rest) → f cs = cs) (cs : List Char) :
    f (bytes cs) = bytes (f cs) := by
  by_cases h : ∃ d rest, p d ∧ cs = d :: rest
  · obtain ⟨d, rest, hd, rfl⟩ := h
    rw [bytes_cons_ascii (hascii d hd)]
    exact hbegins d rest hd
  · rw [hother cs fun d rest hd hcs => h ⟨d, rest, hd, hcs⟩, hother]
    intro d r hd hbytes
    obtain ⟨rest, hrest, -⟩ := (bytes_eq_cons (hascii d hd)).1 hbytes
    exact h ⟨d, rest, hd, hrest⟩

/-- A point without digits behind it is left. -/
theorem rest_fraction (cs : List Char) : (fraction ('.' :: cs)).2 =
    if (cs.takeWhile Char.isDigit).isEmpty then '.' :: cs else cs.dropWhile Char.isDigit := by
  rw [fraction]
  split <;> rfl

/-- A fraction ends at the same place. -/
theorem fraction_bytes (cs : List Char) : (fraction (bytes cs)).2 = bytes (fraction cs).2 := by
  refine rest_bytes (f := fun cs => (fraction cs).2) (p := (· = '.')) ?_ ?_ ?_ cs
  · rintro _ rfl
    decide
  · rintro _ cs rfl
    have hdigits := span_bytes (fun _ => High.isDigit) cs
    rw [rest_fraction, rest_fraction, hdigits.1, hdigits.2, isEmpty_bytes]
    split
    · exact (bytes_cons_ascii (by decide) cs).symm
    · rfl
  · intro cs hcs
    rw [fraction]
    exact fun rest heq => hcs '.' rest rfl heq

/-- So does a sign. -/
theorem sign_bytes (cs : List Char) : (sign (bytes cs)).2 = bytes (sign cs).2 := by
  refine rest_bytes (f := fun cs => (sign cs).2) (p := fun d => d = '+' ∨ d = '-') ?_ ?_ ?_ cs
  · rintro _ (rfl | rfl) <;> decide
  · rintro _ cs (rfl | rfl) <;> rfl
  · intro cs hcs
    cases cs with
    | nil => rfl
    | cons c cs =>
      rw [sign, if_neg]
      rw [Bool.or_eq_true, beq_iff_eq, beq_iff_eq]
      exact fun hc => hcs c cs hc rfl

/-- A mark without digits behind it is left. -/
theorem rest_exponent {e : Char} (he : e = 'e' ∨ e = 'E') (cs : List Char) : (exponent (e :: cs)).2 =
    if ((sign cs).2.takeWhile Char.isDigit).isEmpty then e :: cs
    else (sign cs).2.dropWhile Char.isDigit := by
  rw [exponent, if_pos]
  · dsimp only
    split <;> rfl
  · rw [Bool.or_eq_true, beq_iff_eq, beq_iff_eq]
    exact he

/-- An exponent ends at the same place. -/
theorem exponent_bytes (cs : List Char) : (exponent (bytes cs)).2 = bytes (exponent cs).2 := by
  have hascii : ∀ d, d = 'e' ∨ d = 'E' → d.toNat < 128 := by
    rintro _ (rfl | rfl) <;> decide
  refine rest_bytes (f := fun cs => (exponent cs).2) hascii ?_ ?_ cs
  · intro e cs he
    have hdigits := span_bytes (fun _ => High.isDigit) (sign cs).2
    rw [rest_exponent he, rest_exponent he, sign_bytes, hdigits.1, hdigits.2, isEmpty_bytes]
    split
    · exact (bytes_cons_ascii (hascii e he) cs).symm
    · rfl
  · intro cs hcs
    cases cs with
    | nil => rfl
    | cons c cs =>
      rw [exponent, if_neg]
      rw [Bool.or_eq_true, beq_iff_eq, beq_iff_eq]
      exact fun hc => hcs c cs hc rfl

/-- So does a number in decimal. -/
theorem decimalNumber_bytes (cs : List Char) :
    (decimalNumber (bytes cs)).2 = bytes (decimalNumber cs).2 := by
  change (exponent (fraction ((bytes cs).dropWhile Char.isDigit)).2).2 = _
  rw [(span_bytes (fun _ => High.isDigit) cs).2, fraction_bytes, exponent_bytes]
  rfl

/-- A number in another base ends with its last digit. -/
theorem number_bytes (cs : List Char) : (number (bytes cs)).2 = bytes (number cs).2 := by
  have hmarked : ∀ {x : Char} {r : List Char}, x.toNat < 128 → bytes cs = '0' :: x :: r →
      ∃ rest, cs = '0' :: x :: rest ∧ r = bytes rest := by
    intro x r hx hbytes
    obtain ⟨rest, rfl, hrest⟩ := (bytes_eq_cons (by decide)).1 hbytes
    obtain ⟨rest, rfl, hr⟩ := (bytes_eq_cons hx).1 hrest.symm
    exact ⟨rest, rfl, hr⟩
  have hmark : ∀ {x : Char} {rest : List Char}, x.toNat < 128 → cs = '0' :: x :: rest →
      bytes cs = '0' :: x :: bytes rest := by
    rintro x rest hx rfl
    rw [bytes_cons_ascii (by decide), bytes_cons_ascii hx]
  generalize hbytes : bytes cs = bs at hmarked hmark
  unfold number
  split
  · obtain ⟨rest, rfl, rfl⟩ := hmarked (by decide) rfl
    exact (span_bytes (fun _ => High.isHexDigit) rest).2
  · obtain ⟨rest, rfl, rfl⟩ := hmarked (by decide) rfl
    exact (span_bytes (fun _ => High.isDigit) rest).2
  · rename_i hhex hoctal
    split
    · exact absurd (hmark (by decide) rfl) (hhex _)
    · exact absurd (hmark (by decide) rfl) (hoctal _)
    · rw [← hbytes]
      exact decimalNumber_bytes cs

/-! ## Comments, strings and words -/

/-- What is no quote, backslash or line feed is passed. -/
theorem string_plain {seen : List Char} (hquote : c ≠ '"') (hback : c ≠ '\\') (hline : c ≠ '\n')
    (cs : List Char) : string seen (c :: cs) = string (c :: seen) cs := by
  rw [string]
  · exact if_neg hline
  · exact hquote
  · exact fun _ _ heq _ => hback heq

/-- In a string nothing is to be seen in what is not ASCII. -/
theorem string_high {bs : List Char} (hbs : ∀ b ∈ bs, High b) (seen cs : List Char) :
    string seen (bs ++ cs) = string (bs.reverse ++ seen) cs := by
  induction bs generalizing seen with
  | nil => rfl
  | cons b bs ih =>
    obtain ⟨hb, hbs⟩ := List.forall_mem_cons.1 hbs
    rw [List.cons_append, string_plain (hb.ne (by decide)) (hb.ne (by decide)) (hb.ne (by decide)),
      ih hbs, List.reverse_cons, List.append_assoc]
    rfl

/-- A string ends at the same place: by induction, past all bytes of a character at once. -/
theorem string_bytes (seen cs : List Char) :
    ∀ seen', (string seen' (bytes cs)).2 = bytes (string seen cs).2 := by
  fun_induction string seen cs with
  | case1 seen rest =>
    intro seen'
    rw [bytes_cons_ascii (by decide), string]
  | case2 seen rest =>
    intro seen'
    rw [bytes_cons_ascii (by decide), bytes_cons_ascii (by decide), string, if_pos rfl]
  | case3 seen c rest hc ih =>
    intro seen'
    have hbytes := encoded c
    rw [bytes_cons_ascii (by decide), bytes_cons]
    generalize charBytes c = bs at hbytes
    cases hbytes with
    | ascii =>
      rw [List.singleton_append, string, if_neg hc]
      exact ih _
    | wide _ hb _ hbs =>
      -- The backslash protects the first byte, and the others protect themselves.
      rw [List.cons_append, string, if_neg (hb.ne (by decide)),
        string_high fun d hd => high_of_isContinuation (hbs d hd)]
      exact ih _
  | case4 seen rest =>
    intro seen'
    rw [bytes_cons_ascii (by decide)]
    rfl
  | case5 seen c rest hquote hescape hc ih =>
    intro seen'
    have hbytes := encoded c
    rw [bytes_cons]
    generalize charBytes c = bs at hbytes
    cases hbytes with
    | ascii =>
      by_cases hback : c = '\\'
      · subst hback
        cases rest with
        | nil => rfl
        | cons d rest => exact absurd rfl (hescape d rest rfl)
      · rw [List.singleton_append, string_plain hquote hback hc]
        exact ih _
    | @wide b bs _ hb _ hbs =>
      have hhigh : ∀ d ∈ b :: bs, High d :=
        List.forall_mem_cons.2 ⟨hb, fun d hd => high_of_isContinuation (hbs d hd)⟩
      rw [string_high hhigh]
      exact ih _
  | case6 seen =>
    intro seen'
    rfl

/-- Bytes that are not ASCII neither end a comment nor begin its end. -/
theorem blockComment_high {bs : List Char} (hbs : ∀ b ∈ bs, High b) (seen cs : List Char) :
    blockComment seen (bs ++ cs) = blockComment (bs.reverse ++ seen) cs := by
  induction bs generalizing seen with
  | nil => rfl
  | cons b bs ih =>
    obtain ⟨hb, hbs⟩ := List.forall_mem_cons.1 hbs
    rw [List.cons_append, blockComment, ih hbs, List.reverse_cons, List.append_assoc]
    · rfl
    · exact fun _ hstar _ => absurd hstar (hb.ne (by decide))

/-- So a comment ends at the same place. -/
theorem blockComment_bytes (seen cs : List Char) :
    ∀ seen', (blockComment seen' (bytes cs)).2 = bytes (blockComment seen cs).2 := by
  fun_induction blockComment seen cs with
  | case1 seen rest =>
    intro seen'
    rw [bytes_cons_ascii (by decide), bytes_cons_ascii (by decide), blockComment]
  | case2 seen c rest hopen ih =>
    intro seen'
    have hbytes := encoded c
    rw [bytes_cons]
    generalize charBytes c = bs at hbytes
    cases hbytes with
    | ascii =>
      rw [List.singleton_append, blockComment]
      · exact ih _
      · intro r hstar hslash
        obtain ⟨rest, hrest, -⟩ := (bytes_eq_cons (by decide)).1 hslash
        exact hopen rest hstar hrest
    | @wide b bs _ hb _ hbs =>
      have hhigh : ∀ d ∈ b :: bs, High d :=
        List.forall_mem_cons.2 ⟨hb, fun d hd => high_of_isContinuation (hbs d hd)⟩
      rw [blockComment_high hhigh]
      exact ih _
  | case3 seen =>
    intro seen'
    rfl

/-- A symbol looks for one more ASCII character. -/
theorem symbol_bytes (c : Char) (rest : List Char) :
    (symbol c (bytes rest)).2 = bytes (symbol c rest).2 := by
  have hsingle : ∀ cs, (∀ r, cs ≠ '=' :: r) → (symbol c cs).2 = cs := by
    intro cs hcs
    unfold symbol
    split
    · exact absurd rfl (hcs _)
    · split <;> rfl
  have hdouble : ∀ r, (symbol c ('=' :: r)).2 = if (doubled? c).isSome then r else '=' :: r := by
    intro r
    unfold symbol
    cases doubled? c with
    | none => cases symbol? c <;> rfl
    | some s => rfl
  refine rest_bytes (f := fun cs => (symbol c cs).2) (p := (· = '=')) ?_ ?_ ?_ rest
  · rintro _ rfl
    decide
  · rintro _ r rfl
    rw [hdouble, hdouble]
    split
    · rfl
    · exact (bytes_cons_ascii (by decide) r).symm
  · exact fun cs hcs => hsingle cs fun r => hcs '=' r rfl

/-! ## Cutting -/

/-- What is left behind a lexeme that begins with an ASCII character. -/
theorem cut_bytes (hc : c.toNat < 128) (rest : List Char) :
    (cut c (bytes rest)).2 = bytes (cut c rest).2 := by
  have hnumber := number_bytes (c :: rest)
  have hword := (span_bytes (fun _ => High.isWordPart) (c :: rest)).2
  rw [bytes_cons_ascii hc] at hnumber hword
  unfold cut
  split
  · rfl
  · split
    · exact hnumber
    · split
      · exact hword
      · split
        · exact string_bytes _ _ _
        · generalize hbytes : bytes rest = bs
          split
          · obtain ⟨rest, rfl, rfl⟩ := (bytes_eq_cons (by decide)).1 hbytes
            exact (span_bytes (fun _ hd => bne_iff_ne.2 (hd.ne (by decide))) rest).2
          · obtain ⟨rest, rfl, rfl⟩ := (bytes_eq_cons (by decide)).1 hbytes
            exact blockComment_bytes _ _ _
          · rename_i hline hblock
            rw [← hbytes] at hline hblock ⊢
            split
            · exact absurd (bytes_cons_ascii (by decide) _) (hline _ rfl)
            · exact absurd (bytes_cons_ascii (by decide) _) (hblock _ rfl)
            · exact symbol_bytes _ _

end Lexeme

/-- Take a lexeme off some bytes, and with a byte that begins nothing those that go on with it. -/
def cutBytes (b : Char) (bs : List Char) : List Char × List Char :=
  let (lexeme, rest) := Lexeme.cut b bs
  if lexeme.sort = .stray then
    (lexeme.text ++ rest.takeWhile isContinuation, rest.dropWhile isContinuation)
  else (lexeme.text, rest)

/-- A text is taken off the front of a text by a scan that goes byte by byte. -/
def TakenBytewise (taken rest : List Char) : Prop :=
  ∃ b bs, bytes (taken ++ rest) = b :: bs ∧ cutBytes b bs = (bytes taken, bytes rest)

/-- Byte by byte the same is cut off a text as character by character. -/
theorem takenBytewise_cut (c : Char) (cs : List Char) :
    TakenBytewise (Lexeme.cut c cs).1.text (Lexeme.cut c cs).2 := by
  have happend := Lexeme.cut_append c cs
  unfold TakenBytewise cutBytes
  rw [happend, bytes_cons]
  have hbytes := encoded c
  generalize hchar : charBytes c = bs at hbytes
  cases hbytes with
  | ascii hc =>
    refine ⟨c, bytes cs, rfl, ?_⟩
    have hrest := Lexeme.cut_bytes hc cs
    have htaken := Lexeme.cut_append c (bytes cs)
    rw [hrest, ← bytes_cons_ascii hc, ← happend, bytes_append] at htaken
    have htext := List.append_cancel_right htaken
    -- Behind what was taken a character begins, so there is nothing to go on with.
    obtain ⟨htake, hdrop⟩ := continuation_bytes [] (Lexeme.cut c cs).2 nofun
    rw [List.nil_append] at htake hdrop
    dsimp only
    rw [hrest, htext, htake, hdrop, List.append_nil, ite_self]
  | @wide b bs hc hb _ hbs =>
    refine ⟨b, bs ++ bytes cs, rfl, ?_⟩
    obtain ⟨htake, hdrop⟩ := continuation_bytes bs cs hbs
    rw [hb.cut, hc.cut]
    dsimp only
    rw [if_pos rfl, htake, hdrop, bytes_cons, hchar, bytes_nil, List.append_nil]
    rfl

end SmallScript
