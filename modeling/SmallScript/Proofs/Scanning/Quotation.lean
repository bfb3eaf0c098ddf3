/-
  Every text has a string literal.

  A text is written between quotes with an escape for every character that could not stand there as
  it is, or that would not show (`Literal.quote`).  Scanning and resolving escapes are two programs,
  and each of them has to undo this.  For both it is enough to look at one character: what is written
  of it is an item that the scan lets pass (`legal_written`), and the character is what that item
  means (`meaning?_written`).  Runs of backslashes need no thought of their own then, since a text
  falls into items from the left and each item is read whole.
-/
import SmallScript.Proofs.Scanning.Literals

namespace SmallScript

namespace Literal

variable {s : String}

/-- What is written of a character between quotes. -/
def written : Char → Item
  | '\\' => .escape '\\'
  | '"' => .escape '"'
  | '\r' => .escape 'r'
  | '\n' => .escape 'n'
  | '\t' => .escape 't'
  | '\x08' => .escape 'b'
  | c => .plain c

/-- What stands between the quotes of the literal for a text. -/
def quotedBody (s : String) : List Char := s.toList.flatMap fun c => (written c).text

/-- The string literal for a text. -/
def quote (s : String) : String := String.ofList ('"' :: (quotedBody s ++ ['"']))

theorem toList_quote (s : String) : (quote s).toList = '"' :: (quotedBody s ++ ['"']) :=
  String.toList_ofList

/-! ## One character -/

/-- A character is written as an escape that means it, or as it is; then it is none of those that
the scan takes for something else. -/
theorem written_cases (c : Char) :
    (∃ d, written c = .escape d ∧ d ≠ '\n' ∧ escaped? d = some c) ∨
      written c = .plain c ∧ c ≠ '"' ∧ c ≠ '\\' ∧ c ≠ '\n' := by
  unfold written
  split
  case h_1 => exact .inl ⟨'\\', rfl, by decide, rfl⟩
  case h_2 => exact .inl ⟨'"', rfl, by decide, rfl⟩
  case h_3 => exact .inl ⟨'r', rfl, by decide, rfl⟩
  case h_4 => exact .inl ⟨'n', rfl, by decide, rfl⟩
  case h_5 => exact .inl ⟨'t', rfl, by decide, rfl⟩
  case h_6 => exact .inl ⟨'b', rfl, by decide, rfl⟩
  case h_7 hback hquote _ hline _ _ => exact .inr ⟨rfl, hquote, hback, hline⟩

theorem legal_written (c : Char) : (written c).Legal := by
  rcases written_cases c with ⟨d, hwritten, hline, -⟩ | ⟨hwritten, hplain⟩
  · rw [hwritten]
    exact hline
  · rw [hwritten]
    exact hplain

theorem meaning?_written (c : Char) : (written c).meaning? = some c := by
  rcases written_cases c with ⟨d, hwritten, -, hmeant⟩ | ⟨hwritten, -⟩
  · rw [hwritten]
    exact hmeant
  · rw [hwritten]
    rfl

/-! ## A text -/

/-- Items that the scan lets pass can stand between quotes. -/
theorem stringBody_items {items : List Item} (hlegal : ∀ i ∈ items, i.Legal) :
    StringBody (items.flatMap Item.text) := by
  induction items with
  | nil => exact .nil
  | cons i items ih =>
    have hbehind : StringBody (items.flatMap Item.text) :=
      ih fun j hj => hlegal j (List.mem_cons_of_mem i hj)
    have hi : i.Legal := hlegal i List.mem_cons_self
    cases i with
    | plain c =>
      obtain ⟨hquote, hback, hline⟩ := hi
      exact .plain hquote hback hline hbehind
    | escape c => exact .escape hi hbehind

theorem quotedBody_eq (s : String) :
    quotedBody s = (s.toList.map written).flatMap Item.text := by
  rw [quotedBody, List.flatMap_map]

theorem legal_of_mem_written : ∀ i ∈ s.toList.map written, i.Legal := by
  intro i hi
  obtain ⟨c, -, rfl⟩ := List.mem_map.1 hi
  exact legal_written c

theorem stringBody_quotedBody (s : String) : StringBody (quotedBody s) := by
  rw [quotedBody_eq]
  exact stringBody_items legal_of_mem_written

/-- Resolving the escapes of a quoted text gives the text. -/
theorem text_quote (s : String) : text (quote s) = .ok s := by
  have hmeant : (s.toList.map written).map Item.meaning? = s.toList.map some := by
    rw [List.map_map]
    exact List.map_congr_left fun c _ => meaning?_written c
  have hbody : ∀ lone, resolveOr lone (quotedBody s) = .ok s.toList := by
    intro lone
    rw [quotedBody_eq]
    exact resolveOr_meant legal_of_mem_written hmeant
  have htext : text (quote s) = (Except.ok s.toList).map String.ofList :=
    (text_eq (toList_quote s) hbody).1
  rw [htext]
  show Except.ok (String.ofList s.toList) = .ok s
  rw [String.ofList_toList]

/-- A quoted text is cut off whole, also by a scan that goes byte by byte. -/
theorem takenBytewise_quote (s : String) : TakenBytewise (quote s).toList [] := by
  have hcut := cut_string (stringBody_quotedBody s) []
  have htaken := takenBytewise_cut '"' (quotedBody s ++ ['"'])
  rw [hcut] at htaken
  rw [toList_quote]
  exact htaken

end Literal

open Literal (quote)

/-- **Every text has a literal.**  The text between quotes, with an escape for a backslash, a quote,
a carriage return, a line feed, a tab and a backspace, is scanned as one string, nothing is reported,
and what this string denotes is the text.  A scan of its bytes takes it as one piece as well. -/
theorem every_text_has_literal (name s : String) :
    let doc : Document := { name, text := quote s }
    doc.kinds = [.string (quote s), .eof] ∧ doc.scan.log = Log.empty ∧
      Literal.text (quote s) = .ok s ∧ TakenBytewise (quote s).toList [] := by
  intro doc
  have hform : (Kind.string (quote s)).WellFormed := by
    show StringForm (quote s).toList
    rw [Literal.toList_quote]
    exact .mk (Literal.stringBody_quotedBody s)
  have hspells : Spells doc.text.toList [.string (quote s)] :=
    (Spelled.single (.string (quote s))).spells (List.forall_mem_singleton.2 hform)
  obtain ⟨hkinds, hlog⟩ := Document.kinds_of_spells hspells
  exact ⟨hkinds, hlog, Literal.text_quote s, Literal.takenBytewise_quote s⟩

/-- A backslash before a quote, and a wide character behind a backslash. -/
example : quote "\\\"\\é\n" = "\"\\\\\\\"\\\\é\\n\"" := by decide +kernel

end SmallScript
