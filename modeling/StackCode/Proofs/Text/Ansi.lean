import StackCode.Text.Ansi

/-!
# Removing colours

A terminal that knows no colours shows a text without its colour sequences. Taking them out of a
painted text leaves the text, provided that it has no escape character of its own: behind one,
digits of the text could be taken for a parameter.

Only colour sequences are removed, those that end with the letter `m`. Other control sequences have
no place in a listing, and one in the text is left as it is.

Removing is a function on characters that reads from the left and never goes back. So a text without
escape characters can be cut off the front, whatever follows, and that is the form of the lemmas.
-/

set_option autoImplicit false

namespace StackCode.Text

/-! ## Colour sequences -/

/-- What stands behind a colour sequence, which is the escape character, a bracket, at least one
digit, and an `m`. -/
def afterColor? : List Char → Option (List Char)
  | '\x1b' :: '[' :: cs =>
    match cs.takeWhile Char.isDigit, cs.dropWhile Char.isDigit with
    | _ :: _, 'm' :: rest => some rest
    | _, _ => none
  | _ => none

/-- A sequence has characters, so removing it makes the text shorter. -/
theorem length_lt_of_afterColor? {cs rest : List Char} (h : afterColor? cs = some rest) :
    rest.length < cs.length := by
  unfold afterColor? at h
  split at h
  · rename_i cs
    split at h
    · rename_i hdrop
      cases h
      have hle := (List.dropWhile_sublist (l := cs) Char.isDigit).length_le
      simp only [hdrop, List.length_cons] at hle ⊢
      omega
    · cases h
  · cases h

/-- A text without its colour sequences. -/
def stripColors (cs : List Char) : List Char :=
  match hcs : afterColor? cs with
  | some rest =>
    have := length_lt_of_afterColor? hcs
    stripColors rest
  | none =>
    match cs with
    | [] => []
    | c :: cs => c :: stripColors cs
termination_by cs.length

theorem stripColors_nil : stripColors [] = [] := by
  rw [stripColors]
  rfl

theorem stripColors_of_sequence {cs rest : List Char} (h : afterColor? cs = some rest) :
    stripColors cs = stripColors rest := by
  rw [stripColors]
  split
  · rename_i hcs
    rw [h] at hcs
    cases hcs
    rfl
  · rename_i hcs
    rw [h] at hcs
    cases hcs

theorem stripColors_cons {c : Char} (hc : c ≠ '\x1b') (cs : List Char) :
    stripColors (c :: cs) = c :: stripColors cs := by
  have hnone : afterColor? (c :: cs) = none := by
    unfold afterColor?
    split
    · rename_i heq
      exact absurd (List.cons.inj heq).1 hc
    · rfl
  rw [stripColors]
  split
  · rename_i hcs
    rw [hnone] at hcs
    cases hcs
  · rfl

/-! ## Painted text -/

/-- A text without escape characters stays as it is. -/
theorem stripColors_append {text : List Char} (htext : '\x1b' ∉ text) (rest : List Char) :
    stripColors (text ++ rest) = text ++ stripColors rest := by
  induction text with
  | nil => rfl
  | cons c text ih =>
    obtain ⟨hc, htext⟩ := not_or.mp (mt List.mem_cons.mpr htext)
    rw [List.cons_append, stripColors_cons (Ne.symm hc), ih htext, List.cons_append]

theorem stripColors_ansiSequence {parameter : String} (hne : parameter.toList ≠ [])
    (hdigits : parameter.toList.all Char.isDigit) (rest : List Char) :
    stripColors ((ansiSequence parameter).toList ++ rest) = stripColors rest := by
  have hlist :
      (ansiSequence parameter).toList ++ rest =
        '\x1b' :: '[' :: (parameter.toList ++ 'm' :: rest) := by
    simp [ansiSequence]
  have hall : ∀ c ∈ parameter.toList, c.isDigit = true := List.all_eq_true.mp hdigits
  have htake : (parameter.toList ++ 'm' :: rest).takeWhile Char.isDigit = parameter.toList := by
    rw [List.takeWhile_append_of_pos hall]
    simp
  have hdrop : (parameter.toList ++ 'm' :: rest).dropWhile Char.isDigit = 'm' :: rest := by
    rw [List.dropWhile_append_of_pos hall]
    simp
  obtain ⟨d, digits, hcons⟩ := List.exists_cons_of_ne_nil hne
  apply stripColors_of_sequence
  rw [hlist, afterColor?, htake, hdrop, hcons]
  rfl

/-- The parameters of a style are numerals. -/
theorem Style.parameters_digits (style : Style) :
    (style.start.toList ≠ [] ∧ style.start.toList.all Char.isDigit) ∧
      style.stop.toList ≠ [] ∧ style.stop.toList.all Char.isDigit := by
  cases style <;> decide

/-- A painted text without its sequences is the text. -/
theorem stripColors_paint (style : Style) {text : String} (htext : '\x1b' ∉ text.toList)
    (rest : List Char) :
    stripColors ((style.paint text).toList ++ rest) = text.toList ++ stripColors rest := by
  obtain ⟨⟨hstart, hstartDigits⟩, hstop, hstopDigits⟩ := style.parameters_digits
  rw [Style.paint, String.toList_append, String.toList_append, List.append_assoc, List.append_assoc,
    stripColors_ansiSequence hstart hstartDigits, stripColors_append htext,
      stripColors_ansiSequence hstop hstopDigits]

/-- A painted text has two sequences. -/
theorem Style.count_escape_paint (style : Style) {text : String} (htext : '\x1b' ∉ text.toList) :
    (style.paint text).toList.count '\x1b' = 2 := by
  have hone : ∀ parameter :
      String, '\x1b' ∉ parameter.toList → (ansiSequence parameter).toList.count '\x1b' = 1 := by
    intro parameter hparameter
    simp [ansiSequence, List.count_eq_zero_of_not_mem hparameter]
  have hstart : '\x1b' ∉ style.start.toList := by cases style <;> decide
  have hstop : '\x1b' ∉ style.stop.toList := by cases style <;> decide
  rw [paint, String.toList_append, String.toList_append, List.count_append, List.count_append,
    hone _ hstart, hone _ hstop, List.count_eq_zero_of_not_mem htext]

end StackCode.Text
