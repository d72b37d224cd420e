import StackCode.Text.Quoted
import StackCode.Proofs.Text.Digits

/-!
# What quoting keeps

A quoted text can be read back: no escape begins another one, none begins with the closing quote,
and each stands for one character only. So what follows a quoted text is where the text ends,
whatever the two look like. And it has no control character, which could break the line or talk to
the terminal.

No reader of quoted text is defined, as none is needed. That a text can be read back is said by
injectivity, and in front of any rest, so that it can be used in the middle of a line.

Control characters are those below 32. Other characters that a terminal may not show are left to the
function that quotes, which escapes more than these; nothing here depends on how many.
-/

set_option autoImplicit false

namespace StackCode.Text

/-- The part of a text before the first character that is not of a kind. -/
theorem append_cons_inj {p : Char → Bool} {text text' rest rest' : List Char} {stop stop' : Char}
    (htext : ∀ c ∈ text, p c) (htext' : ∀ c ∈ text', p c) (hstop : ¬ p stop) (hstop' : ¬ p stop')
    (heq : text ++ stop :: rest = text' ++ stop' :: rest') :
    text = text' ∧ stop = stop' ∧ rest = rest' := by
  have htake := congrArg (List.takeWhile p) heq
  rw [List.takeWhile_append_of_pos htext, List.takeWhile_append_of_pos htext',
    List.takeWhile_cons_of_neg hstop, List.takeWhile_cons_of_neg hstop', List.append_nil,
    List.append_nil] at htake
  subst htake
  exact ⟨rfl, List.cons.inj (List.append_cancel_left heq)⟩

theorem append_cons_inj_of_notMem {text text' rest rest' : List Char} {stop : Char}
    (htext : stop ∉ text) (htext' : stop ∉ text')
    (heq : text ++ stop :: rest = text' ++ stop :: rest') : text = text' ∧ rest = rest' := by
  have hne : ∀ text : List Char, stop ∉ text → ∀ c ∈ text, decide (c ≠ stop) = true := by
    intro text htext c hc
    rw [decide_eq_true_iff]
    rintro rfl
    exact htext hc
  obtain ⟨htexts, -, hrests⟩ :=
    append_cons_inj (hne text htext) (hne text' htext') (by simp) (by simp) heq
  exact ⟨htexts, hrests⟩

/-! ## Control characters -/

/-- The text has no control character of the first thirty-two. -/
def Printable (text : List Char) : Prop :=
  ∀ c ∈ text, 0x20 ≤ c.toNat

instance (text : List Char) : Decidable (Printable text) :=
  -- Named, because a search may find the instance that goes through every character there is.
  List.decidableBAll (fun c : Char => 0x20 ≤ c.toNat) text

theorem Printable.append {text text' : List Char} (h : Printable text) (h' : Printable text') :
    Printable (text ++ text') := by
  intro c hc
  rcases List.mem_append.mp hc with hc | hc
  · exact h c hc
  · exact h' c hc

/-- A printable text has no line break, for example. -/
theorem Printable.notMem {text : List Char} (h : Printable text) {c : Char} (hc : c.toNat < 0x20) :
    c ∉ text :=
  fun hmem => absurd (h c hmem) (Nat.not_le_of_lt hc)

theorem printable_of_isDigit {text : List Char} (h : ∀ c ∈ text, c.isDigit) : Printable text := by
  intro c hc
  have hdigit := h c hc
  simp only [Char.isDigit, Bool.and_eq_true, decide_eq_true_eq] at hdigit
  exact Nat.le_trans (by decide) (UInt32.le_iff_toNat_le.mp hdigit.1)

/-! ## Escapes

A character is written in one of three ways: as itself, with a letter or with its code point in
braces. The relation allows all three for every character that they are fit for, and the function
chooses. -/

/-- What the character behind a backslash makes of it. -/
def shortEscape? : Char → Option Char
  | '0' => some '\x00'
  | 't' => some '\t'
  | 'r' => some '\r'
  | 'n' => some '\n'
  | '"' => some '"'
  | '\\' => some '\\'
  | _ => none

/-- The ways of writing a character between quotes. -/
inductive Escape : Char → List Char → Prop
  | short {c d : Char} (h : shortEscape? d = some c) : Escape c ['\\', d]
  | codePoint {c : Char} {digits : List Char} (h : HexDigits digits c.toNat) :
      Escape c ('\\' :: 'u' :: '\x7b' :: (digits ++ ['\x7d']))
  | plain {c : Char} (hslash : c ≠ '\\') (hquote : c ≠ '"') (hcontrol : 0x20 ≤ c.toNat) :
      Escape c [c]

theorem isUnprintable_of_control {c : Char} (hc : c.toNat < 0x20) : isUnprintable c = true := by
  have hrange : (0x0 ≤ c.toNat && c.toNat ≤ 0x1F) = true := by
    rw [Bool.and_eq_true, decide_eq_true_iff, decide_eq_true_iff]
    omega
  unfold isUnprintable unprintableRanges
  rw [List.any_cons, hrange, Bool.true_or, Bool.true_or]

/-- What the function gives is an escape of its character. -/
theorem escape_escape (c : Char) : Escape c (escape c) := by
  unfold escape
  iterate 6
    split
    · rename_i hc
      subst hc
      exact .short rfl
  split
  · exact .codePoint (hexDigits_toDigits c.toNat)
  · rename_i hquote hslash hprintable
    refine .plain hslash hquote (Nat.le_of_not_lt fun hcontrol => hprintable ?_)
    rw [isUnprintable_of_control hcontrol, Bool.or_true]

/-- Hexadecimal digits are between the first numeral and the last small letter. -/
theorem hexDigit?_range {c : Char} {d : Nat} (h : hexDigit? c = some d) :
    0x30 ≤ c.toNat ∧ c.toNat ≤ 0x66 := by
  have hle : ∀ {a b : Char}, a ≤ b → a.toNat ≤ b.toNat := fun hab => hab
  unfold hexDigit? at h
  split at h
  · rename_i hc
    exact ⟨hle hc.1, Nat.le_trans (hle hc.2) (by decide)⟩
  split at h
  · rename_i hc
    exact ⟨Nat.le_trans (by decide) (hle hc.1), hle hc.2⟩
  split at h
  · rename_i hc
    exact ⟨Nat.le_trans (by decide) (hle hc.1), Nat.le_trans (hle hc.2) (by decide)⟩
  · cases h

theorem brace_notMem_of_hexDigits {digits : List Char} {n : Nat} (h : HexDigits digits n) :
    '\x7d' ∉ digits := by
  intro hmem
  obtain ⟨d, hd⟩ := h.digit_of_mem hmem
  exact absurd (hexDigit?_range hd).2 (by decide)

namespace Escape

variable {c c' : Char} {text text' rest rest' : List Char}

theorem printable (h : Escape c text) : Printable text := by
  cases h with
  | @short d h =>
    have hd : 0x20 ≤ d.toNat := by
      unfold shortEscape? at h
      split at h <;> first | decide | cases h
    simp [Printable, hd]
  | codePoint h =>
    intro d hd
    simp only [List.mem_cons, List.mem_append, List.not_mem_nil, or_false] at hd
    rcases hd with rfl | rfl | rfl | hd | rfl
    · decide
    · decide
    · decide
    · obtain ⟨value, hvalue⟩ := h.digit_of_mem hd
      exact Nat.le_trans (by decide) (hexDigit?_range hvalue).1
    · decide
  | plain _ _ hcontrol => simp [Printable, hcontrol]

/-- No escape begins with a quote, so none is taken for the end. -/
theorem ne_quote (h : Escape c text) : ∃ d tail, text = d :: tail ∧ d ≠ '"' := by
  cases h with
  | short _ => exact ⟨_, _, rfl, by decide⟩
  | codePoint _ => exact ⟨_, _, rfl, by decide⟩
  | plain _ hquote _ => exact ⟨_, _, rfl, hquote⟩

/-- What an escape stands for, and where it ends, does not depend on what follows it. -/
theorem unique (h : Escape c text) (h' : Escape c' text') (heq : text ++ rest = text' ++ rest') :
    c = c' ∧ rest = rest' := by
  cases h with
  | short h =>
    cases h' with
    | short h' =>
      simp only [List.cons_append, List.nil_append, List.cons.injEq, true_and] at heq
      obtain ⟨rfl, heq⟩ := heq
      exact ⟨Option.some.inj (h.symm.trans h'), heq⟩
    | codePoint _ =>
      simp only [List.cons_append, List.nil_append, List.cons.injEq, true_and] at heq
      obtain ⟨rfl, -⟩ := heq
      cases h
    | plain hslash _ _ => exact absurd (List.cons.inj heq).1.symm hslash
  | codePoint h =>
    cases h' with
    | short h' =>
      simp only [List.cons_append, List.nil_append, List.cons.injEq, true_and] at heq
      obtain ⟨rfl, -⟩ := heq
      cases h'
    | codePoint h' =>
      simp only [List.cons_append, List.append_assoc, List.nil_append, List.cons.injEq,
        true_and] at heq
      -- The digits end at the brace, which is none of them.
      obtain ⟨rfl, hrest⟩ :=
        append_cons_inj_of_notMem (brace_notMem_of_hexDigits h) (brace_notMem_of_hexDigits h') heq
      exact ⟨Char.toNat_inj.mp (h.unique h'), hrest⟩
    | plain hslash _ _ => exact absurd (List.cons.inj heq).1.symm hslash
  | plain hslash _ _ =>
    cases h' with
    | short _ => exact absurd (List.cons.inj heq).1 hslash
    | codePoint _ => exact absurd (List.cons.inj heq).1 hslash
    | plain _ _ _ => exact List.cons.inj heq

end Escape

/-! ## Quoted text -/

/-- Where the closing quote stands can be told from the escapes before it. -/
theorem flatMap_escape_unique {s s' rest rest' : List Char}
    (heq : s.flatMap escape ++ '"' :: rest = s'.flatMap escape ++ '"' :: rest') :
    s = s' ∧ rest = rest' := by
  induction s generalizing s' with
  | nil =>
    cases s' with
    | nil => exact ⟨rfl, (List.cons.inj heq).2⟩
    | cons c' s' =>
      obtain ⟨d, tail, htext, hd⟩ := (escape_escape c').ne_quote
      simp only [List.flatMap_nil, List.nil_append, List.flatMap_cons, htext, List.cons_append,
        List.cons.injEq] at heq
      exact absurd heq.1.symm hd
  | cons c s ih =>
    cases s' with
    | nil =>
      obtain ⟨d, tail, htext, hd⟩ := (escape_escape c).ne_quote
      simp only [List.flatMap_nil, List.nil_append, List.flatMap_cons, htext, List.cons_append,
        List.cons.injEq] at heq
      exact absurd heq.1 hd
    | cons c' s' =>
      rw [List.flatMap_cons, List.flatMap_cons, List.append_assoc, List.append_assoc] at heq
      obtain ⟨rfl, htail⟩ := (escape_escape c).unique (escape_escape c') heq
      obtain ⟨rfl, hrest⟩ := ih htail
      exact ⟨rfl, hrest⟩

/-- **Different texts are quoted differently.** -/
theorem quote_injective {s s' : String} (h : quote s = quote s') : s = s' := by
  have hlist := (List.cons.inj (String.ofList_injective h)).2
  exact String.toList_injective (flatMap_escape_unique hlist).1

/-- **A quoted text has no control characters.** -/
theorem printable_quote (s : String) : Printable (quote s).toList := by
  intro d hd
  rw [quote, String.toList_ofList, List.mem_cons, List.mem_append, List.mem_singleton] at hd
  rcases hd with rfl | hd | rfl
  · decide
  · obtain ⟨c, -, hc⟩ := List.mem_flatMap.mp hd
    exact (escape_escape c).printable d hc
  · decide

end StackCode.Text
