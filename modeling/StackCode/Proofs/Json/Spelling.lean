import StackCode.Json.Scan
import StackCode.Proofs.Text.Digits

/-!
# The texts of a JSON value

`j.Spelling text` says that `text` writes the value `j`: with any blanks between its parts, and with
any spelling of its strings. A number that is an integer is written in decimal. Any other number is
a numeral, with a fraction or a power of ten or without, and is what the reader of numbers makes of
its digits.

Two kinds of text that the grammar of JSON allows write no value here.

- A numeral that the reader of numbers finds out of range.
- A string with the escape of a surrogate that has no partner, such as `"\ud800"`: it stands for no
  characters. `StringText` is the grammar of strings with these, and they are all that is left out
  (`stringText_iff`). The reader refuses them in every value that it keeps and in every name
  (`Scan.string_isOk_iff`). It does pass over them in the value of an unknown entry of a program or
  of its scope, which nobody keeps; such texts are left out all the same.

Blanks in front of a value and behind it belong to what is around it.
-/

set_option autoImplicit false

namespace StackCode.Json

open Text (Utf16Unit IsHighSurrogate IsLowSurrogate combineSurrogates)

/-- A run of blanks. -/
def Blanks (ws : List Char) : Prop :=
  ∀ c ∈ ws, c ∈ [' ', '\t', '\n', '\r']

/-! ## Strings

Two grammars of the text between quotes. The first says which characters a text writes, and the
second is the grammar of JSON, in which an escape may be that of any code unit. -/

/-- The letters that make up an escape together with a backslash, and what the escape denotes. -/
def shortEscapes : List (Char × Char) :=
  [('"', '"'), ('\\', '\\'), ('/', '/'), ('b', '\x08'), ('f', '\x0c'), ('n', '\n'),
    ('r', '\r'), ('t', '\t')]

/-- The text between two quotes writes these characters. A character is written as it is, unless it
has to be escaped, or by any escape for it. -/
inductive CharsSpelling : (chars text : List Char) → Prop
  | nil : CharsSpelling [] []
  | plain {c : Char} {chars text : List Char} (hc : c ≠ '"' ∧ c ≠ '\\' ∧ 32 ≤ c.toNat)
      (h : CharsSpelling chars text) : CharsSpelling (c :: chars) (c :: text)
  | short {letter c : Char} {chars text : List Char} (hc : (letter, c) ∈ shortEscapes)
      (h : CharsSpelling chars text) : CharsSpelling (c :: chars) ('\\' :: letter :: text)
  | unit {digits chars text : List Char} {unit : Nat} (hunit : Utf16Unit digits unit)
      (hhigh : ¬ IsHighSurrogate unit) (hlow : ¬ IsLowSurrogate unit)
      (h : CharsSpelling chars text) :
      CharsSpelling (Char.ofNat unit :: chars) ('\\' :: 'u' :: digits ++ text)
  | pair {digits digits' chars text : List Char} {high low : Nat} (hunit : Utf16Unit digits high)
      (hhigh : IsHighSurrogate high) (hunit' : Utf16Unit digits' low) (hlow : IsLowSurrogate low)
      (h : CharsSpelling chars text) :
      CharsSpelling (Char.ofNat (combineSurrogates high low) :: chars)
        ('\\' :: 'u' :: digits ++ '\\' :: 'u' :: digits' ++ text)

/-- The grammar of the text between two quotes. An escape may be that of any code unit, also of a
surrogate without its partner. -/
inductive StringText : List Char → Prop
  | nil : StringText []
  | plain {c : Char} {text : List Char} (hc : c ≠ '"' ∧ c ≠ '\\' ∧ 32 ≤ c.toNat)
      (h : StringText text) : StringText (c :: text)
  | short {letter c : Char} {text : List Char} (hc : (letter, c) ∈ shortEscapes)
      (h : StringText text) : StringText ('\\' :: letter :: text)
  | unit {digits text : List Char} {unit : Nat} (hunit : Utf16Unit digits unit)
      (h : StringText text) : StringText ('\\' :: 'u' :: digits ++ text)

/-- The text begins with the escape of a surrogate that has no partner. -/
def Unpaired (text : List Char) : Prop :=
  ∃ digits unit rest, text = '\\' :: 'u' :: digits ++ rest ∧ Utf16Unit digits unit ∧
    (IsLowSurrogate unit ∨
      IsHighSurrogate unit ∧ ∀ digits' low rest', rest = '\\' :: 'u' :: digits' ++ rest' →
        Utf16Unit digits' low → ¬ IsLowSurrogate low)

/-- What writes characters may stand in front of any text of the grammar. -/
theorem CharsSpelling.stringText_append {chars text rest : List Char}
    (h : CharsSpelling chars text) (hrest : StringText rest) : StringText (text ++ rest) := by
  induction h with
  | nil => exact hrest
  | plain hc _ ih => exact .plain hc ih
  | short hc _ ih => exact .short hc ih
  | unit hunit _ _ _ ih =>
    rw [List.append_assoc]
    exact .unit hunit ih
  | pair hunit _ hunit' _ _ ih =>
    rw [List.append_assoc, List.append_assoc]
    exact .unit hunit (.unit hunit' ih)

/-- What stands behind the escape of a code unit is a text of the grammar again. -/
theorem StringText.of_unit {digits text : List Char} {unit : Nat} (hunit : Utf16Unit digits unit)
    (h : StringText ('\\' :: 'u' :: digits ++ text)) : StringText text := by
  generalize hwhole : '\\' :: 'u' :: digits ++ text = whole at h
  cases h with
  | nil => cases hwhole
  | plain hc _ =>
    cases hwhole
    exact absurd rfl hc.2.1
  | short hc _ =>
    cases hwhole
    simp [shortEscapes] at hc
  | unit hunit' h =>
    have hrest := (List.cons.inj (List.cons.inj hwhole).2).2
    obtain ⟨-, rfl⟩ := List.append_inj hrest (hunit.1.trans hunit'.1.symm)
    exact h

/-- A surrogate without its partner stands for no character. -/
theorem Unpaired.not_spelled {chars text : List Char} (h : Unpaired text) :
    ¬ CharsSpelling chars text := by
  obtain ⟨digits, unit, rest, rfl, hunit, hkind⟩ := h
  generalize hwhole : '\\' :: 'u' :: digits ++ rest = whole
  intro hspelled
  cases hspelled with
  | nil => cases hwhole
  | plain hc _ =>
    cases hwhole
    exact hc.2.1 rfl
  | short hc _ =>
    cases hwhole
    simp [shortEscapes] at hc
  | unit hunit' hhigh hlow _ =>
    -- Four digits give one unit, so the unit would be a surrogate and none.
    have hrest := (List.cons.inj (List.cons.inj hwhole).2).2
    obtain ⟨rfl, rfl⟩ := List.append_inj hrest (hunit.1.trans hunit'.1.symm)
    obtain rfl := hunit.2.unique hunit'.2
    exact hkind.elim hlow fun h => hhigh h.1
  | pair hunit' hhigh hpartner hlow _ =>
    rw [List.append_assoc] at hwhole
    have hrest := (List.cons.inj (List.cons.inj hwhole).2).2
    obtain ⟨rfl, rfl⟩ := List.append_inj hrest (hunit.1.trans hunit'.1.symm)
    obtain rfl := hunit.2.unique hunit'.2
    -- Either the surrogate is a low one, which does not begin a pair, or no partner follows.
    rcases hkind with hlow' | ⟨-, hnone⟩
    · exact Nat.not_lt.mpr hlow'.1 hhigh.2
    · exact hnone _ _ _ rfl hpartner hlow

/-- The text writes characters, or does so up to a surrogate that has no partner. -/
def SpelledOrUnpaired (text : List Char) : Prop :=
  (∃ chars, CharsSpelling chars text) ∨
    ∃ chars before rest, CharsSpelling chars before ∧ text = before ++ rest ∧ Unpaired rest ∧
      StringText rest

theorem SpelledOrUnpaired.prepend {text : List Char} {c : Char} (h : SpelledOrUnpaired text)
    (front : List Char)
    (hc : ∀ {chars more}, CharsSpelling chars more → CharsSpelling (c :: chars) (front ++ more)) :
    SpelledOrUnpaired (front ++ text) := by
  rcases h with ⟨chars, h⟩ | ⟨chars, before, rest, h, rfl, hrest⟩
  · exact .inl ⟨c :: chars, hc h⟩
  · exact .inr ⟨c :: chars, front ++ before, rest, hc h, (List.append_assoc ..).symm, hrest⟩

/-- **A text of the grammar writes characters, unless a surrogate in it has no partner.** -/
theorem StringText.spelled_or_unpaired {text : List Char} (h : StringText text) :
    SpelledOrUnpaired text := by
  -- A pair takes two escapes at once, so the induction is on the length and not on the grammar.
  induction hlength : text.length using Nat.strongRecOn generalizing text with
  | ind length ih =>
    subst hlength
    cases h with
    | nil => exact .inl ⟨[], .nil⟩
    | @plain c text hc h =>
      exact (ih _ (Nat.lt_succ_self _) h rfl).prepend [c] (.plain hc)
    | @short letter c text hc h =>
      have hlt : text.length < ('\\' :: letter :: text).length := by
        simp only [List.length_cons]
        omega
      exact (ih _ hlt h rfl).prepend ['\\', letter] (.short hc)
    | @unit digits text unit hunit h =>
      have hlt : text.length < ('\\' :: 'u' :: digits ++ text).length := by
        simp only [List.length_cons, List.length_append]
        omega
      by_cases hlow : IsLowSurrogate unit
      · have hunpaired : Unpaired ('\\' :: 'u' :: digits ++ text) :=
          ⟨digits, unit, text, rfl, hunit, .inl hlow⟩
        exact .inr ⟨[], [], _, .nil, rfl, hunpaired, .unit hunit h⟩
      · by_cases hhigh : IsHighSurrogate unit
        · by_cases hpartner : ∃ digits' low text', text = '\\' :: 'u' :: digits' ++ text' ∧
            Utf16Unit digits' low ∧ IsLowSurrogate low
          · obtain ⟨digits', low, text', rfl, hunit', hlow'⟩ := hpartner
            have hshorter : text'.length < ('\\' :: 'u' :: digits' ++ text').length := by
              simp only [List.length_cons, List.length_append]
              omega
            have hrest := ih _ (Nat.lt_trans hshorter hlt) (h.of_unit hunit') rfl
            rw [← List.append_assoc]
            exact hrest.prepend _ (.pair hunit hhigh hunit' hlow')
          · have hunpaired : Unpaired ('\\' :: 'u' :: digits ++ text) := by
              refine ⟨digits, unit, text, rfl, hunit, .inr ⟨hhigh, ?_⟩⟩
              intro digits' low text' htext hunit' hlow'
              exact hpartner ⟨digits', low, text', htext, hunit', hlow'⟩
            exact .inr ⟨[], [], _, .nil, rfl, hunpaired, .unit hunit h⟩
        · exact (ih _ hlt h rfl).prepend ('\\' :: 'u' :: digits) (.unit hunit hhigh hlow)

/-- **The grammar is exhausted**: a text of it writes characters, or does so up to a surrogate that
has no partner, and every such text is one of the grammar. -/
theorem stringText_iff {text : List Char} : StringText text ↔ SpelledOrUnpaired text := by
  constructor
  · exact StringText.spelled_or_unpaired
  · rintro (⟨chars, h⟩ | ⟨chars, before, rest, h, rfl, -, hrest⟩)
    · rw [← List.append_nil text]
      exact h.stringText_append .nil
    · exact h.stringText_append hrest

/-- The text writes a string, with its quotes. -/
def Quoted (s : String) (text : List Char) : Prop :=
  ∃ body, text = '"' :: body ++ ['"'] ∧ CharsSpelling s.toList body

/-- A string whose characters need no escapes is written as it is. -/
theorem quoted_of_plain {s : String} (h : ∀ c ∈ s.toList, c ≠ '"' ∧ c ≠ '\\' ∧ 32 ≤ c.toNat) :
    Quoted s ('"' :: s.toList ++ ['"']) := by
  refine ⟨s.toList, rfl, ?_⟩
  generalize s.toList = chars at h
  induction chars with
  | nil => exact .nil
  | cons c chars ih =>
    exact .plain (h c List.mem_cons_self) (ih fun c' hc' => h c' (List.mem_cons_of_mem _ hc'))

/-! ## Numbers

An integer is written in one way only, without a zero or a plus in front. Any other number is known
by its digits, before and behind the point, and by its power of ten; what number that is is said by
the reader and not defined a second time. -/

/-- An integer in decimal. -/
def decimal (n : Int) : List Char :=
  if n < 0 then '-' :: Nat.toDigits 10 n.natAbs else Nat.toDigits 10 n.natAbs

/-- One or more decimal digits, and their values. -/
def Decimals (text : List Char) (digits : List Nat) : Prop :=
  text ≠ [] ∧ (∀ c ∈ text, c.isDigit) ∧ digits = text.map fun c => c.toNat - 48

/-- Decimal digits in front of the point. There is no zero in front of others. -/
def Whole (text : List Char) (digits : List Nat) : Prop :=
  Decimals text digits ∧ ∀ rest, text = '0' :: rest → rest = []

/-- The fraction of a numeral, if there is one. -/
inductive Fraction : (text : List Char) → (digits : List Nat) → Prop
  | none : Fraction [] []
  | some {text : List Char} {digits : List Nat} (h : Decimals text digits) :
      Fraction ('.' :: text) digits

/-- The power of ten of a numeral, if there is one. -/
inductive Power : (text : List Char) → (power : Int) → Prop
  | none : Power [] 0
  | positive {e : Char} {sign text : List Char} {digits : List Nat} (he : e = 'e' ∨ e = 'E')
      (hsign : sign = [] ∨ sign = ['+']) (h : Decimals text digits) :
      Power (e :: sign ++ text) (Scan.ofDigits digits)
  | negative {e : Char} {text : List Char} {digits : List Nat} (he : e = 'e' ∨ e = 'E')
      (h : Decimals text digits) : Power (e :: '-' :: text) (-(Scan.ofDigits digits : Int))

/-- The text behind the sign of a number. -/
inductive Numeral (negative : Bool) : Number → List Char → Prop
  | whole {text : List Char} {digits : List Nat} {x : Number} (h : Whole text digits)
      (hx : Scan.wholeNumber negative digits = .ok x) : Numeral negative x text
  | real {text fraction power : List Char} {digits digits' : List Nat} {p : Int} {x : Number}
      (h : Whole text digits) (hfraction : Fraction fraction digits') (hpower : Power power p)
      (hsome : fraction ≠ [] ∨ power ≠ [])
      (hx : Scan.realNumber negative digits digits' p = .ok x) :
      Numeral negative x (text ++ (fraction ++ power))

/-- The text writes a number. -/
inductive NumberSpelling : Number → List Char → Prop
  | integer {n : Int} (hlow : -0x8000000000000000 ≤ n) (hhigh : n < 0x10000000000000000) :
      NumberSpelling (.integer n) (decimal n)
  | positive {x : Number} {text : List Char} (h : Numeral false x text) : NumberSpelling x text
  | negative {x : Number} {text : List Char} (h : Numeral true x text) :
      NumberSpelling x ('-' :: text)

/-! ## Values

The relation goes by the form of the value. Blanks are allowed in front of every part and before
every closing bracket. -/

/-- What stands in front of an item or an entry: blanks, and a comma unless it is the first. -/
inductive Separator : (first : Bool) → List Char → Prop
  | blanks {ws : List Char} (h : Blanks ws) : Separator true ws
  | comma {ws ws' : List Char} (h : Blanks ws) (h' : Blanks ws') :
      Separator false (ws ++ ',' :: ws')

mutual

/-- The text writes a value. -/
inductive Spelling : Json → List Char → Prop
  | null : Spelling .null ['n', 'u', 'l', 'l']
  | true : Spelling (.bool true) ['t', 'r', 'u', 'e']
  | false : Spelling (.bool false) ['f', 'a', 'l', 's', 'e']
  | number {x : Number} {text : List Char} (h : NumberSpelling x text) : Spelling (.number x) text
  | string {s : String} {text : List Char} (h : Quoted s text) : Spelling (.string s) text
  | array {items : List Json} {text : List Char} (h : ItemsSpelling true items text) :
      Spelling (.array items) ('[' :: text)
  | object {entries : List (String × Json)} {text : List Char}
      (h : EntriesSpelling true entries text) : Spelling (.object entries) ('\x7b' :: text)

/-- The text writes items and closes the array. -/
inductive ItemsSpelling : (first : Bool) → List Json → List Char → Prop
  | close {first : Bool} {ws : List Char} (h : Blanks ws) : ItemsSpelling first [] (ws ++ [']'])
  | item {first : Bool} {separator text more : List Char} {j : Json} {items : List Json}
      (hseparator : Separator first separator) (h : Spelling j text)
      (hmore : ItemsSpelling false items more) :
      ItemsSpelling first (j :: items) (separator ++ (text ++ more))

/-- The text writes entries and closes the object. -/
inductive EntriesSpelling : (first : Bool) → List (String × Json) → List Char → Prop
  | close {first : Bool} {ws : List Char} (h : Blanks ws) :
      EntriesSpelling first [] (ws ++ ['\x7d'])
  | entry {first : Bool} {separator name ws ws' text more : List Char} {key : String} {j : Json}
      {entries : List (String × Json)} (hseparator : Separator first separator)
      (hname : Quoted key name)
      (hws : Blanks ws) (hws' : Blanks ws') (h : Spelling j text)
      (hmore : EntriesSpelling false entries more) :
      EntriesSpelling first ((key, j) :: entries)
        (separator ++ (name ++ (ws ++ ':' :: (ws' ++ (text ++ more)))))

end

/-- The whole of a text writes a value, with blanks around it. -/
def Document (j : Json) (text : String) : Prop :=
  ∃ ws spelling ws', Blanks ws ∧ Spelling j spelling ∧ Blanks ws' ∧
    text.toList = ws ++ (spelling ++ ws')

/-! ## Depth

What counts is how many arrays and objects are open at once, not how many there are. -/

mutual

/-- The number of arrays and objects that are open at once. -/
def depth : Json → Nat
  | .array items => depthOfItems items + 1
  | .object entries => depthOfEntries entries + 1
  | _ => 0

def depthOfItems : List Json → Nat
  | [] => 0
  | j :: items => max j.depth (depthOfItems items)

def depthOfEntry : String × Json → Nat
  | (_, j) => j.depth

def depthOfEntries : List (String × Json) → Nat
  | [] => 0
  | entry :: entries => max (depthOfEntry entry) (depthOfEntries entries)

end

theorem depth_le_of_mem_items {items : List Json} {j : Json} (h : j ∈ items) :
    j.depth ≤ depthOfItems items := by
  induction items with
  | nil => cases h
  | cons j' items ih =>
    rw [depthOfItems]
    rcases List.mem_cons.mp h with rfl | h
    · exact Nat.le_max_left _ _
    · exact Nat.le_trans (ih h) (Nat.le_max_right _ _)

theorem depth_le_of_mem_entries {entries : List (String × Json)} {key : String} {j : Json}
    (h : (key, j) ∈ entries) :
    j.depth ≤ depthOfEntries entries := by
  induction entries with
  | nil => cases h
  | cons entry entries ih =>
    rw [depthOfEntries]
    rcases List.mem_cons.mp h with rfl | h
    · exact Nat.le_max_left _ _
    · exact Nat.le_trans (ih h) (Nat.le_max_right _ _)

end StackCode.Json
