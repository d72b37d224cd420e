import StackCode.Json.Reader

/-!
# Skipping values

A value that nobody asked for is checked for its grammar and otherwise passed over: numbers may have
any size, surrogates need no partner, and arrays and objects may be nested to any depth. The
containers that are open are kept in a list, the innermost first.

This is a loop and not a recursion, since its depth is not limited: a list of open containers does
what the stack of calls would do. The list is all that is known of what was passed over.
-/

set_option autoImplicit false

namespace StackCode.Json

/-- The two kinds of container. -/
inductive Container where
  | array | object
deriving DecidableEq

namespace Container

/-- The character that closes a container. -/
def closing : Container → Char
  | .array => ']'
  | .object => '\x7d'

/-- What a text breaks off in when it ends inside of a container. -/
def unfinished : Container → Unfinished
  | .array => .list
  | .object => .object

/-- What is wrong when neither a comma nor the closing character follows an item. -/
def endExpected : Container → Malformed
  | .array => .expectedListEnd
  | .object => .expectedObjectEnd

end Container

namespace Scan

/-- Skips one or more digits. -/
def skipDigits (cs : List Char) : Except Fault (List Char) :=
  match digits cs with
  | ([], _) => malformed .invalidNumber
  | (_, rest) => .ok rest

/-- Skips the power of ten of a number, if there is one. -/
def skipPower (cs : List Char) : Except Fault (List Char) :=
  match cs with
  | 'e' :: cs | 'E' :: cs => skipDigits (sign cs).2
  | cs => .ok cs

/-- Skips a number behind its sign. -/
def skipNumber (cs : List Char) : Except Fault (List Char) :=
  match digits cs with
  | ([], _) | (0 :: _ :: _, _) => malformed .invalidNumber
  | (_, '.' :: rest) => do
    let rest ← skipDigits rest
    skipPower rest
  | (_, rest) => skipPower rest

/-- Skips a value that is neither array nor object. -/
def skipScalar (cs : List Char) : Except Fault (List Char) :=
  match cs with
  | 'n' :: cs => word ['u', 'l', 'l'] cs
  | 't' :: cs => word ['r', 'u', 'e'] cs
  | 'f' :: cs => word ['a', 'l', 's', 'e'] cs
  | '-' :: cs => skipNumber cs
  | '"' :: cs => skipString cs
  | [] => cutOff .value
  | c :: _ => if c.isDigit then skipNumber cs else malformed .expectedValue

/-- Skips the key of an entry and its colon. -/
def skipKey (cs : List Char) : Except Fault (List Char) :=
  match skipBlanks cs with
  | [] => cutOff .object
  | '"' :: cs => do
    let cs ← skipString cs
    colon cs
  | _ => malformed .keyNotString

theorem skipDigits_length {cs rest : List Char} (h : skipDigits cs = .ok rest) :
    rest.length ≤ cs.length := by
  unfold skipDigits at h
  split at h
  · simp [malformed] at h
  · rename_i heq
    have := digits_length_of_eq heq
    cases h
    omega

theorem skipPower_length {cs rest : List Char} (h : skipPower cs = .ok rest) :
    rest.length ≤ cs.length := by
  unfold skipPower at h
  split at h
  · rename_i cs
    have := skipDigits_length h
    have := sign_length cs
    simp only [List.length_cons]
    omega
  · rename_i cs
    have := skipDigits_length h
    have := sign_length cs
    simp only [List.length_cons]
    omega
  · cases h
    omega

theorem skipNumber_length {cs rest : List Char} (h : skipNumber cs = .ok rest) :
    rest.length < cs.length := by
  unfold skipNumber at h
  split at h
  · simp [malformed] at h
  · simp [malformed] at h
  · rename_i ds left hnil _ heq
    have hlen := digits_length_of_eq heq
    obtain ⟨mid, hd, hp⟩ := bind_eq_ok.1 h
    have := skipDigits_length hd
    have := skipPower_length hp
    simp only [List.length_cons] at hlen
    omega
  · rename_i ds left hnil _ _ heq
    have hlen := digits_length_of_eq heq
    have := skipPower_length h
    cases ds with
    | nil => exact (hnil rfl).elim
    | cons d ds =>
      simp only [List.length_cons] at hlen
      omega

theorem skipScalar_length {cs rest : List Char} (h : skipScalar cs = .ok rest) :
    rest.length < cs.length := by
  unfold skipScalar at h
  split at h
  · have := word_length h
    simp only [List.length_cons]
    omega
  · have := word_length h
    simp only [List.length_cons]
    omega
  · have := word_length h
    simp only [List.length_cons]
    omega
  · have := skipNumber_length h
    simp only [List.length_cons]
    omega
  · have := skipString_length h
    simp only [List.length_cons]
    omega
  · simp [cutOff] at h
  · split at h
    · exact skipNumber_length h
    · simp [malformed] at h

theorem skipKey_length {cs rest : List Char} (h : skipKey cs = .ok rest) :
    rest.length < cs.length := by
  unfold skipKey at h
  split at h
  · simp [cutOff] at h
  · rename_i heq
    have := length_lt_of_skipBlanks_eq_cons heq
    obtain ⟨mid, hs, hc⟩ := bind_eq_ok.1 h
    have := skipString_length hs
    have := colon_length hc
    omega
  · simp [malformed] at h

mutual
/-- Skips a value inside of open containers, and then the rest of these. -/
def skipValue (opened : List Container) (cs : List Char) : Except Fault (List Char) :=
  match _blanks : skipBlanks cs with
  | '[' :: rest => skipBehind true .array opened rest
  | '\x7b' :: rest => skipBehind true .object opened rest
  | left =>
    match _scalar : skipScalar left with
    | .error fault => .error fault
    | .ok rest =>
      match opened with
      | [] => .ok rest
      | inner :: outer => skipBehind false inner outer rest
termination_by 3 * cs.length
decreasing_by
  · have := length_lt_of_skipBlanks_eq_cons _blanks
    omega
  · have := length_lt_of_skipBlanks_eq_cons _blanks
    omega
  · have := skipBlanks_length cs
    have := skipScalar_length _scalar
    rw [_blanks] at *
    omega

/-- Skips the rest of the innermost container, from its opening character or from behind an item,
and then the rest of the others. -/
def skipBehind (first : Bool) (inner : Container) (outer : List Container) (cs : List Char) :
    Except Fault (List Char) :=
  match _blanks : skipBlanks cs with
  | [] => cutOff inner.unfinished
  | c :: rest =>
    if c = inner.closing then
      match outer with
      | [] => .ok rest
      | next :: outer => skipBehind false next outer rest
    else if first then skipItem inner outer (c :: rest)
    else if c = ',' then skipItem inner outer rest
    else malformed inner.endExpected
termination_by 3 * cs.length + 2
decreasing_by
  · have := length_lt_of_skipBlanks_eq_cons _blanks
    omega
  · have := length_lt_of_skipBlanks_eq_cons _blanks
    simp only [List.length_cons]
    omega
  · have := length_lt_of_skipBlanks_eq_cons _blanks
    omega

/-- Skips an item of an array or an entry of an object, and then the rest of all containers. -/
def skipItem (inner : Container) (outer : List Container) (cs : List Char) :
    Except Fault (List Char) :=
  match inner with
  | .array => skipValue (.array :: outer) cs
  | .object =>
    match _key : skipKey cs with
    | .error fault => .error fault
    | .ok rest => skipValue (.object :: outer) rest
termination_by 3 * cs.length + 1
decreasing_by
  · omega
  · have := skipKey_length _key
    omega
end

mutual
theorem skipValue_length {opened : List Container} {cs rest : List Char}
    (h : skipValue opened cs = .ok rest) : rest.length < cs.length := by
  rw [skipValue] at h
  split at h
  · rename_i left heq
    have := length_lt_of_skipBlanks_eq_cons heq
    have := skipBehind_length h
    omega
  · rename_i left heq
    have := length_lt_of_skipBlanks_eq_cons heq
    have := skipBehind_length h
    omega
  · have := skipBlanks_length cs
    split at h
    · simp at h
    · rename_i hs
      have := skipScalar_length hs
      split at h
      · cases h
        omega
      · have := skipBehind_length h
        omega
termination_by 3 * cs.length

theorem skipBehind_length {first : Bool} {inner : Container} {outer : List Container}
    {cs rest : List Char} (h : skipBehind first inner outer cs = .ok rest) :
    rest.length < cs.length := by
  rw [skipBehind] at h
  split at h
  · simp [cutOff] at h
  · rename_i c left heq
    have := length_lt_of_skipBlanks_eq_cons heq
    split at h
    · split at h
      · cases h
        exact this
      · have := skipBehind_length h
        omega
    · split at h
      · have hlen := skipItem_length h
        simp only [List.length_cons] at hlen
        omega
      · split at h
        · have := skipItem_length h
          omega
        · simp [malformed] at h
termination_by 3 * cs.length + 2

theorem skipItem_length {inner : Container} {outer : List Container} {cs rest : List Char}
    (h : skipItem inner outer cs = .ok rest) : rest.length < cs.length := by
  cases inner with
  | array =>
    rw [skipItem] at h
    exact skipValue_length h
  | object =>
    rw [skipItem] at h
    split at h
    · simp at h
    · rename_i hk
      have := skipKey_length hk
      have := skipValue_length h
      omega
termination_by 3 * cs.length + 1
end

end Scan

/-- Skips a value. -/
def Reader.skip : Reader Unit where
  run cs :=
    match Scan.skipValue [] cs with
    | .error fault => .error fault
    | .ok rest => .ok ((), rest)
  consumes {cs a rest} h := by
    split at h
    · simp at h
    · rename_i heq
      cases h
      exact Scan.skipValue_length heq

end StackCode.Json
