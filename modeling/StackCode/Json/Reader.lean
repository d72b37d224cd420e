import StackCode.Json.Scan.Length

/-!
# Readers of JSON text

A reader takes a value off the front of a text and returns what is left. Every reader consumes
something, and says so in its type. A loop over the items of an array or the entries of an object is
therefore written once, for any reader of one item or entry, and ends because the text gets shorter.

`Reader.value` reads any value. Its argument is the number of arrays and objects that may still be
opened inside of one another.

Being shorter is proved by each reader and used by the loops. It is the reason that no reader needs
fuel, and that the recursion over nested values is on the text and not on a counter; the counter
that `Reader.value` has limits what is accepted and not how long it takes.
-/

set_option autoImplicit false

universe u v

namespace StackCode.Json

/-- A reader of values of one type. -/
structure Reader (α : Type u) where
  /-- The value at the front of a text, and the text that is left. -/
  run : List Char → Except Fault (α × List Char)
  /-- Reading a value consumes text. -/
  consumes : ∀ {cs : List Char} {a : α} {rest : List Char}, run cs = .ok (a, rest) →
    rest.length < cs.length

namespace Reader

/-! ## Combinators

A reader can be put behind a colon, and what it reads can be checked. -/

/-- The reader that finds the same fault in every text. -/
def fail {α : Type u} (fault : Fault) : Reader α where
  run _ := .error fault
  consumes h := by simp at h

/-- Hands on the value of a step and the text it left, if the value passes a check. -/
def checked {α : Type u} {β : Type v} (check : α → Except Fault β) :
    Except Fault (α × List Char) → Except Fault (β × List Char)
  | .error fault => .error fault
  | .ok (a, rest) =>
    match check a with
    | .error fault => .error fault
    | .ok b => .ok (b, rest)

theorem checked_eq_ok {α : Type u} {β : Type v} {check : α → Except Fault β}
    {x : Except Fault (α × List Char)} {b : β} {rest : List Char} :
    checked check x = .ok (b, rest) ↔ ∃ a, x = .ok (a, rest) ∧ check a = .ok b := by
  cases x with
  | error fault => simp [checked]
  | ok p =>
    obtain ⟨a, left⟩ := p
    cases hc : check a with
    | error fault => simp [checked, hc]
    | ok b' =>
      simp only [checked, hc, Except.ok.injEq, Prod.mk.injEq]
      constructor
      · rintro ⟨rfl, rfl⟩
        exact ⟨a, ⟨rfl, rfl⟩, hc⟩
      · rintro ⟨a', ⟨rfl, rfl⟩, hc'⟩
        rw [hc] at hc'
        cases hc'
        exact ⟨rfl, rfl⟩

/-- Reads a value and checks or changes it. -/
def filterMap {α : Type u} {β : Type v} (r : Reader α) (check : α → Except Fault β) : Reader β where
  run cs := checked check (r.run cs)
  consumes h := by
    obtain ⟨a, ha, -⟩ := checked_eq_ok.1 h
    exact r.consumes ha

/-- Reads a value behind the colon of an entry. -/
def behindColon {α : Type u} (r : Reader α) : Reader α where
  run cs :=
    match Scan.colon cs with
    | .error fault => .error fault
    | .ok cs => r.run cs
  consumes {cs a rest} h := by
    split at h
    · simp at h
    · rename_i heq
      have := Scan.colon_length heq
      have := r.consumes h
      omega

/-! ## Items and entries

What is done with an entry may depend on the entries before it, so the loop over entries carries a
state. -/

/-- Reads the items of an array from behind its opening bracket or behind an item. `acc` holds the
items read so far, the last one first. -/
def items {α : Type u} (item : Reader α) (first : Bool) (acc : List α) (cs : List Char) :
    Except Fault (List α × List Char) :=
  match _next : Scan.nextItem first cs with
  | .error fault => .error fault
  | .ok none =>
    match Scan.endArray cs with
    | .error fault => .error fault
    | .ok rest => .ok (acc.reverse, rest)
  | .ok (some left) =>
    match _item : item.run left with
    | .error fault => .error fault
    | .ok (a, rest) => items item false (a :: acc) rest
termination_by cs.length
decreasing_by
  have := Scan.nextItem_length _next
  have := item.consumes _item
  omega

/-- Reads the entries of an object from behind its opening brace or behind an entry. A step reads
from behind the key, so that it may refuse a key before its colon. -/
def entries {σ : Type u} (step : σ → String → Reader σ) (first : Bool) (state : σ)
    (cs : List Char) :
    Except Fault (σ × List Char) :=
  match _next : Scan.nextKey first cs with
  | .error fault => .error fault
  | .ok (none, rest) => .ok (state, rest)
  | .ok (some key, left) =>
    match _entry : (step state key).run left with
    | .error fault => .error fault
    | .ok (state, rest) => entries step false state rest
termination_by cs.length
decreasing_by
  have := Scan.nextKey_length _next
  have := (step _ key).consumes _entry
  omega

theorem items_length {α : Type u} {item : Reader α} {first : Bool} {acc result : List α}
    {cs rest : List Char} (h : items item first acc cs = .ok (result, rest)) :
    rest.length < cs.length := by
  fun_induction items item first acc cs with
  | case1 => simp at h
  | case2 => simp at h
  | case3 first acc cs _ left heq =>
    cases h
    exact Scan.endArray_length heq
  | case4 => simp at h
  | case5 first acc cs left hnext a left' hitem ih =>
    have := Scan.nextItem_length hnext
    have := item.consumes hitem
    have := ih h
    omega

theorem entries_length {σ : Type u} {step : σ → String → Reader σ} {first : Bool} {state result : σ}
    {cs rest : List Char} (h : entries step first state cs = .ok (result, rest)) :
    rest.length < cs.length := by
  fun_induction entries step first state cs with
  | case1 => simp at h
  | case2 first state cs left heq =>
    cases h
    exact Scan.nextKey_length heq
  | case3 => simp at h
  | case4 first state cs key left hnext state' left' hentry ih =>
    have := Scan.nextKey_length hnext
    have := (step state key).consumes hentry
    have := ih h
    omega

/-! ## Values -/

/-- Reads a value by its first character: what follows the opening bracket of an array, what follows
the opening brace of an object, or all of any other value. -/
def byShape {α : Type u} (array object scalar : List Char → Except Fault (α × List Char))
    (harray : ∀ {cs a rest}, array cs = .ok (a, rest) → rest.length ≤ cs.length)
    (hobject : ∀ {cs a rest}, object cs = .ok (a, rest) → rest.length ≤ cs.length)
    (hscalar : ∀ {cs a rest}, scalar cs = .ok (a, rest) → rest.length < cs.length) : Reader α where
  run cs :=
    match Scan.skipBlanks cs with
    | '[' :: cs => array cs
    | '\x7b' :: cs => object cs
    | cs => scalar cs
  consumes {cs a rest} h := by
    split at h
    · rename_i heq
      have := Scan.length_lt_of_skipBlanks_eq_cons heq
      have := harray h
      omega
    · rename_i heq
      have := Scan.length_lt_of_skipBlanks_eq_cons heq
      have := hobject h
      omega
    · have := Scan.skipBlanks_length cs
      have := hscalar h
      omega

/-- Appends an entry to those read so far, the last one first. -/
def keep (item : Reader Json) (acc : List (String × Json)) (key : String) :
    Reader (List (String × Json)) :=
  item.behindColon.filterMap fun v => .ok ((key, v) :: acc)

/-- Reads any value with at most so many arrays and objects open at once. -/
def value : Nat → Reader Json
  | 0 =>
    byShape (fun _ => Scan.malformed .nesting) (fun _ => Scan.malformed .nesting) Scan.scalar
      (by simp [Scan.malformed]) (by simp [Scan.malformed]) Scan.scalar_length
  | depth + 1 =>
    byShape
      (fun cs => checked (fun vs => .ok (.array vs)) (items (value depth) true [] cs))
      (fun cs => checked (fun acc => .ok (.object acc.reverse))
        (entries (keep (value depth)) true [] cs))
      Scan.scalar
      (fun h => by
        obtain ⟨_, ha, -⟩ := checked_eq_ok.1 h
        exact Nat.le_of_lt (items_length ha))
      (fun h => by
        obtain ⟨_, ha, -⟩ := checked_eq_ok.1 h
        exact Nat.le_of_lt (entries_length ha))
      Scan.scalar_length

/-- Refuses a scalar where a container was wanted. It is read to its end first. -/
def refuseScalar {α : Type u} (wanted : Wanted) (cs : List Char) : Except Fault (α × List Char) :=
  checked (fun v => .error (.wrongType v.found wanted)) (Scan.scalar cs)

theorem refuseScalar_ne_ok {α : Type u} {wanted : Wanted} {cs : List Char} {p : α × List Char} :
    refuseScalar wanted cs ≠ .ok p := by
  intro h
  obtain ⟨_, -, hc⟩ := checked_eq_ok.1 h
  simp at hc

/-- Reads a scalar and interprets it. A container is not looked into. -/
def scalar {α : Type u} (wanted : Wanted) (decode : Json → Except Fault α) : Reader α :=
  byShape
    (fun _ => .error (.wrongType .sequence wanted))
    (fun _ => .error (.wrongType .map wanted))
    (fun cs => checked decode (Scan.scalar cs))
    (by simp) (by simp)
    (fun h => by
      obtain ⟨_, ha, -⟩ := checked_eq_ok.1 h
      exact Scan.scalar_length ha)

/-- Reads an array of values of one type. -/
def list {α : Type u} (item : Reader α) : Reader (List α) :=
  byShape
    (items item true [])
    (fun _ => .error (.wrongType .map .sequence))
    (refuseScalar .sequence)
    (fun h => Nat.le_of_lt (items_length h))
    (by simp)
    (fun h => absurd h refuseScalar_ne_ok)

/-- Reads a whole text: behind the value there may be only blanks. -/
def all {α : Type u} (r : Reader α) (text : String) : Except Fault α :=
  match r.run text.toList with
  | .error fault => .error fault
  | .ok (a, rest) =>
    if (Scan.skipBlanks rest).isEmpty then .ok a else .error (.malformed .trailingCharacters)

end Reader

end StackCode.Json
