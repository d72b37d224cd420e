import StackCode.Json.Basic

/-!
# Records with named fields

A record is described by its fields in order, each with its name, with what reads its value, and
with the value it has when it is left out, if it may be. The description does not say what is read
from: `R β` is whatever reads a `β`, be it from a JSON value or from text. So a record that occurs
in both is described once.

Reading a record in the form of an object fills the fields one by one, in the order in which the
entries are written. Once all entries are read, the fields left out get their fallbacks, and the
first one without is reported.

A field has room for its value. A record whose fields are partly filled is again a description of
fields, with those that are filled remembered, and this is what is carried from entry to entry.

The types of the fields are part of the type of the description, so a record cannot be made of the
wrong number of values or in the wrong order.
-/

set_option autoImplicit false

namespace StackCode.Json

variable {R : Type → Type} {α : Type}

/-- The fields of a record of type `α`. The last argument is the type of the function that makes the
record from the values of the fields. `slot` holds the value once it is read. -/
inductive Fields (R : Type → Type) (α : Type) : Type → Type 1 where
  | done : Fields R α α
  | field {β γ : Type} (name : String) (read : R β) (fallback slot : Option β)
      (rest : Fields R α γ) : Fields R α (β → γ)

/-- A record: how faults call it, its fields, and the function that makes it. -/
structure Record (R : Type → Type) (α : Type) : Type 1 where
  title : String
  {Make : Type}
  fields : Fields R α Make
  make : Make

namespace Fields

/-- A field that must be given. -/
def required {β γ : Type} (name : String) (read : R β) (rest : Fields R α γ) : Fields R α (β → γ) :=
  .field name read none none rest

/-- A field that has a value when it is left out. -/
def optional {β γ : Type} (name : String) (read : R β) (fallback : β) (rest : Fields R α γ) :
    Fields R α (β → γ) :=
  .field name read (some fallback) none rest

/-- The number of fields. -/
def size {γ : Type} : Fields R α γ → Nat
  | .done => 0
  | .field _ _ _ _ rest => rest.size + 1

/-- Reads the field of a name from `source` and puts the value into its slot. Gives the fields and
what is left of the source, and nothing for a name that no field has. A slot is filled only once. -/
def fill {ρ ρ' γ : Type} (run : {β : Type} → R β → ρ → Except Fault (β × ρ')) (key : String)
    (source : ρ) : Fields R α γ → Option (Except Fault (Fields R α γ × ρ'))
  | .done => none
  | .field name read fallback slot rest =>
    if name = key then
      match slot with
      | some _ => some (.error (.duplicateField name))
      | none =>
        match run read source with
        | .error fault => some (.error fault)
        | .ok (b, left) => some (.ok (.field name read fallback (some b) rest, left))
    else
      match rest.fill run key source with
      | none => none
      | some (.error fault) => some (.error fault)
      | some (.ok (rest, left)) => some (.ok (.field name read fallback slot rest, left))

/-- Makes the record once all entries are read. -/
def finish {γ : Type} : Fields R α γ → γ → Except Fault α
  | .done, a => .ok a
  | .field name _ fallback slot rest, make =>
    match slot.or fallback with
    | some b => rest.finish (make b)
    | none => .error (.missingField name)

end Fields

end StackCode.Json
