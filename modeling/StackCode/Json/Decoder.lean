import StackCode.Json.Record

/-!
# Decoders of JSON values

A decoder interprets a JSON value that has been read already. Objects are interpreted entry by entry
in the order written, so the first entry that does not fit is the one reported.

A record may be written as an object, or as an array of its fields in order. A tagged node may be
written as an object with its tag among the entries, or as an array that starts with the tag; what
is left when the tag is taken out is its body, and the tag decides how the body is decoded.

The alternative forms are not made up here: arrays for records and numbers for tags are what a
serializer writes when it is asked to be brief, and a reader has to take both.

How deep a value may be is decided when its text is read. The decoders of this file go down whatever
they are given.
-/

set_option autoImplicit false

namespace StackCode.Json

/-- Interprets a value, or says why it does not fit. -/
abbrev Decoder (α : Type) := Json → Except Fault α

namespace Decoder

variable {α β : Type}

/-- Applies a function to what is decoded. -/
def map (f : α → β) (decode : Decoder α) : Decoder β :=
  fun v => (decode v).map f

/-! ## Scalars and lists -/

def text : Decoder String
  | .string s => .ok s
  | v => .error (.wrongType v.found .text)

def boolean : Decoder Bool
  | .bool b => .ok b
  | v => .error (.wrongType v.found .boolean)

def real : Decoder Double
  | .number (.integer n) => .ok (.ofInt n)
  | .number (.real x) => .ok x
  | v => .error (.wrongType v.found .real)

/-- An integer of so many bits without a sign. -/
def word (bits : Nat) : Decoder Nat
  | .number (.integer n) =>
    if 0 ≤ n ∧ n.toNat < 1 <<< bits then .ok n.toNat else .error
      (.wrongValue (.integer n) (.word bits))
  | v => .error (.wrongType v.found (.word bits))

def word16 : Decoder UInt16 := map UInt16.ofNat (word 16)

def word32 : Decoder UInt32 := map UInt32.ofNat (word 32)

/-- A value that may be null. -/
def nullable (decode : Decoder α) : Decoder (Option α)
  | .null => .ok none
  | v => (decode v).map some

def list (decode : Decoder α) : Decoder (List α)
  | .array vs => vs.mapM decode
  | v => .error (.wrongType v.found .sequence)

/-! ## Choices -/

/-- The choice with a name. -/
def named (choices : List (String × α)) (name : String) : Except Fault α :=
  match choices.lookup name with
  | some a => .ok a
  | none => .error (.unknownVariant name (choices.map Prod.fst))

/-- One of several choices, written as its name or as an object with the name as its only key and
nothing under it. -/
def choice (choices : List (String × α)) : Decoder α
  | .string name => named choices name
  | .object [(name, v)] => do
    let a ← named choices name
    match v with
    | .null | .object [] => .ok a
    | v => .error (.wrongType v.found .unit)
  | .object _ => .error (.wrongValue .map .singleKey)
  | v => .error (.wrongType v.found .nameOrMap)

/-! ## Records -/

/-- Fills fields from the entries of an object. An entry that is no field is ignored. -/
def fields {γ : Type} :
    Fields Decoder α γ → List (String × Json) → Except Fault (Fields Decoder α γ)
  | fs, [] => .ok fs
  | fs, (key, v) :: entries =>
    match fs.fill (fun decode v => (decode v).map fun b => (b, ())) key v with
    | none => fields fs entries
    | some (.error fault) => .error fault
    | some (.ok (fs, _)) => fields fs entries

/-- Makes a record from the items of an array. `given` and `count` are the numbers of items and
fields, `index` is the place of the next item. -/
def items {γ : Type} (title : String) (given count index : Nat) :
    Fields Decoder α γ → γ → List Json → Except Fault α
  | .done, a, [] => .ok a
  | .done, _, _ :: _ => .error (.wrongLength given (.items count))
  | .field _ decode _ _ rest, make, v :: vs =>
    match decode v with
    | .error fault => .error fault
    | .ok b => items title given count (index + 1) rest (make b) vs
  | .field _ _ (some b) _ rest, make, [] => items title given count (index + 1) rest (make b) []
  | .field _ _ none _ _, _, [] => .error (.wrongLength index (.recordItems title count))

def record (r : Record Decoder α) : Decoder α
  | .object entries =>
    match fields r.fields entries with
    | .error fault => .error fault
    | .ok fs => fs.finish r.make
  | .array vs => items r.title vs.length r.fields.size 0 r.fields r.make vs
  | v => .error (.wrongType v.found (.record r.title))

/-- The body of a node that has nothing but its tag. Entries are ignored, items are not. -/
def bare (a : α) : Decoder α
  | .object _ | .array [] => .ok a
  | .array vs => .error (.wrongLength vs.length (.items 0))
  | v => .error (.wrongType v.found .unit)

end Decoder

/-! ## Tagged nodes -/

/-- A type whose values carry a tag: how faults call it, the key of the tag, and for each tag the
decoder of the body. -/
structure Tagged (α : Type) where
  name : String
  key : String
  variants : List (String × Decoder α)

namespace Tagged

variable {α : Type}

/-- The decoder that a tag selects. A tag is a name, or the place of the name in the list. -/
def select (t : Tagged α) : Json → Except Fault (Decoder α)
  | .string name => Decoder.named t.variants name
  | .number (.integer n) =>
    if n < 0 then .error (.wrongType (.integer n) .tag)
    else
      match t.variants[n.toNat]? with
      | some (_, decode) => .ok decode
      | none => .error (.wrongValue (.integer n) (.tagIndex t.variants.length))
  | v => .error (.wrongType v.found .tag)

/-- Decodes the entries of an object once its tag, if there is one, has selected a decoder. -/
def finish (t : Tagged α) (selected : Option (Decoder α)) (entries : List (String × Json)) :
    Except Fault α :=
  match selected with
  | some decode => decode (.object entries)
  | none => .error (.missingField t.key)

/-- Looks for the tag among the entries of an object. `acc` holds the other entries seen so far, the
last one first. -/
def decodeEntries (t : Tagged α) (selected : Option (Decoder α)) (acc : List (String × Json)) :
    List (String × Json) → Except Fault α
  | [] => t.finish selected acc.reverse
  | (key, v) :: entries =>
    if key = t.key then
      if selected.isSome then .error (.duplicateField t.key)
      else
        match t.select v with
        | .error fault => .error fault
        | .ok decode => t.decodeEntries (some decode) acc entries
    else t.decodeEntries selected ((key, v) :: acc) entries

def decode (t : Tagged α) : Decoder α
  | .object entries => t.decodeEntries none [] entries
  | .array [] => .error (.missingField t.key)
  | .array (tag :: vs) =>
    match t.select tag with
    | .error fault => .error fault
    | .ok decode => decode (.array vs)
  | v => .error (.wrongType v.found (.tagged t.name))

end Tagged

/-- Decodes a tagged node where no more arrays and objects may be opened. A node is one or the
other, so nothing fits; a scalar is still refused for what it is. -/
def Decoder.tooDeep {α : Type} (name : String) : Decoder α
  | .array _ | .object _ => .error (.malformed .nesting)
  | v => .error (.wrongType v.found (.tagged name))

end StackCode.Json
