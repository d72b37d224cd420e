import StackCode.Double.Decimal
import StackCode.Text.Quoted

/-!
# JSON values and faults

A JSON value keeps the entries of an object in the order in which they were written, repeated names
included: what a reader makes of a repeated name is its own affair. A number is kept as an integer
where 64 bits suffice for it, with or without a sign.

`Fault` says why a text is not the value that was wanted. The text may be malformed, it may end too
early, or it may be a JSON value of another shape. A fault is a cause; `Fault.message` is its
wording.

A fault has no position. Its message says what was found and what was expected.

Depth is not limited by the type. It is limited by whoever reads, so a value in hand can be as deep
as memory allows.
-/

set_option autoImplicit false

namespace StackCode

/-- A JSON number. -/
inductive Json.Number where
  | integer (value : Int)
  | real (value : Double)
deriving DecidableEq

/-- A JSON value. -/
inductive Json where
  | null
  | bool (value : Bool)
  | number (value : Json.Number)
  | string (value : String)
  | array (items : List Json)
  | object (entries : List (String × Json))

/-- What a fault says was found. Containers are not looked into. -/
inductive Found where
  | null | sequence | map
  | boolean (value : Bool)
  | integer (value : Int)
  | real (value : Double)
  | string (value : String)
deriving DecidableEq

/-- What a fault says of a value. -/
def Json.found : Json → Found
  | .null => .null
  | .bool value => .boolean value
  | .number (.integer value) => .integer value
  | .number (.real value) => .real value
  | .string value => .string value
  | .array _ => .sequence
  | .object _ => .map

def Found.describe : Found → String
  | .null => "null"
  | .sequence => "sequence"
  | .map => "map"
  | .boolean value => if value then "boolean `true`" else "boolean `false`"
  | .integer value => s!"integer `{value}`"
  | .real value => s!"floating point `{value.floatText}`"
  | .string value => "string " ++ Text.quote value

/-- What a reader wanted instead. A record has a title such as `struct Scope`. -/
inductive Wanted where
  | text | boolean | sequence | real | unit
  /-- An integer of so many bits without a sign. -/
  | word (bits : Nat)
  | record (title : String)
  /-- An object or array that starts with a tag, of the type with this name. -/
  | tagged (name : String)
  /-- The tag itself, or its number among so many. -/
  | tag
  | tagIndex (count : Nat)
  /-- A name by itself or as the only key of an object. -/
  | nameOrMap
  | singleKey
  /-- A record with so many fields, given as an array. -/
  | recordItems (title : String) (count : Nat)
  /-- So many items. -/
  | items (count : Nat)
deriving DecidableEq

/-- A number of elements in words. -/
def countElements (n : Nat) : String :=
  if n = 1 then "1 element" else s!"{n} elements"

def Wanted.describe : Wanted → String
  | .text => "a string"
  | .boolean => "a boolean"
  | .sequence => "a sequence"
  | .real => "f64"
  | .unit => "unit"
  | .word bits => s!"u{bits}"
  | .record title => title
  | .tagged name => "internally tagged enum " ++ name
  | .tag => "variant identifier"
  | .tagIndex count => s!"variant index 0 <= i < {count}"
  | .nameOrMap => "string or map"
  | .singleKey => "map with a single key"
  | .recordItems title count => title ++ " with " ++ countElements count
  | .items count => countElements count ++ " in sequence"

/-- The ways in which a text is malformed. -/
inductive Malformed where
  | expectedValue | expectedIdent | expectedColon | expectedListEnd | expectedObjectEnd
  | keyNotString | trailingComma | trailingCharacters
  | invalidNumber | numberOutOfRange
  | invalidEscape | loneSurrogate | hexEscapeCutOff | controlCharacter
  /-- Too many arrays and objects inside of one another. -/
  | nesting
deriving DecidableEq

def Malformed.describe : Malformed → String
  | .expectedValue => "expected value"
  | .expectedIdent => "expected ident"
  | .expectedColon => "expected `:`"
  | .expectedListEnd => "expected `,` or `]`"
  | .expectedObjectEnd => "expected `,` or `\x7d`"
  | .keyNotString => "key must be a string"
  | .trailingComma => "trailing comma"
  | .trailingCharacters => "trailing characters"
  | .invalidNumber => "invalid number"
  | .numberOutOfRange => "number out of range"
  | .invalidEscape => "invalid escape"
  | .loneSurrogate => "lone leading surrogate in hex escape"
  | .hexEscapeCutOff => "unexpected end of hex escape"
  | .controlCharacter => "control character (\\u0000-\\u001F) found while parsing a string"
  | .nesting => "recursion limit exceeded"

/-- What a text broke off in. -/
inductive Unfinished where
  | value | string | list | object
deriving DecidableEq

def Unfinished.describe : Unfinished → String
  | .value => "a value"
  | .string => "a string"
  | .list => "a list"
  | .object => "an object"

/-- Why a text is not the value that was wanted. -/
inductive Fault where
  | malformed (what : Malformed)
  | cutOff (inside : Unfinished)
  | missingField (name : String)
  | duplicateField (name : String)
  | unknownVariant (name : String) (known : List String)
  | wrongType (found : Found) (wanted : Wanted)
  | wrongValue (found : Found) (wanted : Wanted)
  | wrongLength (count : Nat) (wanted : Wanted)
deriving DecidableEq

namespace Fault

/-- The kinds of fault. -/
inductive Category where
  | malformed | cutOff | unfit
deriving DecidableEq

/-- The kind that a fault belongs to. -/
def category : Fault → Category
  | .malformed _ => .malformed
  | .cutOff _ => .cutOff
  | _ => .unfit

/-- The names that would have been accepted. -/
def alternatives : List String → String
  | [] => "there are no variants"
  | [a] => s!"expected `{a}`"
  | [a, b] => s!"expected `{a}` or `{b}`"
  | names => "expected one of " ++ ", ".intercalate (names.map fun name => s!"`{name}`")

/-- The message of a fault. -/
def message : Fault → String
  | .malformed what => what.describe
  | .cutOff inside => "EOF while parsing " ++ inside.describe
  | .missingField name => s!"missing field `{name}`"
  | .duplicateField name => s!"duplicate field `{name}`"
  | .unknownVariant name known => s!"unknown variant `{name}`, " ++ alternatives known
  | .wrongType found wanted => s!"invalid type: {found.describe}, expected {wanted.describe}"
  | .wrongValue found wanted => s!"invalid value: {found.describe}, expected {wanted.describe}"
  | .wrongLength count wanted => s!"invalid length {count}, expected {wanted.describe}"

end Fault

end StackCode
