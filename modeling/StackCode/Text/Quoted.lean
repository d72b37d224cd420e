import StackCode.Text.Unprintable
import StackCode.Text.ExtendingMark

/-!
# Quoted text

The form in which a listing shows an atom and a fault shows a string it found: in double quotes,
with short escapes for the common controls, the quote and the backslash, and a hexadecimal escape
for every other character that cannot be seen on its own. `'` needs no escape between double quotes.

A quoted text is meant to be read by a person and to be unambiguous, in this order. It is no literal
of any language, though it looks like one.
-/

set_option autoImplicit false

namespace StackCode.Text

/-- The escape of a character by its code point, in lowercase hexadecimal without leading zeros. -/
def codePointEscape (c : Char) : List Char :=
  '\\' :: 'u' :: '\x7b' :: (Nat.toDigits 16 c.toNat ++ ['\x7d'])

/-- How one character is written between the quotes. -/
def escape (c : Char) : List Char :=
  if c = '\x00' then ['\\', '0']
  else if c = '\t' then ['\\', 't']
  else if c = '\r' then ['\\', 'r']
  else if c = '\n' then ['\\', 'n']
  else if c = '"' then ['\\', '"']
  else if c = '\\' then ['\\', '\\']
  else if isExtendingMark c || isUnprintable c then codePointEscape c
  else [c]

/-- `s` in double quotes. -/
def quote (s : String) : String :=
  String.ofList ('"' :: (s.toList.flatMap escape ++ ['"']))

end StackCode.Text
