/-
Tags: strings of octets, which a text names by a handle and a suffix.
-/

import JazzGrammar.Yaml.Cursor
import JazzGrammar.Json.Reader

namespace JazzGrammar.Yaml

/-- The octets of a tag need not be UTF-8. -/
abbrev Octets := List UInt8

namespace Octets

/-- The octets of an ASCII text. -/
def ofText (text : Text) : Octets :=
  text.map fun char => UInt8.ofNat char.toNat

/-- The text that octets hold in UTF-8. -/
def text? (octets : Octets) : Option Text :=
  (String.fromUTF8? ⟨octets.toArray⟩).map String.toList

/-- A zero octet ends a string. -/
def upToZero (octets : Octets) : Octets :=
  octets.takeWhile (· != 0)

/-- The number of octets that continue a character behind its first one. -/
def continuations? (first : Nat) : Option Nat :=
  if first < 0x80 then some 0
  else if first / 32 = 6 then some 1
  else if first / 16 = 14 then some 2
  else if first / 8 = 30 then some 3
  else none

/-- An address with its escapes replaced by octets. Escapes form groups in the shape of UTF-8
characters; the first argument counts the octets that the open group lacks. -/
def ofAddress? : Nat → Text → Option Octets
  | 0, [] => some []
  | lacking, '%' :: high :: low :: rest => do
    let octet ← Json.hexNumber? [high, low]
    let lacking ←
      if lacking = 0 then continuations? octet
      else if octet / 64 = 2 then some (lacking - 1)
      else none
    (ofAddress? lacking rest).map (UInt8.ofNat octet :: ·)
  | 0, char :: rest =>
    if char == '%' then none else (ofAddress? 0 rest).map (UInt8.ofNat char.toNat :: ·)
  | _ + 1, _ => none

end Octets

namespace Cursor

/-- Characters that may stand in the address of a tag. -/
def isAddressChar (char : Char) : Bool :=
  isNameChar char || [';', '/', '?', ':', '@', '&', '=', '+', '$', '.', '!', '~', '*', '\'', '(',
    ')', '%'].contains char

/-- Characters that may stand in an address between angle brackets. -/
def isBracketedChar (char : Char) : Bool :=
  isAddressChar char || char == ',' || char == '[' || char == ']'

/-- The octets of an address. Without `mayBeEmpty` at least one character is required. -/
def address? (inClass : Char → Bool) (mayBeEmpty : Bool) (cursor : Cursor) :
    Option (Octets × Cursor) := do
  let (raw, behind) := cursor.takeWhile inClass
  if raw.isEmpty && !mayBeEmpty then none
  let octets ← Octets.ofAddress? 0 raw
  some (octets.upToZero, behind)

/-- A handle: an exclamation mark, a name and perhaps another mark. -/
def handle? (cursor : Cursor) : Option (Text × Cursor) :=
  if cursor.head? = some '!' then
    let (name, behind) := (cursor.advance 1).takeWhile isNameChar
    if behind.head? = some '!' then some ('!' :: name ++ ['!'], behind.advance 1)
    else some ('!' :: name, behind)
  else none

/-- A tag, as handle and suffix. The handle is empty for a tag between angle brackets and for the
mark that stands alone. -/
def tag? (inFlow : Bool) (cursor : Cursor) : Option (Text × Octets × Cursor) := do
  let (handle, suffix, behind) ←
    if cursor.ahead? 1 = some '<' then do
      let (suffix, behind) ← (cursor.advance 2).address? isBracketedChar false
      if behind.head? ≠ some '>' then none
      else some ([], suffix, behind.advance 1)
    else do
      let (handle, behind) ← cursor.handle?
      if 1 < handle.length && handle.getLast? = some '!' then do
        let (suffix, behind) ← behind.address? isAddressChar false
        some (handle, suffix, behind)
      else do
        let (address, behind) ← behind.address? isAddressChar true
        let suffix := Octets.ofText (handle.drop 1) ++ address
        if suffix.isEmpty then some ([], Octets.ofText ['!'], behind)
        else some (['!'], suffix, behind)
  if endsWord behind.head? || (inFlow && behind.head? = some ',') then
    some (handle, suffix, behind)
  else none

end Cursor

end JazzGrammar.Yaml
