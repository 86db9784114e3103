import FeltWire.Binary64.Layout
import FeltWire.Dictionary

/-!
# JSON documents

A document as a tree. An object is a dictionary, its members in the order of
their keys and no key twice; a number is an integer of 64 bits, with or without
a sign, or a double.

## Main definitions

* `Json`: a document
* `Json.kind`: what sort of document it is, as messages name it
* `JsonNumber.natural?`, `JsonNumber.integer?`, `JsonNumber.toBinary64`: a
  number as an unsigned integer, a signed integer or a double
* `Json.compact`, `Json.pretty`: the text of a document on one line and on
  several
-/

namespace FeltWire

/-- A number of a document: an `integer`, or a `double` for everything else. -/
inductive JsonNumber where
  | integer (v : Int)
  | double (x : Binary64)
deriving DecidableEq, Repr

/-- **A document.** The members of an `object` that was read are in the order of
their keys (`Dictionary.ofList`). -/
inductive Json where
  | null
  | bool (b : Bool)
  | number (n : JsonNumber)
  | string (s : String)
  | array (items : List Json)
  | object (members : List (String × Json))
deriving Repr

namespace JsonNumber

/-- The number as an unsigned integer of 64 bits; no `double` is one. -/
def natural? : JsonNumber → Option Nat
  | integer v => if 0 ≤ v ∧ v < 2 ^ 64 then some v.toNat else none
  | double _ => none

/-- The number as a signed integer of 64 bits; no `double` is one. -/
def integer? : JsonNumber → Option Int
  | integer v => if -2 ^ 63 ≤ v ∧ v < 2 ^ 63 then some v else none
  | double _ => none

theorem lt_of_natural? {n : JsonNumber} {k : Nat} (read : n.natural? = some k) : k < 2 ^ 128 := by
  cases n with
  | integer v =>
    obtain ⟨range, ⟨⟩⟩ := Option.ite_none_right_eq_some.1 read
    omega
  | double x => cases read

theorem natAbs_lt_of_integer? {n : JsonNumber} {v : Int} (read : n.integer? = some v) :
    v.natAbs < 2 ^ 128 := by
  cases n with
  | integer u =>
    obtain ⟨range, ⟨⟩⟩ := Option.ite_none_right_eq_some.1 read
    omega
  | double x => cases read

/-- The double nearest to the number, rounded by `Binary64.ofInt` if it is an
integer. -/
def toBinary64 : JsonNumber → Binary64
  | integer v => .ofInt v
  | double x => x

/-- The text of a number, in `Layout.document` if it is a double. -/
def text : JsonNumber → String
  | integer v => toString v
  | double x => x.text .document

end JsonNumber

namespace Json

/-- What sort of document it is, as a fault shows it. -/
def kind : Json → String
  | null => "null"
  | bool _ => "boolean"
  | number _ => "number"
  | string _ => "string"
  | array _ => "array"
  | object _ => "object"

/-! ## Text -/

/-- The character `c` of a string as it is written: quotes, backslashes and
controls are escaped. -/
def escape (c : Char) : List Char :=
  if c = '"' then ['\\', '"']
  else if c = '\\' then ['\\', '\\']
  else if c = '\n' then ['\\', 'n']
  else if c = '\r' then ['\\', 'r']
  else if c = '\t' then ['\\', 't']
  else if c = '\x08' then ['\\', 'b']
  else if c = '\x0c' then ['\\', 'f']
  else if c.toNat < 0x20 then
    ['\\', 'u', '0', '0', Nat.digitChar (c.toNat / 16), Nat.digitChar (c.toNat % 16)]
  else [c]

/-- The string `s` in quotes, by `escape` on each character. -/
def quote (s : String) : String := "\"" ++ String.ofList (s.toList.flatMap escape) ++ "\""

/-- The text of a leaf, which an array or an object is not. -/
def leafText : Json → String
  | bool true => "true"
  | bool false => "false"
  | number n => n.text
  | string s => quote s
  | _ => "null"

mutual

/-- The text of a document on one line, without blanks; `pretty` is the other
layout. -/
def compact : Json → String
  | array items => "[" ++ ",".intercalate (compactItems items) ++ "]"
  | object members => "\x7b" ++ ",".intercalate (compactMembers members) ++ "\x7d"
  | leaf => leaf.leafText

/-- The items of an array, each `compact`. -/
def compactItems : List Json → List String
  | [] => []
  | j :: items => j.compact :: compactItems items

/-- The members of an object, each `compact` behind its key. -/
def compactMembers : List (String × Json) → List String
  | [] => []
  | (key, j) :: members => (quote key ++ ":" ++ j.compact) :: compactMembers members

end

/-- The `lines` between brackets, indented one step further than the brackets,
which stand at `depth`. -/
def block (opening closing : String) (depth : Nat) (lines : List String) : String :=
  let indent (n : Nat) := "".pushn ' ' (2 * n)
  if lines.isEmpty then opening ++ closing
  else
    opening ++ "\n" ++ ",\n".intercalate (lines.map (indent (depth + 1) ++ ·)) ++ "\n" ++
      indent depth ++ closing

mutual

/-- The text of a document on several lines at `depth`, two blanks for each
level. -/
def indented (depth : Nat) : Json → String
  | array items => block "[" "]" depth (indentedItems (depth + 1) items)
  | object members => block "\x7b" "\x7d" depth (indentedMembers (depth + 1) members)
  | leaf => leaf.leafText

/-- The items of an array, `indented` at `depth`. -/
def indentedItems (depth : Nat) : List Json → List String
  | [] => []
  | j :: items => j.indented depth :: indentedItems depth items

/-- The members of an object, `indented` at `depth` behind their keys. -/
def indentedMembers (depth : Nat) : List (String × Json) → List String
  | [] => []
  | (key, j) :: members => (quote key ++ ": " ++ j.indented depth) :: indentedMembers depth members

end

/-- The text of a document on several lines, from depth 0. -/
def pretty (j : Json) : String := j.indented 0

end Json

end FeltWire
