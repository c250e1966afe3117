/-
# JSON values

What the parser builds from the rules that the grammar matches, and how a value is printed.  The
texts of strings and of names are kept as they stand in the source, and printed as they are kept.
-/

import Durs.Documents.Parsers
import Durs.JsonParser.Grammar
import Durs.Lib.Readings
import Durs.RustStd.FloatText
import Durs.RustStd.HashMap

namespace Durs

open RustStd Lib.Peg

/-- A JSON value.  The entries of an object are in the order in which its hash map is iterated. -/
inductive JSONValue
  | object (entries : List (String × JSONValue))
  | array (elems : List JSONValue)
  | string (s : String)
  | number (n : Float64)
  | boolean (b : Bool)
  | null

/-- How the hash map that is collected from some pairs is iterated: every entry once, in an order
that the hasher makes. -/
structure IterOrder where
  collect : List (String × JSONValue) → List (String × JSONValue)
  perm : ∀ pairs, (collect pairs).Perm (HashMap.ofList pairs).iter

/-- `JSONParser::parse`, with the rule of a whole text. -/
def JSONParser.parse (source : String) : Option (List JsonPair) :=
  (JsonGrammar.json.run true source.toList).map Match.pairs

namespace JSONValue

/-! ## Parsing -/

variable (order : IterOrder)

/-- `str::parse` for `bool`. -/
def parseBool (text : List Char) : Option Bool :=
  if text = "true".toList then some true
  else if text = "false".toList then some false
  else none

mutual

/-- `parse_value`. -/
def parseValue : JsonPair → Run JSONValue
  | .node rule text inner =>
      match rule with
      | .object => do
          let entries ← parseMembers inner
          return object (order.collect entries)
      | .array => do
          let elems ← parseValues inner
          return array elems
      | .string => do
          let innerString ← unwrap inner.head?
          return string (String.ofList innerString.text)
      | .number => do
          let n ← unwrap (Float64.parse text)
          return number n
      | .boolean => do
          let b ← unwrap (parseBool text)
          return boolean b
      | .null => return null
      | _ => fatalError "internal error: entered unreachable code"

/-- The values of some rules. -/
def parseValues : List JsonPair → Run (List JSONValue)
  | [] => return []
  | pair :: pairs => do
      let value ← parseValue pair
      let values ← parseValues pairs
      return value :: values

/-- The members of an object, each with its name. -/
def parseMembers : List JsonPair → Run (List (String × JSONValue))
  | [] => return []
  | pair :: pairs => do
      let entry ← parseMember pair
      let entries ← parseMembers pairs
      return entry :: entries

/-- A member of an object. -/
def parseMember : JsonPair → Run (String × JSONValue)
  | .node _ _ inner =>
      match inner with
      | stringPair :: valuePair :: _ => do
          let name ← unwrap stringPair.inner.head?
          let value ← parseValue valuePair
          return (String.ofList name.text, value)
      | _ => fatalError "called Option::unwrap() on a None value"

end

/-- `parse_json_string`; the text of an error is left out. -/
def parseJsonString (source : String) : OptionT Run JSONValue := do
  let pairs ← JSONParser.parse source
  let pair ← OptionT.lift (unwrap pairs.head?)
  OptionT.lift (parseValue order pair)

/-! ## Printing -/

mutual

/-- `to_string`. -/
def toText : JSONValue → String
  | object entries => "\x7b" ++ ",".intercalate (entriesText entries) ++ "\x7d"
  | array elems => "[" ++ ",".intercalate (elemsText elems) ++ "]"
  | string s => "\"" ++ s ++ "\""
  | number n => String.ofList n.display
  | boolean b => if b then "true" else "false"
  | null => "null"

/-- The texts of the entries of an object. -/
def entriesText : List (String × JSONValue) → List String
  | [] => []
  | (name, value) :: entries => ("\"" ++ name ++ "\":" ++ value.toText) :: entriesText entries

/-- The texts of the elements of an array. -/
def elemsText : List JSONValue → List String
  | [] => []
  | value :: values => value.toText :: elemsText values

end

/-! ## Comparing -/

mutual

/-- `==`: the entries of two objects are compared by their names. -/
def beq : JSONValue → JSONValue → Bool
  | object entries, object entries' =>
      entries.length = entries'.length && beqEntries entries entries'
  | array elems, array elems' => beqElems elems elems'
  | string s, string s' => s = s'
  | number n, number n' => n.beq n'
  | boolean b, boolean b' => b = b'
  | null, null => true
  | _, _ => false

/-- Whether an object has equal values for the names of some entries. -/
def beqEntries : List (String × JSONValue) → List (String × JSONValue) → Bool
  | [], _ => true
  | (name, value) :: entries, entries' =>
      (match entries'.lookup name with
      | some value' => value.beq value'
      | none => false) && beqEntries entries entries'

/-- Whether two lists of values are equal. -/
def beqElems : List JSONValue → List JSONValue → Bool
  | [], [] => true
  | value :: values, value' :: values' => value.beq value' && beqElems values values'
  | _, _ => false

end

mutual

/-- The numbers of a value. -/
def numbers : JSONValue → List Float64
  | object entries => entriesNumbers entries
  | array elems => elemsNumbers elems
  | number n => [n]
  | _ => []

/-- The numbers of the entries of an object. -/
def entriesNumbers : List (String × JSONValue) → List Float64
  | [] => []
  | (_, value) :: entries => value.numbers ++ entriesNumbers entries

/-- The numbers of the elements of an array. -/
def elemsNumbers : List JSONValue → List Float64
  | [] => []
  | value :: values => value.numbers ++ elemsNumbers values

end

end JSONValue

end Durs
