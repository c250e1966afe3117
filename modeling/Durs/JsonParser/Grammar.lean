/-
# The grammar of JSON

`json_grammar.pest`, rule by rule.  In a rule that is not atomic, blanks are skipped between the
parts of a sequence and between the turns of a repetition; nothing is skipped within a string or a
number.
-/

import Durs.Lib.PegRuns

namespace Durs

open Lib.Peg Lib.Peg.Expr

/-- The rules of the grammar that are recorded. -/
inductive JsonRule
  | eoi
  | null | boolean | number
  | string | innerString
  | object | pair
  | array
deriving DecidableEq, Repr

/-- A matched rule of the grammar. -/
abbrev JsonPair := Pair JsonRule

namespace JsonGrammar

/-! ## Blanks -/

/-- `WHITESPACE = _{ " " | "\t" | "\r" | "\n" }`, as often as there is one. -/
def skip : Expr JsonRule :=
  atLeast 0 (chr fun c => c = ' ' || c = '\t' || c = '\r' || c = '\n')

/-- `e*` in a rule that is not atomic. -/
def star (e : Expr JsonRule) : Expr JsonRule := opt (e ++ atLeast 0 (skip ++ e))

/-! ## Scalars -/

/-- `null = { "null" }` -/
def null : Expr JsonRule := rule .null (str "null")

/-- `boolean = { "true" | "false" }` -/
def boolean : Expr JsonRule := rule .boolean (str "true" <|> str "false")

/-- The digits before the point: `"0" | ASCII_NONZERO_DIGIT ~ ASCII_DIGIT*` -/
def integral : Expr JsonRule :=
  str "0" <|> chr (fun c => '1' ≤ c && c ≤ '9') ++ atLeast 0 (chr Char.isDigit)

/-- `("." ~ ASCII_DIGIT*)?` -/
def fraction : Expr JsonRule := opt (str "." ++ atLeast 0 (chr Char.isDigit))

/-- `(^"e" ~ ("+" | "-")? ~ ASCII_DIGIT+)?` -/
def exponent : Expr JsonRule :=
  opt (chr (fun c => c = 'e' || c = 'E') ++ opt (str "+" <|> str "-") ++
    atLeast 1 (chr Char.isDigit))

/-- `number`, which is atomic. -/
def number : Expr JsonRule := atomic .number (opt (str "-") ++ integral ++ fraction ++ exponent)

/-- `!("\"" | "\\") ~ ANY` -/
def plainChar : Expr JsonRule := chr fun c => c ≠ '"' && c ≠ '\\'

/-- `"\\" ~ ("\"" | "\\" | "/" | "b" | "f" | "n" | "r" | "t")` -/
def escapedChar : Expr JsonRule :=
  str "\\" ++ chr fun c => ['"', '\\', '/', 'b', 'f', 'n', 'r', 't'].contains c

/-- `ASCII_HEX_DIGIT` -/
def hexDigit : Expr JsonRule :=
  chr fun c => c.isDigit || ('a' ≤ c && c ≤ 'f') || ('A' ≤ c && c ≤ 'F')

/-- `"\\" ~ ("u" ~ ASCII_HEX_DIGIT{4})` -/
def unicodeChar : Expr JsonRule := str "\\" ++ (str "u" ++ between 4 4 hexDigit)

/-- `char`, used within an atomic rule only. -/
def char : Expr JsonRule := plainChar <|> escapedChar <|> unicodeChar

/-- `inner_string = @{ char* }` -/
def innerString : Expr JsonRule := atomic .innerString (atLeast 0 char)

/-- `string = ${ "\"" ~ inner_string ~ "\"" }` -/
def string : Expr JsonRule := rule .string (str "\"" ++ innerString ++ str "\"")

/-! ## Objects and arrays -/

/-- Items between brackets, with commas between them. -/
def items (opening closing : String) (item : Expr JsonRule) : Expr JsonRule :=
  str opening ++ skip ++ str closing <|>
    str opening ++ skip ++ item ++ skip ++ star (str "," ++ skip ++ item) ++ skip ++ str closing

/-- `pair = { string ~ ":" ~ value }` -/
def pair (value : Expr JsonRule) : Expr JsonRule :=
  rule .pair (string ++ skip ++ str ":" ++ skip ++ value)

/-- `object = { "{" ~ "}" | "{" ~ pair ~ ("," ~ pair)* ~ "}" }` -/
def object (value : Expr JsonRule) : Expr JsonRule :=
  rule .object (items "\x7b" "\x7d" (pair value))

/-- `array = { "[" ~ "]" | "[" ~ value ~ ("," ~ value)* ~ "]" }` -/
def array (value : Expr JsonRule) : Expr JsonRule := rule .array (items "[" "]" value)

/-- `value = _{ object | array | string | number | boolean | null }`, in terms of the values
within. -/
def valueBody (value : Expr JsonRule) : Expr JsonRule :=
  object value <|> array value <|> string <|> number <|> boolean <|> null

/-- `value` -/
def value : Expr JsonRule := recursive valueBody

/-- `json = _{ SOI ~ (object | array) ~ EOI }` -/
def json : Expr JsonRule := soi ++ skip ++ (object value <|> array value) ++ skip ++ eoi .eoi

end JsonGrammar

end Durs
