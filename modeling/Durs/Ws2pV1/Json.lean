/-
# JSON values

The values that the JSON decoder returns, and the ways in which their fields are read.
-/

import Durs.Documents.Block

namespace Durs

/-- `serde_json::Value`.  A number is an unsigned integer, a negative one, or one with a fractional
part or an exponent. -/
inductive Json
  | null
  | bool (b : Bool)
  | posInt (n : Nat)
  | negInt (n : Int)
  | float (x : F64)
  | string (s : String)
  | array (elems : List Json)
  | object (fields : List (String × Json))

namespace Json

/-- `Value::get`: a field of an object. -/
def get (key : String) : Json → Option Json
  | object fields => fields.lookup key
  | _ => none

/-- `Value::as_str`. -/
def asStr : Json → Option String
  | string s => some s
  | _ => none

/-- `Value::as_u64`. -/
def asU64 : Json → Option Nat
  | posInt n => some n
  | _ => none

/-- `Value::as_i64`: an unsigned integer must fit. -/
def asI64 : Json → Option Int
  | posInt n => if n < 9223372036854775808 then some n else none
  | negInt n => some n
  | _ => none

/-- `Value::as_array`. -/
def asArray : Json → Option (List Json)
  | array elems => some elems
  | _ => none

/-- `Value::as_object`, as the object itself. -/
def asObject : Json → Option Json
  | object fields => some (object fields)
  | _ => none

/-- `source.get(key)?.as_str()?`. -/
def str (source : Json) (key : String) : Option String := (source.get key).bind asStr

/-- `source.get(key)?.as_u64()?`. -/
def u64 (source : Json) (key : String) : Option Nat := (source.get key).bind asU64

/-- `source.get(key)?.as_i64()?`. -/
def i64 (source : Json) (key : String) : Option Int := (source.get key).bind asI64

/-- `source.get(key)?.as_array()?`. -/
def arr (source : Json) (key : String) : Option (List Json) := (source.get key).bind asArray

end Json

/-- `as u32`. -/
def asU32 (n : Nat) : Nat := n % 4294967296

/-- `as u64`, of a signed integer. -/
def asU64 (n : Int) : Nat := (n % 18446744073709551616).toNat

end Durs
