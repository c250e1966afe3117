/-
# Fields of JSON objects

How the fields of an object are read: what a field has to be, and the error that names it when it is
something else.
-/

import Durs.JsonParser.Texts
import Durs.RustStd.FloatCast

namespace Durs

open RustStd

namespace JSONValue

/-! ## Kinds of values -/

def isNull : JSONValue → Bool
  | null => true
  | _ => false

def toObject : JSONValue → Option (List (String × JSONValue))
  | object entries => some entries
  | _ => none

def toArray : JSONValue → Option (List JSONValue)
  | array elems => some elems
  | _ => none

def toStr : JSONValue → Option String
  | string s => some s
  | _ => none

def toNumber : JSONValue → Option Float64
  | number n => some n
  | _ => none

end JSONValue

/-- `JsonObject`. -/
abbrev JsonObject := List (String × JSONValue)

/-- `ParseJsonError`. -/
structure ParseJsonError where
  cause : String
deriving DecidableEq, Repr

namespace JsonObject

variable (jsonBlock : JsonObject) (field : String)

/-! ## Fields -/

/-- The error of a field that is not what it must be. -/
def fieldError (requirement : String) : ParseJsonError :=
  ⟨"Fail to parse json : field '" ++ field ++ "' must " ++ requirement ++ " !"⟩

/-- A field of a kind. -/
def getField {α : Type} (kind : String) (convert : JSONValue → Option α) :
    Except ParseJsonError α :=
  match jsonBlock.lookup field with
  | none => .error (fieldError field "exist")
  | some value =>
      match convert value with
      | none => .error (fieldError field kind)
      | some a => .ok a

/-- A field of a kind, or none of it. -/
def getOptionalField {α : Type} (kind : String) (convert : JSONValue → Option α) :
    Except ParseJsonError (Option α) :=
  match jsonBlock.lookup field with
  | none => .ok none
  | some value =>
      if value.isNull then .ok none
      else
        match convert value with
        | none => .error (fieldError field kind)
        | some a => .ok (some a)

/-- `get_number`. -/
def getNumber : Except ParseJsonError Float64 :=
  getField jsonBlock field "be a number" JSONValue.toNumber

/-- `get_str`. -/
def getStr : Except ParseJsonError String :=
  getField jsonBlock field "be a string" JSONValue.toStr

/-- `get_optional_usize`. -/
def getOptionalUsize : Except ParseJsonError (Option Nat) := do
  let n ← getOptionalField jsonBlock field "be a number" JSONValue.toNumber
  return n.map fun n => n.trunc.asUnsigned 64

/-- `get_optional_str`. -/
def getOptionalStr : Except ParseJsonError (Option String) :=
  getOptionalField jsonBlock field "be a string" JSONValue.toStr

/-- `get_optional_str_not_empty`. -/
def getOptionalStrNotEmpty : Except ParseJsonError (Option String) := do
  let value ← getOptionalStr jsonBlock field
  return value.filter fun value => value ≠ ""

/-- An element of an array of strings. -/
def strElem (value : JSONValue) : Except ParseJsonError String :=
  match value.toStr with
  | none => .error (fieldError field "be an array of string")
  | some s => .ok s

/-- `get_str_array`. -/
def getStrArray : Except ParseJsonError (List String) := do
  let elems ← getField jsonBlock field "be an array" JSONValue.toArray
  elems.mapM (strElem field)

/-- `get_number(..)?.trunc()`, cast to an unsigned type. -/
def getUnsigned (bits : ℕ) : Except ParseJsonError ℕ := do
  let n ← getNumber jsonBlock field
  return n.trunc.asUnsigned bits

/-- `get_number(..)?.trunc()`, cast to a signed type. -/
def getSigned (bits : ℕ) : Except ParseJsonError ℤ := do
  let n ← getNumber jsonBlock field
  return n.trunc.asSigned bits

variable {jsonBlock field}

/-! ## What is read -/

theorem getField_eq_ok_iff {α : Type} {kind : String} {convert : JSONValue → Option α} {a : α} :
    getField jsonBlock field kind convert = .ok a ↔
      ∃ value, jsonBlock.lookup field = some value ∧ convert value = some a := by
  rw [getField]
  cases jsonBlock.lookup field with
  | none => exact iff_of_false nofun nofun
  | some value => cases h : convert value <;> simp [h]

theorem getUnsigned_lt {bits n : ℕ} (h : getUnsigned jsonBlock field bits = .ok n) :
    n < 2 ^ bits := by
  rw [getUnsigned] at h
  rcases bind_eq_ok_iff.1 h with ⟨number, -, h⟩
  obtain rfl := Except.ok.inj h
  exact Float64.asUnsigned_lt _ _

/-- Every error of a field names the field. -/
theorem exists_of_getField_eq_error {α : Type} {kind : String} {convert : JSONValue → Option α}
    {error : ParseJsonError} (h : getField jsonBlock field kind convert = .error error) :
    ∃ requirement, error = fieldError field requirement := by
  rw [getField] at h
  split at h
  · exact ⟨_, (Except.error.inj h).symm⟩
  · split at h
    · exact ⟨_, (Except.error.inj h).symm⟩
    · cases h

end JsonObject

end Durs
