import Mathlib.Data.BitVec

/-!
# The Accessors of a JSON Value

`Json::Value` of `jsoncpp.cpp`, as far as `main.cpp` reads it: a value is converted to a text,
a number or a truth value, and a member of an object is looked up. What a value cannot be
converted to is an exception with the text that is given here.

A number without a fraction is an `int` or a `uint` of 64 bits. Any other is a `double`, of
which only the conversions matter, so that the doubles are a parameter. Texts are of
characters of one byte. An array has no holes.

## Main definitions

* `Doubles`: The conversions of a `double`.
* `Value`: A JSON value.
* `Value.asString`, `Value.asUInt`, `Value.asBool`: Its conversions.
* `Value.member`: The member of a name.
* `ValueType`, `Value.isConvertibleTo`: Whether a conversion is there.
-/

namespace CodecChanger

namespace Json

/-- What a `double` is converted to: a text, a truth value, and an `unsigned int` if it is in
    the range of those. -/
structure Doubles (ρ : Type) where
  valueToString : ρ → String
  toUInt : ρ → Option (BitVec 32)
  nonzero : ρ → Bool

/-- `Json::Value`. -/
inductive Value (ρ : Type) where
  | nullValue
  | intValue (n : BitVec 64)
  | uintValue (n : BitVec 64)
  | realValue (x : ρ)
  | stringValue (s : String)
  | booleanValue (b : Bool)
  | arrayValue (l : List (Value ρ))
  | objectValue (members : List (String × Value ρ))

def maxUInt : Nat := 2 ^ 32 - 1

namespace Value

variable {ρ : Type} (R : Doubles ρ)

/-- `asString`. -/
def asString : Value ρ → Except String String
  | nullValue => .ok ""
  | stringValue s => .ok s
  | booleanValue b => .ok (if b then "true" else "false")
  | intValue n => .ok (toString n.toInt)
  | uintValue n => .ok (toString n.toNat)
  | realValue x => .ok (R.valueToString x)
  | arrayValue _ => .error "Type is not convertible to string"
  | objectValue _ => .error "Type is not convertible to string"

/-- `asUInt`. -/
def asUInt : Value ρ → Except String (BitVec 32)
  | intValue n =>
      if 0 ≤ n.toInt ∧ n.toInt ≤ maxUInt then .ok (n.setWidth 32)
      else .error "LargestInt out of UInt range"
  | uintValue n =>
      if n.toNat ≤ maxUInt then .ok (n.setWidth 32)
      else .error "LargestUInt out of UInt range"
  | realValue x =>
      match R.toUInt x with
      | some n => .ok n
      | none => .error "double out of UInt range"
  | nullValue => .ok 0
  | booleanValue b => .ok (if b then 1 else 0)
  | stringValue _ => .error "Value is not convertible to UInt."
  | arrayValue _ => .error "Value is not convertible to UInt."
  | objectValue _ => .error "Value is not convertible to UInt."

/-- `asBool`. -/
def asBool : Value ρ → Except String Bool
  | booleanValue b => .ok b
  | nullValue => .ok false
  | intValue n => .ok (decide (n ≠ 0))
  | uintValue n => .ok (decide (n ≠ 0))
  | realValue x => .ok (R.nonzero x)
  | stringValue _ => .error "Value is not convertible to bool."
  | arrayValue _ => .error "Value is not convertible to bool."
  | objectValue _ => .error "Value is not convertible to bool."

/-- `operator[]` with a name. A null value is made an empty object, and a member that is not
    there is made a null. -/
def member (key : String) : Value ρ → Except String (Value ρ)
  | nullValue => .ok nullValue
  | objectValue members => .ok ((members.lookup key).getD nullValue)
  | _ => .error "in Json::Value::resolveReference(key, end): requires objectValue"

/-- `isNumeric`. -/
def isNumeric : Value ρ → Bool
  | intValue _ => true
  | uintValue _ => true
  | realValue _ => true
  | _ => false

/-- The types that `main` converts to, of `Json::ValueType`. -/
inductive ValueType where
  | stringValue
  | uintValue
  | booleanValue
  deriving DecidableEq, Repr

/-- `isConvertibleTo`, for these types. -/
def isConvertibleTo : ValueType → Value ρ → Bool
  | .stringValue, stringValue _ => true
  | .uintValue, intValue n => decide (0 ≤ n.toInt ∧ n.toInt ≤ maxUInt)
  | .uintValue, uintValue n => decide (n.toNat ≤ maxUInt)
  | .uintValue, realValue x => (R.toUInt x).isSome
  | _, booleanValue _ => true
  | _, nullValue => true
  | _, v => v.isNumeric

end Value

end Json

end CodecChanger
