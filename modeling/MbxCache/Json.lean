import Mathlib.Tactic.Common

namespace MbxCache

/-- A JSON value. A number that is no `u64` is the text that `serde_json` writes for it. -/
inductive Json
  | null
  | bool (value : Bool)
  | unsigned (value : UInt64)
  | number (text : String)
  | string (value : String)
  | array (items : List Json)
  | object (fields : List (String × Json))

namespace Json

def asObject : Json → Option (List (String × Json))
  | .object fields => some fields
  | _ => none

def asStr : Json → Option String
  | .string value => some value
  | _ => none

def asU64 : Json → Option UInt64
  | .unsigned value => some value
  | _ => none

end Json

/-- No U+0000 in the text (`valid_string`). -/
def validString (value : String) : Bool := !value.toList.contains '\x00'

namespace Json

mutual

def decEq : (one other : Json) → Decidable (one = other)
  | .null, .null => isTrue rfl
  | .bool a, .bool b => decidable_of_iff (a = b) (by simp)
  | .unsigned a, .unsigned b => decidable_of_iff (a = b) (by simp)
  | .number a, .number b => decidable_of_iff (a = b) (by simp)
  | .string a, .string b => decidable_of_iff (a = b) (by simp)
  | .array a, .array b =>
      have := decEqItems a b
      decidable_of_iff (a = b) (by simp)
  | .object a, .object b =>
      have := decEqFields a b
      decidable_of_iff (a = b) (by simp)
  | .null, .bool _ | .null, .unsigned _ | .null, .number _ | .null, .string _ | .null, .array _
  | .null, .object _ | .bool _, .null | .bool _, .unsigned _ | .bool _, .number _
  | .bool _, .string _ | .bool _, .array _ | .bool _, .object _ | .unsigned _, .null
  | .unsigned _, .bool _ | .unsigned _, .number _ | .unsigned _, .string _
  | .unsigned _, .array _ | .unsigned _, .object _ | .number _, .null | .number _, .bool _
  | .number _, .unsigned _ | .number _, .string _ | .number _, .array _ | .number _, .object _
  | .string _, .null | .string _, .bool _ | .string _, .unsigned _ | .string _, .number _
  | .string _, .array _ | .string _, .object _ | .array _, .null | .array _, .bool _
  | .array _, .unsigned _ | .array _, .number _ | .array _, .string _ | .array _, .object _
  | .object _, .null | .object _, .bool _ | .object _, .unsigned _ | .object _, .number _
  | .object _, .string _ | .object _, .array _ => isFalse (by simp)

def decEqItems : (one other : List Json) → Decidable (one = other)
  | [], [] => isTrue rfl
  | a :: as, b :: bs =>
      have := decEq a b
      have := decEqItems as bs
      decidable_of_iff (a = b ∧ as = bs) (by simp)
  | [], _ :: _ | _ :: _, [] => isFalse (by simp)

def decEqFields : (one other : List (String × Json)) → Decidable (one = other)
  | [], [] => isTrue rfl
  | (key, a) :: as, (other, b) :: bs =>
      have := decEq a b
      have := decEqFields as bs
      decidable_of_iff (key = other ∧ a = b ∧ as = bs) (by simp [and_assoc])
  | [], _ :: _ | _ :: _, [] => isFalse (by simp)

end

instance : DecidableEq Json := decEq

mutual

/-- What a `jsonb` column can hold: no string in the value has a U+0000. -/
def storable : Json → Bool
  | .string value => validString value
  | .array items => storableItems items
  | .object fields => storableFields fields
  | .null | .bool _ | .unsigned _ | .number _ => true

def storableItems : List Json → Bool
  | [] => true
  | item :: rest => storable item && storableItems rest

def storableFields : List (String × Json) → Bool
  | [] => true
  | (key, value) :: rest => validString key && storable value && storableFields rest

end

end Json
end MbxCache
