import CartaZarr.Foundations.Double

/-!
# JSON documents

A document as a parser of JSON hands it over: numbers keep whether they were written as integers,
and an object is a list of members, in the order the parser keeps them. What is asked of a document
is asked by `get?`, which finds a member of an object and nothing in anything else, and by the
projections `string?`, `array?` and `natural?`. `same` is equality of documents, for which numbers
of two kinds are made of one kind first.
-/

namespace CartaZarr

/-- A JSON document. A number without a fraction that fits 64 bits is `unsigned`, or `integer` where
it is negative; any other number is a double. -/
inductive Json
  | null
  | bool (b : Bool)
  | unsigned (n : UInt64)
  | integer (n : Int64)
  | float (x : ℚ)
  | string (s : String)
  | array (items : List Json)
  | object (members : List (String × Json))

namespace Json

/-- The kind of a value, as an exception about it names it. -/
def typeName : Json → String
  | null => "null"
  | bool _ => "boolean"
  | unsigned _ | integer _ | float _ => "number"
  | string _ => "string"
  | array _ => "array"
  | object _ => "object"

/-- The value of a member of an object, where there is one. -/
def get? (key : String) : Json → Option Json
  | object members => members.lookup key
  | _ => none

def isObject : Json → Bool
  | object _ => true
  | _ => false

def string? : Json → Option String
  | string s => some s
  | _ => none

/-- The items of an array. -/
def array? : Json → Option (List Json)
  | array items => some items
  | _ => none

/-- An integer that is not negative, of 64 bits. -/
def natural? : Json → Option UInt64
  | unsigned n => some n
  | integer n => if 0 ≤ n then some n.toUInt64 else none
  | _ => none

/-- A number that is zero, however it is written. -/
def isZero : Json → Bool
  | unsigned n => n = 0
  | integer n => n = 0
  | float x => x = 0
  | _ => false

/-- An integer as a double. -/
def double (n : ℤ) : ℚ := if 0 ≤ n then Double.ofNat n.toNat else -Double.ofNat n.natAbs

/-- Equality of numbers: an unsigned one is taken as signed to be compared with a signed one, and
either as a double to be compared with a double. -/
def sameNumber : Json → Json → Bool
  | unsigned m, unsigned n => m = n
  | integer m, integer n => m = n
  | float x, float y => x = y
  | unsigned m, integer n => m.toInt64 = n
  | integer m, unsigned n => m = n.toInt64
  | unsigned m, float y => double m.toNat = y
  | float x, unsigned n => x = double n.toNat
  | integer m, float y => double m.toInt = y
  | float x, integer n => x = double n.toInt
  | _, _ => false

mutual

def same : Json → Json → Bool
  | null, null => true
  | bool a, bool b => a = b
  | string s, string t => s = t
  | array xs, array ys => sameItems xs ys
  | object xs, object ys => sameMembers xs ys
  | x, y => sameNumber x y

def sameItems : List Json → List Json → Bool
  | [], [] => true
  | x :: xs, y :: ys => same x y && sameItems xs ys
  | _, _ => false

def sameMembers : List (String × Json) → List (String × Json) → Bool
  | [], [] => true
  | (key, x) :: xs, (key', y) :: ys => key = key' && same x y && sameMembers xs ys
  | _, _ => false

end

mutual

theorem same_refl (j : Json) : same j j = true := by
  cases j with
  | null => rfl
  | bool b => simp [same]
  | unsigned n => simp [same, sameNumber]
  | integer n => simp [same, sameNumber]
  | float x => simp [same, sameNumber]
  | string s => simp [same]
  | array items => exact sameItems_refl items
  | object members => exact sameMembers_refl members

theorem sameItems_refl (items : List Json) : sameItems items items = true := by
  cases items with
  | nil => rfl
  | cons item items => rw [sameItems, same_refl item, sameItems_refl items, Bool.and_self]

theorem sameMembers_refl (members : List (String × Json)) : sameMembers members members = true := by
  cases members with
  | nil => rfl
  | cons member members =>
    obtain ⟨key, value⟩ := member
    rw [sameMembers, same_refl value, sameMembers_refl members]
    simp

end

@[simp] theorem get?_object (key : String) (members : List (String × Json)) :
    (object members).get? key = members.lookup key := rfl

/-- Only an object has members. -/
theorem isObject_of_get? {key : String} {j v : Json} (h : j.get? key = some v) :
    j.isObject = true := by
  cases j <;> first | rfl | cases h

end Json

end CartaZarr
