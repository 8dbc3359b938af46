import CartaZarr.Foundations.Json
import CartaZarr.Zarr.StringArray

/-!
# Attributes

Reading a value out of the attributes of a node, without deciding what it means.
-/

namespace CartaZarr

/-- A string in upper case, as the C locale has it. -/
def upper (value : Bytes) : Bytes := value.map fun c => if 97 ≤ c ∧ c ≤ 122 then c - 32 else c

/-- The bytes of a name. -/
def spelled (name : String) : Bytes := name.toUTF8.toList

/-- An attribute that is a string, or the empty string. -/
def attributeString (attributes : Json) (name : String) : String :=
  ((attributes.get? name).bind Json.string?).getD ""

end CartaZarr
