import MicroBusiness.Text

/-!
# JSON values

Both programs build a JSON value and have the JSON library write it out. The
value is modelled; its writers are parameters.
-/

namespace MicroBusiness

/-- The part of `Json::Value` the programs build. -/
inductive Json
  | int (z : ℤ)
  | string (s : Bytes)
  /-- The product of an `int` and the `double` that `atof` reads. -/
  | product (n : ℤ) (text : Bytes)
  | array (items : List Json)
  | object (members : List (Bytes × Json))

/-- The two writers of the JSON library: `Json::writeString` and
`Json::FastWriter`. -/
structure JsonWriter where
  writeString : Json → Bytes
  fastWrite : Json → Bytes

/-- A JSON library that writes nothing. -/
def silentWriter : JsonWriter := ⟨fun _ => [], fun _ => []⟩

end MicroBusiness
