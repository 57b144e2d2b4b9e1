import Mathlib.Data.List.Basic

/-! The values `json.loads` returns, and the exceptions that the code lets escape or catches by name. -/

namespace CryptoLakehouse

/-- A float keeps the text it was read from; nothing in the pipeline computes with one. -/
inductive Json where
  | null
  | bool (b : Bool)
  | int (n : Int)
  | float (text : String)
  | str (s : String)
  | arr (items : List Json)
  | obj (fields : List (String × Json))

/-- A Python `dict` with string keys, as `json.loads` builds it for an object. -/
abbrev Dict := List (String × Json)

/-- `d.get(key)`, with `none` for a missing key. -/
def Dict.get? (d : Dict) (key : String) : Option Json := List.lookup key d

/-- `d.get(key, default)`. -/
def Dict.getD (d : Dict) (key : String) (default : Json) : Json := (d.get? key).getD default

inductive Exn where
  | jsonDecodeError
  | unicodeDecodeError
  | attributeError
  | typeError
  | overflowError
  | validationError
  | other
  deriving DecidableEq

/-- `value.get`: only a `dict` has the attribute. -/
def Json.asDict : Json → Except Exn Dict
  | .obj fields => .ok fields
  | _ => .error .attributeError

/-- `for item in value`: a string gives its characters, a dictionary its keys. -/
def Json.iter : Json → Except Exn (List Json)
  | .arr items => .ok items
  | .str s => .ok (s.toList.map fun c => .str (String.singleton c))
  | .obj fields => .ok (fields.map fun field => .str field.1)
  | _ => .error .typeError

end CryptoLakehouse
