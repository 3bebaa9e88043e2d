/-!
# JSON values

Options reach the server as JSON, written by hand or by an editor, so they can be anything.

## Main definitions

* `Json` — a JSON value.
* `Json.field?` — the value of a field of an object.
-/

namespace Npl

/-- A JSON value. A number is kept as it was written; of the fields of an object with the same name
only the last one counts. -/
inductive Json
  | null
  | bool (b : Bool)
  | number (literal : String)
  | string (s : String)
  | array (items : List Json)
  | object (fields : List (String × Json))
deriving Repr, Inhabited

namespace Json

/-- The value of a field among several. -/
def field? (fields : List (String × Json)) (name : String) : Option Json :=
  (fields.reverse.find? (·.1 = name)).map Prod.snd

end Json

end Npl
