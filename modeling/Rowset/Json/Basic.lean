import Rowset.Json.Numeral

/-!
# JSON values

Members of an object are ordered by their keys, character by character; a key occurs once.  `putMember`
keeps both and lets the later of two values win.
-/

namespace Rowset

/-- A JSON value; numbers keep their literal. -/
inductive Json where
  | null
  | bool (value : Bool)
  | number (literal : Json.Numeral)
  | string (value : String)
  | array (items : List Json)
  | object (members : List (String × Json))
deriving Inhabited, Repr

namespace Json

/-- Adds a member where its key belongs, in place of an earlier one of that key. -/
def putMember (key : String) (value : Json) : List (String × Json) → List (String × Json)
  | [] => [(key, value)]
  | m :: ms =>
    if key < m.1 then (key, value) :: m :: ms
    else if key = m.1 then (key, value) :: ms
    else m :: putMember key value ms

/-- Whether the value is null. -/
def isNull : Json → Bool
  | null => true
  | _ => false

end Json

end Rowset
