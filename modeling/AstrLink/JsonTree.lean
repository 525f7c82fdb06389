import Mathlib.Data.List.Nodup

/-!
JSON values as trees. Numbers keep their spelling, and objects their members in order.
-/
namespace AstrLink.JsonTree

inductive Json where
  | null
  | bool (value : Bool)
  | number (literal : List Char)
  | string (value : List Char)
  | array (items : List Json)
  | object (members : List (List Char × Json))

end AstrLink.JsonTree
