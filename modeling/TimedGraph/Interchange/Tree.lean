import TimedGraph.Decimal.Binary64

/-!
# Trees of plain data

The data types of this library are exchanged as trees of plain data: nothing, truth
values, numbers, texts, lists and records.  Integers and floating-point numbers are told
apart, as are a number and a text that spells it.
-/

namespace TimedGraph

/-- A tree of plain data. -/
inductive Tree where
  | null
  | bool (value : Bool)
  | integer (value : Int)
  | real (value : Binary64)
  | text (value : String)
  | list (items : List Tree)
  | record (fields : List (String × Tree))

namespace Tree

/-- The first field of a record with a given name. -/
def field? (tree : Tree) (name : String) : Option Tree :=
  match tree with
  | record fields => (fields.find? fun field => field.1 = name).map Prod.snd
  | _ => none

/-- The only field of a record that has one. -/
def onlyField? : Tree → Option (String × Tree)
  | record [field] => some field
  | _ => none

end Tree

end TimedGraph
