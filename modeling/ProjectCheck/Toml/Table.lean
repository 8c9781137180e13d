import ProjectCheck.Json.Basic

/-!
Tables that are filled step by step. A key is a list of names, each naming a table inside the one
before it. Where a name leads to a list of tables, its last table is meant.
-/
namespace ProjectCheck.Toml

abbrev Key := List String

mutual

/-- Changes the table that a key leads to, with the tables on the way made as needed. There is no
result where something else is in the way, or where the change has none. With `enterLists` a
list on the way stands for its last table. -/
def changeTable (enterLists : Bool) (change : Members Json → Option (Members Json)) :
    Key → Members Json → Option (Members Json)
  | [], table => change table
  | name :: rest, table =>
    match table.get? name with
    | none =>
      (changeTable enterLists change rest []).map fun inner => table.set name (.object inner)
    | some value => (changeValue enterLists change rest value).map fun value => table.set name value

def changeValue (enterLists : Bool) (change : Members Json → Option (Members Json)) (rest : Key) :
    Json → Option Json
  | .object table => (changeTable enterLists change rest table).map .object
  | .array items =>
    if !enterLists then none
    else match items.getLast? with
      | some (.object table) =>
        (changeTable enterLists change rest table).map fun table =>
          .array (items.dropLast ++ [.object table])
      | _ => none
  | _ => none

end

def addNew (name : String) (value : Json) (table : Members Json) : Option (Members Json) :=
  if table.has name then none else some (table.set name value)

def addAt (enterLists : Bool) (key : Key) (value : Json) (table : Members Json) :
    Option (Members Json) :=
  changeTable enterLists (addNew (key.getLastD "") value) key.dropLast table

def openTable (key : Key) (table : Members Json) : Option (Members Json) :=
  changeTable true some key table

def extendList (name : String) (table : Members Json) : Option (Members Json) :=
  match table.get? name with
  | none => some (table.set name (.array [.object []]))
  | some (.array items) => some (table.set name (.array (items ++ [.object []])))
  | some _ => none

def appendTable (key : Key) (table : Members Json) : Option (Members Json) :=
  changeTable true (extendList (key.getLastD "")) key.dropLast table

end ProjectCheck.Toml
