/-!
# TOML values: what a configuration file says

A file is a table of values. Tables remember how they came about, because a table may be extended
only by the form that made it: a header opens a table once, dotted keys extend only tables made by
dotted keys, and an inline table is closed. Numbers with a fraction, dates and times are told apart
but not evaluated.
-/

namespace FragmentRelay.Toml

/-- How a table came about. -/
inductive Origin where
  /-- Opened by a header. -/
  | header
  /-- Made on the way to a header below it. -/
  | implied
  /-- Made by a dotted key. -/
  | dotted
  /-- Written in braces. -/
  | inline
deriving DecidableEq, Repr

/-- A value. -/
inductive Value where
  | string (s : String)
  | integer (n : Int)
  | boolean (b : Bool)
  | float
  | datetime
  | array (items : List Value)
  | table (origin : Origin) (fields : List (String × Value))
  | tables (items : List (List (String × Value)))
deriving Repr

/-- The fields of a table, in the order in which they were written. -/
abbrev Fields := List (String × Value)

namespace Fields

/-- The value of a field. -/
def find? (name : String) : Fields → Option Value
  | [] => none
  | (n, v) :: r => if n = name then some v else find? name r

/-- The fields with one replaced or added at the end. -/
def put (name : String) (v : Value) : Fields → Fields
  | [] => [(name, v)]
  | (n, old) :: r => if n = name then (name, v) :: r else (n, old) :: put name v r

/-- The fields without one. -/
def erase (name : String) (fields : Fields) : Fields := fields.filter fun f => f.1 != name

end Fields

/-! ### Writing below a path -/

/-- Changes the table at a path. Tables on the way are made if they are absent; the last of an array
of tables stands for the array. Dotted keys do not pass through tables that a header opened, and
nothing passes through other values. -/
def descend (dotted : Bool) (f : Origin → Fields → Option (Origin × Fields)) (origin : Origin) :
    List String → Fields → Option (Origin × Fields)
  | [], fields => f origin fields
  | name :: path, fields =>
    match fields.find? name with
    | none => do
      let (o, inner) ← descend dotted f (if dotted then .dotted else .implied) path []
      return (origin, fields.put name (.table o inner))
    | some (.table .inline _) => none
    | some (.table o inner) =>
      if dotted ∧ o = .header then none
      else do
        let (o, inner) ← descend dotted f o path inner
        return (origin, fields.put name (.table o inner))
    | some (.tables items) =>
      match items.getLast? with
      | none => none
      | some last => do
        let (_, last) ← descend dotted f .header path last
        return (origin, fields.put name (.tables (items.dropLast ++ [last])))
    | some _ => none

/-- Adds a field that is not there yet. Behind a dotted path the table must be made by dotted keys;
without a path it must not be. -/
def addField (path : List String) (name : String) (v : Value) (origin : Origin) (fields : Fields) :
    Option (Origin × Fields) :=
  if (origin == .dotted) == path.isEmpty then none
  else if (fields.find? name).isSome then none
  else some (origin, fields.put name v)

/-- The fields of a table with a value set below a dotted path. -/
def setPath (path : List String) (name : String) (v : Value) (origin : Origin) (fields : Fields) :
    Option Fields :=
  (descend true (addField path name v) origin path fields).map (·.2)

end FragmentRelay.Toml
