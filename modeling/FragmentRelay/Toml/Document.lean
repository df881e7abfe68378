import FragmentRelay.Toml.Number

/-!
# TOML documents: lines into a table

A document is a sequence of lines: fields, headers that open a table, and headers that append one to
an array of tables. The fields after a header belong to its table until the next header. A field or
a table may be written only once.
-/

namespace FragmentRelay.Toml

/-! ### Values -/

/-- The items of an array up to the closing bracket, given a reader of one value; at most as many as
the first number says. -/
def items (value : List Char → Option (Value × List Char)) :
    Nat → List Char → Option (List Value × List Char)
  | 0, _ => none
  | n + 1, cs =>
    match skipBlankLines cs with
    | ']' :: rest => some ([], rest)
    | cs => do
      let (v, rest) ← value cs
      match skipBlankLines rest with
      | ',' :: rest => do
        let (vs, rest) ← items value n rest
        return (v :: vs, rest)
      | ']' :: rest => return ([v], rest)
      | _ => none

/-- The fields of an inline table up to the closing brace, put into those read so far. -/
def inlineFields (value : List Char → Option (Value × List Char)) :
    Nat → Fields → List Char → Option (Fields × List Char)
  | 0, _, _ => none
  | n + 1, fields, cs => do
    let (path, name, rest) ← key? cs
    let rest ← expect '=' rest
    let (v, rest) ← value (skipSpaces rest)
    let fields ← setPath path name v .inline fields
    match skipSpaces rest with
    | ',' :: rest => inlineFields value n fields rest
    | '}' :: rest => return (fields, rest)
    | _ => none

/-- A value nested at most as deep as the number says. -/
def value? : Nat → List Char → Option (Value × List Char)
  | 0, _ => none
  | depth + 1, cs =>
    match cs with
    | '"' :: _ => (string? cs).map fun (s, rest) => (.string s, rest)
    | '\'' :: _ => (string? cs).map fun (s, rest) => (.string s, rest)
    | '[' :: rest =>
      (items (value? depth) (rest.length + 1) rest).map fun (vs, rest) => (.array vs, rest)
    | '{' :: rest =>
      match skipSpaces rest with
      | '}' :: rest => some (.table .inline [], rest)
      | cs => (inlineFields (value? depth) (cs.length + 1) [] cs).map fun (fs, rest) =>
        (.table .inline fs, rest)
    | 't' :: 'r' :: 'u' :: 'e' :: rest => some (.boolean true, rest)
    | 'f' :: 'a' :: 'l' :: 's' :: 'e' :: rest => some (.boolean false, rest)
    | 'i' :: 'n' :: 'f' :: rest => some (.float, rest)
    | 'n' :: 'a' :: 'n' :: rest => some (.float, rest)
    | _ => number? cs

/-! ### Lines -/

/-- A document half read: the tables that are done, and the table whose fields are being read. -/
structure Reading where
  done : Fields := []
  current : Fields := []
  path : List String := []
  name : Option String := none
  appends : Bool := false

namespace Reading

/-- The document with the current table put in its place. -/
def close (r : Reading) : Option Fields :=
  match r.name with
  | none => some r.current
  | some name =>
    let place := fun origin (fields : Fields) =>
      if r.appends then
        match fields.find? name with
        | none => some (origin, fields.put name (.tables [r.current]))
        | some (.tables ts) => some (origin, fields.put name (.tables (ts ++ [r.current])))
        | some _ => none
      else if (fields.find? name).isSome then none
      else some (origin, fields.put name (.table .header r.current))
    (descend false place .header r.path r.done).map (·.2)

/-- The fields of the table at a path; there are none where no table is. -/
def fieldsAt : List String → Fields → Fields
  | [], fields => fields
  | n :: path, fields =>
    match fields.find? n with
    | some (.table _ inner) => fieldsAt path inner
    | some (.tables ts) => fieldsAt path (ts.getLast?.getD [])
    | _ => []

/-- Opens a table. Its place must be free, or held by a table that only was on the way to
another. -/
def openTable (r : Reading) (path : List String) (name : String) : Option Reading := do
  let done ← r.close
  let (_, parent) ← descend false (fun o fields => some (o, fields)) .header path done
  let place := fieldsAt path parent
  match place.find? name with
  | none => return { done := parent, path, name := some name }
  | some (.table .implied inner) =>
    let (_, done) ← descend false (fun o fields => some (o, fields.erase name)) .header path parent
    return { done, current := inner, path, name := some name }
  | some _ => none

/-- Starts a new table of an array of tables. -/
def appendTable (r : Reading) (path : List String) (name : String) : Option Reading := do
  let done ← r.close
  let check := fun origin (fields : Fields) =>
    match fields.find? name with
    | none => some (origin, fields)
    | some (.tables _) => some (origin, fields)
    | some _ => none
  let (_, done) ← descend false check .header path done
  return { done, path, name := some name, appends := true }

/-- Adds a field to the current table. -/
def addField (r : Reading) (path : List String) (name : String) (v : Value) : Option Reading := do
  let current ← setPath path name v .header r.current
  return { r with current }

/-- Reads one line, which is not blank. -/
def line (r : Reading) : List Char → Option (Reading × List Char)
  | '[' :: '[' :: cs => do
    let (path, name, rest) ← key? cs
    let rest ← expect ']' rest
    let rest ← expect ']' rest
    let rest ← lineEnd? rest
    let r ← r.appendTable path name
    return (r, rest)
  | '[' :: cs => do
    let (path, name, rest) ← key? cs
    let rest ← expect ']' rest
    let rest ← lineEnd? rest
    let r ← r.openTable path name
    return (r, rest)
  | cs => do
    let (path, name, rest) ← key? cs
    let rest ← expect '=' rest
    let (v, rest) ← value? (depthLimit + 1) (skipSpaces rest)
    let rest ← lineEnd? rest
    let r ← r.addField path name v
    return (r, rest)

/-- Reads lines up to the end; at most as many as the number says. -/
def lines : Nat → Reading → List Char → Option Reading
  | 0, _, _ => none
  | n + 1, r, cs =>
    match skipSpaces cs with
    | [] => some r
    | '#' :: cs =>
      match lineEnd? ('#' :: cs) with
      | none => none
      | some rest => lines n r rest
    | '\n' :: rest => lines n r rest
    | '\r' :: '\n' :: rest => lines n r rest
    | cs =>
      match r.line cs with
      | none => none
      | some (r, rest) => lines n r rest

end Reading

/-- A document as a table. A byte order mark at its start is skipped. -/
def parse (s : String) : Option Fields :=
  let cs := match s.toList with
    | '\uFEFF' :: cs => cs
    | cs => cs
  (Reading.lines (cs.length + 1) {} cs).bind Reading.close

end FragmentRelay.Toml
