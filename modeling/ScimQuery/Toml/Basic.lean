/-!
# Toml

TOML documents as tables of keys and values, and the rules by which a document builds its table
up.  A table remembers how it came about (`Origin`), since this decides what may still be added:

* a `[header]` opens a table that is new or was only passed through by longer headers;
* a dotted key adds to tables that dotted keys have made, and to no others;
* a table written between braces, like any other value, is complete as it stands;
* no key is set twice.
-/

namespace ScimQuery

namespace Toml

/-- How a table came about. -/
inductive Origin where
  /-- It was passed through on the way to the table of a header. -/
  | passed
  /-- A header opened it, or it is the document itself. -/
  | header
  /-- It was passed through on the way to a dotted key. -/
  | dotted
  /-- It is written between braces. -/
  | braces
  deriving Repr, DecidableEq

end Toml

/-- A value of a document.  Floating-point numbers and dates are known only as such. -/
inductive Toml where
  | string (s : String)
  | integer (n : Int)
  | float
  | boolean (b : Bool)
  | date
  | array (items : List Toml)
  | table (origin : Toml.Origin) (entries : List (String × Toml))
  /-- The tables of an array of tables, the latest first. -/
  | tables (items : List (List (String × Toml)))
  deriving Inhabited

namespace Toml

/-- The keys and values of a table. -/
abbrev Entries := List (String × Toml)

/-- Replaces the value of a key that is present. -/
def Entries.replace (key : String) (value : Toml) : Entries → Entries
  | [] => []
  | (k, v) :: more => if k = key then (k, value) :: more else (k, v) :: replace key value more

/-- Changes the table that a path of keys leads to, making the tables on the way that are
missing.  `make` is the origin of those; `change` is given the origin of the table reached. -/
def Entries.alter (make : Origin) (change : Origin → Entries → Option Entries) :
    Origin → List String → Entries → Option Entries
  | origin, [], entries => change origin entries
  | _, key :: path, entries =>
    match entries.lookup key with
    | none => do
      let sub ← alter make change make path []
      return entries ++ [(key, .table make sub)]
    | some (.table origin sub) =>
      if origin = .braces ∨ (make = .dotted ∧ origin = .header) then none
      else do
        let sub ← alter make change origin path sub
        return replace key (.table origin sub) entries
    | some (.tables (latest :: earlier)) => do
      let latest ← alter make change .header path latest
      return replace key (.tables (latest :: earlier)) entries
    | some _ => none

/-- Sets a key of a table, reached through `path` by dotted keys. -/
def Entries.set (path : List String) (key : String) (value : Toml) (entries : Entries) :
    Option Entries :=
  alter .dotted (fun origin es =>
    if path ≠ [] ∧ origin ≠ .dotted then none
    else if (es.lookup key).isSome then none
    else some (es ++ [(key, value)])) .header path entries

/-- Opens the table of a header. -/
def Entries.openTable (path : List String) (key : String) (entries : Entries) : Option Entries :=
  alter .passed (fun _ es =>
    match es.lookup key with
    | none => some (es ++ [(key, .table .header [])])
    | some (.table .passed sub) => some (replace key (.table .header sub) es)
    | some _ => none) .header path entries

/-- Opens a further table of an array of tables. -/
def Entries.pushTable (path : List String) (key : String) (entries : Entries) : Option Entries :=
  alter .passed (fun _ es =>
    match es.lookup key with
    | none => some (es ++ [(key, .tables [[]])])
    | some (.tables items) => some (replace key (.tables ([] :: items)) es)
    | some _ => none) .header path entries

/-- Sets a dotted key of the table that `header` opened. -/
def Entries.setUnder (header path : List String) (key : String) (value : Toml)
    (entries : Entries) : Option Entries :=
  alter .passed (fun _ es => set path key value es) .header header entries

end Toml

end ScimQuery
