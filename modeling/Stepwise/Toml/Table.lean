import Stepwise.Json.Basic

/-!
# Tables of a settings file

A settings file defines tables line by line: by headers, by dotted keys and by inline tables. A
table may be defined once only, and what may still be added to it depends on how it came about.
-/

namespace Stepwise.Toml

/-- How a table came about: as a part of a longer header, by a dotted key, or by a header of its
own. -/
inductive Origin where
  | implied
  | dotted
  | headed
deriving DecidableEq, Repr

/-- What stands under a key: a closed value, a table, or the tables of a list of headers. -/
inductive Item where
  | value (json : Json)
  | table (origin : Origin) (entries : List (String × Item))
  | tables (items : List (List (String × Item)))

/-- The entries of a table. -/
abbrev Entries := List (String × Item)

/-- Where keys lead. -/
abbrev Path := List String

/-- A line of a file that says something. -/
inductive Line where
  | header (path : Path) (key : String)
  | listHeader (path : Path) (key : String)
  | entry (path : Path) (key : String) (value : Json)

namespace Entries

/-- Changes what stands under a key, or fails. -/
def alter (key : String) (f : Option Item → Option Item) : Entries → Option Entries
  | [] => (f none).map (fun item => [(key, item)])
  | (k, item) :: rest =>
    if k = key then (f (some item)).map (fun item => (k, item) :: rest)
    else (alter key f rest).map ((k, item) :: ·)

/-- Changes the table at the end of a path. Tables that are missing are made; those on the way
must have come about in an allowed way. Of the tables of a list the last one counts. -/
def descend (made : Origin) (allowed : Origin → Bool) (f : Origin → Entries → Option Entries) :
    Path → Origin → Entries → Option Entries
  | [], origin, entries => f origin entries
  | key :: path, _, entries =>
    entries.alter key fun
      | none => (descend made allowed f path made []).map (.table made)
      | some (.table origin inner) =>
        if allowed origin then (descend made allowed f path origin inner).map (.table origin)
        else none
      | some (.tables items) =>
        match items.getLast? with
        | some last =>
          (descend made allowed f path .headed last).map (fun last => .tables (items.dropLast ++ [last]))
        | none => none
      | some (.value _) => none

/-- Goes along the path of a header. -/
def along (f : Entries → Option Entries) (path : Path) (root : Entries) : Option Entries :=
  descend .implied (fun _ => true) (fun _ => f) path .headed root

/-- Defines a table by its header. -/
def define (path : Path) (key : String) (root : Entries) : Option Entries :=
  along (alter key fun
    | none => some (.table .headed [])
    | some (.table .implied entries) => some (.table .headed entries)
    | some _ => none) path root

/-- Adds a table to a list by its header. -/
def append (path : Path) (key : String) (root : Entries) : Option Entries :=
  along (alter key fun
    | none => some (.tables [[]])
    | some (.tables items) => some (.tables (items ++ [[]]))
    | some _ => none) path root

/-- Adds a value under a dotted key. Only tables that dotted keys have made take values this
way. -/
def insert (path : Path) (key : String) (value : Json) (entries : Entries) : Option Entries :=
  descend .dotted (· ≠ .headed) (fun origin entries =>
    if (origin = .dotted) = path.isEmpty then none
    else entries.alter key fun
      | none => some (.value value)
      | some _ => none) path .headed entries

end Entries

mutual

/-- The value of an item. -/
def Item.toJson : Item → Json
  | .value json => json
  | .table _ entries => .ofMembers (membersOf entries)
  | .tables items => .arr (listOf items)

/-- The members of a table as values. -/
def membersOf : List (String × Item) → List (String × Json)
  | [] => []
  | (key, item) :: rest => (key, item.toJson) :: membersOf rest

/-- The tables of a list as values. -/
def listOf : List (List (String × Item)) → List Json
  | [] => []
  | entries :: rest => .ofMembers (membersOf entries) :: listOf rest

end

/-- The tables that lines define; entries belong to the table of the last header before them. -/
def build : (current : Path) → Entries → List Line → Option Entries
  | _, root, [] => some root
  | current, root, line :: rest =>
    match line with
    | .header path key => (root.define path key).bind (build (path ++ [key]) · rest)
    | .listHeader path key => (root.append path key).bind (build (path ++ [key]) · rest)
    | .entry path key value =>
      (root.along (Entries.insert path key value) current).bind (build current · rest)

end Stepwise.Toml
