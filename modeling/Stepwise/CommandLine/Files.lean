import Stepwise.Table

/-!
# Files as the command line sees them

What a path leads to, and a directory of files that is held in memory: its keys are paths from
the directory on, with a slash between the names.
-/

namespace Stepwise.CommandLine

/-- Why a path gives no text. -/
inductive Obstacle where
  | missing
  | notDirectory
  | directory
  | denied
  | other (reason : String)
deriving DecidableEq, Repr

/-- An obstacle in words. -/
def Obstacle.message : Obstacle → String
  | missing => "No such file or directory (os error 2)"
  | notDirectory => "Not a directory (os error 20)"
  | directory => "Is a directory (os error 21)"
  | denied => "Permission denied (os error 13)"
  | other reason => reason

/-- What a path leads to: nothing, something that cannot be read, or a text. -/
inductive Found where
  | absent (obstacle : Obstacle)
  | unreadable (obstacle : Obstacle)
  | text (content : String)
deriving DecidableEq, Repr

/-- The files of a directory. -/
abbrev FileTree := Table String

namespace FileTree

/-- Whether there is a file somewhere below a path. -/
def isDirectory (files : FileTree) (path : String) : Bool :=
  files.any (fun (file, _) => file.startsWith (path ++ "/"))

/-- Follows the names of a path from the directory `inside` on. The path does not lead out of the
files, and below a file there is nothing. -/
def follow (files : FileTree) (inside : List String) : List String → Found
  | [] => .unreadable .directory
  | name :: rest =>
    if name = "" ∨ name = "." then follow files inside rest
    else if name = ".." then
      if inside.isEmpty then .absent .missing else follow files inside.dropLast rest
    else
      let path := "/".intercalate (inside ++ [name])
      match files.find? path with
      | some content => if rest.isEmpty then .text content else .absent .notDirectory
      | none => if files.isDirectory path then follow files (inside ++ [name]) rest else .absent .missing

/-- What a path leads to; `home` is the absolute name of the directory, a single word. -/
def look (files : FileTree) (home path : String) : Found :=
  match path.splitOn "/" with
  | [""] => .absent .missing
  | "" :: rest => if rest.all (· = "") then .unreadable .directory else .absent .missing
  | first :: rest => follow files [] (if first = home then rest else first :: rest)
  | [] => .absent .missing

end FileTree

end Stepwise.CommandLine
