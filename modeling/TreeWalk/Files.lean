import TreeWalk.Text.Lines

/-! Paths, and what is found under them.

Where files come from is left to the caller, who answers for each path; a folder of named texts is one
such answer. -/
namespace TreeWalk

/-- What there is under a path. -/
inductive Found where
  | file (text : String)
  | folder
  | missing
  /-- The path leads through a file. -/
  | blocked
  /-- The path, or a part of it that would have to be looked up, is too long. -/
  | tooLong
  deriving DecidableEq, Repr

namespace Found

/-- The text of a file with uniform line ends, or why it cannot be read. -/
def read : Found → Except String String
  | file text => .ok (String.ofList (Text.uniformLines text.toList))
  | folder => .error "Is a directory"
  | missing => .error "No such file or directory"
  | blocked => .error "Not a directory"
  | tooLong => .error "File name too long"

end Found

namespace Path

/-- The parts of a path; empty ones and single dots do not count. -/
def parts (path : String) : List String :=
  ((path.toList.splitOn '/').map String.ofList).filter fun part => part ≠ "" && part ≠ "."

/-- How a path starts: two slashes are kept, any other number of them counts as one. -/
def anchor (path : String) : String :=
  match (path.toList.takeWhile (· = '/')).length with
  | 0 => ""
  | 2 => "//"
  | _ => "/"

/-- A path without the parts that do not count. -/
def normal (path : String) : String :=
  let text := anchor path ++ "/".intercalate (parts path)
  if text = "" then "." else text

/-- How many bytes a path may have. -/
def limit : Nat := 4095

/-- How many bytes one part of a path may have. -/
def partLimit : Nat := 255

end Path

/-- Named texts; the names are paths from the folder that holds them. -/
abbrev Folder := List (String × String)

namespace Folder

/-- What lies under the parts of a path. -/
def lookup (folder : Folder) (parts : List String) : Found :=
  match folder.find? fun (name, _) => Path.parts name = parts with
  | some (_, text) => .file text
  | none =>
    if parts = [] ∨ folder.any fun (name, _) => parts.isPrefixOf (Path.parts name) then .folder
    else if folder.any fun (name, _) => (Path.parts name).isPrefixOf parts then .blocked
    else .missing

/-- Follows the parts of a path outside of the folder. There is always a level further up; what else
there may be is not known. -/
def followOutside : List String → Found
  | [] => .folder
  | part :: rest =>
    if part = ".." then followOutside rest
    else if part.utf8ByteSize ≤ Path.partLimit then .missing
    else .tooLong

/-- Follows the parts of a path from a place inside the folder; a double dot leads one level up. -/
def follow (folder : Folder) (here : List String) : List String → Found
  | [] => folder.lookup here
  | part :: rest =>
    match folder.lookup here with
    | .folder =>
      if part = ".." then
        if here = [] then followOutside rest else folder.follow here.dropLast rest
      else if part.utf8ByteSize ≤ Path.partLimit then folder.follow (here ++ [part]) rest
      else .tooLong
    | .file _ => .blocked
    | found => found

/-- What there is under a path. -/
def find (folder : Folder) (path : String) : Found :=
  if Path.limit < (Path.normal path).utf8ByteSize then .tooLong
  else if Path.anchor path = "" then folder.follow [] (Path.parts path)
  else followOutside (Path.parts path)

end Folder

end TreeWalk
