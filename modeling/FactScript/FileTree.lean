import FactScript.File

/-!
Files by their names below a working directory, and what is found at a path among them. A path is
walked part by part; only a directory leads further.
-/
namespace FactScript

/-- What is known of the files below the working directory, each under the names that lead to it,
the innermost first. -/
structure FileTree where
  entries : List (List String × FileStatus) := []

inductive Place
  /-- Below the working directory, or in it: the names on the way, the innermost first. -/
  | inside (names : List String)
  /-- A directory that contains the working directory. -/
  | above
  /-- Elsewhere, where nothing is known. -/
  | away
  deriving DecidableEq, Repr

namespace Place

/-- The place that one part of a path leads to. -/
def enter (part : String) : Place → Place
  | inside names =>
    if part = "" || part = "." then inside names
    else if part = ".." then
      match names with
      | [] => above
      | _ :: outer => inside outer
    else inside (part :: names)
  | above => if part = "" || part = "." || part = ".." then above else away
  | away => away

end Place

namespace FileTree

/-- The longest name of a file, in bytes. -/
def nameLimit : Nat := 255

/-- A directory need not be listed if something in it is. -/
def status (t : FileTree) : Place → FileStatus
  | .inside [] => .directory
  | .inside (name :: outer) =>
    if nameLimit < name.utf8ByteSize then .nameTooLong
    else
      match t.entries.lookup (name :: outer) with
      | some status => status
      | none =>
        if t.entries.any fun e => (name :: outer).isSuffixOf e.1 then .directory else .missing
  | .above => .directory
  | .away => .missing

def walk (t : FileTree) (place : Place) : List String → FileStatus
  | [] => t.status place
  | part :: rest =>
    match t.status place with
    | .directory => t.walk (place.enter part) rest
    | .bytes _ => .blocked
    | status => status

/-- What is found at a path. An empty path leads nowhere, and one that begins with a slash starts at
the top. -/
def look (t : FileTree) (path : String) : FileStatus :=
  if path = "" then .missing
  else
    let parts := path.splitOn "/"
    t.walk (if parts.head? = some "" then .above else .inside []) parts

end FileTree

end FactScript
