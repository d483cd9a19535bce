import Lightboard.PathName
import Lightboard.Table

/-!
# Files

The files under a directory, by their paths from there. A directory is there if a file is in it. A path
is followed part by part, and every part but the last has to be a directory that is there. Paths that
lead out of the directory lead nowhere, save one: the null device is always empty, and takes whatever is
written to it.
-/

namespace Lightboard

/-- Files with their contents. -/
structure Disk where
  files : Table Text Text := {}

namespace Disk

def nullDevice : Text := "/dev/null"

/-- The files of a list. -/
def ofList (files : List (Text × Text)) : Disk :=
  ⟨Table.ofList (files.map fun (path, t) => (PathName.clean path, t))⟩

/-- Whether a directory is there. -/
def isDirectory (d : Disk) (parts : List Text) : Bool :=
  parts.isEmpty ||
    d.files.keys.any fun k => (Text.join [PathName.slash] parts ++ [PathName.slash]).isPrefixOf k

/-- Follows the parts of a path from the directory `here`, whose last part comes first. -/
def follow? (d : Disk) (here : List Text) : List Text → Option (List Text)
  | [] => some here
  | part :: rest =>
    if !d.isDirectory here.reverse ∨ 255 < part.length then none
    else if part.isEmpty ∨ part = ("." : Text) then d.follow? here rest
    else if part = (".." : Text) then
      match here with
      | [] => none
      | _ :: up => d.follow? up rest
    else d.follow? (part :: here) rest

/-- The parts of the place that a path leads to. -/
def place? (d : Disk) (path : Text) : Option (List Text) :=
  if path.isEmpty ∨ PathName.isAbsolute path ∨ path.contains 0 ∨ 4095 < path.length then none
  else (d.follow? [] (path.splitOn PathName.slash)).map List.reverse

/-- The contents of a file. -/
def read? (d : Disk) (path : Text) : Option Text :=
  if path = nullDevice then some []
  else do
    let parts ← d.place? path
    d.files.get? (Text.join [PathName.slash] parts)

/-- The place of a file that can be written: the path does not lead to a directory. -/
def writable? (d : Disk) (path : Text) : Option Text := do
  let parts ← d.place? path
  if d.isDirectory parts then none else some (Text.join [PathName.slash] parts)

/-- Writes a file, in place of what was there. -/
def write? (d : Disk) (path t : Text) : Option Disk :=
  if path = nullDevice then some d
  else (d.writable? path).map fun place => ⟨d.files.insert place t⟩

/-- Adds to the end of a file, which is made if it is not there. -/
def append? (d : Disk) (path t : Text) : Option Disk :=
  d.write? path ((d.read? path).getD [] ++ t)

end Disk

end Lightboard
