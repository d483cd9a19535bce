import Lightboard.Text.Utf8

/-!
# File names

Paths are texts whose parts are divided by slashes. The rules here look at the text only.
-/

namespace Lightboard.PathName

def slash : UInt8 := ascii '/'

/-- The part after the last slash. -/
def lastPart (path : Text) : Text := (path.reverse.takeWhile (· != slash)).reverse

/-- The end of the last part from its last point on; nothing if it has no point. -/
def extension (path : Text) : Text :=
  let part := lastPart path
  if part.contains (ascii '.') then
    ascii '.' :: (part.reverse.takeWhile (· != ascii '.')).reverse
  else []

/-- The last part that is not empty; a point if there is none, a slash if there are only slashes. -/
def base (path : Text) : Text :=
  if path.isEmpty then "."
  else
    let trimmed := (path.reverse.dropWhile (· == slash)).reverse
    if trimmed.isEmpty then [slash] else lastPart trimmed

/-- The last part without its extension. -/
def stem (path : Text) : Text :=
  let part := base path
  let ext := extension path
  if ext.isSuffixOf part then part.take (part.length - ext.length) else part

def isAbsolute (path : Text) : Bool := path.head? == some slash

/-- One more part of a path, the last first: points go away, and double points take a part back. -/
def pushPart (absolute : Bool) (parts : List Text) (part : Text) : List Text :=
  let up : Text := ".."
  if part.isEmpty ∨ part = ("." : Text) then parts
  else if part = up then
    match parts with
    | [] => if absolute then [] else [up]
    | last :: rest => if last = up then up :: parts else rest
  else part :: parts

/-- The shortest path that means the same. -/
def clean (path : Text) : Text :=
  let absolute := isAbsolute path
  let parts := ((path.splitOn slash).foldl (pushPart absolute) []).reverse
  let body := Text.join [slash] parts
  if absolute then slash :: body else if body.isEmpty then "." else body

/-- The directory part. -/
def directory (path : Text) : Text :=
  clean (path.take (path.length - (lastPart path).length))

/-- A path inside a directory. -/
def join (dir path : Text) : Text :=
  clean (Text.join [slash] ([dir, path].filter (!·.isEmpty)))

end Lightboard.PathName
