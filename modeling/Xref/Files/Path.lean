import Xref.Text.Split

/-!
# Paths

Paths are texts and are shown as they were given. What they name depends only on their segments:
empty ones and `.` do not count, except for a `.` in front.
-/
namespace Xref.Files

open Text

namespace Path

def counts (isFirst : Bool) (segment : String) : Bool :=
  !segment.isEmpty && (isFirst || segment != ".")

/-- The segments of a path that count. An absolute path begins with a slash as a segment of its
own. -/
def components (path : String) : List String :=
  match split '/' path with
  | [] => []
  | first :: rest =>
    let later := rest.filter (counts false)
    if counts true first then first :: later
    else if path.isEmpty then []
    else "/" :: later

/-- Drops the segments at the end that do not count. The first one is never dropped. -/
def dropIdle (segments : List String) : List String :=
  match segments with
  | [] => []
  | first :: rest => first :: (rest.reverse.dropWhile fun s => !counts false s).reverse

def parent? (path : String) : Option String :=
  match dropIdle (split '/' path) with
  | [] | [""] => none
  | [_] => some ""
  | segments =>
    match dropIdle segments.dropLast with
    | [""] => some "/"
    | around => some (joinWith "/" around)

def fileName? (path : String) : Option String :=
  match (components path).getLast? with
  | some name => if name == "/" || name == "." || name == ".." then none else some name
  | none => none

/-- A file name as its stem and its extension. A dot in front begins no extension. -/
def splitName (name : String) : String × Option String :=
  match cutLast '.' name with
  | some (stem, extension) => if stem.isEmpty then (name, none) else (stem, some extension)
  | none => (name, none)

def extension? (path : String) : Option String := (fileName? path).bind fun n => (splitName n).2

/-- `path` with an extension in the place of the one that the last segment has. -/
def setExtension (path extension : String) : String :=
  match fileName? path with
  | none => path
  | some name =>
    let around := (dropIdle (split '/' path)).dropLast
    joinWith "/" (around ++ [(splitName name).1 ++ "." ++ extension])

/-- `path` with another extension. The old one is taken off at the end first; if nothing but two
dots is left then, they are no file name and stay. -/
def withExtension (path extension : String) : String :=
  match extension? path with
  | some old => setExtension (String.ofList (path.toList.take (path.length - old.length))) extension
  | none => setExtension path extension

def join (root name : String) : String :=
  if root.isEmpty || (dropEnd? "/" root).isSome then root ++ name else root ++ "/" ++ name

end Path

end Xref.Files
