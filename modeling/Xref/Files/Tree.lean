import Xref.Files.Path
import Xref.Text.Utf8

/-!
# File trees

A directory with all that is below it. Operations on it are functions, and they fail for the reasons
for which operations on files fail.
-/
namespace Xref.Files

open Text

inductive Content where
  | bytes (bs : List UInt8)
  | archive (entries : List (String × List UInt8))
  deriving Repr, DecidableEq, Inhabited

inductive FileError where
  | notFound | busy | exists | notDirectory | isDirectory | notUtf8
  deriving Repr, DecidableEq, Inhabited

def FileError.message : FileError → String
  | notFound => "No such file or directory (os error 2)"
  | busy => "Device or resource busy (os error 16)"
  | .exists => "File exists (os error 17)"
  | notDirectory => "Not a directory (os error 20)"
  | isDirectory => "Is a directory (os error 21)"
  | notUtf8 => "stream did not contain valid UTF-8"

inductive Entry where
  | directory
  | file (content : Content)
  deriving Repr, DecidableEq, Inhabited

/-- What is below the directory, by the segments that lead to it. The directory itself is not
listed, and around everything that is listed the directories are listed too. -/
structure FileTree where
  entries : List (List String × Entry) := []
  deriving Repr, DecidableEq, Inhabited

namespace FileTree

def at? (t : FileTree) (place : List String) : Option Entry :=
  if place.isEmpty then some .directory else t.entries.lookup place

/-- Whether a segment leads to a directory around a place, or to the place itself. -/
def leadsUp (segment : String) : Bool := segment == "." || segment == ".."

/-- The place below `here` that segments lead to, and what is there. Of what is around the tree it
is only known that there are directories. -/
def follow (t : FileTree) : List String → List String → Except FileError (List String × Entry)
  | here, [] =>
    match t.at? here with
    | some entry => .ok (here, entry)
    | none => .error .notFound
  | here, segment :: rest =>
    match t.at? here with
    | none => .error .notFound
    | some (.file _) => .error .notDirectory
    | some .directory =>
      if segment == "." then follow t here rest
      else if segment == ".." then
        if !here.isEmpty then follow t here.dropLast rest
        else if rest.all leadsUp then .ok ([], .directory)
        else .error .notFound
      else follow t (here ++ [segment]) rest

def segments (path : String) : List String := (split '/' path).filter fun s => !s.isEmpty

def endsInSlash (path : String) : Bool := (dropEnd? "/" path).isSome

/-- The segments to follow for a path. One that ends in a slash has to lead to a directory. -/
def steps (path : String) : List String :=
  if endsInSlash path then segments path ++ ["."] else segments path

/-- What a path leads to. Nothing outside of the tree can be reached: a path that begins with a
slash is not found in any tree, so what holds for all paths says of such a path only what it says of
one that leads nowhere. -/
def find (t : FileTree) (path : String) : Except FileError (List String × Entry) :=
  if path.isEmpty || (dropStart? "/" path).isSome then .error .notFound
  else t.follow [] (steps path)

def isDirectory (t : FileTree) (path : String) : Bool :=
  match t.find path with
  | .ok (_, .directory) => true
  | _ => false

def isFile (t : FileTree) (path : String) : Bool :=
  match t.find path with
  | .ok (_, .file _) => true
  | _ => false

def contains (t : FileTree) (path : String) : Bool := t.isDirectory path || t.isFile path

def read (t : FileTree) (path : String) : Except FileError Content :=
  match t.find path with
  | .ok (_, .file content) => .ok content
  | .ok (_, .directory) => .error .isDirectory
  | .error e => .error e

def readText (t : FileTree) (path : String) : Except FileError String := do
  match ← t.read path with
  | .bytes bs =>
    match decodeUtf8? bs with
    | some s => .ok s
    | none => .error .notUtf8
  | .archive _ => .error .notUtf8

def nameBefore (a b : String) : Bool := !(b < a)

/-- The files at or below a place, in the order of a walk: by name in each directory, and what is
in a directory where that stands. `n` bounds the depth. -/
def filesBelow (t : FileTree) : Nat → List String → List (List String)
  | 0, _ => []
  | n + 1, place =>
    match t.at? place with
    | none => []
    | some (.file _) => [place]
    | some .directory =>
      let names := t.entries.filterMap fun (p, _) =>
        if p.length == place.length + 1 && place.isPrefixOf p then p.getLast? else none
      (names.mergeSort nameBefore).flatMap fun name => filesBelow t n (place ++ [name])

def depth (t : FileTree) : Nat := t.entries.foldl (fun d (p, _) => max d p.length) 0

/-- The files below the directory `root`, each as its path and its path relative to `root`. -/
def walk (t : FileTree) (root : String) : List (String × String) :=
  match t.find root with
  | .ok (place, .directory) =>
    (t.filesBelow (t.depth + 1) place).map fun p =>
      let relative := joinWith "/" (p.drop place.length)
      (Path.join root relative, relative)
  | _ => []

def put (t : FileTree) (place : List String) (entry : Entry) : FileTree :=
  if (t.entries.lookup place).isSome then
    ⟨t.entries.map fun (p, e) => if p == place then (p, entry) else (p, e)⟩
  else ⟨t.entries ++ [(place, entry)]⟩

def erase (t : FileTree) (place : List String) : FileTree :=
  ⟨t.entries.filter fun (p, _) => !place.isPrefixOf p⟩

/-- Whether segments lead out of the tree from a place that many directories below its top. -/
def leadsOut : Nat → List String → Bool
  | _, [] => false
  | depth, segment :: rest =>
    if segment == "." then leadsOut depth rest
    else if segment == ".." then depth == 0 || leadsOut (depth - 1) rest
    else leadsOut (depth + 1) rest

/-- The place of a path that may not exist yet, in a directory that does. -/
def newPlace (t : FileTree) (path : String) : Except FileError (List String) := do
  match (segments path).reverse with
  | [] => .error .notFound
  | name :: around =>
    if (dropStart? "/" path).isSome || leadsOut 0 around.reverse then .error .notFound
    else match ← t.follow [] around.reverse with
      | (place, .directory) => .ok (place ++ [name])
      | (_, .file _) => .error .notDirectory

def makeDirectory (t : FileTree) (path : String) : Except FileError FileTree := do
  if (t.find path).isOk then .error .exists
  else
    let place ← t.newPlace path
    if (t.at? place).isSome then .error .exists else .ok (t.put place .directory)

def ensureDirectory (t : FileTree) (path : String) : FileTree × Except FileError Unit :=
  match t.makeDirectory path with
  | .ok t => (t, .ok ())
  | .error e => (t, if t.isDirectory path then .ok () else .error e)

/-- Makes a directory and those around it that are missing. If one of them cannot be made, those
around it stay. -/
def makeDirectories (t : FileTree) : Nat → String → FileTree × Except FileError Unit
  | 0, _ => (t, .error .notFound)
  | n + 1, path =>
    if path.isEmpty then (t, .ok ())
    else match t.makeDirectory path, Path.parent? path with
      | .error .notFound, some around =>
        match t.makeDirectories n around with
        | (t, .ok ()) => t.ensureDirectory path
        | (t, .error e) => (t, .error e)
      | _, _ => t.ensureDirectory path

def write (t : FileTree) (path : String) (bs : List UInt8) : Except FileError FileTree := do
  match t.find path with
  | .ok (place, .file _) => .ok (t.put place (.file (.bytes bs)))
  | .ok (_, .directory) => .error .isDirectory
  | .error .notFound =>
    if endsInSlash path then .error .isDirectory
    else .ok (t.put (← t.newPlace path) (.file (.bytes bs)))
  | .error e => .error e

/-- Gives a file another path. A file that is there is replaced, a directory is not. The path has
to end with a name. -/
def rename (t : FileTree) (source target : String) : Except FileError FileTree := do
  match ← t.find source with
  | (_, .directory) => .error .isDirectory
  | (place, .file content) =>
    match t.find target with
    | .ok (other, entry) =>
      if (segments target).getLast?.any leadsUp then .error .busy
      else if endsInSlash target then .error .notDirectory
      else match entry with
        | .directory => .error .isDirectory
        | .file _ =>
          if other == place then .ok t else .ok ((t.erase place).put other (.file content))
    | .error .notFound =>
      let new ← t.newPlace target
      if endsInSlash target then .error .notDirectory
      else .ok ((t.erase place).put new (.file content))
    | .error e => .error e

/-- Puts an entry at a path and makes the directories around it. What stands in the way is
replaced. -/
def place (t : FileTree) (path : String) (entry : Entry) : FileTree :=
  let names := (segments path).filter (· != ".")
  let around := (List.range names.length).map names.take |>.filter fun p => !p.isEmpty
  let t := around.foldl (fun t p =>
    match t.at? p with
    | some .directory => t
    | _ => t.put p .directory) t
  (t.erase names).put names entry

def remove (t : FileTree) (path : String) : FileTree :=
  match t.find path with
  | .ok (place, _) => t.erase place
  | .error _ => t

end FileTree

end Xref.Files
