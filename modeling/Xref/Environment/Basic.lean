import Xref.Environment.Index
import Xref.Reference.Analysis

/-!
# Environments

All types that can be reached from given source and library paths. An environment does not change
once it is built, except that the description of a class in a library is read when it is first asked
for, and kept from then on.
-/
namespace Xref

open Environment Files Java Reference Resolve Text

structure Environment where
  sources : List (String × TypeInfo)
  classes : List (String × ClassPlace)
  archives : List String
  diagnostics : List Diagnostic
  sourceFiles : Nat
  /-- The classes that were asked for, with their descriptions if they could be read. -/
  loaded : List (String × Option TypeInfo)

namespace Environment

def build (config : Config) (files : FileTree) (libraries sources : List String) : Environment :=
  let s := sources.foldl (Sources.addRoot config files) {}
  let l := libraries.foldl (Libraries.addLibrary config files) {}
  { sources := s.types
    classes := l.classes
    archives := l.archives
    diagnostics := s.diagnostics ++ l.diagnostics
    sourceFiles := s.files
    loaded := [] }

def names (env : Environment) : List String :=
  env.sources.map Prod.fst ++ env.classes.map Prod.fst

/-- The packages that hold types, and those around them. -/
def packages (env : Environment) : List String :=
  (env.names.flatMap fun name =>
    ((cutLast '.' name).map fun c => packagePrefixes c.1).getD []).eraseDups

/-- The description of a class, read from `files` if it was not asked for before. -/
def loadClass? (env : Environment) (files : FileTree) (name : String) : Option TypeInfo :=
  match env.loaded.lookup name with
  | some known => known
  | none => (env.classes.lookup name).bind fun place => place.load? files

def info? (env : Environment) (files : FileTree) (name : String) : Option TypeInfo :=
  match env.sources.lookup name with
  | some info => some info
  | none => env.loadClass? files name

def contains (env : Environment) (name : String) : Bool :=
  (env.sources.lookup name).isSome || (env.classes.lookup name).isSome

/-- Whether a class is in a library and was not asked for before. -/
def isDeferred (env : Environment) (name : String) : Bool :=
  (env.sources.lookup name).isNone && (env.loaded.lookup name).isNone &&
    (env.classes.lookup name).isSome

/-- The environment after some of its types were asked for. -/
def settle (env : Environment) (files : FileTree) (consulted : List String) : Environment :=
  consulted.foldl (fun env name =>
    if env.isDeferred name then
      { env with loaded := (name, env.loadClass? files name) :: env.loaded }
    else env) env

theorem mem_keys_of_lookup {α : Type} {q : String} {a : α} {table : List (String × α)}
    (h : table.lookup q = some a) : q ∈ table.map Prod.fst := by
  induction table with
  | nil => simp at h
  | cons e rest ih =>
    obtain ⟨k, v⟩ := e
    rw [List.lookup_cons] at h
    split at h
    · next hk => simp [eq_of_beq hk]
    · simp [ih h]

theorem lookup_map_snd {α β : Type} (f : α → β) (q : String) (table : List (String × α)) :
    (table.map fun e => (e.1, f e.2)).lookup q = (table.lookup q).map f := by
  induction table with
  | nil => rfl
  | cons e rest ih =>
    obtain ⟨k, v⟩ := e
    simp only [List.map_cons, List.lookup_cons, ih]
    split <;> rfl

/-- The environment as an index. Each class is read at most once, when it is first needed. -/
def index (env : Environment) (files : FileTree) : TypeIndex :=
  let table := env.classes.map fun (name, place) => (name, Thunk.mk fun _ => place.load? files)
  let packages := env.packages
  { info := fun q =>
      match env.sources.lookup q with
      | some info => some info
      | none =>
        match env.loaded.lookup q with
        | some known => known
        | none => (table.lookup q).bind Thunk.get
    contains := env.contains
    packageExists := fun p => packages.contains p
    deferred := env.isDeferred
    names := env.names ++ env.loaded.map Prod.fst
    mem_names := by
      intro q h
      rw [names, List.mem_append, List.mem_append]
      split at h
      · next hs => exact .inl (.inl (mem_keys_of_lookup hs))
      · split at h
        · next hl => exact .inr (mem_keys_of_lookup hl)
        · cases ht : table.lookup q with
          | none => simp [ht] at h
          | some thunk =>
            have hmem := mem_keys_of_lookup ht
            simp only [table, List.map_map] at hmem
            exact .inl (.inr hmem) }

theorem index_info (env : Environment) (files : FileTree) (q : String) :
    (env.index files).info q = env.info? files q := by
  simp only [index, info?, loadClass?]
  rw [lookup_map_snd (fun place => Thunk.mk fun _ => ClassPlace.load? files place)]
  cases env.sources.lookup q <;> simp
  cases env.loaded.lookup q <;> simp
  cases env.classes.lookup q <;> rfl

def libraryOf? (env : Environment) (name : String) : Option String :=
  (env.classes.lookup name).map ClassPlace.library

structure Stats where
  sourceFiles : Nat
  sourceTypes : Nat
  libraryTypes : Nat
  packages : Nat
  diagnostics : Nat
  deriving Repr, DecidableEq

def stats (env : Environment) : Stats where
  sourceFiles := env.sourceFiles
  sourceTypes := env.sources.length
  libraryTypes := env.classes.length
  packages := env.packages.length
  diagnostics := env.diagnostics.length

def resolve (env : Environment) (files : FileTree) (name : String) (ctx : Context) :
    Option String × Environment :=
  let (found, memory) := ((env.index files).resolve name ctx).run {}
  (found, env.settle files memory.consulted)

def ask (env : Environment) (files : FileTree) (name : String) : Option TypeInfo × Environment :=
  (env.info? files name, env.settle files [name])

inductive Failure where
  | file (path : String) (cause : FileError)
  | parse (label : String)
  deriving Repr, DecidableEq

/-- The text of a failure, without what is wrong with a unit that cannot be read. -/
def Failure.message : Failure → String
  | file path cause => "file error: " ++ cause.message ++ " (path: " ++ path ++ ")"
  | parse _ => "parse error"

def analyzeText (env : Environment) (files : FileTree) (label text : String) :
    Except Failure (List Record) × Environment :=
  match analyze? (env.index files) label text with
  | none => (.error (.parse label), env)
  | some a => (.ok a.records, env.settle files a.consulted)

def analyzeFile (env : Environment) (files : FileTree) (path : String) :
    Except Failure (List Record) × Environment :=
  match files.readText path with
  | .error cause => (.error (.file path cause), env)
  | .ok text => env.analyzeText files path text

end Environment

end Xref
