import Xref.Environment.Basic

/-!
# Sessions

A session analyses many files. It builds one environment for each pair of lists of paths and keeps
it. Lists whose paths have the same segments are the same list.
-/
namespace Xref

open Environment Files Java Reference

structure SessionKey where
  libraries : List (List String)
  sources : List (List String)
  deriving Repr, DecidableEq

def SessionKey.ofPaths (libraries sources : List String) : SessionKey :=
  ⟨libraries.map Path.components, sources.map Path.components⟩

structure Session where
  config : Config
  environments : List (SessionKey × Environment) := []

namespace Session

/-- The environment of some paths, which is built if there is none yet. -/
def environment (s : Session) (files : FileTree) (libraries sources : List String) :
    Environment :=
  (s.environments.lookup (.ofPaths libraries sources)).getD
    (Environment.build s.config files libraries sources)

def store (s : Session) (libraries sources : List String) (env : Environment) : Session :=
  let key := SessionKey.ofPaths libraries sources
  if (s.environments.lookup key).isSome then
    { s with
      environments := s.environments.map fun (k, e) => if k == key then (k, env) else (k, e) }
  else { s with environments := s.environments ++ [(key, env)] }

def analyze (s : Session) (files : FileTree) (libraries sources : List String) (target : String) :
    Except Failure (List Record) × Session :=
  let (result, env) := (s.environment files libraries sources).analyzeFile files target
  (result, s.store libraries sources env)

def typeInfo (s : Session) (files : FileTree) (libraries sources : List String) (name : String) :
    Option TypeInfo × Session :=
  let (info, env) := (s.environment files libraries sources).ask files name
  (info, s.store libraries sources env)

def prepare (s : Session) (files : FileTree) (libraries sources : List String) :
    Environment × Session :=
  let env := s.environment files libraries sources
  (env, s.store libraries sources env)

def size (s : Session) : Nat := s.environments.length

end Session

end Xref
