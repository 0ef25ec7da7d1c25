import Xref.Resolve.Index

/-!
# The memory of a resolver

Direct supertypes are worked out once and remembered. While those of a type are being worked out
the type is active; asked for again in the meantime it reports none, so cyclic declarations come to
an end.
-/
namespace Xref.Resolve

open Java

structure Supertypes where
  superclass : Option String := none
  interfaces : List String := []
  deriving Repr, DecidableEq, Inhabited

def Supertypes.direct (s : Supertypes) : List String := s.superclass.toList ++ s.interfaces

structure Memory where
  known : List (String × Supertypes) := []
  active : List String := []
  consulted : List String := []
  deriving Repr, DecidableEq, Inhabited

namespace Memory

def enter (m : Memory) (q : String) : Memory := { m with active := q :: m.active }

/-- `m` after the work on the type `q` has ended with the result `s`. -/
def leave (m : Memory) (q : String) (s : Supertypes) : Memory :=
  { m with active := m.active.erase q, known := (q, s) :: m.known }

/-- `m` after the type `q` was asked for. Only deferred types are noted, and each of them once. -/
def consult (m : Memory) (index : TypeIndex) (q : String) : Memory :=
  if index.deferred q && !m.consulted.contains q then { m with consulted := q :: m.consulted }
  else m

end Memory

abbrev Query := StateM Memory

namespace Query

def firstSome {α β : Type} (f : α → Query (Option β)) : List α → Query (Option β)
  | [] => pure none
  | a :: as => do
    match ← f a with
    | some b => pure (some b)
    | none => firstSome f as

def orElse {β : Type} (first second : Query (Option β)) : Query (Option β) := do
  match ← first with
  | some b => pure (some b)
  | none => second

def info (index : TypeIndex) (q : String) : Query (Option TypeInfo) := do
  modify fun m => m.consult index q
  return index.info q

end Query

end Xref.Resolve
