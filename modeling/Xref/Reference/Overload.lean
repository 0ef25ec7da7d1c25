import Xref.Resolve.Member

/-!
# Choosing between overloads

The number of arguments decides which candidates apply, and the types of the arguments decide
between those. An argument whose type is not known counts for nothing.
-/
namespace Xref.Reference

open Java Resolve

def exactScore : Int := 3

def assignableScore : Int := 1

def mismatchScore : Int := -4

namespace Overload

variable (index : TypeIndex)

def scoreArgument (param : String) (arg : Option TypeName) : Query Int := do
  match arg with
  | none => return 0
  | some a =>
    if !a.isResolved then return 0
    if a.name == param then return exactScore
    return if ← index.isAssignable a.name param then assignableScore else mismatchScore

def score (params : List String) (args : List (Option TypeName)) : Query Int :=
  (params.zip args).foldlM (fun total (p, a) => do return total + (← scoreArgument index p a)) 0

/-- The parameters of a candidate with variable arity when it is called with `count` arguments. -/
def expandVarargs (params : List String) (count : Nat) : List String :=
  let fixed := params.length - 1
  let (base, dims) := splitArray (params.getLast?.getD "")
  params.take fixed ++ List.replicate (count - fixed) (withDims base (dims - 1))

def fixedScore (c : Candidate) (args : List (Option TypeName)) : Query (Option Int) := do
  if args.length == c.params.length then return some (← score index c.params args)
  return none

/-- How well a candidate fits, if it applies at all. A call with variable arity is worse by one than
the same call with fixed arity. -/
def applicability (c : Candidate) (args : List (Option TypeName)) : Query (Option Int) := do
  let fixed ← fixedScore index c args
  if !c.isVarargs || c.params.isEmpty || args.length < c.params.length - 1 then return fixed
  let expanded := (← score index (expandVarargs c.params args.length) args) - 1
  return some ((fixed.map fun f => max f expanded).getD expanded)

def select (candidates : List Candidate) (args : List (Option TypeName)) :
    Query (Option Candidate) := do
  let best ← candidates.foldlM (fun (best : Option (Int × Candidate)) c => do
    match ← applicability index c args with
    | none => return best
    | some s => return if best.all fun b => b.1 < s then some (s, c) else best) none
  return best.map Prod.snd

end Overload

end Xref.Reference
