import Xref.Syntax.Tree

/-!
# Operator precedence

A chain of operands and binary operators is first read flat and here becomes a tree. A test with
`instanceof` takes part like an operator whose right side is complete already, and increments after
it apply to the test.
-/
namespace Xref.Syntax

def precedence : String → Nat
  | "||" => 4
  | "&&" => 5
  | "|" => 6
  | "^" => 7
  | "&" => 8
  | "==" | "!=" => 9
  | "<" | ">" | "<=" | ">=" | "instanceof" => 10
  | "<<" | ">>" | ">>>" => 11
  | "+" | "-" => 12
  | _ => 13

def binaryOperators : List String :=
  ["||", "&&", "|", "^", "&", "==", "!=", "<", ">", "<=", ">=", "<<", ">>", ">>>", "+", "-", "*",
   "/", "%"]

namespace Tree

def mark : Tree → String
  | leaf _ _ _ text => text
  | node .. => ""

def binary (left operator right : Tree) : Tree :=
  node none .binaryExpression ⟨left.start, right.stop⟩
    [left.inRole .left, operator.inRole .operator, right.inRole .right]

/-- The test that `left` is an instance, completed from everything that follows `left`. -/
def instanceTest (left test : Tree) : Tree :=
  node none .instanceofExpression ⟨left.start, test.stop⟩ (left.inRole .left :: test.children)

def isIncrement (t : Tree) : Bool := ["++", "--"].contains t.mark

/-- Closes the pending operators that bind at least as tightly as `level`. -/
def closeOperators (level : Nat) : List (Tree × Tree) → Tree → List (Tree × Tree) × Tree
  | [], right => ([], right)
  | (left, op) :: pending, right =>
    if level ≤ precedence op.mark then closeOperators level pending (binary left op right)
    else ((left, op) :: pending, right)

/-- Reads the rest of a chain after `current`. Pending are the operators that wait for their right
side, with their left sides, the last one first. -/
def groupFrom (pending : List (Tree × Tree)) (current : Tree) : List Tree → Tree
  | [] => (closeOperators 0 pending current).2
  | t :: rest =>
    if t.kind == .instanceofExpression then
      let (pending, left) := closeOperators (precedence "instanceof") pending current
      groupFrom pending (instanceTest left t) rest
    else if t.isIncrement then
      groupFrom pending (node none .updateExpression ⟨current.start, t.stop⟩ [current, t]) rest
    else match rest with
      | [] => (closeOperators 0 pending current).2
      | operand :: rest =>
        let (pending, left) := closeOperators (precedence t.mark) pending current
        groupFrom ((left, t) :: pending) operand rest

def groupOperators : List Tree → List Tree
  | [] => []
  | t :: rest => [groupFrom [] t rest]

end Tree

end Xref.Syntax
