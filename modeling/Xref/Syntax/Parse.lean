import Xref.Syntax.Grammar
import Xref.Syntax.Lexer

/-!
# Reading compilation units

Comments take no part in the grammar. The tokens are read first; after that each comment is put
between the two trees around it, inside the innermost node that has tokens on both sides.
-/
namespace Xref.Syntax

namespace Tree

mutual

/-- Puts comments, all of which lie inside the tree, in their places. -/
def weave (comments : List Tree) : Tree → Tree
  | leaf role kind range text => leaf role kind range text
  | node role kind range cs =>
    node role kind range (if comments.isEmpty then cs else weaveAll comments cs)

def weaveAll (comments : List Tree) : List Tree → List Tree
  | [] => comments
  | c :: cs =>
    let here := comments.span fun x => x.start < c.start
    let inside := here.2.span fun x => x.start < c.stop
    here.1 ++ weave inside.1 c :: weaveAll inside.2 cs

end

end Tree

def scanUnit (cs : List Char) : List Token × List Tree :=
  let ls := Lexer.lex cs
  (ls.filterMap Lexeme.token?, ls.filterMap Lexeme.comment?)

/-- A bound on how deep rules nest in a text of so many tokens. -/
def nestingBound (tokens : Nat) : Nat := 256 * (tokens + 16)

def readItems (ts : List Token) : Outcome :=
  Rule.run grammar (nestingBound ts.length) (.many (.call .item)) [] ts

def unitOf (cs : List Char) (comments items : List Tree) : Tree :=
  .node none .program ⟨0, Text.byteLength cs⟩ (Tree.weaveAll comments items)

def parse? (cs : List Char) : Option Tree :=
  let (ts, comments) := scanUnit cs
  match readItems ts with
  | .matched items [] => some (unitOf cs comments items)
  | _ => none

/-- Reads the items that can be read, and leaves out the first token of what cannot. -/
def salvageItems : Nat → List Token → List Tree
  | 0, _ => []
  | n + 1, ts =>
    match readItems ts with
    | .matched items (_ :: rest) => items ++ salvageItems n rest
    | .matched items [] => items
    | _ => []

def salvage (cs : List Char) : Tree :=
  let (ts, comments) := scanUnit cs
  unitOf cs comments (salvageItems (ts.length + 1) ts)

/-- The tree of a compilation unit, or of what can be read of it. -/
def parseOrSalvage (cs : List Char) : Tree := (parse? cs).getD (salvage cs)

end Xref.Syntax
