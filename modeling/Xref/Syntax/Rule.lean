import Xref.Syntax.SignedCast
import Xref.Syntax.Token

/-!
# Grammars and how they are read

A grammar gives each nonterminal a rule. Rules read tokens from the left and build trees; choice is
ordered, so a later alternative is tried only where an earlier one does not match. Left recursion
is written with `chain`: the trees read so far take the place of `hole` in the next step.

`run` follows a rule. It takes an amount of fuel that bounds how deep rules may nest, and tells
running out of it apart from a mismatch.
-/
namespace Xref.Syntax

inductive Rule (N : Type) where
  | empty
  /-- A mark or operator, or another kind of leaf with that text. -/
  | symbol (text : String) (kind : Kind)
  | keyword (text : String) (kind : Kind)
  | word (kind : Kind)
  | literal (kind : Kind)
  /-- Texts that follow each other without anything between them, as one leaf. The last one may be
  the beginning of a longer word. -/
  | joined (parts : List String)
  /-- A single `>`, which may be the first character of a longer operator. -/
  | angle
  /-- Nothing, where the next token is none of these words. -/
  | notWord (words : List String)
  /-- Nothing, where the rule does not match. -/
  | notAhead (a : Rule N)
  | atEnd
  | seq (a b : Rule N)
  | alt (a b : Rule N)
  | many (a : Rule N)
  | role (r : Role) (a : Rule N)
  | node (kind : Kind) (a : Rule N)
  | call (n : N)
  /-- The trees read before by the `share` or `chain` around it. -/
  | hole
  /-- Nothing, where the trees of `hole` pass the test. -/
  | holeHas (test : List Tree → Bool)
  /-- The first rule, and then the second with its trees in the place of `hole`. -/
  | share (a b : Rule N)
  /-- The first rule, and then the second as often as possible. -/
  | chain (a b : Rule N)
  /-- A flat chain of operands and operators, grouped by precedence. -/
  | operators (a : Rule N)

inductive Outcome where
  /-- The fuel did not suffice. -/
  | exhausted
  | refused
  | matched (trees : List Tree) (rest : List Token)

namespace Token

def leaf (t : Token) (kind : Kind) : Tree := .leaf none kind t.range t.text

/-- The leaf of a `>` at the beginning of `t`, and what remains of `t`. -/
def splitAngle (t : Token) : Option (Tree × List Token) :=
  match t.kind, t.text.toList with
  | .symbol, '>' :: more =>
    let middle := t.range.start + 1
    let rest : List Token :=
      if more.isEmpty then [] else [⟨.symbol, ⟨middle, t.range.stop⟩, String.ofList more⟩]
    some (.leaf none .literal ⟨t.range.start, middle⟩ ">", rest)
  | _, _ => none

/-- What remains of the word `t` after `text` at its beginning. That is a word if it begins like
one. -/
def dropText (text : String) (t : Token) : Option (List Token) :=
  if t.text == text then some []
  else if t.kind == .word && t.text.startsWith text then
    let rest := t.text.toList.drop text.length
    let kind : TokenKind := if rest.head?.any Text.isIdentifierStart then .word else .unknown
    some [⟨kind, ⟨t.range.start + text.utf8ByteSize, t.range.stop⟩, String.ofList rest⟩]
  else none

/-- The given texts with nothing between them: where they end, and what follows. -/
def takeJoined : List String → Nat → List Token → Option (Nat × List Token)
  | [], stop, ts => some (stop, ts)
  | [part], stop, t :: ts =>
    if t.range.start == stop then
      (t.dropText part).map fun rest => (stop + part.utf8ByteSize, rest ++ ts)
    else none
  | part :: parts, stop, t :: ts =>
    if t.text == part && t.range.start == stop then takeJoined parts t.range.stop ts else none
  | _ :: _, _, [] => none

end Token

def Tree.around (kind : Kind) (trees : List Tree) : Tree :=
  .node none kind ⟨(trees.head?.map Tree.start).getD 0, (trees.getLast?.map Tree.stop).getD 0⟩ trees

namespace Outcome

def map (f : List Tree → List Tree) : Outcome → Outcome
  | matched trees rest => matched (f trees) rest
  | o => o

end Outcome

namespace Rule

variable {N : Type}

def single (test : Token → Bool) (kind : Kind) : List Token → Outcome
  | t :: ts => if test t then .matched [t.leaf kind] ts else .refused
  | [] => .refused

/-- Repeats `step` until it is refused. The trees read before are in `found`, the last one first. -/
def repeatStep (step : List Token → Outcome) : Nat → List Tree → List Token → Outcome
  | 0, _, _ => .exhausted
  | n + 1, found, ts =>
    match step ts with
    | .matched trees rest => repeatStep step n (trees.reverse ++ found) rest
    | .refused => .matched found.reverse ts
    | .exhausted => .exhausted

/-- Repeats `step`, each time on the trees of the time before, until it is refused. -/
def chainStep (step : List Tree → List Token → Outcome) : Nat → List Tree → List Token → Outcome
  | 0, _, _ => .exhausted
  | n + 1, trees, ts =>
    match step trees ts with
    | .matched trees rest => chainStep step n trees rest
    | .refused => .matched trees ts
    | .exhausted => .exhausted

/-- Follows a rule of the grammar `g`, with the trees `held` in the place of `hole`. -/
def run (g : N → Rule N) : Nat → Rule N → List Tree → List Token → Outcome
  | 0, _, _, _ => .exhausted
  | n + 1, rule, held, ts =>
    match rule with
    | empty => .matched [] ts
    | symbol text kind => single (fun t => t.kind == .symbol && t.text == text) kind ts
    | keyword text kind => single (fun t => t.kind == .word && t.text == text) kind ts
    | word kind => single (fun t => t.kind == .word) kind ts
    | literal kind => single (fun t => t.kind == .literal kind) kind ts
    | joined parts =>
      match ts with
      | [] => .refused
      | t :: _ =>
        match Token.takeJoined parts t.range.start ts with
        | some (stop, rest) =>
          .matched [.leaf none .literal ⟨t.range.start, stop⟩ (String.join parts)] rest
        | none => .refused
    | angle =>
      match ts with
      | [] => .refused
      | t :: ts =>
        match t.splitAngle with
        | some (tree, rest) => .matched [tree] (rest ++ ts)
        | none => .refused
    | notWord words =>
      match ts with
      | t :: _ => if t.kind == .word && words.contains t.text then .refused else .matched [] ts
      | [] => .matched [] ts
    | notAhead a =>
      match run g n a held ts with
      | .matched _ _ => .refused
      | .refused => .matched [] ts
      | .exhausted => .exhausted
    | atEnd => if ts.isEmpty then .matched [] ts else .refused
    | seq a b =>
      match run g n a held ts with
      | .matched xs rest => (run g n b held rest).map (xs ++ ·)
      | o => o
    | alt a b =>
      match run g n a held ts with
      | .refused => run g n b held ts
      | o => o
    | many a => repeatStep (run g n a held) n [] ts
    | role r a => (run g n a held ts).map (·.map (Tree.inRole r))
    | node kind a => (run g n a held ts).map fun trees => [Tree.around kind trees]
    | call m => run g n (g m) [] ts
    | hole => .matched held ts
    | holeHas test => if test held then .matched [] ts else .refused
    | share a b =>
      match run g n a held ts with
      | .matched xs rest => run g n b xs rest
      | o => o
    | chain a b =>
      match run g n a held ts with
      | .matched xs rest => chainStep (run g n b) n xs rest
      | o => o
    | operators a => (run g n a held ts).map Tree.ofChain

/-- Nothing, where `hole` is one tree of these kinds. -/
def holeIs (kinds : List Kind) : Rule N :=
  holeHas fun
    | [t] => kinds.contains t.kind
    | _ => false

def all : List (Rule N) → Rule N
  | [] => empty
  | [a] => a
  | a :: rest => seq a (all rest)

def refused : Rule N := notAhead empty

def ahead (a : Rule N) : Rule N := notAhead (notAhead a)

def any : List (Rule N) → Rule N
  | [] => refused
  | [a] => a
  | a :: rest => alt a (any rest)

def opt (a : Rule N) : Rule N := alt a empty

def many1 (a : Rule N) : Rule N := seq a (many a)

def sym (text : String) : Rule N := symbol text .literal

def kw (text : String) : Rule N := keyword text .literal

def commas1 (a : Rule N) : Rule N := seq a (many (seq (sym ",") a))

def commas (a : Rule N) : Rule N := opt (commas1 a)

end Rule

end Xref.Syntax
