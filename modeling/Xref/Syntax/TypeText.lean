import Xref.Java.Context
import Xref.Syntax.Tree

/-!
# Types as they are written

The erased text of a type has neither type arguments nor annotations; its segments are joined by
dots and its dimensions stand at its end.
-/
namespace Xref.Syntax

open Java Text

namespace Tree

/-- The number of dimensions that a node of brackets stands for. -/
def countDims (source : List Char) (dimensions : Option Tree) : Nat :=
  (dimensions.map fun d => (d.text source).toList.countP (· == '[')).getD 0

/-- One step of `erased`, from the erased texts of the children. -/
def erasedFrom (source : List Char) (t : Tree) (cs : Valued String) : String :=
  match t.kind with
  | .genericType =>
    match cs.find? fun c => [.typeIdentifier, .scopedTypeIdentifier].contains c.1.kind with
    | some c => c.2
    | none => t.text source
  | .scopedTypeIdentifier =>
    let segments := cs.filter fun c =>
      [.typeIdentifier, .scopedTypeIdentifier, .genericType].contains c.1.kind
    joinWith "." (segments.map Prod.snd)
  | .arrayType =>
    withDims (((cs.child? .element).map Prod.snd).getD "")
      (countDims source (t.child? .dimensions))
  | .annotatedType => ((cs.reverse.find? fun c => c.1.kind.isType).map Prod.snd).getD ""
  | _ => trim (t.text source)

def erased (source : List Char) : Tree → String := fold (erasedFrom source)

/-- The type as it is named: without type arguments and annotations. -/
def nameOfType : Tree → Tree :=
  fold fun t cs =>
    match t.kind with
    | .genericType =>
      ((cs.find? fun c => [.typeIdentifier, .scopedTypeIdentifier].contains c.1.kind).map
        Prod.fst).getD t
    | .annotatedType => ((cs.reverse.find? fun c => c.1.kind.isType).map Prod.snd).getD t
    | _ => t

/-- The type that a declaration, a parameter or a resource is declared with. -/
def declaredType? (t : Tree) : Option Tree :=
  match t.child? .type with
  | some c => some c
  | none => t.children.find? fun c => c.kind.isType

def typesOf (clause : Option Tree) : List Tree :=
  match clause with
  | none => []
  | some c =>
    let list := if c.kind == .typeList then c else (c.childOf? .typeList).getD c
    list.children.filter fun x => x.kind.isType

def dottedName (source : List Char) (t : Tree) : String := squeeze (t.text source)

def nameText? (source : List Char) (t : Tree) : Option String :=
  (t.child? .name).map (text source)

def hasModifier (t : Tree) (word : String) : Bool :=
  (t.childOf? .modifiers).any fun m => m.children.any (isLiteral word)

def typeParameters (source : List Char) (t : Tree) : List TypeVariable :=
  let list := match t.child? .typeParameters with
    | some c => some c
    | none => t.childOf? .typeParameters
  (list.map children).getD [] |>.filterMap fun p =>
    if p.kind != .typeParameter then none
    else
      (p.children.find? fun c => [.typeIdentifier, .identifier].contains c.kind).map fun name =>
        { name := name.text source
          bound := do
            let bound ← p.childOf? .typeBound
            let first ← bound.children.find? fun c => c.kind.isType
            return first.erased source }

end Tree

structure Parameter where
  tree : Tree
  /-- The erased type with all its dimensions. -/
  type : String
  name : String
  isVarargs : Bool

namespace Parameter

def ofTree? (source : List Char) (p : Tree) : Option Parameter := do
  match p.kind with
  | .formalParameter =>
    let type ← p.declaredType?
    return {
      tree := p
      type := withDims (type.erased source) (Tree.countDims source (p.child? .dimensions))
      name := (p.nameText? source).getD ""
      isVarargs := false }
  | .spreadParameter =>
    let type ← p.declaredType?
    let declarator := p.childOf? .variableDeclarator
    let dims := Tree.countDims source (declarator.bind fun d => d.child? .dimensions)
    return {
      tree := p
      type := withDims (type.erased source) (dims + 1)
      name := (declarator.bind (Tree.nameText? source)).getD ""
      isVarargs := true }
  | _ => none

end Parameter

/-- The parameters in the parameter list of a declaration. A receiver parameter is none. -/
def Tree.parameters (source : List Char) (declaration : Tree) : List Parameter :=
  ((declaration.child? .parameters).map Tree.children).getD [] |>.filterMap
    (Parameter.ofTree? source)

end Xref.Syntax
