import Xref.Syntax.Operator
import Xref.Syntax.Word

/-!
# Casts in front of a sign

`(a) + b` is a sum, or a cast of `+b` to the type `a`. A chain of operands and operators is first
read with every sign as an operator; here the open signs, those after a name in parentheses, are
found that belong to a cast.

Where all signs of a sum are open up to some place, they belong to casts up to the last one that
insists on it: one in front of a product, or after a name with dots. Open signs further to the right
belong to casts only if the sum begins with a cast.
-/
namespace Xref.Syntax.Tree

def nameParts : Tree → Option (List Tree) :=
  fold fun t cs =>
    match t.kind with
    | .identifier | .thisKeyword | .superKeyword | .literal => some [t]
    | .fieldAccess => (cs.mapM Prod.snd).map List.flatten
    | _ => none

def asTypeName : Tree → Tree
  | leaf role _ range text => leaf role .typeIdentifier range text
  | t => t

/-- The type with the name `t` and the dots and names after it. -/
def scopedType (t : Tree) : List Tree → Tree
  | dot :: name :: rest =>
    let inner := (asTypeName name).withRole none
    scopedType (node none .scopedTypeIdentifier ⟨t.start, name.stop⟩ [t, dot, inner]) rest
  | _ => t

def typeNamed? (t : Tree) : Option Tree :=
  match t.nameParts with
  | some (leaf _ .identifier range text :: rest) =>
    if reservedWords.contains text then none
    else some (scopedType (leaf none .typeIdentifier range text) rest)
  | _ => none

/-- Whether a tree is an operand with an increment after it. -/
def isIncremented (t : Tree) : Bool :=
  t.kind == .updateExpression && t.children.getLast?.any fun c => !c.isNamed

def isPrefixed (t : Tree) : Bool :=
  [Kind.unaryExpression, .castExpression, .updateExpression].contains t.kind

/-- The type that is named in the parentheses at the end of an operand. Increments may follow. -/
def typeAtEnd? : Tree → Option Tree :=
  fold fun t cs =>
    if t.isIncremented then cs.head?.bind Prod.snd
    else if t.isPrefixed then cs.getLast?.bind Prod.snd
    else match t with
      | node _ .parenthesizedExpression _ [_, inner, _] => inner.typeNamed?
      | _ => none

def inNode (role : Option Role) (kind : Kind) (cs : List Tree) : Tree :=
  node role kind ⟨(cs.head?.map start).getD 0, (cs.getLast?.map stop).getD 0⟩ cs

/-- An operand with the name in parentheses at its end as a cast. The function takes what is cast,
apart from the increments between; `finish` adds those after it. -/
def castAtEnd? (finish : Tree → Tree) : Tree → Option (Tree → Tree) :=
  fold fun t cs =>
    if t.isIncremented then do
      let build ← cs.head?.bind Prod.snd
      let mark ← t.children.getLast?
      pure fun value => (build (inNode none .updateExpression [mark, value])).withRole t.role
    else if t.isPrefixed then do
      let build ← cs.getLast?.bind Prod.snd
      pure fun value => inNode t.role t.kind (t.children.dropLast ++ [build value])
    else match t with
      | node role .parenthesizedExpression _ [opening, inner, closing] =>
        inner.typeNamed?.map fun type value =>
          inNode role .castExpression
            [opening, type.inRole .type, closing, (finish value).inRole .value]
      | _ => none

/-- An operand without the increments after it, and what adds these. -/
def splitIncrements : Tree → Tree × (Tree → Tree) :=
  fold fun t cs =>
    if t.isIncremented then
      match cs, t.children.getLast? with
      | (_, (inner, finish)) :: _, some mark =>
        (inner, fun value => inNode t.role .updateExpression [finish value, mark])
      | _, _ => (t, id)
    else (t, id)

/-- The operand `left`, which ends with a name in parentheses, as a cast of `right` with a sign. -/
def signedCast (left sign right : Tree) : Tree :=
  let (inner, finish) := right.splitIncrements
  let signed := inNode none .unaryExpression [sign.inRole .operator, inner.inRole .operand]
  match left.castAtEnd? finish with
  | some build => build signed
  | none => left

def isSign (op : Tree) : Bool := ["+", "-"].contains op.mark

/-- What decides how a sign is read. -/
structure SignPlace where
  type : Option Tree
  product : Bool

namespace SignPlace

def isOpen (s : SignPlace) : Bool := s.type.isSome

def isDotted (s : SignPlace) : Bool := s.type.any fun t => t.kind == .scopedTypeIdentifier

end SignPlace

def signPlaces : Tree → List (Tree × Tree) → List SignPlace
  | _, [] => []
  | left, (op, right) :: rest =>
    if isSign op then
      ⟨left.typeAtEnd?, rest.head?.any fun p => !isSign p.1⟩ :: signPlaces right rest
    else signPlaces right rest

/-- Which open signs insist on a cast. The flags tell whether all signs before are open, and whether
those before make the cast be considered first. -/
def insistent : Bool → Bool → List SignPlace → List Bool
  | _, _, [] => []
  | leading, turned, s :: rest =>
    if s.isOpen then
      let first := s.isDotted || turned
      let turned := if leading then s.product && !first else first && !s.product
      (s.product || first) :: insistent leading turned rest
    else false :: insistent false false rest

/-- Which open signs have one at or after them that insists, with only open ones between. -/
def followed (places : List SignPlace) : List Bool :=
  (places.zip (insistent true false places)).foldr
    (fun (s, insists) found => (s.isOpen && (insists || found.head?.getD false)) :: found) []

def beginsWithCast (first : Tree) (rest : List (Tree × Tree)) (casts : List Bool) : Bool :=
  first.kind == .castExpression ||
    (casts.head?.getD false && rest.head?.any (fun p => isSign p.1) &&
      first.splitIncrements.1.kind == .parenthesizedExpression)

def castSigns (first : Tree) (rest : List (Tree × Tree)) : List Bool :=
  let places := signPlaces first rest
  let casts := followed places
  if beginsWithCast first rest casts then casts
  else
    let leading := (places.takeWhile SignPlace.isOpen).length
    casts.take leading ++ (casts.drop leading).map fun _ => false

def joinCasts : Tree → List (Tree × Tree) → List Bool → List Tree
  | left, [], _ => [left]
  | left, (op, right) :: rest, casts =>
    if isSign op then
      if casts.head?.getD false then joinCasts (signedCast left op right) rest casts.tail
      else left :: op :: joinCasts right rest casts.tail
    else left :: op :: joinCasts right rest casts

def readSum (first : Tree) (rest : List (Tree × Tree)) : List Tree :=
  joinCasts first rest (castSigns first rest)

/-- Reads the casts of a chain after its operand `first` and the part of a sum, the last pair first,
that is known already. -/
def readCastsFrom (first : Tree) (sum : List (Tree × Tree)) : List Tree → List Tree
  | [] => readSum first sum.reverse
  | [t] => readSum first sum.reverse ++ [t]
  | t :: next :: rest =>
    if t.kind == .instanceofExpression || t.isIncrement then
      readSum first sum.reverse ++ readCastsFrom t [] (next :: rest)
    else if precedence "+" ≤ precedence t.mark then readCastsFrom first ((t, next) :: sum) rest
    else readSum first sum.reverse ++ t :: readCastsFrom next [] rest

/-- The tree of a chain that was read flat, with every sign as an operator. -/
def ofChain : List Tree → List Tree
  | [] => []
  | first :: rest => groupOperators (readCastsFrom first [] rest)

/-- Whether an operand has a sign in front, perhaps among increments. -/
def isSigned : Tree → Bool :=
  fold fun t cs =>
    if t.isIncremented then cs.head?.any Prod.snd
    else if t.kind == .updateExpression then cs.getLast?.any Prod.snd
    else t.kind == .unaryExpression && t.children.head?.any isSign

/-- Whether a tree begins with a cast to a name without dots that took a sign from a sum. -/
def beginsWithSignedCast : Tree → Bool :=
  fold fun t cs =>
    match t with
    | node _ .castExpression _ [_, type, _, value] =>
      type.kind == .typeIdentifier && value.isSigned
    | _ => cs.head?.any Prod.snd

end Xref.Syntax.Tree
