import Xref.Syntax.Kind
import Xref.Text.LineMap

/-!
# Concrete syntax trees

A tree keeps every token of the source, punctuation and comments too. Leaves hold their text; every
tree holds the byte range it was read from and the role it plays in the tree around it.
-/
namespace Xref.Syntax

structure Range where
  start : Nat
  stop : Nat
  deriving Repr, DecidableEq, Inhabited

inductive Tree where
  | leaf (role : Option Role) (kind : Kind) (range : Range) (text : String)
  | node (role : Option Role) (kind : Kind) (range : Range) (children : List Tree)
  deriving Repr, Inhabited

namespace Tree

def role : Tree → Option Role
  | leaf r _ _ _ | node r _ _ _ => r

def kind : Tree → Kind
  | leaf _ k _ _ | node _ k _ _ => k

def range : Tree → Range
  | leaf _ _ r _ | node _ _ r _ => r

def children : Tree → List Tree
  | leaf .. => []
  | node _ _ _ cs => cs

def start (t : Tree) : Nat := t.range.start

def stop (t : Tree) : Nat := t.range.stop

def withRole (r : Option Role) : Tree → Tree
  | leaf _ k range text => leaf r k range text
  | node _ k range cs => node r k range cs

def inRole (r : Role) (t : Tree) : Tree := t.withRole (some r)

/-- Punctuation, operators and keywords are the only trees without a name. -/
def isNamed (t : Tree) : Bool := t.kind != .literal

def isLiteral (text : String) : Tree → Bool
  | leaf _ .literal _ s => s == text
  | _ => false

/-- The children without punctuation. Comments are among them. -/
def named (t : Tree) : List Tree := t.children.filter isNamed

def child? (t : Tree) (r : Role) : Option Tree := t.children.find? fun c => c.role == some r

def childrenIn (t : Tree) (r : Role) : List Tree := t.children.filter fun c => c.role == some r

def childOf? (t : Tree) (k : Kind) : Option Tree := t.children.find? fun c => c.kind == k

def text (source : List Char) : Tree → String
  | leaf _ _ _ s => s
  | node _ _ r _ => String.ofList (Text.slice r.start r.stop source)

mutual

/-- Computes a value for a tree from the tree and its children with their values. -/
def fold {α : Type} (f : Tree → List (Tree × α) → α) : Tree → α
  | leaf role kind range text => f (leaf role kind range text) []
  | node role kind range cs => f (node role kind range cs) (foldAll f cs)

def foldAll {α : Type} (f : Tree → List (Tree × α) → α) : List Tree → List (Tree × α)
  | [] => []
  | c :: cs => (c, fold f c) :: foldAll f cs

end

theorem foldAll_eq_map {α : Type} (f : Tree → List (Tree × α) → α) (cs : List Tree) :
    foldAll f cs = cs.map fun c => (c, fold f c) := by
  induction cs with
  | nil => rfl
  | cons c cs ih => simp [foldAll, ih]

/-- A fold sees the children of its tree, each with its value. -/
theorem fold_eq {α : Type} (f : Tree → List (Tree × α) → α) (t : Tree) :
    fold f t = f t (t.children.map fun c => (c, fold f c)) := by
  cases t <;> simp [fold, children, foldAll_eq_map]

/-- Where a tree stands in the tree it is a part of: its number among the children of its parent,
then that of its parent, and so on to the outermost tree. -/
abbrev Position := List Nat

mutual

/-- A fold whose function is also told where each tree stands. -/
def foldAt {α : Type} (f : Position → Tree → List (Tree × α) → α) : Position → Tree → α
  | p, leaf role kind range text => f p (leaf role kind range text) []
  | p, node role kind range cs => f p (node role kind range cs) (foldAllAt f p 0 cs)

/-- The trees of a list with their values. The first of them is the child number `i` of the tree
at `p`. -/
def foldAllAt {α : Type} (f : Position → Tree → List (Tree × α) → α) (p : Position) :
    Nat → List Tree → List (Tree × α)
  | _, [] => []
  | i, c :: cs => (c, foldAt f (i :: p) c) :: foldAllAt f p (i + 1) cs

end

theorem foldAllAt_eq_mapIdx {α : Type} (f : Position → Tree → List (Tree × α) → α)
    (p : Position) (i : Nat) (cs : List Tree) :
    foldAllAt f p i cs = cs.mapIdx fun j c => (c, foldAt f ((i + j) :: p) c) := by
  induction cs generalizing i with
  | nil => rfl
  | cons c cs ih =>
    simp only [foldAllAt, ih, List.mapIdx_cons, Nat.add_zero]
    simp only [Nat.add_right_comm, Nat.add_assoc]

theorem foldAt_eq {α : Type} (f : Position → Tree → List (Tree × α) → α) (p : Position)
    (t : Tree) :
    foldAt f p t = f p t (t.children.mapIdx fun i c => (c, foldAt f (i :: p) c)) := by
  cases t <;> simp [foldAt, children, foldAllAt_eq_mapIdx]

def contains (kind : Kind) : Tree → Bool := fold fun t cs => t.kind == kind || cs.any Prod.snd

/-- The number of lambdas, one inside the other, that a tree ends with. -/
def lambdasAtEnd : Tree → Nat :=
  fold fun t cs =>
    (cs.getLast?.map Prod.snd).getD 0 + if t.kind == .lambdaExpression then 1 else 0

end Tree

/-- Trees with their values, as a fold sees the children of a tree. -/
abbrev Valued (α : Type) := List (Tree × α)

namespace Valued

variable {α : Type}

def named (cs : Valued α) : Valued α := cs.filter fun c => c.1.isNamed

def child? (cs : Valued α) (r : Role) : Option (Tree × α) := cs.find? fun c => c.1.role == some r

def childrenIn (cs : Valued α) (r : Role) : Valued α := cs.filter fun c => c.1.role == some r

def childOf? (cs : Valued α) (k : Kind) : Option (Tree × α) := cs.find? fun c => c.1.kind == k

end Valued

/-- A tree of values in the shape of a syntax tree, with the syntax at hand. -/
inductive Decorated (α : Type) where
  | mk (value : α) (parts : List (Tree × Decorated α))

abbrev Parts (α : Type) := Valued (Decorated α)

namespace Decorated

variable {α : Type}

def value : Decorated α → α
  | mk v _ => v

def parts : Decorated α → Parts α
  | mk _ ps => ps

end Decorated

namespace Tree

variable {α : Type}

/-- Gives every tree a value that depends on the tree, on where it stands and on the decorations of
its children. -/
def decorate (f : Position → Tree → Parts α → α) : Position → Tree → Decorated α :=
  foldAt fun p t ps => .mk (f p t ps) ps

theorem decorate_eq (f : Position → Tree → Parts α → α) (p : Position) (t : Tree) :
    decorate f p t =
      .mk (f p t (t.children.mapIdx fun i c => (c, decorate f (i :: p) c)))
        (t.children.mapIdx fun i c => (c, decorate f (i :: p) c)) :=
  foldAt_eq _ p t

end Tree

end Xref.Syntax
