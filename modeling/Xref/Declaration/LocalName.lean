import Xref.Text.Split

/-!
# Display names

Local classes have binary names such as `app.Main$1Helper`, which nobody wrote. For display they
are replaced by the simple names of the classes wherever they occur as a whole name.
-/
namespace Xref.Declaration

open Text

/-- The binary and simple names of the local classes of a unit, in the order of declaration. -/
abbrev LocalNames := List (String × String)

/-- Whether a name can begin after the character `before`. -/
def opensName (before : Option Char) : Bool :=
  !before.any fun c => isAlphanumeric c || c == '_' || c == '$' || c == '.'

/-- Whether a name can end in front of the character `after`. -/
def closesName (after : Option Char) : Bool :=
  !after.any fun c => isAlphanumeric c || c == '_'

/-- Replaces the whole-name occurrences of `key`. The characters still to skip belong to an
occurrence; they are copied if it was not a whole name. Occurrences do not overlap. -/
def replaceNameFrom (key simple : List Char) :
    Option Char → Nat → Bool → List Char → List Char
  | _, _, _, [] => []
  | _, skip + 1, copied, c :: cs =>
    let rest := replaceNameFrom key simple (some c) skip copied cs
    if copied then c :: rest else rest
  | before, 0, _, c :: cs =>
    if key.isPrefixOf (c :: cs) then
      let isName := opensName before && closesName ((c :: cs).drop key.length).head?
      let rest := replaceNameFrom key simple (some c) (key.length - 1) (!isName) cs
      if isName then simple ++ rest else c :: rest
    else c :: replaceNameFrom key simple (some c) 0 false cs

def replaceName (key simple text : String) : String :=
  String.ofList (replaceNameFrom key.toList simple.toList none 0 false text.toList)

def LocalNames.longestFirst (names : LocalNames) : LocalNames :=
  names.mergeSort fun a b => b.1.utf8ByteSize ≤ a.1.utf8ByteSize

def LocalNames.display (names : LocalNames) (name : String) : String :=
  names.longestFirst.foldl (fun text (key, simple) => replaceName key simple text) name

end Xref.Declaration
