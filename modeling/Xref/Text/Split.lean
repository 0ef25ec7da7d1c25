import Xref.Text.Char

/-!
# Cutting text

Trimming, splitting and joining. Every operation is a function on the list of characters, and the
version on strings only wraps it.
-/
namespace Xref.Text

def trimEndChars (cs : List Char) : List Char :=
  (cs.reverse.dropWhile isBlank).reverse

def trimChars (cs : List Char) : List Char :=
  trimEndChars (cs.dropWhile isBlank)

def trim (s : String) : String :=
  String.ofList (trimChars s.toList)

def squeeze (s : String) : String :=
  String.ofList (s.toList.filter fun c => !isBlank c)

/-- The pieces between separators. There is always one more piece than there are separators. -/
def pieces (isSep : Char → Bool) : List Char → List (List Char)
  | [] => [[]]
  | c :: cs =>
    if isSep c then [] :: pieces isSep cs
    else match pieces isSep cs with
      | [] => [[c]]
      | p :: ps => (c :: p) :: ps

def split (sep : Char) (s : String) : List String :=
  (pieces (· == sep) s.toList).map String.ofList

def cutChars (sep : Char) : List Char → Option (List Char × List Char)
  | [] => none
  | c :: cs => if c == sep then some ([], cs) else (cutChars sep cs).map fun (a, b) => (c :: a, b)

def cutFirst (sep : Char) (s : String) : Option (String × String) :=
  (cutChars sep s.toList).map fun (a, b) => (String.ofList a, String.ofList b)

def cutLast (sep : Char) (s : String) : Option (String × String) :=
  (cutChars sep s.toList.reverse).map fun (b, a) =>
    (String.ofList a.reverse, String.ofList b.reverse)

def lastPiece (sep : Char) (s : String) : String :=
  ((cutLast sep s).map Prod.snd).getD s

def dropEnd? (suffix s : String) : Option String :=
  if suffix.toList.isSuffixOf s.toList then
    some (String.ofList (s.toList.take (s.toList.length - suffix.toList.length)))
  else none

def dropStart? (start s : String) : Option String :=
  if start.toList.isPrefixOf s.toList then
    some (String.ofList (s.toList.drop start.toList.length))
  else none

def replaceChar (old new : Char) (s : String) : String :=
  String.ofList (s.toList.map fun c => if c == old then new else c)

def joinWith (sep : String) (parts : List String) : String :=
  sep.intercalate parts

end Xref.Text
