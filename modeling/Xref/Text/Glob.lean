/-!
# Glob patterns

Patterns for paths. `?` is any character and `*` any text, slashes included. `**` has to be a whole
segment and stands for any number of segments. `[…]` is one character of a set, `[!…]` one outside
of it. Some texts are no patterns.
-/
namespace Xref.Text

/-- A member of a character set: all characters from the first to the second. -/
abbrev CharRange := Char × Char

inductive GlobPart where
  | char (c : Char)
  | anyChar
  | anyText
  | anySegments
  | oneOf (ranges : List CharRange)
  | noneOf (ranges : List CharRange)
  deriving Repr, DecidableEq

namespace GlobPart

def rangesOf : List Char → List CharRange
  | a :: '-' :: b :: rest => (a, b) :: rangesOf rest
  | a :: rest => (a, a) :: rangesOf rest
  | [] => []

def isIn (ranges : List CharRange) (c : Char) : Bool := ranges.any fun (a, b) => a ≤ c && c ≤ b

def takes (c : Char) : GlobPart → Bool
  | char d => c == d
  | anyChar => true
  | oneOf ranges => isIn ranges c
  | noneOf ranges => !isIn ranges c
  | anyText | anySegments => false

end GlobPart

/-- A pattern, as the parts that a text has to have one after the other. -/
abbrev Glob := List GlobPart

namespace Glob

/-- The characters of a set and what follows its closing bracket. A bracket directly after the
opening is a member. -/
def readSet : List Char → Option (List Char × List Char)
  | [] => none
  | first :: rest =>
    match rest.span (· != ']') with
    | (members, _ :: after) => some (first :: members, after)
    | (_, []) => none

/-- Adds a part for `**`, unless one stands before it already. The very first one does not count. -/
def addSegments (found : Glob) : Glob :=
  match found with
  | .anySegments :: _ :: _ => found
  | _ => .anySegments :: found

/-- Reads a pattern. The parts before are in `found` and the character before in `before`; stars
that were read already are counted. -/
def readParts : Nat → Glob → Option Char → List Char → Option Glob
  | 0, _, _, _ => none
  | _ + 1, found, _, [] => some found.reverse
  | n + 1, found, before, c :: cs =>
    if c == '?' then readParts n (.anyChar :: found) (some c) cs
    else if c == '*' then
      let (stars, rest) := (c :: cs).span (· == '*')
      match stars.length with
      | 1 => readParts n (.anyText :: found) (some c) rest
      | 2 =>
        if before.all (· == '/') then
          match rest with
          | [] => readParts n (addSegments found) (some c) rest
          | '/' :: after => readParts n (addSegments found) (some '/') after
          | _ => none
        else none
      | _ => none
    else if c == '[' then
      match cs with
      | '!' :: rest =>
        match readSet rest with
        | some (members, after) =>
          readParts n (.noneOf (GlobPart.rangesOf members) :: found) (some ']') after
        | none => none
      | _ =>
        match readSet cs with
        | some (members, after) =>
          readParts n (.oneOf (GlobPart.rangesOf members) :: found) (some ']') after
        | none => none
    else readParts n (.char c :: found) (some c) cs

def ofString? (s : String) : Option Glob := readParts (s.length + 1) [] none s.toList

def ends : List Char → List (List Char)
  | [] => [[]]
  | c :: cs => (c :: cs) :: ends cs

def endsAfterSlash : List Char → List (List Char)
  | [] => []
  | c :: cs => if c == '/' then cs :: endsAfterSlash cs else endsAfterSlash cs

def isMatch : Glob → List Char → Bool
  | [], cs => cs.isEmpty
  | .anyText :: parts, cs => (ends cs).any fun rest => isMatch parts rest
  | .anySegments :: parts, cs =>
    (cs :: endsAfterSlash cs ++ [[]]).any fun rest => isMatch parts rest
  | _ :: _, [] => false
  | part :: parts, c :: cs => part.takes c && isMatch parts cs

end Glob

def globMatches (pattern path : String) : Bool :=
  (Glob.ofString? pattern).any fun g => g.isMatch path.toList

end Xref.Text
