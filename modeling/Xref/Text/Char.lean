import Xref.Text.CodePoint

/-!
# Character classes

White space, letters and the characters of Java identifiers, all by their Unicode properties.
-/
namespace Xref.Text

/-- Whether the code point of `c` lies in one of the closed ranges. -/
def inRanges (ranges : List (Nat × Nat)) (c : Char) : Bool :=
  ranges.any fun (lo, hi) => lo ≤ c.toNat && c.toNat ≤ hi

def isBlank (c : Char) : Bool :=
  inRanges [(0x9, 0xD), (0x20, 0x20), (0x85, 0x85), (0xA0, 0xA0), (0x1680, 0x1680),
    (0x2000, 0x200A), (0x2028, 0x2029), (0x202F, 0x202F), (0x205F, 0x205F), (0x3000, 0x3000)] c

/-- Whether `c` is alphabetic or numeric. Two symbols that may begin an identifier, `℘` and `℮`, are
neither. -/
def isAlphanumeric (c : Char) : Bool :=
  if c.toNat < 0x80 then c.isAlphanum
  else inRanges (identifierStartRanges ++ innerRanges ++ strayRanges) c && c != '℘' && c != '℮'

/-- An identifier begins with a letter, an underscore or a dollar sign. -/
def isIdentifierStart (c : Char) : Bool :=
  if c.toNat < 0x80 then c.isAlpha || c == '_' || c == '$' else inRanges identifierStartRanges c

/-- After its first character an identifier also takes digits, combining marks and the cent sign. -/
def isIdentifierPart (c : Char) : Bool :=
  if c.toNat < 0x80 then c.isAlphanum || c == '_' || c == '$'
  else c.toNat == 0xA2 || inRanges identifierPartRanges c

end Xref.Text
