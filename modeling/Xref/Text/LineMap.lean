import Xref.Text.Split

/-!
# Lines and columns

Positions in a text are byte offsets of its UTF-8 form. A line map turns them into lines, counted
from 1, and columns, counted in characters from 0. An offset inside a character stands for the
beginning of that character, and one past the end for the end.
-/
namespace Xref.Text

/-- The number of characters that `n` bytes have room for, in order from the first. -/
def charsWithin : Nat → List Char → Nat
  | _, [] => 0
  | n, c :: cs => if c.utf8Size ≤ n then charsWithin (n - c.utf8Size) cs + 1 else 0

def byteLength (cs : List Char) : Nat :=
  cs.foldr (fun c n => c.utf8Size + n) 0

def slice (start stop : Nat) (cs : List Char) : List Char :=
  let first := charsWithin start cs
  (cs.drop first).take (charsWithin stop cs - first)

/-- Where a reference stands. The length is counted in characters and is at least 1. -/
structure Span where
  line : Nat
  column : Nat
  length : Nat
  deriving Repr, DecidableEq, Inhabited

/-- A text with the byte offset at which each of its lines begins. -/
structure LineMap where
  chars : List Char
  starts : List Nat

namespace LineMap

/-- The offsets just after the newlines of `cs`, which begins at offset `pos`. -/
def newlines : Nat → List Char → List Nat
  | _, [] => []
  | pos, c :: cs =>
    if c == '\n' then (pos + 1) :: newlines (pos + 1) cs else newlines (pos + c.utf8Size) cs

def ofChars (cs : List Char) : LineMap :=
  ⟨cs, 0 :: newlines 0 cs⟩

def ofString (s : String) : LineMap := ofChars s.toList

/-- The index of the line that holds the byte at `offset`: the last one that begins by then. -/
def lineIndex (m : LineMap) (offset : Nat) : Nat :=
  m.starts.countP (· ≤ offset) - 1

def span (m : LineMap) (start stop : Nat) : Span :=
  let line := m.lineIndex start
  let position := charsWithin start m.chars
  { line := line + 1
    column := position - charsWithin (m.starts.getD line 0) m.chars
    length := max 1 (charsWithin stop m.chars - position) }

/-- Line number `line` without white space at its end. -/
def snippet (m : LineMap) (line : Nat) : String :=
  match m.starts[line - 1]? with
  | none => ""
  | some start =>
    let text := match m.starts[line - 1 + 1]? with
      | some stop => slice start stop m.chars
      | none => m.chars.drop (charsWithin start m.chars)
    String.ofList (trimEndChars text)

end LineMap

end Xref.Text
