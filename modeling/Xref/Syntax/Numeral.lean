import Xref.Syntax.Kind

/-!
# Numbers and characters

The lexical forms of the literals that are single tokens. A form is a function that takes what it
matches off the front of a text. Where several forms match, the longest match counts, and of two
equally long ones the earlier form.
-/
namespace Xref.Syntax.Numeral

/-- Takes a match off the front and returns the rest. -/
abbrev Form := List Char → Option (List Char)

/-- Continues a run of digits in which single underscores may stand between digits, or whole runs
of underscores if `multi` is set. In `held` is the text from the underscores on, for the case that
no digit follows them. -/
def digitRun (isDigit : Char → Bool) (multi : Bool) : Option (List Char) → List Char → List Char
  | held, [] => held.getD []
  | none, c :: cs =>
    if isDigit c then digitRun isDigit multi none cs
    else if c == '_' then digitRun isDigit multi (some (c :: cs)) cs
    else c :: cs
  | some back, c :: cs =>
    if isDigit c then digitRun isDigit multi none cs
    else if multi && c == '_' then digitRun isDigit multi (some back) cs
    else back

def grouped (isDigit : Char → Bool) (multi : Bool) : Form
  | [] => none
  | c :: cs => if isDigit c then some (digitRun isDigit multi none cs) else none

def isHexDigit (c : Char) : Bool :=
  c.isDigit || ('a' ≤ c && c ≤ 'f') || ('A' ≤ c && c ≤ 'F')

def isOctalDigit (c : Char) : Bool := '0' ≤ c && c ≤ '7'

def isBinaryDigit (c : Char) : Bool := c == '0' || c == '1'

def wholeNumber : Form
  | [] => none
  | c :: cs =>
    if c == '0' then some cs
    else if c.isDigit then
      let more := match cs with
        | '_' :: cs' => cs'
        | _ => cs
      some ((grouped Char.isDigit true more).getD cs)
    else none

def decimalDigits : Form := grouped Char.isDigit false

def hexDigits : Form := grouped isHexDigit false

def oneOf (marks : List Char) : Form
  | [] => none
  | c :: cs => if marks.contains c then some cs else none

def optional (f : Form) : Form := fun cs => some ((f cs).getD cs)

def both (f g : Form) : Form := fun cs => (f cs).bind g

def all : List Form → Form
  | [] => some
  | f :: fs => both f (all fs)

def longSuffix : Form := optional (oneOf ['l', 'L'])

def floatSuffix : Form := oneOf ['f', 'F', 'd', 'D']

def exponent (marks : List Char) (digits : Form) : Form :=
  all [oneOf marks, optional (oneOf ['-', '+']), digits]

def decimalExponent : Form := exponent ['e', 'E'] decimalDigits

def longest (forms : List Form) : Form := fun cs =>
  forms.foldl
    (fun best f =>
      match best, f cs with
      | some r, some r' => if r'.length < r.length then some r' else some r
      | none, r => r
      | r, none => r)
    none

def radixMark (marks : List Char) : Form := both (oneOf ['0']) (oneOf marks)

def decimalInteger : Form := both wholeNumber longSuffix

def hexInteger : Form := all [radixMark ['x', 'X'], hexDigits, longSuffix]

def octalInteger : Form :=
  longest
    [all [radixMark ['o', 'O'], grouped isOctalDigit false, longSuffix],
     all [oneOf ['0'], grouped isOctalDigit false, longSuffix]]

def binaryInteger : Form := all [radixMark ['b', 'B'], grouped isBinaryDigit false, longSuffix]

def decimalFloat : Form :=
  longest
    [all [decimalDigits, oneOf ['.'], optional decimalDigits, optional decimalExponent,
      optional floatSuffix],
     all [oneOf ['.'], decimalDigits, optional decimalExponent, optional floatSuffix],
     all [wholeNumber, decimalExponent, optional floatSuffix],
     all [wholeNumber, optional decimalExponent, floatSuffix]]

def hexFloat : Form :=
  both (radixMark ['x', 'X'])
    (both
      (longest [both hexDigits (optional (oneOf ['.'])),
        all [optional hexDigits, oneOf ['.'], hexDigits]])
      (optional (both (exponent ['p', 'P'] wholeNumber) (optional floatSuffix))))

/-- The inside of a character literal up to its closing quote. A backslash takes the next character
with it. -/
def quotedTail : List Char → Option (List Char)
  | [] => none
  | '\x27' :: cs => some cs
  | '\x5c' :: _ :: cs => quotedTail cs
  | c :: cs => if c == '\n' || c == '\x5c' || c.toNat == 0 then none else quotedTail cs

def character : Form
  | '\x27' :: '\x27' :: _ => none
  | '\x27' :: cs => quotedTail cs
  | _ => none

def forms : List (Kind × Form) :=
  [(.decimalIntegerLiteral, decimalInteger), (.hexIntegerLiteral, hexInteger),
   (.octalIntegerLiteral, octalInteger), (.binaryIntegerLiteral, binaryInteger),
   (.decimalFloatingPointLiteral, decimalFloat), (.hexFloatingPointLiteral, hexFloat),
   (.characterLiteral, character)]

/-- The kind of the literal at the front of a text, and the text after it. -/
def scan (cs : List Char) : Option (Kind × List Char) :=
  forms.foldl
    (fun best (kind, f) =>
      match best, f cs with
      | some (k, r), some r' => if r'.length < r.length then some (kind, r') else some (k, r)
      | none, some r' => some (kind, r')
      | b, none => b)
    none

end Xref.Syntax.Numeral
