import Xref.Json.Value

/-!
# Reading JSON

The whole text has to be one value. White space is blank, tab, newline and carriage return.
-/
namespace Xref.Json

def isSpace (c : Char) : Bool := c == ' ' || c == '\t' || c == '\n' || c == '\r'

def skipSpace (cs : List Char) : List Char := cs.dropWhile isSpace

def readDigits (cs : List Char) : Option (List Char × List Char) :=
  let (digits, rest) := cs.span Char.isDigit
  if digits.isEmpty then none else some (digits, rest)

/-- The digits before a point. A leading zero stands alone. -/
def readWhole : List Char → Option (List Char × List Char)
  | '0' :: rest => if rest.head?.any Char.isDigit then none else some (['0'], rest)
  | cs => readDigits cs

def readFraction : List Char → Option (List Char × List Char)
  | '.' :: rest => (readDigits rest).map fun (digits, rest) => ('.' :: digits, rest)
  | cs => some ([], cs)

def readExponent : List Char → Option (List Char × List Char)
  | [] => some ([], [])
  | e :: rest =>
    if e == 'e' || e == 'E' then
      let (sign, digits) := match rest with
        | s :: more => if s == '+' || s == '-' then ([s], more) else ([], rest)
        | [] => ([], rest)
      (readDigits digits).map fun (digits, rest) => (e :: sign ++ digits, rest)
    else some ([], e :: rest)

def readSign : List Char → List Char × List Char
  | '-' :: rest => (['-'], rest)
  | cs => ([], cs)

def readNumber (cs : List Char) : Option (Json × List Char) := do
  let (sign, cs) := readSign cs
  let (whole, cs) ← readWhole cs
  let (fraction, cs) ← readFraction cs
  let (exponent, cs) ← readExponent cs
  return (.number (String.ofList (sign ++ whole ++ fraction ++ exponent)), cs)

def hexValue? (c : Char) : Option Nat :=
  if c.isDigit then some (c.toNat - 48)
  else if 'a' ≤ c && c ≤ 'f' then some (c.toNat - 87)
  else if 'A' ≤ c && c ≤ 'F' then some (c.toNat - 55)
  else none

def readUnit : List Char → Option (Nat × List Char)
  | a :: b :: c :: d :: rest => do
    let digits ← [a, b, c, d].mapM hexValue?
    return (digits.foldl (fun n d => n * 16 + d) 0, rest)
  | _ => none

def isHighSurrogate (n : Nat) : Bool := 0xD800 ≤ n && n ≤ 0xDBFF

def isLowSurrogate (n : Nat) : Bool := 0xDC00 ≤ n && n ≤ 0xDFFF

inductive Escaped where
  | char (c : Char)
  /-- Half of a surrogate pair. -/
  | half
  deriving Repr, DecidableEq

def readEscape : List Char → Option (Escaped × List Char)
  | 'u' :: cs => do
    let (n, rest) ← readUnit cs
    if isLowSurrogate n then return (.half, rest)
    if !isHighSurrogate n then return (.char (Char.ofNat n), rest)
    match rest with
    | '\x5c' :: 'u' :: more =>
      let (low, after) ← readUnit more
      if isLowSurrogate low then
        return (.char (Char.ofNat (0x10000 + (n - 0xD800) * 1024 + (low - 0xDC00))), after)
      return (.half, rest)
    | _ => return (.half, rest)
  | c :: rest =>
    match c with
    | '\x22' => some (.char c, rest)
    | '\x5c' => some (.char c, rest)
    | '/' => some (.char c, rest)
    | 'b' => some (.char (Char.ofNat 8), rest)
    | 'f' => some (.char (Char.ofNat 12), rest)
    | 'n' => some (.char '\n', rest)
    | 'r' => some (.char '\r', rest)
    | 't' => some (.char '\t', rest)
    | _ => none
  | [] => none

/-- The rest of a string after its first quotation mark. The characters before are in `found`, the
last one first; there are none if half of a surrogate pair was among them. -/
def readChars : Nat → Option (List Char) → List Char → Option (Option String × List Char)
  | 0, _, _ => none
  | _, _, [] => none
  | n + 1, found, c :: cs =>
    if c == '\x22' then some (found.map fun f => String.ofList f.reverse, cs)
    else if c == '\x5c' then
      match readEscape cs with
      | some (.char e, rest) => readChars n (found.map (e :: ·)) rest
      | some (.half, rest) => readChars n none rest
      | none => none
    else if c.toNat < 0x20 then none
    else readChars n (found.map (c :: ·)) cs

def readString (cs : List Char) : Option (Option String × List Char) :=
  readChars (cs.length + 1) (some []) cs

def readWord (word : String) (value : Json) (cs : List Char) : Option (Json × List Char) :=
  if word.toList.isPrefixOf cs then some (value, cs.drop word.length) else none

mutual

def readValue : Nat → List Char → Option (Json × List Char)
  | 0, _ => none
  | n + 1, cs =>
    match skipSpace cs with
    | [] => none
    | c :: rest =>
      if c == '\x22' then
        (readString rest).map fun (s, rest) => ((s.map .string).getD .unpaired, rest)
      else if c == '[' then
        match skipSpace rest with
        | ']' :: rest => some (.array [], rest)
        | rest => readItems n [] rest
      else if c == '\x7b' then
        match skipSpace rest with
        | '\x7d' :: rest => some (.object [], rest)
        | rest => readFields n (some []) rest
      else if c == 'n' then readWord "null" .null (c :: rest)
      else if c == 't' then readWord "true" (.bool true) (c :: rest)
      else if c == 'f' then readWord "false" (.bool false) (c :: rest)
      else readNumber (c :: rest)

/-- The items of an array. Those before are in `found`, the last one first. -/
def readItems : Nat → List Json → List Char → Option (Json × List Char)
  | 0, _, _ => none
  | n + 1, found, cs => do
    let (item, rest) ← readValue n cs
    match skipSpace rest with
    | ',' :: rest => readItems n (item :: found) rest
    | ']' :: rest => some (.array (item :: found).reverse, rest)
    | _ => none

/-- The fields of an object. Those before are in `found`, the last one first; there are none if half
of a surrogate pair was in a name. -/
def readFields : Nat → Option (List (String × Json)) → List Char → Option (Json × List Char)
  | 0, _, _ => none
  | n + 1, found, cs =>
    match skipSpace cs with
    | '\x22' :: rest => do
      let (name, rest) ← readString rest
      match skipSpace rest with
      | ':' :: rest =>
        let (value, rest) ← readValue n rest
        let found := do return (← name, value) :: (← found)
        match skipSpace rest with
        | ',' :: rest => readFields n found rest
        | '\x7d' :: rest => some ((found.map fun f => .object f.reverse).getD .unpaired, rest)
        | _ => none
      | _ => none
    | _ => none

end

def read? (text : String) : Option Json := do
  let cs := text.toList
  let (value, rest) ← readValue (2 * cs.length + 2) cs
  if (skipSpace rest).isEmpty then some value else none

end Xref.Json
