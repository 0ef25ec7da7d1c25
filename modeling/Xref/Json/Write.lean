import Xref.Json.Value

/-!
# Writing JSON

On one line, or with one item on each line and two spaces of indentation. Only quotation marks,
backslashes and control characters are escaped.
-/
namespace Xref.Json

def hexDigit (n : Nat) : Char := (Nat.toDigits 16 n).head?.getD '0'

def escapeChar (c : Char) : List Char :=
  if c == '\x22' then ['\x5c', '\x22']
  else if c == '\x5c' then ['\x5c', '\x5c']
  else if 0x20 ≤ c.toNat then [c]
  else match c.toNat with
    | 8 => ['\x5c', 'b']
    | 9 => ['\x5c', 't']
    | 10 => ['\x5c', 'n']
    | 12 => ['\x5c', 'f']
    | 13 => ['\x5c', 'r']
    | n => ['\x5c', 'u', '0', '0', hexDigit (n / 16), hexDigit (n % 16)]

def quote (s : String) : String :=
  String.ofList ('\x22' :: s.toList.flatMap escapeChar ++ ['\x22'])

def withCommas (texts : List String) : String := ",".intercalate texts

mutual

def compact : Json → String
  | null => "null"
  | bool b => if b then "true" else "false"
  | number text => text
  | string s => quote s
  | unpaired => quote ""
  | array items => "[" ++ withCommas (compactItems items) ++ "]"
  | object fields => "\x7b" ++ withCommas (compactFields fields) ++ "\x7d"

def compactItems : List Json → List String
  | [] => []
  | item :: rest => compact item :: compactItems rest

def compactFields : List (String × Json) → List String
  | [] => []
  | (name, value) :: rest => (quote name ++ ":" ++ compact value) :: compactFields rest

end

def newline (depth : Nat) : String := String.ofList ('\n' :: List.replicate (2 * depth) ' ')

/-- Lines between brackets. Without any the brackets stand next to each other. -/
def block (opening closing : String) (depth : Nat) : List String → String
  | [] => opening ++ closing
  | lines =>
    opening ++ withCommas (lines.map fun l => newline (depth + 1) ++ l) ++ newline depth ++ closing

mutual

def prettyAt : Nat → Json → String
  | depth, array items => block "[" "]" depth (prettyItems (depth + 1) items)
  | depth, object fields => block "\x7b" "\x7d" depth (prettyFields (depth + 1) fields)
  | _, null => "null"
  | _, bool b => if b then "true" else "false"
  | _, number text => text
  | _, string s => quote s
  | _, unpaired => quote ""

def prettyItems : Nat → List Json → List String
  | _, [] => []
  | depth, item :: rest => prettyAt depth item :: prettyItems depth rest

def prettyFields : Nat → List (String × Json) → List String
  | _, [] => []
  | depth, (name, value) :: rest =>
    (quote name ++ ": " ++ prettyAt depth value) :: prettyFields depth rest

end

def pretty (j : Json) : String := prettyAt 0 j

end Xref.Json
