/-!
# JSON values

Objects keep the order of their fields, and repeated ones too, because both matter to some readers.
Numbers keep their text, so that integers of any size can be told from other numbers.
-/
namespace Xref

inductive Json where
  | null
  | bool (b : Bool)
  | number (text : String)
  | string (s : String)
  /-- A string that is no text, because it has half of a surrogate pair in it, or an object with
  such a name. It can be skipped, but there is nothing to be had from it. -/
  | unpaired
  | array (items : List Json)
  | object (fields : List (String × Json))
  deriving Repr, Inhabited

namespace Json

def ofNat (n : Nat) : Json := .number (toString n)

def ofOption {α : Type} (f : α → Json) (a : Option α) : Json := (a.map f).getD .null

def strings (ss : List String) : Json := .array (ss.map .string)

def field? (name : String) : Json → Option Json
  | object fields => fields.lookup name
  | _ => none

/-- A natural number below `bound`, written without sign, point and exponent. -/
def nat? (bound : Nat) : Json → Option Nat
  | number text =>
    if !text.isEmpty && text.toList.all Char.isDigit then
      let n := text.toList.foldl (fun n c => n * 10 + (c.toNat - 48)) 0
      if n < bound then some n else none
    else none
  | _ => none

def string? : Json → Option String
  | string s => some s
  | _ => none

def bool? : Json → Option Bool
  | bool b => some b
  | _ => none

def array? : Json → Option (List Json)
  | array items => some items
  | _ => none

def object? : Json → Option (List (String × Json))
  | object fields => some fields
  | _ => none

def strings? (j : Json) : Option (List String) := do (← j.array?).mapM string?

def bound32 : Nat := 0x100000000

def bound64 : Nat := 0x10000000000000000

mutual

/-- How many arrays and objects are nested at most. -/
def nesting : Json → Nat
  | array items => nestingOfItems items + 1
  | object fields => nestingOfFields fields + 1
  | _ => 0

def nestingOfItems : List Json → Nat
  | [] => 0
  | j :: rest => max j.nesting (nestingOfItems rest)

def nestingOfFields : List (String × Json) → Nat
  | [] => 0
  | (_, j) :: rest => max j.nesting (nestingOfFields rest)

end

/-- How deep a text may be nested that is read into records of a program. -/
def nestingLimit : Nat := 127

end Json

end Xref
