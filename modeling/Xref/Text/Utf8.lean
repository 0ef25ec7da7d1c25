/-!
# UTF-8

Text as bytes and back. A sequence of bytes that is no character counts as one error up to the byte
that breaks it; reading on begins again at that byte.
-/
namespace Xref.Text

def encodeUtf8 (s : String) : List UInt8 := s.toList.flatMap String.utf8EncodeChar

/-- A character of which some bytes have been read: its value so far, and the closed range in which
each of the bytes to come has to lie. -/
structure Utf8Pending where
  value : Nat
  next : UInt8 × UInt8
  later : List (UInt8 × UInt8)

namespace Utf8Pending

def continuation : UInt8 × UInt8 := (0x80, 0xBF)

def accepts (p : Utf8Pending) (b : UInt8) : Bool := p.next.1 ≤ b && b ≤ p.next.2

def advance (p : Utf8Pending) (b : UInt8) : Nat := p.value * 64 + (b.toNat - 0x80)

end Utf8Pending

open Utf8Pending in
/-- What the first byte of a character leads to: a finished character, an error (`none`), or more
bytes to come. -/
def beginUtf8 (b : UInt8) : List (Option Char) × Option Utf8Pending :=
  let n := b.toNat
  let pending (value : Nat) (next : UInt8 × UInt8) (more : Nat) :=
    (([] : List (Option Char)), some (Utf8Pending.mk value next (List.replicate more continuation)))
  if n < 0x80 then ([some (Char.ofNat n)], none)
  else if 0xC2 ≤ n && n ≤ 0xDF then pending (n - 0xC0) continuation 0
  else if n == 0xE0 then pending 0 (0xA0, 0xBF) 1
  else if n == 0xED then pending (n - 0xE0) (0x80, 0x9F) 1
  else if 0xE1 ≤ n && n ≤ 0xEF then pending (n - 0xE0) continuation 1
  else if n == 0xF0 then pending 0 (0x90, 0xBF) 2
  else if 0xF1 ≤ n && n ≤ 0xF3 then pending (n - 0xF0) continuation 2
  else if n == 0xF4 then pending (n - 0xF0) (0x80, 0x8F) 2
  else ([none], none)

/-- Reads bytes, some of a character having been read before. -/
def readUtf8 : Option Utf8Pending → List UInt8 → List (Option Char)
  | none, [] => []
  | some _, [] => [none]
  | none, b :: bs =>
    let (found, pending) := beginUtf8 b
    found ++ readUtf8 pending bs
  | some p, b :: bs =>
    if p.accepts b then
      match p.later with
      | [] => some (Char.ofNat (p.advance b)) :: readUtf8 none bs
      | next :: later => readUtf8 (some ⟨p.advance b, next, later⟩) bs
    else
      let (found, pending) := beginUtf8 b
      none :: (found ++ readUtf8 pending bs)

def decodeLossy (bs : List UInt8) : String :=
  String.ofList ((readUtf8 none bs).map fun c => c.getD (Char.ofNat 0xFFFD))

def decodeUtf8? (bs : List UInt8) : Option String :=
  let cs := readUtf8 none bs
  if cs.all Option.isSome then some (String.ofList (cs.filterMap id)) else none

end Xref.Text
