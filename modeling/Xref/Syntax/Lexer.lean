import Xref.Syntax.Numeral
import Xref.Syntax.Token

/-!
# From text to tokens

A text is cut into lexemes: white space, comments and tokens. Inside a string the rules are
different, and an interpolation `\{…}` inside a string goes back to the rules of code, so the lexer
keeps a stack of modes.
-/
namespace Xref.Syntax

open Text

inductive Mode where
  /-- A string; a text block if `triple` is set. -/
  | quoted (triple : Bool)
  /-- The code of an interpolation, with the number of braces open in it. -/
  | code (depth : Nat)
  deriving Repr, DecidableEq

inductive CommentKind where
  | line
  | block
  deriving Repr, DecidableEq

def CommentKind.treeKind : CommentKind → Kind
  | line => .lineComment
  | block => .blockComment

inductive LexemeKind where
  | blank
  | comment (kind : CommentKind)
  | token (kind : TokenKind)
  deriving Repr, DecidableEq

structure Scan where
  kind : LexemeKind
  text : List Char
  rest : List Char
  modes : List Mode

structure Lexeme where
  kind : LexemeKind
  range : Range
  text : List Char

namespace Lexer

def isSpace (c : Char) : Bool := c == ' ' || ('\t'.toNat ≤ c.toNat && c.toNat ≤ '\r'.toNat)

def isNul (c : Char) : Bool := c.toNat == 0

/-- Operators, brackets and other marks, longer ones before their beginnings. -/
def symbols : List (List Char) :=
  [">>>=", "<<=", ">>=", ">>>", "...", "->", "::", "++", "--", "&&", "||", "==", "!=", "<=", ">=",
   "+=", "-=", "*=", "/=", "&=", "|=", "^=", "%=", "<<", ">>", "(", ")", "\x7b", "\x7d", "[", "]",
   ";", ",", ".", "@", "=", ">", "<", "!", "~", "?", ":", "+", "-", "*", "/", "&", "|", "^",
   "%"].map String.toList

def blockCommentTail : List Char → Option (List Char)
  | [] => none
  | '*' :: '/' :: rest => some rest
  | c :: cs => if isNul c then none else blockCommentTail cs

def before (cs rest : List Char) : List Char := cs.take (cs.length - rest.length)

/-- The kind of the comment at the beginning of a text, and what follows it. -/
def commentTail : List Char → Option (CommentKind × List Char)
  | '/' :: '/' :: tail => some (.line, tail.dropWhile fun c => !(c == '\n' || isNul c))
  | '/' :: '*' :: tail => (blockCommentTail tail).map fun rest => (.block, rest)
  | _ => none

/-- A quotation mark in a text block that does not end it, with the text up to the next one. -/
def looseQuoteTail : List Char → List Char
  | [] => []
  | '\x5c' :: '\x22' :: cs => looseQuoteTail cs
  | c :: cs => if c == '\x22' || c == '\x5c' || isNul c then c :: cs else looseQuoteTail cs

def hexTail : Nat → List Char → Option (List Char)
  | 0, cs => some cs
  | n + 1, c :: cs => if Numeral.isHexDigit c then hexTail n cs else none
  | _ + 1, [] => none

def octalTail : Nat → List Char → List Char
  | n + 1, c :: cs => if Numeral.isOctalDigit c then octalTail n cs else c :: cs
  | _, cs => cs

def escapeTail : List Char → Option (List Char)
  | [] => none
  | 'x' :: cs => hexTail 2 cs
  | 'u' :: '\x7b' :: cs =>
    match cs.dropWhile Numeral.isHexDigit with
    | '\x7d' :: rest => if cs.head?.any Numeral.isHexDigit then some rest else none
    | _ => none
  | 'u' :: cs => hexTail 4 cs
  | c :: cs =>
    if isNul c then none
    else if Numeral.isOctalDigit c then some (octalTail 2 cs)
    else some cs

/-- A piece of a text block up to `rest`, the next quotation mark or backslash. A comment that goes
further is a comment, and so is one after white space. -/
def scanFragment (modes : List Mode) (cs rest : List Char) : Scan :=
  let inner := cs.dropWhile isSpace
  match commentTail inner with
  | some (kind, after) =>
    if after.length < rest.length then
      if inner.length < cs.length then ⟨.blank, before cs inner, inner, modes⟩
      else ⟨.comment kind, before cs after, after, modes⟩
    else ⟨.token (.literal .multilineStringFragment), before cs rest, rest, modes⟩
  | none => ⟨.token (.literal .multilineStringFragment), before cs rest, rest, modes⟩

/-- A lexeme inside a string. A text block takes any character after a backslash. -/
def scanQuoted (triple : Bool) (outer : List Mode) (cs : List Char) : Scan :=
  let here := Mode.quoted triple :: outer
  let symbol (n : Nat) (modes : List Mode) : Scan :=
    ⟨.token .symbol, cs.take n, cs.drop n, modes⟩
  let part (kind : Kind) (rest : List Char) : Scan :=
    ⟨.token (.literal kind), before cs rest, rest, here⟩
  let unknown : Scan := ⟨.token .unknown, cs.take 1, cs.drop 1, here⟩
  match cs with
  | '\x5c' :: '\x7b' :: _ => symbol 2 (.code 0 :: here)
  | '\x5c' :: tail =>
    match escapeTail tail, triple with
    | some rest, _ => part .escapeSequence rest
    | none, true => if tail.head?.all isNul then unknown else part .escapeSequence (tail.drop 1)
    | none, false => unknown
  | '\x22' :: tail =>
    if !triple then symbol 1 outer
    else match tail with
      | '\x22' :: '\x22' :: _ => symbol 3 outer
      | _ => part .multilineStringFragment (looseQuoteTail tail)
  | c :: _ =>
    if isNul c then unknown
    else
      let rest := cs.dropWhile fun c => !(c == '\x22' || c == '\x5c' || isNul c)
      if triple then scanFragment here cs rest else part .stringFragment rest
  | [] => unknown

/-- The modes after a brace in code. The one that ends an interpolation leads back to the string. -/
def afterBrace (c : Char) : List Mode → List Mode
  | .code depth :: outer =>
    if c == '\x7b' then .code (depth + 1) :: outer
    else if c == '\x7d' then
      match depth with
      | 0 => outer
      | d + 1 => .code d :: outer
    else .code depth :: outer
  | modes => modes

/-- A symbol, a quotation mark that opens a string, or a character that begins no token. -/
def scanMark (modes : List Mode) (cs : List Char) : Scan :=
  match cs with
  | '\x22' :: '\x22' :: '\x22' :: rest =>
    ⟨.token .symbol, ['\x22', '\x22', '\x22'], rest, .quoted true :: modes⟩
  | '\x22' :: rest => ⟨.token .symbol, ['\x22'], rest, .quoted false :: modes⟩
  | _ =>
    match symbols.find? fun s => s.isPrefixOf cs with
    | some s =>
      ⟨.token .symbol, s, cs.drop s.length, (s.head?.map fun c => afterBrace c modes).getD modes⟩
    | none => ⟨.token .unknown, cs.take 1, cs.drop 1, modes⟩

def scanCode (modes : List Mode) (cs : List Char) : Scan :=
  match commentTail cs, cs with
  | some (kind, rest), _ => ⟨.comment kind, before cs rest, rest, modes⟩
  | none, c :: tail =>
    if isSpace c then ⟨.blank, c :: tail.takeWhile isSpace, tail.dropWhile isSpace, modes⟩
    else if isIdentifierStart c then
      ⟨.token .word, c :: tail.takeWhile isIdentifierPart, tail.dropWhile isIdentifierPart, modes⟩
    else if c.isDigit || c == '.' || c == '\x27' then
      match Numeral.scan cs with
      | some (kind, rest) => ⟨.token (.literal kind), before cs rest, rest, modes⟩
      | none => scanMark modes cs
    else scanMark modes cs
  | none, [] => ⟨.token .unknown, [], [], modes⟩

def scan (modes : List Mode) (cs : List Char) : Scan :=
  match modes with
  | .quoted triple :: outer => scanQuoted triple outer cs
  | _ => scanCode modes cs

/-- Cuts `cs`, which begins at byte `pos`, into at most `n` lexemes. -/
def lexemes : Nat → List Mode → Nat → List Char → List Lexeme
  | 0, _, _, _ => []
  | _, _, _, [] => []
  | n + 1, modes, pos, cs =>
    let s := scan modes cs
    let stop := pos + byteLength s.text
    ⟨s.kind, ⟨pos, stop⟩, s.text⟩ :: lexemes n s.modes stop s.rest

/-- The lexemes of a text. A byte order mark at its very beginning belongs to none. -/
def lex (cs : List Char) : List Lexeme :=
  match cs with
  | [] => []
  | c :: rest =>
    if c.toNat == 0xFEFF then lexemes rest.length [] c.utf8Size rest
    else lexemes cs.length [] 0 cs

end Lexer

namespace Lexeme

def token? (l : Lexeme) : Option Token :=
  match l.kind with
  | .token kind => some ⟨kind, l.range, String.ofList l.text⟩
  | _ => none

def comment? (l : Lexeme) : Option Tree :=
  match l.kind with
  | .comment kind => some (.leaf none kind.treeKind l.range (String.ofList l.text))
  | _ => none

end Lexeme

end Xref.Syntax
