import Xref.Syntax.Tree

/-!
# Tokens

What the grammar reads. Words are not divided into keywords and identifiers here, because a word
such as `record` is a keyword only where the grammar has a use for it.
-/
namespace Xref.Syntax

inductive TokenKind where
  | word
  | symbol
  | literal (kind : Kind)
  /-- A character that begins no token. No rule of the grammar reads it. -/
  | unknown
  deriving Repr, DecidableEq, Inhabited

structure Token where
  kind : TokenKind
  range : Range
  text : String
  deriving Repr, DecidableEq, Inhabited

end Xref.Syntax
