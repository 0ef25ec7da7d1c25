import Mathlib.Data.List.Basic
import Xref.Proofs.Syntax.Shape

/-!
# Tokens begin with ink

White space stands between tokens and inside of strings. No other token begins with it, and no mark
has it anywhere.
-/
open List

namespace Xref.Syntax

open Text

variable {c : Char}

lemma eq_false_of_inRanges {xs ys : List (Nat × Nat)}
    (hapart : xs.all fun x => ys.all fun y => x.2 < y.1 || y.2 < x.1) (h : inRanges xs c) :
    inRanges ys c = false := by
  by_contra hys
  simp only [inRanges, Bool.not_eq_false, any_eq_true, Bool.and_eq_true,
    decide_eq_true_eq] at h hys
  obtain ⟨x, hx, hx'⟩ := h
  obtain ⟨y, hy, hy'⟩ := hys
  have hdisjoint := all_eq_true.mp (all_eq_true.mp hapart x hx) y hy
  simp only [Bool.or_eq_true, decide_eq_true_eq] at hdisjoint
  omega

lemma isBlank_of_ascii {p : Char → Bool} (hascii : c.toNat < 0x80)
    (hall : ∀ n < 0x80, p (Char.ofNat n) → isBlank (Char.ofNat n) = false) (h : p c) :
    isBlank c = false := by
  have hc := hall c.toNat hascii
  rw [Char.ofNat_toNat] at hc
  exact hc h

lemma isBlank_of_isIdentifierStart (h : isIdentifierStart c) : isBlank c = false := by
  unfold isIdentifierStart at h
  split at h
  case isTrue hascii =>
    exact isBlank_of_ascii (p := fun c => c.isAlpha || c == '_' || c == '$') hascii
      (by decide +kernel) h
  case isFalse => exact eq_false_of_inRanges (by decide +kernel) h

lemma isBlank_of_isIdentifierPart (h : isIdentifierPart c) : isBlank c = false := by
  unfold isIdentifierPart at h
  split at h
  case isTrue hascii =>
    exact isBlank_of_ascii (p := fun c => c.isAlphanum || c == '_' || c == '$') hascii
      (by decide +kernel) h
  case isFalse =>
    have h : inRanges ((0xA2, 0xA2) :: identifierPartRanges) c := by
      simpa [inRanges, Nat.le_antisymm_iff, and_comm] using h
    exact eq_false_of_inRanges (by decide +kernel) h

lemma isSolid_of_isIdentifier {text : String} (h : isIdentifier text) : isSolid text := by
  obtain ⟨c, cs, htext, hstart, hparts⟩ := isIdentifier_iff.mp h
  simp only [isSolid, htext, List.all_cons, all_eq_true, Bool.and_eq_true, Bool.not_eq_true']
  exact ⟨isBlank_of_isIdentifierStart hstart, fun x hx => isBlank_of_isIdentifierPart (hparts x hx)⟩

lemma isBlank_of_isDigit (h : c.isDigit) : isBlank c = false := by
  simp only [Char.isDigit, Bool.and_eq_true, decide_eq_true_eq, UInt32.le_iff_toNat_le] at h
  have h : inRanges [(48, 57)] c := by simpa [inRanges] using h
  exact eq_false_of_inRanges (by decide) h

def beginsInked (cs : List Char) : Bool := cs.head?.any fun c => !isBlank c

def TokenKind.isInked : TokenKind → Bool
  | .word | .symbol => true
  | .literal kind => !kind.isFragment
  | .unknown => false

def LexemeKind.isInked : LexemeKind → Bool
  | .blank => false
  | .comment _ => true
  | .token kind => kind.isInked

/-- Where a lexeme at the beginning of `cs` has no white space. -/
structure Scan.Inks (cs : List Char) (s : Scan) : Prop where
  first : s.kind.isInked → beginsInked cs
  all : s.kind = .token .symbol → ∀ c ∈ s.text, isBlank c = false

namespace Scan.Inks

variable {cs : List Char} {s : Scan}

lemma of_symbol (hall : ∀ c ∈ s.text, isBlank c = false) (hfirst : beginsInked cs) : s.Inks cs :=
  ⟨fun _ => hfirst, fun _ => hall⟩

lemma of_first (hkind : s.kind ≠ .token .symbol) (h : beginsInked cs) : s.Inks cs :=
  ⟨fun _ => h, fun hsymbol => absurd hsymbol hkind⟩

lemma of_none (h : s.kind.isInked = false) : s.Inks cs :=
  ⟨fun hinked => by simp [h] at hinked, fun hsymbol => by rw [hsymbol] at h; cases h⟩

lemma beginsInked_of_comment {kind : CommentKind} {rest : List Char}
    (h : Lexer.commentTail cs = some (kind, rest)) : beginsInked cs := by
  unfold Lexer.commentTail at h
  split at h
  · rfl
  · rfl
  · cases h

lemma scanFragment (modes : List Mode) (cs rest : List Char) :
    (Lexer.scanFragment modes cs rest).Inks cs := by
  unfold Lexer.scanFragment
  dsimp only
  split
  case h_1 hcomment =>
    split
    · split
      · exact of_none rfl
      · next hspace =>
        -- there is no white space in front of the comment
        have hsame := (dropWhile_suffix Lexer.isSpace).eq_of_length_le (Nat.le_of_not_lt hspace)
        rw [hsame] at hcomment
        exact of_first nofun (beginsInked_of_comment hcomment)
    · exact of_none rfl
  case h_2 => exact of_none rfl

lemma scanQuoted (triple : Bool) (outer : List Mode) (cs : List Char) :
    (Lexer.scanQuoted triple outer cs).Inks cs := by
  unfold Lexer.scanQuoted
  dsimp only
  split
  case h_1 => exact of_symbol (by simp; decide) rfl
  case h_2 =>
    split
    case h_1 => exact of_first nofun rfl
    case h_2 =>
      split
      · exact of_none rfl
      · exact of_first nofun rfl
    case h_3 => exact of_none rfl
  case h_3 =>
    split
    · exact of_symbol (by simp; decide) rfl
    · split
      · exact of_symbol (by simp; decide) rfl
      · exact of_none rfl
  case h_4 =>
    split
    · exact of_none rfl
    · split
      · exact scanFragment _ _ _
      · exact of_none rfl
  case h_5 => exact of_none rfl

section

variable (modes : List Mode) (cs : List Char)

lemma scanMark : (Lexer.scanMark modes cs).Inks cs := by
  unfold Lexer.scanMark
  split
  · exact of_symbol (by simp; decide) rfl
  · exact of_symbol (by simp; decide) rfl
  · split
    case h_1 s hs =>
      have hall : Lexer.symbols.all fun s => beginsInked s && s.all fun c => !isBlank c := by
        decide +kernel
      have hs' := all_eq_true.mp hall s (mem_of_find?_eq_some hs)
      simp only [Bool.and_eq_true, all_eq_true, Bool.not_eq_true'] at hs'
      obtain ⟨hfirst, hink⟩ := hs'
      have hstart : s.isPrefixOf cs := find?_some (p := fun s : List Char => s.isPrefixOf cs) hs
      obtain ⟨tail, rfl⟩ := List.isPrefixOf_iff_prefix.mp hstart
      refine of_symbol hink ?_
      cases s with
      | nil => cases hfirst
      | cons c s => exact hfirst
    case h_2 => exact of_none rfl

lemma scanCode : (Lexer.scanCode modes cs).Inks cs := by
  unfold Lexer.scanCode
  split
  case h_1 hcomment => exact of_first nofun (beginsInked_of_comment hcomment)
  case h_2 c tail _ =>
    split
    · exact of_none rfl
    · split
      case isTrue hstart =>
        exact of_first nofun (by simp [beginsInked, isBlank_of_isIdentifierStart hstart])
      case isFalse =>
        split
        case isTrue hfirst =>
          split
          case h_1 =>
            refine of_first nofun ?_
            simp only [Bool.or_eq_true, beq_iff_eq] at hfirst
            rcases hfirst with (hfirst | rfl) | rfl
            · simp [beginsInked, isBlank_of_isDigit hfirst]
            · rfl
            · rfl
          case h_2 => exact scanMark modes _
        case isFalse => exact scanMark modes _
  case h_3 => exact of_none rfl

lemma scan : (Lexer.scan modes cs).Inks cs := by
  unfold Lexer.scan
  split
  · exact scanQuoted _ _ cs
  · exact scanCode modes cs

end

end Scan.Inks

end Xref.Syntax
