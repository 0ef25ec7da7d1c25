import Mathlib.Data.List.Basic
import Xref.Syntax.Lexer

/-!
# Lexemes tile the text

The lexer takes each lexeme off the front of what is left of the text, and at least one character at
a time. So the texts of the lexemes, one after the other, are the text, and the range of a lexeme
says where in the text it was read.
-/
open List Option

namespace Xref.Syntax

open Text Numeral Lexer

namespace Numeral

/-- What is left after a match is a tail of the text, and the match has `n` characters at least. -/
def Form.Takes (n : Nat) (f : Form) : Prop :=
  ∀ cs rest, f cs = some rest → rest <:+ cs ∧ rest.length + n ≤ cs.length

lemma digitRun_suffix (isDigit : Char → Bool) (multi : Bool) (held : Option (List Char))
    (cs : List Char) (h : ∀ back, held = some back → cs <:+ back) :
    digitRun isDigit multi held cs <:+ held.getD cs := by
  fun_induction digitRun isDigit multi held cs with
  | case1 held => cases held <;> exact suffix_refl _
  | case2 c cs _ ih => exact (ih nofun).trans (suffix_cons c cs)
  | case3 c cs _ _ ih => exact ih (by rintro back ⟨⟩; exact suffix_cons c cs)
  | case4 c cs _ _ => exact suffix_refl _
  | case5 back c cs _ ih => exact (ih nofun).trans ((suffix_cons c cs).trans (h back rfl))
  | case6 back c cs _ _ ih => exact ih (by rintro _ ⟨⟩; exact (suffix_cons c cs).trans (h back rfl))
  | case7 back c cs _ _ => exact suffix_refl _

namespace Form.Takes

variable {n m : Nat} {f g : Form} {fs : List Form}

lemma weaken (h : Takes n f) (hle : m ≤ n) : Takes m f := by
  intro cs rest hrest
  obtain ⟨htail, hlength⟩ := h cs rest hrest
  exact ⟨htail, by omega⟩

lemma both (hf : Takes n f) (hg : Takes m g) : Takes (n + m) (both f g) := by
  intro cs rest hrest
  obtain ⟨middle, hmiddle, hrest⟩ := bind_eq_some_iff.mp hrest
  obtain ⟨htail, hlength⟩ := hf cs middle hmiddle
  obtain ⟨htail', hlength'⟩ := hg middle rest hrest
  exact ⟨htail'.trans htail, by omega⟩

lemma optional (hf : Takes n f) : Takes 0 (optional f) := by
  intro cs rest hrest
  obtain rfl := some.inj hrest
  cases hmatch : f cs with
  | none => exact ⟨suffix_refl _, Nat.le_refl _⟩
  | some middle =>
    obtain ⟨htail, hlength⟩ := hf cs middle hmatch
    exact ⟨htail, by simpa using htail.length_le⟩

lemma all (h : ∀ f ∈ fs, Takes 0 f) : Takes 0 (all fs) := by
  induction fs with
  | nil =>
    intro cs rest hrest
    obtain rfl := some.inj hrest
    exact ⟨suffix_refl _, Nat.le_refl _⟩
  | cons f fs ih =>
    obtain ⟨hf, hfs⟩ := forall_mem_cons.mp h
    exact hf.both (ih hfs)

lemma all_cons (hf : Takes 1 f) (h : ∀ g ∈ fs, Takes 0 g) :
    Takes 1 (Numeral.all (f :: fs)) := hf.both (all h)

lemma oneOf (marks : List Char) : Takes 1 (Numeral.oneOf marks) := by
  intro cs rest hrest
  unfold Numeral.oneOf at hrest
  split at hrest
  · cases hrest
  · next c cs =>
    obtain ⟨_, hrest⟩ := ite_none_right_eq_some.mp hrest
    obtain rfl := some.inj hrest
    exact ⟨suffix_cons c cs, Nat.le_refl _⟩

lemma grouped (isDigit : Char → Bool) (multi : Bool) : Takes 1 (Numeral.grouped isDigit multi) := by
  intro cs rest hrest
  unfold Numeral.grouped at hrest
  split at hrest
  · cases hrest
  · next c cs =>
    obtain ⟨_, hrest⟩ := ite_none_right_eq_some.mp hrest
    obtain rfl := some.inj hrest
    have htail := digitRun_suffix isDigit multi none cs nofun
    exact ⟨htail.trans (suffix_cons c cs), by simpa using htail.length_le⟩

lemma wholeNumber : Takes 1 Numeral.wholeNumber := by
  intro cs rest hrest
  unfold Numeral.wholeNumber at hrest
  split at hrest
  · cases hrest
  · next c cs =>
    have hsuffices (htail : rest <:+ cs) : rest <:+ c :: cs ∧ rest.length + 1 ≤ (c :: cs).length :=
      ⟨htail.trans (suffix_cons c cs), by simpa using htail.length_le⟩
    refine hsuffices ?_
    split at hrest
    · cases hrest
      exact suffix_refl _
    · split at hrest
      · cases hrest
        split
        case h_1 cs' =>
          cases hmatch : Numeral.grouped Char.isDigit true cs' with
          | none => exact suffix_refl _
          | some middle => exact (grouped _ _ _ _ hmatch).1.trans (suffix_cons '_' cs')
        case h_2 =>
          cases hmatch : Numeral.grouped Char.isDigit true cs with
          | none => exact suffix_refl _
          | some middle => exact (grouped _ _ _ _ hmatch).1
      · cases hrest

lemma longest {forms : List Form} (h : ∀ f ∈ forms, Takes n f) : Takes n (longest forms) := by
  intro cs
  -- the best match so far is one of those that are tried
  refine List.foldlRecOn (motive := fun best : Option (List Char) =>
    ∀ rest, best = some rest → rest <:+ cs ∧ rest.length + n ≤ cs.length) forms _ (by simp) ?_
  intro best hbest f hf rest hrest
  split at hrest
  · next r r' hmatch =>
    split at hrest
    · exact h f hf cs rest (hmatch.trans hrest)
    · exact hbest rest hrest
  · next hmatch => exact h f hf cs rest hrest
  · exact hbest rest hrest

lemma exponent (marks : List Char) {digits : Form} (h : Takes 1 digits) :
    Takes 1 (Numeral.exponent marks digits) :=
  all_cons (.oneOf marks) (by simp [optional (oneOf _), h.weaken])

end Form.Takes

lemma quotedTail_suffix {cs rest : List Char} (h : quotedTail cs = some rest) : rest <:+ cs := by
  fun_induction quotedTail cs with
  | case1 => cases h
  | case2 cs =>
    cases h
    exact suffix_cons _ _
  | case3 c cs ih => exact (ih h).trans ((suffix_cons c cs).trans (suffix_cons _ _))
  | case4 c cs => cases h
  | case5 c cs _ _ _ ih => exact (ih h).trans (suffix_cons c cs)

namespace Form.Takes

lemma digits (isDigit : Char → Bool) (multi : Bool) : Takes 0 (Numeral.grouped isDigit multi) :=
  (grouped isDigit multi).weaken (by decide)

lemma mark (marks : List Char) : Takes 0 (Numeral.oneOf marks) := (oneOf marks).weaken (by decide)

lemma radixMark (marks : List Char) : Takes 1 (radixMark marks) :=
  ((oneOf _).both (oneOf marks)).weaken (by decide)

lemma longSuffix : Takes 0 longSuffix := optional (oneOf _)

lemma decimalExponent : Takes 0 decimalExponent := (exponent _ (grouped _ _)).weaken (by decide)

lemma integer {n : Nat} (marks : List Char) (isDigit : Char → Bool) (h : n ≤ 1) :
    Takes n (Numeral.all [Numeral.radixMark marks, Numeral.grouped isDigit false,
      Numeral.longSuffix]) :=
  (all_cons (radixMark marks) (by simp [digits, longSuffix])).weaken h

lemma octalInteger : Takes 1 Numeral.octalInteger := by
  refine longest fun f hf => ?_
  rcases mem_pair.mp hf with rfl | rfl
  · exact integer _ _ (Nat.le_refl 1)
  · exact all_cons (oneOf _) (by simp [digits, longSuffix])

lemma decimalFloat : Takes 1 decimalFloat := by
  have hsuffix : Takes 0 floatSuffix := mark _
  refine longest ?_
  simp only [forall_mem_cons, not_mem_nil, false_imp_iff, implies_true, and_true]
  refine ⟨all_cons (grouped _ _) ?_, all_cons (oneOf _) ?_, all_cons wholeNumber ?_,
    all_cons wholeNumber ?_⟩ <;>
    simp [decimalDigits, optional (digits _ _), digits, mark, optional decimalExponent,
      decimalExponent, optional hsuffix, hsuffix]

lemma hexFloat : Takes 1 hexFloat := by
  have hdigits : Takes 0 hexDigits := digits _ _
  refine (radixMark _).both ((longest (n := 0) fun f hf => ?_).both
    (optional ((exponent _ wholeNumber).both (optional (mark _)))))
  rcases mem_pair.mp hf with rfl | rfl
  · exact hdigits.both (optional (mark _))
  · exact all (by simp [optional hdigits, mark, hdigits])

lemma character : Takes 1 Numeral.character := by
  intro cs rest hrest
  unfold Numeral.character at hrest
  split at hrest
  · cases hrest
  · have htail := quotedTail_suffix hrest
    exact ⟨htail.trans (suffix_cons _ _), by simpa using htail.length_le⟩
  · cases hrest

end Form.Takes

lemma takes_forms : ∀ x ∈ forms, x.2.Takes 1 := by
  simp only [forms, forall_mem_cons, not_mem_nil, false_imp_iff, implies_true, and_true]
  exact ⟨Form.Takes.wholeNumber.both .longSuffix, .integer _ _ (Nat.le_refl 1), .octalInteger,
    .integer _ _ (Nat.le_refl 1), .decimalFloat, .hexFloat, .character⟩

lemma scan_suffix {cs rest : List Char} {kind : Kind} (h : scan cs = some (kind, rest)) :
    rest <:+ cs ∧ rest.length < cs.length := by
  -- as for the longest of several forms
  refine List.foldlRecOn (motive := fun best : Option (Kind × List Char) =>
    ∀ x, best = some x → x.2 <:+ cs ∧ x.2.length < cs.length) forms _ (by simp) ?_ (kind, rest) h
  intro best hbest entry hentry x hx
  have hf : entry.2.Takes 1 := takes_forms entry hentry
  dsimp only at hx
  split at hx
  · next hmatch =>
    split at hx
    · cases hx
      exact hf cs _ hmatch
    · exact hbest x hx
  · next hmatch =>
    cases hx
    exact hf cs _ hmatch
  · exact hbest x hx

end Numeral

variable {cs rest : List Char}

namespace Lexer

lemma before_append (h : rest <:+ cs) : before cs rest ++ rest = cs := by
  obtain ⟨front, rfl⟩ := h
  simp [before]

lemma before_ne_nil (h : rest.length < cs.length) : before cs rest ≠ [] := by
  intro hnil
  have hlength := congrArg List.length hnil
  simp only [before, length_take, length_nil] at hlength
  omega

lemma blockCommentTail_suffix (h : blockCommentTail cs = some rest) : rest <:+ cs := by
  fun_induction blockCommentTail cs with
  | case1 => cases h
  | case2 rest' =>
    cases h
    exact (suffix_cons _ _).trans (suffix_cons _ _)
  | case3 c cs => cases h
  | case4 c cs _ _ ih => exact (ih h).trans (suffix_cons c cs)

lemma commentTail_suffix {kind : CommentKind}
    (h : commentTail cs = some (kind, rest)) : rest <:+ cs ∧ rest.length < cs.length := by
  have hsuffices {c c' : Char} {tail : List Char} (htail : rest <:+ tail) :
      rest <:+ c :: c' :: tail ∧ rest.length < (c :: c' :: tail).length := by
    have hlength := htail.length_le
    refine ⟨htail.trans ((suffix_cons c' tail).trans (suffix_cons c _)), ?_⟩
    simp only [length_cons]
    omega
  unfold commentTail at h
  split at h
  · cases h
    exact hsuffices (dropWhile_suffix _)
  · obtain ⟨rest', hrest, hpair⟩ := map_eq_some_iff.mp h
    cases hpair
    exact hsuffices (blockCommentTail_suffix hrest)
  · cases h

lemma looseQuoteTail_suffix (cs : List Char) : looseQuoteTail cs <:+ cs := by
  fun_induction looseQuoteTail cs with
  | case1 => exact suffix_refl _
  | case2 cs ih => exact ih.trans ((suffix_cons _ _).trans (suffix_cons _ _))
  | case3 c cs => exact suffix_refl _
  | case4 c cs _ _ ih => exact ih.trans (suffix_cons c cs)

lemma hexTail_suffix {n : Nat} (h : hexTail n cs = some rest) : rest <:+ cs := by
  fun_induction hexTail n cs with
  | case1 cs =>
    cases h
    exact suffix_refl _
  | case2 n c cs _ ih => exact (ih h).trans (suffix_cons c cs)
  | case3 | case4 => cases h

lemma octalTail_suffix (n : Nat) (cs : List Char) : octalTail n cs <:+ cs := by
  fun_induction octalTail n cs with
  | case1 n c cs _ ih => exact ih.trans (suffix_cons c cs)
  | case2 | case3 => exact suffix_refl _

lemma escapeTail_suffix (h : escapeTail cs = some rest) : rest <:+ cs := by
  unfold escapeTail at h
  split at h
  · cases h
  · exact (hexTail_suffix h).trans (suffix_cons _ _)
  · next cs =>
    split at h
    · next rest' hdrop =>
      split at h
      · cases h
        have htail : '\x7d' :: rest <:+ cs := hdrop ▸ dropWhile_suffix _
        exact (suffix_cons _ _).trans (htail.trans ((suffix_cons _ _).trans (suffix_cons _ _)))
      · cases h
    · cases h
  · exact (hexTail_suffix h).trans (suffix_cons _ _)
  · split at h
    · cases h
    · split at h
      · cases h
        exact (octalTail_suffix _ _).trans (suffix_cons _ _)
      · cases h
        exact suffix_cons _ _

end Lexer

/-- The lexeme and what is left of the text are the text, and the lexeme is not empty. -/
structure Scan.Tiles (cs : List Char) (s : Scan) : Prop where
  text : s.text ++ s.rest = cs
  proper : s.text ≠ []

namespace Scan.Tiles

variable {modes : List Mode} {kind : LexemeKind}

lemma head {s : Scan} (h : Tiles cs s) : s.text.head? = cs.head? := by
  obtain ⟨c, more, htext⟩ := exists_cons_of_ne_nil h.proper
  rw [← h.text, htext]
  rfl

lemma of_before (h : rest <:+ cs) (hlt : rest.length < cs.length) :
    Tiles cs ⟨kind, before cs rest, rest, modes⟩ :=
  ⟨before_append h, before_ne_nil hlt⟩

lemma of_take (n : Nat) (hcs : cs ≠ []) (hn : n ≠ 0) :
    Tiles cs ⟨kind, cs.take n, cs.drop n, modes⟩ :=
  ⟨take_append_drop n cs, by simp [hcs, hn]⟩

lemma of_span (c : Char) (tail : List Char) (p : Char → Bool) :
    Tiles (c :: tail) ⟨kind, c :: tail.takeWhile p, tail.dropWhile p, modes⟩ :=
  ⟨by rw [cons_append, takeWhile_append_dropWhile], cons_ne_nil _ _⟩

lemma scanMark (modes : List Mode) (hcs : cs ≠ []) : Tiles cs (Lexer.scanMark modes cs) := by
  unfold Lexer.scanMark
  split
  · exact ⟨rfl, cons_ne_nil _ _⟩
  · exact ⟨rfl, cons_ne_nil _ _⟩
  · split
    case h_1 s hs =>
      have hstart : s.isPrefixOf cs :=  find?_some (p := fun s : List Char => s.isPrefixOf cs) hs
      obtain ⟨tail, rfl⟩ := List.isPrefixOf_iff_prefix.mp hstart
      have hne : s ≠ [] := by
        have hall : ∀ s ∈ Lexer.symbols, s ≠ [] := by decide
        exact hall s (mem_of_find?_eq_some hs)
      exact ⟨by simp, hne⟩
    case h_2 => exact of_take 1 hcs (by decide)

lemma scanFragment (modes : List Mode) (hrest : rest <:+ cs) (hlt : rest.length < cs.length) :
    Tiles cs (Lexer.scanFragment modes cs rest) := by
  have hinner : cs.dropWhile Lexer.isSpace <:+ cs := dropWhile_suffix _
  unfold Lexer.scanFragment
  dsimp only
  split
  case h_1 kind after hcomment =>
    obtain ⟨hafter, hlength⟩ := Lexer.commentTail_suffix hcomment
    split
    · split
      · next hspace => exact of_before hinner hspace
      · exact of_before (hafter.trans hinner) (Nat.lt_of_lt_of_le hlength hinner.length_le)
    · exact of_before hrest hlt
  case h_2 => exact of_before hrest hlt

lemma scanQuoted (triple : Bool) (outer : List Mode) (hcs : cs ≠ []) :
    Tiles cs (Lexer.scanQuoted triple outer cs) := by
  have hcons {c : Char} {tail rest : List Char} (h : rest <:+ tail) :
      rest <:+ c :: tail ∧ rest.length < (c :: tail).length :=
    ⟨h.trans (suffix_cons c tail), Nat.lt_succ_of_le h.length_le⟩
  unfold Lexer.scanQuoted
  dsimp only
  split
  case h_1 => exact of_take 2 hcs (by decide)
  case h_2 tail _ =>
    split
    case h_1 rest _ hescape =>
      obtain ⟨htail, hlt⟩ := hcons (c := '\x5c') (Lexer.escapeTail_suffix hescape)
      exact of_before htail hlt
    case h_2 =>
      split
      · exact of_take 1 hcs (by decide)
      · obtain ⟨htail, hlt⟩ := hcons (c := '\x5c') (drop_suffix 1 tail)
        exact of_before htail hlt
    case h_3 => exact of_take 1 hcs (by decide)
  case h_3 tail =>
    split
    · exact of_take 1 hcs (by decide)
    · split
      · exact of_take 3 hcs (by decide)
      · obtain ⟨htail, hlt⟩ := hcons (c := '\x22') (Lexer.looseQuoteTail_suffix tail)
        exact of_before htail hlt
  case h_4 c tail _ hslash hquote =>
    split
    · exact of_take 1 hcs (by decide)
    · next hnul =>
      -- the first character does not end the piece, so it belongs to it
      rw [dropWhile_cons_of_pos (by simpa using ⟨⟨hquote, hslash⟩, Bool.eq_false_iff.mpr hnul⟩)]
      obtain ⟨htail, hlt⟩ := hcons (c := c) (dropWhile_suffix (l := tail) _)
      split
      · exact scanFragment _ htail hlt
      · exact of_before htail hlt
  case h_5 => exact absurd rfl hcs

lemma scanCode (modes : List Mode) (hcs : cs ≠ []) : Tiles cs (Lexer.scanCode modes cs) := by
  unfold Lexer.scanCode
  split
  case h_1 kind rest _ hcomment =>
    obtain ⟨hrest, hlt⟩ := Lexer.commentTail_suffix hcomment
    exact of_before hrest hlt
  case h_2 c tail _ =>
    split
    · exact of_span c tail _
    · split
      · exact of_span c tail _
      · split
        · split
          case h_1 kind rest hscan =>
            obtain ⟨hrest, hlt⟩ := Numeral.scan_suffix hscan
            exact of_before hrest hlt
          case h_2 => exact scanMark modes hcs
        · exact scanMark modes hcs
  case h_3 => exact absurd rfl hcs

lemma scan (modes : List Mode) (hcs : cs ≠ []) : Tiles cs (Lexer.scan modes cs) := by
  unfold Lexer.scan
  split
  · exact scanQuoted _ _ hcs
  · exact scanCode modes hcs

end Scan.Tiles

end Xref.Syntax
