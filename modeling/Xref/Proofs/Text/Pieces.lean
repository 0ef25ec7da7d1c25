import Mathlib.Tactic.Lemma
import Xref.Text.Split

/-!
# Pieces of texts

Splitting a text at a separator and joining parts with it undo each other, as long as the separator
is in none of the parts.
-/
open List

namespace Xref.Text

lemma pieces_eq_splitOnP (isSep : Char → Bool) (cs : List Char) :
    pieces isSep cs = cs.splitOnP isSep := by
  induction cs with
  | nil => rfl
  | cons c cs ih =>
    rw [pieces, splitOnP_cons_eq_if_modifyHead, ih]
    split
    · rfl
    · cases h : cs.splitOnP isSep with
      | nil => exact absurd h (splitOnP_ne_nil isSep cs)
      | cons p ps => rfl

lemma pieces_ne_nil (isSep : Char → Bool) (cs : List Char) : pieces isSep cs ≠ [] := by
  rw [pieces_eq_splitOnP]
  exact splitOnP_ne_nil isSep cs

variable {isSep : Char → Bool} {cs : List Char}

lemma pieces_cons_of_neg {c : Char} (hc : isSep c = false) {p : List Char} {ps : List (List Char)}
    (h : pieces isSep cs = p :: ps) : pieces isSep (c :: cs) = (c :: p) :: ps := by
  rw [pieces, if_neg (by simp [hc]), h]

variable {sep : Char}

lemma pieces_append_cons (hsep : isSep sep) (xs ys : List Char) :
    pieces isSep (xs ++ sep :: ys) = pieces isSep xs ++ pieces isSep ys := by
  simp only [pieces_eq_splitOnP, splitOnP_append_cons xs ys hsep]

lemma pieces_of_not_sep (h : ∀ c ∈ cs, isSep c = false) : pieces isSep cs = [cs] := by
  rw [pieces_eq_splitOnP, splitOnP_eq_singleton h]

lemma of_mem_pieces {piece : List Char} (h : piece ∈ pieces isSep cs) :
    ∀ c ∈ piece, c ∈ cs ∧ isSep c = false := by
  induction cs generalizing piece with
  | nil =>
    obtain rfl : piece = [] := by simpa [pieces] using h
    simp
  | cons x cs ih =>
    have hrest {piece : List Char} (h : piece ∈ pieces isSep cs) (c : Char) (hc : c ∈ piece) :
        c ∈ x :: cs ∧ isSep c = false := (ih h c hc).imp_left (mem_cons_of_mem x)
    cases hx : isSep x with
    | true =>
      rw [pieces, if_pos hx] at h
      rcases mem_cons.mp h with rfl | h
      · simp
      · exact hrest h
    | false =>
      obtain ⟨p, ps, hpieces⟩ := exists_cons_of_ne_nil (pieces_ne_nil isSep cs)
      rw [pieces_cons_of_neg hx hpieces] at h
      rcases mem_cons.mp h with rfl | h
      · exact forall_mem_cons.mpr ⟨⟨mem_cons_self, hx⟩, hrest (hpieces ▸ mem_cons_self)⟩
      · exact hrest (hpieces ▸ mem_cons_of_mem _ h)

section

variable {s : String} (hs : s.toList = [sep])

lemma split_eq (sep : Char) (text : String) :
    split sep text = (text.toList.splitOn sep).map String.ofList := by
  rw [split, pieces_eq_splitOnP, splitOn_eq_splitOnP]

lemma split_ne_nil (sep : Char) (text : String) : split sep text ≠ [] := by
  simpa [split] using pieces_ne_nil _ _

include hs

lemma split_append (a b : String) : split sep (a ++ s ++ b) = split sep a ++ split sep b := by
  rw [split, String.toList_append, String.toList_append, hs, append_assoc, singleton_append,
    pieces_append_cons (by simp), map_append]
  rfl

lemma joinWith_split (text : String) : joinWith s (split sep text) = text := by
  rw [← String.toList_inj, joinWith, String.toList_intercalate, hs, split_eq, map_map]
  simp [Function.comp_def]

lemma split_joinWith {names : List String} (hne : names ≠ []) (h : ∀ n ∈ names, sep ∉ n.toList) :
    split sep (joinWith s names) = names := by
  rw [split_eq, joinWith, String.toList_intercalate, hs, splitOn_intercalate]
  · simp [Function.comp_def]
  · exact forall_mem_map.mpr h
  · simpa using hne

end

lemma joinWith_append {s : String} {xs ys : List String} (hxs : xs ≠ []) (hys : ys ≠ []) :
    joinWith s (xs ++ ys) = joinWith s xs ++ s ++ joinWith s ys := by
  induction xs with
  | nil => exact absurd rfl hxs
  | cons x xs ih =>
    cases xs with
    | nil =>
      obtain ⟨y, ys, rfl⟩ := exists_cons_of_ne_nil hys
      rw [joinWith, joinWith, joinWith, singleton_append, String.intercalate_cons_cons,
        String.intercalate_singleton]
    | cons x' xs =>
      have hrest := ih (cons_ne_nil _ _)
      simp only [joinWith, cons_append] at hrest ⊢
      rw [String.intercalate_cons_cons, String.intercalate_cons_cons, hrest]
      simp only [String.append_assoc]

lemma cutChars_eq_some {front rest : List Char} :
    cutChars sep cs = some (front, rest) ↔ sep ∉ front ∧ cs = front ++ sep :: rest := by
  induction cs generalizing front with
  | nil => simp [cutChars]
  | cons c cs ih =>
    rw [cutChars]
    split
    next hc =>
      obtain rfl := eq_of_beq hc
      cases front with
      | nil => simp
      | cons d front => simp +contextual [eq_comm]
    next hc =>
      have hne : c ≠ sep := by simpa using hc
      cases front with
      | nil => simp [hne]
      | cons d front =>
        simp only [Option.map_eq_some_iff, Prod.exists, Prod.mk.injEq, cons.injEq,
          cons_append, mem_cons, not_or]
        constructor
        · rintro ⟨front', _, hcut, ⟨rfl, rfl⟩, rfl⟩
          obtain ⟨hfront, hcs⟩ := ih.mp hcut
          exact ⟨⟨hne.symm, hfront⟩, rfl, hcs⟩
        · rintro ⟨⟨-, hfront⟩, rfl, hcs⟩
          exact ⟨front, rest, ih.mpr ⟨hfront, hcs⟩, ⟨rfl, rfl⟩, rfl⟩

end Xref.Text
