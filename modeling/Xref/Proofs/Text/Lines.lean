import Xref.Proofs.Text.Pieces
import Xref.Proofs.Text.Slices

/-!
# Characters on their lines

The lines of a text are the pieces between its newlines. A line map finds for a character that is
not white space the line that it stands on and its place in that line. The character is there in the
snippet too, since only white space is cut off at the end of a line.
-/
open List Option

namespace Xref.Text

/-- The lines of a text. What follows the last newline is a line too. -/
def linesOf (cs : List Char) : List (List Char) := pieces (· == '\n') cs

/-- The number of lines of a text, where nothing after the last newline is no line. -/
def lineCount (cs : List Char) : Nat :=
  (linesOf cs).length - if (linesOf cs).getLast? = some [] then 1 else 0

lemma lt_lineCount {cs line : List Char} {n : Nat} (h : (linesOf cs)[n]? = some line)
    (hline : line ≠ []) : n < lineCount cs := by
  obtain ⟨hn, hget⟩ := List.getElem?_eq_some_iff.mp h
  unfold lineCount
  split
  next hlast =>
    -- the last line is empty, so this is another one
    have hne : n ≠ (linesOf cs).length - 1 := by
      rintro rfl
      rw [getLast?_eq_getElem?, h] at hlast
      exact hline (some.inj hlast)
    omega
  next => omega

lemma linesOf_append_cons (xs ys : List Char) :
    linesOf (xs ++ '\n' :: ys) = linesOf xs ++ linesOf ys :=
  pieces_append_cons rfl xs ys

lemma linesOf_of_not_mem {cs : List Char} (h : '\n' ∉ cs) : linesOf cs = [cs] := by
  refine pieces_of_not_sep fun c hc => beq_eq_false_iff_ne.mpr ?_
  rintro rfl
  exact h hc

lemma length_linesOf (cs : List Char) : (linesOf cs).length = cs.count '\n' + 1 := by
  induction cs with
  | nil => rfl
  | cons c cs ih =>
    rw [count_cons]
    cases hc : c == '\n' with
    | true =>
      obtain rfl := eq_of_beq hc
      rw [← nil_append ('\n' :: cs), linesOf_append_cons, length_append, ih]
      simp [linesOf, pieces, Nat.add_comm]
    | false =>
      obtain ⟨p, ps, hpieces⟩ := exists_cons_of_ne_nil (pieces_ne_nil (· == '\n') cs)
      rw [linesOf, hpieces] at ih
      rw [linesOf, @pieces_cons_of_neg (· == '\n') cs c hc p ps hpieces]
      simpa using ih

namespace LineMap

lemma newlines_append (pos : Nat) (xs ys : List Char) :
    newlines pos (xs ++ ys) = newlines pos xs ++ newlines (pos + byteLength xs) ys := by
  induction xs generalizing pos with
  | nil => rfl
  | cons x xs ih =>
    rw [cons_append, newlines, newlines, byteLength_cons]
    split
    next hx =>
      have hsize : x.utf8Size = 1 := by rw [eq_of_beq hx]; rfl
      rw [ih, hsize, Nat.add_assoc, cons_append]
    next => rw [ih, Nat.add_assoc]

variable {cs : List Char}

lemma newlines_of_not_mem (h : '\n' ∉ cs) (pos : Nat) : newlines pos cs = [] := by
  induction cs generalizing pos with
  | nil => rfl
  | cons c cs ih =>
    obtain ⟨hc, hcs⟩ : '\n' ≠ c ∧ '\n' ∉ cs := by simpa using h
    rw [newlines, if_neg (by simpa using hc.symm), ih hcs]

lemma newlines_range {pos n : Nat} (h : n ∈ newlines pos cs) :
    pos < n ∧ n ≤ pos + byteLength cs := by
  induction cs generalizing pos with
  | nil => cases h
  | cons c cs ih =>
    have hsize := c.utf8Size_pos
    rw [newlines] at h
    rw [byteLength_cons]
    split at h
    next hc =>
      rcases mem_cons.mp h with rfl | h
      · omega
      · have hrest := ih h
        omega
    next =>
      have hrest := ih h
      omega

lemma length_newlines (pos : Nat) (cs : List Char) : (newlines pos cs).length = cs.count '\n' := by
  induction cs generalizing pos with
  | nil => rfl
  | cons c cs ih =>
    rw [newlines, count_cons]
    split
    · rw [length_cons, ih]
    · rw [ih, Nat.add_zero]

end LineMap

structure IsLine (front line rest : List Char) : Prop where
  plain : '\n' ∉ line
  front : front = [] ∨ ∃ xs, front = xs ++ ['\n']
  rest : rest = [] ∨ ∃ xs, rest = '\n' :: xs

lemma exists_isLine (before : List Char) {part : List Char} (hpart : '\n' ∉ part)
    (after : List Char) : ∃ front head tail rest, before = front ++ head ∧ after = tail ++ rest ∧
      IsLine front (head ++ part ++ tail) rest := by
  have hfront : ∃ front head, before = front ++ head ∧ '\n' ∉ head ∧
      (front = [] ∨ ∃ xs, front = xs ++ ['\n']) := by
    induction before with
    | nil => exact ⟨[], [], rfl, by simp, .inl rfl⟩
    | cons c before ih =>
      obtain ⟨front, head, rfl, hhead, hfront⟩ := ih
      rcases hfront with rfl | ⟨xs, rfl⟩
      · by_cases hc : c = '\n'
        · exact ⟨[c], head, rfl, hhead, .inr ⟨[], by rw [hc]; rfl⟩⟩
        · exact ⟨[], c :: head, rfl, by simpa [Ne.symm hc] using hhead, .inl rfl⟩
      · exact ⟨c :: (xs ++ ['\n']), head, rfl, hhead, .inr ⟨c :: xs, rfl⟩⟩
  have hrest : ∃ tail rest, after = tail ++ rest ∧ '\n' ∉ tail ∧
      (rest = [] ∨ ∃ xs, rest = '\n' :: xs) := by
    induction after with
    | nil => exact ⟨[], [], rfl, by simp, .inl rfl⟩
    | cons c after ih =>
      by_cases hc : c = '\n'
      · exact ⟨[], c :: after, rfl, by simp, .inr ⟨after, by rw [hc]⟩⟩
      · obtain ⟨tail, rest, rfl, htail, hrest⟩ := ih
        exact ⟨c :: tail, rest, rfl, by simpa [Ne.symm hc] using htail, hrest⟩
  obtain ⟨front, head, hbefore, hhead, hfront⟩ := hfront
  obtain ⟨tail, rest, hafter, htail, hrest⟩ := hrest
  exact ⟨front, head, tail, rest, hbefore, hafter, by simp [hhead, hpart, htail], hfront, hrest⟩

namespace IsLine

open LineMap

variable {front line rest : List Char}

section

variable (h : IsLine front line rest)
include h

lemma linesOf_getElem? : (linesOf (front ++ line ++ rest))[front.count '\n']? = some line := by
  have hline : (linesOf (line ++ rest))[0]? = some line := by
    have hplain := linesOf_of_not_mem h.plain
    rcases h.rest with rfl | ⟨xs, rfl⟩
    · rw [append_nil, hplain]
      rfl
    · rw [linesOf_append_cons, hplain]
      rfl
  rcases h.front with rfl | ⟨xs, rfl⟩
  · exact hline
  · have hlength : (linesOf xs).length = (xs ++ ['\n']).count '\n' := by
      rw [length_linesOf, count_append]
      rfl
    rw [append_assoc, append_assoc, singleton_append, linesOf_append_cons, ← hlength,
      getElem?_append_right (Nat.le_refl _), Nat.sub_self]
    exact hline

lemma starts : (ofChars (front ++ line ++ rest)).starts =
    (0 :: newlines 0 front) ++ newlines (byteLength (front ++ line)) rest := by
  rw [ofChars, newlines_append, newlines_append, newlines_of_not_mem h.plain, append_nil,
    Nat.zero_add]
  rfl

lemma starts_getElem? :
    (ofChars (front ++ line ++ rest)).starts[front.count '\n']? = some (byteLength front) := by
  have hlength : (0 :: newlines 0 front).length = front.count '\n' + 1 := by
    rw [length_cons, length_newlines]
  rw [h.starts, getElem?_append_left (by omega)]
  rcases h.front with rfl | ⟨xs, rfl⟩
  · rfl
  · have hnewlines : newlines 0 (xs ++ ['\n']) = newlines 0 xs ++ [byteLength (xs ++ ['\n'])] := by
      rw [newlines_append, byteLength_append, Nat.zero_add]
      rfl
    rw [hnewlines, count_append, ← cons_append, getElem?_append_right]
    · simp [length_newlines]
    · simp [length_newlines]

lemma starts_next : (ofChars (front ++ line ++ rest)).starts[front.count '\n' + 1]? =
    if rest = [] then none else some (byteLength (front ++ line) + 1) := by
  have hlength : (0 :: newlines 0 front).length = front.count '\n' + 1 := by
    rw [length_cons, length_newlines]
  rw [h.starts, getElem?_append_right (by omega), hlength, Nat.sub_self]
  rcases h.rest with rfl | ⟨xs, rfl⟩
  · rfl
  · rfl

lemma lineIndex {n : Nat} (hn : n ≤ byteLength line ∨ rest = []) :
    (ofChars (front ++ line ++ rest)).lineIndex (byteLength front + n) = front.count '\n' := by
  have hfirst : (0 :: newlines 0 front).countP (· ≤ byteLength front + n) =
      front.count '\n' + 1 := by
    rw [countP_eq_length.mpr, length_cons, length_newlines]
    intro x hx
    rcases mem_cons.mp hx with rfl | hx
    · simp
    · have hrange := newlines_range hx
      simp only [decide_eq_true_eq]
      omega
  have hlast : (newlines (byteLength (front ++ line)) rest).countP (· ≤ byteLength front + n) =
    0 := by
    refine countP_eq_zero.mpr fun x hx => ?_
    rcases hn with hn | rfl
    · have hrange := newlines_range hx
      rw [byteLength_append] at hrange
      simp only [decide_eq_true_eq]
      omega
    · cases hx
  rw [LineMap.lineIndex, h.starts, countP_append, hfirst, hlast]
  rfl

end

lemma charsWithin_front (ys : List Char) :
    charsWithin (byteLength front) (front ++ ys) = front.length := by
  have hadd := charsWithin_append_add front 0 ys
  rwa [charsWithin_zero, Nat.add_zero] at hadd

lemma snippet (h : IsLine front line rest) :
    (ofChars (front ++ line ++ rest)).snippet (front.count '\n' + 1) =
      String.ofList (trimEndChars line) := by
  rw [LineMap.snippet, Nat.add_sub_cancel, h.starts_getElem?, h.starts_next]
  rcases h.rest with rfl | ⟨xs, rfl⟩
  · rw [if_pos rfl]
    dsimp only [ofChars]
    rw [append_nil, charsWithin_front, drop_left]
  · -- the newline at the end is cut off again
    have hslice : slice (byteLength front) (byteLength (front ++ line) + 1)
        (front ++ line ++ '\n' :: xs) = line ++ ['\n'] := by
      have hadd := slice_append_add front 0 (byteLength line + 1) (line ++ '\n' :: xs)
      rw [Nat.add_zero, ← Nat.add_assoc, ← byteLength_append, ← append_assoc] at hadd
      rw [hadd, slice, charsWithin_zero, charsWithin_append_add, drop_zero, Nat.sub_zero,
        take_append, take_of_length_le (Nat.le_add_right _ _), Nat.add_sub_cancel_left]
      have hsize : '\n'.utf8Size = 1 := rfl
      simp [charsWithin, hsize, charsWithin_zero]
    have htrim : trimEndChars (line ++ ['\n']) = trimEndChars line := by
      rw [trimEndChars, reverse_append]
      rfl
    rw [if_neg (by simp)]
    dsimp only [ofChars]
    rw [hslice, htrim]

end IsLine

lemma getElem?_trimEndChars {head tail : List Char} {c : Char} (hc : isBlank c = false) :
    (trimEndChars (head ++ c :: tail))[head.length]? = some c := by
  have htrim : trimEndChars (head ++ c :: tail) = head ++ c :: trimEndChars tail := by
    rw [trimEndChars, reverse_append, reverse_cons, append_assoc, dropWhile_append]
    split
    next hempty =>
      have hnil : trimEndChars tail = [] := by
        rw [trimEndChars, List.isEmpty_iff.mp hempty]
        rfl
      rw [singleton_append, dropWhile_cons_of_neg (by simp [hc]), hnil]
      simp
    next => simp [trimEndChars]
  rw [htrim]
  simp

lemma IsLine.span {front line rest : List Char} (h : IsLine front line rest) {n : Nat}
    (hn : n ≤ byteLength line ∨ rest = []) (stop : Nat) :
    (LineMap.ofChars (front ++ line ++ rest)).span (byteLength front + n) stop =
      { line := front.count '\n' + 1
        column := charsWithin n (line ++ rest)
        length := max 1 (charsWithin stop (front ++ line ++ rest) -
          (front.length + charsWithin n (line ++ rest))) } := by
  rw [LineMap.span, h.lineIndex hn, getD_eq_getElem?_getD, h.starts_getElem?]
  dsimp only [getD_some]
  rw [show (LineMap.ofChars (front ++ line ++ rest)).chars = front ++ line ++ rest from rfl,
    append_assoc, charsWithin_append_add, IsLine.charsWithin_front, Nat.add_sub_cancel_left]

lemma span_of_isLine {front head part tail rest : List Char}
    (h : IsLine front (head ++ part ++ tail) rest) (stop : Nat) :
    (LineMap.ofChars (front ++ (head ++ part ++ tail) ++ rest)).span
    (byteLength (front ++ head)) stop =
      { line := front.count '\n' + 1
        column := head.length
        length := max 1 (charsWithin stop (front ++ (head ++ part ++ tail) ++ rest) -
          (front ++ head).length) } := by
  have hspan := h.span (n := byteLength head) (.inl (by
    rw [byteLength_append, byteLength_append]
    omega)) stop
  have hhead : charsWithin (byteLength head) (head ++ part ++ tail ++ rest) = head.length := by
    rw [append_assoc, append_assoc]
    exact IsLine.charsWithin_front _
  rwa [← byteLength_append, hhead, ← length_append] at hspan

end Xref.Text
