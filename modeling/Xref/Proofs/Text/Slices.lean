import Mathlib.Tactic.Lemma
import Xref.Text.LineMap

/-!
# Lengths and slices of texts

The length of a text in bytes adds up over its parts. So do the numbers of characters within so many
bytes, and slices are taken from the parts that they lie in.
-/
open List String

namespace Xref.Text

variable {start stop n : Nat} {xs : List Char}

lemma byteLength_append (xs ys : List Char) :
    byteLength (xs ++ ys) = byteLength xs + byteLength ys := by
  induction xs with
  | nil => simp [byteLength]
  | cons x xs ih =>
    simp only [byteLength, cons_append, foldr_cons] at ih ⊢
    omega

lemma byteLength_cons (x : Char) (xs : List Char) :
    byteLength (x :: xs) = x.utf8Size + byteLength xs := rfl

lemma utf8ByteSize_ofList (cs : List Char) : (String.ofList cs).utf8ByteSize = byteLength cs := by
  induction cs with
  | nil => rfl
  | cons c cs ih =>
    rw [ofList_cons, utf8ByteSize_append, utf8ByteSize_singleton, ih]
    rfl

lemma charsWithin_zero (cs : List Char) : charsWithin 0 cs = 0 := by
  cases cs with
  | nil => rfl
  | cons c cs =>
    have hsize := c.utf8Size_pos
    exact if_neg (by omega)

lemma charsWithin_append_of_le (h : n ≤ byteLength xs) (ys : List Char) :
    charsWithin n (xs ++ ys) = charsWithin n xs := by
  induction xs generalizing n with
  | nil =>
    obtain rfl : n = 0 := by simpa [byteLength] using h
    rw [nil_append, charsWithin_zero, charsWithin_zero]
  | cons x xs ih =>
    rw [byteLength_cons] at h
    simp only [cons_append, charsWithin]
    split
    · rw [ih (by omega)]
    · rfl

lemma charsWithin_append_add (xs : List Char) (n : Nat) (ys : List Char) :
    charsWithin (byteLength xs + n) (xs ++ ys) = xs.length + charsWithin n ys := by
  induction xs with
  | nil => simp [byteLength]
  | cons x xs ih =>
    have hrest : x.utf8Size + byteLength xs + n - x.utf8Size = byteLength xs + n := by omega
    rw [byteLength_cons, cons_append, charsWithin, if_pos (by omega), hrest, ih, length_cons]
    omega

lemma charsWithin_mono {m : Nat} (h : m ≤ n) (cs : List Char) :
    charsWithin m cs ≤ charsWithin n cs := by
  induction cs generalizing m n with
  | nil => exact Nat.le_refl 0
  | cons c cs ih =>
    simp only [charsWithin]
    split
    · rw [if_pos (by omega)]
      exact Nat.succ_le_succ (ih (by omega))
    · exact Nat.zero_le _

lemma slice_of_le (h : stop ≤ start) (cs : List Char) : slice start stop cs = [] := by
  rw [slice, Nat.sub_eq_zero_of_le (charsWithin_mono h cs), take_zero]

lemma length_charsWithin_le (n : Nat) (cs : List Char) : charsWithin n cs ≤ cs.length := by
  induction cs generalizing n with
  | nil => exact Nat.le_refl 0
  | cons c cs ih =>
    simp only [charsWithin]
    split
    · exact Nat.succ_le_succ (ih _)
    · exact Nat.zero_le _

lemma slice_append_of_le (h : stop ≤ byteLength xs) (ys : List Char) :
    slice start stop (xs ++ ys) = slice start stop xs := by
  by_cases hle : stop ≤ start
  · rw [slice_of_le hle, slice_of_le hle]
  · have hlength := length_charsWithin_le stop xs
    have hmono := charsWithin_mono (Nat.le_of_not_le hle) xs
    simp only [slice, charsWithin_append_of_le h,
      charsWithin_append_of_le (show start ≤ byteLength xs by omega)]
    rw [drop_append_of_le_length (by omega), take_append_of_le_length]
    rw [length_drop]
    omega

lemma slice_append_add (xs : List Char) (start stop : Nat) (ys : List Char) :
    slice (byteLength xs + start) (byteLength xs + stop) (xs ++ ys) = slice start stop ys := by
  simp only [slice, charsWithin_append_add, Nat.add_sub_add_left]
  rw [← drop_drop, drop_left]

lemma slice_all (cs : List Char) : slice 0 (byteLength cs) cs = cs := by
  have hlength := charsWithin_append_add cs 0 []
  rw [append_nil, charsWithin_zero, Nat.add_zero, Nat.add_zero] at hlength
  rw [slice, charsWithin_zero, hlength, drop_zero, Nat.sub_zero, take_length]

lemma mem_slice {before after : List Char} {c : Char}
    (hstart : start ≤ byteLength before) (hstop : byteLength before + c.utf8Size ≤ stop) :
    c ∈ slice start stop (before ++ c :: after) := by
  have hfirst : charsWithin start (before ++ c :: after) ≤ before.length := by
    rw [charsWithin_append_of_le hstart]
    exact length_charsWithin_le start before
  have hlast : before.length + 1 ≤ charsWithin stop (before ++ c :: after) := by
    refine Nat.le_trans ?_ (charsWithin_mono hstop _)
    rw [charsWithin_append_add, charsWithin, if_pos (Nat.le_refl _)]
    omega
  rw [slice, drop_append_of_le_length hfirst, take_append, length_drop]
  refine mem_append_right _ ?_
  obtain ⟨n, hn⟩ := Nat.exists_eq_succ_of_ne_zero
    (show charsWithin stop (before ++ c :: after) - charsWithin start (before ++ c :: after) -
      (before.length - charsWithin start (before ++ c :: after)) ≠ 0 by omega)
  rw [hn]
  exact mem_cons_self

end Xref.Text
