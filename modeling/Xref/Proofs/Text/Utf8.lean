import Mathlib.Tactic.Lemma
import Xref.Text.Utf8

/-!
# Text is read back from its bytes

A character is read from the front of its bytes, whatever follows them. The cases are the numbers of
bytes that characters have.
-/
open List

namespace Xref.Text

open Utf8Pending

variable {n : Nat} {p : Utf8Pending}

lemma toNat_ofNat_of_lt (h : n < 256) : (UInt8.ofNat n).toNat = n := Nat.mod_eq_of_lt h

lemma accepts_ofNat (h : p.next.1.toNat ≤ n ∧ n ≤ p.next.2.toNat) : p.accepts (UInt8.ofNat n) := by
  have hn := toNat_ofNat_of_lt (Nat.lt_of_le_of_lt h.2 p.next.2.toNat_lt)
  simp only [accepts, Bool.and_eq_true, decide_eq_true_eq, UInt8.le_iff_toNat_le, hn]
  exact h

lemma beginUtf8_two (h : 2 ≤ n ∧ n ≤ 0x1F) :
    beginUtf8 (UInt8.ofNat (0xC0 + n)) = ([], some ⟨n, continuation, []⟩) := by
  have hn := toNat_ofNat_of_lt (show 0xC0 + n < 256 by omega)
  simp only [beginUtf8, hn, Nat.add_sub_cancel_left]
  rw [if_neg (by omega), if_pos (by simp; omega)]
  rfl

lemma beginUtf8_three (h : n ≤ 0xF) : ∃ next : UInt8 × UInt8,
    beginUtf8 (UInt8.ofNat (0xE0 + n)) = ([], some ⟨n, next, [continuation]⟩) ∧
      next.1.toNat = (if n = 0 then 0xA0 else 0x80) ∧
      next.2.toNat = (if n = 0xD then 0x9F else 0xBF) := by
  have hn := toNat_ofNat_of_lt (show 0xE0 + n < 256 by omega)
  simp only [beginUtf8, hn, Nat.add_sub_cancel_left]
  rw [if_neg (by omega), if_neg (by simp; omega)]
  by_cases hlow : n = 0
  · subst hlow
    exact ⟨(0xA0, 0xBF), rfl, rfl, rfl⟩
  · rw [if_neg (by simpa using hlow), if_neg hlow]
    by_cases hhigh : n = 0xD
    · subst hhigh
      exact ⟨(0x80, 0x9F), rfl, rfl, rfl⟩
    · have hrest : (0xE1 ≤ 0xE0 + n && 0xE0 + n ≤ 0xEF) = true := by simp; omega
      rw [if_neg (by simp; omega), if_neg hhigh, if_pos hrest]
      exact ⟨continuation, rfl, rfl, rfl⟩

lemma beginUtf8_four (h : n ≤ 4) : ∃ next : UInt8 × UInt8,
    beginUtf8 (UInt8.ofNat (0xF0 + n)) = ([], some ⟨n, next, [continuation, continuation]⟩) ∧
      next.1.toNat = (if n = 0 then 0x90 else 0x80) ∧
      next.2.toNat = (if n = 4 then 0x8F else 0xBF) := by
  obtain rfl | rfl | rfl | rfl | rfl : n = 0 ∨ n = 1 ∨ n = 2 ∨ n = 3 ∨ n = 4 := by omega
  · exact ⟨(0x90, 0xBF), rfl, rfl, rfl⟩
  · exact ⟨continuation, rfl, rfl, rfl⟩
  · exact ⟨continuation, rfl, rfl, rfl⟩
  · exact ⟨continuation, rfl, rfl, rfl⟩
  · exact ⟨(0x80, 0x8F), rfl, rfl, rfl⟩

lemma accepts_continuation {value : Nat} {later : List (UInt8 × UInt8)} (h : n < 64) :
    (mk value continuation later).accepts (UInt8.ofNat (0x80 + n)) :=
  accepts_ofNat (by constructor <;> simp [continuation] <;> omega)

lemma advance_ofNat (h : n < 64) : p.advance (UInt8.ofNat (0x80 + n)) = p.value * 64 + n := by
  have hn := toNat_ofNat_of_lt (show 0x80 + n < 256 by omega)
  have hrest : 0x80 + n - 0x80 = n := by omega
  unfold advance
  rw [hn, hrest]

section

variable {c : Char} (bs : List UInt8)

lemma readUtf8_one (h : c.toNat < 0x80) :
    readUtf8 none ([UInt8.ofNat c.toNat] ++ bs) = some c :: readUtf8 none bs := by
  have hn := toNat_ofNat_of_lt (show c.toNat < 256 by omega)
  simp [readUtf8, beginUtf8, hn, h, Char.ofNat_toNat]

lemma readUtf8_two (h : 0x80 ≤ c.toNat ∧ c.toNat < 0x800) :
    readUtf8 none ([UInt8.ofNat (0xC0 + c.toNat / 64), UInt8.ofNat (0x80 + c.toNat % 64)] ++ bs) =
      some c :: readUtf8 none bs := by
  have hlast := Nat.mod_lt c.toNat (show 0 < 64 by omega)
  simp only [cons_append, nil_append, readUtf8, beginUtf8_two (n := c.toNat / 64) (by omega),
    if_pos (accepts_continuation hlast), advance_ofNat hlast, Nat.div_add_mod', Char.ofNat_toNat]

lemma readUtf8_three (h : 0x800 ≤ c.toNat ∧ c.toNat < 0x10000) :
    readUtf8 none ([UInt8.ofNat (0xE0 + c.toNat / 4096), UInt8.ofNat (0x80 + c.toNat / 64 % 64),
      UInt8.ofNat (0x80 + c.toNat % 64)] ++ bs) = some c :: readUtf8 none bs := by
  have hvalid : c.toNat < 0xD800 ∨ 0xDFFF < c.toNat ∧ c.toNat < 0x110000 := c.valid
  have hvalue : (c.toNat / 4096 * 64 + c.toNat / 64 % 64) * 64 + c.toNat % 64 = c.toNat := by omega
  obtain ⟨next, hfirst, hlow, hhigh⟩ := beginUtf8_three (n := c.toNat / 4096) (by omega)
  have hsecond : (mk (c.toNat / 4096) next [continuation]).accepts
      (UInt8.ofNat (0x80 + c.toNat / 64 % 64)) := by
    refine accepts_ofNat ⟨?_, ?_⟩
    · rw [hlow]
      split <;> omega
    · rw [hhigh]
      split <;> omega
  have hlast (n : Nat) := Nat.mod_lt n (show 0 < 64 by omega)
  simp only [cons_append, nil_append, readUtf8, hfirst, if_pos hsecond,
    if_pos (accepts_continuation (hlast _)), advance_ofNat (hlast _), hvalue, Char.ofNat_toNat]

lemma readUtf8_four (h : 0x10000 ≤ c.toNat) :
    readUtf8 none ([UInt8.ofNat (0xF0 + c.toNat / 262144), UInt8.ofNat (0x80 + c.toNat / 4096 % 64),
      UInt8.ofNat (0x80 + c.toNat / 64 % 64), UInt8.ofNat (0x80 + c.toNat % 64)] ++ bs) =
        some c :: readUtf8 none bs := by
  have hvalid : c.toNat < 0xD800 ∨ 0xDFFF < c.toNat ∧ c.toNat < 0x110000 := c.valid
  have hvalue : ((c.toNat / 262144 * 64 + c.toNat / 4096 % 64) * 64 + c.toNat / 64 % 64) * 64 +
      c.toNat % 64 = c.toNat := by omega
  obtain ⟨next, hfirst, hlow, hhigh⟩ := beginUtf8_four (n := c.toNat / 262144) (by omega)
  have hsecond : (mk (c.toNat / 262144) next [continuation, continuation]).accepts
      (UInt8.ofNat (0x80 + c.toNat / 4096 % 64)) := by
    refine accepts_ofNat ⟨?_, ?_⟩
    · rw [hlow]
      split <;> omega
    · rw [hhigh]
      split <;> omega
  have hlast (n : Nat) := Nat.mod_lt n (show 0 < 64 by omega)
  simp only [cons_append, nil_append, readUtf8, hfirst, if_pos hsecond,
    if_pos (accepts_continuation (hlast _)), advance_ofNat (hlast _), hvalue, Char.ofNat_toNat]

lemma readUtf8_encodeChar (c : Char) :
    readUtf8 none (String.utf8EncodeChar c ++ bs) = some c :: readUtf8 none bs := by
  have hval : c.val.toNat = c.toNat := rfl
  have hvalid : c.toNat < 0xD800 ∨ 0xDFFF < c.toNat ∧ c.toNat < 0x110000 := c.valid
  simp only [String.utf8EncodeChar, hval]
  split
  next h => exact readUtf8_one bs (by omega)
  next h =>
    split
    next h' =>
      have hfirst : c.toNat / 64 % 32 + 192 = 0xC0 + c.toNat / 64 := by omega
      rw [hfirst, Nat.add_comm _ 128]
      exact readUtf8_two bs (by omega)
    next h' =>
      split
      next h'' =>
        have hfirst : c.toNat / 4096 % 16 + 224 = 0xE0 + c.toNat / 4096 := by omega
        rw [hfirst, Nat.add_comm _ 128, Nat.add_comm _ 128]
        exact readUtf8_three bs (by omega)
      next h'' =>
        have hfirst : c.toNat / 262144 % 8 + 240 = 0xF0 + c.toNat / 262144 := by omega
        rw [hfirst, Nat.add_comm _ 128, Nat.add_comm _ 128, Nat.add_comm _ 128]
        exact readUtf8_four bs (by omega)

end

lemma decodeUtf8?_encodeUtf8 (s : String) : decodeUtf8? (encodeUtf8 s) = some s := by
  have hread : ∀ cs : List Char, readUtf8 none (cs.flatMap String.utf8EncodeChar) =
    cs.map some := by
    intro cs
    induction cs with
    | nil => rfl
    | cons c cs ih => rw [flatMap_cons, readUtf8_encodeChar, ih, map_cons]
  rw [decodeUtf8?, encodeUtf8, hread]
  simp [Function.comp_def]

end Xref.Text
