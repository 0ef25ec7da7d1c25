import Mathlib.Tactic.Lemma
/-!
# Lookup in tables

Of entries with the same key the first one counts.
-/
open List Option

namespace Xref

variable {κ α : Type} [BEq κ] [LawfulBEq κ] {k : κ} {table : List (κ × α)}

lemma mem_of_lookup {a : α} (h : table.lookup k = some a) : (k, a) ∈ table := by
  obtain ⟨front, back, rfl, _⟩ := lookup_eq_some_iff.1 h
  simp

lemma isSome_lookup_iff : (table.lookup k).isSome ↔ ∃ a, (k, a) ∈ table := by
  constructor
  · intro h
    obtain ⟨a, ha⟩ := isSome_iff_exists.1 h
    exact ⟨a, mem_of_lookup ha⟩
  · rintro ⟨a, ha⟩
    exact lookup_isSome_iff.2 ⟨(k, a), ha, beq_self_eq_true k⟩

lemma isSome_lookup_iff_mem_keys : (table.lookup k).isSome ↔ k ∈ table.map Prod.fst := by simp

lemma lookup_replace (key k : κ) (a : α) (table : List (κ × α)) :
    (table.map fun (x, b) => if x == key then (x, a) else (x, b)).lookup k =
      if k == key then (table.lookup k).map fun _ => a else table.lookup k := by
  induction table with
  | nil => cases k == key <;> rfl
  | cons e table ih =>
    obtain ⟨x, b⟩ := e
    have hhead : (if x == key then (x, a) else (x, b)) = (x, if x == key then a else b) := by
      split <;> rfl
    rw [map_cons]
    dsimp only
    rw [hhead, lookup_cons, lookup_cons, ih]
    cases hk : k == x with
    | false => rfl
    | true =>
      obtain rfl := eq_of_beq hk
      dsimp only
      split <;> rfl

lemma lookup_put (key k : κ) (a : α) (table : List (κ × α)) :
    (if (table.lookup key).isSome then
        table.map fun (x, b) => if x == key then (x, a) else (x, b)
      else table ++ [(key, a)]).lookup k = if k == key then some a else table.lookup k := by
  split
  · next hsome =>
    rw [lookup_replace]
    split
    · next hk =>
      rw [← eq_of_beq hk] at hsome
      obtain ⟨old, hold⟩ := isSome_iff_exists.1 hsome
      rw [hold, map_some]
    · rfl
  · next hnone =>
    rw [lookup_append, lookup_cons]
    cases hk : k == key with
    | false => simp
    | true =>
      rw [← eq_of_beq hk] at hnone
      simp only [Bool.not_eq_true, isSome_eq_false_iff, isNone_iff_eq_none] at hnone
      rw [hnone]
      rfl

end Xref
