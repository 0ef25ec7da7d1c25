import Mathlib.Data.List.Nodup
import Xref.Environment.Index

/-!
# Tables in which the first entry counts

An index is filled by entries that come one after the other, and an entry whose name is taken is
passed over. So a table holds the first one of each name of the entries that came, and tables of two
lists are put together by a union that prefers the first.
-/
open List Option

namespace Xref.Environment

variable {α : Type} {table : List (String × α)}

def extend (table entries : List (String × α)) : List (String × α) :=
  entries.foldl (fun table e => addFirst table e.1 e.2) table

/-- The entries of the first table, and those of the second one whose names the first has not. -/
def union (table other : List (String × α)) : List (String × α) :=
  table ++ other.filter fun e => (table.lookup e.1).isNone

section

variable (table entries : List (String × α)) (name : String) (value : α) (q : String)

@[simp] lemma extend_nil : extend table [] = table := rfl

lemma extend_cons (e : String × α) :
    extend table (e :: entries) = extend (addFirst table e.1 e.2) entries := rfl

lemma extend_append (more : List (String × α)) :
    extend table (entries ++ more) = extend (extend table entries) more :=
  List.foldl_append

variable {table name value} in
lemma addFirst_of_isSome (h : (table.lookup name).isSome) : addFirst table name value = table :=
  if_pos h

variable {table name value} in
lemma addFirst_of_eq_none (h : table.lookup name = none) :
    addFirst table name value = table ++ [(name, value)] := by
  simp [addFirst, h]

lemma lookup_cons_of_ne {q : String} {e : String × α} (h : q ≠ e.1)
    (entries : List (String × α)) : (e :: entries).lookup q = entries.lookup q := by
  obtain ⟨name, value⟩ := e
  rw [lookup_cons, beq_false_of_ne h]

lemma lookup_addFirst :
    (addFirst table name value).lookup q = (table.lookup q).or ([(name, value)].lookup q) := by
  by_cases h : (table.lookup name).isSome
  · rw [addFirst_of_isSome h]
    by_cases hq : q = name
    · subst hq
      obtain ⟨v, hv⟩ := isSome_iff_exists.1 h
      simp [hv]
    · rw [lookup_cons_of_ne hq, lookup_nil, or_none]
  · rw [addFirst_of_eq_none (not_isSome_iff_eq_none.1 h), lookup_append]

/-- What a table has under a name after more entries came: what it had, or the first that came. -/
@[simp] lemma lookup_extend :
    (extend table entries).lookup q = (table.lookup q).or (entries.lookup q) := by
  induction entries generalizing table with
  | nil => simp
  | cons e entries ih =>
    rw [extend_cons, ih, lookup_addFirst, Option.or_assoc, ← lookup_append]
    rfl

lemma extend_addFirst :
    extend table (addFirst entries name value) = addFirst (extend table entries) name value := by
  by_cases h : (entries.lookup name).isSome
  · rw [addFirst_of_isSome h, addFirst_of_isSome (by simp [isSome_or, h])]
  · rw [addFirst_of_eq_none (not_isSome_iff_eq_none.1 h), extend_append]
    rfl

lemma extend_extend (more : List (String × α)) :
    extend table (extend entries more) = extend (extend table entries) more := by
  induction more generalizing entries with
  | nil => rfl
  | cons e more ih => rw [extend_cons, ih, extend_addFirst, extend_cons]

end

lemma nodup_addFirst (h : (table.map Prod.fst).Nodup) (name : String) (value : α) :
    ((addFirst table name value).map Prod.fst).Nodup := by
  by_cases hname : (table.lookup name).isSome
  · rwa [addFirst_of_isSome hname]
  · have hnone : table.lookup name = none := not_isSome_iff_eq_none.1 hname
    rw [addFirst_of_eq_none hnone, map_append, nodup_append]
    refine ⟨h, nodup_singleton name, fun a ha b hb => ?_⟩
    obtain rfl : b = name := by simpa using hb
    obtain ⟨e, he, rfl⟩ := List.mem_map.1 ha
    exact (bne_iff_ne.1 (lookup_eq_none_iff.1 hnone e he)).symm

lemma nodup_extend (h : (table.map Prod.fst).Nodup) (entries : List (String × α)) :
    ((extend table entries).map Prod.fst).Nodup := by
  induction entries generalizing table with
  | nil => exact h
  | cons e entries ih => exact ih (nodup_addFirst h e.1 e.2)

lemma extend_eq_union (table : List (String × α)) {other : List (String × α)}
    (h : (other.map Prod.fst).Nodup) : extend table other = union table other := by
  induction other generalizing table with
  | nil => simp [union]
  | cons e other ih =>
    obtain ⟨hnew, hrest⟩ := nodup_cons.1 h
    rw [extend_cons, ih _ hrest]
    by_cases he : (table.lookup e.1).isSome
    · have hdrop : (table.lookup e.1).isNone = false := by simpa using he
      rw [addFirst_of_isSome he, union, union, filter_cons_of_neg (by simp [hdrop])]
    · have hnone : table.lookup e.1 = none := not_isSome_iff_eq_none.1 he
      have hsame : (other.filter fun x => ((table ++ [e]).lookup x.1).isNone) =
          other.filter fun x => (table.lookup x.1).isNone := by
        refine filter_congr fun x hx => ?_
        have hne : x.1 ≠ e.1 := fun heq => hnew (List.mem_map.2 ⟨x, hx, heq⟩)
        rw [lookup_append, lookup_cons_of_ne hne]
        simp
      rw [addFirst_of_eq_none hnone, union, union, hsame,
        filter_cons_of_pos (by simp [hnone]), append_assoc]
      rfl

@[simp] lemma lookup_union (table other : List (String × α)) (q : String) :
    (union table other).lookup q = (table.lookup q).or (other.lookup q) := by
  rw [union, lookup_append]
  cases hq : table.lookup q with
  | some a => rfl
  | none =>
    induction other with
    | nil => rfl
    | cons e other ih =>
      by_cases he : q = e.1
      · subst he
        rw [filter_cons_of_pos (by simp [hq])]
        obtain ⟨name, value⟩ := e
        rw [lookup_cons_self, lookup_cons_self]
      · rw [none_or] at ih ⊢
        rw [none_or] at ih ⊢
        rw [filter_cons, lookup_cons_of_ne he, ← ih]
        split
        · rw [lookup_cons_of_ne he]
        · rfl

def firsts (entries : List (String × α)) : List (String × α) := extend [] entries

@[simp] lemma lookup_firsts (entries : List (String × α)) (q : String) :
    (firsts entries).lookup q = entries.lookup q := by
  simp [firsts]

lemma nodup_firsts (entries : List (String × α)) : ((firsts entries).map Prod.fst).Nodup :=
  nodup_extend (by simp) entries

lemma firsts_append (entries more : List (String × α)) :
    firsts (entries ++ more) = union (firsts entries) (firsts more) := by
  rw [← extend_eq_union _ (nodup_firsts more), firsts, firsts, firsts, extend_append, extend_extend]
  rfl

end Xref.Environment
