import Xref.Environment.Basic
import Xref.Proofs.Resolve.Candidates
import Xref.Proofs.Text.Pieces

/-!
# Names with dots for member types

A member type can be written with dots, as if the types around it were packages. Longer packages are
tried first, so the name means the type whose package is the longest one that leads to a type at
all. From there on the own members of each type come before those that it inherits.
-/
open List

namespace Xref.Resolve

open Java Text

/-- A type in a package, or a member of it, with `mark` in front of each member's name. -/
def memberName (mark package simple : String) (members : List String) : String :=
  members.foldl (fun name member => name ++ mark ++ member) (qualify package simple)

def hasBlank (s : String) : Bool := s.toList.any isBlank

/-- The index has the type and the members one in another, and none of the names that write a dot
for a member. -/
structure IsNest (index : TypeIndex) (package simple : String) (members : List String) : Prop where
  undotted : ∀ s ∈ simple :: members, '.' ∉ s.toList
  named : qualify package simple ≠ "" ∨ members = []
  binary : ∀ inner, inner <+: members → index.contains (memberName "$" package simple inner)
  dotted : ∀ inner, inner <+: members → inner ≠ [] →
    index.contains (memberName "." package simple inner) = false

variable {package simple : String} {members : List String}

section

variable {s : String}

lemma split_of_not_mem (h : '.' ∉ s.toList) : split '.' s = [s] := by
  have hsplit : split '.' (joinWith "." [s]) = [s] :=
    split_joinWith rfl (by simp) (by simpa using h)
  rwa [joinWith, String.intercalate_singleton] at hsplit

/-- The package of a name in segments. The default package has none. -/
def packageSegments (package : String) : List String :=
  if package.isEmpty then [] else split '.' package

lemma joinWith_packageSegments (package : String) :
    joinWith "." (packageSegments package) = package := by
  unfold packageSegments
  split
  next h => exact (String.isEmpty_iff.mp h).symm
  next => exact joinWith_split rfl package

lemma split_memberName (h : ∀ s ∈ simple :: members, '.' ∉ s.toList) :
    split '.' (memberName "." package simple members) =
      packageSegments package ++ simple :: members := by
  induction members using reverseRecOn with
  | nil =>
    dsimp only [memberName, foldl_nil]
    unfold qualify packageSegments
    split
    · exact split_of_not_mem (h simple mem_cons_self)
    · rw [split_append rfl, split_of_not_mem (h simple mem_cons_self)]
  | append_singleton members s ih =>
    rw [← cons_append] at h
    obtain ⟨hmembers, hs⟩ := forall_mem_append.mp h
    have hsplit := ih hmembers
    rw [memberName, foldl_append, foldl_cons, foldl_nil, split_append rfl,
      split_of_not_mem (hs s mem_cons_self)]
    rw [memberName] at hsplit
    rw [hsplit, append_assoc, cons_append]

lemma memberName_ne_empty {mark : String} (h : qualify package simple ≠ "") :
    memberName mark package simple members ≠ "" := by
  induction members using reverseRecOn with
  | nil => exact h
  | append_singleton members s ih =>
    rw [memberName, foldl_append]
    exact fun hempty =>
      ih (String.append_eq_empty_iff.mp (String.append_eq_empty_iff.mp hempty).1).1

lemma trim_of_not_blank (h : hasBlank s = false) : trim s = s := by
  have hall (cs : List Char) (hcs : ∀ c ∈ cs, isBlank c = false) : cs.dropWhile isBlank = cs := by
    cases cs with
    | nil => rfl
    | cons c cs => rw [dropWhile_cons_of_neg (by simp [hcs c mem_cons_self])]
  have hs : ∀ c ∈ s.toList, isBlank c = false := by simpa [hasBlank] using h
  rw [trim, trimChars, trimEndChars, hall _ hs, hall _ (by simpa using hs), reverse_reverse,
    String.ofList_toList]

lemma map_trim_split (h : hasBlank s = false) : (split '.' s).map trim = split '.' s := by
  refine (map_congr_left fun part hpart => trim_of_not_blank ?_).trans (map_id _)
  obtain ⟨piece, hpiece, rfl⟩ := mem_map.mp hpart
  have hs : ∀ c ∈ s.toList, isBlank c = false := by simpa [hasBlank] using h
  simpa [hasBlank] using fun c hc => hs c (of_mem_pieces hpiece c hc).1

lemma exists_qualify {q : String} (h : ∀ s : String, '.' ∉ s.toList → q ≠ "." ++ s) :
    ∃ package simple, '.' ∉ simple.toList ∧ q = qualify package simple := by
  by_cases hdot : '.' ∈ q.toList
  · obtain ⟨simple, package, hq, hsimple⟩ := eq_append_cons_of_mem (mem_reverse.mpr hdot)
    have hq : q = String.ofList package.reverse ++ "." ++ String.ofList simple.reverse := by
      rw [← String.toList_inj]
      simpa using congrArg reverse hq
    have hsimple : '.' ∉ (String.ofList simple.reverse).toList := by simpa using hsimple
    have hpackage : ¬(String.ofList package.reverse).isEmpty := fun hempty =>
      h _ hsimple (by rw [hq, String.isEmpty_iff.mp hempty, String.empty_append])
    exact ⟨_, _, hsimple, by rw [qualify, if_neg hpackage, hq]⟩
  · exact ⟨"", q, hdot, rfl⟩

end

section

variable {α : Type} {index : TypeIndex}

lemma firstSome_range {f : Nat → Query (Option α)} {i : Nat} (more : Nat)
    (h : ∀ k, k < more → f (i + 1 + k) = pure none) :
    Query.firstSome f (range (i + 1 + more)).reverse =
      Query.firstSome f (range (i + 1)).reverse := by
  induction more with
  | zero => rfl
  | succ more ih =>
    rw [← Nat.add_assoc, range_succ, reverse_append, reverse_singleton, singleton_append,
      Query.firstSome, h more (Nat.lt_succ_self more)]
    exact ih fun k hk => h k (Nat.lt_succ_of_lt hk)

/-- A type comes first in its own lineage, so its own member is found. -/
lemma yields_findMemberType {owner : String} (h : index.contains (owner ++ "$" ++ simple)) :
    Yields (· = some (owner ++ "$" ++ simple))
      (findMemberType index index.lineage owner simple) := by
  intro m
  obtain ⟨rest, hrest⟩ := exists_lineage index owner m
  change ((index.lineage owner m).1.map fun t => t ++ "$" ++ simple).find? index.contains = _
  rw [hrest, map_cons, find?_cons_of_pos h]

lemma yields_walkMemberTypes {head : String}
    (h : ∀ inner, inner <+: members → inner ≠ [] →
      index.contains (inner.foldl (fun name member => name ++ "$" ++ member) head)) :
    Yields (· = some (members.foldl (fun name member => name ++ "$" ++ member) head))
      (walkMemberTypes index index.lineage head members) := by
  induction members generalizing head with
  | nil => exact .pure rfl
  | cons member members ih =>
    refine .bind (yields_findMemberType (h [member] ⟨members, rfl⟩ (by simp))) ?_
    rintro _ rfl
    exact ih fun inner hinner _ =>
      h (member :: inner) (cons_prefix_cons.mpr ⟨rfl, hinner⟩) (by simp)

/-- The search along the segments of a name: the longer packages are no types, and the right one
leads to the type and on to its members. -/
lemma IsNest.yields (h : IsNest index package simple members) :
    Yields (· = some (memberName "$" package simple members)) (resolveSegments index index.lineage
      (packageSegments package ++ simple :: members)) := by
  have hlength : (packageSegments package ++ simple :: members).length =
      (packageSegments package).length + 1 + members.length := by
    rw [length_append, length_cons, Nat.add_right_comm, Nat.add_assoc]
  rw [resolveSegments, hlength, firstSome_range]
  · have hhead : index.contains (qualify package simple) := h.binary [] nil_prefix
    rw [range_succ, reverse_append, reverse_singleton, singleton_append, Query.firstSome]
    simp only [drop_left, take_left, joinWith_packageSegments]
    rw [if_pos hhead]
    refine .bind (yields_walkMemberTypes fun inner hinner _ => h.binary inner hinner) ?_
    rintro _ rfl
    exact .pure rfl
  · -- a longer package, with the first `k` members in it
    intro k hk
    obtain ⟨s, rest, hrest⟩ : ∃ s rest, members.drop k = s :: rest :=
      exists_cons_of_ne_nil (by simpa using hk)
    have hnext : members.take (k + 1) = members.take k ++ [s] := by
      rw [take_add_one, ← head?_drop, hrest]
      rfl
    have htake : (packageSegments package ++ simple :: members).take
        ((packageSegments package).length + 1 + k) =
          packageSegments package ++ simple :: members.take k := by
      rw [Nat.add_assoc, take_length_add_append, Nat.add_comm 1 k, take_succ_cons]
    have hdrop : (packageSegments package ++ simple :: members).drop
        ((packageSegments package).length + 1 + k) = s :: rest := by
      rw [Nat.add_assoc, drop_length_add_append, Nat.add_comm 1 k, drop_succ_cons, hrest]
    have hjoined : joinWith "." (packageSegments package ++ simple :: members.take k) =
        memberName "." package simple (members.take k) := by
      rw [← split_memberName, joinWith_split rfl]
      exact fun t ht => h.undotted t (cons_subset_cons _ (take_subset _ _) ht)
    have hhead : qualify (memberName "." package simple (members.take k)) s =
        memberName "." package simple (members.take (k + 1)) := by
      have htop := h.named.resolve_right fun hnil => by simp [hnil] at hk
      rw [qualify, if_neg (by simpa using memberName_ne_empty htop), hnext, memberName, memberName,
        foldl_append, foldl_cons, foldl_nil]
    rw [htake, hdrop, hjoined]
    dsimp only
    rw [hhead, h.dotted _ (List.take_prefix _ _) (by simp [hnext])]
    rfl

end

/-- A member type is found by its name with dots, if no longer part of the name is a type, and each
type by its own name. A name that begins with its only dot is taken for one without a package. -/
theorem resolveFull_canonical (index : TypeIndex) :
    (∀ package simple members, IsNest index package simple members →
      hasBlank (memberName "." package simple members) = false →
      ∀ m, (index.resolveFull (memberName "." package simple members) m).1 =
        some (memberName "$" package simple members)) ∧
    ∀ q, index.contains q → hasBlank q = false → (∀ s : String, '.' ∉ s.toList → q ≠ "." ++ s) →
      ∀ m, (index.resolveFull q m).1 = some q := by
  have hmember (package simple : String) (members : List String)
      (hnest : IsNest index package simple members)
      (hblank : hasBlank (memberName "." package simple members) = false) (m : Memory) :
      (index.resolveFull (memberName "." package simple members) m).1 =
        some (memberName "$" package simple members) := by
    rw [TypeIndex.resolveFull, resolveQualified, map_trim_split hblank,
      split_memberName hnest.undotted]
    exact hnest.yields m
  refine ⟨hmember, fun q hq hblank hdot m => ?_⟩
  -- a name cut at its last dot is a type with no members
  obtain ⟨package, simple, hsimple, rfl⟩ := exists_qualify hdot
  refine hmember package simple [] ⟨by simpa using hsimple, .inr rfl, fun inner hinner => ?_,
    fun inner hinner hne => absurd (prefix_nil.mp hinner) hne⟩ hblank m
  rwa [prefix_nil.mp hinner]

theorem resolveFull_canonical_of_members :
    let index := TypeIndex.ofTypes (["a.A", "a.A$B", "a.A$B$C"].map fun q =>
      { (default : TypeInfo) with name := q })
    (index.resolveFull "a.A.B.C" {}).1 = some "a.A$B$C" ∧
      (index.resolveFull "a.A$B" {}).1 = some "a.A$B" := by
  intro index
  have hnest : IsNest index "a" "A" ["B", "C"] := by
    refine ⟨by decide, by decide, ?_, ?_⟩ <;> simp only [← mem_inits] <;> decide +kernel
  have hdot (s : String) (hs : '.' ∉ s.toList) : "a.A$B" ≠ "." ++ s :=
    fun hname => by simpa using congrArg (fun q => q.toList.head?) hname
  exact ⟨(resolveFull_canonical index).1 _ _ _ hnest (by decide) {},
    (resolveFull_canonical index).2 _ (by decide +kernel) (by decide) hdot {}⟩

theorem resolveFull_canonical_of_dot :
    let files : Files.FileTree := ⟨[(["l.zip"], .file (.archive [("/A.class", [0])]))]⟩
    let index := (Environment.build .default files ["l.zip"] []).index files
    index.contains ".A" ∧ hasBlank ".A" = false ∧ (index.resolveFull ".A" {}).1 = none := by
  decide +kernel

end Xref.Resolve
