import Mathlib.Data.List.Basic
import Mathlib.Data.Nat.Init
import Xref.Proofs.Files.Spelling

/-!
# Taking a file away

When a file is taken away, all other paths lead where they led, and a walk over a directory passes
the other files in the same order. What a walk no longer passes is that file, or is not found at
all: a root above the tree leads into it, but paths below such a root do not.
-/
open List Option

namespace Xref.Files

open Text

/-- The second list has lost some members that pass a test, and no others. -/
inductive Loses {α : Type} (P : α → Prop) : List α → List α → Prop where
  | nil : Loses P [] []
  | keep (a : α) {l l' : List α} (h : Loses P l l') : Loses P (a :: l) (a :: l')
  | lose {a : α} (ha : P a) {l l' : List α} (h : Loses P l l') : Loses P (a :: l) l'

namespace Loses

variable {α β : Type} {P : α → Prop} {Q : β → Prop} {l l' m m' : List α}

lemma refl (P : α → Prop) (l : List α) : Loses P l l := by
  induction l with
  | nil => exact .nil
  | cons a l ih => exact .keep a ih

lemma all (h : ∀ a ∈ l, P a) : Loses P l [] := by
  induction l with
  | nil => exact .nil
  | cons a l ih => exact .lose (h a mem_cons_self) (ih fun b hb => h b (mem_cons_of_mem _ hb))

lemma append (h : Loses P l l') (hm : Loses P m m') : Loses P (l ++ m) (l' ++ m') := by
  induction h with
  | nil => exact hm
  | keep a _ ih => exact .keep a ih
  | lose ha _ ih => exact .lose ha ih

lemma filter {keep : α → Bool} (h : ∀ a ∈ l, keep a = false → P a) : Loses P l (l.filter keep) := by
  induction l with
  | nil => exact .nil
  | cons a l ih =>
    have ih := ih fun b hb => h b (mem_cons_of_mem _ hb)
    cases ha : keep a with
    | true =>
      rw [filter_cons_of_pos ha]
      exact .keep a ih
    | false =>
      rw [filter_cons_of_neg (by simp [ha])]
      exact .lose (h a mem_cons_self ha) ih

lemma map {f : α → β} (h : Loses P l l') (hf : ∀ a ∈ l, P a → Q (f a)) :
    Loses Q (l.map f) (l'.map f) := by
  induction h with
  | nil => exact .nil
  | keep a _ ih => exact .keep (f a) (ih fun b hb => hf b (mem_cons_of_mem _ hb))
  | @lose a ha _ _ _ ih =>
    exact .lose (hf a mem_cons_self ha) (ih fun b hb => hf b (mem_cons_of_mem _ hb))

lemma flatMap {f g : α → List β} (h : Loses P l l') (hkeep : ∀ a, Loses Q (f a) (g a))
    (hlose : ∀ a, P a → ∀ b ∈ f a, Q b) : Loses Q (l.flatMap f) (l'.flatMap g) := by
  induction h with
  | nil => exact .nil
  | keep a _ ih =>
    rw [flatMap_cons, flatMap_cons]
    exact (hkeep a).append ih
  | @lose a ha _ _ _ ih =>
    rw [flatMap_cons]
    exact (all (hlose a ha)).append ih

end Loses

/-- Whether a segment of a path is the name of something in a directory. -/
def isProper (name : String) : Prop := name ≠ "" ∧ '/' ∉ name.toList ∧ FileTree.leadsUp name = false

namespace FileTree

open Path

variable {here segments dir p : List String}

variable {t : FileTree}

inductive Leads (t : FileTree) : List String → List String → List String → Entry → Prop
  | here {here : List String} {entry : Entry} (hat : t.at? here = some entry) :
      Leads t here [] here entry
  | dot {here rest place : List String} {entry : Entry} (hat : t.at? here = some .directory)
      (hrest : Leads t here rest place entry) : Leads t here ("." :: rest) place entry
  | up {here rest place : List String} {entry : Entry} (hat : t.at? here = some .directory)
      (hne : here ≠ []) (hrest : Leads t here.dropLast rest place entry) :
      Leads t here (".." :: rest) place entry
  | out {rest : List String} (hup : rest.all leadsUp) : Leads t [] (".." :: rest) [] .directory
  | down {here rest place : List String} {name : String} {entry : Entry}
      (hat : t.at? here = some .directory) (hname : leadsUp name = false)
      (hrest : Leads t (here ++ [name]) rest place entry) : Leads t here (name :: rest) place entry

lemma leads_of_follow {place : List String} {entry : Entry}
    (h : t.follow here segments = .ok (place, entry)) : t.Leads here segments place entry := by
  fun_induction follow t here segments with
  | case1 here found hat =>
    cases h
    exact .here hat
  | case5 here segment rest hat hdot ih =>
    obtain rfl := eq_of_beq hdot
    exact .dot hat (ih h)
  | case6 here segment rest hat _ hparent hin ih =>
    obtain rfl := eq_of_beq hparent
    exact .up hat (by simpa using hin) (ih h)
  | case7 here segment rest _ _ hparent hout hup =>
    obtain rfl := eq_of_beq hparent
    obtain rfl : here = [] := by simpa using hout
    cases h
    exact .out hup
  | case9 here segment rest hat hdot hparent ih =>
    exact .down hat (by simp [leadsUp, hdot, hparent]) (ih h)
  | case2 | case3 | case4 | case8 => cases h

namespace Leads

variable {place : List String} {entry : Entry}

section

variable (h : t.Leads here segments place entry)
include h

lemma follow_eq : t.follow here segments = .ok (place, entry) := by
  induction h with
  | here hat => simp [follow, hat]
  | dot hat _ ih => simp [follow, hat, ih]
  | up hat hne _ ih => simp [follow, hat, hne, ih]
  | out hup => simp [follow, at?, hup]
  | down hat hname _ ih =>
    simp only [leadsUp, Bool.or_eq_false_iff] at hname
    simp [follow, hat, hname, ih]

lemma at?_eq : t.at? place = some entry := by
  induction h with
  | here hat => exact hat
  | dot _ _ ih => exact ih
  | up _ _ _ ih | down _ _ _ ih => exact ih
  | out => rfl

lemma isProper_of_mem (hhere : ∀ n ∈ here, isProper n)
    (hsegments : ∀ s ∈ segments, s ≠ "" ∧ '/' ∉ s.toList) : ∀ n ∈ place, isProper n := by
  induction h with
  | here => exact hhere
  | dot _ _ ih => exact ih hhere (forall_mem_cons.1 hsegments).2
  | up _ _ _ ih =>
    exact ih (fun n hn => hhere n (dropLast_subset _ hn)) (forall_mem_cons.1 hsegments).2
  | out => simp
  | down _ hname _ ih =>
    obtain ⟨hs, hrest⟩ := forall_mem_cons.1 hsegments
    exact ih (forall_mem_append.2 ⟨hhere, forall_mem_singleton.2 ⟨hs.1, hs.2, hname⟩⟩) hrest

end

end Leads

variable {place names : List String} {entry : Entry} {content : Content} {path : String}

lemma isProper_of_find (h : t.find path = .ok (place, entry)) : ∀ n ∈ place, isProper n := by
  have hsegment (s : String) (hs : s ∈ segments path) : s ≠ "" ∧ '/' ∉ s.toList := by
    obtain ⟨hs, hne⟩ := mem_filter.1 hs
    obtain ⟨piece, hpiece, rfl⟩ := List.mem_map.1 hs
    refine ⟨by simpa using hne, ?_⟩
    rw [String.toList_ofList]
    exact fun hmem => by simpa using (of_mem_pieces hpiece _ hmem).2
  unfold find at h
  split at h
  · cases h
  · refine (leads_of_follow h).isProper_of_mem (by simp) (fun s hs => ?_)
    unfold steps at hs
    split at hs
    · rcases mem_append.1 hs with hs | hs
      · exact hsegment s hs
      · obtain rfl : s = "." := by simpa using hs
        decide
    · exact hsegment s hs

lemma follow_names (hnames : ∀ n ∈ names, isProper n) :
    (∃ entry, t.follow here names = .ok (here ++ names, entry)) ∨
      ∃ cause, t.follow here names = .error cause := by
  induction names generalizing here with
  | nil =>
    unfold follow
    cases t.at? here with
    | none => exact .inr ⟨_, rfl⟩
    | some entry => exact .inl ⟨entry, by rw [append_nil]⟩
  | cons name names ih =>
    obtain ⟨hname, hnames⟩ := forall_mem_cons.1 hnames
    obtain ⟨hdot, hparent⟩ := Bool.or_eq_false_iff.1 hname.2.2
    unfold follow
    split
    · exact .inr ⟨_, rfl⟩
    · exact .inr ⟨_, rfl⟩
    · simp only [hdot, hparent, Bool.false_eq_true, if_false]
      have h := @ih (here ++ [name]) hnames
      rwa [append_assoc] at h

/-- After a way to a directory names lead on from there. Above the tree they lead nowhere. -/
lemma Leads.follow_append (h : t.Leads here segments dir entry) (hne : names ≠ [])
    (hnames : ∀ n ∈ names, isProper n) :
    t.follow here (segments ++ names) = t.follow dir names ∨
      ∃ cause, t.follow here (segments ++ names) = .error cause := by
  induction h with
  | here => exact .inl rfl
  | dot hat _ ih => simpa [follow, hat] using ih
  | up hat hin _ ih => simpa [follow, hat, hin] using ih
  | @out rest hup =>
    have hnot : (rest ++ names).all leadsUp = false := by
      obtain ⟨n, hn⟩ := exists_mem_of_ne_nil names hne
      rw [all_append, Bool.and_eq_false_iff]
      refine .inr (List.all_eq_false.2 ⟨n, hn, ?_⟩)
      simp [(hnames n hn).2.2]
    exact .inr ⟨.notFound, by simp [follow, at?, -all_append, hnot]⟩
  | down hat hname _ ih =>
    simp only [leadsUp, Bool.or_eq_false_iff] at hname
    simpa [follow, hat, hname] using ih

/-- A path below a directory leads to what has these names in it, or to nothing. -/
lemma find_below {root : String} (hne : names ≠ []) (hnames : ∀ n ∈ names, isProper n)
    (h : t.find root = .ok (dir, .directory)) :
    (∃ entry, t.find (join root (joinWith "/" names)) = .ok (dir ++ names, entry)) ∨
      ∃ cause, t.find (join root (joinWith "/" names)) = .error cause := by
  have hroot : root ≠ "" := by
    rintro rfl
    cases h
  have hsplit := split_joinWith toList_slash hne fun n hn => (hnames n hn).2.1
  have hcounts (n : String) (hn : n ∈ names) : counts false n = true := by
    obtain ⟨hempty, -, hup⟩ := hnames n hn
    obtain ⟨hdot, -⟩ := Bool.or_eq_false_iff.1 hup
    simp [counts, hempty, beq_eq_false_iff_ne.1 hdot]
  have hcomponents : components (join root (joinWith "/" names)) = components root ++ names := by
    rw [components_join hroot, hsplit, filter_eq_self.2 hcounts]
  have hidle : isIdle (join root (joinWith "/" names)) = false := by
    rw [isIdle_join hroot, isIdle, hsplit]
    obtain ⟨last, hlast⟩ := isSome_iff_exists.1 (getLast?_isSome.2 hne)
    simp [hlast, hcounts last (mem_of_getLast? hlast)]
  have hdots : names.filter (· != ".") = names := by
    refine filter_eq_self.2 fun n hn => ?_
    have := hcounts n hn
    simp only [counts, Bool.false_or, Bool.and_eq_true] at this
    exact this.2
  rw [find_eq] at h
  split at h
  · next hrelative =>
    have hfollow : t.follow [] ((components root).filter (· != ".")) = .ok (dir, .directory) := by
      split at h
      · unfold demandDirectory at h
        split at h
        · cases h
        · exact h
      · exact h
    have hrelative' : isRelative (components root ++ names) = true := by
      cases hcases : components root with
      | nil => rw [hcases] at hrelative; cases hrelative
      | cons first rest => rwa [hcases] at hrelative
    rw [find_eq, hcomponents, hidle, if_pos hrelative', if_neg (by simp), filter_append, hdots]
    rcases (leads_of_follow hfollow).follow_append hne hnames with hnext | hnone
    · rw [hnext]
      exact follow_names hnames
    · exact .inr hnone
  · cases h

lemma at?_of_find (h : t.find path = .ok (place, entry)) : t.at? place = some entry := by
  unfold find at h
  split at h
  · cases h
  · exact (leads_of_follow h).at?_eq

lemma mem_of_at? (hne : place ≠ [])
    (h : t.at? place = some entry) : ∃ e ∈ t.entries, e.1 = place := by
  rw [at?, if_neg (by simpa using hne)] at h
  obtain ⟨_, _, hentries, -⟩ := lookup_eq_some_iff.1 h
  exact ⟨(place, entry), by simp [hentries], rfl⟩

lemma ne_nil_of_file (h : t.at? place = some (.file content)) : place ≠ [] := by
  rintro rfl
  cases h

lemma entries_erase (place : List String) :
    (t.erase place).entries = t.entries.filter fun e => !place.isPrefixOf e.1 := rfl

lemma at?_erase (hplace : place ≠ []) (p : List String) :
    (t.erase place).at? p = if place <+: p then none else t.at? p := by
  by_cases hp : p = []
  · subst hp
    rw [if_neg (by simpa using hplace)]
    rfl
  have hempty : p.isEmpty = false := by simpa using hp
  simp only [at?, hempty, Bool.false_eq_true, if_false, entries_erase]
  induction t.entries with
  | nil => simp
  | cons e entries ih =>
    obtain ⟨q, entry⟩ := e
    by_cases hq : place <+: q
    · rw [filter_cons_of_neg (by simpa using hq), ih]
      split
      · rfl
      · next hprefix =>
        rw [lookup_cons, beq_false_of_ne]
        rintro rfl
        exact hprefix hq
    · have hkeep : place.isPrefixOf q = false := by
        rwa [← Bool.not_eq_true, List.isPrefixOf_iff_prefix]
      rw [filter_cons_of_pos (by simp [hkeep]), lookup_cons, lookup_cons, ih]
      by_cases hpq : p = q
      · subst hpq
        simp only [beq_self_eq_true, if_neg hq]
      · rw [beq_false_of_ne hpq]

/-- What a path leads to, before and after the file at `place` was taken away. -/
inductive AfterRemoval (place : List String) (content : Content) :
    (before after : Except FileError (List String × Entry)) → Prop where
  | same (found : Except FileError (List String × Entry)) : AfterRemoval place content found found
  | lost (cause : FileError) :
    AfterRemoval place content (.ok (place, .file content)) (.error cause)
  | failed (cause cause' : FileError) : AfterRemoval place content (.error cause) (.error cause')

section

variable {place : List String} (hfile : t.at? place = some (.file content))

include hfile

lemma follow_erase (segments : List String) (hhere : ¬place <+: here) :
    AfterRemoval place content (t.follow here segments) ((t.erase place).follow here segments) := by
  have hplace := ne_nil_of_file hfile
  have hat : (t.erase place).at? here = t.at? here := by rw [at?_erase hplace, if_neg hhere]
  induction segments generalizing here with
  | nil =>
    simp only [follow, hat]
    exact .same _
  | cons s rest ih =>
    simp only [follow, hat]
    split
    · exact .same _
    · exact .same _
    · have step {next : List String} (hnext : ¬place <+: next) :=
        ih hnext (by rw [at?_erase hplace, if_neg hnext])
      split
      · exact step hhere
      · split
        · split
          · exact step fun h => hhere (h.trans (List.dropLast_prefix here))
          · exact .same _
        · by_cases hin : place <+: here ++ [s]
          · -- the file can only be met where the way ends
            obtain rfl : place = here ++ [s] := (prefix_concat_iff.1 hin).resolve_right hhere
            rw [follow_of_file hfile, follow_of_none (by rw [at?_erase hplace, if_pos hin])]
            split
            · exact .lost _
            · exact .failed _ _
          · exact step hin

lemma find_erase (path : String) :
    AfterRemoval place content (t.find path) ((t.erase place).find path) := by
  unfold find
  split
  · exact .same _
  · exact follow_erase hfile _ (by simpa using ne_nil_of_file hfile)

end

variable {n : Nat}

lemma depth_le_iff : t.depth ≤ n ↔ ∀ e ∈ t.entries, e.1.length ≤ n := by
  have hfold (l : List (List String × Entry)) (d : Nat) :
      l.foldl (fun d e => max d e.1.length) d ≤ n ↔ d ≤ n ∧ ∀ e ∈ l, e.1.length ≤ n := by
    induction l generalizing d with
    | nil => simp
    | cons e l ih => rw [foldl_cons, ih, Nat.max_le, forall_mem_cons, and_assoc]
  exact (hfold t.entries 0).trans (and_iff_right (Nat.zero_le n))

lemma depth_erase_le (place : List String) : (t.erase place).depth ≤ t.depth :=
  depth_le_iff.2 fun e he => depth_le_iff.1 (Nat.le_refl _) e (mem_of_mem_filter he)

def nameIn? (dir p : List String) : Option String :=
  if p.length == dir.length + 1 && dir.isPrefixOf p then p.getLast? else none

lemma eq_of_nameIn {name : String} (h : nameIn? dir p = some name) : p = dir ++ [name] := by
  unfold nameIn? at h
  split at h
  · next hin =>
    obtain ⟨hlength, hdir⟩ := Bool.and_eq_true_iff.1 hin
    obtain ⟨rest, rfl⟩ := List.isPrefixOf_iff_prefix.1 hdir
    obtain ⟨only, rfl⟩ : ∃ only, rest = [only] := length_eq_one_iff.1 (by simpa using hlength)
    rw [getLast?_concat] at h
    rw [some_inj.1 h]
  · cases h

def namesIn (t : FileTree) (dir : List String) : List String :=
  t.entries.filterMap fun e => nameIn? dir e.1

lemma filesBelow_succ (n : Nat) (dir : List String) : t.filesBelow (n + 1) dir =
    match t.at? dir with
    | none => []
    | some (.file _) => [dir]
    | some .directory =>
      ((t.namesIn dir).mergeSort nameBefore).flatMap fun name => t.filesBelow n (dir ++ [name]) :=
  rfl

lemma filesBelow_of_depth (h : t.depth < n + dir.length) :
    t.filesBelow (n + 1) dir = t.filesBelow n dir := by
  induction n generalizing dir with
  | zero =>
    have hdir : dir ≠ [] := by
      rintro rfl
      simp at h
    have hat : t.at? dir = none := by
      refine eq_none_iff_forall_ne_some.2 fun entry hentry => ?_
      obtain ⟨e, he, rfl⟩ := mem_of_at? hdir hentry
      have := depth_le_iff.1 (Nat.le_refl _) e he
      omega
    rw [filesBelow_succ, hat]
    rfl
  | succ n ih =>
    rw [filesBelow_succ, filesBelow_succ n]
    have hnext (name : String) : t.filesBelow (n + 1) (dir ++ [name]) =
      t.filesBelow n (dir ++ [name]) :=
      ih (by rw [length_append, length_singleton]; omega)
    simp only [hnext]

lemma filesBelow_eq_of_le {m : Nat} (h : t.depth < n + dir.length)
    (hm : n ≤ m) : t.filesBelow m dir = t.filesBelow n dir := by
  induction m, hm using Nat.le_induction with
  | base => rfl
  | succ m hm ih => rw [filesBelow_of_depth (by omega), ih]

lemma prefix_of_mem_filesBelow (h : p ∈ t.filesBelow n dir) : dir <+: p := by
  induction n generalizing dir with
  | zero => cases h
  | succ n ih =>
    rw [filesBelow_succ] at h
    split at h
    · cases h
    · obtain rfl : p = dir := by simpa using h
      exact prefix_rfl
    · obtain ⟨name, -, hp⟩ := mem_flatMap.1 h
      exact (prefix_append dir [name]).trans (ih hp)

lemma nameBefore_iff {a b : String} : nameBefore a b = true ↔ a ≤ b := by
  rw [nameBefore, Bool.not_eq_true', decide_eq_false_iff_not, String.not_lt]

lemma mergeSort_filter (keep : String → Bool) (names : List String) :
    (names.filter keep).mergeSort nameBefore = (names.mergeSort nameBefore).filter keep := by
  have hsorted (l : List String) : (l.mergeSort nameBefore).Pairwise (· ≤ ·) := by
    refine (pairwise_mergeSort (fun a b c => ?_) (fun a b => ?_) l).imp nameBefore_iff.1
    · simp only [nameBefore_iff]
      exact String.le_trans
    · simp only [Bool.or_eq_true, nameBefore_iff]
      exact String.le_total a b
  refine List.Perm.eq_of_pairwise (fun a b _ _ => String.le_antisymm) (hsorted _)
    ((hsorted names).filter keep) ?_
  exact (mergeSort_perm _ _).trans ((mergeSort_perm names nameBefore).filter keep).symm

lemma namesIn_erase (place dir : List String) : (t.erase place).namesIn dir =
    (t.namesIn dir).filter fun name => !place.isPrefixOf (dir ++ [name]) := by
  rw [namesIn, namesIn, entries_erase, filter_filterMap, filterMap_filter]
  refine filterMap_congr fun e _ => ?_
  cases hname : nameIn? dir e.1 with
  | none => simp
  | some name => rw [eq_of_nameIn hname, filter_some]

section

variable {place : List String} (hfile : t.at? place = some (.file content))

include hfile

lemma filesBelow_erase (n : Nat) (hdir : ¬place <+: dir) :
    Loses (· = place) (t.filesBelow n dir) ((t.erase place).filesBelow n dir) := by
  have hplace := ne_nil_of_file hfile
  induction n generalizing dir with
  | zero => exact .nil
  | succ n ih =>
    rw [filesBelow_succ, filesBelow_succ, at?_erase hplace, if_neg hdir]
    split
    · exact .nil
    · exact .refl _ _
    · rw [namesIn_erase, mergeSort_filter]
      have hnames : Loses (fun name => place <+: dir ++ [name])
          ((t.namesIn dir).mergeSort nameBefore)
          (((t.namesIn dir).mergeSort nameBefore).filter
            fun name => !place.isPrefixOf (dir ++ [name])) :=
        .filter fun name _ h => by simpa using h
      have hlost (name : String) (h : place <+: dir ++ [name]) :
          ∀ p ∈ t.filesBelow n (dir ++ [name]), p = place := by
        obtain rfl : place = dir ++ [name] := (prefix_concat_iff.1 h).resolve_right hdir
        cases n with
        | zero => simp [filesBelow]
        | succ n => simp [filesBelow_succ, hfile]
      refine hnames.flatMap (fun name => ?_) hlost
      by_cases h : place <+: dir ++ [name]
      · have hnone : (t.erase place).filesBelow n (dir ++ [name]) = [] := by
          cases n with
          | zero => rfl
          | succ n => rw [filesBelow_succ, at?_erase hplace, if_pos h]
        rw [hnone]
        exact .all (hlost name h)
      · exact ih h

/-- A walk no longer passes the file that was taken away. A path that is missing from the walk led
to that file or, below a root above the tree, to nothing. -/
lemma walk_erase (hproper : ∀ n ∈ place, isProper n) (root : String) :
    Loses (fun found => t.find found.1 = .ok (place, .file content) ∨ ∃ c,
      t.find found.1 = .error c)
      (t.walk root) ((t.erase place).walk root) := by
  have hplace := ne_nil_of_file hfile
  unfold walk
  generalize hbefore : t.find root = before
  generalize hafter : (t.erase place).find root = after
  cases hbefore ▸ hafter ▸ find_erase hfile root with
  | lost | failed => exact .nil
  | same =>
    match before, hbefore, hafter with
    | .error _, _, _ => exact .nil
    | .ok (_, .file _), _, _ => exact .nil
    | .ok (dir, .directory), hbefore, hafter =>
      have hdir : ¬place <+: dir := by
        intro h
        have hat := at?_of_find hafter
        rw [at?_erase hplace, if_pos h] at hat
        cases hat
      have hdepth : (t.erase place).filesBelow ((t.erase place).depth + 1) dir =
          (t.erase place).filesBelow (t.depth + 1) dir :=
        (filesBelow_eq_of_le (by omega) (Nat.succ_le_succ (depth_erase_le place))).symm
      dsimp only
      rw [hdepth]
      refine (filesBelow_erase hfile (t.depth + 1) hdir).map ?_
      rintro p hp rfl
      obtain ⟨names, rfl⟩ := prefix_of_mem_filesBelow hp
      have hne : names ≠ [] := by
        rintro rfl
        rw [append_nil] at hdir
        exact hdir prefix_rfl
      have hnames : ∀ n ∈ names, isProper n := fun n hn => hproper n (mem_append_right _ hn)
      dsimp only
      rw [drop_left]
      refine (find_below hne hnames hbefore).imp (fun ⟨entry, hentry⟩ => ?_) id
      have hat := at?_of_find hentry
      rw [hfile] at hat
      cases hat
      exact hentry

end

end FileTree

end Xref.Files
