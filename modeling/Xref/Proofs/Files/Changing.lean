import Xref.Proofs.Files.Removal
import Xref.Proofs.Lookup

/-!
# Writing and renaming files

A file that is written is found under its path, and so is one that is given another path. All other
files are found as before. The reason is that no directory on a way through the tree is touched, so
that each way leads where it led.
-/
open List Option

namespace Xref.Files.FileTree

open Text

variable {place here other : List String} {entry entry' : Entry}
  {path source target : String} {content : Content}

variable {t t' t'' : FileTree} {bs : List UInt8}

lemma at?_put (hplace : place ≠ []) (entry : Entry) (p : List String) :
    (t.put place entry).at? p = if p = place then some entry else t.at? p := by
  by_cases hp : p = []
  · subst hp
    rw [if_neg hplace.symm]
    rfl
  have hempty : p.isEmpty = false := by simpa using hp
  have hlookup : (t.put place entry).entries.lookup p =
      if p == place then some entry else t.entries.lookup p := by
    rw [← lookup_put, put, apply_ite FileTree.entries]
  simp only [at?, hempty, Bool.false_eq_true, if_false, hlookup, beq_iff_eq]

def Linked (t : FileTree) (place : List String) : Prop :=
  ∀ around, around <+: place → around ≠ place → t.at? around = some .directory

lemma linked_nil : t.Linked [] := fun _ hinitial hne => absurd (prefix_nil.mp hinitial) hne

lemma Linked.below (h : t.Linked here) (hdirectory : t.at? here = some .directory)
    (name : String) : t.Linked (here ++ [name]) := by
  intro around hinitial hne
  rcases prefix_concat_iff.mp hinitial with heq | hinitial
  · exact absurd heq hne
  · by_cases heq : around = here
    · rw [heq, hdirectory]
    · exact h around hinitial heq

lemma Linked.of_prefix {around : List String} (h : t.Linked here) (hinitial : around <+: here) :
    t.Linked around := by
  intro p hp hne
  refine h p (hp.trans hinitial) fun heq => hne ?_
  subst heq
  exact (List.IsPrefix.eq_of_length_le hp hinitial.length_le)

lemma Linked.above (h : t.Linked here) (hne : here ≠ []) :
    t.at? here.dropLast = some .directory := by
  refine h _ (List.dropLast_prefix here) fun heq => ?_
  have hlength := congrArg List.length heq
  rw [length_dropLast] at hlength
  have hpos := length_pos_iff.mpr hne
  omega

lemma Leads.linked {segments : List String} (h : t.Leads here segments place entry)
    (hhere : t.Linked here) : t.Linked place := by
  induction h with
  | here => exact hhere
  | dot _ _ ih => exact ih hhere
  | up _ _ _ ih => exact ih (hhere.of_prefix (List.dropLast_prefix _))
  | out => exact linked_nil
  | down hat _ _ ih => exact ih (hhere.below hat _)

lemma linked_of_find (h : t.find path = .ok (place, entry)) : t.Linked place := by
  unfold find at h
  split at h
  · cases h
  · exact (leads_of_follow h).linked linked_nil

def Keeps (t t' : FileTree) : Prop :=
  ∀ place, t.Linked place → t.at? place = some .directory → t'.at? place = some .directory

lemma Keeps.linked (h : t.Keeps t') (hplace : t.Linked place) : t'.Linked place :=
  fun around hinitial hne => h around (hplace.of_prefix hinitial) (hplace around hinitial hne)

lemma Keeps.trans (h : t.Keeps t') (h' : t'.Keeps t'') : t.Keeps t'' :=
  fun place hplace hdirectory => h' place (h.linked hplace) (h place hplace hdirectory)

lemma Keeps.leads (h : t.Keeps t') {segments : List String} (hhere : t.Linked here)
    (hleads : t.Leads here segments place entry) (hat : t'.at? place = some entry') :
    t'.Leads here segments place entry' := by
  induction hleads with
  | here => exact .here hat
  | dot hdirectory _ ih => exact .dot (h _ hhere hdirectory) (ih hhere hat)
  | up hdirectory hne _ ih =>
    exact .up (h _ hhere hdirectory) hne (ih (hhere.of_prefix (List.dropLast_prefix _)) hat)
  | out hup =>
    cases hat
    exact .out hup
  | down hdirectory hname _ ih =>
    exact .down (h _ hhere hdirectory) hname (ih (hhere.below hdirectory _) hat)

lemma Keeps.find (h : t.Keeps t') (hfind : t.find path = .ok (place, entry))
    (hat : t'.at? place = some entry') : t'.find path = .ok (place, entry') := by
  unfold FileTree.find at hfind ⊢
  split at hfind
  · cases hfind
  · next hpath =>
    rw [if_neg hpath]
    exact (h.leads linked_nil (leads_of_follow hfind) hat).follow_eq

/-- Inside of the tree a way goes on from where its first part leads. -/
lemma Leads.follow_inside {segments more dir : List String} (h : t.Leads here segments dir entry)
    (hin : leadsOut here.length segments = false) :
    t.follow here (segments ++ more) = t.follow dir more := by
  induction h with
  | here => rfl
  | dot hat _ ih => simpa [follow, hat] using ih hin
  | up hat hne _ ih =>
    simp only [leadsOut, String.reduceBEq, Bool.false_eq_true, if_false, if_true,
      Bool.or_eq_false_iff] at hin
    simpa [follow, hat, hne] using ih (by simpa using hin.2)
  | out => cases hin
  | down hat hname _ ih =>
    simp only [leadsUp, Bool.or_eq_false_iff] at hname
    simp only [leadsOut, hname, Bool.false_eq_true, if_false] at hin
    simpa [follow, hat, hname] using ih (by simpa using hin)

/-- A place for something new is in a directory to which the path leads. -/
structure IsNew (t : FileTree) (path : String) (around : List String) (name : String)
    (dir : List String) : Prop where
  segments : segments path = around ++ [name]
  relative : (dropStart? "/" path).isSome = false
  inside : leadsOut 0 around = false
  leads : t.Leads [] around dir .directory

lemma exists_isNew (h : t.newPlace path = .ok place) :
    ∃ around name dir, place = dir ++ [name] ∧ t.IsNew path around name dir := by
  unfold newPlace at h
  split at h
  · cases h
  · next name around hsegments =>
    have hsegments : segments path = around.reverse ++ [name] := by
      rw [← reverse_cons, ← hsegments, reverse_reverse]
    split at h
    · cases h
    · next hinside =>
      simp only [Bool.or_eq_true, not_or, Bool.not_eq_true] at hinside
      cases hfollow : t.follow [] around.reverse with
      | error e =>
        rw [hfollow] at h
        cases h
      | ok found =>
        obtain ⟨dir, entry⟩ := found
        rw [hfollow] at h
        cases entry with
        | file content => cases h
        | directory =>
          cases h
          exact ⟨_, name, dir, rfl, hsegments, hinside.1, hinside.2, leads_of_follow hfollow⟩

namespace IsNew

variable {around dir : List String} {name : String}

section

variable (h : t.IsNew path around name dir)
include h

lemma find (hslash : endsInSlash path = false)
    (hkeeps : t.Keeps t') : t'.find path = t'.follow dir [name] := by
  have hdirectory := hkeeps dir (h.leads.linked linked_nil) h.leads.at?_eq
  have hpath : path.isEmpty = false := by
    cases hempty : path.isEmpty with
    | false => rfl
    | true =>
      have hsegments := h.segments
      rw [String.isEmpty_iff.mp hempty] at hsegments
      exact absurd hsegments.symm (by simp [FileTree.segments, split, pieces])
  rw [FileTree.find, hpath, h.relative, steps, hslash, h.segments]
  exact (hkeeps.leads linked_nil h.leads hdirectory).follow_inside h.inside

lemma isName (hslash : endsInSlash path = false) (hfind : t.find path = .error .notFound) :
    name ≠ "." ∧ name ≠ ".." ∧ t.at? (dir ++ [name]) = none := by
  have hdirectory := h.leads.at?_eq
  have hlinked := h.leads.linked linked_nil
  rw [h.find hslash fun _ _ hat => hat] at hfind
  unfold follow at hfind
  rw [hdirectory] at hfind
  dsimp only at hfind
  split at hfind
  · rw [follow, hdirectory] at hfind
    cases hfind
  · next hdot =>
    split at hfind
    · split at hfind
      · next hin =>
        rw [follow, hlinked.above (by simpa using hin)] at hfind
        cases hfind
      · cases hfind
    · next hparent =>
      refine ⟨by simpa using hdot, by simpa using hparent, ?_⟩
      cases hat : t.at? (dir ++ [name]) with
      | none => rfl
      | some entry =>
        rw [follow, hat] at hfind
        cases hfind

lemma find_put (hslash : endsInSlash path = false) (hfind : t.find path = .error .notFound)
    (hkeeps : t.Keeps t') (hat : t'.at? (dir ++ [name]) = some entry) :
    t'.find path = .ok (dir ++ [name], entry) := by
  obtain ⟨hdot, hparent, _⟩ := h.isName hslash hfind
  have hdirectory := hkeeps dir (h.leads.linked linked_nil) h.leads.at?_eq
  rw [h.find hslash hkeeps, follow, hdirectory]
  dsimp only
  rw [if_neg (by simpa using hdot), if_neg (by simpa using hparent), follow, hat]

end

end IsNew

lemma keeps_put (hplace : place ≠ []) (hat : t.at? place ≠ some .directory) (entry : Entry) :
    t.Keeps (t.put place entry) := by
  intro p _ hdirectory
  rw [at?_put hplace, if_neg, hdirectory]
  rintro rfl
  exact hat hdirectory

/-- A file that is taken away is not around anything that can be reached. -/
lemma Linked.not_below {p : List String} (h : t.Linked p)
    (hfile : t.at? place = some (.file content)) (hne : place ≠ p) : ¬place <+: p := by
  intro hinitial
  have hdirectory := h place hinitial hne
  rw [hfile] at hdirectory
  cases hdirectory

lemma keeps_erase (hfile : t.at? place = some (.file content)) : t.Keeps (t.erase place) := by
  intro p hlinked hdirectory
  rw [at?_erase (ne_nil_of_file hfile), if_neg, hdirectory]
  refine hlinked.not_below hfile ?_
  rintro rfl
  rw [hfile] at hdirectory
  cases hdirectory

/-- The bytes were written at a place: into a file that the path led to, or into a new one. -/
structure Written (t t' : FileTree) (path : String) (bs : List UInt8) (place : List String) :
    Prop where
  found : t'.find path = .ok (place, .file (.bytes bs))
  others : ∀ p, p ≠ place → t'.at? p = t.at? p
  before : (∃ content, t.find path = .ok (place, .file content)) ∨ t.at? place = none

lemma Written.keeps (h : Written t t' path bs place) : t.Keeps t' := by
  intro p _ hdirectory
  rw [h.others p, hdirectory]
  rintro rfl
  rcases h.before with ⟨content, hfind⟩ | hnone
  · rw [at?_of_find hfind] at hdirectory
    cases hdirectory
  · rw [hnone] at hdirectory
    cases hdirectory

lemma exists_written (h : t.write path bs = .ok t') : ∃ place, Written t t' path bs place := by
  unfold write at h
  split at h
  · next place content hfind =>
    cases h
    have hat := at?_of_find hfind
    have hplace := ne_nil_of_file hat
    have hkeeps := keeps_put hplace (by rw [hat]; simp) (.file (.bytes bs))
    refine ⟨place, hkeeps.find hfind (by rw [at?_put hplace, if_pos rfl]), fun p hp => ?_,
      .inl ⟨content, hfind⟩⟩
    rw [at?_put hplace, if_neg hp]
  · cases h
  · next hfind =>
    split at h
    · cases h
    · next hslash =>
      have hslash : endsInSlash path = false := by simpa using hslash
      cases hnew : t.newPlace path with
      | error e =>
        rw [hnew] at h
        cases h
      | ok place =>
        rw [hnew] at h
        cases h
        obtain ⟨around, name, dir, rfl, hisnew⟩ := exists_isNew hnew
        obtain ⟨_, _, hnone⟩ := hisnew.isName hslash hfind
        have hplace : dir ++ [name] ≠ [] := by simp
        have hkeeps := keeps_put hplace (by rw [hnone]; simp) (.file (.bytes bs))
        refine ⟨dir ++ [name], hisnew.find_put hslash hfind hkeeps
          (by rw [at?_put hplace, if_pos rfl]), fun p hp => ?_, .inr hnone⟩
        rw [at?_put hplace, if_neg hp]
  · cases h

structure Renamed (t t' : FileTree) (source target : String) (place other : List String)
    (content : Content) : Prop where
  source : t.find source = .ok (place, .file content)
  target : t'.find target = .ok (other, .file content)
  keeps : t.Keeps t'
  others : ∀ p, p ≠ other → ¬place <+: p → t'.at? p = t.at? p
  fresh : ∀ p entry, p ≠ other → t'.at? p = some entry → t.at? p = some entry ∧ p ≠ place

lemma renamed_of_put (hsource : t.find source = .ok (place, .file content))
    (hother : other ≠ []) (hat : t.at? other ≠ some .directory)
    (htarget : ∀ t', t.Keeps t' → t'.at? other = some (.file content) →
      t'.find target = .ok (other, .file content)) :
    Renamed t ((t.erase place).put other (.file content)) source target place other content := by
  have hfile := at?_of_find hsource
  have hplace := ne_nil_of_file hfile
  have hfree : (t.erase place).at? other ≠ some .directory := by
    rw [at?_erase hplace]
    split
    · simp
    · exact hat
  have hkeeps := (keeps_erase hfile).trans (keeps_put hother hfree (.file content))
  refine ⟨hsource, htarget _ hkeeps (by rw [at?_put hother, if_pos rfl]), hkeeps,
    fun p hp hinitial => ?_, fun p entry hp hentry => ?_⟩
  · rw [at?_put hother, if_neg hp, at?_erase hplace, if_neg hinitial]
  · rw [at?_put hother, if_neg hp, at?_erase hplace] at hentry
    split at hentry
    · cases hentry
    · next hinitial =>
      refine ⟨hentry, ?_⟩
      rintro rfl
      exact hinitial (prefix_refl _)

lemma exists_renamed (h : t.rename source target = .ok t') :
    ∃ place other content, Renamed t t' source target place other content := by
  unfold rename at h
  cases hsource : t.find source with
  | error e =>
    rw [hsource] at h
    cases h
  | ok found =>
    obtain ⟨place, entry⟩ := found
    rw [hsource] at h
    cases entry with
    | directory => cases h
    | file content =>
      have hfile := at?_of_find hsource
      simp only [bind, Except.bind] at h
      split at h
      · next other entry htarget =>
        split at h
        · cases h
        · split at h
          · cases h
          · split at h
            · cases h
            · next old =>
              have hat := at?_of_find htarget
              split at h
              · next heq =>
                cases h
                obtain rfl := eq_of_beq heq
                rw [hfile] at hat
                obtain rfl := Entry.file.inj (some.inj hat)
                exact ⟨other, other, content, hsource, htarget, fun _ _ h => h, fun _ _ _ => rfl,
                  fun _ _ hp h => ⟨h, hp⟩⟩
              · cases h
                exact ⟨place, other, content, renamed_of_put hsource (ne_nil_of_file hat)
                  (by rw [hat]; simp) fun _ hkeeps hput => hkeeps.find htarget hput⟩
      · next htarget =>
        cases hnew : t.newPlace target with
        | error e =>
          rw [hnew] at h
          cases h
        | ok new =>
          rw [hnew] at h
          dsimp only at h
          split at h
          · cases h
          · next hslash =>
            cases h
            have hslash : endsInSlash target = false := by simpa using hslash
            obtain ⟨around, name, dir, rfl, hisnew⟩ := exists_isNew hnew
            obtain ⟨_, _, hnone⟩ := hisnew.isName hslash htarget
            exact ⟨place, dir ++ [name], content, renamed_of_put hsource (by simp)
              (by rw [hnone]; simp) fun _ hkeeps hput => hisnew.find_put hslash htarget hkeeps hput⟩
      · cases h

lemma Leads.not_leadsUp {segments : List String} (h : t.Leads here segments place entry)
    (hhere : t.Linked here) (hentry : entry ≠ .directory) :
    segments.getLast?.any leadsUp = false := by
  -- a segment that is not the last one does not count
  have hlast {next rest : List String} (s : String) (hleads : t.Leads next rest place entry)
      (hup : leadsUp s = true → t.at? next = some .directory)
      (hrest : rest.getLast?.any leadsUp = false) : (s :: rest).getLast?.any leadsUp = false := by
    cases hleads with
    | here hat =>
      cases hs : leadsUp s with
      | false => simpa using hs
      | true =>
        rw [hup hs] at hat
        exact absurd (some.inj hat).symm hentry
    | dot | up | out | down => exact hrest
  induction h with
  | here => rfl
  | dot hat hrest ih => exact hlast _ hrest (fun _ => hat) (ih hhere hentry hlast)
  | up _ hne hrest ih =>
    exact hlast _ hrest (fun _ => hhere.above hne)
      (ih (hhere.of_prefix (List.dropLast_prefix _)) hentry hlast)
  | out => exact absurd rfl hentry
  | down hat hname hrest ih =>
    refine hlast _ hrest (fun hup => ?_) (ih (hhere.below hat _) hentry hlast)
    rw [hname] at hup
    cases hup

lemma exists_rename {old : Content} (hsource : t.find source = .ok (place, .file content))
    (htarget : t.find target = .ok (other, .file old)) : ∃ t', t.rename source target = .ok t' := by
  have hsteps : (steps target).getLast?.any leadsUp = false := by
    unfold find at htarget
    split at htarget
    · cases htarget
    · exact (leads_of_follow htarget).not_leadsUp linked_nil (by simp)
  have hslash : endsInSlash target = false := by
    cases hslash : endsInSlash target with
    | false => rfl
    | true =>
      rw [steps, if_pos hslash, getLast?_concat] at hsteps
      cases hsteps
  rw [steps, hslash, if_neg Bool.false_ne_true] at hsteps
  unfold rename
  simp only [hsource, htarget, bind, Except.bind, hsteps, hslash, Bool.false_eq_true, if_false]
  split
  · exact ⟨_, rfl⟩
  · exact ⟨_, rfl⟩

/-- There are more directories, and all else is the same. -/
structure Widens (t t' : FileTree) : Prop where
  kept : ∀ p entry, t.at? p = some entry → t'.at? p = some entry
  fresh : ∀ p content, t'.at? p = some (.file content) → t.at? p = some (.file content)

lemma Widens.refl (t : FileTree) : t.Widens t := ⟨fun _ _ h => h, fun _ _ h => h⟩

lemma Widens.trans (h : t.Widens t') (h' : t'.Widens t'') : t.Widens t'' :=
  ⟨fun p e hp => h'.kept p e (h.kept p e hp), fun p c hp => h.fresh p c (h'.fresh p c hp)⟩

lemma Widens.keeps (h : t.Widens t') : t.Keeps t' := fun p _ hp => h.kept p _ hp

lemma widens_ensureDirectory (t : FileTree) (path : String) :
    t.Widens (t.ensureDirectory path).1 := by
  have hmake : ∀ t', t.makeDirectory path = .ok t' → t.Widens t' := by
    intro t' h
    unfold makeDirectory at h
    split at h
    · cases h
    · cases hnew : t.newPlace path with
      | error e =>
        rw [hnew] at h
        cases h
      | ok place =>
        rw [hnew] at h
        simp only [bind, Except.bind] at h
        split at h
        · cases h
        · next hnone =>
          cases h
          have hnone : t.at? place = none := by simpa using hnone
          obtain ⟨around, name, dir, rfl, _⟩ := exists_isNew hnew
          have hplace : dir ++ [name] ≠ [] := by simp
          refine ⟨fun p entry hp => ?_, fun p content hp => ?_⟩
          · rw [at?_put hplace, if_neg, hp]
            rintro rfl
            rw [hnone] at hp
            cases hp
          · rw [at?_put hplace] at hp
            split at hp
            · cases hp
            · exact hp
  unfold ensureDirectory
  split
  · next hok => exact hmake _ hok
  · exact .refl t

lemma widens_makeDirectories (t : FileTree) (n : Nat) (path : String) :
    t.Widens (t.makeDirectories n path).1 := by
  induction n generalizing path with
  | zero => exact .refl t
  | succ n ih =>
    unfold makeDirectories
    split
    · exact .refl t
    · split
      · next around _ _ =>
        have hwide := ih around
        split
        · next hmade =>
          rw [hmade] at hwide
          exact hwide.trans (widens_ensureDirectory _ path)
        · next hmade =>
          rw [hmade] at hwide
          exact hwide
      · exact widens_ensureDirectory t path

end Xref.Files.FileTree
