import Xref.Files.Tree
import Xref.Proofs.Text.Lines

/-!
# Spellings of a path

Paths with the same segments are spellings of each other. They lead to the same place, except that a
path with an idle end, a slash or a dot, never leads to a file. So spellings that agree in whether
they lead to a file agree in everything, and so do paths below them.
-/
open List

namespace Xref.Files

open Text

lemma toList_slash : "/".toList = ['/'] := rfl

lemma exists_of_dropEnd {path : String} (h : (dropEnd? "/" path).isSome) :
    ∃ around, path = around ++ "/" := by
  have hsuffix : ['/'].isSuffixOf path.toList := by
    unfold dropEnd? at h
    split at h
    · assumption
    · cases h
  obtain ⟨around, haround⟩ := isSuffixOf_iff_suffix.mp hsuffix
  refine ⟨String.ofList around, String.toList_inj.mp ?_⟩
  rw [← haround, String.toList_append, String.toList_ofList, toList_slash]

lemma getLast_pieces_ne_nil (isSep : Char → Bool) {cs : List Char} (hne : cs ≠ [])
    (hend : ∀ c, cs.getLast? = some c → isSep c = false) :
    (pieces isSep cs).getLast? ≠ some [] := by
  induction cs with
  | nil => exact absurd rfl hne
  | cons c cs ih =>
    obtain ⟨p, ps, hpieces⟩ := exists_cons_of_ne_nil (pieces_ne_nil isSep cs)
    cases cs with
    | nil =>
      have hc : isSep c = false := hend c rfl
      simp [pieces, hc]
    | cons c' cs =>
      have ih := ih (cons_ne_nil _ _) fun x hx => hend x (by rw [getLast?_cons_cons]; exact hx)
      cases hc : isSep c with
      | true =>
        rw [pieces.eq_2, if_pos hc, hpieces, getLast?_cons_cons, ← hpieces]
        exact ih
      | false =>
        rw [pieces_cons_of_neg hc hpieces]
        cases ps with
        | nil => simp
        | cons p' ps =>
          rw [hpieces, getLast?_cons_cons] at ih
          rw [getLast?_cons_cons]
          exact ih

namespace Path

variable {path root : String}

def componentsOf : List String → List String
  | [] => []
  | first :: rest => (if counts true first then first else "/") :: rest.filter (counts false)

lemma components_eq (hne : path ≠ "") : components path = componentsOf (split '/' path) := by
  have hempty : path.isEmpty = false := by simpa using hne
  obtain ⟨first, rest, hsplit⟩ := exists_cons_of_ne_nil (split_ne_nil '/' path)
  simp only [components, hsplit, componentsOf, hempty, Bool.false_eq_true, if_false]
  split <;> rfl

lemma componentsOf_append {front : List String} (hfront : front ≠ []) (back : List String) :
    componentsOf (front ++ back) = componentsOf front ++ back.filter (counts false) := by
  cases front with
  | nil => exact absurd rfl hfront
  | cons first rest => simp [componentsOf]

lemma components_eq_nil (h : components path = []) : path = "" := by
  refine Decidable.byContradiction fun hne => ?_
  rw [components_eq hne] at h
  obtain ⟨first, rest, hsplit⟩ := exists_cons_of_ne_nil (split_ne_nil '/' path)
  rw [hsplit] at h
  cases h

/-- The pieces of a path below another one: those of that path first, up to an empty one at its
end. -/
lemma exists_split_join (hroot : root ≠ "") (name : String) :
    join root name ≠ "" ∧ ∃ front, front ≠ [] ∧ componentsOf front = components root ∧
      split '/' (join root name) = front ++ split '/' name := by
  have hempty : root.isEmpty = false := by simpa using hroot
  cases hend : (dropEnd? "/" root).isSome with
  | false =>
    have hjoin : join root name = root ++ "/" ++ name := by simp [join, hempty, hend]
    rw [hjoin]
    exact ⟨by simp, split '/' root, split_ne_nil '/' root, (components_eq hroot).symm,
      split_append rfl _ _⟩
  | true =>
    obtain ⟨around, rfl⟩ := exists_of_dropEnd hend
    have hjoin : join (around ++ "/") name = around ++ "/" ++ name := by simp [join, hend]
    rw [hjoin]
    refine ⟨by simp, split '/' around, split_ne_nil '/' around, ?_, split_append rfl _ _⟩
    have hsplit : split '/' (around ++ "/") = split '/' around ++ [""] := by
      simpa [split, pieces] using split_append toList_slash around ""
    rw [components_eq hroot, hsplit, componentsOf_append (split_ne_nil '/' around)]
    simp [counts]

lemma components_join (hroot : root ≠ "") (name : String) :
    components (join root name) = components root ++ (split '/' name).filter (counts false) := by
  obtain ⟨hne, front, hfront, hcomponents, hsplit⟩ := exists_split_join hroot name
  rw [components_eq hne, hsplit, componentsOf_append hfront, hcomponents]

lemma eq_or_ne_empty {path' : String} (h : components path' = components path) :
    path' = path ∨ path' ≠ "" ∧ path ≠ "" := by
  by_cases hpath : path = ""
  · subst hpath
    exact .inl (components_eq_nil h)
  · refine .inr ⟨?_, hpath⟩
    rintro rfl
    exact hpath (components_eq_nil h.symm)

lemma components_join_eq {root' : String} (h : components root' = components root)
    (name : String) : components (join root' name) = components (join root name) := by
  rcases eq_or_ne_empty h with rfl | ⟨hroot', hroot⟩
  · rfl
  · rw [components_join hroot, components_join hroot', h]

def isIdle (path : String) : Bool := (split '/' path).getLast?.any fun s => !counts false s

lemma isIdle_join (hroot : root ≠ "") (name : String) : isIdle (join root name) = isIdle name := by
  obtain ⟨_, front, _, _, hsplit⟩ := exists_split_join hroot name
  obtain ⟨last, hlast⟩ := Option.isSome_iff_exists.mp (getLast?_isSome.mpr (split_ne_nil '/' name))
  simp [isIdle, hsplit, getLast?_append, hlast]

/-- Whether a path with these segments begins where it is used. -/
def isRelative : List String → Bool
  | [] => false
  | first :: _ => first != "/"

end Path

namespace FileTree

open Path

variable {t : FileTree} {path : String} {here : List String}

def demandDirectory :
    Except FileError (List String × Entry) → Except FileError (List String × Entry)
  | .ok (_, .file _) => .error .notDirectory
  | found => found

lemma follow_of_none (h : t.at? here = none) (segments : List String) :
    t.follow here segments = .error .notFound := by
  cases segments <;> simp [follow, h]

lemma follow_of_file {content : Content} (h : t.at? here = some (.file content))
    (segments : List String) :
    t.follow here segments =
      if segments = [] then .ok (here, .file content) else .error .notDirectory := by
  cases segments <;> simp [follow, h]

lemma follow_eq (t : FileTree) (here segments : List String) : t.follow here segments =
    if segments.getLast? = some "." then
      demandDirectory (t.follow here (segments.filter (· != ".")))
    else t.follow here (segments.filter (· != ".")) := by
  induction segments generalizing here with
  | nil => simp
  | cons s rest ih =>
    cases hat : t.at? here with
    | none => simp [follow_of_none hat, demandDirectory]
    | some entry =>
      cases entry with
      | file content =>
        simp only [follow_of_file hat]
        by_cases hall : (s :: rest).filter (· != ".") = []
        · have hlast : (s :: rest).getLast? = some "." := by
            obtain ⟨last, hlast⟩ := Option.isSome_iff_exists.mp
              (getLast?_isSome.mpr (cons_ne_nil s rest))
            have := filter_eq_nil_iff.mp hall last (mem_of_getLast? hlast)
            rw [hlast]
            simpa using this
          simp [hall, hlast, demandDirectory]
        · simp [hall, demandDirectory]
      | directory =>
        by_cases hdot : s = "."
        · subst hdot
          have hstep : t.follow here ("." :: rest) = t.follow here rest := by simp [follow, hat]
          rw [hstep, ih, filter_cons_of_neg (by simp)]
          cases rest with
          | nil => simp [follow, hat, demandDirectory]
          | cons s' rest => rw [getLast?_cons_cons]
        · have hlast : ((s :: rest).getLast? = some ".") = (rest.getLast? = some ".") := by
            cases rest with
            | nil => simpa using hdot
            | cons s' rest => rw [getLast?_cons_cons]
          have hup : (rest.filter (· != ".")).all leadsUp = rest.all leadsUp := by
            rw [all_filter]
            refine congrArg rest.all (funext fun x => ?_)
            by_cases hx : x = "."
            · simp [hx, leadsUp]
            · simp [hx]
          rw [filter_cons_of_pos (by simpa using hdot)]
          simp only [hlast, follow, hat, hup]
          by_cases hparent : s = ".."
          · subst hparent
            cases here with
            | nil => cases rest.all leadsUp <;> simp [demandDirectory]
            | cons x here => simpa using ih _
          · simpa [hdot, hparent] using ih _

lemma getLast_split (hne : path ≠ "") : (split '/' path).getLast? = some "" ↔ endsInSlash path := by
  constructor
  · intro hlast
    refine Decidable.byContradiction fun hslash => ?_
    have hcs : path.toList ≠ [] := by simpa using hne
    refine getLast_pieces_ne_nil (· == '/') hcs (fun c hc => ?_) ?_
    · refine beq_eq_false_iff_ne.mpr fun hsep => hslash ?_
      subst hsep
      obtain ⟨front, hfront⟩ := getLast?_eq_some_iff.mp hc
      simp [endsInSlash, dropEnd?, toList_slash, hfront]
    · rw [split, getLast?_map, Option.map_eq_some_iff] at hlast
      obtain ⟨last, hlast, hempty⟩ := hlast
      rw [hlast, ← String.toList_ofList (l := last), hempty]
      rfl
  · intro hslash
    obtain ⟨around, rfl⟩ := exists_of_dropEnd hslash
    have hsplit : split '/' (around ++ "/") = split '/' around ++ [""] := by
      simpa [split, pieces] using split_append toList_slash around ""
    simp [hsplit]

lemma getLast_steps (hne : path ≠ "") : (steps path).getLast? = some "." ↔ isIdle path := by
  obtain ⟨last, hlast⟩ := Option.isSome_iff_exists.mp (getLast?_isSome.mpr (split_ne_nil '/' path))
  have hidle : isIdle path = !counts false last := by simp [isIdle, hlast]
  unfold steps
  by_cases hslash : endsInSlash path
  · have hempty := (getLast_split hne).mpr hslash
    obtain rfl : "" = last := by simpa [hempty] using hlast
    simp [hslash, hidle, counts]
  · have hempty : last ≠ "" := by
      rintro rfl
      exact hslash ((getLast_split hne).mp hlast)
    obtain ⟨front, hfront⟩ := getLast?_eq_some_iff.mp hlast
    have hsegments : (segments path).getLast? = some last := by simp [segments, hfront, hempty]
    rw [if_neg hslash, hsegments, hidle]
    simp [counts, hempty]

lemma beginning {first : String} {rest : List String} (hne : path ≠ "")
    (hsplit : split '/' path = first :: rest) :
    (first = "" ∧ (dropStart? "/" path).isSome) ∨
      (first ≠ "" ∧ first ≠ "/" ∧ dropStart? "/" path = none) := by
  cases hcs : path.toList with
  | nil => exact absurd (String.toList_inj.mp hcs) hne
  | cons c cs =>
    obtain ⟨p, ps, hpieces⟩ := exists_cons_of_ne_nil (pieces_ne_nil (· == '/') cs)
    by_cases hc : c = '/'
    · subst hc
      refine .inl ⟨?_, by simp [dropStart?, hcs, toList_slash]⟩
      rw [split, hcs, pieces.eq_2, if_pos (by simp)] at hsplit
      exact (List.cons.inj hsplit).1.symm
    · rw [split, hcs, pieces_cons_of_neg (by simpa using hc) hpieces] at hsplit
      obtain rfl := (List.cons.inj hsplit).1
      refine .inr ⟨by simp, fun hslash => ?_, by simp [dropStart?, hcs, toList_slash, Ne.symm hc]⟩
      have hlist := congrArg String.toList hslash
      rw [String.toList_ofList, toList_slash] at hlist
      exact hc (List.cons.inj hlist).1

lemma find_eq (t : FileTree) (path : String) : t.find path = if isRelative (components path) then
    if isIdle path then demandDirectory (t.follow [] ((components path).filter (· != ".")))
    else t.follow [] ((components path).filter (· != ".")) else .error .notFound := by
  by_cases hne : path = ""
  · subst hne
    rfl
  have hempty : path.isEmpty = false := by simpa using hne
  obtain ⟨first, rest, hsplit⟩ := exists_cons_of_ne_nil (split_ne_nil '/' path)
  have hcomponents := components_eq hne
  rw [hsplit, componentsOf] at hcomponents
  rcases beginning hne hsplit with ⟨rfl, hslash⟩ | ⟨hfirst, hslash, hstart⟩
  · simp [find, hempty, hslash, hcomponents, isRelative, counts]
  · have hcounts : counts true first = true := by simpa [counts] using hfirst
    rw [if_pos hcounts] at hcomponents
    have hsteps : (steps path).filter (· != ".") = (components path).filter (· != ".") := by
      have hsegments : (segments path).filter (· != ".") = (components path).filter (· != ".") := by
        rw [segments, hsplit, hcomponents, filter_cons_of_pos (by simpa using hfirst),
          filter_cons, filter_cons, filter_filter, filter_filter]
        have hrest : (rest.filter fun s => s != "." && !s.isEmpty) =
            rest.filter fun s => s != "." && counts false s := by
          refine filter_congr fun s _ => ?_
          cases hdot : (s != ".") <;> simp [counts, hdot]
        rw [hrest]
      unfold steps
      split
      · rw [filter_append, hsegments]
        simp
      · exact hsegments
    have hrelative : isRelative (components path) = true := by
      simp [hcomponents, isRelative, hslash]
    rw [find, if_neg (by simp [hempty, hstart]), if_pos hrelative, follow_eq, hsteps]
    simp only [getLast_steps hne]

lemma find_eq_of_components {path' : String}
    (h : components path' = components path) (hfile : t.isFile path' = t.isFile path) :
    t.find path' = t.find path := by
  simp only [isFile, find_eq, h] at hfile ⊢
  split
  · next hrelative =>
    rw [if_pos hrelative, if_pos hrelative] at hfile
    -- only a file makes a difference
    cases hfound : t.follow [] ((components path).filter (· != ".")) with
    | error cause => simp [demandDirectory]
    | ok found =>
      obtain ⟨place, entry⟩ := found
      cases entry with
      | directory => simp [demandDirectory]
      | file content =>
        rw [hfound] at hfile
        cases hidle : isIdle path <;> cases hidle' : isIdle path' <;>
          simp [hidle, hidle', demandDirectory] at hfile ⊢
  · rfl

lemma find_join {root root' : String} (h : components root' = components root)
    (name : String) : t.find (join root' name) = t.find (join root name) := by
  rcases eq_or_ne_empty h with rfl | ⟨hroot', hroot⟩
  · rfl
  · simp only [find_eq, components_join hroot, components_join hroot', h, isIdle_join hroot,
      isIdle_join hroot']

end FileTree

end Xref.Files
