import Xref.Proofs.Reference.Classes

/-!
# The sites of a unit

If all code of a unit stands in declarations of types, then outside of annotations, of defaults of
annotation elements and of lists of parameters each declaration of a type or of a method has one
record, and so has each call of a constructor. The call of a method has one record or two.
-/
open List

namespace Xref.Reference

open Declaration Java Resolve Syntax Text Report Kind

def Location.isSite : Location → Bool
  | .type | .method | .methodCall | .constructorCall => true
  | _ => false

def siteLocation? (t : Tree) : Option Location :=
  if t.kind.isTypeDeclaration then some .type
  else if t.kind.isCallable then some .method
  else
    match t.kind with
    | .methodInvocation => some .methodCall
    | .objectCreationExpression | .explicitConstructorInvocation => some .constructorCall
    | _ => none

/-- The part of a site at which it is reported: all of the declaration of a type, and else the name
of what is declared or called. -/
def siteKey? (t : Tree) : Option Tree :=
  if t.kind.isTypeDeclaration then some t
  else
    match t.kind with
    | .objectCreationExpression => (t.child? .type).map Tree.nameOfType
    | .explicitConstructorInvocation => t.child? .constructor
    | _ => t.child? .name

def mostRecords (t : Tree) : Nat := if t.kind = .methodInvocation then 2 else 1

def Spot.isReference (s : Spot) : Bool := !s.view.isApart && (siteLocation? s.tree).isSome

structure Spot.Reports (st : Setting) (s : Spot) (records : List Record) : Prop where
  location : ∀ r ∈ records, siteLocation? s.tree = some r.location
  span : ∃ key, siteKey? s.tree = some key ∧
    ∀ r ∈ records, r.span = st.lines.span key.start key.stop

/-- The records fall into groups, one for each site. -/
structure SitesReported (st : Setting) (unit : Tree) (records : List Record)
    (groups : List (Spot × List Record)) : Prop where
  records : records.filter (fun r => r.location.isSite) = groups.flatMap Prod.snd
  spots : ∀ g ∈ groups, g.1 ∈ spots st.declarations st.source unit (.ofUnit st.declarations)
  reports : ∀ g ∈ groups, g.1.Reports st g.2
  sites : ((groups.map Prod.fst).filter fun s => !s.view.isApart).Perm
    ((Reference.spots st.declarations st.source unit (.ofUnit st.declarations)).filter
      Spot.isReference)
  /-- A site that does not stand apart has one record or, if it is the call of a method, up to
  two. -/
  count : ∀ g ∈ groups, g.1.view.isApart = false →
    1 ≤ g.2.length ∧ g.2.length ≤ mostRecords g.1.tree

variable {d : Declarations} {source : List Char} {s : Spot}

section

variable {t : Tree} {v : View}

lemma frames_suffix (hs : s ∈ spots d source t v) : v.frames <:+ s.view.frames := by
  refine holds_of_mem (P := fun _ w => v.frames <:+ w.frames) (fun t w hw c _ => ?_) suffix_rfl hs
  unfold View.enter
  cases typeEntered? d source t c with
  | none => exact hw
  | some entered => exact hw.trans (suffix_cons _ _)

lemma frames_ne_nil_of_code (hshaped : t.Shaped) (hkind : t.kind.isTypeDeclaration) {name : String}
    (hname : d.nameOf? t = some name) (hs : s ∈ spots d source t v) (hne : s.tree.kind ≠ t.kind)
    (hplain : ¬ (s.view.isApart ∨ s.tree.kind.isBare ∨ s.tree.kind.isApart)) :
    s.view.frames ≠ [] := by
  rw [spots_cons] at hs
  rcases mem_cons.mp hs with rfl | hs
  · exact absurd rfl hne
  · obtain ⟨c, hc, hs⟩ := exists_of_mem_innerSpots hs
    have hbody : c.role = some .body := by
      by_contra hbody
      have hlabel : c.label.isPlain := by
        rcases hshaped.fits.admitted c hc with hcomment | hadmits
        · exact Tree.isPlain_of_comment hcomment.kind
        · obtain ⟨lacks, hshape⟩ := shape_typeDeclaration hkind
          rw [hshape] at hadmits
          exact (typePart_of_admits hadmits).plain (by simpa [Label.inRole, Tree.label] using hbody)
      exact hplain (plain_of_mem (hshaped.parts c hc) (Label.bare_or_apart hlabel) hs)
    have htype : typeEntered? d source t c = some (name, t.typeParameters source) := by
      simp [typeEntered?, hkind, hbody, hname]
    have hsuffix := frames_suffix hs
    intro hnil
    rw [hnil, (enter_of_some htype v).2] at hsuffix
    cases suffix_nil.mp hsuffix

end

section

variable {st : Setting} {m : Memory} {e : Event}

lemma isSite_of_mem_records {r : Record} (hr : r ∈ e.records st) :
    r.location.isSite = e.report.isMain := by
  obtain ⟨name, _, rfl⟩ := mem_map.mp hr
  change e.report.construct.location.isSite = _
  cases e.report with
  | supertype kind isExtends written =>
    simp only [construct, Construct.ofSupertype]
    split <;> rfl
  | _ => rfl

lemma Event.reports_of_describes (h : e.report.Describes st.declarations st.source e.spot)
    (hmain : e.report.isMain) : e.spot.Reports st (e.records st) := by
  have hkey : siteLocation? e.spot.tree = some e.report.construct.location ∧
      siteKey? e.spot.tree = some (e.report.key e.spot.tree) := by
    obtain ⟨report, spot, scopes, names⟩ := e
    cases report with
    | type name =>
      have hkind : spot.tree.kind.isTypeDeclaration := h.1
      simp [siteLocation?, siteKey?, hkind, construct, Construct.location, key]
    | supertype kind isExtends written => cases hmain
    | method name =>
      have hname : spot.tree.child? .name = some name := h.2
      rcases h.1 with hkind | hkind <;>
        simp [siteLocation?, siteKey?, hkind, isTypeDeclaration, isCallable, hname,
          construct, Construct.location, key]
    | constructor holder name =>
      have hname : spot.tree.child? .name = some name := h.2
      rcases h.1 with ⟨hkind, _⟩ | ⟨hkind, _⟩ <;>
        simp [siteLocation?, siteKey?, hkind, isTypeDeclaration, isCallable, hname,
          construct, Construct.location, key]
    | call cs name =>
      have hname : spot.tree.child? .name = some name := h.2.1
      simp [siteLocation?, siteKey?, h.1, isTypeDeclaration, isCallable, hname,
        construct, Construct.location, key]
    | creation cs written =>
      have hwritten : spot.tree.child? .type = some written := h.2.1
      simp [siteLocation?, siteKey?, h.1, isTypeDeclaration, isCallable, hwritten,
        construct, Construct.location, key]
    | explicitCall cs keyword =>
      have hkeyword : spot.tree.child? .constructor = some keyword := h.2.1
      simp [siteLocation?, siteKey?, h.1, isTypeDeclaration, isCallable, hkeyword,
        construct, Construct.location, key]
  refine ⟨fun r hr => ?_, _, hkey.2, fun r hr => ?_⟩
  · obtain ⟨name, _, rfl⟩ := mem_map.mp hr
    exact hkey.1
  · obtain ⟨name, _, rfl⟩ := mem_map.mp hr
    rfl

lemma Event.length_records (h : ∀ n ∈ e.names, n.name ≠ "") :
    (e.records st).length = e.names.length := by
  have hall : e.names.filter (fun n => !n.name.isEmpty) = e.names :=
    filter_eq_self.mpr fun n hn => by simpa using h n hn
  rw [Event.records, recordsAt, hall, length_map]

lemma Event.Holds.count (h : e.Holds st m) (hm : m.active = []) (hmain : e.report.isMain)
    (hname : ∀ name, e.report = .type name → name ≠ "")
    (hframes : e.report.construct = .explicitConstructorCall → e.spot.view.frames ≠ []) :
    1 ≤ (e.records st).length ∧ (e.records st).length ≤ mostRecords e.spot.tree := by
  by_cases hsignature : e.report.isSignature
  · have hsignatures := h.signatures hm hsignature
    have hleast := hsignatures.least
    rw [if_neg fun hnone => hframes hnone.1 hnone.2] at hleast
    rw [Event.length_records fun n hn => (hsignatures.signatures n hn).ne_empty]
    refine ⟨hleast, hsignatures.most.trans ?_⟩
    have hdescribes := h.describes
    unfold mostRecords
    cases hreport : e.report with
    | call cs name =>
      rw [hreport] at hdescribes
      rw [if_pos hdescribes.1]
      exact Nat.le_refl 2
    | _ => split <;> simp [most]
  · obtain ⟨report, spot, scopes, names⟩ := e
    cases report with
    | type name =>
      have hnames : [TypeName.resolved name] = names := congrArg Prod.fst (h.finds hm)
      rw [Event.length_records]
      · change 1 ≤ names.length ∧ names.length ≤ mostRecords spot.tree
        rw [← hnames]
        refine ⟨Nat.le_refl 1, ?_⟩
        unfold mostRecords
        split <;> simp
      · change ∀ n ∈ names, n.name ≠ ""
        rw [← hnames]
        exact forall_mem_singleton.mpr (hname name rfl)
    | supertype kind isExtends written => cases hmain
    | _ => cases hsignature rfl

end

section

variable {unit : Tree}

lemma isSite_eq_isReference (hnamed : s.isDeclaration → (d.nameOf? s.tree).isSome) :
    s.isSite d = s.isReference := by
  unfold Spot.isSite Spot.isReference
  cases hapart : s.view.isApart with
  | true => rfl
  | false =>
    have hreported : isReported d s.tree = (siteLocation? s.tree).isSome := by
      by_cases htype : s.tree.kind.isTypeDeclaration
      · have hname := hnamed (by simp [Spot.isDeclaration, hapart, htype])
        simp [isReported, siteLocation?, htype, hname]
      · unfold isReported siteLocation?
        revert htype
        cases s.tree.kind <;> simp [isTypeDeclaration, isCallable]
    rw [hreported]

namespace Enrolls

variable {entries : List Entry}

section

variable (h : Enrolls d source unit entries) (hparse : parse? source = some unit)
  (hunit : holdsTypes unit) (hs : s ∈ Reference.spots d source unit (.ofUnit d))
include h hparse hunit hs

lemma exists_name
    (hdeclaration : s.isDeclaration) : ∃ name, d.nameOf? s.tree = some name ∧ name ≠ "" := by
  obtain ⟨e, he, rfl⟩ := mem_map.mp (mem_entries (kind_of_parse hparse)
    (shaped_of_parse hparse) hunit h hs hdeclaration)
  exact ⟨e.name, (h.faithful e he).known, h.named e he⟩

lemma frames_ne_nil
    (hapart : s.view.isApart = false) (hexplicit : s.tree.kind = .explicitConstructorInvocation) :
    s.view.frames ≠ [] := by
  have hshaped := shaped_of_parse hparse
  have hkind := kind_of_parse hparse
  have hplain : ¬ (s.view.isApart ∨ s.tree.kind.isBare ∨ s.tree.kind.isApart) := by
    simp [hapart, hexplicit, isBare, isApart]
  obtain ⟨c, hc, htype, hs⟩ := exists_typeChild hshaped hunit hs (by simp [hkind, hexplicit]) hplain
  obtain ⟨name, hname, _⟩ := h.exists_name hparse hunit
    (mem_spots_of_child hc (mem_spots_self c _)) (by
      simp [Spot.isDeclaration, htype, View.enter, View.ofUnit, setsApart, hkind, isApart])
  refine frames_ne_nil_of_code (hshaped.parts c hc) htype hname hs ?_ hplain
  intro hsame
  rw [← hsame, hexplicit] at htype
  cases htype

end

end Enrolls

lemma kind_of_explicitCall {r : Report} (h : r.Describes d source s)
    (hexplicit : r.construct = .explicitConstructorCall) :
    s.tree.kind = .explicitConstructorInvocation := by
  cases r with
  | explicitCall cs keyword => exact h.1
  | supertype kind isExtends written =>
    simp only [construct, Construct.ofSupertype] at hexplicit
    split at hexplicit <;> cases hexplicit
  | _ => cases hexplicit

theorem sitesReported_of_parse (hparse : parse? source = some unit) (hunit : holdsTypes unit)
    (base : TypeIndex) (label : String) :
    let d := declarationsOf label source unit
    ∃ groups, SitesReported (.ofUnit (base.overlay d.types) source d) unit
      (analyzeUnit base label source unit).records groups := by
  intro d
  obtain ⟨entries, hentries⟩ : ∃ entries, Enrolls d source unit entries :=
    exists_entries_of_target hparse label
  obtain ⟨events, hreports, hholds, hspots, hsites, hidle⟩ := exists_events hparse
    (base.overlay d.types) d
  have hmain {e : Event} (he : e ∈ events.filter fun e => e.report.isMain) :
      e ∈ events ∧ e.report.isMain := List.mem_filter.mp he
  refine ⟨(events.filter fun e => e.report.isMain).map fun e =>
    (e.spot, e.records (.ofUnit (base.overlay d.types) source d)), ?records, ?spots, ?reports,
    ?sites, ?count⟩
  case records =>
    have hfilter : (analyzeUnit base label source unit).records.filter
        (fun r => r.location.isSite) =
        (reported (analyzeUnit base label source unit).records).filter
          fun r => r.location.isSite := by
      rw [reported, List.filter_filter]
      refine List.filter_congr fun r _ => ?_
      cases r.location <;> rfl
    rw [hfilter, show reported (analyzeUnit base label source unit).records = _ from
      reported_of_reports hreports, filter_flatMap_of fun e _ r hr => isSite_of_mem_records hr,
      List.flatMap_map]
  case spots =>
    intro g hg
    obtain ⟨e, he, rfl⟩ := List.mem_map.mp hg
    exact hspots e (hmain he).1
  case reports =>
    intro g hg
    obtain ⟨e, he, rfl⟩ := List.mem_map.mp hg
    exact Event.reports_of_describes (hholds e (hmain he).1).describes (hmain he).2
  case sites =>
    rw [List.map_map, List.filter_map, List.filter_filter]
    have hevents : (events.filter fun e => !e.spot.view.isApart && e.report.isMain) =
        events.filter Event.isMain :=
      List.filter_congr fun e _ => Bool.and_comm _ _
    have hreferences : sites d source unit (.ofUnit d) =
        (spots d source unit (.ofUnit d)).filter Spot.isReference := by
      refine List.filter_congr fun s hs => isSite_eq_isReference fun h => ?_
      obtain ⟨name, hname, _⟩ := hentries.exists_name hparse hunit hs h
      exact Option.isSome_iff_exists.mpr ⟨name, hname⟩
    rw [← hevents, hreferences] at hsites
    exact hsites
  case count =>
    intro g hg hapart
    obtain ⟨e, he, rfl⟩ := List.mem_map.mp hg
    obtain ⟨he, hreport⟩ := hmain he
    have hdescribes := (hholds e he).describes
    refine (hholds e he).count hidle hreport (fun name hname => ?_) fun hexplicit => ?_
    · rw [hname] at hdescribes
      obtain ⟨name', hname', hne⟩ := hentries.exists_name hparse hunit (hspots e he) (by
        simp [Spot.isDeclaration, show e.spot.view.isApart = false from hapart,
          show e.spot.tree.kind.isTypeDeclaration from hdescribes.1])
      have hsame : some name = some name' := hdescribes.2.symm.trans hname'
      exact Option.some.inj hsame ▸ hne
    · exact hentries.frames_ne_nil hparse hunit (hspots e he) hapart
        (kind_of_explicitCall hdescribes hexplicit)

end

/-- Here the call of `f` has two records, and constructors are called in both ways. -/
theorem sitesReported_of_chained_call :
    let source := ("interface I { void f(); } " ++
      "class A implements I { A() { this(1); } A(int i) {} public void f() {new A().f();} }").toList
    ∃ unit, parse? source = some unit ∧ holdsTypes unit ∧
      let d := declarationsOf "A.java" source unit
      ∃ groups, SitesReported (.ofUnit (TypeIndex.overlay d.types (.ofTypes [])) source d) unit
        (analyzeUnit (.ofTypes []) "A.java" source unit).records groups := by
  intro source
  obtain ⟨unit, hunit, htypes⟩ : ∃ unit, parse? source = some unit ∧ holdsTypes unit := by
    decide +kernel
  exact ⟨unit, hunit, htypes, sitesReported_of_parse hunit htypes (.ofTypes []) "A.java"⟩

end Xref.Reference

