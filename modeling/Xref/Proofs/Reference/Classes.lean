import Xref.Proofs.Reference.Census
import Xref.Proofs.Reference.Signature

/-!
# The classes of a unit

The collection of a unit and the walk over it agree on which classes there are. If all code of a
unit stands in declarations of types, each declaration of a type and each body of an anonymous class
or of an enum constant has a name of its own, and the walk reports what is declared in the body with
that name in front.
-/
open List Bool

namespace Xref.Reference

open Declaration Java Resolve Syntax Text

variable {d : Declarations} {v : View} {s x : Spot}

section

variable {source : List Char} {t : Tree} {p : Spot} {name : String}

lemma mem_spots_of_children (hp : p ∈ spots d source t v) (hx : x ∈ p.children d source) :
    x ∈ spots d source t v := by
  induction t using Tree.induction generalizing v with
  | step t ih =>
    rw [spots_cons] at hp
    rcases mem_cons.mp hp with rfl | hp
    · obtain ⟨c, hc, rfl⟩ := mem_map.mp hx
      exact mem_spots_of_child hc (mem_spots_self c _)
    · obtain ⟨c, hc, hp⟩ := exists_of_mem_innerSpots hp
      exact mem_spots_of_child hc (ih c hc hp)

lemma exists_parent (hs : s ∈ spots d source t v) :
    s = ⟨t, v⟩ ∨ ∃ p ∈ spots d source t v, ∃ c ∈ p.tree.children,
      s = ⟨c, p.view.enter d source p.tree c⟩ := by
  induction t using Tree.induction generalizing v with
  | step t ih =>
    rw [spots_cons] at hs
    rcases mem_cons.mp hs with rfl | hs
    · exact .inl rfl
    · obtain ⟨c, hc, hs⟩ := exists_of_mem_innerSpots hs
      rcases ih c hc hs with rfl | ⟨p, hp, hs⟩
      · exact .inr ⟨⟨t, v⟩, mem_spots_self t v, c, hc, rfl⟩
      · exact .inr ⟨p, mem_spots_of_child hc hp, hs⟩

lemma of_mem_spots {P : Tree → Prop} (hparts : ∀ t, P t → ∀ c ∈ t.children, P c) (h : P t)
    (hs : s ∈ spots d source t v) : P s.tree :=
  holds_of_mem (P := fun t _ => P t) (fun t _ => hparts t) h hs

lemma shaped_of_mem_spots (hshaped : t.Shaped) (hs : s ∈ spots d source t v) : s.tree.Shaped :=
  of_mem_spots (fun _ h => h.parts) hshaped hs

lemma view_of_bodyPart (hkind : Kind.holdsMembers p.tree.kind) (hx : x ∈ p.children d source) :
    x.view.frames = p.view.frames ∧ x.view.isApart = p.view.isApart := by
  obtain ⟨c, _, rfl⟩ := mem_map.mp hx
  have hapart : setsApart p.tree c = false := by
    unfold setsApart
    revert hkind
    cases p.tree.kind <;> simp [Kind.holdsMembers, Kind.isBody, Kind.isApart]
  refine ⟨(enter_of_none (plain_of_through (isThrough_of_body hkind) c).1 _).2, ?_⟩
  simp [View.enter, hapart]

lemma view_of_bodyMember (hp : p ∈ spots d source t v) (hkind : p.tree.kind.isBody)
    (hx : x ∈ p.bodyMembers d source) :
    x ∈ spots d source t v ∧ x.view.frames = p.view.frames ∧ x.view.isApart = p.view.isApart := by
  obtain ⟨y, hy, hx⟩ := mem_flatMap.mp hx
  have hmem := mem_spots_of_children hp hy
  obtain ⟨hframes, hapart⟩ := view_of_bodyPart (by simp [Kind.holdsMembers, hkind]) hy
  unfold Spot.asMembers at hx
  split at hx
  case isTrue henum =>
    obtain ⟨hframes', hapart'⟩ := view_of_bodyPart (by simp [Kind.holdsMembers, henum]) hx
    exact ⟨mem_spots_of_children hmem hx, hframes'.trans hframes, hapart'.trans hapart⟩
  case isFalse =>
    rw [mem_singleton.mp hx]
    exact ⟨hmem, hframes, hapart⟩

lemma frames_of_anonymous (hshaped : t.Shaped) (hv : v.path = []) (hs : s ∈ spots d source t v)
    (hanonymous : s.isAnonymous) (hname : d.nameOf? s.tree = some name) :
    s.view.frames.head? = some name := by
  simp only [Spot.isAnonymous, and_eq_true, beq_iff_eq] at hanonymous
  obtain ⟨hbody, houter⟩ := hanonymous
  rcases exists_parent hs with rfl | ⟨p, hp, c, hc, rfl⟩
  · simp [Spot.outer?, hv] at houter
  · have hkind : p.tree.kind = .objectCreationExpression ∨ p.tree.kind = .enumConstant := by
      simpa [Spot.outer?, View.enter] using houter
    have hpshaped := shaped_of_mem_spots hshaped hp
    have hbody : c.kind = .classBody := hbody
    have hname : d.nameOf? c = some name := hname
    have htype : typeEntered? d source p.tree c = some (name, []) := by
      rcases hkind with hkind | hkind
      · simp [typeEntered?, hkind, hbody, hname, Kind.isTypeDeclaration]
      · have hrole : c.role = some .body := by
          rcases hpshaped.fits.admitted c hc with hcomment | hadmits
          · have hcomment := hcomment.kind
            rw [hbody] at hcomment
            cases hcomment
          · rw [hkind] at hadmits
            exact eq_of_beq ((constantPart_of_admits hadmits).body.mpr hbody)
        simp [typeEntered?, hkind, hrole, hname, Kind.isTypeDeclaration]
    rw [(enter_of_some htype _).2, head?_cons]

lemma view_of_member (hshaped : t.Shaped) (hv : v.path = []) (hs : s ∈ spots d source t v)
    (hdeclaration : s.isDeclaration) (hname : d.nameOf? s.tree = some name)
    (hx : x ∈ s.members d source) :
    x ∈ spots d source t v ∧ x.view.frames.head? = some name ∧ x.view.isApart = false := by
  simp only [Spot.isDeclaration, and_eq_true, not_eq_true', or_eq_true]
    at hdeclaration
  obtain ⟨hapart, hkind⟩ := hdeclaration
  unfold Spot.members at hx
  split at hx
  case isTrue hbody =>
    have hbody := eq_of_beq hbody
    have hanonymous : s.isAnonymous := by
      refine hkind.resolve_left ?_
      simp [hbody, Kind.isTypeDeclaration]
    obtain ⟨hmem, hframes, hapart'⟩ := view_of_bodyMember hs (hbody ▸ rfl) hx
    exact ⟨hmem, hframes ▸ frames_of_anonymous hshaped hv hs hanonymous hname, hapart'.trans hapart⟩
  case isFalse hbody =>
    have hkind : s.tree.kind.isTypeDeclaration :=
      hkind.resolve_right (by simp [Spot.isAnonymous, hbody])
    obtain ⟨b, hb, hx⟩ := mem_flatMap.mp hx
    obtain ⟨hb, hrole⟩ := mem_filter.mp hb
    have hbmem := mem_spots_of_children hs hb
    obtain ⟨c, hc, rfl⟩ := mem_map.mp hb
    have hrole : c.role = some .body := eq_of_beq hrole
    have hsshaped := shaped_of_mem_spots hshaped hs
    have hcbody : c.kind.isBody := by
      refine isBody_of_child hsshaped hkind (child_of_single hsshaped ?_ hc hrole)
      obtain ⟨lacks, hshape⟩ := shape_typeDeclaration hkind
      simp [hshape, Shape.typeDeclaration]
    obtain ⟨hmem, hframes, hapart'⟩ := view_of_bodyMember hbmem hcbody hx
    have htype : typeEntered? d source s.tree c = some (name, s.tree.typeParameters source) := by
      simp [typeEntered?, hkind, hrole, hname]
    refine ⟨hmem, ?_, hapart'.trans ?_⟩
    · rw [hframes, (enter_of_some htype _).2, head?_cons]
    · have hset : setsApart s.tree c = false := by
        unfold setsApart
        revert hkind
        cases s.tree.kind <;> simp [Kind.isTypeDeclaration, Kind.isApart]
      simp [View.enter, hset, hapart]

end

def holdsTypes (unit : Tree) : Bool :=
  unit.children.all fun c => c.kind.isTypeDeclaration || List.contains
    [.packageDeclaration, .importDeclaration, .lineComment, .blockComment, .literal] c.kind

section

variable {source : List Char} {unit : Tree}

lemma exists_typeChild (hshaped : unit.Shaped) (hunit : holdsTypes unit)
    (hs : s ∈ spots d source unit v) (hne : s.tree.kind ≠ unit.kind)
    (hplain : ¬ (s.view.isApart ∨ s.tree.kind.isBare ∨ s.tree.kind.isApart)) :
    ∃ c ∈ unit.children, c.kind.isTypeDeclaration ∧
      s ∈ spots d source c (v.enter d source unit c) := by
  rw [spots_cons] at hs
  rcases mem_cons.mp hs with rfl | hs
  · exact absurd rfl hne
  · obtain ⟨c, hc, hs⟩ := exists_of_mem_innerSpots hs
    refine ⟨c, hc, ?_, hs⟩
    have hitem := all_eq_true.mp hunit c hc
    by_cases htype : c.kind.isTypeDeclaration
    · exact htype
    · have hbare : c.kind.isBare := by
        revert hitem htype
        cases c.kind <;> decide
      exact absurd (plain_of_mem (hshaped.parts c hc) (.inl hbare) hs) hplain

lemma mem_entries (hkind : unit.kind = .program) (hshaped : unit.Shaped)
    (hunit : holdsTypes unit) {entries : List Entry} (hentries : Enrolls d source unit entries)
    (hs : s ∈ spots d source unit (.ofUnit d)) (hdeclaration : s.isDeclaration) :
    s ∈ entries.map Entry.spot := by
  have hheaded : s.tree.kind.isHeaded := by
    by_contra hheaded
    rw [isDeclaration_of_kind (by simpa using hheaded)] at hdeclaration
    cases hdeclaration
  have hapart : s.view.isApart = false := by
    simp only [Spot.isDeclaration, and_eq_true, not_eq_true'] at hdeclaration
    exact hdeclaration.1
  have hplain : s.tree.kind ≠ .program ∧ s.tree.kind.isBare = false ∧
      s.tree.kind.isApart = false := by
    revert hheaded
    cases s.tree.kind <;> decide
  obtain ⟨c, hc, htype, hs⟩ := exists_typeChild hshaped hunit hs (hkind ▸ hplain.1)
    (by simp [hapart, hplain.2])
  exact hentries.complete c hc htype s hs hdeclaration

end

variable {source : List Char} {unit : Tree}

lemma exists_event_of_site (hparse : parse? source = some unit) (base : TypeIndex) (label : String)
    (hx : x ∈ sites (declarationsOf label source unit) source unit
      (.ofUnit (declarationsOf label source unit))) :
    let d := declarationsOf label source unit
    let st := Setting.ofUnit (base.overlay d.types) source d
    ∃ e : Event, e.spot = x ∧ e.report.isMain ∧ (∃ m : Memory, m.active = [] ∧ e.Holds st m) ∧
      e.records st ⊆ (analyzeUnit base label source unit).records := by
  intro d st
  obtain ⟨events, hreports, hholds, _, hsites, hidle⟩ := exists_events hparse
    (base.overlay d.types) d
  obtain ⟨e, he, rfl⟩ := mem_map.mp (hsites.mem_iff.mpr hx)
  obtain ⟨he, hmain⟩ := mem_filter.mp he
  simp only [Event.isMain, and_eq_true] at hmain
  refine ⟨e, rfl, hmain.1, ⟨_, hidle, hholds e he⟩, fun r hr => ?_⟩
  have hmem : r ∈ reported (analyzeUnit base label source unit).records := by
    rw [show reported (analyzeUnit base label source unit).records =
      _ from reported_of_reports hreports]
    exact mem_flatMap.mpr ⟨e, he, hr⟩
  exact (mem_filter.mp hmem).1

/-- The records say that the declaration of a method at a spot belongs to the type `owner`. -/
def Spot.IsReportedFor (st : Setting) (records : List Record) (owner : String) (x : Spot) : Prop :=
  ∃ name r params, x.tree.child? .name = some name ∧ r ∈ records ∧ r.location = .method ∧
    r.span = st.lines.span name.start name.stop ∧
    r.name = st.declarations.display (owner ++
      ((declaredName? st.source x.tree).elim "" fun m => "." ++ m) ++ "(" ++ params ++ ")")

lemma isReportedFor_of_frame (hparse : parse? source = some unit) (base : TypeIndex)
    (label : String)
    (hx : x ∈ spots (declarationsOf label source unit) source unit
      (.ofUnit (declarationsOf label source unit)))
    (hapart : x.view.isApart = false) (hkind : x.tree.kind.isCallable) {owner : String}
    (hframe : x.view.frames.head? = some owner) : let d := declarationsOf label source unit
    x.IsReportedFor (.ofUnit (base.overlay d.types) source d)
      (analyzeUnit base label source unit).records owner := by
  intro d
  have hsite : x ∈ sites d source unit (.ofUnit d) :=
    mem_filter.mpr ⟨hx, by simp [Spot.isSite, hapart, isReported, hkind]⟩
  obtain ⟨e, rfl, hmain, ⟨m, hm, hholds⟩, hrecords⟩ := exists_event_of_site hparse base label hsite
  obtain ⟨name, params, hname, _, _, hrecord⟩ := hholds.declared hm hmain hkind
  rw [hrecord] at hrecords
  refine ⟨name, _, joinWith "," ((params.map Prod.snd).map TypeName.name), hname,
    hrecords mem_cons_self, rfl, rfl, ?_⟩
  rw [hframe]
  exact congrArg d.display (name_declaredSignature owner _ _)

/-- The declarations of types and the bodies of other classes, in the order in which they begin. -/
def classesOf (d : Declarations) (source : List Char) (unit : Tree) : List Spot :=
  (spots d source unit (.ofUnit d)).filter Spot.isDeclaration

/-- The class at a spot is called `name`, there is a type with that name, and the walk is in it
where it comes to the members. -/
structure Spot.IsClass (st : Setting) (records : List Record) (name : String) (s : Spot) :
    Prop where
  entry : (s.tree.start, name) ∈ st.declarations.names
  found : st.declarations.nameOf? s.tree = some name
  type : ∃ info ∈ st.declarations.types, info.name = name
  inside : ∀ x ∈ s.members st.declarations st.source, x.view.frames.head? = some name
  reported : ∀ x ∈ s.members st.declarations st.source, x.tree.kind.isCallable →
    x.IsReportedFor st records name

/-- The collection of a unit and the walk over it agree on which classes there are. -/
structure ClassesAgree (st : Setting) (unit : Tree) (records : List Record) : Prop where
  starts : ((classesOf st.declarations st.source unit).map fun s => s.tree.start).Pairwise (· < ·)
  entries : (st.declarations.names.map Prod.fst).Nodup
  named : ∀ s ∈ classesOf st.declarations st.source unit, ∃ name, s.IsClass st records name

lemma starts_classesOf (hparse : parse? source = some unit) (d : Declarations) :
    ((classesOf d source unit).map fun s => s.tree.start).Pairwise (· < ·) := by
  have hheads := (placed_of_parse hparse).2
  rw [← starts_of_heads d source unit (.ofUnit d)] at hheads
  have hle : classesOf d source unit =
      ((spots d source unit (.ofUnit d)).filter Spot.isHead).filter Spot.isDeclaration := by
    rw [filter_filter]
    refine filter_congr fun s _ => ?_
    by_cases hhead : s.isHead
    · simp [hhead]
    · rw [isDeclaration_of_kind (by simpa [Spot.isHead] using hhead), Bool.false_and]
  rw [hle]
  exact hheads.sublist (filter_sublist.map _)

lemma Enrolls.nodup_starts {entries : List Entry} (h : Enrolls d source unit entries)
    (hparse : parse? source = some unit) : (d.names.map Prod.fst).Nodup := by
  have hstarts := h.spots.map fun s => s.tree.start
  rw [map_map, starts_of_heads] at hstarts
  have hnodup := ((placed_of_parse hparse).2.imp fun h => Nat.ne_of_lt h).sublist hstarts
  rw [h.names, map_reverse, map_map]
  exact nodup_reverse.mpr hnodup

theorem classesAgree_of_parse {source : List Char} {unit : Tree}
    (hparse : parse? source = some unit) (hunit : holdsTypes unit) (base : TypeIndex)
    (label : String) :
    let d := declarationsOf label source unit
    ClassesAgree (.ofUnit (base.overlay d.types) source d) unit
      (analyzeUnit base label source unit).records := by
  intro d
  have hshaped := shaped_of_parse hparse
  have hkind := kind_of_parse hparse
  obtain ⟨entries, hentries⟩ := exists_entries_of_target hparse label
  refine ⟨starts_classesOf hparse d, hentries.nodup_starts hparse, fun s hs => ?_⟩
  obtain ⟨hs, hdeclaration⟩ := List.mem_filter.mp hs
  obtain ⟨e, he, rfl⟩ := List.mem_map.mp (mem_entries hkind hshaped hunit hentries hs hdeclaration)
  have hfaithful := hentries.faithful e he
  have hview {x : Spot} (hx : x ∈ e.spot.members d source) :=
    view_of_member hshaped rfl hs hdeclaration hfaithful.known hx
  refine ⟨e.name, ?_, hfaithful.known, ⟨e.info, ?_, hfaithful.name⟩, fun x hx => (hview hx).2.1,
    fun x hx hcallable => ?_⟩
  · change e.key ∈ d.names
    rw [show d.names = _ from hentries.names]
    exact List.mem_reverse.mpr (List.mem_map_of_mem he)
  · exact hentries.types.mem_iff.mpr (List.mem_map_of_mem he)
  · obtain ⟨hx, hframe, hapart⟩ := hview hx
    exact isReportedFor_of_frame hparse base label hx hapart hcallable hframe

/-- Here there is a local class in an anonymous class in an argument. -/
theorem classesAgree_of_argument :
    let source :=
      "class A { void m(A a) { m(new A() { void f() { class B { void g() {} } } }); } }".toList
    ∃ unit, parse? source = some unit ∧ holdsTypes unit ∧
      let d := declarationsOf "A.java" source unit
      ClassesAgree (.ofUnit (TypeIndex.overlay d.types (.ofTypes [])) source d) unit
        (analyzeUnit (.ofTypes []) "A.java" source unit).records := by
  intro source
  obtain ⟨unit, hunit, htypes⟩ : ∃ unit, parse? source = some unit ∧ holdsTypes unit := by
    decide +kernel
  exact ⟨unit, hunit, htypes, classesAgree_of_parse hunit htypes (.ofTypes []) "A.java"⟩

end Xref.Reference
