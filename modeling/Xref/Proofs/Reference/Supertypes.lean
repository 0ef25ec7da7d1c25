import Xref.Proofs.Reference.Numbering
import Xref.Proofs.Reference.WrittenTypes
import Xref.Proofs.Resolve.Acyclic

/-!
# Supertypes that are reported and supertypes that are searched

A walk reports the supertypes of a declaration as it binds them there. Members are searched in the
supertypes that the resolver works out from what was collected. The two agree for a type whose name
no other type of the unit has, unless a local class is named or a generic constructor is around it.
-/
open List

namespace Xref.Reference

open Declaration Java Resolve Syntax Text

section

variable {t written : Tree}
variable {lacks : Label → Bool} {P : Tree → Prop} {isExtends : Bool}

lemma of_mem_typesOf (hparts : ∀ t, P t → ∀ c ∈ t.children, P c) {clause : Tree} (h : P clause)
    (hwritten : written ∈ Tree.typesOf (some clause)) : P written ∧ written.kind.isType := by
  obtain ⟨hmem, htype⟩ := mem_filter.mp hwritten
  refine ⟨?_, htype⟩
  split at hmem
  · exact hparts clause h written hmem
  · cases hlist : clause.childOf? .typeList with
    | none =>
      rw [hlist] at hmem
      exact hparts clause h written hmem
    | some list =>
      rw [hlist] at hmem
      exact hparts list (hparts clause h list (mem_of_find?_eq_some hlist)) written hmem

lemma of_mem_supertypeTrees (hparts : ∀ t, P t → ∀ c ∈ t.children, P c) (h : P t)
    (hwritten : written ∈ supertypeTrees t isExtends) : P written ∧ written.kind.isType := by
  have hclause {clause : Option Tree} (hmem : ∀ c, clause = some c → c ∈ t.children)
      (hwritten : written ∈ Tree.typesOf clause) : P written ∧ written.kind.isType := by
    cases clause with
    | none => cases hwritten
    | some c => exact of_mem_typesOf hparts (hparts t h c (hmem c rfl)) hwritten
  cases isExtends with
  | true =>
    rcases mem_append.mp hwritten with hwritten | hwritten
    · exact hclause (fun c hc => Tree.mem_of_child? hc) hwritten
    · exact hclause (fun c hc => mem_of_find?_eq_some hc) hwritten
  | false => exact hclause (fun c hc => Tree.mem_of_child? hc) hwritten

section

variable (hshaped : t.Shaped) (hshape : t.kind.shape = .typeDeclaration lacks)
include hshaped hshape

lemma typePart_of_child {c : Tree} (hc : c ∈ t.children)
    (hkind : c.kind.isComment = false) : TypePart lacks c.label := by
  refine typePart_of_admits (hshape ▸ (hshaped.fits.admitted c hc).resolve_left fun hremark => ?_)
  rw [hremark.kind] at hkind
  cases hkind

lemma typesOf_superclass (hwritten : written ∈ Tree.typesOf (t.child? .superclass)) :
    superclassTree? t = some written := by
  cases hc : t.child? .superclass with
  | none =>
    rw [hc] at hwritten
    cases hwritten
  | some c =>
    obtain ⟨hrole, hadmits⟩ := Tree.admits_of_child hshaped hc
    have hkind : c.kind = .superclass := (typePart_of_admits (hshape ▸ hadmits)).superclass hrole
    have hfits := (hshaped.parts c (Tree.mem_of_child? hc)).fits
    rw [hkind] at hfits
    have hlist : c.childOf? .typeList = none := by
      refine find?_eq_none.mpr fun x hx hlist => ?_
      have hlist : x.kind = .typeList := eq_of_beq hlist
      rcases hfits.admitted x hx with hremark | hadmits
      · have hcomment := hremark.kind
        rw [hlist] at hcomment
        cases hcomment
      · simp [Kind.shape, Kind.isBare, Label.ofKind, Tree.label, hlist] at hadmits
    have htypes : Tree.typesOf (some c) = (c.children.find? fun x => x.kind.isType).toList := by
      rw [← Tree.filter_eq_find? (hfits.singleType rfl)]
      simp [Tree.typesOf, hkind, hlist]
    rw [superclassTree?, hc, htypes]
    rw [hc, htypes, Option.mem_toList] at hwritten
    rw [Option.mem_def.mp hwritten]
    rfl

lemma child_of_lacks {r : Role}
    (hlacks : ∀ l : Label, l.inRole r → lacks l) : t.child? r = none := by
  by_contra hsome
  obtain ⟨c, hc⟩ := Option.ne_none_iff_exists'.mp hsome
  obtain ⟨hrole, hadmits⟩ := Tree.admits_of_child hshaped hc
  have hpresent := (typePart_of_admits (hshape ▸ hadmits)).present
  rw [hlacks _ hrole] at hpresent
  cases hpresent

lemma childOf_of_lacks {k : Kind} (hkind : k.isComment = false)
    (hlacks : ∀ l : Label, l.ofKind k → lacks l) : t.childOf? k = none := by
  by_contra hsome
  obtain ⟨c, hc⟩ := Option.ne_none_iff_exists'.mp hsome
  have hc' : c.kind = k := eq_of_beq (find?_some (p := fun c : Tree => c.kind == k) hc)
  have hpresent := (typePart_of_child hshaped hshape (mem_of_find?_eq_some hc)
    (hc'.symm ▸ hkind)).present
  rw [hlacks _ (beq_iff_eq.mpr hc')] at hpresent
  cases hpresent

end

lemma superclassTree_of_mem (hshaped : t.Shaped) (hkind : t.kind = .classDeclaration)
    (hwritten : written ∈ supertypeTrees t true) : superclassTree? t = some written := by
  have hshape : t.kind.shape = .typeDeclaration fun l => l.ofKind .extendsInterfaces := by
    rw [hkind]
    rfl
  rw [supertypeTrees, childOf_of_lacks hshaped hshape rfl fun _ h => h] at hwritten
  exact typesOf_superclass hshaped hshape (by simpa [Tree.typesOf] using hwritten)

lemma mem_interfaceTrees (hshaped : t.Shaped) (htype : t.kind.isTypeDeclaration)
    (hother : t.kind = .classDeclaration → isExtends = false)
    (hwritten : written ∈ supertypeTrees t isExtends) : written ∈ interfaceTrees t := by
  have hcases : t.kind = .classDeclaration ∨ t.kind = .interfaceDeclaration ∨
      t.kind ≠ .interfaceDeclaration ∧ t.kind.shape =
        .typeDeclaration fun l => l.inRole .superclass || l.ofKind .extendsInterfaces := by
    revert htype
    cases t.kind <;> simp [Kind.isTypeDeclaration] <;> rfl
  rcases hcases with hkind | hkind | ⟨hkind, hshape⟩
  · rw [hother hkind] at hwritten
    simpa [interfaceTrees, hkind, supertypeTrees] using hwritten
  · have hshape : t.kind.shape =
        .typeDeclaration fun l => l.inRole .superclass || l.inRole .interfaces := by
      rw [hkind]
      rfl
    have hsuper := child_of_lacks (r := .superclass) hshaped hshape (by simp +contextual)
    have hinterfaces := child_of_lacks (r := .interfaces) hshaped hshape (by simp +contextual)
    cases isExtends with
    | true =>
      rw [supertypeTrees, hsuper] at hwritten
      rw [interfaceTrees, hkind]
      simpa [Tree.typesOf] using hwritten
    | false =>
      rw [supertypeTrees, hinterfaces] at hwritten
      cases hwritten
  · have hsuper := child_of_lacks (r := .superclass) hshaped hshape (by simp +contextual)
    have hclause := childOf_of_lacks (k := .extendsInterfaces) hshaped hshape rfl
      (by simp +contextual)
    cases isExtends with
    | true =>
      rw [supertypeTrees, hsuper, hclause] at hwritten
      cases hwritten
    | false => simpa [interfaceTrees, hkind, supertypeTrees] using hwritten

end

section

variable {d : Declarations} {source : List Char} {unit : Tree} {s : Spot}

lemma within_of_mem_spots (hparse : parse? source = some unit) {v : View}
    (hs : s ∈ spots d source unit v) (hkind : s.tree.kind ≠ .program) : s.tree.Within source := by
  have hunit := kind_of_parse hparse
  refine (of_mem_spots (P := fun t => t = unit ∨ t.Within source) ?_ (.inl rfl) hs).resolve_left
    fun heq => hkind (heq ▸ hunit)
  rintro t (rfl | hwithin) c hc
  · exact .inr (within_of_parse hparse c hc)
  · exact .inr (hwithin.parts c hc)

lemma exists_entry_of_spot (hparse : parse? source = some unit) {entries : List Entry}
    (h : Enrolls d source unit entries) (hs : s ∈ spots d source unit (.ofUnit d))
    (hhead : s.isHead) {name : String} (hname : d.nameOf? s.tree = some name) :
    ∃ e ∈ entries, e.spot = s ∧ e.name = name := by
  obtain ⟨e, he, rfl, hstart⟩ := exists_entry_of_name h hname
  obtain ⟨hspot, hhead'⟩ := spot_of_mem h he
  exact ⟨e, he, eq_of_start (placed_of_parse hparse).2 hspot hs hhead' hhead hstart, rfl⟩

def IsSole (types : List TypeInfo) (name : String) : Prop :=
  ∀ t ∈ types, ∀ t' ∈ types, t.name = name → t'.name = name → t = t'

instance (types : List TypeInfo) (name : String) : Decidable (IsSole types name) :=
  inferInstanceAs (Decidable (∀ t ∈ types, ∀ t' ∈ types, _))

lemma IsSole.info_eq {types : List TypeInfo} {t : TypeInfo} (h : IsSole types t.name)
    (ht : t ∈ types) (base : TypeIndex) : (base.overlay types).info t.name = some t := by
  have hfound : types.find? (fun x => x.name == t.name) = some t := by
    cases hfind : types.find? fun x => x.name == t.name with
    | none => simpa using find?_eq_none.mp hfind t ht
    | some x =>
      have hname : x.name = t.name := by simpa using find?_some hfind
      rw [h x (mem_of_find?_eq_some hfind) t ht hname rfl]
  simp [TypeIndex.overlay, TypeIndex.ofTypes, hfound]

end

/-- The event reports the supertype `written` of the type `name`. No other type of the unit has that
name, no generic constructor is around the declaration, and no local class in scope is called what
`written` begins with. -/
structure Event.IsSupertype (st : Setting) (e : Event) (written : Tree) (name : String) : Prop where
  report : ∃ kind isExtends, e.report = .supertype kind isExtends written
  named : st.declarations.nameOf? e.spot.tree = some name
  sole : IsSole st.declarations.types name
  plain : e.spot.view.isPlain st.source
  unshadowed : Unshadowed e.scopes (written.erased st.source)

/-- The supertypes that `events` report as bound are the supertypes that the resolver finds,
whatever it was asked before. -/
structure SupertypesAgree (st : Setting) (events : List Event) : Prop where
  superclass : ∀ e ∈ events, ∀ written name s, e.IsSupertype st written name →
    e.report.construct = .superclass → name ≠ objectName → e.names = [.resolved s] →
      ∀ history, answer st.index history (.superclass name) = some s
  interfaces : ∀ e ∈ events, ∀ written name s, e.IsSupertype st written name →
    e.report.construct = .superinterface → e.names = [.resolved s] →
      ∀ history, s ∈ (answer st.index history (.supertypes name)).interfaces

section

variable {st : Setting} {m : Memory} {e : Event} {written : Tree} {name : String}

lemma Event.IsSupertype.superclassTree_eq (h : e.IsSupertype st written name)
    (hshaped : e.spot.tree.Shaped) (hholds : e.Holds st m)
    (hconstruct : e.report.construct = .superclass) :
    superclassTree? e.spot.tree = some written := by
  obtain ⟨kind, isExtends, hreport⟩ := h.report
  have hdescribes := hholds.describes
  rw [hreport] at hconstruct hdescribes
  obtain ⟨htype, -, rfl, hwritten⟩ := hdescribes
  rw [Report.construct, Construct.ofSupertype] at hconstruct
  split at hconstruct
  case isTrue hextends =>
    simp only [Bool.and_eq_true, beq_iff_eq] at hextends
    have hkind : e.spot.tree.kind = .classDeclaration := by
      revert htype hextends
      cases e.spot.tree.kind <;> simp [Kind.isTypeDeclaration, declaredKind]
    exact superclassTree_of_mem hshaped hkind (hextends.2 ▸ hwritten)
  case isFalse => cases hconstruct

lemma Event.IsSupertype.mem_interfaceTrees (h : e.IsSupertype st written name)
    (hshaped : e.spot.tree.Shaped) (hholds : e.Holds st m)
    (hconstruct : e.report.construct = .superinterface) : written ∈ interfaceTrees e.spot.tree := by
  obtain ⟨kind, isExtends, hreport⟩ := h.report
  have hdescribes := hholds.describes
  rw [hreport] at hconstruct hdescribes
  obtain ⟨htype, -, rfl, hwritten⟩ := hdescribes
  refine Reference.mem_interfaceTrees hshaped htype (fun hkind => ?_) hwritten
  rw [hkind] at hconstruct
  cases isExtends with
  | true => cases hconstruct
  | false => rfl

end

variable {written : Tree} {st : Setting} {scopes : List Scope}

/-- The type that was collected for the declaration, and what the reported name was bound to. -/
structure Event.Matches (st : Setting) (history : List Question) (e : Event) (written : Tree)
    (name s : String) (info : TypeInfo) : Prop where
  found : st.index.info name = some info
  called : info.name = name
  bound : ∃ ctx, answer st.index history (.refName (writtenRef (written.erased st.source) ctx)) =
      .resolved s ∧
    info.superclass = (superclassTree? e.spot.tree).map (fun t =>
      writtenRef (t.erased st.source) ctx) ∧
    info.interfaces = (interfaceTrees e.spot.tree).map fun t => writtenRef (t.erased st.source) ctx

lemma Asks.supertype (place : Place) (h : Unshadowed scopes (written.erased place.source))
    (htight : Tight (written.erased place.source)) (kind : TypeKind) (isExtends : Bool) (t : Tree) :
    Asks place scopes (Report.names t (.supertype kind isExtends written))
      (place.index.refName (writtenRef (written.erased place.source) place.context) >>= fun name =>
        Pure.pure [name]) := by
  have herased (s : WalkState) (_ : s.scopes = scopes) :
      Walk.erased written place s = (written.erased place.source, s) := rfl
  refine bind (after herased ?_) fun name => pure _
  rw [withDims_zero]
  exact refName h htight

lemma Event.Holds.refName {m : Memory} {kind : TypeKind} {isExtends : Bool} {spot : Spot}
    {name : TypeName}
    (h : Event.Holds st m ⟨.supertype kind isExtends written, spot, scopes, [name]⟩)
    (hm : m.active = []) (hunshadowed : Unshadowed scopes (written.erased st.source))
    (htight : Tight (written.erased st.source)) :
    (st.index.refName (writtenRef (written.erased st.source)
      (spot.view.context.declaring (spot.tree.typeParameters st.source))) m).1 = name := by
  have hfinds : (Report.names spot.tree (.supertype kind isExtends written)).query
      ((spot.view.declaring (spot.tree.typeParameters st.source)).setting st) scopes m =
      ([name], m) := h.finds hm
  rw [(Asks.supertype { (spot.view.declaring (spot.tree.typeParameters st.source)).setting st with
    remembering := .never, path := [] } hunshadowed htight kind isExtends spot.tree).query,
    bind_apply] at hfinds
  exact head_eq_of_cons_eq (Prod.mk.inj hfinds).1

section

variable {unit : Tree} {entries : List Entry} (hparse : parse? st.source = some unit)
  (hentries : Enrolls st.declarations st.source unit entries) {base : TypeIndex}
  (hindex : st.index = base.overlay st.declarations.types) {history : List Question}
include hparse hentries hindex

lemma Event.IsSupertype.exists_matches {e : Event} {name s : String}
    (h : e.IsSupertype st written name)
    (hspot : e.spot ∈ spots st.declarations st.source unit (.ofUnit st.declarations))
    (hholds : e.Holds st (after st.index history)) (hidle : (after st.index history).active = [])
    (hnames : e.names = [.resolved s]) : ∃ info, e.Matches st history written name s info := by
  obtain ⟨⟨kind, isExtends, hreport⟩, hnamed, hsole, hplain, hunshadowed⟩ := h
  obtain ⟨report, spot, scopes, names⟩ := e
  subst hreport hnames
  obtain ⟨htype, -, -, hwritten⟩ := hholds.describes
  obtain ⟨entry, hentry, rfl, rfl⟩ := exists_entry_of_spot hparse hentries hspot
    (by simp [Spot.isHead, Kind.isHeaded, htype]) hnamed
  have hfaithful := hentries.faithful entry hentry
  have hdescribes := hfaithful.describes htype
  have hinfo : entry.info ∈ st.declarations.types :=
    hentries.types.mem_iff.mpr (mem_map_of_mem hentry)
  -- the supertype stands in the source because the declaration does
  obtain ⟨⟨hshaped, hwithin⟩, hkind⟩ :=
    of_mem_supertypeTrees (P := fun t => t.Shaped ∧ t.Within st.source)
      (fun t h c hc => ⟨h.1.parts c hc, h.2.parts c hc⟩)
      ⟨shaped_of_mem_spots (shaped_of_parse hparse) hspot, within_of_mem_spots hparse hspot
        (by rintro hkind; rw [hkind] at htype; cases htype)⟩ hwritten
  refine ⟨entry.info, ?_, hfaithful.name,
    entry.spot.view.context.declaring (entry.spot.tree.typeParameters st.source),
    hholds.refName hidle hunshadowed (tight_erased hshaped hwithin hkind), ?_, ?_⟩
  · have hfound := IsSole.info_eq (hfaithful.name.symm ▸ hsole) hinfo base
    rwa [hfaithful.name, ← hindex] at hfound
  · rw [hdescribes.superclass, hfaithful.context.plain hplain]
  · rw [hdescribes.interfaces, hfaithful.context.plain hplain]

lemma supertypesAgree_of_enrolls (hacyclic : Acyclic st.index)
    (hidle : (after st.index history).active = []) {events : List Event}
    (hholds : ∀ e ∈ events, e.Holds st (after st.index history))
    (hspots : ∀ e ∈ events, e.spot ∈ spots st.declarations st.source unit
      (.ofUnit st.declarations)) :
    SupertypesAgree st events := by
  have hshaped (e : Event) (he : e ∈ events) : e.spot.tree.Shaped :=
    shaped_of_mem_spots (shaped_of_parse hparse) (hspots e he)
  constructor
  · intro e he written name s hevent hconstruct hobject hnames
    obtain ⟨info, hfound, hcalled, ctx, hbound, hsuper, -⟩ :=
      hevent.exists_matches hparse hentries hindex (hspots e he) (hholds e he) hidle hnames
    refine hacyclic.superclass_eq hfound hbound hcalled hobject ?_
    rw [hsuper, hevent.superclassTree_eq (hshaped e he) (hholds e he) hconstruct]
    rfl
  · intro e he written name s hevent hconstruct hnames
    obtain ⟨info, hfound, hcalled, ctx, hbound, -, hinterfaces⟩ :=
      hevent.exists_matches hparse hentries hindex (hspots e he) (hholds e he) hidle hnames
    refine hacyclic.mem_interfaces hfound hbound ?_
    rw [hinterfaces]
    exact mem_map_of_mem (hevent.mem_interfaceTrees (hshaped e he) (hholds e he) hconstruct)

end

/-- A walk over a unit leaves a resolver that was asked some questions, and the supertypes that it
reports are those that this resolver finds. -/
theorem supertypesAgree_of_parse {source : List Char} {unit : Tree}
    (hparse : parse? source = some unit) (base : TypeIndex) (label : String) :
    let d := declarationsOf label source unit
    let st := Setting.ofUnit (base.overlay d.types) source d
    let final := collect (Place.ofUnit (base.overlay d.types) source d) unit
    Acyclic st.index → (∃ history, final.memory = after st.index history) ∧
      ∃ events : List Event, final.reports = events.flatMap (Event.finds st) ∧
        (∀ e ∈ events, e.Holds st final.memory ∧ e.spot ∈ spots d source unit (.ofUnit d)) ∧
        SupertypesAgree st events := by
  intro d st final hacyclic
  obtain ⟨entries, hentries⟩ : ∃ entries, Enrolls st.declarations st.source unit entries :=
    exists_entries_of_target hparse label
  obtain ⟨history, hhistory⟩ := exists_history hparse (base.overlay d.types) d
  obtain ⟨events, hreports, hholds, hspots, -, hidle⟩ :=
    exists_events hparse (base.overlay d.types) d
  refine ⟨⟨history, hhistory⟩, events, hreports, fun e he => ⟨hholds e he, hspots e he⟩, ?_⟩
  rw [hhistory] at hholds hidle
  have hindex : st.index = base.overlay st.declarations.types := rfl
  refine supertypesAgree_of_enrolls ?_ hentries hindex hacyclic hidle ?_ ?_
  · exact hparse
  · exact hholds
  · exact hspots

lemma exists_event_of_superclass {st : Setting} {events : List Event} {m : Memory}
    (hholds : ∀ e ∈ events, e.Holds st m) (hm : m.active = []) {f : Record × List Scope}
    (hf : f ∈ events.flatMap (Event.finds st)) (hstatus : f.1.status = .resolved)
    (hlocation : f.1.location = .inheritance) :
    ∃ e ∈ events, e.report.construct = .superclass ∧ e.scopes = f.2 ∧
      ∃ kind isExtends written s, e.report = .supertype kind isExtends written ∧
        written ∈ supertypeTrees e.spot.tree isExtends ∧ e.names = [.resolved s] := by
  obtain ⟨e, he, hscopes, name, hname, hrecord⟩ := exists_event_of_mem hf
  rw [hrecord] at hlocation hstatus
  have hconstruct : e.report.construct = .superclass := by
    change e.report.construct.location = _ at hlocation
    revert hlocation
    cases e.report.construct <;> decide
  refine ⟨e, he, hconstruct, hscopes, ?_⟩
  have hfinds := (hholds e he).finds hm
  have hdescribes := (hholds e he).describes
  cases hreport : e.report with
  | supertype kind isExtends written =>
    rw [hreport] at hfinds hdescribes
    obtain ⟨found, hfound⟩ : ∃ found, e.names = [found] := ⟨_, (Prod.mk.inj hfinds).1.symm⟩
    obtain rfl := mem_singleton.mp (hfound ▸ hname)
    have hresolved : name = .resolved name.name := congrArg (Java.TypeName.mk name.name) hstatus
    exact ⟨kind, isExtends, written, name.name, rfl, hdescribes.2.2.2, hresolved ▸ hfound⟩
  | _ =>
    rw [hreport] at hconstruct
    cases hconstruct

/-- A local class is in scope itself where its superclass is reported. -/
theorem supertypesAgree_of_local_class :
    let source := "class A { class B {} { class C extends B {} } }".toList
    ∃ unit, parse? source = some unit ∧
      let d := declarationsOf "A.java" source unit
      let st := Setting.ofUnit (TypeIndex.overlay d.types (.ofTypes [])) source d
      let final := collect (Place.ofUnit st.index source d) unit
      Acyclic st.index ∧
        (∃ f ∈ final.reports, f.1.location = .inheritance ∧ f.1.status = .resolved ∧
          f.2 = [{ localTypes := [("C", "A$1C")] }]) ∧
        ∀ history, answer st.index history (.superclass "A$1C") = some "A$B" := by
  intro source
  obtain ⟨unit, hunit, hacyclic, ⟨f, hf, hlocation, hstatus, hscopes⟩, hspots, hsole, hsuper⟩ :
      ∃ unit, parse? source = some unit ∧
      let d := declarationsOf "A.java" source unit
      let st := Setting.ofUnit (TypeIndex.overlay d.types (.ofTypes [])) source d
      let final := collect (Place.ofUnit st.index source d) unit
      isAcyclic st.index (fun q => if q = "A$1C" then 1 else 0) ∧
      (∃ f ∈ final.reports, f.1.location = .inheritance ∧ f.1.status = .resolved ∧
        f.2 = [{ localTypes := [("C", "A$1C")] }]) ∧
      (∀ x ∈ spots d source unit (.ofUnit d), ∀ isExtends,
        ∀ written ∈ supertypeTrees x.tree isExtends, d.nameOf? x.tree = some "A$1C" ∧
          x.view.isPlain source ∧ ¬ "C".toList <:+: (written.erased source).toList) ∧
      IsSole d.types "A$1C" ∧ answer st.index [] (.superclass "A$1C") = some "A$B" := by
    decide +kernel
  have hacyclic := acyclic_of_isAcyclic hacyclic
  obtain ⟨⟨history, hhistory⟩, events, hreports, hevents, hagree⟩ :=
    supertypesAgree_of_parse hunit (.ofTypes []) "A.java" hacyclic
  refine ⟨unit, hunit, hacyclic, ⟨f, hf, hlocation, hstatus, hscopes⟩, ?_⟩
  obtain ⟨e, he, hconstruct, hseen, kind, isExtends, written, s, heq, hwritten, hnames⟩ :=
    exists_event_of_superclass (fun e he => (hevents e he).1) (hhistory ▸ after_active _ _)
      ((congrArg (f ∈ ·) hreports).mp hf) hstatus hlocation
  obtain ⟨hnamed, hplain, hapart⟩ := hspots e.spot (hevents e he).2 isExtends written hwritten
  -- `C` is the only class that is bound, and `B` does not begin with it
  have hunshadowed : Unshadowed e.scopes (written.erased source) := by
    rw [hseen, hscopes, Unshadowed, forall_mem_singleton, forall_mem_singleton]
    rintro ⟨lead, rest, htext, -⟩
    exact hapart ⟨lead, rest, htext.symm⟩
  have hsuperclass := hagree.superclass e he written _ s
    ⟨⟨kind, isExtends, heq⟩, hnamed, hsole, hplain, hunshadowed⟩ hconstruct (by decide) hnames
  obtain rfl : s = "A$B" := Option.some.inj ((hsuperclass []).symm.trans hsuper)
  exact hsuperclass

/-- A local class that is a superclass is reported, but the resolver does not find it. -/
theorem superclass_of_local_class :
    let source :=
      "class A { void m() { class L { void h() {} } class M extends L { void g() { h(); } } } }"
        |>.toList
    ∃ unit, parse? source = some unit ∧
      let d := declarationsOf "A.java" source unit
      let index := TypeIndex.overlay d.types (.ofTypes [])
      let final := collect (Place.ofUnit index source d) unit
      Acyclic index ∧ IsSole d.types "A$1M" ∧
        (final.records.filter (·.location == .inheritance)).map (·.status) = [.resolved] ∧
        (index.superclass "A$1M" final.memory).1 = none := by
  intro source
  obtain ⟨unit, hunit, hacyclic, hcheck⟩ : ∃ unit, parse? source = some unit ∧
      let d := declarationsOf "A.java" source unit
      let index := TypeIndex.overlay d.types (.ofTypes [])
      let final := collect (Place.ofUnit index source d) unit
      isAcyclic index String.length ∧ IsSole d.types "A$1M" ∧
        (final.records.filter (·.location == .inheritance)).map (·.status) = [.resolved] ∧
        (index.superclass "A$1M" final.memory).1 = none := by decide +kernel
  exact ⟨unit, hunit, acyclic_of_isAcyclic hacyclic, hcheck⟩

end Xref.Reference

