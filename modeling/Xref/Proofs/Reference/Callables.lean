import Xref.Proofs.Reference.Supertypes

/-!
# Methods as they are declared and as they are called

A walk names a method by the types that it binds at its declaration, and a call by the types that
the resolver works out from what was collected. The two names are the same for a method whose owner
has a name of its own, unless a local class is named as the type of a parameter, a generic
constructor is around the declaration or is declared, or a compact constructor is not the only
constructor for as many arguments.
-/
open List

namespace Xref.Reference

open Declaration Java Resolve Syntax Text Spot

def Spot.parameters (source : List Char) (s : Spot) : List Parameter :=
  s.parameterHolder?.elim [] (Tree.parameters source)

/-- The method that is declared at a spot, as it is collected. A compact constructor is the
constructor with the components of its record. -/
def Spot.method? (source : List Char) (owner : String) (s : Spot) : Option MethodInfo :=
  if s.tree.kind = .compactConstructorDeclaration then
    s.view.path[1]?.map fun record => constructorOf source record owner s.view.context
  else declaredMethod? source s.tree owner s.view.context

variable {source : List Char} {owner : String} {s x : Spot} {d : Declarations} {t : Tree}

section

variable {method : MethodInfo}

lemma typeParameters_of_ungeneric (h : isGenericConstructor source t = false)
    (hkind : t.kind = .constructorDeclaration ∨ t.kind = .compactConstructorDeclaration) :
    t.typeParameters source = [] := by
  rcases hkind with hkind | hkind <;> simpa [isGenericConstructor, hkind] using h

lemma parameters_of_element (hshaped : t.Shaped)
    (hkind : t.kind = .annotationTypeElementDeclaration) : t.parameters source = [] := by
  have hnone : t.child? .parameters = none := by
    by_contra hsome
    obtain ⟨list, hlist⟩ := Option.ne_none_iff_exists'.mp hsome
    obtain ⟨hrole, hadmits⟩ := Tree.admits_of_child hshaped hlist
    have hvalue : list.label.inRole .value = false := by
      have hrole : list.role = some .parameters := eq_of_beq hrole
      simp [Label.inRole, Tree.label, hrole]
    simp [hkind, Kind.shape, Kind.isBare, hvalue, hrole] at hadmits
  simp [Tree.parameters, hnone]

lemma params_of_method (hshaped : s.tree.Shaped)
    (hgeneric : isGenericConstructor source s.tree = false)
    (h : s.method? source owner = some method) :
    method.params = paramRefs (s.parameters source)
      (s.view.context.declaring (s.tree.typeParameters source)) := by
  unfold method? at h
  split at h
  case isTrue hkind =>
    obtain ⟨record, hrecord, rfl⟩ := Option.map_eq_some_iff.mp h
    simp [parameters, parameterHolder?, hkind, hrecord, constructorOf, constructorInfo,
      typeParameters_of_ungeneric hgeneric (.inr hkind)]
  case isFalse hcompact =>
    have hparameters : s.parameters source = s.tree.parameters source := by
      simp [parameters, parameterHolder?, hcompact]
    rw [hparameters]
    unfold declaredMethod? at h
    split at h
    case h_1 =>
      obtain ⟨name, -, rfl⟩ := Option.map_eq_some_iff.mp h
      rfl
    case h_2 hkind =>
      cases h
      simp [constructorOf, constructorInfo, typeParameters_of_ungeneric hgeneric (.inl hkind)]
    case h_3 hkind =>
      rw [parameters_of_element hshaped hkind]
      simp only [elementOf?, Option.bind_eq_bind, Option.bind_eq_some_iff] at h
      obtain ⟨name, -, type, -, h⟩ := h
      cases h
      rfl
    case h_4 => cases h

lemma declaredName_of_method (h : s.method? source owner = some method) :
    declaredName? source s.tree = if method.isConstructor then none else some method.name := by
  unfold method? at h
  split at h
  case isTrue hkind =>
    obtain ⟨record, -, rfl⟩ := Option.map_eq_some_iff.mp h
    simp [declaredName?, hkind, constructorOf, constructorInfo]
  case isFalse =>
    unfold declaredMethod? at h
    split at h
    case h_1 hkind =>
      obtain ⟨name, hname, rfl⟩ := Option.map_eq_some_iff.mp h
      simp [declaredName?, hkind, hname, methodInfo]
    case h_2 hkind =>
      cases h
      simp [declaredName?, hkind, constructorOf, constructorInfo]
    case h_3 hkind =>
      simp only [elementOf?, Option.bind_eq_bind, Option.bind_eq_some_iff] at h
      obtain ⟨name, hname, type, -, h⟩ := h
      cases h
      simp [declaredName?, hkind, hname, methodInfo]
    case h_4 => cases h

end

/-- A compact constructor stands directly in the body of a record that declares no other constructor
for as many components. -/
structure Spot.IsCanonical (d : Declarations) (source : List Char) (s record : Spot) : Prop where
  kind : record.tree.kind = .recordDeclaration
  direct : s.view.path[1]? = some record.tree
  only : ∀ x ∈ record.members d source, x.tree.kind = .constructorDeclaration →
    (x.tree.parameters source).length ≠ (record.tree.parameters source).length

section

variable {ctx : Context}

lemma context_of_bodyMember (hkind : s.tree.kind.isBody) (h : Scoped source s.view ctx)
    (hx : x ∈ s.bodyMembers d source) : Scoped source x.view ctx := by
  have hpart {p y : Spot} (hholds : Kind.holdsMembers p.tree.kind) (hp : Scoped source p.view ctx)
      (hy : y ∈ p.children d source) : Scoped source y.view ctx := by
    obtain ⟨c, -, rfl⟩ := mem_map.mp hy
    obtain ⟨htype, hcallable⟩ := plain_of_through (isThrough_of_body hholds) c
    exact hp.enter_plain htype hcallable
  obtain ⟨y, hy, hx⟩ := mem_flatMap.mp hx
  have hy := hpart (by simp [Kind.holdsMembers, hkind]) h hy
  unfold asMembers at hx
  split at hx
  case isTrue henum => exact hpart (by simp [Kind.holdsMembers, henum]) hy hx
  case isFalse =>
    obtain rfl := mem_singleton.mp hx
    exact hy

lemma exists_declaredMethod (hshaped : t.Shaped) (hcallable : t.kind.isCallable)
    (hcompact : t.kind ≠ .compactConstructorDeclaration) (owner : String) (ctx : Context) :
    ∃ method, declaredMethod? source t owner ctx = some method := by
  unfold declaredMethod?
  rcases Kind.isCallable_cases hcallable with hkind | hkind | hkind | hkind
  · obtain ⟨name, hname⟩ := Tree.exists_child_of_kind hshaped hkind .name
    simp [hkind, methodOf?, Tree.nameText?, hname]
  · obtain ⟨name, hname⟩ := Tree.exists_child_of_kind hshaped hkind .name
    obtain ⟨type, htype⟩ := Tree.exists_child_of_kind hshaped hkind .type
    simp [hkind, elementOf?, Tree.nameText?, Tree.declaredType?, hname, htype]
  · simp [hkind]
  · exact absurd hkind hcompact

lemma constructor_of_declared {method : MethodInfo}
    (h : declaredMethod? source t owner ctx = some method) (hconstructor : method.isConstructor) :
    t.kind = .constructorDeclaration ∧ method.params.length = (t.parameters source).length := by
  unfold declaredMethod? at h
  split at h
  case h_1 =>
    obtain ⟨name, -, rfl⟩ := Option.map_eq_some_iff.mp h
    cases hconstructor
  case h_2 hkind =>
    cases h
    exact ⟨hkind, length_map _⟩
  case h_3 =>
    simp only [elementOf?, Option.bind_eq_bind, Option.bind_eq_some_iff] at h
    obtain ⟨name, -, type, -, h⟩ := h
    cases h
    cases hconstructor
  case h_4 => cases h

end

section

variable {e : Entry} (h : e.Faithful d source) (hshaped : e.spot.tree.Shaped)
  (hhead : e.spot.isHead) (hx : x ∈ e.spot.members d source) (hplain : x.view.isPlain source)
include h hshaped hhead hx hplain

lemma Entry.Faithful.inner_eq : e.inner source = x.view.context := by
  by_cases htype : e.spot.tree.kind.isTypeDeclaration
  · obtain ⟨body, hbody⟩ := exists_body hshaped htype
    have hentered : typeEntered? d source e.spot.tree body =
        some (e.name, e.spot.tree.typeParameters source) := by
      simp [typeEntered?, htype, Tree.role_of_child? hbody, h.known]
    rw [members_of_body d source hshaped htype hbody e.spot.view] at hx
    rw [Entry.inner, if_pos htype]
    exact (context_of_bodyMember (isBody_of_child hshaped htype hbody)
      (Agrees.of_type hentered h.context).context hx).plain hplain
  · have hbody : e.spot.tree.kind = .classBody := by
      simpa [isHead, Kind.isHeaded, htype] using hhead
    rw [members, if_pos (by simp [hbody])] at hx
    rw [Entry.inner, if_neg htype]
    exact (context_of_bodyMember (hbody ▸ rfl) h.context hx).plain hplain

lemma Entry.Faithful.exists_method (hxshaped : x.tree.Shaped) (hcallable : x.tree.kind.isCallable)
    (hcanonical : x.tree.kind = .compactConstructorDeclaration → x.IsCanonical d source e.spot) :
    ∃ method ∈ e.info.methods, x.method? source e.name = some method := by
  obtain ⟨members, hmembers, himplicit, hincluded⟩ := h.methods
  rw [h.inner_eq hshaped hhead hx hplain] at hmembers himplicit
  by_cases hcompact : x.tree.kind = .compactConstructorDeclaration
  · obtain ⟨hrecord, hdirect, honly⟩ := hcanonical hcompact
    have htype : e.spot.tree.kind.isTypeDeclaration := by rw [hrecord]; rfl
    have hkind : e.info.kind = .recordType := by rw [h.kind, hrecord]; rfl
    refine ⟨constructorOf source e.spot.tree e.name x.view.context, ?_, ?_⟩
    · rw [himplicit htype, hkind]
      refine canonical_mem_addComponents _ _ _ fun m hm hconstructor => ?_
      rw [hmembers] at hm
      obtain ⟨y, hy, hm⟩ := mem_filterMap.mp hm
      obtain ⟨hykind, hlength⟩ := constructor_of_declared hm hconstructor
      rw [hlength]
      exact honly y hy hykind
    · simp [method?, hcompact, hdirect]
  · obtain ⟨method, hmethod⟩ : ∃ method, declaredMethod? source _ _ _ = some method :=
      exists_declaredMethod hxshaped hcallable hcompact e.name x.view.context
    refine ⟨method, hincluded ?_, by rw [method?, if_neg hcompact, hmethod]⟩
    rw [hmembers]
    exact mem_filterMap.mpr ⟨x, hx, hmethod⟩

end

def parameterTypes (index : TypeIndex) (ps : List Parameter) (ctx : Context) :
    Query (List (Parameter × TypeName)) :=
  ps.mapM fun p => index.refName (writtenRef p.type ctx) >>= fun name => pure (p, name)

namespace Asks

variable {α β : Type} {place : Place} {scopes : List Scope}

lemma mapM {f : α → Walk β} {question : α → Query β} {l : List α}
    (h : ∀ a ∈ l, Asks place scopes (f a) (question a)) :
    Asks place scopes (l.mapM f) (l.mapM question) := by
  induction l with
  | nil => exact pure []
  | cons a l ih =>
    rw [mapM_cons, mapM_cons]
    exact bind (h a mem_cons_self) fun b =>
      bind (ih fun a ha => h a (mem_cons_of_mem _ ha)) fun bs => pure _

lemma typedParameters {t : Tree}
    (h : ∀ p ∈ t.parameters place.source, Unshadowed scopes p.type ∧ Tight p.type) :
    Asks place scopes (Walk.typedParameters t)
      (parameterTypes place.index (t.parameters place.source) place.context) := by
  have hsetting (s : WalkState) (_ : s.scopes = scopes) :
      Walk.setting place s = (place.toSetting, s) := rfl
  refine after hsetting (mapM fun p hp => ?_)
  exact bind (refName (h p hp).1 (h p hp).2) fun name => pure _

end Asks

variable {index : TypeIndex} {method : MethodInfo}

def paramNames (index : TypeIndex) (method : MethodInfo) : Query (List String) :=
  method.params.mapM fun p => index.refName p >>= fun name => pure name.name

/-- Both questions learn the same, on which the answers for the rest of the list depend. -/
lemma mapM_names {α : Type} (f : α → Query TypeName) (l : List α) (m : Memory) :
    l.mapM (fun a => f a >>= fun name => pure name.name) m =
      let found := l.mapM (fun a => f a >>= fun name => (pure (a, name) : Query (α × TypeName))) m
      (found.1.map fun p => p.2.name, found.2) := by
  induction l generalizing m with
  | nil => rfl
  | cons a l ih =>
    simp only [mapM_cons, bind_apply, ih]
    rfl

lemma paramNames_eq {ps : List Parameter} {ctx : Context} (h : method.params = paramRefs ps ctx)
    (m : Memory) :
    (paramNames index method m).1 = (parameterTypes index ps ctx m).1.map fun p => p.2.name := by
  rw [paramNames, h, paramRefs, mapM_map, Function.comp_def,
    mapM_names (fun p : Parameter => index.refName (writtenRef p.type ctx))]
  rfl

lemma params_candidate (info : TypeInfo) (method : MethodInfo) (m : Memory) :
    (candidate index index.lineage info method m).1.params = (paramNames index method m).1 := by
  unfold candidate
  cases method.returnType <;> rfl

lemma signature_candidate (info : TypeInfo) (method : MethodInfo) (m : Memory) :
    (candidate index index.lineage info method m).1.signature =
      info.name ++ ((if method.isConstructor then none else some method.name).elim ""
        fun name => "." ++ name) ++ "(" ++ joinWith "," (paramNames index method m).1 ++ ")" := by
  have hdescribes : (candidate index index.lineage info method m).1.Describes info method :=
    describes_candidate index.lineage info method m
  rw [Candidate.signature, params_candidate, hdescribes.declaringType, hdescribes.name,
    hdescribes.isConstructor]
  cases method.isConstructor <;> simp [String.append_assoc]

lemma Event.Holds.names_eq {st : Setting} {m : Memory} {e : Event} (h : e.Holds st m)
    (hm : m.active = []) (hmain : e.report.isMain) (hcallable : e.spot.tree.kind.isCallable)
    (hshaped : e.spot.tree.Shaped) (hgeneric : isGenericConstructor st.source e.spot.tree = false)
    (hparams : ∀ p ∈ e.spot.parameters st.source, Unshadowed e.scopes p.type ∧ Tight p.type)
    {info : TypeInfo} (howner : e.spot.view.frames.head? = some info.name)
    (hmethod : e.spot.method? st.source info.name = some method) :
    e.names.map TypeName.name =
      [(candidate st.index st.index.lineage info method m).1.signature] := by
  obtain ⟨-, params, -, -, -, hfinds, hnames⟩ := h.declaredNames hm hmain hcallable
  have hasks : Asks { e.spot.signatureSetting st with remembering := .never, path := [] } e.scopes
      e.spot.typedParameters (parameterTypes st.index (e.spot.parameters st.source)
        (e.spot.view.context.declaring (e.spot.tree.typeParameters st.source))) := by
    rw [typedParameters]
    rw [parameters] at hparams ⊢
    cases hholder : e.spot.parameterHolder? with
    | none => exact .pure []
    | some t =>
      rw [hholder] at hparams
      exact .typedParameters hparams
  have hfound := (congrFun hasks.query m).symm.trans hfinds
  rw [hnames, map_singleton, name_declaredSignature, signature_candidate, howner,
    declaredName_of_method hmethod, paramNames_eq (params_of_method hshaped hgeneric hmethod),
      hfound,
    map_map]
  rfl

/-- The event is the declaration of a method in the class at the spot `s`, which is called `owner`.
-/
structure Event.IsMethodOf (st : Setting) (unit : Tree) (e : Event) (s : Spot) (owner : String) :
    Prop where
  main : e.report.isMain
  callable : e.spot.tree.kind.isCallable
  holder : s ∈ classesOf st.declarations st.source unit
  named : st.declarations.nameOf? s.tree = some owner
  member : e.spot ∈ s.members st.declarations st.source

/-- No other type of the unit has the name of the owner, the method is no generic constructor and
none is around it, no local class in scope is called what the type of a parameter begins with, and a
compact constructor is the only one for its record's components. -/
structure Event.IsPlainMethod (st : Setting) (e : Event) (s : Spot) (owner : String) : Prop where
  sole : IsSole st.declarations.types owner
  plain : e.spot.view.isPlain st.source
  ungeneric : isGenericConstructor st.source e.spot.tree = false
  unshadowed : ∀ p ∈ e.spot.parameters st.source, Unshadowed e.scopes p.type
  canonical : e.spot.tree.kind = .compactConstructorDeclaration →
    e.spot.IsCanonical st.declarations st.source s

/-- What is collected for a declaration is a method of its owner, and from the questions of
`history` on the resolver gives it the signature `name`. A call that looks for the method finds that
signature. -/
structure Event.IsSigned (st : Setting) (history : List Question) (e : Event) (owner : String)
    (name : TypeName) (info : TypeInfo) (method : MethodInfo) : Prop where
  found : st.index.info owner = some info
  declared : method ∈ info.methods
  collected : e.spot.method? st.source owner = some method
  signature : ∀ more, (candidate st.index st.index.lineage info method
    (after st.index (history ++ more))).1.signature = name.name
  listed : ∀ more, Lists name.name
    (candidatesFor st.index owner method (after st.index (history ++ more))).1

/-- All declared methods are among `events`, each with one record, and their names are the
signatures that the resolver gives to them. -/
structure SignaturesAgree (st : Setting) (unit : Tree) (history : List Question)
    (events : List Event) : Prop where
  reported : ∀ s ∈ classesOf st.declarations st.source unit, ∀ owner,
    st.declarations.nameOf? s.tree = some owner → ∀ x ∈ s.members st.declarations st.source,
      x.tree.kind.isCallable → ∃ e ∈ events, e.spot = x ∧ e.IsMethodOf st unit s owner ∧
        ∃ key name, e.names = [name] ∧
          e.finds st = [(recordAt st .methodDeclaration key name, e.scopes)]
  agree : ∀ e ∈ events, ∀ s owner, e.IsMethodOf st unit s owner → e.IsPlainMethod st s owner →
    ∃ name info method, e.names = [name] ∧ e.IsSigned st history owner name info method

section

variable {st : Setting} {unit : Tree} {entries : List Entry}

lemma isHead_of_class (hs : s ∈ classesOf st.declarations st.source unit) : s.isHead := by
  by_contra hhead
  have hdeclaration := (mem_filter.mp hs).2
  rw [isDeclaration_of_kind (by simpa [isHead] using hhead)] at hdeclaration
  cases hdeclaration

lemma exists_event_of_member (hparse : parse? st.source = some unit) {events : List Event}
    (hsites : ((events.filter Event.isMain).map Event.spot).Perm
      (sites st.declarations st.source unit (.ofUnit st.declarations)))
    (hs : s ∈ classesOf st.declarations st.source unit)
    (hnamed : st.declarations.nameOf? s.tree = some owner)
    (hx : x ∈ s.members st.declarations st.source) (hcallable : x.tree.kind.isCallable) :
    ∃ e ∈ events, e.spot = x ∧ e.IsMethodOf st unit s owner := by
  obtain ⟨hspot, hdeclaration⟩ := mem_filter.mp hs
  obtain ⟨hxspot, -, hapart⟩ :=
    view_of_member (shaped_of_parse hparse) rfl hspot hdeclaration hnamed hx
  have hsite : x ∈ sites st.declarations st.source unit (.ofUnit st.declarations) :=
    mem_filter.mpr ⟨hxspot, by simp [isSite, hapart, isReported, hcallable]⟩
  obtain ⟨e, he, rfl⟩ := mem_map.mp (hsites.mem_iff.mpr hsite)
  obtain ⟨he, hmain⟩ := mem_filter.mp he
  simp only [Event.isMain, Bool.and_eq_true] at hmain
  exact ⟨e, he, rfl, hmain.1, hcallable, hs, hnamed, hx⟩

section

variable {e : Event} (hparse : parse? st.source = some unit) (h : e.IsMethodOf st unit s owner)

include hparse h

lemma Event.IsMethodOf.frame : e.spot.view.frames.head? = some owner := by
  obtain ⟨hspot, hdeclaration⟩ := mem_filter.mp h.holder
  exact (view_of_member (shaped_of_parse hparse) rfl hspot hdeclaration h.named h.member).2.1

lemma Event.IsMethodOf.tight
    (hspot : e.spot ∈ spots st.declarations st.source unit (.ofUnit st.declarations))
    (hcanonical : e.spot.tree.kind = .compactConstructorDeclaration →
      e.spot.IsCanonical st.declarations st.source s) :
    ∀ p ∈ e.spot.parameters st.source, Tight p.type := by
  have htight {x : Spot} (hx : x ∈ spots st.declarations st.source unit (.ofUnit st.declarations))
      (hkind : x.tree.kind ≠ .program) : ∀ p ∈ x.tree.parameters st.source, Tight p.type :=
    fun p hp => tight_parameter (shaped_of_mem_spots (shaped_of_parse hparse) hx)
      (within_of_mem_spots hparse hx hkind) hp
  by_cases hcompact : e.spot.tree.kind = .compactConstructorDeclaration
  · obtain ⟨hkind, hdirect, -⟩ := hcanonical hcompact
    have hparameters : e.spot.parameters st.source = s.tree.parameters st.source := by
      simp [parameters, parameterHolder?, hcompact, hdirect]
    rw [hparameters]
    exact htight (mem_filter.mp h.holder).1 (by simp [hkind])
  · have hparameters : e.spot.parameters st.source = e.spot.tree.parameters st.source := by
      simp [parameters, parameterHolder?, hcompact]
    rw [hparameters]
    refine htight hspot fun hprogram => ?_
    have hcallable := h.callable
    rw [hprogram] at hcallable
    cases hcallable

section

variable (hentries : Enrolls st.declarations st.source unit entries) {base : TypeIndex}
  (hindex : st.index = base.overlay st.declarations.types) (hplain : e.IsPlainMethod st s owner)
include hentries hindex hplain

lemma Event.IsMethodOf.exists_method :
    ∃ info method, info.name = owner ∧ st.index.info owner = some info ∧ method ∈ info.methods ∧
      e.spot.method? st.source owner = some method := by
  have hspot := (mem_filter.mp h.holder).1
  obtain ⟨entry, hentry, rfl, rfl⟩ :=
    exists_entry_of_spot hparse hentries hspot (isHead_of_class h.holder) h.named
  have hfaithful := hentries.faithful entry hentry
  have hshaped := shaped_of_parse hparse
  have hmember := (view_of_member hshaped rfl hspot (mem_filter.mp h.holder).2 h.named h.member).1
  obtain ⟨method, hmem, hdeclared⟩ := hfaithful.exists_method (shaped_of_mem_spots hshaped hspot)
    (isHead_of_class h.holder) h.member hplain.plain (shaped_of_mem_spots hshaped hmember)
    h.callable hplain.canonical
  have hinfo : entry.info ∈ st.declarations.types :=
    hentries.types.mem_iff.mpr (mem_map_of_mem hentry)
  have hsole : IsSole st.declarations.types entry.info.name := hfaithful.name ▸ hplain.sole
  refine ⟨entry.info, method, hfaithful.name, ?_, hmem, hdeclared⟩
  rw [hindex, ← hfaithful.name]
  exact hsole.info_eq hinfo base

lemma Event.IsMethodOf.exists_isSigned
    (hspot : e.spot ∈ spots st.declarations st.source unit (.ofUnit st.declarations))
    {history : List Question} (hholds : e.Holds st (after st.index history)) :
    ∃ name info method, e.names = [name] ∧ e.IsSigned st history owner name info method := by
  obtain ⟨info, method, rfl, hfound, hmem, hdeclared⟩ :=
    h.exists_method hparse hentries hindex hplain
  -- the name is the signature at the end of the walk and at all later times
  have hnames {m : Memory} (hm : m.active = []) (hwithin : (after st.index history).Within m) :
      e.names.map TypeName.name =
        [(candidate st.index st.index.lineage info method m).1.signature] :=
    (hholds.grow hwithin).names_eq hm h.main h.callable
      (shaped_of_mem_spots (shaped_of_parse hparse) hspot) hplain.ungeneric
      (fun p hp => ⟨hplain.unshadowed p hp, h.tight hparse hspot hplain.canonical p hp⟩)
      (h.frame hparse) hdeclared
  obtain ⟨name, hname⟩ : ∃ name, e.names = [name] := by
    have hlength := congrArg List.length
      (hnames (after_active st.index history) (Memory.Grows.refl _).toWithin)
    exact length_eq_one_iff.mp (by simpa using hlength)
  have hsignature {m : Memory} (hm : m.active = []) (hwithin : (after st.index history).Within m) :
      (candidate st.index st.index.lineage info method m).1.signature = name.name := by
    have hsame := hnames hm hwithin
    rw [hname] at hsame
    exact (singleton_inj.mp hsame).symm
  refine ⟨name, info, method, hname, hfound, hmem, hdeclared, fun more => ?_, fun more => ?_⟩
  · exact hsignature (after_active st.index _) (grows_after st.index history more).toWithin
  · obtain ⟨m, hm, hwithin, hlists⟩ :=
      listsLater_candidatesFor (after_active st.index (history ++ more)) hfound hmem
    rwa [hsignature hm ((grows_after st.index history more).toWithin.trans hwithin)] at hlists

end

end

end

/-- A walk over a unit leaves a resolver that was asked some questions, and the methods that it
reports have the signatures that this resolver gives to them. -/
theorem signaturesAgree_of_parse {source : List Char} {unit : Tree}
    (hparse : parse? source = some unit) (base : TypeIndex) (label : String) :
    let d := declarationsOf label source unit
    let st := Setting.ofUnit (base.overlay d.types) source d
    let final := collect (Place.ofUnit (base.overlay d.types) source d) unit
    ∃ history, final.memory = after st.index history ∧
      ∃ events : List Event, final.reports = events.flatMap (Event.finds st) ∧
        (∀ e ∈ events, e.Holds st final.memory ∧ e.spot ∈ spots d source unit (.ofUnit d)) ∧
        SignaturesAgree st unit history events := by
  intro d st final
  obtain ⟨entries, hentries⟩ : ∃ entries, Enrolls st.declarations st.source unit entries :=
    exists_entries_of_target hparse label
  obtain ⟨history, hhistory⟩ := exists_history hparse (base.overlay d.types) d
  obtain ⟨events, hreports, hholds, hspots, hsites, hidle⟩ :=
    exists_events hparse (base.overlay d.types) d
  refine ⟨history, hhistory, events, hreports, fun e he => ⟨hholds e he, hspots e he⟩, ?_⟩
  rw [hhistory] at hholds hidle
  have hread : parse? st.source = some unit := hparse
  have hindex : st.index = base.overlay st.declarations.types := rfl
  constructor
  · intro s hs owner hnamed x hx hcallable
    obtain ⟨e, he, rfl, hmethod⟩ := exists_event_of_member hread hsites hs hnamed hx hcallable
    obtain ⟨key, _, _, _, hnames, hrecord⟩ := (hholds e he).declared hidle hmethod.main hcallable
    exact ⟨e, he, rfl, hmethod, key, _, hnames, by rw [Event.finds, hrecord, map_singleton]⟩
  · intro e he s owner hmethod hplain
    exact hmethod.exists_isSigned hread hentries hindex hplain (hspots e he) (hholds e he)

/-- Here the method of a local class has a parameter of the class around it. The local class is in
scope where the method is reported. -/
theorem signaturesAgree_of_local_class :
    let source := "class A { { class L { void f(A a) {} } } }".toList
    ∃ unit, parse? source = some unit ∧
      let d := declarationsOf "A.java" source unit
      let st := Setting.ofUnit (TypeIndex.overlay d.types (.ofTypes [])) source d
      let final := collect (Place.ofUnit st.index source d) unit
      (final.reports.filter fun f => f.1.location == .method).map (fun f => (f.1.name, f.2)) =
        [("L.f(A)", [{ localTypes := [("L", "A$1L")] }])] ∧
      ∃ history info method, final.memory = after st.index history ∧
        st.index.info "A$1L" = some info ∧ method ∈ info.methods ∧
        ∀ more, d.display (candidate st.index st.index.lineage info method
          (after st.index (history ++ more))).1.signature = "L.f(A)" := by
  intro source
  obtain ⟨unit, hunit, hmethods, ⟨s, hs, hnamed, x, hx, hkind, hplain, hgeneric, hparams⟩, hsole⟩ :
      ∃ unit, parse? source = some unit ∧
      let d := declarationsOf "A.java" source unit
      let st := Setting.ofUnit (TypeIndex.overlay d.types (.ofTypes [])) source d
      let final := collect (Place.ofUnit st.index source d) unit
      (final.reports.filter fun f => f.1.location == .method).map (fun f => (f.1.name, f.2)) =
        [("L.f(A)", [{ localTypes := [("L", "A$1L")] }])] ∧
      (∃ s ∈ classesOf d source unit, d.nameOf? s.tree = some "A$1L" ∧
        ∃ x ∈ s.members d source, x.tree.kind = .methodDeclaration ∧ x.view.isPlain source ∧
          isGenericConstructor source x.tree = false ∧
          ∀ p ∈ x.parameters source, ¬ "L".toList <:+: p.type.toList) ∧
      IsSole d.types "A$1L" := by decide +kernel
  obtain ⟨history, hhistory, events, hreports, -, hagree⟩ :=
    signaturesAgree_of_parse hunit (.ofTypes []) "A.java"
  obtain ⟨e, he, rfl, hmethod, key, name, hname, hfinds⟩ :=
    hagree.reported s hs _ hnamed x hx (hkind ▸ rfl)
  refine ⟨unit, hunit, ?_⟩
  intro d st final
  -- the record is the only one of a method, so its name and its scopes are known
  obtain ⟨hdisplay, hscopes⟩ : d.display name.name = "L.f(A)" ∧
      e.scopes = [{ localTypes := [("L", "A$1L")] }] := by
    have hmem := mem_flatMap.mpr ⟨e, he, hfinds ▸ mem_cons_self⟩
    rw [← hreports] at hmem
    have hmem := (mem_filter (p := fun f => f.1.location == .method)).mpr ⟨hmem, rfl⟩
    have hmem := mem_map_of_mem (f := fun f => (f.1.name, f.2)) hmem
    exact Prod.mk.inj (mem_singleton.mp ((congrArg (_ ∈ ·) hmethods).mp hmem))
  have hunshadowed : ∀ p ∈ e.spot.parameters source, Unshadowed e.scopes p.type := by
    intro p hp
    rw [hscopes, Unshadowed, forall_mem_singleton, forall_mem_singleton]
    rintro ⟨lead, rest, htext, -⟩
    exact hparams p hp ⟨lead, rest, htext.symm⟩
  obtain ⟨_, info, method, hname', hfound, hdeclared, -, hsignature, -⟩ :=
    hagree.agree e he s _ hmethod
      ⟨hsole, hplain, hgeneric, hunshadowed, fun h => by rw [hkind] at h; cases h⟩
  obtain rfl := singleton_inj.mp (hname'.symm.trans hname)
  exact ⟨hmethods, history, info, method, hhistory, hfound, hdeclared,
    fun more => (congrArg d.display (hsignature more)).trans hdisplay⟩

/-- A constructor is declared with its type variables and called without. -/
theorem constructors_of_generic_constructor :
    let source := "class B {} class A { <T extends B> A(T t) {} void f() { new A(null); } }".toList
    ∃ unit, parse? source = some unit ∧
      let d := declarationsOf "A.java" source unit
      let index := TypeIndex.overlay d.types (.ofTypes [])
      let final := collect (Place.ofUnit index source d) unit
      (final.records.filter (·.location == .method)).map (·.name) = ["A(B)", "A.f()"] ∧
        (index.constructors "A" final.memory).1.map Candidate.signature = ["A(T)"] ∧
        (final.records.filter (·.location == .constructorCall)).map (·.name) = ["A(T)"] := by
  decide +kernel

end Xref.Reference

