import Xref.Proofs.Reference.Tracing

/-!
# Walks over declarations, step by step

Declarations of types, methods and constructors are traced if their parts are. The body of a type is
walked in the context of the type, and the parts of a method where its type variables are declared.
-/
open List Option

namespace Xref.Reference

open Declaration Java Resolve Syntax Text Walk Tree Scene

variable {k : Kind}

lemma isCallable_of_typeDeclaration (h : k.isTypeDeclaration) : k.isCallable = false := by
  rcases Kind.isTypeDeclaration_cases h with rfl | rfl | rfl | rfl | rfl <;> rfl

lemma passing_of_body (h : k.isBody) : isPassing k := by
  revert h
  cases k <;> decide

lemma kind_of_role {t c : Tree} {r : Role} {p : Kind → Prop} (h : t.Shaped) (hc : c ∈ t.children)
    (hrole : (Key.role r).test c)
    (hadmits : ∀ l : Label, l.inRole r → t.kind.shape.admits l → p l.2) : p c.kind := by
  rcases h.fits.admitted c hc with hremark | hl
  · rw [Key.test, hremark.role] at hrole
    cases hrole
  · exact hadmits c.label hrole hl

namespace Trace

lemma sum_zip {α β : Type} {l : List α} {l' : List β} (h : l.length ≤ l'.length)
    (f : α → Trace) : sum (l.zip l') (fun x => f x.1) = sum l f := by
  have hmap : (l.zip l').map Prod.fst = l := map_fst_zip h
  rw [← congrArg (sum · f) hmap]
  simp only [sum, flatMap_map]

lemma sum_filter {α : Type} (p : α → Bool) (f : α → Trace) (l : List α) :
    sum (l.filter p) f = sum l fun a => bif p a then f a else {} := by
  induction l with
  | nil => rfl
  | cons a l ih =>
    have htail := Trace.mk.inj ih
    cases h : p a <;> simp_all [sum]

end Trace

namespace Acts

variable {o : Scene} {κ : Contexts} {t : Tree} {cs : Sense} {u v : View}
  {c : SensePart} {a b : Trace} {α β : Type}
variable {construct : Construct} {key name : Tree} {x : Walk α} {names : α → List TypeName}
  {rest : α → Walk β} {P : α → Prop} {span : Span} {d : Declarations} {body : Walk Unit}

lemma reportThen {rest : Walk β} (h : Acts o κ v a (reporting construct key x names))
    (hrest : Acts o κ v b rest) :
    Acts o κ v (a ++ b) (do
      emitCalls construct (names (← x)) key
      rest) :=
  .congr (.bind h fun _ => hrest) fun _ _ => rfl

lemma reportOne {name : α → TypeName}
    (h : Acts o κ v a (reporting construct key x fun y => [name y]))
    (hP : ∀ r s, P (x (v.placeIn o.st r) s).1) (hrest : ∀ y, P y → Acts o κ v b (rest y)) :
    Acts o κ v (a ++ b) (do
      let y ← x
      Walk.emitAt construct (name y) key
      rest y) :=
  .congr (.bindWith h hP hrest) fun _ _ => rfl

lemma reportAll (h : Acts o κ v a (reporting construct key x names)) :
    Acts o κ v a (do emitCalls construct (names (← x)) key) :=
  .congr (.before h fun _ => .pure ()) fun _ _ => rfl

lemma reportLast {name : α → TypeName}
    (h : Acts o κ v a (reporting construct key x fun y => [name y])) :
    Acts o κ v a (do Walk.emitAt construct (name (← x)) key) :=
  .congr (.before h fun _ => .pure ()) fun _ _ => rfl

lemma congr_first {y : Walk α} {f : α → Walk β} (h : Acts o κ v a (y >>= f))
    (heq : ∀ r s, x (v.placeIn o.st r) s = y (v.placeIn o.st r) s) : Acts o κ v a (x >>= f) :=
  .congr h fun r s => by rw [walk_bind_apply, walk_bind_apply, heq]

lemma own_of_reported (h : isReported o.st.declarations t) (hmarked : isAnnotation t.kind = false) :
    o.own t u = { sites := if !u.isApart then [⟨t, u⟩] else [] } := by
  simp [own, hmarked, Spot.isSite, h]

lemma byPlan (h : t.Shaped) {keys : List (Key × Extent)}
    (hplan : plan o.st.declarations t = some keys)
    (hkind : t.kind ∈ [.importDeclaration, .enumConstant, .enhancedForStatement, .catchClause,
      .lambdaExpression, .binaryExpression])
    (hx : Acts o κ u (o.planned t u keys) x) : Acts o κ u (o.trace t u .all) x := by
  have hown : o.own t u = {} := by
    simp only [mem_cons, not_mem_nil, or_false] at hkind
    refine own_of_silent ?_ ?_
    · rcases hkind with h | h | h | h | h | h <;> rw [h] <;> rfl
    · rcases hkind with h | h | h | h | h | h <;> rw [isReported, h] <;> rfl
  have hrefines : (o.own t u ++ o.planned t u keys).Refines (o.trace t u .all) :=
    refines_of_plan h hplan
  rw [hown] at hrefines
  exact .weaken hx hrefines

lemma plain_parameters {c : Tree} (h : t.Shaped)
    (hkind : t.kind.isTypeDeclaration ∨ t.kind.isCallable) (hc : t.child? .parameters = some c) :
    isThrough c.kind := by
  obtain ⟨hrole, hadmits⟩ := admits_of_child h hc
  have hplain (hplain : c.label.isPlain) : isThrough c.kind := by
    have hkind : c.kind.isBare ∨ c.kind.isApart := Label.bare_or_apart hplain
    revert hkind
    generalize c.kind = k
    cases k <;> decide
  have hdeclared (bodies : List Kind) (hshape : t.kind.shape = .declaration bodies) :
      c.label.isPlain := by
    have hbody : c.label.inRole .body = false := by
      rw [Label.inRole, eq_of_beq hrole]
      rfl
    rw [hshape, Shape.declaration] at hadmits
    simpa [hbody] using hadmits
  rcases hkind with hkind | hkind
  · obtain ⟨lacks, hshape⟩ := shape_typeDeclaration hkind
    have hlist := (typePart_of_admits (l := c.label) (hshape ▸ hadmits)).parameters hrole
    rw [show c.kind = .formalParameters from hlist]
    rfl
  · rcases Kind.isCallable_cases hkind with hkind | hkind | hkind | hkind
    · exact hplain (hdeclared [.block] (hkind ▸ rfl))
    · have hvalue : c.label.inRole .value = false := by
        rw [Label.inRole, eq_of_beq hrole]
        rfl
      simp only [hkind, Kind.shape, Kind.isBare] at hadmits
      simp [hvalue, hrole] at hadmits
    · exact hplain (hdeclared [.constructorBody] (hkind ▸ rfl))
    · exact hplain (hdeclared [.block] (hkind ▸ rfl))

lemma parameterCases (h : Stage o κ t cs u v) (hkind : t.kind.isTypeDeclaration ∨ t.kind.isCallable)
    (he : ∀ c, t.child? .parameters = some c → (o.enter t c u).place o.st = (v.within t).place o.st)
    :
    cs.child? .parameters = none ∧ o.partAt t u (.role .parameters) .parameters = {} ∨
    ∃ list, cs.child? .parameters = some list ∧
      (∀ p ∈ list.2.parts, (Parameter.ofTree? o.st.source p.1).isSome →
        Acts o κ v (o.trace p.1 (o.enter list.1 p.1 (o.enter t list.1 u)) .modifiers)
          (Walk.inside t (Walk.inside list.1 (Walk.visitModifiers p.1 p.2.parts)))) ∧
      (Trace.sum (list.2.parts.filter fun c => (Parameter.ofTree? o.st.source c.1).isSome) fun c =>
        o.trace c.1 (o.enter list.1 c.1 (o.enter t list.1 u)) .modifiers).Refines
          (o.partAt t u (.role .parameters) .parameters) := by
  rw [h.partIn]
  cases hc : cs.child? .parameters with
  | none => exact .inl ⟨rfl, rfl⟩
  | some list =>
    have hchild : t.child? .parameters = some list.1 := by rw [← h.child?, hc]; rfl
    have hthrough := plain_parameters h.shaped hkind hchild
    have hmem := Valued.mem_of_child? hc
    exact .inr ⟨list, rfl, fun p hp => .parameter h hmem hthrough (he _ hchild) hp,
      parameters_refine (h.parts list hmem).inner.toRooted⟩

lemma length_parameters (h : TracedParts o t cs) {list : SensePart}
    (hlist : cs.child? .parameters = some list) :
    (list.2.parts.filter fun c => (Parameter.ofTree? o.st.source c.1).isSome).length =
      (t.parameters o.st.source).length := by
  have hchild : t.child? .parameters = some list.1 := by
    rw [← h.child? .parameters, hlist]
    rfl
  have htrees := (h.parts list (Valued.mem_of_child? hlist)).inner.trees
  rw [parameters, hchild, map_some, getD_some, length_filterMap_eq_countP,
    ← htrees, countP_map, countP_eq_length_filter]
  rfl

lemma emitParameters (h : Stage o κ t cs u v) (hkind : t.kind.isCallable)
    (he : ∀ c, t.child? .parameters = some c → (o.enter t c u).place o.st = (v.within t).place o.st)
    {params : List (Parameter × TypeName)}
    (hlength : params.length = (t.parameters o.st.source).length) (hspan : o.Covers span) :
    Acts o κ v (o.partAt t u (.role .parameters) .parameters)
      (Walk.emitParameters t cs params span) := by
  refine .setting ?_
  rcases parameterCases h (.inr hkind) he with ⟨hnone, hpart⟩ | ⟨list, hlist, hparts, hrefines⟩
  · rw [hnone, hpart]
    exact .pure ()
  rw [hlist]
  refine .weaken ?_ hrefines
  have hzip := (length_parameters h.toTracedParts hlist).trans hlength.symm
  rw [← Trace.sum_zip (Nat.le_of_eq hzip)]
  refine .forM fun x hx => ?_
  obtain ⟨hp, hparameter⟩ := mem_filter.mp (of_mem_zip hx).1
  exact .after (.emit rfl x.2.2 hspan) fun _ => hparts x.1 hp hparameter

lemma visitComponents (h : Stage o κ t cs u v) (hkind : t.kind.isTypeDeclaration)
    (he : ∀ c, t.child? .parameters = some c → (o.enter t c u).place o.st = (v.within t).place o.st)
    :
    Acts o κ v (o.partAt t u (.role .parameters) .parameters) (Walk.visitComponents t cs) := by
  refine .setting ?_
  rcases parameterCases h (.inl hkind) he with ⟨hnone, hpart⟩ | ⟨list, hlist, hparts, hrefines⟩
  · rw [hnone, hpart]
    exact .pure ()
  rw [hlist]
  refine .weaken ?_ hrefines
  rw [Trace.sum_filter]
  refine .forM fun p hp => ?_
  dsimp only
  cases hparameter : Parameter.ofTree? (v.setting o.st).source p.1 with
  | none =>
    rw [show Parameter.ofTree? o.st.source p.1 = none from hparameter]
    exact .pure ()
  | some component =>
    have hsome : Parameter.ofTree? o.st.source p.1 = some component := hparameter
    have hkind := kind_of_parameter (isSome_iff_exists.mpr ⟨component, hsome⟩)
    have hinner := ((h.parts list (Valued.mem_of_child? hlist)).inner.parts p hp).inner
    have hinked : Inked o.text p.1.range := by
      refine (hinner.proper ?_).inked
        ?_ <;> rcases hkind with hkind | hkind <;> rw [hkind] <;> decide
    rw [hsome]
    exact .after (.evaluation (.of (.typeName component.type))) fun name =>
      .after (.emitAt rfl name hinked) fun _ => hparts p hp (hsome ▸ rfl)

lemma emitSupertypes {kind : TypeKind} {isExtends : Bool} {clause : Option Tree}
    (hclause : ∀ c, clause = some c → c.Within o.text)
    (hdescribes : ∀ written ∈ typesOf clause,
      (Report.supertype kind isExtends written).Describes o.st.declarations o.st.source ⟨t, u⟩)
    (hholds : o.holds ⟨t, u⟩) :
    Acts o κ (u.declaring (t.typeParameters o.st.source)) {}
      (Walk.emitSupertypes kind isExtends clause) := by
  refine .forM_silent fun written hwritten => ?_
  have hreport : Acts o κ (u.declaring (t.typeParameters o.st.source)) {}
      (reporting (Report.supertype kind isExtends written).construct
        ((Report.supertype kind isExtends written).key t) (typeNameAt written 0)
        fun name => [name]) :=
    .report (.typeNameAt written 0) (.bind (.typeNameAt written 0) fun _ => .pure _)
      (fun s => congrArg (fun r => (r.1, r.2.memory)) (walk_map_apply _ _ _ s)) rfl
      (hdescribes written hwritten) hholds (inked_typesOf hclause written hwritten)
  exact .reportLast hreport

lemma reportType {name : String} (hkind : t.kind.isTypeDeclaration)
    (hname : o.st.declarations.nameOf? t = some name) (hholds : o.holds ⟨t, u⟩)
    (hinked : Inked o.text t.range) : Acts o κ u { sites := if !u.isApart then [⟨t, u⟩] else [] }
      (Walk.emitAt .typeDeclaration (.resolved name) t) := by
  have hreport : Acts o κ u _ (reporting (Report.type name).construct
      ((Report.type name).key t) (Pure.pure ()) fun _ => [.resolved name]) :=
    .report (.pure ()) (.pure _) (fun _ => rfl) (by rw [Report.vars, View.declaring_nil])
      ⟨hkind, hname⟩ hholds hinked
  exact .reportLast (x := Pure.pure ()) hreport

lemma place_enter_modifiers {c : Tree} (h : t.Shaped)
    (hkind : t.kind.isTypeDeclaration ∨ t.kind = .enumConstant)
    (hc : c ∈ t.children) (hmodifiers : c.kind = .modifiers) :
    (o.enter t c u).place o.st = (u.within t).place o.st := by
  have hrole := role_of_modifiers h hkind hc hmodifiers
  have hcallable : t.kind.isCallable = false := by
    rcases hkind with hkind | hkind
    · exact isCallable_of_typeDeclaration hkind
    · rw [hkind]; rfl
  exact place_enter_plain (by simp [typeEntered?, hrole, hmodifiers]) hcallable u

lemma exists_stage (h : Stage o κ t cs u v) (hcallable : t.kind.isCallable = false)
    (name : String) (vars : List TypeVariable) : ∃ κ', Stage o κ' t cs u (u.inType name vars) := by
  obtain ⟨κ', hsound⟩ := h.elsewhere (u.inType name vars).context
  rw [declared_of_plain hcallable, declaring_nil] at hsound
  exact ⟨κ', h.toTracedParts, h.holds, hsound⟩

def typePlan (k : Kind) : List (Key × Extent) :=
  (.kind .modifiers, .all) ::
    ((if k == .recordDeclaration then [(.role .parameters, .parameters)] else []) ++
      [(.role .body, .all)])

lemma plan_typeDeclaration {name : String} (h : t.kind.isTypeDeclaration)
    (hname : d.nameOf? t = some name) : plan d t = some (typePlan t.kind) := by
  unfold plan
  rw [hname]
  rcases Kind.isTypeDeclaration_cases h with h | h | h | h | h <;> rw [h] <;> rfl

section

variable (h : Stage o κ t cs u u)
include h

lemma typeBody (hkind : t.kind.isTypeDeclaration) {name : String}
    (hname : o.st.declarations.nameOf? t = some name) :
    Acts o κ u (o.planned t u (typePlan t.kind).tail)
      (Walk.insideType name (t.typeParameters o.st.source) do
        if declaredKind t.kind == .recordType then Walk.visitComponents t cs
        Walk.visitInside t (cs.child? .body)) := by
  have hcallable := isCallable_of_typeDeclaration hkind
  obtain ⟨κ', h⟩ := exists_stage h hcallable name (t.typeParameters o.st.source)
  have hbody : Acts o κ' (u.inType name (t.typeParameters o.st.source))
      (o.partAt t u (.role .body) .all) (Walk.visitInside t (cs.child? .body)) := by
    refine .visitInsideAt h (.role .body) fun c hc htest => ⟨?_, place_enter_type ?_ u⟩
    · obtain ⟨lacks, hshape⟩ := shape_typeDeclaration hkind
      exact passing_of_body (kind_of_role (p := fun k => k.isBody) h.shaped hc htest
        fun l hrole hl => (typePart_of_admits (hshape ▸ hl)).body hrole)
    · simp [typeEntered?, hkind, hname, show c.role = some .body from eq_of_beq htest]
  have hrecord : (declaredKind t.kind == .recordType) = (t.kind == .recordDeclaration) := by
    rcases Kind.isTypeDeclaration_cases hkind with h | h | h | h | h <;> rw [h] <;> rfl
  refine .insideType κ' ?_
  rw [hrecord, typePlan, tail_cons]
  cases hcase : t.kind == .recordDeclaration with
  | false =>
    simp only [Bool.false_eq_true, if_false, nil_append, planned_cons, planned_nil,
      Trace.append_empty]
    exact hbody
  | true =>
    simp only [if_true, singleton_append, planned_cons, planned_nil, Trace.append_empty]
    refine .bind (.visitComponents h hkind fun c hc => place_enter_type ?_ u) fun _ => hbody
    simp [typeEntered?, hkind, hname, hcase, role_of_child? hc]

lemma visitTypeDeclaration (hkind : t.kind.isTypeDeclaration) :
    Acts o κ u (o.trace t u .all) (Walk.visitTypeDeclaration t cs (declaredKind t.kind)) := by
  have hcallable := isCallable_of_typeDeclaration hkind
  have hcases := Kind.isTypeDeclaration_cases hkind
  have hmarked : isAnnotation t.kind = false := by
    rcases hcases with h | h | h | h | h <;> rw [h] <;> rfl
  refine .unitName ?_
  cases hname : o.st.declarations.nameOf? t with
  | none =>
    have hown : o.own t u = {} := by
      refine own_of_silent hmarked ?_
      rcases hcases with h | h | h | h | h <;> simp [isReported, h, hname, Kind.isCallable]
    have hrefines : (o.own t u ++ o.inner t u).Refines (o.trace t u .all) := by
      refine inner_refines fun c => ?_
      rw [followed, plan, hname]
      rcases hcases with h | h | h | h | h <;> rw [h] <;> rfl
    rw [hown] at hrefines
    exact .weaken (.visitAll h fun c _ =>
      place_enter_plain (by simp [typeEntered?, hkind, hname]) hcallable u) hrefines
  | some name =>
    have hwithin := h.proper (by rcases hcases with h | h | h | h | h <;> rw [h] <;> decide)
    have hinked := hwithin.inked (by rcases hcases with h | h | h | h | h <;> rw [h] <;> rfl)
    have hself : o.holds ⟨t, u⟩ := h.holds _ (mem_spots_self t u)
    have hsupertypes (isExtends : Bool) {clause : Option Tree}
        (hclause : ∀ c, clause = some c → c.Within o.text)
        (htrees : ∀ written ∈ typesOf clause, written ∈ supertypeTrees t isExtends) :
        Acts o κ (u.declaring (t.typeParameters o.st.source)) {}
          (Walk.emitSupertypes (declaredKind t.kind) isExtends clause) :=
      .emitSupertypes hclause (fun written hwritten =>
        ⟨hkind, by rw [hname]; rfl, rfl, htrees written hwritten⟩) hself
    refine .weaken ?_ (refines_of_plan h.shaped (plan_typeDeclaration hkind hname))
    rw [own_of_reported (by simp [isReported, hkind, hname]) hmarked, typePlan, planned_cons]
    refine .after (.bindLocalType hname) fun _ => .bind (.reportType hkind hname hself hinked)
      fun _ => .bind (.visitModifiers h fun c => place_enter_modifiers h.shaped (.inl hkind))
        fun _ => .setting (.after (.withVariables ?_) fun _ => .typeBody h hkind hname)
    exact .after (hsupertypes true (fun c => within_of_child? hwithin) fun _ =>
      mem_append_left _) fun _ => .after (hsupertypes true
        (fun c => within_of_childOf? hwithin) fun _ => mem_append_right _) fun _ =>
          hsupertypes false (fun c => within_of_child? hwithin) fun _ hx => hx

lemma visitAnonymousBody (hcallable : t.kind.isCallable = false)
    (hc : c ∈ cs) (hpass : isPassing c.1.kind)
    (hentered : typeEntered? o.st.declarations o.st.source t c.1 =
      (o.st.declarations.nameOf? c.1).map fun name => (name, [])) :
    Acts o κ u (o.trace c.1 (o.enter t c.1 u) .all) (Walk.visitAnonymousBody t c) := by
  refine .unitName ?_
  cases hname : o.st.declarations.nameOf? c.1 with
  | none =>
    exact .visitInside h hc hpass (place_enter_plain (hentered.trans (hname ▸ rfl)) hcallable u)
  | some name =>
    obtain ⟨κ', h⟩ := exists_stage h hcallable name []
    exact .insideType κ' (.visitInside h hc hpass
      (place_enter_type (hentered.trans (hname ▸ rfl)) u))

lemma visitEnumConstant (hkind : t.kind = .enumConstant) :
    Acts o κ u (o.trace t u .all) (Walk.visitEnumConstant t cs) := by
  have hcallable : t.kind.isCallable = false := by rw [hkind]; rfl
  have hplan : plan o.st.declarations t = some [(.kind .modifiers, .all),
      (.role .arguments, .all), (.role .body, .all)] := by
    rw [plan, hkind]; rfl
  have hpass {c : Tree} {r : Role} (hc : c ∈ t.children) (htest : (Key.role r).test c)
      (hr : r = .arguments ∨ r = .body) : isPassing c.kind := by
    refine kind_of_role (p := fun k => isPassing k) h.shaped hc htest fun l hrole hl => ?_
    rw [hkind] at hl
    change (if l.inRole .arguments then l.2 == .argumentList
      else if l.inRole .body then l.2 == .classBody else l.isPlain) = true at hl
    rcases hr with rfl | rfl
    · rw [if_pos hrole] at hl
      rw [eq_of_beq hl]; decide
    · rw [Label.inRole, show l.1 = some .body from eq_of_beq hrole, if_neg (by decide),
        if_pos hrole] at hl
      rw [eq_of_beq hl]; decide
  refine .byPlan h.shaped hplan (by rw [hkind]; decide) ?_
  simp only [planned_cons, planned_nil, Trace.append_empty]
  refine .bind (.visitModifiers h fun c => place_enter_modifiers h.shaped (.inr hkind)) fun _ =>
    .bind (.visitInsideAt h (.role .arguments) fun c hc htest =>
      ⟨hpass hc htest (.inl rfl), place_enter_plain ?_ hcallable u⟩) fun _ => ?body
  · simp [typeEntered?, hkind, Kind.isTypeDeclaration,
      show c.role = some .arguments from eq_of_beq htest]
  · rw [h.partIn]
    cases hc : cs.child? .body with
    | none => exact .pure ()
    | some body =>
      have hmem := Valued.mem_of_child? hc
      have htest : (Key.role .body).test body.1 :=
        find?_some (p := fun c : SensePart => c.1.role == some .body) hc
      refine .visitAnonymousBody h hcallable hmem (hpass (h.mem_children hmem) htest (.inr rfl)) ?_
      simp [typeEntered?, hkind, Kind.isTypeDeclaration,
        show body.1.role = some .body from eq_of_beq htest]

end

lemma place_enter_callable (hkind : t.kind.isCallable)
    (hname : t.child? .name = some name) (c : Tree) :
    (o.enter t c u).place o.st =
      ((u.declaring (t.typeParameters o.st.source)).within t).place o.st := by
  rw [enter, place_enter (typeEntered?_of_callable hkind c), declared_of_named hkind hname]

lemma emitThrows (h : t.Within o.text) : Acts o κ u {} (Walk.emitThrows t) := by
  unfold Walk.emitThrows
  cases hc : t.childOf? .throwsClause with
  | none => exact .pure ()
  | some clause =>
    refine .forM_silent fun type htype => ?_
    obtain ⟨hmem, htype⟩ := mem_filter.mp htype
    have hwithin := (within_of_childOf? h hc).parts type hmem
    exact .after (.evaluation (.typeNameAt type 0)) fun name =>
      .emitAt rfl name (inked_nameOfType hwithin (isFragment_of_isType htype))

lemma emitReturnType (t : Tree) (hspan : o.Covers span) :
    Acts o κ u {} (Walk.emitReturnType t span) := by
  unfold Walk.emitReturnType
  cases t.child? .type with
  | none => exact .pure ()
  | some type =>
    exact .after (.evaluation (.dimensions t)) fun dims =>
      .after (.evaluation (.typeNameAt type dims)) fun name => .emit rfl name hspan

lemma withParameters (params : List (Parameter × TypeName)) (h : Acts o κ u a body) :
    Acts o κ u a (Walk.withParameters params body) :=
  .inScope (.after (.forM_silent fun _ _ => .bindVariable _ _) fun _ => h)

lemma length_mapM (f : α → Walk β) (l : List α) (place : Place) (s : WalkState) :
    (l.mapM f place s).1.length = l.length := by
  induction l generalizing s with
  | nil => rfl
  | cons a l ih =>
    rw [mapM_cons]
    exact congrArg (· + 1) (ih _)

lemma length_typedParameters (t : Tree) (place : Place) (s : WalkState) :
    (typedParameters t place s).1.length = (t.parameters place.source).length :=
  length_mapM _ _ place s

lemma callableBody (h : Rooted o t cs) (params : List (Parameter × TypeName))
    (hbody : Acts o κ v (o.partAt t u (.role .body) .all) body) :
    Acts o κ v (o.partAt t u (.role .body) .all)
      (if (cs.child? .body).isSome then Walk.withParameters params body else Pure.pure ()) := by
  cases hc : cs.child? .body with
  | some c => exact .withParameters params hbody
  | none =>
    rw [h.partIn, hc]
    exact .pure ()

lemma reportMethod
    (hkind : t.kind = .methodDeclaration ∨ t.kind = .annotationTypeElementDeclaration)
    (hname : t.child? .name = some name) (hholds : o.holds ⟨t, u⟩)
    (hinked : Inked o.text name.range) :
    Acts o κ (u.declaring (t.typeParameters o.st.source))
      { sites := if !u.isApart then [⟨t, u⟩] else [] }
      (reporting (Report.method name).construct ((Report.method name).key t)
        (typedParameters t) fun params =>
          [declaredSignature (u.frames.head?.getD "") (some (name.text o.st.source))
            (params.map Prod.snd)]) :=
  .report (r := .method name) (.typedParameters t) (.bind .currentType fun _ =>
    .bind (.typedParameters t) fun _ => .bind (.text name) fun _ => .pure _) (fun _ => rfl) rfl
    ⟨hkind, hname⟩ hholds hinked

lemma reportText {found : α → String → TypeName}
    (h : Acts o κ v a (reporting construct key x fun y => [found y (name.text o.st.source)]))
    (hP : ∀ r s, P (x (v.placeIn o.st r) s).1) (hrest : ∀ y, P y → Acts o κ v b (rest y)) :
    Acts o κ v (a ++ b) (do
      let y ← x
      let text ← Walk.text name
      Walk.emitAt construct (found y text) key
      rest y) :=
  .congr (.bindWith h hP hrest) fun _ _ => rfl

lemma exists_name (h : Stage o κ t cs u v) (hkind : t.kind.isCallable) :
    t.Within o.text ∧ o.Covers (o.st.lines.span t.start t.stop) ∧
      ∃ name, t.child? .name = some name ∧ Inked o.text name.range := by
  have hcases := Kind.isCallable_cases hkind
  have hwithin := h.proper (by rcases hcases with h | h | h | h <;> rw [h] <;> decide)
  obtain ⟨name, hname⟩ := exists_child_of_required h.shaped (r := .name)
    (by rcases hcases with h | h | h | h <;> rw [h] <;> decide)
  refine ⟨hwithin, h.covers ?_ ?_, name, hname,
    hwithin.inked_part h.shaped ?_ (mem_of_child? hname)⟩
  all_goals rcases hcases with h | h | h | h <;> rw [h] <;> decide

lemma own_of_callable (h : t.kind.isCallable) :
    o.own t u = { sites := if !u.isApart then [⟨t, u⟩] else [] } :=
  own_of_reported (by simp [isReported, h]) (by revert h; cases t.kind <;> decide)

lemma visitMethod (h : Stage o κ t cs u (u.declaring (declared o.st.source t)))
    (hkind : t.kind = .methodDeclaration ∨ t.kind = .annotationTypeElementDeclaration) :
    Acts o κ u (o.trace t u .all) (Walk.visitMethod t cs) := by
  have hcallable : t.kind.isCallable := by rcases hkind with h | h <;> rw [h] <;> rfl
  obtain ⟨hwithin, hspan, name, hname, hinked⟩ := exists_name h hcallable
  have hplan : plan o.st.declarations t = some [(.kind .modifiers, .all),
      (.role .parameters, .parameters), (.role .value, .all), (.role .body, .all)] := by
    rcases hkind with h | h <;> rw [plan, h] <;> rfl
  have hplace (c : Tree) := place_enter_callable (o := o) (u := u) hcallable hname c
  rw [declared_of_named hcallable hname] at h
  refine .weaken ?_ (refines_of_plan h.shaped hplan)
  rw [own_of_callable hcallable]
  simp only [planned_cons, planned_nil, Trace.append_empty]
  unfold Walk.visitMethod
  rw [hname]
  refine .currentType (.setting (.withVariables (.reportText
    (P := fun params => params.length = (t.parameters o.st.source).length)
    (.reportMethod hkind hname (h.holds _ (mem_spots_self t u)) hinked)
    (fun r s => length_typedParameters t _ s) fun params hlength => ?_)))
  refine .bind (.visitModifiers h fun c _ _ => hplace c) fun _ => .spanOf
    (.after (.emitReturnType t hspan) fun _ => .bind (.emitParameters h hcallable
      (fun c _ => hplace c) hlength hspan) fun _ => .after (.emitThrows hwithin) fun _ => ?_)
  exact .bind (.visitIn h .value fun c _ => hplace c) fun _ =>
    .callableBody h.toRooted params (.visitIn h .body fun c _ => hplace c)

def parameterHolder (t : Tree) (u : View) (isCompact : Bool) : Option Tree :=
  if isCompact then u.path[1]? else some t

/-- The parameters of a constructor of a record, or of one that has its own. -/
def parametersIn (t : Tree) : Bool → Option Tree → Walk (List (Parameter × TypeName))
  | true, some record => typedParameters record
  | true, none => Pure.pure []
  | false, _ => typedParameters t

lemma constructorParameters_apply (isCompact : Bool) (vars : List TypeVariable) (r : Recall)
    (s : WalkState) :
    constructorParameters t isCompact ((u.declaring vars).placeIn o.st r) s =
      ((parameterHolder t u isCompact).elim (Pure.pure []) typedParameters)
        ((u.declaring vars).placeIn o.st r) s := by
  change parametersIn t isCompact u.path[1]? ((u.declaring vars).placeIn o.st r) s = _
  unfold parameterHolder
  cases isCompact with
  | false => rfl
  | true => cases u.path[1]? <;> rfl

lemma reportConstructor {holder : Option Tree}
    (hdescribes : (Report.constructor holder name).Describes o.st.declarations o.st.source ⟨t, u⟩)
    (hholds : o.holds ⟨t, u⟩) (hinked : Inked o.text name.range) :
    Acts o κ (u.declaring (t.typeParameters o.st.source))
      { sites := if !u.isApart then [⟨t, u⟩] else [] }
      (reporting (Report.constructor holder name).construct
        ((Report.constructor holder name).key t) (holder.elim (Pure.pure []) typedParameters)
        fun params => [declaredSignature (u.frames.head?.getD "") none (params.map Prod.snd)]) := by
  have hparams (ctx : Context) : Evaluation o.binding κ ctx
      (holder.elim (Pure.pure []) typedParameters) := by
    cases holder with
    | none => exact .pure []
    | some record => exact .typedParameters record
  exact .report (r := .constructor holder name) (hparams _) (.bind .currentType fun _ =>
    .bind (hparams _) fun _ => .pure _) (fun _ => rfl) rfl hdescribes hholds hinked

def constructorPlan (isCompact : Bool) : List (Key × Extent) :=
  (.kind .modifiers, .all) ::
    ((if isCompact then [] else [(.role .parameters, .parameters)]) ++ [(.role .body, .all)])

lemma visitConstructor (h : Stage o κ t cs u (u.declaring (declared o.st.source t)))
    {isCompact : Bool} (hkind : t.kind =
      if isCompact then .compactConstructorDeclaration else .constructorDeclaration) :
    Acts o κ u (o.trace t u .all) (Walk.visitConstructor t cs isCompact) := by
  have hcallable : t.kind.isCallable := by cases isCompact <;> rw [hkind] <;> rfl
  obtain ⟨hwithin, hspan, name, hname, hinked⟩ := exists_name h hcallable
  have hplan : plan o.st.declarations t = some (constructorPlan isCompact) := by
    cases isCompact <;> rw [plan, hkind] <;> rfl
  have hplace (c : Tree) := place_enter_callable (o := o) (u := u) hcallable hname c
  have hpass (c : Tree) (hc : c ∈ t.children) (htest : (Key.role .body).test c) :
      isPassing c.kind := by
    refine kind_of_role (p := fun k => isPassing k) h.shaped hc htest fun l hrole hl => ?_
    cases isCompact <;> simp [hkind, Kind.shape, Kind.isBare, Shape.declaration, hrole] at hl <;>
      rw [hl] <;> rfl
  have hdescribes : (Report.constructor (parameterHolder t u isCompact) name).Describes
      o.st.declarations o.st.source ⟨t, u⟩ := by
    cases isCompact with
    | false => exact ⟨.inl ⟨hkind, rfl⟩, hname⟩
    | true => exact ⟨.inr ⟨hkind, rfl⟩, hname⟩
  rw [declared_of_named hcallable hname] at h
  have hrest (params : List (Parameter × TypeName)) :=
    after (.emitThrows hwithin) fun _ => callableBody h.toRooted params (.visitInsideAt h
      (.role .body) fun c hc htest => ⟨hpass c hc htest, hplace c⟩)
  refine .weaken ?_ (refines_of_plan h.shaped hplan)
  rw [own_of_callable hcallable]
  unfold Walk.visitConstructor
  rw [hname]
  refine .currentType (.setting (.withVariables (.congr_first ?_
    fun r s => constructorParameters_apply isCompact _ r s)))
  refine .reportOne
    (P := fun params => isCompact = false → params.length = (t.parameters o.st.source).length)
    (.reportConstructor hdescribes (h.holds _ (mem_spots_self t u)) hinked)
    (fun r s hwritten => ?_) fun params hlength => ?_
  · rw [hwritten]
    exact length_typedParameters t _ s
  cases isCompact with
  | true =>
    simp only [constructorPlan, if_true, nil_append, planned_cons,
      planned_nil, Trace.append_empty]
    exact .bind (.visitModifiers h fun c _ _ => hplace c) fun _ => .spanOf (hrest params)
  | false =>
    simp only [constructorPlan, Bool.false_eq_true, if_false, singleton_append,
      planned_cons, planned_nil, Trace.append_empty]
    exact .bind (.visitModifiers h fun c _ _ => hplace c) fun _ => .spanOf (.bind
      (.emitParameters h hcallable (fun c _ => hplace c) (hlength rfl) hspan) fun _ => hrest params)

end Acts

end Xref.Reference
