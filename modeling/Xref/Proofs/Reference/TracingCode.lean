import Xref.Proofs.Reference.TracingDeclarations

/-!
# Walks over code, step by step

Statements, expressions and annotations are traced if their parts are, and so every tree of a unit
is. The calls of a chain are reported from the last to the first and before the parts of any of them
are visited, and the parts of the first call are visited first.
-/
open List Option

namespace Xref.Reference

open Declaration Java Resolve Syntax Text Walk Tree Scene

variable {o : Scene} {κ : Contexts} {t : Tree} {cs : Sense} {u : View}

namespace Acts

variable {v : View} {c : SensePart} {a b : Trace} {α β : Type}
variable {span : Span}

lemma emitVariable (type : Tree) (name : Option TypeName)
    (hspan : o.Covers span) : Acts o κ u {} (emitVariable type name span) := by
  refine .after (.evaluation (.reportable type name)) fun reported => ?_
  cases reported with
  | none => exact .pure ()
  | some n => exact .emit rfl n hspan

lemma emitInitializer (declarator : Tree) (hspan : o.Covers span) :
    Acts o κ u {} (Walk.emitInitializer declarator span) := by
  unfold Walk.emitInitializer
  cases declarator.child? .value with
  | none => exact .pure ()
  | some value =>
    refine .after (.evaluation (.staticMember? value)) fun member => ?_
    cases member with
    | none => exact .pure ()
    | some member => exact .emit rfl member hspan

lemma emitTypes (type : Tree) (hspan : o.Covers span) {declarators : Sense}
    (h : SoundParts o.binding o.st.source κ u.context declarators) (hplain : PlainParts declarators)
    (reported : List String) : Acts o κ u {} (emitTypes type span reported declarators) := by
  induction declarators generalizing reported with
  | nil => exact .pure []
  | cons d rest ih =>
    have hrest := ih (fun c hc => h c (mem_cons_of_mem _ hc))
      fun c hc => hplain c (mem_cons_of_mem _ hc)
    have hparts := (h d mem_cons_self).parts (hplain d mem_cons_self)
    refine .after (.evaluation (.variableType type d.1 hparts)) fun known =>
      .after (.evaluation (.reportable type known)) fun found => ?_
    split
    · exact .after (.emit rfl _ hspan) fun _ => .after (hrest _) fun _ => .pure _
    · exact .after (hrest _) fun _ => .pure _

lemma bindVariables (types : List (Option TypeName)) :
    Acts o κ u {} (((cs.childrenIn .declarator).zip types).forM fun ((d, _), known) => do
      if let some name := d.child? .name then
        Walk.bindVariable (← Walk.text name) known) := by
  refine .forM_silent fun ⟨⟨d, m⟩, known⟩ _ => ?_
  dsimp only
  cases d.child? .name with
  | none => exact .pure ()
  | some name => exact .text (.bindVariable _ known)

lemma visitVariables (h : Stage o κ t cs u u)
    (hkind : t.kind = .fieldDeclaration ∨ t.kind = .constantDeclaration ∨
      t.kind = .localVariableDeclaration) (ofBlock : Bool) :
    Acts o κ u (o.trace t u .all) (Walk.visitVariables t cs ofBlock) := by
  have hall : Acts o κ u (o.trace t u .all) (Walk.visitAll t cs) := by
    refine .visitPassing h ?_
    rcases hkind with hkind | hkind | hkind <;> rw [hkind] <;> rfl
  have hspan : o.Covers (o.st.lines.span t.start t.stop) := by
    refine h.covers ?_ ?_ <;> rcases hkind with hkind | hkind | hkind <;> rw [hkind] <;> decide
  have hplain : PlainParts cs := h.sense.plain
    (by rcases hkind with hkind | hkind | hkind <;> rw [hkind] <;> rfl)
  unfold Walk.visitVariables
  cases t.declaredType? with
  | none => exact hall
  | some type =>
    refine .spanOf (.after (.emitTypes type hspan
      (fun c hc => h.sound c (Valued.mem_of_mem_childrenIn hc))
      (fun c hc => hplain c (Valued.mem_of_mem_childrenIn hc)) []) fun types =>
        .after (.forM_silent fun d _ => .emitInitializer d.1 hspan) fun _ => ?_)
    cases ofBlock with
    | false => exact hall
    | true => exact .after (.bindVariables types) fun _ => hall

lemma loopVariable (h : Stage o κ t cs u u) (hkind : t.kind = .enhancedForStatement) :
    Acts o κ u {} (Walk.loopVariable t cs) := by
  unfold Walk.loopVariable
  split
  case h_1 type name htype _ =>
    have hinked := (h.proper (by rw [hkind]; decide)).inked_part h.shaped
      (by rw [hkind]; decide) (mem_of_child? htype)
    exact .after (.evaluation (.loopType t type h.sound)) fun known =>
      .setting (.after (.emitVariable type known ⟨⟨type.start, max name.stop type.stop⟩,
        hinked.mono rfl (Nat.le_max_right _ _), rfl⟩) fun _ =>
          .after (.evaluation (.text name)) fun _ => .pure _)
  case h_2 => exact .pure none

section

variable (h : Stage o κ t cs u u)
include h

lemma visitEnhancedFor (hkind : t.kind = .enhancedForStatement) :
    Acts o κ u (o.trace t u .all) (Walk.visitEnhancedFor t cs) := by
  have hplan : plan o.st.declarations t = some [(.kind .modifiers, .all),
      (.role .value, .all), (.role .body, .all)] := by rw [plan, hkind]; rfl
  have hplace (c : Tree) : (o.enter t c u).place o.st = (u.within t).place o.st :=
    place_enter_through (hkind ▸ rfl) c u
  have hbody := visitIn h .body fun c _ => hplace c
  refine .byPlan h.shaped hplan (by rw [hkind]; decide) ?_
  simp only [planned_cons, planned_nil, Trace.append_empty]
  refine .after (.loopVariable h hkind) fun found => .bind (.visitModifiers h fun c _ _ => hplace c)
    fun _ => .bind (.visitIn h .value fun c _ => hplace c) fun _ => ?_
  cases found with
  | none => exact .inScope hbody
  | some found => exact .inScope (.after (.bindVariable found.1 found.2) fun _ => hbody)

lemma visitCatchParameter (hc : c ∈ cs) (hkind : c.1.kind = .catchFormalParameter)
    (he : (o.enter t c.1 u).place o.st = (u.within t).place o.st) :
    Acts o κ u (o.trace c.1 (o.enter t c.1 u) .modifiers) (Walk.visitCatchParameter t c) := by
  have hinner := h.inner hc he (hkind ▸ rfl)
  have hspan := hinner.covers (by rw [hkind]; decide) (hkind ▸ rfl)
  have hmodifiers : Acts o κ u (o.trace c.1 (o.enter t c.1 u) .modifiers)
      (Walk.inside t (Walk.visitModifiers c.1 c.2.parts)) :=
    .inside (.moved (parameterModifiers hinner (.inr (.inr hkind))) he)
  have hnames (types : List Tree) : Acts o κ u {} (types.mapM fun type => do
      let name ← typeNameAt type 0
      Walk.emit .variableDeclaration name (o.st.lines.span c.1.start c.1.stop)
      return name) :=
    .mapM (fun type => .after (.evaluation (.typeNameAt type 0)) fun name =>
      .after (.emit rfl name hspan) fun _ => .pure name) types
  unfold Walk.visitCatchParameter
  cases c.1.child? .name with
  | none => exact .spanOf (.after (hnames _) fun _ => hmodifiers)
  | some name =>
    exact .spanOf (.after (hnames _) fun _ => .text (.after (.bindVariable _ _) fun _ =>
      hmodifiers))

lemma visitCatch (hkind : t.kind = .catchClause) :
    Acts o κ u (o.trace t u .all) (Walk.visitCatch t cs) := by
  have hplan : plan o.st.declarations t = some [(.kind .catchFormalParameter, .modifiers),
      (.role .body, .all)] := by rw [plan, hkind]; rfl
  have hplace (c : Tree) : (o.enter t c u).place o.st = (u.within t).place o.st :=
    place_enter_through (hkind ▸ rfl) c u
  have hbody := visitIn h .body fun c _ => hplace c
  refine .byPlan h.shaped hplan (by rw [hkind]; decide) ?_
  simp only [planned_cons, planned_nil, Trace.append_empty]
  rw [h.partAt (.kind .catchFormalParameter)]
  unfold Walk.visitCatch
  cases hc : cs.childOf? .catchFormalParameter with
  | none =>
    rw [show (cs.find? fun c => (Key.kind .catchFormalParameter).test c.1) = none from hc]
    exact .inScope hbody
  | some param =>
    rw [show (cs.find? fun c => (Key.kind .catchFormalParameter).test c.1) = some param from hc]
    exact .inScope (.bind (.visitCatchParameter h (Valued.mem_of_childOf? hc)
      (Valued.kind_of_childOf? hc) (hplace _)) fun _ => hbody)

lemma visitResource (hkind : t.kind = .resource) :
    Acts o κ u (o.trace t u .all) (Walk.visitResource t cs) := by
  have hspan := h.covers (by rw [hkind]; decide) (hkind ▸ rfl)
  have hbind : Acts o κ u {} (bindResource t cs) := by
    unfold bindResource
    split
    case h_1 type name _ _ =>
      exact .spanOf (.after (.evaluation (.variableType type t h.sound)) fun known =>
        .after (.emitVariable type known hspan) fun _ => .after (.emitInitializer t hspan) fun _ =>
          .text (.bindVariable _ known))
    case h_2 => exact .pure ()
  exact .after hbind fun _ => .visitPassing h (hkind ▸ rfl)

lemma visitInstanceTest (hkind : t.kind = .instanceofExpression) :
    Acts o κ u (o.trace t u .all) (Walk.visitInstanceTest t cs) := by
  have hbind : Acts o κ u {} (bindPattern t) := by
    unfold bindPattern
    split
    case h_1 name right _ _ =>
      exact .text (.after (.evaluation (.typeNameAt right 0)) fun type => .bindVariable _ _)
    case h_2 => exact .pure ()
  exact .after hbind fun _ => .visitPassing h (hkind ▸ rfl)

end

lemma bindLambdaParameters (t : Tree) : Acts o κ u {} (Walk.bindLambdaParameters t) := by
  unfold Walk.bindLambdaParameters
  cases t.child? .parameters with
  | none => exact .pure ()
  | some params =>
    dsimp only
    split
    · exact .text (.bindVariable _ none)
    · exact .setting (.forM_silent fun p _ => .after (.evaluation (.of (.typeName p.type)))
        fun type => .bindVariable _ _)
    · exact .forM_silent fun c _ => .text (.bindVariable _ none)

lemma visitLambda (h : Stage o κ t cs u u) (hkind : t.kind = .lambdaExpression) :
    Acts o κ u (o.trace t u .all) (Walk.visitLambda t cs) := by
  have hplan : plan o.st.declarations t = some [(.role .body, .all)] := by
    rw [plan, hkind]; rfl
  refine .byPlan h.shaped hplan (by rw [hkind]; decide) ?_
  simp only [planned_cons, planned_nil, Trace.append_empty]
  exact .inScope (.after (.bindLambdaParameters t) fun _ =>
    .visitIn h .body fun c _ => place_enter_through (hkind ▸ rfl) c u)

lemma visitUse (h : Stage o κ t cs u u)
    (hkind : t.kind = .annotationUse ∨ t.kind = .annotationMarker) :
    Acts o κ u (o.trace t u .all) (Walk.visitUse t cs) := by
  have hwithin := h.proper (by rcases hkind with h | h <;> rw [h] <;> decide)
  have hplan : plan o.st.declarations t = some [(.role .arguments, .all)] := by
    rcases hkind with h | h <;> rw [plan, h] <;> rfl
  obtain ⟨name, hname⟩ := exists_child_of_required h.shaped
    (show Role.name ∈ t.kind.shape.required by rcases hkind with h | h <;> rw [h] <;> decide)
  have hmem := mem_of_child? hname
  obtain ⟨hrole, hadmits⟩ := admits_of_child h.shaped hname
  have hnamed : name.label.2 = .identifier ∨ name.label.2 = .scopedIdentifier := by
    have harguments : name.label.inRole .arguments = false := by
      rw [Label.inRole, eq_of_beq hrole]
      rfl
    rcases hkind with h | h <;>
      simpa [h, Kind.shape, Kind.isBare, hrole, harguments] using hadmits
  have hwritten : name.dottedName o.text ≠ "" :=
    dottedName_ne_empty (h.shaped.parts name hmem) (hwithin.parts name hmem) hnamed
  have hinked := hwithin.inked_part h.shaped (by rcases hkind with h | h <;> rw [h] <;> decide) hmem
  have harguments : Acts o κ u (o.partAt t u (.role .arguments) .all)
      (Walk.visitInside t (cs.child? .arguments)) := by
    refine .visitInsideAt h (.role .arguments) fun c hc htest => ⟨?_, place_enter_through
      (by rcases hkind with h | h <;> rw [h] <;> rfl) c u⟩
    refine kind_of_role (p := fun k => isPassing k) h.shaped hc htest fun l hrole hl => ?_
    have hl : l.2 = .annotationArgumentList := by
      rcases hkind with h | h <;> simpa [h, Kind.shape, Kind.isBare, hrole] using hl
    rw [hl]
    decide
  have hplain : PlainParts cs := h.sense.plain (by rcases hkind with h | h <;> rw [h] <;> rfl)
  have hown : o.own t u = { uses := [name] } := by
    rcases hkind with hkind | hkind <;>
      simp [own, hkind, hname, isAnnotation, Spot.isSite, isReported,
        Kind.isTypeDeclaration, Kind.isCallable]
  have hsplit : Walk.visitUse t cs = (do
      let found ← typeName (name.dottedName (← Walk.setting).source)
      let values ← elementsFrom cs
      emitWith .annotationUse found (← Walk.spanOf name) (some values)) >>= fun _ =>
        Walk.visitInside t (cs.child? .arguments) := by
    unfold Walk.visitUse
    rw [hname]
    rfl
  refine .weaken ?_ (refines_of_plan h.shaped hplan)
  rw [hown, hsplit]
  simp only [planned_cons, planned_nil, Trace.append_empty]
  exact .bind (.use hwritten hinked (.elementsFrom h.sound hplain)) fun _ => harguments

lemma reportCall {p : Tree.Position} {name : Tree} (h : Stage o κ t cs u u)
    (hkind : t.kind = .methodInvocation) (hname : t.child? .name = some name)
    (hcall : Evaluation o.binding κ u.context (rememberedCall p (bindInvocation t cs)))
    (hv : v.setting o.st = u.setting o.st) :
    Acts o κ v { sites := if !u.isApart then [⟨t, u⟩] else [] } (do
      let outcome ← rememberedCall p (bindInvocation t cs)
      emitCalls .methodCall outcome.calls name) := by
  have hctx : v.context = u.context := congrArg Setting.context hv
  have hinked := (h.proper (by rw [hkind]; decide)).inked_part h.shaped (by rw [hkind]; decide)
    (mem_of_child? hname)
  have hbind : Evaluation o.binding κ v.context (bindInvocation t cs) :=
    .bindInvocation t (hctx ▸ h.sound) (h.sense.plain (hkind ▸ rfl))
  refine .reportAll (.report (r := .call cs name) (hctx ▸ hcall) (.bind hbind fun _ => .pure _)
    (fun s => ?_) ?_ ⟨hkind, hname, h.sense⟩ (h.holds _ (mem_spots_self t u)) hinked)
  · rw [rememberedCall_of_unknown (.inl rfl), Report.names, walk_map_apply]
  · rw [Report.vars, View.declaring_nil]
    exact hv

def isPrevious (c : Tree × Decorated Meaning) : Bool :=
  c.1.role == some .object && c.1.kind == .methodInvocation

lemma named_previous (h : Rooted o t cs) (hkind : t.kind = .methodInvocation) :
    cs.named.filter isPrevious =
      (cs.child? .object).toList.filter fun c => c.1.kind == .methodInvocation := by
  have hsingle : cs.countP (fun c => c.1.role == some .object) ≤ 1 := by
    have hsingle := h.shaped.fits.single .object (by rw [hkind]; decide)
    rw [← h.trees, countP_map] at hsingle
    exact hsingle
  have hobject : cs.filter (fun c => c.1.role == some .object) = (cs.child? .object).toList :=
    filter_eq_find? hsingle
  rw [← hobject, List.filter_filter]
  unfold Valued.named
  rw [List.filter_filter]
  refine filter_congr fun c _ => ?_
  cases hc : c.1.kind == .methodInvocation with
  | false => simp [isPrevious, hc]
  | true => simp [isPrevious, isNamed, eq_of_beq hc]

lemma reported_refines (h : Rooted o t cs)
    (hkind : t.kind = .methodInvocation ∨ t.kind = .objectCreationExpression ∨
      t.kind = .explicitConstructorInvocation) :
    (({ sites := if !u.isApart then [⟨t, u⟩] else [] } : Trace) ++
      .sum cs.named fun c => o.trace c.1 (o.enter t c.1 u) .all).Refines (o.trace t u .all) := by
  rw [← own_of_reported (by rcases hkind with h | h | h <;> simp [isReported, h])
    (by rcases hkind with h | h | h <;> rw [h] <;> rfl)]
  refine .trans (.append (.refl _) (named_refines h)) (inner_refines fun c => ?_)
  rcases hkind with h | h | h <;> rw [followed, plan, h] <;> rfl

lemma linksFrom_of_invocation (hkind : t.kind = .methodInvocation) (call : Walk CallOutcome) :
    linksFrom t cs call =
      linkFrom t cs call :: ((cs.child? .object).map fun c => c.2.value.links).getD [] := by
  rw [linksFrom, if_pos (by simp [hkind])]

lemma visitChain {links : List Link} {calls : List Spot}
    (hcalls : ∀ link ∈ links, Evaluation o.binding κ u.context link.call)
    (hreport : Acts o κ u { sites := calls } (reportLinks links))
    (hparts : Acts o κ u a (visitLinks links)) :
    Acts o κ u (({ sites := calls } : Trace) ++ a) (visitChain links) :=
  .after (.forM_silent fun link hlink =>
    .after (.evaluation (hcalls link (mem_reverse.mp hlink))) fun _ => .pure ()) fun _ =>
      .bind hreport fun _ => hparts

section

variable (h : Stage o κ t cs u u)
include h

lemma previousLinks (hkind : t.kind = .methodInvocation) :
    let links := ((cs.child? .object).map fun c => c.2.value.links).getD []
    ∃ calls rest, (∀ v : View, v.setting o.st = u.setting o.st →
        Acts o κ v { sites := calls } (reportLinks links)) ∧
      Acts o κ (u.within t) rest (visitLinks links) ∧
      (({ sites := calls } : Trace) ++ rest).Refines (.sum (cs.named.filter isPrevious) fun c =>
        o.trace c.1 (o.enter t c.1 u) .all) := by
  rw [named_previous h.toRooted hkind]
  have hnone : ∃ calls rest, (∀ v : View, v.setting o.st = u.setting o.st →
      Acts o κ v { sites := calls } (reportLinks [])) ∧
      Acts o κ (u.within t) rest (visitLinks []) ∧
      (({ sites := calls } : Trace) ++ rest).Refines {} :=
    ⟨[], {}, fun _ _ => .pure (), .pure (), .refl _⟩
  cases hc : cs.child? .object with
  | none => exact hnone
  | some c =>
    have hplace : (o.enter t c.1 u).place o.st = (u.within t).place o.st :=
      place_enter_through (hkind ▸ rfl) c.1 u
    have hsetting : (o.enter t c.1 u).setting o.st = u.setting o.st :=
      congrArg Place.toSetting hplace
    have htraced := h.part (Valued.mem_of_child? hc) hplace
    simp only [map_some, getD_some, toList_some]
    by_cases hobject : c.1.kind = .methodInvocation
    · obtain ⟨calls, rest, hcalls, hrest, hrefines⟩ := htraced.links hobject
      refine ⟨calls, rest, fun v hv => hcalls v (hv.trans hsetting.symm), .moved hrest hplace, ?_⟩
      rw [filter_cons_of_pos (by simp [hobject]), filter_nil,
        show Trace.sum [c] _ = o.trace c.1 (o.enter t c.1 u) .all ++ {} from rfl,
        Trace.append_empty]
      exact hrefines
    · rw [htraced.noLinks hobject, filter_cons_of_neg (by simp [hobject])]
      exact hnone

lemma linksFrom (hkind : t.kind = .methodInvocation) {p : Tree.Position}
    (hcall : Evaluation o.binding κ u.context (rememberedCall p (bindInvocation t cs))) :
    let links := linksFrom t cs (rememberedCall p (bindInvocation t cs))
    ∃ calls rest, (∀ v : View, v.setting o.st = u.setting o.st →
        Acts o κ v { sites := calls } (reportLinks links)) ∧
      Acts o κ u rest (visitLinks links) ∧
      (({ sites := calls } : Trace) ++ rest).Refines (o.trace t u .all) := by
  obtain ⟨name, hname⟩ := exists_child_of_kind h.shaped hkind .name
  obtain ⟨calls, rest, hcalls, hrest, hrefines⟩ := previousLinks h hkind
  have hparts : Acts o κ (u.within t) (.sum (cs.named.filter fun c => !isPrevious c) fun c =>
      o.trace c.1 (o.enter t c.1 u) .all)
      (linkFrom t cs (rememberedCall p (bindInvocation t cs))).parts :=
    .forM fun c hc => .part h (Valued.mem_of_mem_named (mem_filter.mp hc).1)
      (place_enter_through (hkind ▸ rfl) c.1 u)
  rw [linksFrom_of_invocation hkind]
  refine ⟨(if !u.isApart then [⟨t, u⟩] else []) ++ calls, _, fun v hv => ?_,
    .inside (.bind hrest fun _ => hparts), .trans ?_ (reported_refines h.toRooted (.inl hkind))⟩
  · change Acts o κ v
      (({ sites := if !u.isApart then [⟨t, u⟩] else [] } : Trace) ++ { sites := calls }) _
    refine .bind ?_ fun _ => hcalls v hv
    simp only [linkFrom, hname]
    exact .reportCall h hkind hname hcall hv
  · have hsplit := (hrefines.append (.refl _)).trans (Trace.sum_split isPrevious
      (fun c => o.trace c.1 (o.enter t c.1 u) .all) cs.named)
    have hall := Trace.Refines.append
      (.refl { sites := if !u.isApart then [Spot.mk t u] else [] }) hsplit
    refine ⟨hall.uses, .trans (.of_eq ?_) hall.sites⟩
    simp only [Trace.sites_append, append_assoc]

lemma visitCreation (hkind : t.kind = .objectCreationExpression) :
    Acts o κ u (o.trace t u .all) (Walk.visitCreation t cs) := by
  have hcallable : t.kind.isCallable = false := by rw [hkind]; rfl
  obtain ⟨written, hwritten⟩ := exists_child_of_kind h.shaped hkind .type
  have hinked : Inked o.text written.nameOfType.range := by
    refine inked_nameOfType ((h.proper (by rw [hkind]; decide)).parts written
      (mem_of_child? hwritten)) ?_
    obtain ⟨_, hadmits⟩ := admits_of_child h.shaped hwritten
    exact isFragment_of_admits (l := written.label) hadmits (by rw [hkind]; decide)
  have hnames : Evaluation o.binding κ u.context (creationCalls t cs) :=
    .creationCalls t h.sound (h.sense.plain (hkind ▸ rfl))
  unfold Walk.visitCreation
  rw [hwritten]
  refine .weaken (.reportThen (.report (r := .creation cs written) hnames hnames (fun _ => rfl)
    (by rw [Report.vars, View.declaring_nil]) ⟨hkind, hwritten, h.sense⟩
    (h.holds _ (mem_spots_self t u)) hinked) (.forM fun c hc => ?_))
    (reported_refines h.toRooted (.inr (.inl hkind)))
  have hmem := Valued.mem_of_mem_named hc
  split
  case isTrue hbody =>
    have hbody : c.1.kind = .classBody := eq_of_beq hbody
    refine .visitAnonymousBody h hcallable hmem (by rw [hbody]; decide) ?_
    simp [typeEntered?, hkind, hbody, Kind.isTypeDeclaration]
  case isFalse hbody =>
    refine .inside (.part h hmem (place_enter_plain ?_ hcallable u))
    have hbody : c.1.kind ≠ .classBody := by simpa using hbody
    simp [typeEntered?, hkind, hbody, Kind.isTypeDeclaration]

lemma visitExplicitConstructor (hkind : t.kind = .explicitConstructorInvocation) :
    Acts o κ u (o.trace t u .all) (Walk.visitExplicitConstructor t cs) := by
  obtain ⟨keyword, hkeyword⟩ := exists_child_of_kind h.shaped hkind .constructor
  have hinked := (h.proper (by rw [hkind]; decide)).inked_part h.shaped
    (by rw [hkind]; decide) (mem_of_child? hkeyword)
  have hnames : Evaluation o.binding κ u.context (explicitConstructorCalls t cs) :=
    .explicitConstructorCalls t h.sound (h.sense.plain (hkind ▸ rfl))
  unfold Walk.visitExplicitConstructor
  rw [hkeyword]
  exact .weaken (.reportThen (.report (r := .explicitCall cs keyword) hnames hnames (fun _ => rfl)
    (by rw [Report.vars, View.declaring_nil]) ⟨hkind, hkeyword, h.sense⟩
    (h.holds _ (mem_spots_self t u)) hinked) (.inside (.forM fun c hc =>
      .part h (Valued.mem_of_mem_named hc) (place_enter_through (hkind ▸ rfl) c.1 u))))
    (reported_refines h.toRooted (.inr (.inr hkind)))

end

lemma forM_inside (t : Tree) (walks : List (Walk Unit)) :
    (walks.map (Walk.inside t)).forM id = Walk.inside t (walks.forM id) := by
  induction walks with
  | nil => rfl
  | cons x walks ih => exact congrArg (Walk.inside t x >>= fun _ => ·) ih

lemma forM_append (xs ys : List (Walk Unit)) :
    (xs ++ ys).forM id = xs.forM id >>= fun _ => ys.forM id :=
  List.forM_append

lemma operandsFrom (h : Stage o κ t cs u u) (hkind : t.kind = .binaryExpression) :
    Acts o κ u (o.trace t u .all) ((Walk.operandsFrom t cs).forM id) := by
  have hplan : plan o.st.declarations t = some [(.role .left, .all), (.role .right, .all)] := by
    rw [plan, hkind]; rfl
  have hplace (c : Tree) : (o.enter t c u).place o.st = (u.within t).place o.st :=
    place_enter_through (hkind ▸ rfl) c u
  have hleft : Acts o κ (u.within t) (o.partAt t u (.role .left) .all)
      ((((cs.child? .left).map fun c => c.2.value.operands).getD []).forM id) := by
    rw [h.partIn]
    cases hc : cs.child? .left with
    | none => exact .pure ()
    | some c =>
      exact .moved (h.part (Valued.mem_of_child? hc) (hplace c.1)).operands (hplace c.1)
  have hright : Acts o κ (u.within t) (o.partAt t u (.role .right) .all)
      (((cs.child? .right).map fun c => c.2.value.visit).toList.forM id) := by
    rw [h.partIn]
    cases hc : cs.child? .right with
    | none => exact .pure ()
    | some c =>
      exact .before (.part h (Valued.mem_of_child? hc) (hplace c.1)) fun _ => .pure ()
  refine .byPlan h.shaped hplan (by rw [hkind]; decide) ?_
  simp only [planned_cons, planned_nil, Trace.append_empty]
  unfold Walk.operandsFrom
  rw [forM_inside, forM_append]
  exact .inside (.bind hleft fun _ => hright)

lemma visitFrom (h : Stage o κ t cs u (u.declaring (declared o.st.source t))) {links : List Link}
    (hchain : t.kind = .methodInvocation → Acts o κ u (o.trace t u .all) (Walk.visitChain links)) :
    Acts o κ u (o.trace t u .all) (Walk.visitFrom t cs links) := by
  have hplain {form : Form} (hform : Form.ofKind t.kind = form) (hne : form ≠ .other := by decide)
      (htable : Form.table.all fun e => e.2 != form || !e.1.isCallable := by decide) :
      Stage o κ t cs u u := by
    have hcallable := kind_of_form (fun k => !k.isCallable) hform hne htable
    rwa [declared_of_plain (by simpa using hcallable), View.declaring_nil] at h
  have htype {k : Kind} (hkind : t.kind = k) (hk : k.isTypeDeclaration) :
      Acts o κ u (o.trace t u .all) (Walk.visitTypeDeclaration t cs (declaredKind k)) := by
    subst hkind
    rw [declared_of_plain (isCallable_of_typeDeclaration hk), View.declaring_nil] at h
    exact .visitTypeDeclaration h hk
  unfold Walk.visitFrom
  split
  case h_1 hform =>
    have hkind : t.kind = .importDeclaration := kind_eq_of_form hform
    exact .byPlan h.shaped (by rw [plan, hkind]; rfl) (by rw [hkind]; decide)
      (.visitImport (h.proper (by rw [hkind]; decide)) hkind h.stands)
  case h_2 hform => exact htype (k := .classDeclaration) (kind_eq_of_form hform) rfl
  case h_3 hform => exact htype (k := .interfaceDeclaration) (kind_eq_of_form hform) rfl
  case h_4 hform => exact htype (k := .enumDeclaration) (kind_eq_of_form hform) rfl
  case h_5 hform => exact htype (k := .recordDeclaration) (kind_eq_of_form hform) rfl
  case h_6 hform => exact htype (k := .annotationTypeDeclaration) (kind_eq_of_form hform) rfl
  case h_8 hform => exact .visitMethod h (.inl (kind_eq_of_form hform))
  case h_9 hform => exact .visitMethod h (.inr (kind_eq_of_form hform))
  case h_10 hform | h_11 hform => exact .visitConstructor h (kind_eq_of_form hform)
  case h_20 hform => exact hchain (kind_eq_of_form hform)
  case h_28 hform =>
    have hcallable : t.kind.isCallable = false := by
      revert hform
      generalize t.kind = k
      cases k <;> decide
    rw [declared_of_plain hcallable, View.declaring_nil] at h
    split
    case isTrue hbinary => exact .operandsFrom h (eq_of_beq hbinary)
    case isFalse hbinary =>
      exact .visitPassing h (passing_of_other hform (by simpa using hbinary))
  all_goals rename_i hform; have h := hplain hform
  case h_7 => exact .visitEnumConstant h (kind_eq_of_form hform)
  case h_12 => exact .visitVariables h (.inl (kind_eq_of_form hform)) false
  case h_13 => exact .visitVariables h (.inr (.inl (kind_eq_of_form hform))) false
  case h_14 => exact .visitVariables h (.inr (.inr (kind_eq_of_form hform))) true
  case h_15 => exact .visitEnhancedFor h (kind_eq_of_form hform)
  case h_16 => exact .visitCatch h (kind_eq_of_form hform)
  case h_17 | h_18 => exact .inScope (.visitPassing h (kind_of_form isPassing hform))
  case h_19 => exact .visitResource h (kind_eq_of_form hform)
  case h_21 => exact .visitCreation h (kind_eq_of_form hform)
  case h_22 => exact .visitExplicitConstructor h (kind_eq_of_form hform)
  case h_23 => exact .visitUse h (.inl (kind_eq_of_form hform))
  case h_24 => exact .visitUse h (.inr (kind_eq_of_form hform))
  case h_25 => exact .visitLambda h (kind_eq_of_form hform)
  case h_26 => exact .visitInstanceTest h (kind_eq_of_form hform)
  case h_27 => exact .visitPassing h (kind_of_form isPassing hform)

end Acts

section

variable {unit : Tree}
variable {p : Tree.Position} {source : List Char}

lemma traced_meaningFrom (h : Stage o κ t cs u (u.declaring (declared o.st.source t)))
    (hsound : (meaningFrom p t cs).Sound o.binding κ u.context) :
    Traced o κ t u (meaningFrom p t cs) := by
  have hlinks (hkind : t.kind = .methodInvocation) := by
    have hmem : linkFrom t cs (rememberedCall p (bindInvocation t cs)) ∈
        (meaningFrom p t cs).links := by
      change _ ∈ Walk.linksFrom t cs _
      rw [Acts.linksFrom_of_invocation hkind]
      exact mem_cons_self
    rw [declared_of_plain (hkind ▸ rfl), View.declaring_nil] at h
    exact Acts.linksFrom h hkind (hsound.calls _ hmem)
  have hvisit : Acts o κ u (o.trace t u .all) (meaningFrom p t cs).visit := by
    refine .visitFrom h fun hkind => ?_
    obtain ⟨calls, rest, hreport, hparts, hrefines⟩ := hlinks hkind
    exact .weaken (.visitChain hsound.calls (hreport u rfl) hparts) hrefines
  refine ⟨hvisit, ?_, hlinks, fun hkind => if_neg (by simpa using hkind)⟩
  change Acts _ _ _ _ ((if t.kind == .binaryExpression then Walk.operandsFrom t cs
    else [Walk.visitFrom t cs _]).forM id)
  split
  case isTrue hbinary =>
    rw [declared_of_plain (by rw [eq_of_beq hbinary]; rfl), View.declaring_nil] at h
    exact .operandsFrom h (eq_of_beq hbinary)
  case isFalse => exact .before hvisit fun _ => .pure ()

lemma senseOf_meaning (source : List Char) (hshaped : t.Shaped)
    (ht : unit.at? p.reverse = some t) : SenseOf source t (meaning p t).parts where
  parts := ⟨p, rfl⟩
  sound := by
    obtain ⟨contexts, halign⟩ := exists_aligned source {} p t
    cases soundAt_of_shaped unit hshaped ht halign with
    | mk _ hparts => exact ⟨_, contexts, _, hparts⟩
  plain := plainParts_meaning hshaped

def Scene.ofUnit (st : Setting) (source : List Char) (unit : Tree) (holds : Spot → Prop) : Scene :=
  ⟨st, source, bindingIn unit, holds⟩

lemma tracedAt_meaning {st : Setting} {holds : Spot → Prop} (hparse : parse? source = some unit)
    (hshaped : t.Shaped) (ht : unit.at? p.reverse = some t)
    (hwithin : t.kind = .program ∨ t.Within source) (hparts : ∀ c ∈ t.children, c.Within source) :
    TracedAt (.ofUnit st source unit holds) (t, meaning p t) := by
  induction t using induction generalizing p with
  | step t ih =>
    have htraced : ∀ c ∈ (meaning p t).parts, TracedAt (.ofUnit st source unit holds) c := by
      intro c hc
      obtain ⟨i, child, hi, rfl⟩ := mem_parts_meaning hc
      have hmem := mem_of_getElem? hi
      exact ih child hmem (hshaped.parts child hmem) (at?_child ht hi)
        (.inr (hparts child hmem)) (hparts child hmem).parts
    have hrooted : Rooted (.ofUnit st source unit holds) t (meaning p t).parts := by
      refine ⟨hshaped, trees_meaning p t, hwithin, ⟨unit, _, hparse, ht⟩,
        senseOf_meaning st.source hshaped ht, fun ctx => ?_⟩
      obtain ⟨κ, halign⟩ := exists_aligned st.source ctx p t
      cases soundAt_of_shaped unit hshaped ht halign with
      | mk _ hsound => exact ⟨κ, hsound⟩
    refine .mk hrooted (fun κ u hholds hsound => ?_) htraced
    cases hsound with
    | mk hmeaning hsound =>
      rw [value_meaning] at hmeaning ⊢
      exact traced_meaningFrom ⟨⟨hrooted, htraced⟩, hholds, hsound⟩ hmeaning

/-- The walk over a unit does what its trace says, whatever surrounds the unit. -/
lemma exists_acts (st : Setting) (u : View) (holds : Spot → Prop)
    (hparse : parse? source = some unit)
    (hholds : ∀ s ∈ spots st.declarations st.source unit u, holds s) :
    ∃ κ, Acts (.ofUnit st source unit holds) κ u (trace (.ofUnit st source unit holds) unit u .all)
      (visitAll unit (meaning [] unit).parts) := by
  have htraced : TracedAt (.ofUnit st source unit holds) (unit, meaning [] unit) :=
    tracedAt_meaning hparse (shaped_of_parse hparse)
      (rfl : unit.at? ([] : Tree.Position).reverse = some unit) (.inl (kind_of_parse hparse))
      (within_of_parse hparse)
  obtain ⟨κ, halign⟩ := exists_aligned st.source u.context [] unit
  have hsound := soundAt_of_shaped unit htraced.inner.shaped rfl halign
  have hvisit : (meaning [] unit).value.visit = visitAll unit (meaning [] unit).parts := by
    rw [value_meaning]
    change visitFrom unit _ _ = _
    unfold visitFrom
    rw [kind_of_parse hparse]
    rfl
  exact ⟨κ, hvisit ▸ (htraced.meaning hholds hsound).visit⟩

end

end Xref.Reference

