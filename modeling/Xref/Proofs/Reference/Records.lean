import Mathlib.Data.List.TakeWhile
import Xref.Proofs.Reference.Scopes
import Xref.Proofs.Reference.Signature
import Xref.Proofs.Resolve.Soundness

/-!
# What records are made of

Every record has a name that is not empty, and it stands at a part of the unit that begins with ink.
An import is reported with the name that follows `import`, and each annotation that is noticed is
reported once, at its name.
-/
open List

namespace Xref.Reference

open Declaration Java Resolve Syntax Text Walk

variable {base : String}

lemma ne_empty_withDims {dims : Nat} (h : base ≠ "" ∨ 0 < dims) : withDims base dims ≠ "" := by
  rw [withDims, Ne, String.ofList_eq_empty_iff, append_eq_nil_iff, flatten_eq_nil_iff]
  rintro ⟨hbase, hdims⟩
  rcases h with h | h
  · exact h (String.toList_eq_nil_iff.mp hbase)
  · exact absurd (hdims ['[', ']'] (mem_replicate.mpr ⟨h.ne', rfl⟩)) (by simp)

lemma ne_empty_append_left {a : String} (h : a ≠ "") (b : String) : a ++ b ≠ "" := by
  intro hempty
  exact h (String.append_eq_empty_iff.mp hempty).1

variable {ctx : Context}

lemma ne_empty_of_resolve {index : TypeIndex} (hindex : index.contains "" = false) {m : Memory}
    {text r : String} (h : (index.resolve text ctx m).1 = some r) : r ≠ "" := by
  obtain ⟨base, own, b, n, _, hdenotes⟩ := denotes_of_resolve h
  rw [hdenotes.shape]
  refine ne_empty_withDims (.inl ?_)
  rintro rfl
  rcases hdenotes.known with hprimitive | hroot | hcontains
  · exact absurd hprimitive (by decide)
  · exact absurd hroot (by decide)
  · simp [hindex] at hcontains

variable {scopes : List Scope}

lemma AreNamed.localType (h : AreNamed scopes) {simple binary : String}
    (hfound : scopes.findSome? (fun scope => scope.localTypes.lookup simple) = some binary) :
    binary ≠ "" := by
  obtain ⟨scope, hscope, hbinary⟩ := exists_of_findSome?_eq_some hfound
  obtain ⟨before, after, htypes, _⟩ := lookup_eq_some_iff.mp hbinary
  exact h scope hscope (simple, binary) (by rw [htypes]; simp)

/-- Where these scopes are around the place, what the walk finds passes `P`, and it leaves the
scopes as they are. -/
def Walk.YieldsAt {α : Type} (place : Place) (scopes : List Scope) (P : α → Prop) (x : Walk α) :
    Prop :=
  ∀ s, s.scopes = scopes → P (x place s).1 ∧ (x place s).2.scopes = scopes

variable {place : Place} {source : List Char} {t : Tree}

namespace Walk.YieldsAt

variable {α β : Type} {P : α → Prop} {Q : β → Prop} {x : Walk α}

lemma pure {a : α} (h : P a) : Walk.YieldsAt place scopes P (pure a : Walk α) := fun _ hs => ⟨h, hs⟩

lemma bind {f : α → Walk β} (hx : Walk.YieldsAt place scopes P x)
    (hf : ∀ a, P a → Walk.YieldsAt place scopes Q (f a)) :
    Walk.YieldsAt place scopes Q (x >>= f) := by
  intro s hs
  obtain ⟨ha, hs'⟩ := hx s hs
  exact hf _ ha _ hs'

lemma ask {question : TypeIndex → Query α} (h : ∀ m, P (question place.index m).1) :
    Walk.YieldsAt place scopes P (ask question) :=
  fun s hs => ⟨h s.memory, hs⟩

lemma localType (simple : String) : Walk.YieldsAt place scopes
    (· = scopes.findSome? fun scope => scope.localTypes.lookup simple) (localType? simple) := by
  rintro s rfl
  exact ⟨rfl, rfl⟩

lemma setting : Walk.YieldsAt place scopes (· = place.toSetting) setting := fun _ hs => ⟨rfl, hs⟩

lemma of_yields (h : x.Yields P) (hx : Evaluates x) : Walk.YieldsAt place scopes P x :=
  fun s hs => ⟨h place s, (hx.scopes place s).trans hs⟩

end Walk.YieldsAt

section

lemma yieldsAt_resolveType? (hindex : place.index.contains "" = false) (hscopes : AreNamed scopes)
    (text : String) : (resolveType? text).YieldsAt place scopes fun r => ∀ name ∈ r, name ≠ "" := by
  unfold resolveType?
  obtain ⟨base, dims⟩ := splitArray text
  refine .bind (.localType _) fun found hfound => ?_
  cases found with
  | some binary =>
    have hbinary := hscopes.localType hfound.symm
    dsimp only
    split
    · refine .pure fun name hname => ?_
      obtain rfl := Option.some.inj hname
      exact ne_empty_withDims (.inl hbinary)
    · refine .bind (P := fun r => ∀ name ∈ r, name ≠ "") (.ask fun m name hname => ?_)
        fun found hfound => .pure ?_
      · rintro rfl
        have hcontains := vouched_resolveSegments _ m "" hname
        simp [hindex] at hcontains
      · intro name hname
        obtain ⟨b, hb, rfl⟩ := Option.map_eq_some_iff.mp hname
        exact ne_empty_withDims (.inl (hfound b hb))
  | none =>
    exact .bind .setting fun _ _ => .ask fun m name hname => ne_empty_of_resolve hindex hname

end

lemma ne_empty_recoverName (hbase : trim base ≠ "") (imports : List Import)
    (lead : String → Walk (Option String)) :
    (recoverName base imports lead).Yields fun found => found.name ≠ "" := by
  have hdotted (front rest : String) : front ++ "." ++ rest ≠ "" := by
    refine ne_empty_append_left ?_ rest
    intro hempty
    exact absurd (String.append_eq_empty_iff.mp hempty).2 (by decide)
  unfold recoverName
  dsimp only
  cases cutFirst '.' (trim base) with
  | some cut =>
    refine .last fun known => ?_
    cases known with
    | some known => exact .pure (hdotted known cut.2)
    | none =>
      dsimp only
      split
      next i _ => exact .pure (hdotted i.name cut.2)
      next => exact .pure hbase
  | none =>
    dsimp only
    split
    next i hi =>
      refine .pure fun hempty => hbase ?_
      have hfound := find?_some hi
      have hsimple := (Bool.and_eq_true_iff.mp hfound).2
      have hempty : i.name = "" := hempty
      rw [← eq_of_beq hsimple, Import.simpleName, hempty]
      rfl
    next => exact .pure hbase

lemma trim_ne_empty {c : Char} (hc : base.toList.head? = some c) (hink : isBlank c = false) :
    trim base ≠ "" := by
  obtain ⟨rest, hrest⟩ := head?_eq_some_iff.mp hc
  rw [trim, Ne, String.ofList_eq_empty_iff, trimChars, hrest,
    dropWhile_cons_of_neg (by simp [hink]), trimEndChars, reverse_eq_nil_iff, dropWhile_eq_nil_iff]
  intro hall
  simpa [hink] using hall c (by simp)

lemma yieldsAt_typeName (hindex : place.index.contains "" = false) (hscopes : AreNamed scopes)
    {text : String} (htext : ∃ x ∈ text.toList, isBlank x = false) :
    (typeName text).YieldsAt place scopes fun found => found.name ≠ "" := by
  have hdimensioned := dimensioned_splitArray text
  unfold typeName
  refine .bind (yieldsAt_resolveType? hindex hscopes text) fun found hfound => ?_
  cases found with
  | some name => exact .pure (hfound name rfl)
  | none =>
    dsimp only
    generalize splitArray text = parts at hdimensioned
    obtain ⟨base, dims⟩ := parts
    -- the element type is blank only if there are brackets behind it
    by_cases hdims : 0 < dims
    · refine .bind (P := fun _ => True) ?_ fun found _ => .pure (ne_empty_withDims (.inr hdims))
      exact .of_yields (fun _ _ => trivial) (.always fun _ _ _ => .of (.recover base))
    · have hbase : trim base ≠ "" := by
        obtain ⟨⟨lead, last, gaps, hwritten, hgaps, hblank⟩, hfirst, _, _⟩ := hdimensioned
        obtain ⟨x, hx, hink⟩ := htext
        obtain rfl : gaps = [] := length_eq_zero_iff.mp (by omega)
        have hx : x ∈ base.toList := by
          obtain ⟨hlead, hlast, _⟩ : lead.all isBlank ∧ last.all isBlank ∧ True := by
            simpa using hblank
          rw [hwritten] at hx
          simp only [flatMap_nil, append_nil, mem_append] at hx
          rcases hx with (hx | hx) | hx
          · simp [all_eq_true.mp hlead x hx] at hink
          · exact hx
          · simp [all_eq_true.mp hlast x hx] at hink
        cases hhead : base.toList.head? with
        | none => simp [head?_eq_none_iff.mp hhead] at hx
        | some c => exact trim_ne_empty hhead (by simpa [hhead] using hfirst)
      refine .bind (P := fun found => found.name ≠ "") ?_ fun found hfound =>
        .pure (ne_empty_withDims (.inl hfound))
      refine .of_yields ?_ (.always fun _ _ _ => .of (.recover base))
      exact .last fun st => ne_empty_recoverName hbase st.context.imports resolveType?

lemma exists_ink_of_dottedName (h : t.dottedName source ≠ "") :
    ∃ x ∈ (t.dottedName source).toList, isBlank x = false := by
  obtain ⟨x, hx⟩ := exists_mem_of_ne_nil _ (mt String.toList_eq_nil_iff.mp h)
  refine ⟨x, hx, ?_⟩
  rw [Tree.dottedName, squeeze, String.toList_ofList, mem_filter] at hx
  simpa using hx.2

def Record.isUse (r : Record) : Bool := r.location == .annotationUse

structure Imports (st : Setting) (r : Record) (t key : Tree) : Prop where
  stands : Stands st.source t
  kind : t.kind = .importDeclaration
  named : t.children.find? (fun c => [.identifier, .scopedIdentifier].contains c.kind) = some key
  span : r.span = st.lines.span key.start key.stop
  onDemand : (t.children.any fun c => c.kind == .asterisk) →
    ∃ owner, r.name = st.declarations.display (owner ++ ".*")

structure Made (st : Setting) (r : Record) : Prop where
  name : ∃ name, name ≠ "" ∧ r.name = st.declarations.display name
  span : ∃ range : Range, Inked st.source range ∧ r.span = st.lines.span range.start range.stop
  snippet : r.snippet = st.lines.snippet r.span.line
  values : r.values.isSome = r.isUse
  imports : r.location = .importDeclaration → ∃ t key, Imports st r t key

/-- The records that are written from one state to another. If no type has the empty name, there is
one for each of the annotations with the names `us`. -/
def Wrote (st : Setting) (us : List Tree) (s s' : WalkState) : Prop :=
  ∃ added, s'.records = s.records ++ added ∧ (∀ r ∈ added, Made st r) ∧
    (st.IsNamed → AreNamed s.scopes →
      ((added.filter Record.isUse).map Record.span).Perm
        (us.map fun name => st.lines.span name.start name.stop))

namespace Wrote

variable {st : Setting} {us us' : List Tree} {s s' s'' : WalkState}

lemma of_eq (h : s'.records = s.records) : Wrote st [] s s' :=
  ⟨[], by rw [h, append_nil], nofun, fun _ _ => .nil⟩

lemma trans (h : Wrote st us s s') (h' : Wrote st us' s' s'')
    (hscopes : st.IsNamed → AreNamed s.scopes → AreNamed s'.scopes) :
    Wrote st (us ++ us') s s'' := by
  obtain ⟨added, hadded, hmade, huses⟩ := h
  obtain ⟨added', hadded', hmade', huses'⟩ := h'
  refine ⟨added ++ added', by rw [hadded', hadded, append_assoc],
    forall_mem_append.mpr ⟨hmade, hmade'⟩, fun hnamed hs => ?_⟩
  rw [filter_append, map_append, map_append]
  exact (huses hnamed hs).append (huses' hnamed (hscopes hnamed hs))

lemma congr (h : Wrote st us s s') {t t' : WalkState} (hrecords : t.records = s.records)
    (hrecords' : t'.records = s'.records) (hscopes : AreNamed t.scopes → AreNamed s.scopes) :
    Wrote st us t t' := by
  obtain ⟨added, hadded, hmade, huses⟩ := h
  exact ⟨added, by rw [hrecords', hadded, hrecords], hmade,
    fun hnamed hs => huses hnamed (hscopes hs)⟩

end Wrote

variable {α : Type} {x : Walk α}

def Place.IsUnchecked (place : Place) : Prop := ∀ complaint, place.remembering ≠ .checking complaint

lemma records_rememberedCall {p : Tree.Position} {x : Walk CallOutcome}
    (hplace : place.IsUnchecked) (h : ∀ s, (x place s).2.records = s.records) (s : WalkState) :
    (rememberedCall p x place s).2.records = s.records := by
  have hrun := h s
  rcases hx : x place s with ⟨anew, s'⟩
  rw [hx] at hrun
  unfold rememberedCall
  simp only [hx]
  split
  · rfl
  · next complaint _ hremembering _ => exact absurd hremembering (hplace complaint)
  · exact hrun

lemma Evaluation.records {binding : Bindings} {contexts : Contexts}
    (h : Evaluation binding contexts ctx x) (hplace : place.IsUnchecked) (s : WalkState) :
    (x place s).2.records = s.records := by
  induction h generalizing s with
  | pure | setting | ask | localType | localVariable => rfl
  | call p hp h ih => exact records_rememberedCall hplace ih s
  | bind hx hf ihx ihf => exact (ihf _ _).trans (ihx s)

lemma Evaluates.records (h : Evaluates x) (hplace : place.IsUnchecked) (s : WalkState) :
    (x place s).2.records = s.records := by
  obtain ⟨_, _, _, h⟩ := h
  exact h.records hplace s

def recordOver (st : Setting) (construct : Construct) (name : TypeName) (span : Span)
    (values : Option ElementValues) : Record where
  name := st.declarations.display name.name
  status := name.status
  location := construct.location
  span := span
  snippet := st.lines.snippet span.line
  values := values

lemma records_emitWith (st : Setting) (u : View) (r : Recall) (construct : Construct)
    (name : TypeName) (span : Span) (values : Option ElementValues) (s : WalkState) :
    (emitWith construct name span values (u.placeIn st r) s).2.records = s.records ++
      if name.name.isEmpty then [] else [recordOver st construct name span values] := by
  change (addRecord _ _ s).2.records = _
  unfold addRecord
  split
  · exact (append_nil _).symm
  · exact WalkState.records_add _ s

section

variable {st : Setting} {u : View} {r : Recall} {construct : Construct} {name : TypeName}
  {span : Span} {values : Option ElementValues}

lemma Made.over (hname : name.name ≠ "")
    (hspan : ∃ range : Range, Inked st.source range ∧ span = st.lines.span range.start range.stop)
    (hvalues : values.isSome = (construct.location == .annotationUse))
    (himports : construct.location = .importDeclaration → ∃ t key,
      Imports st (recordOver st construct name span values) t key) :
    Made st (recordOver st construct name span values) where
  name := ⟨name.name, hname, rfl⟩
  span := hspan
  snippet := rfl
  values := hvalues
  imports := himports

lemma Wrote.emitWith (s : WalkState) (huse : construct.location ≠ .annotationUse)
    (hmade : name.name ≠ "" → Made st (recordOver st construct name span values)) :
    Wrote st [] s (emitWith construct name span values (u.placeIn st r) s).2 := by
  refine ⟨_, records_emitWith st u r construct name span values s, ?_, fun _ _ => .of_eq ?_⟩
  · split
    next => exact nofun
    next h => simpa using hmade (by simpa using h)
  · split
    next => rfl
    next => simp [Record.isUse, recordOver, huse]

lemma Wrote.emitUse {key : Tree} (s : WalkState)
    (hname : st.IsNamed → AreNamed s.scopes → name.name ≠ "")
    (hmade : name.name ≠ "" → Made st (recordOver st .annotationUse name
      (st.lines.span key.start key.stop) values)) :
    Wrote st [key] s (Walk.emitWith .annotationUse name (st.lines.span key.start key.stop) values
      (u.placeIn st r) s).2 := by
  refine ⟨_, records_emitWith st u r _ name _ values s, ?_, fun hnamed hs => .of_eq ?_⟩
  · split
    next => exact nofun
    next h => simpa using hmade (by simpa using h)
  · rw [if_neg (by simpa using hname hnamed hs)]
    rfl

end

variable {st : Setting} {u : View} {r : Recall}

lemma yields_importName {i : Import} (h : i.onDemand) :
    (importName i).Yields fun found => ∃ owner, found.name = owner ++ ".*" := by
  have hmembers : (importedMembers i).Yields fun found => ∃ owner, found.name = owner ++ ".*" := by
    refine .last fun found => ?_
    cases found with
    | some owner => exact .pure ⟨owner, rfl⟩
    | none => exact .pure ⟨_, rfl⟩
  unfold importName
  rw [if_pos h]
  refine .ite _ hmembers ?_
  rw [if_pos h]
  refine .last fun st => .ite _ (.pure ⟨i.name, ?_⟩) hmembers
  rw [Import.displayName, if_pos h]
  rfl

lemma Wrote.visitImport (hwithin : t.Within st.source) (hkind : t.kind = .importDeclaration)
    (hstands : Stands st.source t) (hplace : (u.placeIn st r).IsUnchecked) (s : WalkState) :
    Wrote st [] s (Walk.visitImport t (u.placeIn st r) s).2 := by
  rcases visitImport_cases t (u.placeIn st r) with ⟨i, key, himport, hkey, hvisit⟩ | hvisit
  · rw [hvisit]
    have heval : Evaluates (Walk.importName i) := .always fun _ _ _ => .of (.importName i)
    have hinked : Inked st.source key.range := by
      refine (hwithin.parts key (mem_of_find?_eq_some hkey)).inked ?_
      have hkeykind := find?_some hkey
      revert hkeykind
      cases key.kind <;> decide
    have hwrote : Wrote st [] (Walk.importName i (u.placeIn st r) s).2 (Walk.emitWith
        .importDeclaration (Walk.importName i (u.placeIn st r) s).1
        (st.lines.span key.start key.stop) none (u.placeIn st r)
        (Walk.importName i (u.placeIn st r) s).2).2 := by
      refine .emitWith _ (by decide) fun hname => ?_
      refine .over hname ⟨key.range, hinked, rfl⟩ rfl fun _ => ⟨t, key, ?_⟩
      refine ⟨hstands, hkind, hkey, rfl, fun hdemand => ?_⟩
      have hdemand : i.onDemand := by
        rw [importOf?, hkey] at himport
        obtain rfl := Option.some.inj himport
        exact hdemand
      obtain ⟨owner, howner⟩ := yields_importName hdemand (u.placeIn st r) s
      exact ⟨owner, by rw [recordOver, howner]⟩
    exact hwrote.congr (heval.records hplace s).symm rfl fun hs => by
      rwa [heval.scopes (u.placeIn st r) s]
  · rw [hvisit]
    exact .of_eq rfl

lemma Wrote.use {name : Tree} (h : name.dottedName st.source ≠ "")
    (hinked : Inked st.source name.range) {values : Walk ElementValues} (hvalues : Evaluates values)
    (hplace : (u.placeIn st r).IsUnchecked) (s : WalkState) :
    Wrote st [name] s ((do
      let found ← Walk.typeName (name.dottedName (← Walk.setting).source)
      let values ← values
      Walk.emitWith .annotationUse found (← Walk.spanOf name) (some values) : Walk Unit)
        (u.placeIn st r) s).2 := by
  have heval : Evaluates (Walk.typeName (name.dottedName st.source)) :=
    .always fun _ _ _ => .of (.typeName _)
  obtain ⟨found, s₁, hfound⟩ : ∃ found s₁,
      Walk.typeName (name.dottedName st.source) (u.placeIn st r) s = (found, s₁) := ⟨_, _, rfl⟩
  have hscopes : (values (u.placeIn st r) s₁).2.scopes = s.scopes := by
    rw [hvalues.scopes, ← heval.scopes (u.placeIn st r) s, hfound]
  have hrecords : (values (u.placeIn st r) s₁).2.records = s.records := by
    rw [hvalues.records hplace, ← heval.records hplace s, hfound]
  rw [use_apply Walk.typeName, show (u.placeIn st r).source = st.source from rfl, hfound,
    show (u.placeIn st r).lines = st.lines from rfl]
  refine (Wrote.emitUse _ (fun hnamed hs => ?_) fun hname => .over hname
    ⟨name.range, hinked, rfl⟩ rfl nofun).congr hrecords.symm rfl fun hs => by
      rwa [hscopes]
  have hindex : (u.placeIn st r).index.contains "" = false := hnamed.index
  have hyields := yieldsAt_typeName hindex (hscopes ▸ hs) (exists_ink_of_dottedName h) s rfl
  rw [hfound] at hyields
  exact hyields.1

lemma Wrote.reporting (hx : Evaluates x) (names : α → List TypeName) {report : Report}
    (hinked : Inked st.source (report.key t).range) (hplace : (u.placeIn st r).IsUnchecked)
    (s : WalkState) :
    Wrote st [] s
      (Walk.reporting report.construct (report.key t) x names (u.placeIn st r) s).2 := by
  have hrecords :
    (Walk.reporting report.construct (report.key t) x names (u.placeIn st r) s).2.records
      = s.records ++ recordsAt st report.construct (report.key t)
        (names (x (u.placeIn st r) s).1) := by
    rw [reporting_apply, ← hx.records hplace s]
    refine map_append.trans (congrArg _ ?_)
    rw [WalkState.findsAt, map_map]
    exact map_id _
  have hlocation := report.isReported_location
  have huse : report.construct.location ≠ .annotationUse :=
    fun h => by simp [h, Location.isReported] at hlocation
  refine ⟨_, hrecords, fun r hr => ?_, fun _ _ => .of_eq ?_⟩
  · obtain ⟨name, hname, rfl⟩ := mem_map.mp hr
    have hname : name.name ≠ "" := by simpa using (mem_filter.mp hname).2
    change Made st (recordOver st report.construct name _ none)
    refine .over hname ⟨_, hinked, rfl⟩ ?_ fun himport => ?_
    · simpa using huse
    · rw [himport] at hlocation
      cases hlocation
  · refine map_eq_nil_iff.mpr (filter_eq_nil_iff.mpr fun r hr => ?_)
    obtain ⟨name, _, rfl⟩ := mem_map.mp hr
    simpa [Record.isUse, recordAt] using huse

lemma Acts.wrote {o : Scene} {κ : Contexts} {a : Trace} (h : Acts o κ u a x)
    (htext : o.text = o.st.source) (hr : ∀ complaint, r ≠ .checking complaint) (s : WalkState) :
    Wrote o.st a.uses s (x (u.placeIn o.st r) s).2 := by
  have hplace (u : View) : (u.placeIn o.st r).IsUnchecked := hr
  induction h generalizing s with
  | evaluation h => exact .of_eq (h.records (hplace _) s)
  | @bindWith _ u _ _ _ _ x _ _ hx hP _ ihx ihf =>
    exact (ihx s).trans (ihf _ (hP r s) (x (u.placeIn o.st r) s).2) fun hnamed hs =>
      hx.areNamed hnamed r hs
  | congr _ heq ih => exact heq r s ▸ ih s
  | moved _ hmoved ih => exact View.placeIn_congr hmoved r ▸ ih s
  | bindVariable name type => exact .of_eq rfl
  | bindLocalType =>
    refine .of_eq ?_
    rw [bindLocalType_apply]
    split <;> rfl
  | emit h name hspan =>
    simp only [Construct.isRemark, Bool.and_eq_true, bne_iff_ne] at h
    obtain ⟨⟨himport, huse⟩, -⟩ := h
    rw [Scene.Covers, htext] at hspan
    refine .emitWith s huse fun hname => .over hname hspan ?_ fun hlocation => ?_
    · simpa using huse
    · exact absurd hlocation himport
  | report hx _ _ _ _ _ hinked => exact .reporting hx.evaluates _ (htext ▸ hinked) (hplace _) s
  | visitImport h hkind hstands =>
    exact .visitImport (htext ▸ h) hkind (htext ▸ hstands) (hplace _) s
  | use h hinked hvalues => exact .use (htext ▸ h) (htext ▸ hinked) hvalues.evaluates (hplace _) s
  | inScope _ ih =>
    refine (ih { s with scopes := {} :: s.scopes }).congr rfl rfl fun hs => ?_
    exact forall_mem_cons.mpr ⟨fun _ h => (by cases h), hs⟩
  | insideType _ _ ih => exact (ih { s with calls := [] }).congr rfl rfl id
  | withVariables _ ih | inside _ ih => exact ih s
  | weaken _ hrefines ih =>
    obtain ⟨added, hadded, hmade, huses⟩ := ih s
    exact ⟨added, hadded, hmade, fun hnamed hs => (huses hnamed hs).trans (hrefines.uses.map _)⟩

lemma wrote_of_parse {unit : Tree} (hparse : parse? source = some unit) (index : TypeIndex)
    (d : Declarations) :
    Wrote (.ofUnit index source d) (noticed d source unit .all) {}
      (collect (Place.ofUnit index source d) unit) := by
  obtain ⟨_, hacts⟩ := exists_acts (.ofUnit index source d) (.ofUnit d) (fun _ => True) hparse
    fun _ _ => trivial
  exact hacts.wrote rfl (r := .trusting) (fun _ h => by cases h) {}

end Xref.Reference
