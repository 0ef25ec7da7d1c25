import Xref.Proofs.Reference.TracingCode

/-!
# Remembered calls are invisible

A walk does all that it does as it does where calls are never remembered, and remembered calls can
be trusted after it if they could before. Calls are forgotten whenever names in scope change, so
this carries over from the steps of a walk to the whole.
-/
namespace Xref.Reference

open Declaration Java Resolve Syntax Text

structure Alike (s s' : WalkState) : Prop where
  memory : s.memory = s'.memory
  scopes : s.scopes = s'.scopes
  found : s.found = s'.found

lemma Alike.records {s s' : WalkState} (h : Alike s s') : s.records = s'.records :=
  congrArg (List.map Prod.fst) h.found

/-- Where `u` surrounds the place, the walk does what it does where calls are never remembered, and
what can be trusted stays so. -/
def Visits (o : Scene) (κ : Contexts) (u : View) {α : Type} (x : Walk α) : Prop :=
  ∀ r s s', Alike s s' → Trusted o.binding κ (u.setting o.st) s →
    (x (u.placeIn o.st r) s).1 = (x (u.place o.st) s').1 ∧
      Alike (x (u.placeIn o.st r) s).2 (x (u.place o.st) s').2 ∧
      Trusted o.binding κ (u.setting o.st) (x (u.placeIn o.st r) s).2

variable {κ : Contexts}

lemma Trusted.of_forgotten {binding : Bindings} {st : Setting} {s : WalkState}
    (hidle : s.memory.active = []) (hcalls : s.calls = []) : Trusted binding κ st s where
  idle := hidle
  settled p outcome hp := by simp [hcalls] at hp

namespace Visits

variable {o : Scene} {u : View} {α β : Type} {x : Walk α} {body : Walk Unit}
  {vars : List TypeVariable}

lemma bind {f : α → Walk β} (hx : Visits o κ u x)
    (hf : ∀ r s, Visits o κ u (f (x (u.placeIn o.st r) s).1)) : Visits o κ u (x >>= f) := by
  intro r s s' hs htrust
  obtain ⟨hanswer, hs₁, htrust₁⟩ := hx r s s' hs htrust
  rw [walk_bind_apply, walk_bind_apply, ← hanswer]
  exact hf r s r _ _ hs₁ htrust₁

lemma evaluation (h : Evaluation o.binding κ u.context x) : Visits o κ u x := by
  intro r s s' hs htrust
  have hplace : (u.placeIn o.st r).context = u.context := rfl
  obtain ⟨hrun, htrust'⟩ := h.run hplace htrust
  have hrun' := h.isQuery (u.place o.st) s' rfl
  have hquery : ((x (u.placeIn o.st r) s).1, (x (u.placeIn o.st r) s).2.memory) =
      ((x (u.place o.st) s').1, (x (u.place o.st) s').2.memory) := by
    rw [hrun.query, hrun'.query, hs.memory, hs.scopes]
    rfl
  obtain ⟨hanswer, hmemory⟩ := Prod.mk.inj hquery
  refine ⟨hanswer, ⟨hmemory, ?_, ?_⟩, htrust'⟩
  · rw [hrun.scopes, hrun'.scopes, hs.scopes]
  · rw [hrun.found, hrun'.found, hs.found]

lemma addRecord (r : Record) : Visits o κ u (Walk.addRecord r) := by
  unfold Walk.addRecord
  split
  · exact .evaluation (.pure ())
  · intro _ s s' hs htrust
    refine ⟨rfl, ⟨hs.memory, hs.scopes, ?_⟩, ⟨htrust.idle, htrust.settled⟩⟩
    change s.found ++ [(_, s.scopes)] = s'.found ++ [(_, s'.scopes)]
    rw [hs.found, hs.scopes]
    rfl

lemma emitWith (construct : Construct) (name : TypeName) (span : Span)
    (values : Option ElementValues) : Visits o κ u (Walk.emitWith construct name span values) :=
  .bind (.evaluation .setting) fun _ _ => .addRecord _

lemma emitAt (construct : Construct) (name : TypeName) (t : Tree) :
    Visits o κ u (Walk.emitAt construct name t) :=
  .bind (.evaluation (.spanOf t)) fun _ _ => .emitWith construct name _ none

lemma emitCalls (construct : Construct) (names : List TypeName) (t : Tree) :
    Visits o κ u (Walk.emitCalls construct names t) := by
  induction names with
  | nil => exact .evaluation (.pure ())
  | cons name names ih => exact .bind (.emitAt construct name t) fun _ _ => ih

lemma visitImport (t : Tree) : Visits o κ u (Walk.visitImport t) := by
  refine .bind (.evaluation .setting) fun r s => ?_
  split
  case h_1 i tree _ _ =>
    exact .bind (.evaluation (.of (.importName i))) fun _ _ => .emitAt .importDeclaration _ tree
  case h_2 => exact .evaluation (.pure ())

lemma declare (change : Scope → Scope) : Visits o κ u (Walk.declare change) := by
  intro _ s s' hs htrust
  exact ⟨rfl, ⟨hs.memory, congrArg (changeInnermost change) hs.scopes, hs.found⟩,
    .of_forgotten htrust.idle rfl⟩

/-- An empty scope does not change what names mean, so calls can be trusted in it. At its end they
are forgotten. -/
lemma inScope (h : Visits o κ u body) : Visits o κ u (Walk.inScope body) := by
  intro r s s' hs htrust
  have hs₁ : Alike { s with scopes := {} :: s.scopes } { s' with scopes := {} :: s'.scopes } :=
    ⟨hs.memory, congrArg ({} :: ·) hs.scopes, hs.found⟩
  have htrust₁ : Trusted o.binding κ (u.setting o.st) { s with scopes := {} :: s.scopes } := by
    refine ⟨htrust.idle, fun p outcome hp scopes m hnames => ?_⟩
    exact htrust.settled p outcome hp scopes m ⟨hnames.types, hnames.vars⟩
  obtain ⟨_, hs₂, htrust₂⟩ := h r _ _ hs₁ htrust₁
  exact ⟨rfl, ⟨hs₂.memory, congrArg (List.drop 1) hs₂.scopes, hs₂.found⟩,
    .of_forgotten htrust₂.idle rfl⟩

/-- Calls are forgotten where the body of a type begins and where it ends, so they can have any
contexts inside. -/
lemma insideType {κ' : Contexts} {name : String} (h : Visits o κ' (u.inType name vars) body) :
    Visits o κ u (Walk.insideType name vars body) := by
  intro r s s' hs htrust
  obtain ⟨_, hs₁, htrust₁⟩ := h r { s with calls := [] } { s' with calls := [] }
    ⟨hs.memory, hs.scopes, hs.found⟩ (.of_forgotten htrust.idle rfl)
  exact ⟨rfl, ⟨hs₁.memory, hs₁.scopes, hs₁.found⟩, .of_forgotten htrust₁.idle rfl⟩

lemma withVariables {body : Walk α} (h : Visits o κ (u.declaring vars) body) :
    Visits o κ u (Walk.withVariables vars body) := by
  intro r s s' hs htrust
  obtain ⟨hanswer, hs₁, htrust₁⟩ := h r s s' hs ⟨htrust.idle, htrust.settled⟩
  exact ⟨hanswer, hs₁, ⟨htrust₁.idle, htrust₁.settled⟩⟩

end Visits

/-- Whatever a walk does, it does as where calls are never remembered. -/
lemma Acts.visits {o : Scene} {u : View} {a : Trace} {α : Type} {x : Walk α} (h : Acts o κ u a x) :
    Visits o κ u x := by
  induction h with
  | evaluation h => exact .evaluation h
  | bindWith _ hP _ ihx ihf => exact .bind ihx fun r s => ihf _ (hP r s)
  | congr _ heq ih =>
    intro r s s' hs htrust
    have hnever : _ = _ := heq .never s'
    rw [heq r s, View.place, hnever]
    exact ih r s s' hs htrust
  | @moved κ u v _ _ x _ hplace ih =>
    intro r s s' hs
    have hsetting : u.setting o.st = v.setting o.st := congrArg Place.toSetting hplace
    rw [← View.placeIn_congr hplace r, ← hplace, ← hsetting]
    exact ih r s s' hs
  | bindVariable name type => exact .declare _
  | bindLocalType h =>
    exact .bind (.bind (fun _ _ _ hs htrust => ⟨rfl, hs, htrust⟩) fun _ _ => .evaluation (.pure _))
      fun r s => by
        split
        · exact .declare _
        · exact .evaluation (.pure ())
  | emit _ name _ => exact .emitWith _ name _ none
  | report hx =>
    exact .bind (.evaluation hx) fun _ _ => .bind (.emitCalls _ _ _) fun _ _ =>
      .evaluation (.pure _)
  | visitImport => exact .visitImport _
  | use _ _ hvalues =>
    exact .bind (.evaluation .setting) fun _ _ => .bind (.evaluation (.of (.typeName _))) fun _ _ =>
      .bind (.evaluation hvalues) fun _ _ => .bind (.evaluation (.spanOf _)) fun _ _ =>
        .emitWith _ _ _ _
  | inScope _ ih => exact .inScope ih
  | insideType κ' _ ih => exact .insideType ih
  | withVariables _ ih => exact .withVariables ih
  | inside _ ih => exact ih
  | weaken _ _ ih => exact ih

/-- Whatever is made of remembered calls, a walk over a unit leaves the same state behind. -/
lemma collect_alike {source : List Char} {unit : Tree} (hparse : parse? source = some unit)
    (place : Place) (r : Recall) : Alike (collect { place with remembering := r } unit)
      (collect { place with remembering := .never } unit) := by
  obtain ⟨κ, hacts⟩ := exists_acts place.toSetting place.view (fun _ => True) hparse
    fun _ _ => trivial
  exact (hacts.visits r {} {} ⟨rfl, rfl, rfl⟩ (.of_forgotten rfl rfl)).2.1

/-- The references of a unit are the same whether calls are bound anew each time, taken from memory,
or taken from memory and compared with a new binding. In the last case a remembered binding that is
not the new one would show among the references. -/
theorem records_of_remembering {source : List Char} {unit : Tree} (h : parse? source = some unit)
    (place : Place) (r : Recall) :
    (collect { place with remembering := r } unit).records =
      (collect { place with remembering := .never } unit).records :=
  (collect_alike h place r).records

/-- Here the first call is bound for the type of the variable, as a receiver, and to be reported. -/
theorem records_of_chained_calls :
    ∃ unit, parse? "class A { A m() { var x = m().m(); return x; } }".toList = some unit ∧
      ∀ place : Place, (collect { place with remembering := .trusting } unit).records =
        (collect { place with remembering := .never } unit).records := by
  have hread : (parse? "class A { A m() { var x = m().m(); return x; } }".toList).isSome := by
    decide +kernel
  obtain ⟨unit, hunit⟩ := Option.isSome_iff_exists.mp hread
  exact ⟨unit, hunit, fun place => records_of_remembering hunit place .trusting⟩

end Xref.Reference
