import Xref.Proofs.Reference.Binding
import Xref.Proofs.Reference.Coverage

/-!
# The calls of a unit

All records of calls come from calls that stand in the unit. What is reported as resolved is a
method that is declared by a type in the lineage of a receiver, or a constructor of the type that an
object is made of.
-/
open List

namespace Xref.Reference

open Declaration Java Resolve Syntax Text

def Record.isCall (r : Record) : Bool := r.location == .methodCall || r.location == .constructorCall

def Report.isCall : Report → Bool
  | call _ _ | creation _ _ | explicitCall _ _ => true
  | _ => false

/-- What is reported of a call at a spot. -/
def Event.IsCall (st : Setting) (m : Memory) (e : Event) : Prop :=
  let here := e.spot.view.setting st
  match e.report with
  | .call cs name =>
    MethodNames here e.scopes m cs (name.text st.source) (argumentCount e.spot.tree) e.names
  | .creation cs _ =>
    ConstructorNames here.index m (Created here e.scopes m e.spot.tree cs)
      (e.spot.tree.childOf? .classBody) (argumentCount e.spot.tree) e.names
  | .explicitCall _ _ =>
    here.frames = [] ∧ e.names = [] ∨
      ConstructorNames here.index m (Constructed here m e.spot.tree) none
        (argumentCount e.spot.tree) e.names
  | _ => False

section

variable {st : Setting} {m : Memory} {e : Event} {r : Record}

lemma Event.Holds.finds (h : e.Holds st m) (hm : m.active = []) :
    Walk.Finds (e.setting st) e.scopes m (e.report.names e.spot.tree) e.names :=
  h.settled e.scopes m (.refl e.scopes) hm (Memory.Grows.refl m).toWithin

lemma Event.isCall_of_holds {report : Report} {spot : Spot} {scopes : List Scope}
    {names : List TypeName} (h : Event.Holds st m ⟨report, spot, scopes, names⟩)
    (hm : m.active = []) (hcall : report.isCall) :
    Event.IsCall st m ⟨report, spot, scopes, names⟩ := by
  have hfinds (hvars : report.vars st.source spot.tree = []) :
      Walk.Finds (spot.view.setting st) scopes m (report.names spot.tree) names := by
    have hfinds := h.finds hm
    rwa [Event.setting, hvars, View.declaring_nil] at hfinds
  cases report with
  | call cs name =>
    obtain ⟨hkind, hname, hsense⟩ := h.describes
    have hsense : SenseOf (spot.view.setting st).source spot.tree cs := hsense
    exact (Walk.Tells.bind hm
      (tells_bindInvocation hm hkind hname hsense) fun _ => .pure id).sound _ (hfinds rfl)
  | creation cs written =>
    obtain ⟨hkind, hwritten, hsense⟩ := h.describes
    have hsense : SenseOf (spot.view.setting st).source spot.tree cs := hsense
    exact (tells_creationCalls hm hkind hwritten hsense).sound _ (hfinds rfl)
  | explicitCall cs keyword =>
    obtain ⟨hkind, _, hsense⟩ := h.describes
    have hsense : SenseOf (spot.view.setting st).source spot.tree cs := hsense
    exact (tells_explicitCalls hm hkind hsense).sound _ (hfinds rfl)
  | type _ | supertype _ _ _ | method _ | constructor _ _ => cases hcall

lemma isCall_of_mem_records (hr : r ∈ e.records st) : r.isCall = e.report.isCall := by
  obtain ⟨name, _, rfl⟩ := mem_map.mp hr
  change (e.report.construct.location == .methodCall ||
    e.report.construct.location == .constructorCall) = _
  cases e.report with
  | supertype kind isExtends written =>
    simp only [Report.construct, Construct.ofSupertype]
    split <;> rfl
  | _ => rfl

lemma isReported_of_isCall (h : r.isCall) : r.location.isReported := by
  unfold Record.isCall at h
  revert h
  cases r.location <;> decide

lemma filter_reports (s : WalkState) :
    s.reports.filter (fun f => f.1.isCall) = s.found.filter fun f => f.1.isCall := by
  rw [WalkState.reports, filter_filter]
  refine filter_congr fun f _ => ?_
  cases h : f.1.isCall with
  | false => rfl
  | true => simp [isReported_of_isCall h]

end

/-- The records of calls are those of calls in the unit, one group for each. The names in a group
are what can be meant where the walk has come to, with what is declared there in blocks. -/
def CallsDeclared (base : TypeIndex) (label : String) (source : List Char) (unit : Tree) : Prop :=
  let d := declarationsOf label source unit
  let index := base.overlay d.types
  let final := collect (Place.ofUnit index source d) unit
  ∃ calls : List Event,
    final.found.filter (fun f => f.1.isCall) =
      calls.flatMap (Event.finds (.ofUnit index source d)) ∧
    ∀ e ∈ calls, e.spot ∈ spots d source unit (.ofUnit d) ∧
      e.report.Describes d source e.spot ∧ e.IsCall (.ofUnit index source d) final.memory

theorem callsDeclared_of_parse {source : List Char} {unit : Tree}
    (hparse : parse? source = some unit) (base : TypeIndex) (label : String) :
    CallsDeclared base label source unit := by
  obtain ⟨events, hreports, hholds, hspots, _, hidle⟩ := exists_events hparse
    (base.overlay (declarationsOf label source unit).types) (declarationsOf label source unit)
  refine ⟨events.filter fun e => e.report.isCall, ?_, fun e he => ?_⟩
  · rw [← filter_reports, hreports]
    refine filter_flatMap_of fun e _ f hf => ?_
    obtain ⟨r, hr, rfl⟩ := mem_map.mp hf
    exact isCall_of_mem_records hr
  · obtain ⟨he, hcall⟩ := List.mem_filter.mp he
    exact ⟨hspots e he, (hholds e he).describes, Event.isCall_of_holds (hholds e he) hidle hcall⟩

lemma exists_of_flatMap_eq_singleton {α β : Type} {f : α → List β} {l : List α} {b : β}
    (h : l.flatMap f = [b]) : ∃ a ∈ l, f a = [b] := by
  obtain ⟨a, ha, hb⟩ := mem_flatMap.mp (h ▸ mem_singleton_self b)
  have hall := sublist_flatten_of_mem (mem_map_of_mem (f := f) ha)
  rw [← flatMap_def, h] at hall
  exact ⟨a, ha, hall.eq_of_length_le (length_pos_of_mem hb)⟩

/-- Here the call of `f` is made on a variable, whose type is known from the scopes alone. -/
theorem callsDeclared_of_variable :
    let source := "class A { void f() {} } class B { void g(A x) { x.f(); } }".toList
    ∃ unit, parse? source = some unit ∧
      let d := declarationsOf "A.java" source unit
      let st := Setting.ofUnit (TypeIndex.overlay d.types (.ofTypes [])) source d
      let final := collect (Place.ofUnit st.index source d) unit
      ∃ e : Event, e.spot ∈ spots d source unit (.ofUnit d) ∧ e.IsCall st final.memory ∧
        e.finds st = final.found.filter (fun f => f.1.isCall) ∧
        (e.finds st).map (fun f => (f.1.name, f.2)) =
          [("A.f()", [{}, { vars := [("x", some (.resolved "A"))] }])] := by
  intro source
  obtain ⟨unit, hunit, hcheck⟩ : ∃ unit, parse? source = some unit ∧
      let d := declarationsOf "A.java" source unit
      let st := Setting.ofUnit (TypeIndex.overlay d.types (.ofTypes [])) source d
      let final := collect (Place.ofUnit st.index source d) unit
      (final.found.filter fun f => f.1.isCall).map (fun f => (f.1.name, f.2)) =
        [("A.f()", [{}, { vars := [("x", some (.resolved "A"))] }])] := by decide +kernel
  obtain ⟨calls, hfound, hcalls⟩ := callsDeclared_of_parse hunit (.ofTypes []) "A.java"
  obtain ⟨f, hf⟩ := length_eq_one_iff.mp (by simpa using congrArg length hcheck)
  obtain ⟨e, he, hfinds⟩ := exists_of_flatMap_eq_singleton (hfound.symm.trans hf)
  exact ⟨unit, hunit, e, (hcalls e he).1, (hcalls e he).2.2, hfinds.trans hf.symm,
    (congrArg (map _) (hfinds.trans hf.symm)).trans hcheck⟩

end Xref.Reference
