import Xref.Proofs.Reference.Evaluation
import Xref.Proofs.Resolve.Candidates
import Xref.Reference.Analysis

/-!
# What a name means as a value

A name means a local variable before it means a field, so a variable of the code around a type comes
before the fields of that type too. Where there is no such variable, the innermost type comes first,
and the types that it inherits from come after it.
-/
namespace Xref.Resolve

open Java

variable (index : TypeIndex)

/-- The type of a field that `owner` declares, as it is found in a search that begins there. -/
def declaredFieldType (owner : String) (field : FieldInfo) : Query TypeName := do
  let _ ← index.lineage owner
  let _ ← Query.info index owner
  typeNameOf index index.lineage field.type

lemma findField_of_declared {owner name : String} {info : TypeInfo} {field : FieldInfo}
    (hinfo : index.info owner = some info) (hfield : info.field? name = some field) (m : Memory) :
    index.findField owner name m = (some (owner, (declaredFieldType index owner field m).1),
        (declaredFieldType index owner field m).2) := by
  obtain ⟨rest, horder⟩ := exists_lineage index owner m
  rw [TypeIndex.findField, findField, bind_apply, horder, Query.firstSome, bind_apply, bind_apply,
    info_apply]
  simp only [hinfo, Option.bind_some, hfield]
  rfl

end Xref.Resolve

namespace Xref.Reference

open Declaration Java Resolve Syntax Text

/-- The type of the local variable `name`: of the latest one in the innermost scope that has one. -/
def WalkState.variableType? (s : WalkState) (name : String) : Option (Option TypeName) :=
  s.scopes.findSome? fun scope => scope.vars.lookup name

lemma firstSome_of_head {α β : Type} {f : α → Walk (Option β)} {a : α} (as : List α)
    {place : Place} {s : WalkState} {b : β} (h : (f a place s).1 = some b) :
    Walk.firstSome f (a :: as) place s = (some b, (f a place s).2) := by
  rw [Walk.firstSome, walk_bind_apply, h]
  rfl

/-- A name means a local variable if there is one in any scope, whether that is inside the innermost
type or around it. It means a field of the innermost type if there is none. -/
theorem value_of_declared_field (place : Place) (s : WalkState) {name frame : String}
    {outer : List String} {info : TypeInfo} {field : FieldInfo}
    (hframes : place.frames = frame :: outer) (hinfo : place.index.info frame = some info)
    (hfield : info.field? name = some field) :
    (Walk.value? name place s).1 = match s.variableType? name with
      | some type => some type
      | none => some (some (declaredFieldType place.index frame field s.memory).1) := by
  have hlocal : Walk.localVariable? name place s = (s.variableType? name, s) := rfl
  have hfound : (Walk.findField frame name place s).1 =
      some (frame, (declaredFieldType place.index frame field s.memory).1) :=
    congrArg Prod.fst (findField_of_declared place.index hinfo hfield s.memory)
  rw [Walk.value?, walk_bind_apply, hlocal]
  cases s.variableType? name with
  | some type => rfl
  | none =>
    have hsetting : (Walk.setting place s).1.frames = frame :: outer := hframes
    have hfield : ((Walk.findField frame name >>= fun found =>
        pure (found.map fun f => some f.2) : Walk (Option (Option TypeName))) place s).1 =
          some (some (declaredFieldType place.index frame field s.memory).1) := by
      rw [walk_bind_apply, hfound]
      rfl
    simp only [walk_bind_apply, hsetting]
    rw [firstSome_of_head outer hfield]
    rfl

/-- Here a field is found where no variable has its name, and a variable of the code around the
class is found where there is one. -/
theorem value_with_and_without_variable :
    let source := "class Q {} class A { Q x; }".toList
    ∃ unit info field, parse? source = some unit ∧
      let d := declarationsOf "A.java" source unit
      let index := (TypeIndex.ofTypes []).overlay d.types
      let place : Place := { Place.ofUnit index source d with frames := ["A"] }
      index.info "A" = some info ∧ info.field? "x" = some field ∧
        (Walk.value? "x" place {}).1 =
          some (some (declaredFieldType index "A" field {}).1) ∧
        ∀ type, (Walk.value? "x" place { scopes := [{}, { vars := [("x", type)] }] }).1 =
          some type := by
  intro source
  have hread : ((parse? source).bind fun unit =>
      (((TypeIndex.ofTypes []).overlay (declarationsOf "A.java" source unit).types).info "A").bind
        fun info => info.field? "x").isSome := by
    decide +kernel
  obtain ⟨field, hread⟩ := Option.isSome_iff_exists.mp hread
  obtain ⟨unit, hunit, hread⟩ := Option.bind_eq_some_iff.mp hread
  obtain ⟨info, hinfo, hfield⟩ := Option.bind_eq_some_iff.mp hread
  refine ⟨unit, info, field, hunit, hinfo, hfield, ?_, fun type => ?_⟩
  · exact value_of_declared_field _ _ rfl hinfo hfield
  · exact value_of_declared_field _ _ rfl hinfo hfield

/-- The variable of the method is in scope in the anonymous class too, so that the last name means
that and not the field of the class. -/
theorem variable_of_enclosing_code :
    let source := "class P {} class Q {} class A { void m() { P x = null;
      new Object() { Q x; void k() { var y = x; } }; } }".toList
    (parse? source).map (fun unit =>
      let records := (analyzeUnit (.ofTypes []) "A.java" source unit).records
      (records.filter (·.location == .variableDeclaration)).map Record.name) =
        some ["P", "Q", "P"] := by
  decide +kernel

end Xref.Reference
