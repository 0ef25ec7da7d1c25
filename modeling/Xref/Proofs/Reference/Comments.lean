import Xref.Proofs.Reference.InStepVisit
import Xref.Proofs.Syntax.Insertion

/-!
# Comments make no difference to references

Comments that are put into a unit stand clear if they are in no text that is read as a whole and in
front of no operand that is asked for as the first part of a tree. Then the references of the unit
are the same but for where they stand.
-/
namespace Xref.Reference

open Declaration Java Resolve Syntax Text

/-- What a record says, without where it stands. -/
def Record.content (r : Record) : String × Status × Location × Option ElementValues :=
  (r.name, r.status, r.location, r.values)

variable {π : Passage}

lemma Record.Twin.content {r r' : Record} (h : r.Twin π r') : r'.content = r.content := by
  rw [Record.content, Record.content, h.name, h.status, h.location, h.values]

lemma content_of_twin {unit unit' : Tree} (hsource : parse? π.source = some unit)
    (hsource' : parse? π.source' = some unit') (hmoves : ¬ π.isFixed)
    (htwin : Tree.Twin π .outside unit unit') (base : TypeIndex) (label : String) :
    (analyzeUnit base label π.source' unit').records.map Record.content =
      (analyzeUnit base label π.source unit).records.map Record.content := by
  have hdeclared : declarationsOf label π.source' unit' = { declarationsOf label π.source unit with
      names := (declarationsOf label π.source unit).names.map fun x => (π.start x.1, x.2) } :=
    ofUnit_twin ⟨rfl, rfl, rfl, rfl⟩ htwin
  have hplace : (Place.ofUnit (base.overlay (declarationsOf label π.source unit).types) π.source
      (declarationsOf label π.source unit)).toSetting.Twin π
      (Place.ofUnit (base.overlay (declarationsOf label π.source' unit').types) π.source'
        (declarationsOf label π.source' unit')).toSetting := by
    rw [hdeclared]
    exact ⟨.refl _, rfl, rfl, fun h => absurd h hmoves, fun _ => rfl, lookup_moved π _, rfl, rfl⟩
  have hrecords := collect_twin htwin hsource hsource' hplace .nil
  exact Tree.map_eq_of_rel hrecords fun r r' hr => hr.content

lemma label_of_parse {source : List Char} {unit : Tree} (h : parse? source = some unit) :
    unit.label = (none, .program) ∧ unit.leafText? = none := by
  unfold parse? at h
  dsimp only at h
  split at h
  · obtain rfl := Option.some.inj h
    exact ⟨rfl, rfl⟩
  · cases h

/-- Comments that are put between two tokens do not change what the references of a unit are, if
they stand clear of all that is read as a whole. All that is asked of the reader of units is that
the comments only add comments to the tree. -/
theorem content_of_comments {before comments after : List Char} {unit unit' : Tree}
    (h : parse? (before ++ after) = some unit)
    (h' : parse? (before ++ (comments ++ after)) = some unit')
    (hadds : (unit'.without (Tree.isInserted before comments)).children =
      (unit.moved (.insertion before comments after)).children)
    (hclear : unit'.isClear (byteLength before) (byteLength before + byteLength comments) .outside)
    (base : TypeIndex) (label : String) :
    (analyzeUnit base label (before ++ (comments ++ after)) unit').records.map Record.content =
      (analyzeUnit base label (before ++ after) unit).records.map Record.content := by
  obtain ⟨hlabel, hleaf⟩ := label_of_parse h
  obtain ⟨hlabel', hleaf'⟩ := label_of_parse h'
  have htwin := Tree.twin_of_insertion (hlabel'.trans hlabel.symm) (hleaf'.trans hleaf.symm)
    (congrArg Prod.snd hlabel) hadds (placed_of_parse h).1 (placed_of_parse h').1 hclear
  exact content_of_twin (π := .insertion before comments after) h h' id htwin base label

/-- Here a comment stands between a receiver and the name of the method that is called. -/
theorem content_of_comment_in_call :
    let source := "class A { A f() { return this; } void g(A a) { a.f().f(); } }".toList
    let before := source.take 49
    let comments := "/* first */".toList
    let after := source.drop 49
    ∃ unit unit', parse? (before ++ after) = some unit ∧
      parse? (before ++ (comments ++ after)) = some unit' ∧
      (unit'.without (Tree.isInserted before comments)).children =
        (unit.moved (.insertion before comments after)).children ∧
      unit'.isClear (byteLength before) (byteLength before + byteLength comments) .outside ∧
      ∀ base label,
        (analyzeUnit base label (before ++ (comments ++ after)) unit').records.map Record.content =
          (analyzeUnit base label (before ++ after) unit).records.map Record.content := by
  intro source before comments after
  obtain ⟨unit, hunit, unit', hunit', hadds, hclear⟩ : ∃ unit,
    parse? (before ++ after) = some unit ∧
      ∃ unit', parse? (before ++ (comments ++ after)) = some unit' ∧
        (unit'.without (Tree.isInserted before comments)).children =
          (unit.moved (.insertion before comments after)).children ∧
        unit'.isClear (byteLength before) (byteLength before + byteLength comments) .outside := by
    decide +kernel
  exact ⟨unit, unit', hunit, hunit', hadds, hclear, content_of_comments hunit hunit' hadds hclear⟩

/-- Here the comment only adds a comment to the tree too, but it comes in front of the operand in
parentheses, whose type is then not known. -/
theorem content_of_comment_in_parentheses :
    let source := "class A { void f() {} void g(A a) { (a).f(); } }".toList
    let before := source.take 37
    let comments := "/**/".toList
    let after := source.drop 37
    (parse? (before ++ after)).any (fun unit =>
      (parse? (before ++ (comments ++ after))).any fun unit' =>
        let records := (analyzeUnit (.ofTypes []) "A.java" (before ++ after) unit).records
        let records' :=
          (analyzeUnit (.ofTypes []) "A.java" (before ++ (comments ++ after)) unit').records
        (unit'.without (Tree.isInserted before comments)).children ==
            (unit.moved (.insertion before comments after)).children &&
          records.getLast?.map Record.content ==
            some ("A.f()", .resolved, .methodCall, none) &&
          records'.getLast?.map Record.content ==
            some ("f()", .unresolved, .methodCall, none)) := by
  decide +kernel

end Xref.Reference
