import Xref.Proofs.Reference.Numbering
import Xref.Proofs.Reference.Records
import Xref.Proofs.Text.Lines

/-!
# The shape of records

Every record has a name that is not empty and stands on a line of the source. Signatures end in a
list of parameters and imports on demand in `.*`, also after local classes were written by their
simple names, unless the binary name of a local class has a bracket.
-/
open List Option

namespace Xref.Reference

open Declaration Java Resolve Syntax Text

structure IsLocalName (x : String × String) : Prop where
  binary : ∃ owner number, x.1 = owner ++ "$" ++ toString (number : Nat) ++ x.2
  simple : isIdentifier x.2

section

variable {source : List Char} {unit : Tree} {d : Declarations} {entries : List Entry}

lemma isLocalName_of_mem (hparse : parse? source = some unit) (h : Enrolls d source unit entries)
    {x : String × String} (hx : x ∈ d.localNames) : IsLocalName x := by
  obtain ⟨e, he, owner, number, hnaming, hname⟩ := exists_of_mem_localNames h hx
  have hsuits := (h.faithful e he).suits
  rw [hnaming] at hsuits
  obtain ⟨hspot, _, hsimple⟩ := hsuits
  simp only [Spot.isLocal, Bool.and_eq_true] at hspot
  obtain ⟨c, hc, hsimple⟩ := map_eq_some_iff.mp hsimple
  have hshaped := shaped_of_mem_spots (shaped_of_parse hparse) (spot_of_mem h he).1
  refine ⟨⟨owner, number, ?_⟩, hsimple ▸ isIdentifier_text
    (hshaped.parts c (Tree.mem_of_child? hc)) (kind_of_name hshaped hspot.1 hc) source⟩
  rw [← hname, Entry.name, hnaming]
  rfl

end

variable {c : Char}

lemma isPart_of_mem {name : String} (h : isIdentifier name) (hc : c ∈ name.toList) :
    isIdentifierStart c ∨ isIdentifierPart c := by
  obtain ⟨first, rest, hname, hstart, hpart⟩ := isIdentifier_iff.mp h
  rw [hname] at hc
  rcases mem_cons.mp hc with rfl | hc
  · exact .inl hstart
  · exact .inr (hpart c hc)

namespace IsLocalName

variable {x : String × String}

lemma simple_ne_empty (h : IsLocalName x) : x.2 ≠ "" := ne_empty_of_identifier h.simple

lemma last (h : IsLocalName x) : ∃ z, x.1.toList.getLast? = some z ∧
    (isIdentifierStart z ∨ isIdentifierPart z) := by
  obtain ⟨owner, number, hbinary⟩ := h.binary
  obtain ⟨front, z, hz⟩ := eq_nil_or_concat' x.2.toList |>.resolve_left
    (mt String.toList_eq_nil_iff.mp h.simple_ne_empty)
  refine ⟨z, ?_, isPart_of_mem h.simple (by rw [hz]; simp)⟩
  rw [hbinary, String.toList_append, hz, ← append_assoc, getLast?_concat]

lemma binary_ne_empty (h : IsLocalName x) : x.1 ≠ "" := by
  obtain ⟨z, hz, _⟩ := h.last
  intro hempty
  simp [hempty] at hz

end IsLocalName

variable {source : List Char} {r : Range}

/-- The span of a range that begins with the character `c`, which stands on the line `line`. -/
structure Shows (source : List Char) (span : Span) (r : Range) (c : Char) (line : List Char) :
    Prop where
  covers : span = (LineMap.ofChars source).span r.start r.stop
  first : ∃ before after, source = before ++ c :: after ∧ byteLength before = r.start
  positive : 1 ≤ span.line
  stands : (linesOf source)[span.line - 1]? = some line
  snippet : (LineMap.ofChars source).snippet span.line = String.ofList (trimEndChars line)
  column : (trimEndChars line)[span.column]? = some c

lemma exists_shows (h : Inked source r) :
    ∃ c line, Shows source ((LineMap.ofChars source).span r.start r.stop) r c line := by
  obtain ⟨before, c, after, rfl, hbefore, _, hink⟩ := h
  have hnewline : '\n' ∉ [c] := by
    simp only [mem_singleton]
    rintro rfl
    exact absurd hink (by decide)
  obtain ⟨front, head, tail, rest, rfl, rfl, hline⟩ := exists_isLine before hnewline after
  have hsource : front ++ head ++ c :: (tail ++ rest) = front ++ (head ++ [c] ++ tail) ++ rest := by
    simp
  refine ⟨c, head ++ [c] ++ tail, rfl, ⟨_, _, rfl, hbefore⟩, ?_, ?_, ?_, ?_⟩ <;>
    rw [hsource, ← hbefore, span_of_isLine hline]
  · exact Nat.succ_pos _
  · exact hline.linesOf_getElem?
  · exact hline.snippet
  · rw [append_assoc, singleton_append]
    exact getElem?_trimEndChars hink

lemma Shows.line_le {span : Span} {line : List Char} (h : Shows source span r c line) :
    span.line ≤ lineCount source := by
  have hpositive := h.positive
  have hlt := lt_lineCount h.stands (by
    rintro rfl
    have hcolumn := h.column
    simp [trimEndChars] at hcolumn)
  omega

def Location.isSignature : Location → Bool
  | .method | .methodCall | .constructorCall => true
  | _ => false

structure WellFormed (st : Setting) (r : Record) : Prop where
  named : r.name ≠ ""
  line : 1 ≤ r.span.line ∧ r.span.line ≤ lineCount st.source
  length : 1 ≤ r.span.length
  closed : r.location.isSignature → [')'] <:+ r.name.toList
  /-- The binary names of local classes must not have brackets. -/
  opened : r.location.isSignature → (∀ x ∈ st.declarations.localNames, '(' ∉ x.1.toList) →
    '(' ∈ r.name.toList
  /-- An import that is reported ends in `.*` if it is one on demand. -/
  imports : r.location = .importDeclaration → ∃ t key, Stands st.source t ∧
    t.kind = .importDeclaration ∧
    t.children.find? (fun c => [.identifier, .scopedIdentifier].contains c.kind) = some key ∧
    r.span = st.lines.span key.start key.stop ∧
    ((t.children.any fun c => c.kind == .asterisk) → ['.', '*'] <:+ r.name.toList)
  values : r.values.isSome = (r.location == .annotationUse)

lemma exists_signature {unit : Tree} (hparse : parse? source = some unit)
    (index : TypeIndex) (d : Declarations) {r : Record}
    (hr : r ∈ (collect (Place.ofUnit index source d) unit).records)
    (hlocation : r.location.isSignature) : ∃ name, IsSignature name ∧ r.name = d.display name := by
  obtain ⟨events, hreports, hholds, _, _, hactive⟩ := exists_events hparse index d
  have hmem : r ∈ events.flatMap (Event.records (.ofUnit index source d)) := by
    rw [← reported_of_reports hreports]
    refine mem_filter.mpr ⟨hr, ?_⟩
    revert hlocation
    cases r.location <;> decide
  obtain ⟨e, he, hr⟩ := mem_flatMap.mp hmem
  obtain ⟨name, hname, rfl⟩ := List.mem_map.mp hr
  have hsignature : e.report.isSignature := by
    have hlocation : e.report.construct.location.isSignature := hlocation
    cases hreport : e.report with
    | type name =>
      simp [hreport, Report.construct, Construct.location, Location.isSignature] at hlocation
    | supertype kind isExtends written =>
      rw [hreport, Report.construct, Construct.ofSupertype] at hlocation
      split at hlocation <;> cases hlocation
    | _ => rfl
  exact ⟨name.name, ((hholds e he).signatures hactive hsignature).signatures name
    (mem_of_mem_filter hname), rfl⟩

theorem wellFormed_of_parse {source : List Char} {unit : Tree} (hparse : parse? source = some unit)
    (base : TypeIndex) (label : String) :
    let d := declarationsOf label source unit
    ∀ r ∈ (analyzeUnit base label source unit).records,
      WellFormed (.ofUnit (base.overlay d.types) source d) r := by
  intro d r hr
  obtain ⟨entries, henrolls⟩ := exists_entries_of_target hparse label
  have hlocal : ∀ x ∈ d.localNames, IsLocalName x := fun x => isLocalName_of_mem hparse henrolls
  obtain ⟨added, hadded, hmade, _⟩ := wrote_of_parse hparse (base.overlay d.types) d
  have hr : r ∈ (collect (Place.ofUnit (base.overlay d.types) source d) unit).records := hr
  obtain ⟨⟨name, hname, hdisplay⟩, ⟨range, hinked, hspan⟩, _, hvalues, himports⟩ :=
    hmade r (by rw [hadded] at hr; exact hr)
  obtain ⟨c, line, hshows⟩ := exists_shows hinked
  have hends {tail : List Char}
    (htail : tail.all fun z => !(isIdentifierStart z || isIdentifierPart z)) :
      ∀ x ∈ d.localNames, ∃ z, x.1.toList.getLast? = some z ∧ z ∉ tail := by
    intro x hx
    obtain ⟨z, hz, hpart⟩ := (hlocal x hx).last
    refine ⟨z, hz, fun hmem => ?_⟩
    have hnot := List.all_eq_true.mp htail z hmem
    rcases hpart with h | h <;> simp [h] at hnot
  refine ⟨?_, ?_, ?_, ?_, ?_, ?_, hvalues⟩
  · rw [hdisplay]
    exact LocalNames.display_ne_empty (fun x hx => (hlocal x hx).simple_ne_empty) hname
  · rw [hspan]
    exact ⟨hshows.positive, hshows.line_le⟩
  · rw [hspan]
    exact Nat.le_max_left 1 _
  · intro hlocation
    obtain ⟨_, ⟨front, params, rfl⟩, hname⟩ := exists_signature hparse _ d hr hlocation
    rw [hname]
    exact LocalNames.suffix_display (hends (by decide)) ⟨(front ++ "(" ++ params).toList, by simp⟩
  · intro hlocation hbrackets
    obtain ⟨_, ⟨front, params, rfl⟩, hname⟩ := exists_signature hparse _ d hr hlocation
    rw [hname]
    exact LocalNames.mem_display
      (fun x hx => ⟨(hlocal x hx).binary_ne_empty, hbrackets x hx⟩) (by simp)
  · intro hlocation
    obtain ⟨t, key, himport⟩ := himports hlocation
    refine ⟨t, key, himport.stands, himport.kind, himport.named, himport.span, fun hdemand => ?_⟩
    obtain ⟨owner, howner⟩ := himport.onDemand hdemand
    rw [howner]
    exact LocalNames.suffix_display (hends (by decide)) (by simp)

/-- The unit imports on demand and calls a method with a local class in its signature. -/
theorem wellFormed_of_local_class :
    let source := "import p.*;\nclass A { void m() { class L { void k(L l) { k(l); } } } }".toList
    ∃ unit, parse? source = some unit ∧
      let d := declarationsOf "A.java" source unit
      (∀ x ∈ d.localNames, '(' ∉ x.1.toList) ∧
        ∀ r ∈ (analyzeUnit (.ofTypes []) "A.java" source unit).records,
          WellFormed (.ofUnit (TypeIndex.overlay d.types (.ofTypes [])) source d) r := by
  intro source
  obtain ⟨unit, hunit, hbrackets⟩ : ∃ unit, parse? source = some unit ∧
      ∀ x ∈ (declarationsOf "A.java" source unit).localNames, '(' ∉ x.1.toList := by
    decide +kernel
  exact ⟨unit, hunit, hbrackets, wellFormed_of_parse hunit (.ofTypes []) "A.java"⟩

/-- The name of the package is read with the comment in it, so that the binary name of the local
class `L` has a bracket. The same name is put together for the call, and `L)` is what is left of it.
-/
theorem constructor_call_without_bracket :
    let source := ("package a.//.foo(\nb;\nimport a.//.\nfoo;\n" ++
      "class A { void m() { class L {} new foo((b.A$1L) null); } }").toList
    (parse? source).any fun unit =>
      (analyzeUnit (.ofTypes []) "A.java" source unit).records.any fun r =>
        r.location == .constructorCall && r.name == "L)" := by
  decide +kernel

end Xref.Reference
