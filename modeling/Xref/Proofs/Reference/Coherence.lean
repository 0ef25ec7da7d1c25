import Xref.Proofs.Reference.Output

/-!
# Places, snippets and names agree

The snippet of a record is the line that the record stands on, and the first character of what the
record is about stands at its column. The record of a method call has the name of the method in
front of its parameters, as it is written at the place of the record.
-/
open List

namespace Xref.Reference

open Declaration Java Resolve Syntax Text

variable {text : String}

lemma newline_of_identifier (h : isIdentifier text) : '\n' ∉ text.toList := by
  intro hmem
  rcases isPart_of_mem h hmem with hpart | hpart <;> exact absurd hpart (by decide)

lemma span_of_identifier {source : List Char} {r : Range} (h : Spans source r text)
    (htext : isIdentifier text) : let span := (LineMap.ofChars source).span r.start r.stop
    ∃ line, (linesOf source)[span.line - 1]? = some line ∧
      (line.drop span.column).take span.length = text.toList ∧
      span.length = text.toList.length := by
  obtain ⟨⟨before, after, rfl, hbefore⟩, hsize⟩ := h
  obtain ⟨front, head, tail, rest, rfl, rfl, hline⟩ :=
    exists_isLine before (newline_of_identifier htext) after
  have hsource : front ++ head ++ text.toList ++ (tail ++ rest) =
      front ++ (head ++ text.toList ++ tail) ++ rest := by simp
  have hstop : charsWithin r.stop (front ++ (head ++ text.toList ++ tail) ++ rest) =
      (front ++ head).length + text.toList.length := by
    have hbytes : r.stop = byteLength (front ++ head ++ text.toList) := by
      rw [hsize, byteLength_append, hbefore, ← utf8ByteSize_ofList text.toList,
        String.ofList_toList]
    rw [hbytes, ← hsource, IsLine.charsWithin_front, length_append]
  have hpositive : 0 < text.toList.length := length_pos_iff.mpr
    (mt String.toList_eq_nil_iff.mp (ne_empty_of_identifier htext))
  intro span
  have hspan : span =
      { line := front.count '\n' + 1, column := head.length, length := text.toList.length } := by
    change (LineMap.ofChars _).span r.start r.stop = _
    rw [hsource, ← hbefore, span_of_isLine hline, hstop, Nat.add_sub_cancel_left,
      Nat.max_eq_right hpositive]
  rw [hspan, hsource]
  refine ⟨_, hline.linesOf_getElem?, ?_, rfl⟩
  rw [append_assoc, drop_left, take_left]

lemma isCallOf_literalCall (receiver : Option String) (name : String)
    (types : List (Option String)) :
    IsCallOf name.toList (literalCall receiver name types).toList := by
  let params := if types.all Option.isSome then joinWith "," (types.filterMap id) else ""
  cases receiver with
  | none =>
    refine ⟨[], params.toList ++ [')'], ?_, .inl rfl, suffix_append _ _⟩
    simp [literalCall, params]
  | some r =>
    refine ⟨r.toList ++ ['.'], params.toList ++ [')'], ?_, .inr (suffix_append _ _),
      suffix_append _ _⟩
    simp [literalCall, params]

lemma isCallOf_signature {c : Candidate} (h : c.isConstructor = false) :
    IsCallOf c.name.toList c.signature.toList := by
  refine ⟨c.declaringType.toList ++ ['.'], (joinWith "," c.params).toList ++ [')'], ?_,
    .inr (suffix_append _ _), suffix_append _ _⟩
  simp [Candidate.signature, h]

variable {names : List TypeName}

lemma CallNames.resolved_or_literal {callee : String} (h : CallNames callee names) {n : TypeName}
    (hn : n ∈ names) :
    n.isResolved ∨ ∃ receiver types, n.name = literalCall receiver callee types := by
  cases h with
  | one c =>
    rw [mem_singleton.mp hn]
    exact .inl rfl
  | two c i => rcases mem_pair.mp hn with rfl | rfl <;> exact .inl rfl
  | literal receiver types h =>
    rw [mem_singleton.mp hn]
    exact .inr ⟨receiver, types, h⟩

variable {st : Setting} {m : Memory}

lemma Event.Holds.isCallOf {spot : Spot} {scopes : List Scope} {cs : Sense} {name : Tree}
    (h : Event.Holds st m ⟨.call cs name, spot, scopes, names⟩) (hm : m.active = []) :
    ∀ n ∈ names, IsCallOf (name.text st.source).toList n.name.toList := by
  intro n hn
  let place : Place :=
    { Event.setting st ⟨.call cs name, spot, scopes, names⟩ with remembering := .never, path := [] }
  have hnames : (Walk.bindInvocation spot.tree cs place { memory := m, scopes := scopes }).1.calls =
      names := congrArg Prod.fst (h.finds hm)
  have hcalls : CallNames (name.text st.source) names :=
    hnames ▸ callNames_bindInvocation h.describes.2.1 cs place _
  rcases hcalls.resolved_or_literal hn with hresolved | ⟨_, _, hname⟩
  · have hbound {c : Candidate} {type : String}
        (hc : DeclaresMethod st.index m type (name.text st.source) c) :
        IsCallOf (name.text st.source).toList c.signature.toList :=
      hc.name ▸ isCallOf_signature hc.isConstructor
    have hcall : MethodNames (spot.view.setting st) scopes m cs (name.text st.source)
      (argumentCount spot.tree) names := Event.isCall_of_holds h hm rfl
    cases hcall with
    | unbound n' hn' =>
      obtain rfl := mem_singleton.mp hn
      simp [hn'] at hresolved
    | bound hc =>
      obtain rfl := mem_singleton.mp hn
      obtain ⟨_, _, _, _, _, _, hdeclares⟩ := hc.declared
      exact hbound hdeclares
    | implementing hc hi =>
      obtain ⟨_, _, _, _, _, _, hdeclares⟩ := hc.declared
      obtain ⟨_, _, _, _, hinterface⟩ := hi.declared
      rcases mem_cons.mp hn with rfl | hn
      · exact hbound hdeclares
      · obtain rfl := mem_singleton.mp hn
        exact hbound (hdeclares.name ▸ hinterface)
  · rw [hname]
    exact isCallOf_literalCall _ _ _

lemma kind_of_callee {t name : Tree} (hshaped : t.Shaped) (hkind : t.kind = .methodInvocation)
    (hname : t.child? .name = some name) : name.kind = .identifier := by
  obtain ⟨hrole, hadmits⟩ := Tree.admits_of_child hshaped hname
  rw [hkind] at hadmits
  have hname : (!name.kind.isOutside && (!name.label.inRole .name || name.kind == .identifier)) =
    true :=
    hadmits
  rw [hrole, Bool.not_true, Bool.false_or, Bool.and_eq_true, beq_iff_eq] at hname
  exact hname.2

/-- The name of the record is that of a call of the method which is written at its place. -/
def IsCallAt (source : List Char) (r : Record) : Prop :=
  ∃ line method, (linesOf source)[r.span.line - 1]? = some line ∧
    (line.drop r.span.column).take r.span.length = method ∧ method.length = r.span.length ∧
      IsCallOf method r.name.toList

/-- The place, the snippet and the name of a record agree. -/
structure Coherent (st : Setting) (unit : Tree) (r : Record) : Prop where
  place : ∃ range c line, Shows st.source r.span range c line ∧
    r.snippet = String.ofList (trimEndChars line) ∧ r.span.column < r.snippet.length ∧
      r.snippet.toList[r.span.column]? = some c
  /-- The binary names of local classes must not have brackets. -/
  call : r.location = .methodCall → hasPlainIdentifiers st.source unit →
    (∀ x ∈ st.declarations.localNames, '(' ∉ x.1.toList) → IsCallAt st.source r

lemma IsLocalName.isBinaryKey {x : String × String} (h : IsLocalName x)
    (hbracket : '(' ∉ x.1.toList) : IsBinaryKey x.1.toList where
  segment := by
    obtain ⟨owner, number, hbinary⟩ := h.binary
    refine ⟨owner.toList, (toString number ++ x.2).toList, by simp [hbinary], ?_⟩
    rw [String.toList_append, mem_append, not_or]
    refine ⟨fun hdot => absurd (isDigit_of_mem_toString hdot) (by decide), fun hdot => ?_⟩
    rcases isPart_of_mem h.simple hdot with hpart | hpart <;> exact absurd hpart (by decide)
  opening := hbracket
  closing := by
    obtain ⟨z, hz, hpart⟩ := h.last
    refine ⟨z, hz, fun hmem => ?_⟩
    obtain rfl := mem_singleton.mp hmem
    rcases hpart with hpart | hpart <;> exact absurd hpart (by decide)

lemma isCallAt_of_event {unit : Tree} {v : View} {e : Event} {r : Record}
    (hparse : parse? st.source = some unit) (hplain : hasPlainIdentifiers st.source unit)
    (hkeys : ∀ x ∈ st.declarations.localNames, IsBinaryKey x.1.toList)
    (hspot : e.spot ∈ spots st.declarations st.source unit v)
    (hlines : st.lines = .ofChars st.source) (h : e.Holds st m) (hm : m.active = [])
    (hr : r ∈ e.records st) (hlocation : r.location = .methodCall) : IsCallAt st.source r := by
  obtain ⟨report, spot, scopes, names⟩ := e
  obtain ⟨n, hn, rfl⟩ := mem_map.mp hr
  cases report with
  | call cs name =>
    obtain ⟨hkind, hname, _⟩ := h.describes
    have hshaped := shaped_of_mem_spots (shaped_of_parse hparse) hspot
    have hmem := Tree.mem_of_child? hname
    have hidentifier := kind_of_callee hshaped hkind hname
    have hspans := (of_mem_spots (P := fun t => ∀ c ∈ t.children, c.Within st.source)
      (fun _ h c hc => (h c hc).parts) (within_of_parse hparse) hspot name hmem).spans hidentifier
    obtain ⟨line, hline, htake, hlength⟩ :=
      span_of_identifier hspans (isIdentifier_text (hshaped.parts name hmem) hidentifier st.source)
    have hdollar : '$' ∉ (name.text st.source).toList := by
      have hpasses := of_allTrees hplain (mem_spots_of_children hspot (mem_map_of_mem hmem))
      simpa [hidentifier] using hpasses
    refine ⟨line, (name.text st.source).toList, ?_, ?_, ?_, ?_⟩
    · rw [← hlines] at hline
      exact hline
    · rw [← hlines] at htake
      exact htake
    · rw [← hlines] at hlength
      exact hlength.symm
    · exact LocalNames.isCallOf_display hkeys hdollar (h.isCallOf hm n (mem_of_mem_filter hn))
  | supertype kind isExtends written =>
    revert hlocation
    change (Construct.ofSupertype kind isExtends).location = .methodCall → _
    rw [Construct.ofSupertype]
    split <;> exact fun h => by cases h
  | _ => cases hlocation

theorem coherent_of_parse {source : List Char} {unit : Tree} (hparse : parse? source = some unit)
    (base : TypeIndex) (label : String) :
    let d := declarationsOf label source unit
    ∀ r ∈ (analyzeUnit base label source unit).records,
      Coherent (.ofUnit (base.overlay d.types) source d) unit r := by
  intro d r hr
  obtain ⟨entries, henrolls⟩ := exists_entries_of_target hparse label
  obtain ⟨added, hadded, hmade, _⟩ := wrote_of_parse hparse (base.overlay d.types) d
  have hr : r ∈ (collect (Place.ofUnit (base.overlay d.types) source d) unit).records := hr
  obtain ⟨_, ⟨range, hinked, hspan⟩, hsnippet, _, _⟩ := hmade r (by rw [hadded] at hr; exact hr)
  obtain ⟨c, line, hshows⟩ := exists_shows hinked
  constructor
  · have hlines : r.snippet = String.ofList (trimEndChars line) := by
      rw [hsnippet, hspan]
      exact hshows.snippet
    have hcolumn : (trimEndChars line)[r.span.column]? = some c := by
      rw [hspan]
      exact hshows.column
    refine ⟨range, c, line, ?_, hlines, ?_, ?_⟩
    · rw [hspan]
      exact hshows
    · rw [hlines, String.length_ofList]
      exact (List.getElem?_eq_some_iff.mp hcolumn).1
    · rw [hlines, String.toList_ofList]
      exact hcolumn
  · intro hlocation hplain hbrackets
    obtain ⟨events, hreports, hholds, hspots, _, hactive⟩ :=
      exists_events hparse (base.overlay d.types) d
    have hmem : r ∈ events.flatMap (Event.records (.ofUnit (base.overlay d.types) source d)) := by
      rw [← reported_of_reports hreports]
      exact List.mem_filter.mpr ⟨hr, by rw [hlocation]; rfl⟩
    obtain ⟨e, he, hr⟩ := List.mem_flatMap.mp hmem
    exact isCallAt_of_event hparse hplain
      (fun x hx => (isLocalName_of_mem hparse henrolls hx).isBinaryKey (hbrackets x hx))
      (hspots e he) rfl (hholds e he) hactive hr hlocation

/-- The unit calls a method with a local class in its signature. -/
theorem coherent_of_local_class :
    let source := "class A { void m() { class L { void k(L l) { k(l); } } } }".toList
    ∃ unit, parse? source = some unit ∧ hasPlainIdentifiers source unit ∧
      let d := declarationsOf "A.java" source unit
      (∀ x ∈ d.localNames, '(' ∉ x.1.toList) ∧
        ∀ r ∈ (analyzeUnit (.ofTypes []) "A.java" source unit).records,
          Coherent (.ofUnit (TypeIndex.overlay d.types (.ofTypes [])) source d) unit r := by
  intro source
  obtain ⟨unit, hunit, hplain, hbrackets⟩ : ∃ unit, parse? source = some unit ∧
      hasPlainIdentifiers source unit ∧
        ∀ x ∈ (declarationsOf "A.java" source unit).localNames, '(' ∉ x.1.toList := by
    decide +kernel
  exact ⟨unit, hunit, hplain, hbrackets, coherent_of_parse hunit (.ofTypes []) "A.java"⟩

/-- The name of the package is read with the comment in it, so that the binary name of the local
class `L` has the name of the method in it, and the bracket. The same name is put together for the
call of `X.m` with an argument of the type `b.A$1L`, and `L)` is what is left of it. -/
theorem method_call_without_method :
    let source := ("package a.//.X.m(\nb;\nimport a.//.\nX;\n" ++
      "class A { void f() { class L {} X.m(b.Z.x); } }").toList
    let other := "package b; public class Z { public static A$1L x; } class A$1L {}".toList
    (parse? other).any fun otherUnit => (parse? source).any fun unit =>
      hasPlainIdentifiers source unit &&
        (analyzeUnit (.ofTypes (declarationsOf "Z.java" other otherUnit).types) "A.java" source
          unit).records.any fun r => r.location == .methodCall && r.name == "L)" := by
  decide +kernel

end Xref.Reference
