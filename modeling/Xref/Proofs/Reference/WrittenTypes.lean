import Xref.Proofs.Reference.Evaluation
import Xref.Proofs.Resolve.Soundness
import Xref.Proofs.Syntax.Placing
import Xref.Proofs.Text.Pieces

/-!
# Types as they are written

The text of a written type has its brackets right after its name, so the text of a primitive type is
what it is bound to. A walk binds a written type like the resolver does, unless a local class has
the name that the text begins with.
-/
open List

namespace Xref.Reference

open Declaration Java Resolve Syntax Text

variable {s text name rest : String} {c : Char} {source : List Char} {t : Tree}
  {scopes : List Scope} {index : TypeIndex} {lineage : String → Query (List String)}

/-- If the text is a primitive type, it has nothing but brackets after its name. -/
def Tight (text : String) : Prop :=
  isPrimitive (splitArray text).1 → withDims (splitArray text).1 (splitArray text).2 = text

lemma Tight.withDims (h : Tight s) (n : Nat) : Tight (withDims s n) := by
  intro hprimitive
  rw [splitArray_withDims] at hprimitive ⊢
  rw [← withDims_withDims, h hprimitive]

lemma tight_of_solid (h : isSolid s) : Tight s := by
  intro _
  obtain ⟨⟨lead, last, gaps, hwritten, hdims, hblank⟩, -, -, -⟩ := dimensioned_splitArray s
  have hempty {gap : List Char} (hgap : gap ∈ lead :: last :: gaps)
      (hmem : ∀ c ∈ gap, c ∈ s.toList) : gap = [] := by
    refine eq_nil_iff_forall_not_mem.mpr fun c hc => ?_
    have hink := all_eq_true.mp h c (hmem c hc)
    rw [all_eq_true.mp (hblank gap hgap) c hc] at hink
    cases hink
  obtain rfl : lead = [] := hempty (by simp) fun c hc => by simp [hwritten, hc]
  obtain rfl : last = [] := hempty (by simp) fun c hc => by simp [hwritten, hc]
  have hgaps : gaps = List.replicate (splitArray s).2 [] := by
    refine eq_replicate_iff.mpr ⟨hdims, fun gap hgap => hempty (by simp [hgap]) fun c hc => ?_⟩
    rw [hwritten]
    simp only [mem_append, mem_flatMap]
    exact .inl (.inr ⟨gap, hgap, .inl hc⟩)
  rw [← String.toList_inj, hwritten, hgaps]
  simp [Java.withDims, flatMap_replicate]

lemma not_primitive_of_mem (hc : c ∈ s.toList) (hkept : !isBlank c && c != '[' && c != ']')
    (hother : primitives.all fun p => !p.toList.contains c) :
    isPrimitive (splitArray s).1 = false := by
  obtain ⟨⟨lead, last, gaps, hwritten, -, hblank⟩, -, -, -⟩ := dimensioned_splitArray s
  simp only [Bool.and_eq_true, Bool.not_eq_true', bne_iff_ne] at hkept
  have hapart {gap : List Char} (hgap : gap ∈ lead :: last :: gaps) : c ∉ gap := fun hmem => by
    rw [all_eq_true.mp (hblank gap hgap) c hmem] at hkept
    exact Bool.false_ne_true hkept.1.1.symm
  have hbase : c ∈ (splitArray s).1.toList := by
    rw [hwritten] at hc
    simp only [mem_append, mem_flatMap] at hc
    rcases hc with ((hc | hc) | ⟨gap, hgap, hc | hc⟩) | hc
    · exact absurd hc (hapart (by simp))
    · exact hc
    · exact absurd hc (hapart (by simp [hgap]))
    · simp [hkept] at hc
    · exact absurd hc (hapart (by simp))
  by_contra hprimitive
  have hmem : (splitArray s).1 ∈ primitives := by simpa [isPrimitive] using hprimitive
  have hnot := all_eq_true.mp hother _ hmem
  simp [hbase] at hnot

lemma tight_of_mem (hc : c ∈ s.toList) (hkept : !isBlank c && c != '[' && c != ']')
    (hother : primitives.all fun p => !p.toList.contains c) : Tight s := by
  intro hprimitive
  rw [not_primitive_of_mem hc hkept hother] at hprimitive
  cases hprimitive

lemma tight_joinWith {parts : List String} (h : ∀ s ∈ parts, Tight s) :
    Tight (joinWith "." parts) := by
  match parts, h with
  | [], _ => exact tight_of_solid (by decide)
  | [s], h => exact (String.intercalate_singleton (s := s) (t := ".")).symm ▸ h s mem_cons_self
  | s :: s' :: rest, _ => exact tight_of_mem (c := '.') (by simp [joinWith]) (by decide) (by decide)

lemma isSolid_trim (h : isSolid s) : isSolid (trim s) := by
  refine all_eq_true.mpr fun c hc => all_eq_true.mp h c ?_
  simp only [trim, trimChars, trimEndChars, String.toList_ofList, mem_reverse] at hc
  exact (dropWhile_suffix _).subset (mem_reverse.mp ((dropWhile_suffix _).subset hc))

lemma tight_erased (hshaped : t.Shaped) (hwithin : t.Within source) (hkind : t.kind.isType) :
    Tight (t.erased source) := by
  induction t using Tree.induction with
  | step t ih =>
    have hpart {c : Tree} (hc : c ∈ t.children) (htype : c.kind.isType) : Tight (c.erased source) :=
      ih c hc (hshaped.parts c hc) (hwithin.parts c hc) htype
    rw [Tree.erased_eq]
    unfold Tree.erasedFrom
    split
    case h_1 hgeneric =>
      split
      case h_1 found hfound =>
        obtain ⟨c, hc, rfl⟩ := mem_map.mp (mem_of_find?_eq_some hfound)
        refine hpart hc ?_
        have htest := find?_some hfound
        revert htest
        cases c.kind <;> decide
      case h_2 =>
        obtain ⟨cs, hcs⟩ := hwithin.angled hgeneric
        exact tight_of_mem (c := '>') (by simp [hcs]) (by decide) (by decide)
    case h_2 =>
      refine tight_joinWith fun s hs => ?_
      obtain ⟨found, hfound, rfl⟩ := mem_map.mp hs
      obtain ⟨hmem, htest⟩ := mem_filter.mp hfound
      obtain ⟨c, hc, rfl⟩ := mem_map.mp hmem
      refine hpart hc ?_
      revert htest
      cases c.kind <;> decide
    case h_3 harray =>
      refine Tight.withDims ?_ _
      cases hfound : Valued.child? (t.children.map fun c => (c, c.erased source)) .element with
      | none => exact tight_of_solid rfl
      | some found =>
        obtain ⟨c, hc, rfl⟩ := mem_map.mp (mem_of_find?_eq_some hfound)
        refine hpart hc ?_
        have hrole : c.label.inRole .element :=
          find?_some (p := fun c : Tree × String => c.1.role == some .element) hfound
        rcases hshaped.fits.admitted c hc with hremark | hadmits
        · simp [Label.inRole, Tree.label, hremark.role] at hrole
        · rw [harray] at hadmits
          simp only [Kind.shape, Kind.isBare, hrole, if_true, Bool.and_eq_true] at hadmits
          simpa [Tree.label] using hadmits.2
    case h_4 =>
      cases hfound : (t.children.map fun c => (c, c.erased source)).reverse.find?
          fun c => c.1.kind.isType with
      | none => exact tight_of_solid rfl
      | some found =>
        obtain ⟨c, hc, rfl⟩ := mem_map.mp (mem_reverse.mp (mem_of_find?_eq_some hfound))
        exact hpart hc (by simpa using find?_some hfound)
    case h_5 hgeneric hscoped harray hannotated =>
      refine tight_of_solid (isSolid_trim (hwithin.solid ?_))
      revert hkind hgeneric hscoped harray hannotated
      cases t.kind <;> decide

lemma isType_of_declaredType {p type : Tree} (hshaped : p.Shaped)
    (hkind : p.kind = .formalParameter ∨ p.kind = .spreadParameter)
    (h : p.declaredType? = some type) : type ∈ p.children ∧ type.kind.isType := by
  unfold Tree.declaredType? at h
  split at h
  case h_1 c hc =>
    obtain rfl := Option.some.inj h
    obtain ⟨hrole, hadmits⟩ := Tree.admits_of_child hshaped hc
    have htype : !c.label.inRole .type || c.kind.isType := by
      rcases hkind with hkind | hkind <;> rw [hkind] at hadmits <;>
        exact ((Bool.and_eq_true _ _).mp hadmits).2
    exact ⟨Tree.mem_of_child? hc, by simpa [hrole] using htype⟩
  case h_2 => exact ⟨mem_of_find?_eq_some h, find?_some (p := fun c : Tree => c.kind.isType) h⟩

lemma tight_parameter (hshaped : t.Shaped) (hwithin : t.Within source) {p : Parameter}
    (hp : p ∈ t.parameters source) : Tight p.type := by
  obtain ⟨c, hc, hparameter⟩ := mem_filterMap.mp hp
  obtain ⟨list, hlist, hc⟩ : ∃ list, t.child? .parameters = some list ∧ c ∈ list.children := by
    cases hlist : t.child? .parameters with
    | none => simp [hlist] at hc
    | some list => exact ⟨list, rfl, by simpa [hlist] using hc⟩
  have hmem := Tree.mem_of_child? hlist
  have hshaped := (hshaped.parts list hmem).parts c hc
  have hwithin := (hwithin.parts list hmem).parts c hc
  have htight {type : Tree} (hkind : c.kind = .formalParameter ∨ c.kind = .spreadParameter)
      (htype : c.declaredType? = some type) (n : Nat) :
      Tight (withDims (type.erased source) n) := by
    obtain ⟨hmem, hkind⟩ := isType_of_declaredType hshaped hkind htype
    exact (tight_erased (hshaped.parts type hmem) (hwithin.parts type hmem) hkind).withDims n
  unfold Parameter.ofTree? at hparameter
  split at hparameter
  case h_1 hkind =>
    obtain ⟨type, htype, hp⟩ := Option.bind_eq_some_iff.mp hparameter
    cases hp
    exact htight (.inl hkind) htype _
  case h_2 hkind =>
    obtain ⟨type, htype, hp⟩ := Option.bind_eq_some_iff.mp hparameter
    cases hp
    exact htight (.inr hkind) htype _
  case h_3 => cases hparameter

/-- The name is the first thing in the text. -/
def Begins (name text : String) : Prop :=
  ∃ lead rest, text.toList = lead ++ name.toList ++ rest ∧ lead.all isBlank ∧
    rest.head?.all (!isIdentifierPart ·)

def Unshadowed (scopes : List Scope) (text : String) : Prop :=
  ∀ scope ∈ scopes, ∀ c ∈ scope.localTypes, ¬ Begins c.1 text

lemma Unshadowed.localType_eq (h : Unshadowed scopes text) (hname : Begins name text) :
    scopes.findSome? (·.localTypes.lookup name) = none := by
  refine findSome?_eq_none_iff.mpr fun scope hscope => ?_
  by_contra hfound
  obtain ⟨binary, hbinary⟩ := Option.ne_none_iff_exists'.mp hfound
  obtain ⟨before, after, htypes, -⟩ := lookup_eq_some_iff.mp hbinary
  exact h scope hscope (name, binary) (by simp [htypes]) hname

lemma Begins.append {first : String} (h : Begins name first) {lead rest : List Char}
    (htext : text.toList = lead ++ first.toList ++ rest) (hlead : lead.all isBlank)
    (hrest : rest.head?.all (!isIdentifierPart ·)) : Begins name text := by
  obtain ⟨lead', rest', hfirst, hlead', hrest'⟩ := h
  refine ⟨lead ++ lead', rest' ++ rest, by simp [htext, hfirst], by simp_all, ?_⟩
  cases rest' with
  | nil => exact hrest
  | cons c rest' => exact hrest'

lemma cutFirst_spec {sep : Char} {first : String} (h : cutFirst sep s = some (first, rest)) :
    s.toList = first.toList ++ sep :: rest.toList := by
  obtain ⟨⟨a, b⟩, hcut, heq⟩ := Option.map_eq_some_iff.mp h
  cases heq
  rw [String.toList_ofList, String.toList_ofList]
  exact (cutChars_eq_some.mp hcut).2

lemma isIdentifierPart_of_isBlank (h : isBlank c) : isIdentifierPart c = false := by
  by_contra hpart
  rw [isBlank_of_isIdentifierPart (by simpa using hpart)] at h
  cases h

lemma exists_split (text : String) : ∃ lead rest,
    text.toList = lead ++ (splitArray text).1.toList ++ rest ∧ lead.all isBlank ∧
      rest.head?.all (!isIdentifierPart ·) := by
  obtain ⟨⟨lead, last, gaps, hwritten, -, hblank⟩, -, -, -⟩ := dimensioned_splitArray text
  simp only [forall_mem_cons] at hblank
  obtain ⟨hlead, hlast, hgaps⟩ := hblank
  have hhead {gap : List Char} (hgap : gap.all isBlank) {rest : List Char}
      (hrest : rest.head?.all (!isIdentifierPart ·)) :
      (gap ++ rest).head?.all (!isIdentifierPart ·) := by
    cases gap with
    | nil => exact hrest
    | cons c gap => simpa using isIdentifierPart_of_isBlank (all_eq_true.mp hgap c (by simp))
  have hbracket : !isIdentifierPart '[' := by decide
  refine ⟨lead, gaps.flatMap (· ++ ['[', ']']) ++ last, by simp [hwritten], hlead, ?_⟩
  cases gaps with
  | nil =>
    rw [flatMap_nil, nil_append, ← append_nil last]
    exact hhead hlast rfl
  | cons gap gaps =>
    rw [flatMap_cons, append_assoc, append_assoc]
    exact hhead (hgaps gap (by simp)) hbracket

/-- What a walk takes for the name of a local class. -/
def leadingName (text : String) : String :=
  ((cutFirst '.' (splitArray text).1).map Prod.fst).getD (splitArray text).1

lemma begins_leadingName (text : String) : Begins (leadingName text) text := by
  obtain ⟨lead, rest, htext, hlead, hrest⟩ := exists_split text
  unfold leadingName
  cases hcut : cutFirst '.' (splitArray text).1 with
  | none => exact ⟨lead, rest, htext, hlead, hrest⟩
  | some cut =>
    have hdot : !isIdentifierPart '.' := by decide
    refine ⟨lead, '.' :: cut.2.toList ++ rest, ?_, hlead, hdot⟩
    rw [htext, cutFirst_spec hcut]
    simp

lemma Unshadowed.first {first : String} (h : Unshadowed scopes text)
    (hcut : cutFirst '.' (splitArray text).1 = some (first, rest)) :
    scopes.findSome? (·.localTypes.lookup (leadingName first)) = none := by
  obtain ⟨lead, others, htext, hlead, -⟩ := exists_split text
  have hdot : !isIdentifierPart '.' := by decide
  have hsplit : text.toList = lead ++ first.toList ++ '.' :: (rest.toList ++ others) := by
    rw [htext, cutFirst_spec hcut]
    simp
  exact h.localType_eq ((begins_leadingName first).append hsplit hlead hdot)

lemma trim_splitArray (text : String) : trim (splitArray text).1 = (splitArray text).1 := by
  obtain ⟨-, hfirst, hlast, -⟩ := dimensioned_splitArray text
  have hdrop {cs : List Char} (h : cs.head?.all (!isBlank ·)) : cs.dropWhile isBlank = cs := by
    cases cs with
    | nil => rfl
    | cons c cs => exact dropWhile_cons_of_neg (by simpa using h)
  rw [trim, trimChars, trimEndChars, hdrop hfirst, hdrop (by simpa using hlast), reverse_reverse,
    String.ofList_toList]

lemma resolveType_of_primitive (htight : Tight text) (h : isPrimitive (splitArray text).1)
    (ctx : Context) : resolveType index lineage text ctx = pure (some text) := by
  have hempty : (splitArray text).1.isEmpty = false := by
    by_contra hempty
    have hbase : (splitArray text).1 = "" := by simpa using hempty
    rw [hbase] at h
    cases h
  rw [resolveType, boundDepth, resolveTo]
  simp only [resolveErased, resolveElement, hempty, h, if_true, Bool.false_eq_true, if_false,
    pure_bind, Option.map_some, htight h]

lemma typeNameOf_writtenRef (h : Tight text) (ctx : Context) :
    typeNameOf index lineage (writtenRef text ctx) = resolveOrRecover index lineage text ctx := by
  unfold writtenRef
  split
  case isTrue hprimitive =>
    rw [typeNameOf, resolveOrRecover, resolveType_of_primitive h hprimitive, pure_bind]
  case isFalse => rfl

/-- Where the scopes are these, the walk asks the question and does nothing else. -/
def Asks {α : Type} (place : Place) (scopes : List Scope) (x : Walk α) (question : Query α) :
    Prop :=
  ∀ s : WalkState, s.scopes = scopes →
    x place s = ((question s.memory).1, { s with memory := (question s.memory).2 })

namespace Asks

variable {α β : Type} {place : Place} {x : Walk α} {f : α → Walk β} {question : Query α}

lemma pure (a : α) : Asks place scopes (pure a) (pure a) := fun _ _ => rfl

lemma bind {more : α → Query β} (hx : Asks place scopes x question)
    (hf : ∀ a, Asks place scopes (f a) (more a)) :
    Asks place scopes (x >>= f) (question >>= more) := by
  intro s hs
  rw [walk_bind_apply, hx s hs]
  exact hf _ { s with memory := _ } hs

lemma after {a : α} {question : Query β}
    (hx : ∀ s : WalkState, s.scopes = scopes → x place s = (a, s))
    (hf : Asks place scopes (f a) question) : Asks place scopes (x >>= f) question := by
  intro s hs
  rw [walk_bind_apply, hx s hs]
  exact hf s hs

lemma ask (question : TypeIndex → Query α) :
    Asks place scopes (Walk.ask question) (question place.index) := fun _ _ => rfl

lemma resolveType (h : scopes.findSome? (·.localTypes.lookup (leadingName text)) = none) :
    Asks place scopes (Walk.resolveType? text) (place.index.resolve text place.context) := by
  have hlocal (s : WalkState) (hs : s.scopes = scopes) :
      Walk.localType? (leadingName text) place s = (none, s) := by
    rw [← hs] at h
    exact Prod.ext h rfl
  have hsetting (s : WalkState) (_ : s.scopes = scopes) :
      Walk.setting place s = (place.toSetting, s) := rfl
  exact after hlocal (after hsetting (ask _))

lemma recoverName {base : String} (imports : List Import) {lead : String → Walk (Option String)}
    {lead' : String → Query (Option String)}
    (h : ∀ first rest, cutFirst '.' (trim base) = some (first, rest) →
      Asks place scopes (lead first) (lead' first)) :
    Asks place scopes (Resolve.recoverName base imports lead)
      (Resolve.recoverName base imports lead') := by
  unfold Resolve.recoverName
  dsimp only
  split
  case h_1 first rest hcut =>
    refine bind (h first rest hcut) fun known => ?_
    cases known with
    | some known => exact pure _
    | none =>
      dsimp only
      split <;> exact pure _
  case h_2 => split <;> exact pure _

lemma typeName (h : Unshadowed scopes text) : Asks place scopes (Walk.typeName text)
    (resolveOrRecover place.index place.index.lineage text place.context) := by
  refine bind (resolveType (h.localType_eq (begins_leadingName text))) fun found => ?_
  cases found with
  | some name => exact pure _
  | none =>
    have hsetting (s : WalkState) (_ : s.scopes = scopes) :
        Walk.setting place s = (place.toSetting, s) := rfl
    have hrecover : Asks place scopes (Walk.recover (splitArray text).1)
        (Resolve.recoverName (splitArray text).1 place.context.imports fun first =>
          Resolve.resolveType place.index place.index.lineage first place.context) :=
      after hsetting (recoverName _ fun first rest hcut =>
        resolveType (h.first ((congrArg (cutFirst '.') (trim_splitArray text)).symm.trans hcut)))
    exact bind hrecover fun found => pure _

lemma refName (h : Unshadowed scopes text) (htight : Tight text) :
    Asks place scopes (Walk.typeName text)
      (place.index.refName (writtenRef text place.context)) := by
  rw [TypeIndex.refName, typeNameOf_writtenRef htight]
  exact typeName h

lemma query {st : Setting}
    (h : Asks { st with remembering := .never, path := [] } scopes x question) :
    x.query st scopes = question := by
  funext m
  rw [Walk.query, h { memory := m, scopes := scopes } rfl]
  rfl

end Asks

end Xref.Reference
