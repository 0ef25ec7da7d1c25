import Xref.Proofs.Reference.Supertypes
import Xref.Proofs.Reference.Thinning

/-!
# Records and their components

Every record that a unit declares, wherever it stands, has the accessors of its components and the
canonical constructor as far as its body leaves them out. A constructor for as many components
stands in place of the canonical one even if it takes other types.
-/
namespace Xref.Reference

open Declaration Java Syntax Text

/-- The record at a spot is described by `info`. The context is the one inside the record. -/
structure Spot.IsRecord (d : Declarations) (source : List Char) (s : Spot) (info : TypeInfo) :
    Prop where
  known : d.nameOf? s.tree = some info.name
  kind : info.kind = .recordType
  completes : ∃ outer : Context, (s.view.isPlain source → outer = s.view.context) ∧
    let ctx := (outer.declaring (s.tree.typeParameters source)).inside info.name
    Completes (s.tree.parameters source) ctx (methodsAt source info.name ctx (s.members d source))
      info.methods

lemma Entry.Faithful.isRecord {d : Declarations} {source : List Char} {e : Entry}
    (h : e.Faithful d source) (hkind : e.spot.tree.kind = .recordDeclaration) :
    e.spot.IsRecord d source e.info := by
  have htype : e.spot.tree.kind.isTypeDeclaration := by rw [hkind]; rfl
  have hrecord : e.info.kind = .recordType := by rw [h.kind, hkind]; rfl
  obtain ⟨members, hmembers, himplicit, -⟩ := h.methods
  rw [Entry.inner, if_pos htype] at hmembers himplicit
  refine ⟨by rw [h.known, h.name], hrecord, e.context, h.context.plain, ?_⟩
  dsimp only
  rw [himplicit htype, hrecord, h.name, ← hmembers]
  exact completes_addComponents _ _ _ _

lemma recordDeclaration_of_kind {k : Kind} (h : declaredKind k = .recordType) :
    k = .recordDeclaration := by
  revert h
  cases k <;> decide

/-- Each record that has a name has a description, and each description of a record is that of one,
with its accessors and constructors counted from those that its body declares. All records in
declarations of types have names, but for those that stand apart. Without local classes the same
descriptions are built of the others. -/
theorem records_complete {source : List Char} {unit : Tree} (hparse : parse? source = some unit)
    (σ : Collector.Setting) (hsource : σ.source = source) (hlocal : σ.includeLocal) :
    let d := Declarations.ofUnit σ unit
    (∀ s ∈ spots d source unit (.ofUnit d), s.tree.kind = .recordDeclaration → ∀ name,
      d.nameOf? s.tree = some name → ∃ info ∈ d.types, info.name = name ∧
        s.IsRecord d source info) ∧
    (∀ info ∈ d.types, info.kind = .recordType → ∃ s ∈ spots d source unit (.ofUnit d),
      s.tree.kind = .recordDeclaration ∧ s.IsRecord d source info) ∧
    (∀ c ∈ unit.children, c.kind.isTypeDeclaration →
      ∀ s ∈ spots d source c ((View.ofUnit d).enter d source unit c), s.isDeclaration →
        (d.nameOf? s.tree).isSome) ∧
    (Declarations.ofUnit (thinned σ) unit).types ⊆ d.types := by
  intro d
  obtain ⟨entries, hentries⟩ := exists_entries hparse σ hsource hlocal
  refine ⟨fun s hs hkind name hname => ?_, fun info hinfo hrecord => ?_,
    fun c hc htype s hs hd => ?_, fun t ht => ?_⟩
  · obtain ⟨e, he, rfl, rfl⟩ := exists_entry_of_spot hparse hentries hs
      (by simp [Spot.isHead, Kind.isHeaded, hkind, Kind.isTypeDeclaration]) hname
    have hfaithful := hentries.faithful e he
    exact ⟨e.info, hentries.types.mem_iff.mpr (List.mem_map_of_mem he), hfaithful.name,
      hfaithful.isRecord hkind⟩
  · obtain ⟨e, he, rfl⟩ := List.mem_map.mp (hentries.types.mem_iff.mp hinfo)
    have hfaithful := hentries.faithful e he
    have hkind := recordDeclaration_of_kind (hfaithful.kind.symm.trans hrecord)
    exact ⟨e.spot, (spot_of_mem hentries he).1, hkind, hfaithful.isRecord hkind⟩
  · obtain ⟨e, he, rfl⟩ := List.mem_map.mp (hentries.complete c hc htype s hs hd)
    exact Option.isSome_iff_exists.mpr ⟨e.name, (hentries.faithful e he).known⟩
  · obtain ⟨finds, hfinds⟩ := exists_finds hparse σ hsource hlocal
    rw [hfinds.seen] at ht
    obtain ⟨f, hf, rfl⟩ := List.mem_map.mp ht
    rw [show d.types = _ from hfinds.types]
    exact List.mem_map_of_mem (List.mem_filter.mp hf).1

/-- A compact constructor, one for more parameters and a method that is no accessor. -/
theorem records_complete_of_overloads :
    let source :=
      "record R(int a) { R {} R(int a, A b) { this(a); } int a(int b) { return b; } }".toList
    let σ : Collector.Setting := { source, origin := .target "R.java", includeLocal := true }
    ∃ unit, parse? source = some unit ∧ σ.includeLocal ∧
      let d := Declarations.ofUnit σ unit
      ∀ info ∈ d.types, info.kind = .recordType → ∃ s ∈ spots d source unit (.ofUnit d),
        s.tree.kind = .recordDeclaration ∧ s.IsRecord d source info := by
  intro source σ
  have hread : (parse? source).isSome := by decide +kernel
  obtain ⟨unit, hunit⟩ := Option.isSome_iff_exists.mp hread
  exact ⟨unit, hunit, rfl, (records_complete hunit σ rfl rfl).2.1⟩

/-- Another constructor for one component takes the place of the canonical one. -/
theorem constructors_of_other_component :
    let source := "record R(int a) { R(String s) { this(1); } }".toList
    let σ : Collector.Setting := { source, origin := .target "R.java", includeLocal := true }
    ∃ unit, parse? source = some unit ∧
      ∃ info ∈ (Declarations.ofUnit σ unit).types, info.name = "R" ∧ info.kind = .recordType ∧
        info.methods.countP (isAccessor "a") = 1 ∧
        info.methods.countP MethodInfo.isConstructor = 1 ∧
        info.methods.countP (constructs [.qualified "int"]) = 0 := by
  decide +kernel

end Xref.Reference
