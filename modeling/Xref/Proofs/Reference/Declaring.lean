import Mathlib.Data.List.Flatten
import Xref.Proofs.Declaration.Components
import Xref.Proofs.Reference.Roster

/-!
# Each type is declared at its spot

Every function of the collection declares the types in the tree that it is given. What it leaves out
are trees in which no type is declared, and what stands apart.
-/
open List Bool

namespace Xref.Reference

open Declaration Java Syntax Text Spot Collector Kind

def roleSpots (d : Declarations) (source : List Char) (t : Tree) (v : View) (r : Role) :
    List Spot :=
  ((t.child? r).map fun c => spots d source c (v.enter d source t c)).getD []

variable {d : Declarations} {source : List Char} {r : Role}

lemma roleSpots_eq {t c : Tree} (hc : t.child? r = some c) (v : View) :
    roleSpots d source t v r = spots d source c (v.enter d source t c) := by
  rw [roleSpots, hc]
  rfl

lemma roleSpots_sublist (d : Declarations) (source : List Char) (t : Tree) (v : View) (r : Role) :
    (roleSpots d source t v r).Sublist (innerSpots d source t v) := by
  cases hc : t.child? r with
  | none =>
    rw [roleSpots, hc]
    exact nil_sublist _
  | some c =>
    have hone := (singleton_sublist.mpr (Tree.mem_of_child? hc)).flatMap fun c =>
      spots d source c (v.enter d source t c)
    rwa [flatMap_singleton, ← roleSpots_eq hc] at hone

lemma child_of_single {t c : Tree} (hshaped : t.Shaped) (hr : r ∈ t.kind.shape.single)
    (hc : c ∈ t.children) (hrole : c.role = some r) : t.child? r = some c := by
  have hmem : c ∈ t.children.filter fun c => c.label.inRole r :=
    mem_filter.mpr ⟨hc, by simp [Label.inRole, Tree.label, hrole]⟩
  rw [Tree.filter_eq_find? (hshaped.fits.single r hr)] at hmem
  exact Option.mem_toList.mp hmem

variable {region : List Spot} {agreed : Prop} {t : Tree} {v : View} {owner : String} {ctx : Context}
  {α : Type}

namespace Declares

variable {post : α → Prop} {x : Collect α}

lemma of_roles (rs : List Role) (hshaped : t.Shaped) (hsingle : ∀ r ∈ rs, r ∈ t.kind.shape.single)
    (hadmits : ∀ l, t.kind.shape.admits l → l.isPlain ∨ ∃ r ∈ rs, l.inRole r)
    (horder : ((rs.flatMap (roleSpots d source t v)).filter isHead).Sublist
      ((innerSpots d source t v).filter isHead))
    (h : Declares d source (rs.flatMap (roleSpots d source t v)) agreed post x) :
    Declares d source (innerSpots d source t v) agreed post x := by
  refine h.mono horder fun y hy hdeclared => ?_
  obtain ⟨c, hc, hy⟩ := exists_of_mem_innerSpots hy
  have hplain (hplain : c.label.isPlain) : y ∈ rs.flatMap (roleSpots d source t v) := by
    rw [isDeclaration_of_plain (hshaped.parts c hc) (Label.bare_or_apart hplain) hy] at hdeclared
    cases hdeclared
  rcases hshaped.fits.admitted c hc with hcomment | hc'
  · exact hplain (Tree.isPlain_of_comment hcomment.kind)
  · rcases hadmits _ hc' with hc' | ⟨r, hr, hrole⟩
    · exact hplain hc'
    · refine mem_flatMap.mpr ⟨r, hr, ?_⟩
      rw [roleSpots_eq (child_of_single hshaped (hsingle r hr) hc (eq_of_beq hrole))]
      exact hy

lemma of_role (r : Role) (hshaped : t.Shaped) (hsingle : r ∈ t.kind.shape.single)
    (hadmits : ∀ l, t.kind.shape.admits l → l.isPlain ∨ l.inRole r)
    (h : Declares d source (roleSpots d source t v r) agreed post x) :
    Declares d source (innerSpots d source t v) agreed post x := by
  have hregion : [r].flatMap (roleSpots d source t v) = roleSpots d source t v r :=
    flatMap_singleton _ r
  refine .of_roles [r] hshaped (forall_mem_singleton.mpr hsingle) (fun l hl => ?_) ?_ (hregion ▸ h)
  · exact (hadmits l hl).imp id fun hrole => ⟨r, mem_singleton_self r, hrole⟩
  · rw [hregion]
    exact (roleSpots_sublist d source t v r).filter _

lemma of_inner (hnot : isDeclaration ⟨t, v⟩ = false)
    (h : Declares d source (innerSpots d source t v) agreed post x) :
    Declares d source (spots d source t v) agreed post x := by
  rw [spots_cons]
  refine h.mono ((sublist_cons_self _ _).filter _) fun y hy hdeclared => ?_
  rcases mem_cons.mp hy with rfl | hy
  · rw [hnot] at hdeclared
    cases hdeclared
  · exact hy

lemma of_none (h : Declares d source [] agreed post x)
    (hnone : ∀ y ∈ region, y.isDeclaration = false) : Declares d source region agreed post x :=
  h.mono (nil_sublist _) fun y hy hdeclared => absurd hdeclared (by simp [hnone y hy])

end Declares

/-- From `found` to `result` the methods that the spots declare were added for `owner`. -/
def Joins (source : List Char) (owner : String) (ctx : Context) (region : List Spot)
    (found result : Members) : Prop :=
  result.methods = found.methods ++ methodsAt source owner ctx region

namespace Joins

variable {region' : List Spot} {a b c : Members}

lemma of_methods (h : b.methods = a.methods)
    (hregion : ∀ y ∈ region, declaresMethod y.tree = false) :
    Joins source owner ctx region a b := by
  have hnone : methodsAt source owner ctx region = [] :=
    filterMap_eq_nil_iff.mpr fun y hy => declaredMethod?_eq_none (hregion y hy) source owner ctx
  rw [Joins, hnone, append_nil, h]

lemma append (hab : Joins source owner ctx region a b) (hbc : Joins source owner ctx region' b c) :
    Joins source owner ctx (region ++ region') a c := by
  rw [Joins, methodsAt, filterMap_append, ← append_assoc]
  exact hab ▸ hbc

lemma addMethod {y : Spot} {m : MethodInfo} (found : Members)
    (hm : declaredMethod? source y.tree owner ctx = some m) :
    Joins source owner ctx [y] found (found.addMethod m) := by
  simp [Joins, methodsAt, hm, Members.addMethod]

end Joins

variable {l : Label}

lemma Declares.foldlM {β : Type} {l : List β} {f : Members → β → Collect Members}
    {region direct : β → List Spot}
    (hf : ∀ b ∈ l, ∀ found,
      Declares d source (region b) agreed (Joins source owner ctx (direct b) found) (f found b))
    (found : Members) :
    Declares d source (l.flatMap region) agreed
      (Joins source owner ctx (l.flatMap direct) found) (l.foldlM f found) := by
  induction l generalizing found with
  | nil => exact .pure (.of_methods rfl (by simp))
  | cons b l ih =>
    rw [flatMap_cons, flatMap_cons, foldlM_cons]
    refine .bind (hf b mem_cons_self found) fun more hmore => ?_
    exact (ih (fun b hb => hf b (mem_cons_of_mem _ hb)) more).imp fun _ h => hmore.append h

lemma isEnclosed_of_plain (h : l.isPlain) : l.2.isEnclosed = false := by
  have hkind := Label.bare_or_apart h
  revert hkind
  cases l.2 <;> decide

lemma isEnclosed_of_code {roles : List Role} (h : (Shape.code roles).admits l) :
    l.2.isEnclosed = false := by
  simp only [Shape.code, or_eq_true, and_eq_true, not_eq_true'] at h
  exact h.elim isEnclosed_of_plain fun h => isEnclosed_of_isOutside h.2

lemma isEnclosed_of_free (h : Shape.free.admits l) : l.2.isEnclosed = false := by
  exact isEnclosed_of_isOutside (by simpa [Shape.free] using h)

/-- Parts of a type stand in its body only, and bodies in types, constants and new objects. -/
lemma isEnclosed_of_admits {k : Kind} (h : k.shape.admits l)
    (henclosed : k.isEnclosed = false) (htype : k.isTypeDeclaration = false)
    (hbody : k = .objectCreationExpression → l.2 ≠ .classBody) : l.2.isEnclosed = false := by
  unfold shape at h
  split at h
  case isTrue hbare =>
    simp only [and_eq_true] at h
    exact isEnclosed_of_plain h.1.1.1
  case isFalse =>
    split at h
    case h_1 | h_2 | h_3 | h_4 | h_5 => cases htype
    case h_10 | h_25 | h_26 | h_27 | h_28 | h_29 => cases henclosed
    case h_6 | h_7 | h_8 =>
      simp only [Shape.declaration] at h
      split at h
      · simp only [contains_cons, contains_nil, Bool.or_false, beq_iff_eq] at h
        rw [h]
        rfl
      · exact isEnclosed_of_plain h
    case h_9 =>
      simp only [or_eq_true, and_eq_true, not_eq_true'] at h
      exact h.elim (fun h => isEnclosed_of_isOutside h.2) fun h => isEnclosed_of_plain h.1
    case h_11 | h_12 =>
      simp only [Shape.declarators] at h
      split at h
      · rw [eq_of_beq h]
        rfl
      · exact isEnclosed_of_plain h
    case h_13 | h_14 | h_15 | h_16 | h_17 => exact isEnclosed_of_code h
    case h_18 | h_23 | h_24 => exact isEnclosed_of_free ((and_eq_true _ _).mp h).1
    case h_20 | h_32 => exact isEnclosed_of_free h
    case h_30 | h_31 => simpa using ((and_eq_true _ _).mp h).1
    case h_19 =>
      simp only [Label.ofKind, or_eq_true, not_eq_true', beq_iff_eq] at h
      exact isEnclosed_of_isOutside (h.resolve_right (hbody rfl))
    case h_21 | h_22 =>
      dsimp only at h
      split at h
      · rw [eq_of_beq h]
        rfl
      · split at h
        · simp only [contains_cons, contains_nil, Bool.or_false, or_eq_true, beq_iff_eq] at h
          rcases h with h | h <;> rw [h] <;> rfl
        · exact isEnclosed_of_plain h

def Kind.isMember (k : Kind) : Bool :=
  k.isClassMember || k.isComment || List.contains [.constantDeclaration,
    .annotationTypeElementDeclaration, .enumConstant, .enumBodyDeclarations] k

/-- A tree that is added to the members of a body: the types in it are declared, and its members
join the others. -/
abbrev DeclaresMember (d : Declarations) (source : List Char) (t : Tree) (v : View) (agreed : Prop)
    (owner : String) (ctx : Context) (found : Members) (x : Collect Members) : Prop :=
  Declares d source (spots d source t v) agreed
    (Joins source owner ctx (Spot.asMembers d source ⟨t, v⟩) found) x

/-- Code in the type `owner` is scanned: the types at these spots are declared. -/
abbrev DeclaresIn (d : Declarations) (source : List Char) (region : List Spot) (v : View)
    (owner : String) (ctx : Context) (x : Collect Unit) : Prop :=
  Declares d source region (Agrees source v owner ctx) (fun _ => True) x

/-- The collector of a tree declares the types in it, whatever surrounds the tree. -/
structure Declaring (d : Declarations) (σ : Collector.Setting) (t : Tree) (c : Collector) :
    Prop where
  declare : t.kind.isTypeDeclaration → ∀ v (naming : Naming) ctx, naming.text ≠ "" →
    (∀ κ, naming.number? κ = none) →
    Declares d σ.source (spots d σ.source t v)
      (Scoped σ.source v ctx ∧ naming.Suits d σ.source ⟨t, v⟩) (fun _ => True)
      (c.declare naming.text ctx)
  members : Kind.holdsMembers t.kind → ∀ v owner kind ctx found,
    Declares d σ.source (innerSpots d σ.source t v) (Belongs d σ.source v (t :: v.path) owner ctx)
      (Joins σ.source owner ctx (Spot.bodyMembers d σ.source ⟨t, v⟩) found)
      (c.members owner kind ctx found)
  member : Kind.isMember t.kind → ∀ v owner kind ctx found, v.inBody →
    DeclaresMember d σ.source t v (Belongs d σ.source v v.path owner ctx) owner ctx found
      (c.member owner kind ctx found)
  value : t.kind = .variableDeclarator → ∀ v owner ctx,
    DeclaresIn d σ.source (spots d σ.source t v) v owner ctx (c.value owner ctx)
  scan : t.kind.isEnclosed = false → t.kind.isCallable = false → ∀ v owner ctx, v.inCode →
    DeclaresIn d σ.source (spots d σ.source t v) v owner ctx (c.scan owner ctx)

structure DeclaringParts (d : Declarations) (σ : Collector.Setting) (t : Tree)
    (cs : Valued Collector) : Prop where
  shaped : t.Shaped
  trees : cs.map Prod.fst = t.children
  parts : ∀ c ∈ cs, Declaring d σ c.1 c.2

section

variable {σ : Collector.Setting} {cs : Valued Collector}

namespace DeclaringParts

section

variable (h : DeclaringParts d σ t cs)
include h

lemma mem_children {c : Tree × Collector} (hc : c ∈ cs) : c.1 ∈ t.children :=
  h.trees ▸ mem_map_of_mem hc

lemma child? (r : Role) : (cs.child? r).map Prod.fst = t.child? r := by
  rw [Tree.child?, ← h.trees, find?_map]
  rfl

lemma exists_child {r : Role} {c : Tree}
    (hc : t.child? r = some c) : ∃ collector, cs.child? r = some (c, collector) ∧
      Declaring d σ c collector := by
  rw [← h.child? r, Option.map_eq_some_iff] at hc
  obtain ⟨⟨c, collector⟩, hc, rfl⟩ := hc
  exact ⟨collector, hc, h.parts _ (Valued.mem_of_child? hc)⟩

lemma innerSpots_eq (v : View) : innerSpots d σ.source t v =
    cs.flatMap fun c => spots d σ.source c.1 (v.enter d σ.source t c.1) := by
  rw [innerSpots, ← h.trees, flatMap_map]

end

end DeclaringParts

variable {c body : Tree}

lemma isEnclosed_of_child (hshaped : t.Shaped) (hc : c ∈ t.children)
    (henclosed : t.kind.isEnclosed = false) (htype : t.kind.isTypeDeclaration = false)
    (hbody : t.kind = .objectCreationExpression → c.kind ≠ .classBody) :
    c.kind.isEnclosed = false := by
  rcases hshaped.fits.admitted c hc with hcomment | hadmits
  · exact isEnclosed_of_isOutside (Tree.isOutside_of_comment hcomment.kind)
  · exact isEnclosed_of_admits hadmits henclosed htype hbody

lemma holdsCallables_of_code {k : Kind} (h : k.isEnclosed = false) : k.holdsCallables = false := by
  revert h
  cases k <;> decide

lemma Declares.of_filter {p : Tree × Collector → Bool} {post : α → Prop} {x : Collect α}
    (h : DeclaringParts d σ t cs)
    (hothers : ∀ c ∈ cs, p c = false → c.1.kind.isBare ∨ c.1.kind.isApart)
    (hx : Declares d σ.source ((cs.filter p).flatMap fun c =>
      spots d σ.source c.1 (v.enter d σ.source t c.1)) agreed post x) :
    Declares d σ.source (innerSpots d σ.source t v) agreed post x := by
  rw [h.innerSpots_eq]
  refine hx.mono ((filter_sublist.flatMap _).filter _) fun y hy hdeclared => ?_
  obtain ⟨c, hc, hy⟩ := mem_flatMap.mp hy
  refine mem_flatMap.mpr ⟨c, mem_filter.mpr ⟨hc, ?_⟩, hy⟩
  by_contra hp
  have hplain := hothers c hc (by simpa using hp)
  rw [isDeclaration_of_plain (h.shaped.parts _ (h.mem_children hc)) hplain hy] at hdeclared
  cases hdeclared

lemma bare_of_unnamed (h : c.isNamed = false) : c.kind.isBare := by
  have hkind : c.kind = .literal := by simpa [Tree.isNamed] using h
  rw [hkind]
  rfl

lemma scanChildren_declares (h : DeclaringParts d σ t cs)
    (hagreed : ∀ c ∈ t.children, agreed → Agrees σ.source (v.enter d σ.source t c) owner ctx)
    (hkinds : ∀ c ∈ t.children, c.kind.isEnclosed = false ∧ c.kind.isCallable = false)
    (hcode : ∀ c, (v.enter d σ.source t c).inCode) :
    Declares d σ.source (innerSpots d σ.source t v) agreed (fun _ => True)
      (cs.named.forM fun c => c.2.scan owner ctx) := by
  refine .of_filter h (fun c _ hunnamed => .inl (bare_of_unnamed hunnamed)) (.forM fun c hc => ?_)
  have hmem := Valued.mem_of_mem_named hc
  obtain ⟨henclosed, hcallable⟩ := hkinds _ (h.mem_children hmem)
  exact ((h.parts c hmem).scan henclosed hcallable _ owner ctx (hcode c.1)).agree
    (hagreed _ (h.mem_children hmem))

lemma inCode_of_code (henclosed : t.kind.isEnclosed = false) (c : Tree) :
    (v.enter d σ.source t c).inCode := by
  have hkind : t.kind ≠ .program ∧ holdsMembers t.kind = false := by
    revert henclosed
    cases t.kind <;> decide
  exact inCode_enter hkind.1 hkind.2 v c

lemma code_of_child (h : DeclaringParts d σ t cs) (henclosed : t.kind.isEnclosed = false)
    (htype : t.kind.isTypeDeclaration = false) (hc : c ∈ t.children)
    (hbody : t.kind = .objectCreationExpression → c.kind ≠ .classBody) :
    c.kind.isEnclosed = false ∧ c.kind.isCallable = false :=
  ⟨isEnclosed_of_child h.shaped hc henclosed htype hbody,
    h.shaped.plain (holdsCallables_of_code henclosed) c hc⟩

lemma ne_empty_of_dollar (owner rest : String) : owner ++ "$" ++ rest ≠ "" := by
  intro h
  have hlength := congrArg String.length h
  simp [String.length_append] at hlength

lemma declareAnonymous_declares {collector : Collector}
    (hbody : Declaring d σ body collector) (hkind : body.kind = .classBody)
    (hout : t.kind = .objectCreationExpression ∨ t.kind = .enumConstant)
    (hentered : typeEntered? d σ.source t body = (d.nameOf? body).map fun name => (name, []))
    (v : View) (supertype : TypeRef) (owner : String) (ctx : Context) :
    DeclaresIn d σ.source (spots d σ.source body (v.enter d σ.source t body)) v owner ctx
      (Collector.declareAnonymous σ (body, collector) supertype owner ctx) := by
  have htype {name : String} (hname : d.nameOf? body = some name) :
      typeEntered? d σ.source t body = some (name, []) := by
    rw [hentered, hname]
    rfl
  have hinner (naming : Naming) (hname : d.nameOf? body = some naming.text)
      (h : Agrees σ.source v owner ctx) :
      Belongs d σ.source (v.enter d σ.source t body) (body :: (v.enter d σ.source t body).path)
        naming.text (ctx.inside naming.text) := by
    have hholder : holderIn (body :: t :: v.path) = some body := by
      rcases hout with hout | hout <;> simp [holderIn, hkind, hout, isTypeDeclaration]
    refine ⟨by simpa using Agrees.of_type (htype hname) h.context, ?_⟩
    rw [View.path_enter, hholder]
    exact hname
  have hsuits {name : String} (hname : d.nameOf? body = some name)
      (h : Agrees σ.source v owner ctx) (number : Nat) :
      (Naming.numbered (.anonymous owner) number).Suits d σ.source
        ⟨body, v.enter d σ.source t body⟩ := by
    have hanonymous : Spot.isAnonymous ⟨body, v.enter d σ.source t body⟩ := by
      rcases hout with hout | hout <;> simp [Spot.isAnonymous, Spot.outer?, View.enter, hkind, hout]
    refine ⟨hanonymous, ?_⟩
    rw [Spot.owner?, if_pos hanonymous, (enter_of_some (htype hname) v).2]
    exact h.owner
  rw [spots_cons]
  refine .entry (.anonymous owner) ⟨body, v.enter d σ.source t body⟩
    (fun naming => ctx.inside naming.text) (fun naming members => {
      name := naming.text
      package := ctx.package
      kind := .classType
      superclass := some supertype
      interfaces := []
      fields := members.fields
      methods := members.methods
      origin := σ.origin })
    (by simp [Spot.isHead, isHeaded, hkind]) (fun s => ne_empty_of_dollar owner _)
    (fun _ _ => rfl) hinner (fun naming => hbody.members (hkind ▸ rfl) _ naming.text .classType
      (ctx.inside naming.text) {}) ?_
  intro s naming members hjoins hname hagrees
  have hinside := hinner naming hname hagrees
  have hnot (h : body.kind.isTypeDeclaration) : False := by
    rw [hkind] at h
    cases h
  refine ⟨hname, hsuits hname hagrees _, rfl, by rw [hkind]; rfl, hinside.context.package,
    hinside.context, fun h => (hnot h).elim, members, ?_, fun h => (hnot h).elim,
      List.Subset.refl _⟩
  rw [Spot.members, if_pos (by simp [hkind]), Entry.inner, if_neg hnot]
  exact hjoins

lemma isBody_of_child (hshaped : t.Shaped) (hkind : t.kind.isTypeDeclaration)
    (hbody : t.child? .body = some body) : body.kind.isBody := by
  obtain ⟨lacks, hshape⟩ := shape_typeDeclaration hkind
  obtain ⟨hrole, hadmits⟩ := Tree.admits_of_child hshaped hbody
  exact (typePart_of_admits (hshape ▸ hadmits)).body hrole

lemma exists_body (hshaped : t.Shaped) (hkind : t.kind.isTypeDeclaration) :
    ∃ body, t.child? .body = some body := by
  obtain ⟨lacks, hshape⟩ := shape_typeDeclaration hkind
  exact Tree.exists_child_of_required hshaped (by simp [hshape, Shape.typeDeclaration])

lemma members_of_body (d : Declarations) (source : List Char) (hshaped : t.Shaped)
    (hkind : t.kind.isTypeDeclaration) (hbody : t.child? .body = some body) (v : View) :
    Spot.members d source ⟨t, v⟩ = Spot.bodyMembers d source ⟨body, v.enter d source t body⟩ := by
  obtain ⟨lacks, hshape⟩ := shape_typeDeclaration hkind
  have hne : (t.kind == .classBody) = false := by
    revert hkind
    cases t.kind <;> decide
  have hone : Role.body ∈ t.kind.shape.single := by simp [hshape, Shape.typeDeclaration]
  have hsingle : t.children.filter (fun c => c.role == some .body) = [body] :=
    (Tree.filter_eq_find? (hshaped.fits.single .body hone)).trans (congrArg Option.toList hbody)
  rw [Spot.members, if_neg (by simp [hne]), Spot.children, filter_map]
  change List.flatMap _ (List.map _ (t.children.filter fun c => c.role == some .body)) = _
  rw [hsingle]
  simp

def describedType (σ : Collector.Setting) (t : Tree) (name : String) (outer : Context)
    (members : Members) : TypeInfo :=
  let header := outer.declaring (t.typeParameters σ.source)
  let all := addImplicit (declaredKind t.kind) name (t.parameters σ.source) (header.inside name)
    members
  { name := name
    package := header.package
    kind := declaredKind t.kind
    superclass := (superclassTree? t).map fun s => writtenRef (s.erased σ.source) header
    interfaces := (interfaceTrees t).map fun i => writtenRef (i.erased σ.source) header
    fields := all.fields
    methods := all.methods
    origin := σ.origin }

lemma methods_addImplicit (kind : TypeKind) (name : String) (components : List Parameter)
    (ctx : Context) (members : Members) :
    members.methods ⊆ (addImplicit kind name components ctx members).methods := by
  unfold addImplicit
  split
  · exact methods_addComponents components _ ctx members
  · exact List.Subset.trans (subset_append_left _ _) (subset_append_left _ _)
  · unfold addDefaultConstructor
    split
    · exact List.Subset.refl _
    · exact subset_append_left _ _
  · exact List.Subset.refl _

lemma kinds_of_typeBody (hbody : body.kind.isBody) (hkind : t.kind.isTypeDeclaration) :
    body.kind.isTypeDeclaration = false ∧ t.kind ≠ .objectCreationExpression ∧
      t.kind ≠ .enumConstant := by
  constructor
  · revert hbody
    cases body.kind <;> decide
  · revert hkind
    cases t.kind <;> decide

lemma holderIn_of_body (hbody : body.kind.isBody)
    (hkind : t.kind.isTypeDeclaration) (outer : List Tree) :
    holderIn (body :: t :: outer) = some t := by
  simp [holderIn, hkind, kinds_of_typeBody hbody hkind]

/-- If nothing that counts follows the members that pass a test, these can be put last. -/
lemma flatMap_of_last {β : Type} {p : α → Bool} {f : α → List β} {l : List α}
    (h : l.Pairwise fun a b => p a → f b = []) :
    l.flatMap f = (l.filter fun a => !p a).flatMap f ++ (l.filter p).flatMap f := by
  induction l with
  | nil => rfl
  | cons a l ih =>
    obtain ⟨ha, hl⟩ := pairwise_cons.mp h
    cases hp : p a with
    | false => simp [hp, ih hl]
    | true =>
      have hnone (l' : List α) (hsub : l'.Sublist l) : l'.flatMap f = [] :=
        flatMap_eq_nil_iff.mpr fun b hb => ha b (hsub.subset hb) hp
      simp [hp, hnone l (List.Sublist.refl l), hnone _ filter_sublist]

lemma heads_of_remark (h : c.IsRemark) (hshaped : c.Shaped) (v : View) :
    (spots d σ.source c v).filter isHead = [] := by
  have hleaf : c.children = [] := hshaped.children_of_atom (by simp [isAtom, h.kind])
  have hhead : isHead ⟨c, v⟩ = false := by
    have hkind := h.kind
    simp only [isHead]
    revert hkind
    cases c.kind <;> decide
  rw [spots_cons, innerSpots, hleaf, flatMap_nil, filter_cons_of_neg (by simp [hhead])]
  rfl

lemma isIdentifier_text (hshaped : t.Shaped) (hkind : t.kind = .identifier)
    (source : List Char) : isIdentifier (t.text source) := by
  cases hshaped with
  | leaf role range hfits htext => exact htext.identifier hkind
  | @node role kind range cs hparts hfits hatom =>
    have hkind : kind = .identifier := hkind
    rw [hkind] at hatom
    cases hatom

lemma kind_of_name (hshaped : t.Shaped) (hkind : t.kind.isTypeDeclaration) {name : Tree}
    (hname : t.child? .name = some name) : name.kind = .identifier := by
  obtain ⟨lacks, hshape⟩ := shape_typeDeclaration hkind
  obtain ⟨hrole, hadmits⟩ := Tree.admits_of_child hshaped hname
  exact (typePart_of_admits (hshape ▸ hadmits)).name hrole

lemma exists_nameText (hshaped : t.Shaped) (hkind : t.kind.isTypeDeclaration)
    (source : List Char) : ∃ name, t.nameText? source = some name ∧ isIdentifier name := by
  obtain ⟨lacks, hshape⟩ := shape_typeDeclaration hkind
  obtain ⟨name, hname⟩ := Tree.exists_child_of_required hshaped
    (show Role.name ∈ t.kind.shape.required by simp [hshape, Shape.typeDeclaration])
  refine ⟨name.text source, by rw [Tree.nameText?, hname]; rfl, ?_⟩
  exact isIdentifier_text (hshaped.parts name (Tree.mem_of_child? hname))
    (kind_of_name hshaped hkind hname) source

section

variable (h : DeclaringParts d σ t cs) (hkind : t.kind.isTypeDeclaration) (v : View)
include h hkind

lemma declareNamed_declares
    {draw : Collect Naming} (hdraw : Draws draw) (hname : ∀ s, (draw s).1.text ≠ "")
    (outer : Context) (hcontext : agreed → Scoped σ.source v outer)
    (hsuits : agreed → ∀ s, (draw s).1.Suits d σ.source ⟨t, v⟩) :
    Declares d σ.source (spots d σ.source t v) agreed (fun _ => True) (do
      let naming ← draw
      declareType σ t cs naming.text outer) := by
  obtain ⟨lacks, hshape⟩ := shape_typeDeclaration hkind
  obtain ⟨body, hbody⟩ := exists_body h.shaped hkind
  obtain ⟨collector, hcollector, hdeclaring⟩ := h.exists_child hbody
  have hbodyKind := isBody_of_child h.shaped hkind hbody
  have hinner (naming : Naming) (hknown : d.nameOf? t = some naming.text) (hagreed : agreed) :
      Belongs d σ.source (v.enter d σ.source t body) (body :: (v.enter d σ.source t body).path)
        naming.text ((outer.declaring (t.typeParameters σ.source)).inside naming.text) := by
    refine ⟨.of_type ?_ (hcontext hagreed), ?_⟩
    · simp [typeEntered?, hkind, Tree.role_of_child? hbody, hknown]
    · rw [View.path_enter, holderIn_of_body hbodyKind hkind]
      exact hknown
  have hparts (naming : Naming) := Declares.of_role .body (v := v) h.shaped
    (by simp [hshape, Shape.typeDeclaration]) (fun l hl => by
      rw [hshape] at hl
      cases hrole : l.inRole .body with
      | true => exact .inr rfl
      | false => exact .inl ((typePart_of_admits hl).plain hrole)) (by
      rw [roleSpots_eq hbody]
      exact (hdeclaring.members (by simp [holdsMembers, hbodyKind]) (v.enter d σ.source t body)
        naming.text
        (declaredKind t.kind) ((outer.declaring (t.typeParameters σ.source)).inside naming.text)
          {}).of_inner (isDeclaration_of_body hbodyKind hkind v))
  have hentry := Declares.entry hdraw ⟨t, v⟩ (fun _ => outer)
    (fun naming => describedType σ t naming.text outer)
    (by simp [isHead, isHeaded, hkind]) hname (fun _ _ => rfl) hinner hparts ?_
  · rw [spots_cons]
    unfold declareType
    rw [hcollector]
    exact hentry
  · intro s naming members hjoins hknown hagreed
    have hspots := members_of_body d σ.source h.shaped hkind hbody v
    refine ⟨hknown, hsuits hagreed s, rfl, rfl, (hcontext hagreed).package, hcontext hagreed,
      fun _ => ⟨rfl, rfl⟩, members, ?_, fun _ => ?_, methods_addImplicit _ _ _ _ _⟩ <;>
      rw [Entry.inner, if_pos hkind]
    · rw [hspots]
      exact hjoins
    · rfl

lemma declareType_declares (naming : Naming) (hname : naming.text ≠ "")
    (hnumber : ∀ κ, naming.number? κ = none) (outer : Context) :
    Declares d σ.source (spots d σ.source t v)
      (Scoped σ.source v outer ∧ naming.Suits d σ.source ⟨t, v⟩) (fun _ => True)
      (declareType σ t cs naming.text outer) :=
  declareNamed_declares h hkind v (.of_pure hnumber) (fun _ => hname) outer And.left
    fun hagreed _ => hagreed.2

lemma declareLocal_declares (hcode : v.inCode) (owner : String) (ctx : Context) :
    DeclaresIn d σ.source (spots d σ.source t v) v owner ctx (declareLocal σ t cs owner ctx) := by
  obtain ⟨simple, hsimple, _⟩ := exists_nameText h.shaped hkind σ.source
  unfold declareLocal
  rw [hsimple]
  refine declareNamed_declares h hkind v (.inCode owner simple) (fun s hempty => ?_) ctx
    Agrees.context fun hagrees s => ⟨?_, ?_, hsimple⟩
  · refine ne_empty_of_dollar owner (toString (lastNumber s (.inCode owner simple) + 1) ++ simple)
      ?_
    rw [← String.append_assoc]
    exact hempty
  · simp [isLocal, hkind, hcode]
  · rw [owner?_of_type hkind]
    exact hagrees.owner

end

def Collector.createdBody (σ : Collector.Setting) (owner : String) (ctx : Context) :
    Option (Tree × Collector) → Option Tree → Collect Unit
  | some body, some type =>
    Collector.declareAnonymous σ body (writtenRef (type.erased σ.source) ctx) owner ctx
  | _, _ => pure ()

section

variable (h : DeclaringParts d σ t cs)
include h

/-- The class body of a new object is the last part of it to be scanned. -/
lemma scanCreation_declares
    (hkind : t.kind = .objectCreationExpression) (v : View) (owner : String) (ctx : Context) :
    DeclaresIn d σ.source (innerSpots d σ.source t v) v owner ctx
      (Collector.scanCreation σ t cs owner ctx) := by
  have hcallable : t.kind.isCallable = false := by rw [hkind]; rfl
  obtain ⟨type, htype⟩ := Tree.exists_child_of_kind h.shaped hkind .type
  have hbodies : cs.filter (fun c => c.1.kind == .classBody) = (cs.childOf? .classBody).toList := by
    refine Tree.filter_eq_find? ?_
    have hsingle := h.shaped.fits.singleKinds .classBody (by rw [hkind]; decide)
    rw [← h.trees, countP_map] at hsingle
    exact hsingle
  have hothers : DeclaresIn d σ.source
      ((cs.named.filter fun c => c.1.kind != .classBody).flatMap fun c =>
        spots d σ.source c.1 (v.enter d σ.source t c.1)) v owner ctx
      ((cs.named.filter fun c => c.1.kind != .classBody).forM fun c => c.2.scan owner ctx) := by
    refine .forM fun c hc => ?_
    obtain ⟨hc, hbody⟩ := mem_filter.mp hc
    have hbody : c.1.kind ≠ .classBody := by simpa using hbody
    have hmem := Valued.mem_of_mem_named hc
    obtain ⟨henclosed, hplain⟩ := code_of_child h (hkind ▸ rfl) (hkind ▸ rfl)
      (h.mem_children hmem) fun _ => hbody
    refine ((h.parts c hmem).scan henclosed hplain _ owner ctx
      (inCode_of_code (hkind ▸ rfl) c.1)).agree fun hagrees => ?_
    exact hagrees.enter_plain (by simp [typeEntered?, hkind, hbody, isTypeDeclaration]) hcallable
  have hbody : DeclaresIn d σ.source ((cs.filter fun c => c.1.kind == .classBody).flatMap fun c =>
        spots d σ.source c.1 (v.enter d σ.source t c.1)) v owner ctx
      (Collector.createdBody σ owner ctx (cs.childOf? .classBody) (t.child? .type)) := by
    rw [hbodies, htype]
    cases hbody : cs.childOf? .classBody with
    | none => exact .pure trivial
    | some body =>
      have hbodyKind := Valued.kind_of_childOf? hbody
      have hdeclaring := h.parts body (Valued.mem_of_childOf? hbody)
      have hone := declareAnonymous_declares (t := t) hdeclaring hbodyKind (.inl hkind)
        (by simp [typeEntered?, hkind, hbodyKind, isTypeDeclaration]) v
        (writtenRef (type.erased σ.source) ctx) owner ctx
      simpa [Collector.createdBody] using hone
  rw [h.innerSpots_eq]
  refine (hothers.bind fun _ _ => hbody).mono ?_ fun y hy hdeclared => ?_
  · have hlast := h.shaped.fits.last .classBody (by rw [hkind]; decide)
    rw [← h.trees, pairwise_map] at hlast
    have hnone : cs.Pairwise fun a b => (a.1.kind == .classBody) = true →
        (spots d σ.source b.1 (v.enter d σ.source t b.1)).filter Spot.isHead = [] :=
      hlast.imp_of_mem fun _ hb hremark hbody => heads_of_remark (hremark (eq_of_beq hbody))
        (h.shaped.parts _ (h.mem_children hb)) _
    rw [filter_append, filter_flatMap, filter_flatMap, filter_flatMap, flatMap_of_last hnone]
    refine List.Sublist.append ?_ (List.Sublist.refl _)
    exact ((filter_sublist (l := cs) (p := fun c => c.1.isNamed)).filter
      fun c => c.1.kind != .classBody).flatMap _
  · obtain ⟨c, hc, hy⟩ := mem_flatMap.mp hy
    by_cases hbodyKind : c.1.kind = .classBody
    · exact mem_append_right _ (mem_flatMap.mpr ⟨c, mem_filter.mpr ⟨hc, by simp [hbodyKind]⟩, hy⟩)
    · refine mem_append_left _ (mem_flatMap.mpr ⟨c, ?_, hy⟩)
      have hnamed : c.1.isNamed := by
        by_contra hunnamed
        rw [isDeclaration_of_plain (h.shaped.parts _ (h.mem_children hc))
          (.inl (bare_of_unnamed (by simpa using hunnamed))) hy] at hdeclared
        cases hdeclared
      exact mem_filter.mpr ⟨mem_filter.mpr ⟨hc, hnamed⟩, by simpa using hbodyKind⟩

lemma scanFrom_declares (henclosed : t.kind.isEnclosed = false)
    (hcallable : t.kind.isCallable = false) (v : View)
    (hcode : t.kind.isTypeDeclaration → v.inCode) (owner : String) (ctx : Context) :
    DeclaresIn d σ.source (spots d σ.source t v) v owner ctx (scanFrom σ t cs owner ctx) := by
  unfold scanFrom
  split
  case isTrue hkind =>
    have hkind := eq_of_beq hkind
    exact .of_inner (isDeclaration_of_kind (hkind ▸ rfl))
      (scanCreation_declares h hkind v owner ctx)
  case isFalse hcreation =>
    split
    case isTrue htype => exact declareLocal_declares h htype v (hcode htype) owner ctx
    case isFalse htype =>
      have htype : t.kind.isTypeDeclaration = false := by simpa using htype
      have hconstant : t.kind ≠ .enumConstant := by
        intro hkind
        rw [hkind] at henclosed
        cases henclosed
      have hthrough : isThrough t.kind := by
        simpa [isThrough, htype, hcallable, hconstant] using hcreation
      have hhead : t.kind.isHeaded = false := by
        have hbody : t.kind ≠ .classBody := by
          intro hkind
          rw [hkind] at henclosed
          cases henclosed
        simp [isHeaded, htype, hbody]
      refine .of_inner (isDeclaration_of_kind hhead) (scanChildren_declares h
        (fun c _ hagrees => ?_) (fun c hc => ?_) (inCode_of_code henclosed))
      · exact hagrees.enter_through hthrough c
      · exact code_of_child h henclosed htype hc fun hkind =>
          absurd hkind (by simpa using hcreation)

lemma scanPart_declares (hlocal : σ.includeLocal) {r : Role}
    (hpart : ∀ c, t.child? r = some c → c.kind.isEnclosed = false ∧ c.kind.isCallable = false)
    (hcode : ∀ c, (v.enter d σ.source t c).inCode) (hagreed : ∀ c, t.child? r = some c → agreed →
      Agrees σ.source (v.enter d σ.source t c) owner ctx) :
    Declares d σ.source (roleSpots d σ.source t v r) agreed (fun _ => True)
      (scanPart σ (cs.child? r) owner ctx) := by
  rw [roleSpots]
  cases hc : t.child? r with
  | none =>
    have hnone : cs.child? r = none := by simpa [hc] using h.child? r
    rw [hnone]
    exact .pure trivial
  | some c =>
    obtain ⟨collector, hcollector, hdeclaring⟩ := h.exists_child hc
    obtain ⟨henclosed, hcallable⟩ := hpart c hc
    rw [hcollector]
    unfold scanPart
    dsimp only
    rw [if_pos hlocal]
    exact (hdeclaring.scan henclosed hcallable _ owner ctx (hcode c)).agree (hagreed c hc)

lemma value_declares (hlocal : σ.includeLocal)
    (hkind : t.kind = .variableDeclarator) (v : View) (owner : String) (ctx : Context) :
    DeclaresIn d σ.source (spots d σ.source t v) v owner ctx
      (scanPart σ (cs.child? .value) owner ctx) := by
  have hshape : t.kind.shape.admits = (Shape.code [.value]).admits := by rw [hkind]; rfl
  refine .of_inner (isDeclaration_of_kind (hkind ▸ rfl)) (.of_role .value h.shaped
    (by rw [hkind]; decide) (fun l hl => ?_) ?_)
  · rw [hshape] at hl
    simp only [Shape.code, or_eq_true, and_eq_true, any_cons, any_nil, Bool.or_false] at hl
    exact hl.imp id And.left
  · refine scanPart_declares h hlocal (fun c hc => ?_) (inCode_of_code (hkind ▸ rfl))
      fun c _ hagrees => ?_
    · exact code_of_child h (hkind ▸ rfl) (hkind ▸ rfl)
        (Tree.mem_of_child? hc) (by rw [hkind]; intro h; cases h)
    · exact hagrees.enter_through (hkind ▸ rfl) c

end

end

end Xref.Reference
