import Xref.Proofs.Declaration.Origin
import Xref.Proofs.Reference.Numbering

/-!
# Types that can be named outside their unit

A collection can leave out local and anonymous classes, and with them the types in these. `Thins`
relates the two collections over a region of spots: what both declare is the same, in the same
order, and what only one of them declares is hidden in code.
-/
open List

namespace Xref.Reference

open Declaration Java Syntax Text Spot Collector

/-- Whether there is a local or an anonymous class among trees that stand in each other. -/
def hiddenIn : List Tree → Bool
  | [] => false
  | t :: outer =>
    t.kind.isTypeDeclaration &&
      (!outer.head?.any fun p => p.kind == .program || Kind.holdsMembers p.kind) ||
    t.kind == .classBody &&
      (outer.head?.any fun p => [.objectCreationExpression, .enumConstant].contains p.kind) ||
    hiddenIn outer

/-- Whether the tree is the declaration or the body of a local or an anonymous class, or stands in
such a class. -/
def Spot.isHidden (s : Spot) : Bool := hiddenIn (s.tree :: s.view.path)

lemma Spot.isHidden_eq (s : Spot) :
    s.isHidden = (s.isLocal || s.isAnonymous || hiddenIn s.view.path) := by
  simp only [isHidden, hiddenIn, isLocal, View.inCode, isAnonymous, outer?, Option.any_map]

variable {d : Declarations} {t : Tree} {v : View} {finds : List Find}

section

variable {source : List Char} {c : Tree} {s : Spot}

lemma hiddenIn_of_suffix {inner outer : List Tree} (h : outer <:+ inner) (hout : hiddenIn outer) :
    hiddenIn inner := by
  induction inner with
  | nil => rwa [suffix_nil.mp h] at hout
  | cons t inner ih =>
    rcases suffix_cons_iff.mp h with rfl | h
    · exact hout
    · rw [hiddenIn, ih h, Bool.or_true]

lemma suffix_of_mem (hs : s ∈ spots d source t v) : t :: v.path <:+ s.tree :: s.view.path :=
  holds_of_mem (P := fun c w => t :: v.path <:+ c :: w.path)
    (fun t w hw c _ => hw.trans (suffix_cons c (t :: w.path))) suffix_rfl hs

lemma isHidden_of_mem (hs : s ∈ spots d source t v) (h : hiddenIn (t :: v.path)) : s.isHidden :=
  hiddenIn_of_suffix (suffix_of_mem hs) h

lemma isHidden_of_body (hc : c.kind = .classBody)
    (ht : t.kind = .objectCreationExpression ∨ t.kind = .enumConstant)
    (hs : s ∈ spots d source c (v.enter d source t c)) : s.isHidden := by
  refine isHidden_of_mem hs ?_
  rcases ht with ht | ht <;> simp [hiddenIn, View.path_enter, hc, ht]

lemma isHidden_of_code (hshaped : t.Shaped) (henclosed : t.kind.isEnclosed = false)
    (htype : t.kind.isTypeDeclaration → v.inCode) (hs : s ∈ spots d source t v)
    (hhead : s.isHead) : s.isHidden := by
  induction t using Tree.induction generalizing v with
  | step t ih =>
    by_cases hdeclares : t.kind.isTypeDeclaration
    · refine isHidden_of_mem hs ?_
      have hlocal : isLocal ⟨t, v⟩ := by simp [isLocal, hdeclares, htype hdeclares]
      change isHidden ⟨t, v⟩
      rw [isHidden_eq, hlocal]
      rfl
    rw [spots_cons] at hs
    rcases mem_cons.mp hs with rfl | hs
    · have hbody : t.kind = .classBody := by simpa [isHead, Kind.isHeaded, hdeclares] using hhead
      rw [hbody] at henclosed
      cases henclosed
    obtain ⟨c, hc, hs⟩ := exists_of_mem_innerSpots hs
    by_cases hbody : t.kind = .objectCreationExpression ∧ c.kind = .classBody
    · exact isHidden_of_body hbody.2 (.inl hbody.1) hs
    · refine ih c hc (hshaped.parts c hc) ?_ (fun _ => ?_) hs
      · exact isEnclosed_of_child hshaped hc henclosed (by simpa using hdeclares)
          fun hnew hclass => hbody ⟨hnew, hclass⟩
      · exact inCode_of_code (σ := ⟨source, .target "", true⟩) henclosed c

end

/-- A type that was found, at the spot where it is declared. -/
structure Find where
  spot : Spot
  info : TypeInfo

def Find.key (f : Find) : Nat × String := (f.spot.tree.start, f.info.name)

def seen (finds : List Find) : List TypeInfo :=
  (finds.filter fun f => !f.spot.isHidden).map Find.info

lemma seen_append (finds finds' : List Find) : seen (finds ++ finds') = seen finds ++
    seen finds' := by
  simp [seen]

lemma seen_of_hidden (h : ∀ f ∈ finds, f.spot.isHidden) : seen finds = [] := by
  rw [seen, filter_eq_nil_iff.mpr fun f hf => by simp [h f hf], map_nil]

/-- From `s` to `t` the types of `finds` were declared, and from `s'` to `t'` those of them that are
not hidden. -/
structure Finds (region : List Spot) (s s' t t' : Found) (finds : List Find) : Prop where
  types : t.types = s.types ++ finds.map Find.info
  seen : t'.types = s'.types ++ seen finds
  names : t.names.Perm (finds.map Find.key ++ s.names)
  spots : ∀ f ∈ finds, f.spot ∈ region

/-- Both collections come to the same result, and the second declares what is not hidden of the
types that the first declares. -/
def Thins (region : List Spot) {α : Type} (x y : Collect α) : Prop :=
  ∀ s s', (y s').1 = (x s).1 ∧ ∃ finds, Finds region s s' (x s).2 (y s').2 finds

lemma Finds.append {region : List Spot} {s s' t t' u u' : Found} {finds' : List Find}
    (h : Finds region s s' t t' finds) (h' : Finds region t t' u u' finds') :
    Finds region s s' u u' (finds ++ finds') where
  types := by rw [h'.types, h.types, map_append, append_assoc]
  seen := by rw [h'.seen, h.seen, seen_append, append_assoc]
  names := by
    rw [map_append, append_assoc]
    refine h'.names.trans ((h.names.append_left _).trans ?_)
    exact perm_append_comm_assoc _ _ _
  spots := forall_mem_append.mpr ⟨h.spots, h'.spots⟩

namespace Thins

variable {region region' : List Spot} {α β γ δ : Type} {l : List γ}

lemma pure (region : List Spot) (a : α) : Thins region (pure a : Collect α) (pure a) :=
  fun s s' => ⟨rfl, [], (append_nil s.types).symm, (append_nil s'.types).symm, .refl _, by simp⟩

lemma mono {x y : Collect α} (h : Thins region x y) (hle : region ⊆ region') :
    Thins region' x y := by
  intro s s'
  obtain ⟨hresult, finds, hfinds⟩ := h s s'
  exact ⟨hresult, finds, hfinds.types, hfinds.seen, hfinds.names,
    fun f hf => hle (hfinds.spots f hf)⟩

lemma bind {x y : Collect α} {f g : α → Collect β} (hx : Thins region x y)
    (hf : ∀ a, Thins region (f a) (g a)) : Thins region (x >>= f) (y >>= g) := by
  intro s s'
  obtain ⟨hresult, finds, hfinds⟩ := hx s s'
  obtain ⟨hresult', finds', hfinds'⟩ := hf (x s).1 (x s).2 (y s').2
  rw [← hresult] at hresult' hfinds'
  refine ⟨?_, finds ++ finds', ?_⟩
  · change (g (y s').1 (y s').2).1 = (f (x s).1 (x s).2).1
    rw [hresult', hresult]
  · refine hfinds.append ?_
    rw [hresult] at hfinds'
    change Finds region _ _ (f (x s).1 (x s).2).2 (g (y s').1 (y s').2).2 finds'
    rw [hresult]
    exact hfinds'

lemma forM {f g : γ → Collect Unit} (hf : ∀ c ∈ l, Thins region (f c) (g c)) :
    Thins region (l.forM f) (l.forM g) := by
  induction l with
  | nil => exact .pure region ()
  | cons c l ih =>
    exact .bind (hf c mem_cons_self) fun _ => ih fun c hc => hf c (mem_cons_of_mem _ hc)

lemma foldlM {l' : List δ} {S : γ → δ → Prop} {f : α → γ → Collect α} {g : α → δ → Collect α}
    (h : List.Forall₂ S l l') (hf : ∀ a c d, S c d → Thins region (f a c) (g a d)) (a : α) :
    Thins region (l.foldlM f a) (l'.foldlM g a) := by
  induction h generalizing a with
  | nil => exact .pure region a
  | cons hcd _ ih =>
    rw [foldlM_cons, foldlM_cons]
    exact .bind (hf a _ _ hcd) fun b => ih b

lemma of_hidden {source : List Char} {agreed : Prop} {post : Unit → Prop} {x y : Collect Unit}
    (hx : Declares d source region agreed post x) (hy : y = Pure.pure ())
    (hhidden : ∀ s ∈ region, s.isHead → s.isHidden) : Thins region x y := by
  subst hy
  intro s s'
  obtain ⟨_, entries, h⟩ := hx s
  obtain ⟨added, htypes, hperm⟩ := h.types
  -- the entries in the order in which their descriptions were added
  obtain ⟨ordered, hinfos, hordered⟩ :
      Relation.Comp (· = List.map Entry.info ·) List.Perm added entries := by
    rw [eq_map_comp_perm]
    exact hperm
  have hspots (e : Entry) (he : e ∈ ordered) : e.spot ∈ region.filter isHead :=
    h.spots.subset (mem_map_of_mem (hordered.mem_iff.mp he))
  have hnone : seen (ordered.map fun e => ⟨e.spot, e.info⟩) = [] := by
    refine seen_of_hidden fun f hf => ?_
    obtain ⟨e, he, rfl⟩ := mem_map.mp hf
    obtain ⟨hmem, hhead⟩ := mem_filter.mp (hspots e he)
    exact hhidden _ hmem hhead
  refine ⟨rfl, ordered.map fun e => ⟨e.spot, e.info⟩, ?_, ?_, ?_, ?_⟩
  · rw [htypes, hinfos, map_map]
    rfl
  · rw [hnone, append_nil]
    rfl
  · have hkeys : (ordered.map fun e => Find.mk e.spot e.info).map Find.key =
        ordered.map Entry.key := by
      rw [map_map]
      refine map_congr_left fun e he => ?_
      simp only [Function.comp, Find.key, Entry.key, h.called e (hordered.mem_iff.mp he)]
    rw [h.names, hkeys]
    exact ((reverse_perm _).trans (hordered.map _).symm).append_right _
  · rintro f hf
    obtain ⟨e, he, rfl⟩ := mem_map.mp hf
    exact (mem_filter.mp (hspots e he)).1

lemma entry {spot : Spot} (hspot : spot ∈ region) (hseen : spot.isHidden = false) {name : String}
    (info : Members → TypeInfo) (hname : ∀ members, (info members).name = name)
    {x y : Collect Members} (hx : Thins region x y) :
    Thins region
      (do Collect.addName spot.tree.start name; let members ← x; Collect.addType (info members))
      (do
        Collect.addName spot.tree.start name
        let members ← y
        Collect.addType (info members)) := by
  intro s s'
  obtain ⟨hresult, finds, h⟩ := hx { s with names := (spot.tree.start, name) :: s.names }
    { s' with names := (spot.tree.start, name) :: s'.names }
  obtain ⟨members, hmembers⟩ : ∃ members, members =
      (x { s with names := (spot.tree.start, name) :: s.names }).1 := ⟨_, rfl⟩
  rw [← hmembers] at hresult
  have hrun (z : Collect Members) (s : Found)
      (h : (z { s with names := (spot.tree.start, name) :: s.names }).1 = members) :
      (do Collect.addName spot.tree.start name; let members ← z; Collect.addType (info members) :
        Collect Unit) s = ((), { (z { s with names := (spot.tree.start, name) :: s.names }).2 with
          types := (z { s with names := (spot.tree.start, name) :: s.names }).2.types ++
            [info members] }) := by
    rw [← h]
    rfl
  rw [hrun x s hmembers.symm, hrun y s' hresult]
  have hone : seen [⟨spot, info members⟩] = [info members] := by simp [seen, hseen]
  refine ⟨rfl, finds ++ [⟨spot, info members⟩], ?_, ?_, ?_, ?_⟩
  · simp [h.types]
  · simp [h.seen, seen_append, hone]
  · refine h.names.trans ?_
    rw [map_append, append_assoc]
    simp [Find.key, hname]
  · exact forall_mem_append.mpr ⟨h.spots, forall_mem_singleton.mpr hspot⟩

end Thins

def thinned (σ : Collector.Setting) : Collector.Setting := { σ with includeLocal := false }

/-- The second collector leaves out what is hidden in the tree. -/
structure Thinning (d : Declarations) (source : List Char) (t : Tree) (c c' : Collector) :
    Prop where
  declare : t.kind.isTypeDeclaration → ∀ v name ctx, Spot.isHidden ⟨t, v⟩ = false →
    Thins (spots d source t v) (c.declare name ctx) (c'.declare name ctx)
  members : Kind.holdsMembers t.kind → ∀ v owner kind ctx found, hiddenIn (t :: v.path) = false →
    Thins (innerSpots d source t v) (c.members owner kind ctx found)
      (c'.members owner kind ctx found)
  member : Kind.isMember t.kind → ∀ v owner kind ctx found, v.inBody → hiddenIn v.path = false →
    Thins (spots d source t v) (c.member owner kind ctx found) (c'.member owner kind ctx found)
  value : ∀ owner ctx, c'.value owner ctx = pure ()

structure ThinningPart (d : Declarations) (σ : Collector.Setting) (t : Tree)
    (c c' : Tree × Collector) : Prop where
  tree : c'.1 = c.1
  child : c.1 ∈ t.children
  declaring : Declaring d σ c.1 c.2
  thinning : Thinning d σ.source c.1 c.2 c'.2

structure ThinningParts (d : Declarations) (σ : Collector.Setting) (t : Tree)
    (cs cs' : Valued Collector) : Prop extends DeclaringParts d σ t cs where
  both : List.Forall₂ (ThinningPart d σ t) cs cs'

section

variable {σ : Collector.Setting} {cs cs' : Valued Collector} {owner : String} {ctx : Context}

lemma scanPart_thinned (part : Option (Tree × Collector)) (owner : String) (ctx : Context) :
    scanPart (thinned σ) part owner ctx = pure () := by
  unfold scanPart thinned
  split <;> rfl

lemma hiddenIn_of_typeBody {body : Tree} (hbody : body.kind.isBody)
    (hkind : t.kind.isTypeDeclaration) (outer : List Tree) :
    hiddenIn (body :: t :: outer) = hiddenIn (t :: outer) := by
  rw [hiddenIn]
  simp [kinds_of_typeBody hbody hkind]

lemma isHidden_of_member (htype : t.kind.isTypeDeclaration) (hbody : v.inBody)
    (hseen : hiddenIn v.path = false) : isHidden ⟨t, v⟩ = false := by
  have hne : (t.kind == .classBody) = false := by
    revert htype
    cases t.kind <;> decide
  obtain ⟨outer, houter, hmembers⟩ := (Option.any_eq_true _ _).mp hbody
  simp [isHidden_eq, isLocal, View.inCode, isAnonymous, hne, houter, hmembers, hseen]

lemma innerSpots_subset_spots (d : Declarations) (source : List Char) (t : Tree) (v : View) :
    innerSpots d source t v ⊆ spots d source t v := by
  rw [spots_cons]
  exact subset_cons_self _ _

lemma roleSpots_subset (d : Declarations) (source : List Char) (t : Tree) (v : View) (r : Role) :
    roleSpots d source t v r ⊆ spots d source t v :=
  List.Subset.trans (roleSpots_sublist d source t v r).subset (innerSpots_subset_spots d source t v)

lemma spots_subset_of_child {source : List Char} {c : Tree} (hc : c ∈ t.children) :
    spots d source c (v.enter d source t c) ⊆ spots d source t v :=
  List.Subset.trans (fun _ hs => mem_innerSpots hc hs) (innerSpots_subset_spots d source t v)

section

variable (h : ThinningParts d σ t cs cs')
include h

lemma scanPart_thins (hlocal : σ.includeLocal) {r : Role}
    (hpart : ∀ c, t.child? r = some c → c.kind.isEnclosed = false ∧ c.kind.isCallable = false)
    (hcode : ∀ c, (v.enter d σ.source t c).inCode) (owner : String) (ctx : Context) :
    Thins (spots d σ.source t v) (scanPart σ (cs.child? r) owner ctx)
      (scanPart (thinned σ) (cs'.child? r) owner ctx) := by
  refine Thins.mono (.of_hidden (scanPart_declares h.toDeclaringParts hlocal hpart hcode
    fun _ _ (hagreed : False) => hagreed.elim) (scanPart_thinned _ owner ctx) fun s hs hhead => ?_)
    (roleSpots_subset d σ.source t v r)
  cases hc : t.child? r with
  | none =>
    rw [roleSpots, hc] at hs
    cases hs
  | some c =>
    rw [roleSpots_eq hc] at hs
    exact isHidden_of_code (h.shaped.parts c (Tree.mem_of_child? hc)) (hpart c hc).1
      (fun _ => hcode c) hs hhead

lemma membersFrom_thins (hkind : Kind.holdsMembers t.kind) (v : View) (owner : String)
    (kind : TypeKind) (ctx : Context) (found : Members) (hseen : hiddenIn (t :: v.path) = false) :
    Thins (innerSpots d σ.source t v) (membersFrom cs owner kind ctx found)
      (membersFrom cs' owner kind ctx found) := by
  refine .foldlM (Tree.filter_rel h.both fun _ _ hc => by rw [hc.tree]) (fun found c c' hc => ?_)
    found
  have hmember := isMember_of_child h.shaped hkind hc.1.child
  exact (hc.1.thinning.member hmember (v.enter d σ.source t c.1) owner kind ctx found hkind
    hseen).mono fun s hs => mem_innerSpots hc.1.child hs

lemma ThinningParts.child? (r : Role) :
    Option.Rel (ThinningPart d σ t) (cs.child? r) (cs'.child? r) :=
  Tree.optionRel_imp (Tree.find?_rel h.both fun _ _ hc => by rw [hc.tree]) fun _ _ hc => hc.1

lemma declareType_thins (hkind : t.kind.isTypeDeclaration)
    (v : View) (name : String) (outer : Context) (hseen : isHidden ⟨t, v⟩ = false) :
    Thins (spots d σ.source t v) (declareType σ t cs name outer)
      (declareType (thinned σ) t cs' name outer) := by
  have hspot : ⟨t, v⟩ ∈ spots d σ.source t v := by
    rw [spots_cons]
    exact mem_cons_self
  unfold declareType
  rcases Tree.optionRel_cases (h.child? .body) with ⟨hc, hc'⟩ | ⟨c, c', hc, hc', hpart⟩
  · rw [hc, hc']
    exact .entry hspot hseen (describedType σ t name outer) (fun _ => rfl) (.pure _ ({} : Members))
  · have hbody : t.child? .body = some c.1 := by rw [← h.toDeclaringParts.child?, hc]; rfl
    have hbodyKind := isBody_of_child h.shaped hkind hbody
    have hinner : hiddenIn (c.1 :: t :: v.path) = false := by
      rw [hiddenIn_of_typeBody hbodyKind hkind]
      exact hseen
    have hmembers := (hpart.thinning.members (by simp [Kind.holdsMembers, hbodyKind])
      (v.enter d σ.source t c.1) name (declaredKind t.kind)
      ((outer.declaring (t.typeParameters σ.source)).inside name) {} hinner).mono
        (List.Subset.trans (innerSpots_subset_spots d σ.source c.1 _)
          (spots_subset_of_child hpart.child))
    rw [hc, hc']
    exact .entry hspot hseen (describedType σ t name outer) (fun _ => rfl) hmembers

lemma addFields_thins (hkind : t.kind = .fieldDeclaration ∨ t.kind = .constantDeclaration)
    (v : View) (owner : String) (kind : TypeKind) (ctx : Context) (found : Members) :
    Thins (spots d σ.source t v) (addFields σ t cs owner kind ctx found)
      (addFields (thinned σ) t cs' owner kind ctx found) := by
  have hshape : t.kind.shape = .declarators := by
    rcases hkind with hkind | hkind <;> rw [hkind] <;> rfl
  have hcode : t.kind.isEnclosed = false := by
    rcases hkind with hkind | hkind <;> rw [hkind] <;> rfl
  unfold addFields
  cases t.declaredType? with
  | none => exact .pure _ found
  | some type =>
    refine .foldlM (Tree.filter_rel h.both fun _ _ hc => by rw [hc.tree]) (fun found c c' hc => ?_)
      found
    obtain ⟨hpart, hrole⟩ := hc
    have hdeclarator := kind_of_declarator h.shaped hshape hpart.child (eq_of_beq hrole)
    dsimp only
    rw [hpart.tree]
    rw [show (thinned σ).source = σ.source from rfl]
    cases c.1.nameText? σ.source with
    | none => exact .pure _ found
    | some name =>
      have hvalue : Thins _ _ _ := .of_hidden
        (hpart.declaring.value hdeclarator (v.enter d σ.source t c.1) owner ctx)
        (hpart.thinning.value owner ctx) fun s => isHidden_of_code (h.shaped.parts _ hpart.child)
          (hdeclarator ▸ rfl) fun _ => inCode_of_code hcode c.1
      exact .bind (hvalue.mono (spots_subset_of_child hpart.child)) fun _ => .pure _ _

lemma addConstant_thins (hlocal : σ.includeLocal)
    (hkind : t.kind = .enumConstant) (v : View) (owner : String) (ctx : Context) (found : Members) :
    Thins (spots d σ.source t v) (addConstant σ t cs owner ctx found)
      (addConstant (thinned σ) t cs' owner ctx found) := by
  unfold addConstant
  rw [show (thinned σ).source = σ.source from rfl]
  cases t.nameText? σ.source with
  | none => exact .pure _ found
  | some name =>
    refine .bind (scanPart_thins h hlocal (fun c hc => ?_)
      (inCode_enter (by rw [hkind]; decide) (hkind ▸ rfl) v) owner ctx) fun _ => ?_
    · rw [(kinds_of_constant h.shaped hkind).1 c hc]
      decide
    rcases Tree.optionRel_cases (h.child? .body) with ⟨hc, hc'⟩ | ⟨c, c', hc, hc', hpart⟩
    · simp only [hc, hc']
      exact .pure _ _
    · have hbody : t.child? .body = some c.1 := by rw [← h.toDeclaringParts.child?, hc]; rfl
      have hbodyKind := (kinds_of_constant h.shaped hkind).2 c.1 hbody
      have hdeclares := declareAnonymous_declares hpart.declaring hbodyKind (.inr hkind)
        (by simp [typeEntered?, hkind, Kind.isTypeDeclaration, Tree.role_of_child? hbody]) v
        (.qualified owner) owner ctx
      simp only [hc, hc', if_pos hlocal, thinned]
      exact .bind ((Thins.of_hidden hdeclares rfl fun s hs _ =>
        isHidden_of_body hbodyKind (.inr hkind) hs).mono (spots_subset_of_child hpart.child))
          fun _ => .pure _ _

lemma memberFrom_thins (hlocal : σ.includeLocal) (v : View) (owner : String) (kind : TypeKind)
    (ctx : Context) (found : Members) (hbody : v.inBody) (hseen : hiddenIn v.path = false) :
    Thins (spots d σ.source t v) (memberFrom σ t cs owner kind ctx found)
      (memberFrom (thinned σ) t cs' owner kind ctx found) := by
  have hcallable (bodies : List Kind) (hshape : t.kind.shape = .declaration bodies)
      (hbodies : ∀ k ∈ bodies, k.isEnclosed = false ∧ k.isCallable = false)
      (henclosed : t.kind.isEnclosed = false) (owner : String) (ctx : Context) :
      Thins (spots d σ.source t v) (scanPart σ (cs.child? .body) owner ctx)
        (scanPart (thinned σ) (cs'.child? .body) owner ctx) :=
    scanPart_thins h hlocal (fun c hc => body_of_callable h.shaped hshape hbodies hc)
      (inCode_of_code henclosed) owner ctx
  have hcode {agreed : Prop} {x : Collect Unit} (hx : Declares d σ.source (spots d σ.source t v)
      agreed (fun _ => True) x) (henclosed : t.kind.isEnclosed = false)
      (htype : t.kind.isTypeDeclaration = false) :
      Thins (spots d σ.source t v) x (pure ()) :=
    .of_hidden hx rfl fun s => isHidden_of_code h.shaped henclosed (by simp [htype])
  unfold memberFrom
  dsimp only [thinned]
  split
  case h_1 hkind => exact addFields_thins h (.inl hkind) v owner kind ctx found
  case h_2 hkind => exact addFields_thins h (.inr hkind) v owner kind ctx found
  case h_3 hkind =>
    split
    · exact .pure _ found
    · exact .bind (hcallable [.block] (hkind ▸ rfl) (by decide) (hkind ▸ rfl) owner _)
        fun _ => .pure _ _
  case h_4 hkind =>
    exact .bind (hcallable [.constructorBody] (hkind ▸ rfl) (by decide) (hkind ▸ rfl)
      owner ctx) fun _ => .pure _ _
  case h_5 hkind =>
    rw [if_pos hlocal]
    exact .bind (hcode (compact_declares h.toDeclaringParts hkind v owner ctx) (hkind ▸ rfl)
      (hkind ▸ rfl)) fun _ => .pure _ found
  case h_6 hkind | h_7 hkind =>
    rw [if_pos hlocal]
    exact .bind (hcode (scanFrom_declares h.toDeclaringParts (hkind ▸ rfl)
      (hkind ▸ rfl) v (by rw [hkind]; nofun) owner ctx) (hkind ▸ rfl)
      (hkind ▸ rfl)) fun _ => .pure _ found
  case h_8 => exact .pure _ _
  case h_9 hkind => exact addConstant_thins h hlocal hkind v owner ctx found
  case h_10 hkind =>
    have hsame : hiddenIn (t :: v.path) = false := by
      rw [hiddenIn, hseen, hkind]
      rfl
    exact (membersFrom_thins h (hkind ▸ rfl) v owner kind ctx found hsame).mono
      (innerSpots_subset_spots d σ.source t v)
  case h_11 =>
    split
    case isTrue htype =>
      have hspot := isHidden_of_member htype hbody hseen
      obtain ⟨simple, hsimple, -⟩ := exists_nameText h.shaped htype σ.source
      rw [hsimple]
      exact .bind (declareType_thins h htype v _ ctx hspot) fun _ => .pure _ found
    case isFalse => exact .pure _ found

end

lemma thinning_ofTree (d : Declarations) (hlocal : σ.includeLocal) (hshaped : t.Shaped) :
    Thinning d σ.source t (ofTree σ t) (ofTree (thinned σ) t) := by
  induction t using Tree.induction with
  | step t ih =>
    have hpart (c : Tree) (hc : c ∈ t.children) : ThinningPart d σ t
        (c, ofTree σ c) (c, ofTree (thinned σ) c) :=
      ⟨rfl, hc, declaring_ofTree d hlocal (hshaped.parts c hc), ih c hc (hshaped.parts c hc)⟩
    have hcs : ThinningParts d σ t (t.children.map fun c => (c, ofTree σ c))
        (t.children.map fun c => (c, ofTree (thinned σ) c)) := by
      refine ⟨⟨hshaped, ?_, ?_⟩, ?_⟩
      · rw [map_map]
        exact map_id _
      · exact forall_mem_map.mpr fun c hc => (hpart c hc).declaring
      · rw [forall₂_map_left_iff, forall₂_map_right_iff, forall₂_same]
        exact hpart
    rw [ofTree, ofTree, Tree.fold_eq, Tree.fold_eq]
    exact ⟨declareType_thins hcs, membersFrom_thins hcs, fun _ => memberFrom_thins hcs hlocal,
      scanPart_thinned _⟩

end

/-- The types of a unit, each at the spot of its declaration, and those that can be named outside of
it. -/
structure Exposes (d : Declarations) (source : List Char) (unit : Tree) (outside : List TypeInfo)
    (finds : List Find) : Prop where
  types : d.types = finds.map Find.info
  seen : outside = seen finds
  named : ∀ f ∈ finds, d.nameOf? f.spot.tree = some f.info.name
  spots : ∀ f ∈ finds, f.spot ∈ spots d source unit (.ofUnit d)
  distinct : (finds.map Find.spot).Nodup
  housed : ∀ t ∈ outside, InPackage (packageOf source unit) t.name t.package

lemma exists_finds {source : List Char} {unit : Tree} (hparse : parse? source = some unit)
    (σ : Collector.Setting) (hsource : σ.source = source) (hlocal : σ.includeLocal) :
    ∃ finds, Exposes (.ofUnit σ unit) source unit (Declarations.ofUnit (thinned σ) unit).types
      finds := by
  obtain ⟨entries, hentries⟩ := exists_entries hparse σ hsource hlocal
  have hstarts := nodup_starts hparse hentries.names hentries.spots
  subst hsource
  have hkind := kind_of_parse hparse
  have hshaped := shaped_of_parse hparse
  obtain ⟨d, hd⟩ : ∃ d, d = Declarations.ofUnit σ unit := ⟨_, rfl⟩
  rw [← hd] at hstarts ⊢
  have hitem (c : Tree) (hc : c ∈ unit.children) : Thins (spots d σ.source unit (.ofUnit d))
      (declareItem σ (packageOf σ.source unit)
        { package := packageOf σ.source unit, imports := importsOf σ.source unit } c)
        (declareItem (thinned σ) (packageOf σ.source unit)
          { package := packageOf σ.source unit, imports := importsOf σ.source unit } c) := by
    unfold declareItem
    dsimp only [thinned]
    split
    case isFalse => exact .pure _ ()
    case isTrue htype =>
      obtain ⟨simple, hsimple, -⟩ := exists_nameText (hshaped.parts c hc) htype σ.source
      rw [hsimple]
      refine ((thinning_ofTree d hlocal (hshaped.parts c hc)).declare htype
        ((View.ofUnit d).enter d σ.source unit c) (qualify (packageOf σ.source unit) simple)
        { package := packageOf σ.source unit, imports := importsOf σ.source unit } ?_).mono
        (spots_subset_of_child hc)
      have hne : (c.kind == .classBody) = false := by
        revert htype
        cases c.kind <;> decide
      simp [isHidden, View.path_enter, View.ofUnit, hiddenIn, hkind, hne, Kind.isTypeDeclaration]
  obtain ⟨_, finds, h⟩ := Thins.forM hitem {} {}
  have hnames : d.names.Perm (finds.map Find.key) := by
    have hfound := h.names
    rw [append_nil] at hfound
    rw [hd]
    exact hfound
  have hkeys : ((finds.map Find.spot).map fun s => s.tree.start).Nodup := by
    rw [map_map]
    have hperm := hnames.map Prod.fst
    rw [map_map] at hperm
    exact hperm.nodup_iff.mp hstarts
  have hseen : (Declarations.ofUnit (thinned σ) unit).types = seen finds := h.seen
  have htypes : d.types = finds.map Find.info := by
    rw [hd]
    exact h.types
  refine ⟨finds, htypes, hseen, fun f hf => ?_, h.spots, .of_map _ hkeys, fun t ht => ?_⟩
  · exact knows_of_starts rfl hstarts (f.spot.tree.start, f.info.name)
      (hnames.mem_iff.mpr (mem_map_of_mem hf))
  · rw [hseen] at ht
    have hmem : t ∈ d.types := by
      rw [htypes]
      exact (filter_sublist.map _).subset ht
    have hhoused := inPackage_of_mem hparse (hd ▸ hentries) hmem
    rwa [hd] at hhoused

end Xref.Reference
