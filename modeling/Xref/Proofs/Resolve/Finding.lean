import Xref.Proofs.Resolve.Memory

/-!
# Answers that come from memory

A question that teaches the resolver nothing finds all that it needs in memory, and so do the
questions that it is made of. Its answer can then be taken apart: a method that was found is
declared by one of the types that were searched.
-/
open List

namespace Xref.Resolve

open Java

variable {α β : Type} {index : TypeIndex} {m : Memory}

namespace Stable

lemma mapM {f : α → Query β} (hf : ∀ a, Stable (f a)) (l : List α) : Stable (l.mapM f) := by
  induction l with
  | nil => exact .pure []
  | cons a l ih =>
    rw [mapM_cons]
    exact .bind (hf a) fun b => .bind ih fun bs => .pure (b :: bs)

lemma firstSome {f : α → Query (Option β)} (hf : ∀ a, Stable (f a)) (l : List α) :
    Stable (Query.firstSome f l) := by
  induction l with
  | nil => exact .pure none
  | cons a l ih =>
    refine .bind (hf a) fun found => ?_
    cases found with
    | none => exact ih
    | some b => exact .pure (some b)

end Stable

/-- The question has the answer `a`, and a resolver that remembers `m` learns nothing from it. -/
def Finds (m : Memory) (x : Query α) (a : α) : Prop := x m = (a, m)

lemma Stable.finds {x : Query α} (h : Stable x) (hm : m.active = []) :
    (x m).2.active = [] ∧ m.Within (x m).2 ∧ Finds (x m).2 x (x m).1 := by
  obtain ⟨hgrows, hagain⟩ := h m hm
  have hactive := hgrows.active.trans hm
  exact ⟨hactive, hgrows.toWithin, hagain _ hactive (Memory.Grows.refl _).toWithin⟩

namespace Finds

lemma pure_iff {a b : α} : Finds m (pure a) b ↔ a = b :=
  ⟨fun h => congrArg Prod.fst h, fun h => by rw [h]; rfl⟩

lemma info {q : String} {found : Option TypeInfo} (h : Finds m (Query.info index q) found) :
    index.info q = found :=
  congrArg Prod.fst h

variable {f : α → Query β} {b : β}

lemma of_bind (hm : m.active = []) {x : Query α} (hx : Stable x) (hf : ∀ a, Stable (f a))
    (h : Finds m (x >>= f) b) : ∃ a, Finds m x a ∧ Finds m (f a) b := by
  obtain ⟨hgrows, hagain⟩ := hx m hm
  have hrest : f (x m).1 (x m).2 = (b, m) := h
  have hgrows' := (hf (x m).1 (x m).2 (hgrows.active.trans hm)).1
  rw [hrest] at hgrows'
  have hfirst : x m = ((x m).1, m) := hagain m hm hgrows'.toWithin
  have hmemory : (x m).2 = m := congrArg Prod.snd hfirst
  rw [hmemory] at hrest
  exact ⟨(x m).1, hfirst, hrest⟩

variable {l : List α}

lemma of_mapM (hm : m.active = []) (hf : ∀ a, Stable (f a)) {bs : List β}
    (h : Finds m (l.mapM f) bs) :
    bs = l.map (fun a => (f a m).1) ∧ ∀ a ∈ l, Finds m (f a) (f a m).1 := by
  induction l generalizing bs with
  | nil => exact ⟨(pure_iff.mp h).symm, fun a ha => by cases ha⟩
  | cons a l ih =>
    rw [mapM_cons] at h
    obtain ⟨b, hfirst, h⟩ := of_bind hm (hf a) (fun b => .bind (.mapM hf l) fun bs => .pure _) h
    obtain ⟨rest, hrest, h⟩ := of_bind hm (.mapM hf l) (fun bs => .pure (b :: bs)) h
    obtain ⟨hvalues, hfinds⟩ := ih hrest
    have hb : b = (f a m).1 := (congrArg Prod.fst hfirst).symm
    refine ⟨?_, forall_mem_cons.mpr ⟨hb ▸ hfirst, hfinds⟩⟩
    rw [← pure_iff.mp h, map_cons, hb, hvalues]

lemma of_firstSome (hm : m.active = []) {f : α → Query (Option β)} (hf : ∀ a, Stable (f a))
    (h : Finds m (Query.firstSome f l) (some b)) : ∃ a ∈ l, Finds m (f a) (some b) := by
  induction l with
  | nil => cases pure_iff.mp h
  | cons a l ih =>
    obtain ⟨found, hfound, h⟩ := of_bind hm (hf a) (fun found => by
      cases found with
      | none => exact .firstSome hf l
      | some b => exact .pure (some b)) h
    cases found with
    | none =>
      obtain ⟨a', ha', h⟩ := ih h
      exact ⟨a', mem_cons_of_mem _ ha', h⟩
    | some b' =>
      rw [pure_iff.mp h] at hfound
      exact ⟨a, mem_cons_self, hfound⟩

end Finds

variable {info : TypeInfo} {method : MethodInfo} {c x : Candidate} {name owner q : String}
  {found cs : List Candidate}

/-- `c` is a method or constructor that the type `q` declares, with its types qualified. -/
def Declares (index : TypeIndex) (m : Memory) (q : String) (c : Candidate) : Prop :=
  ∃ info method, index.info q = some info ∧ method ∈ info.methods ∧
    Finds m (candidate index index.lineage info method) c

structure Candidate.Describes (info : TypeInfo) (method : MethodInfo) (c : Candidate) : Prop where
  declaringType : c.declaringType = info.name
  declaringKind : c.declaringKind = info.kind
  name : c.name = method.name
  isConstructor : c.isConstructor = method.isConstructor

lemma describes_candidate (lineage : Lineage) (info : TypeInfo) (method : MethodInfo)
    (m : Memory) : (candidate index lineage info method m).1.Describes info method := by
  unfold candidate
  cases method.returnType <;> exact ⟨rfl, rfl, rfl, rfl⟩

lemma Finds.describes
    (h : Finds m (candidate index index.lineage info method) c) : c.Describes info method := by
  have hdescribes : (candidate index index.lineage info method m).1.Describes info method :=
    describes_candidate index.lineage info method m
  rwa [show candidate index index.lineage info method m = (c, m) from h] at hdescribes

lemma mem_methodsNamed : method ∈ info.methodsNamed name ↔
    method ∈ info.methods ∧ method.isConstructor = false ∧ method.name = name := by
  simp [TypeInfo.methodsNamed]

lemma mem_addCandidate (h : x ∈ addCandidate found c) : x ∈ found ∨ x = c := by
  unfold addCandidate at h
  split at h
  · exact .inl h
  · simpa using h

structure DeclaresMethod (index : TypeIndex) (m : Memory) (q name : String) (c : Candidate) :
    Prop where
  declares : Declares index m q c
  isConstructor : c.isConstructor = false
  name : c.name = name

lemma Finds.declaresMethod (hinfo : index.info q = some info)
    (hmethod : method ∈ info.methodsNamed name)
    (h : Finds m (candidate index index.lineage info method) c) :
    DeclaresMethod index m q name c := by
  obtain ⟨hmem, hconstructor, hname⟩ := mem_methodsNamed.mp hmethod
  exact ⟨⟨info, method, hinfo, hmem, h⟩, h.describes.isConstructor.trans hconstructor,
    h.describes.name.trans hname⟩

/-- The methods called `name` that a type declares, with their types qualified. -/
def qualifiedMethods (index : TypeIndex) (name q : String) : Query (List Candidate) := do
  match ← Query.info index q with
  | none => return []
  | some info => (info.methodsNamed name).mapM (candidate index index.lineage info)

lemma foldlM_eq_mapM {γ : Type} (f : α → Query γ) (g : β → γ → β) (l : List α) (b : β) :
    l.foldlM (fun b a => do return g b (← f a)) b = do return (← l.mapM f).foldl g b := by
  induction l generalizing b with
  | nil => rfl
  | cons a l ih => simp only [foldlM_cons, mapM_cons, bind_assoc, pure_bind, ih, foldl_cons]

lemma findMethods_eq (owner name : String) : index.findMethods owner name =
    index.lineage owner >>= fun order => do
      return (← order.mapM (qualifiedMethods index name)).flatten.foldl addCandidate [] := by
  refine congrArg (index.lineage owner >>= ·) (funext fun order => ?_)
  refine Eq.trans (b := order.foldlM (fun found q => do
    return (← qualifiedMethods index name q).foldl addCandidate found) []) ?_ ?_
  · refine congrArg (fun step => order.foldlM step []) (funext fun found => funext fun q => ?_)
    rw [qualifiedMethods, bind_assoc]
    refine congrArg (Query.info index q >>= ·) (funext fun info => ?_)
    cases info with
    | none => rfl
    | some info => exact foldlM_eq_mapM _ addCandidate _ found
  · rw [foldlM_eq_mapM]
    simp only [foldl_flatten]

lemma qualifiedMethods_stable (name q : String) : Stable (qualifiedMethods index name q) := by
  refine .bind (.look q) fun info => ?_
  cases info with
  | none => exact .pure []
  | some info => exact .mapM (fun method => (Program.candidate info method).stable) _

/-- The type `q` declares a method called `name`, and a resolver that remembers `m` qualifies it
to `c`. -/
def MethodOf (index : TypeIndex) (m : Memory) (name q : String) (c : Candidate) : Prop :=
  ∃ info method, index.info q = some info ∧ method ∈ info.methodsNamed name ∧
    (candidate index index.lineage info method m).1 = c

lemma Finds.qualifiedMethods (hm : m.active = []) (h : Finds m (qualifiedMethods index name q) cs) :
    ∀ c, (c ∈ cs ↔ MethodOf index m name q c) ∧
      (MethodOf index m name q c → DeclaresMethod index m q name c) := by
  obtain ⟨info, hinfo, h⟩ := of_bind hm (.look q) (fun info => by
    cases info with
    | none => exact .pure []
    | some info => exact .mapM (fun method => (Program.candidate info method).stable) _) h
  intro c
  cases info with
  | none =>
    have hnone : ¬ MethodOf index m name q c := by
      rintro ⟨info, method, hsome, -⟩
      cases hinfo.info.symm.trans hsome
    rw [← pure_iff.mp h]
    exact ⟨by simpa using hnone, fun hc => absurd hc hnone⟩
  | some info =>
    obtain ⟨rfl, hfinds⟩ := of_mapM hm (fun method => (Program.candidate info method).stable) h
    refine ⟨⟨fun hc => ?_, ?_⟩, ?_⟩
    · obtain ⟨method, hmethod, rfl⟩ := mem_map.mp hc
      exact ⟨info, method, hinfo.info, hmethod, rfl⟩
    · rintro ⟨info', method, hsome, hmethod, rfl⟩
      obtain rfl := Option.some.inj (hinfo.info.symm.trans hsome)
      exact mem_map_of_mem hmethod
    · rintro ⟨info', method, hsome, hmethod, rfl⟩
      obtain rfl := Option.some.inj (hinfo.info.symm.trans hsome)
      exact (hfinds method hmethod).declaresMethod hsome hmethod

lemma Finds.exists_methods (hm : m.active = []) (h : Finds m (index.findMethods owner name) found) :
    ∃ order, Finds m (index.lineage owner) order ∧
      found = (order.flatMap fun q => (Resolve.qualifiedMethods index name q m).1).foldl
        addCandidate [] ∧ ∀ q ∈ order, ∀ c, (c ∈ (Resolve.qualifiedMethods index name q m).1 ↔
          MethodOf index m name q c) ∧
        (MethodOf index m name q c → DeclaresMethod index m q name c) := by
  rw [findMethods_eq] at h
  obtain ⟨order, horder, h⟩ := of_bind hm (Program.lineage owner).stable
    (fun order => .bind (.mapM (qualifiedMethods_stable name) order) fun _ => .pure _) h
  obtain ⟨lists, hlists, h⟩ := of_bind hm (.mapM (qualifiedMethods_stable name) order)
    (fun _ => .pure _) h
  obtain ⟨rfl, hfinds⟩ := of_mapM hm (qualifiedMethods_stable name) hlists
  refine ⟨order, horder, ?_, fun q hq => (hfinds q hq).qualifiedMethods hm⟩
  rw [← pure_iff.mp h, flatMap_def]

lemma mem_foldl_addCandidate (h : x ∈ cs.foldl addCandidate found) : x ∈ found ∨ x ∈ cs := by
  induction cs generalizing found with
  | nil => exact .inl h
  | cons c cs ih =>
    rcases ih h with h | h
    · rcases mem_addCandidate h with h | rfl
      · exact .inl h
      · exact .inr mem_cons_self
    · exact .inr (mem_cons_of_mem c h)

lemma Finds.findMethods (hm : m.active = []) (h : Finds m (index.findMethods owner name) found) :
    ∃ order, Finds m (index.lineage owner) order ∧
      ∀ c ∈ found, ∃ q ∈ order, DeclaresMethod index m q name c := by
  obtain ⟨order, horder, rfl, hmethods⟩ := h.exists_methods hm
  refine ⟨order, horder, fun c hc => ?_⟩
  have hmem := (mem_foldl_addCandidate hc).resolve_left not_mem_nil
  obtain ⟨q, hq, hc⟩ := mem_flatMap.mp hmem
  exact ⟨q, hq, (hmethods q hq c).2 ((hmethods q hq c).1.mp hc)⟩

lemma Finds.constructors (hm : m.active = []) (h : Finds m (index.constructors owner) found) :
    ∀ c ∈ found, Declares index m owner c ∧ c.isConstructor := by
  obtain ⟨info, hinfo, h⟩ := of_bind hm (.look owner) (fun info => by
    cases info with
    | none => exact .pure []
    | some info => exact .mapM (fun method => (Program.candidate info method).stable) _) h
  cases info with
  | none =>
    rw [← pure_iff.mp h]
    simp
  | some info =>
    obtain ⟨hvalues, hfinds⟩ := of_mapM hm (fun method => (Program.candidate info method).stable) h
    intro c hc
    rw [hvalues] at hc
    obtain ⟨method, hmethod, rfl⟩ := mem_map.mp hc
    have hfinds := hfinds method hmethod
    obtain ⟨hmem, hconstructor⟩ := mem_filter.mp hmethod
    exact ⟨⟨info, method, hinfo.info, hmem, hfinds⟩,
      hfinds.describes.isConstructor.trans hconstructor⟩

def implementedIn (index : TypeIndex) (c : Candidate) : Option TypeInfo → Query (Option Candidate)
  | none => pure none
  | some info =>
    if !info.kind.isInterface then pure none
    else Query.firstSome (fun method => do
      let i ← candidate index index.lineage info method
      return if i.params == c.params then some i else none) (info.methodsNamed c.name)

/-- The method that is implemented has the same name and parameters and is declared by an interface
in the lineage of the type. -/
lemma Finds.implementedMethod (hm : m.active = []) {i : Candidate}
    (h : Finds m (index.implementedMethod c) (some i)) :
    ∃ order, Finds m (index.lineage c.declaringType) order ∧
      ∃ q ∈ order, DeclaresMethod index m q c.name i ∧ i.declaringKind.isInterface ∧
        i.params = c.params := by
  have hsame (info : TypeInfo) (method : MethodInfo) : Stable (do
      let i ← candidate index index.lineage info method
      return if i.params == c.params then some i else none) :=
    .bind (Program.candidate info method).stable fun _ => .pure _
  have hlook (info : Option TypeInfo) : Stable (implementedIn index c info) := by
    cases info with
    | none => exact .pure none
    | some info => exact .ite _ (.pure none) (.firstSome (hsame info) _)
  unfold TypeIndex.implementedMethod Resolve.implementedMethod at h
  split at h
  case isTrue => cases pure_iff.mp h
  case isFalse =>
    obtain ⟨order, horder, h⟩ := of_bind hm (Program.lineage c.declaringType).stable
      (fun order => .firstSome (fun q => .bind (.look q) hlook) order) h
    obtain ⟨q, hq, h⟩ := of_firstSome hm (fun q => .bind (.look q) hlook) h
    obtain ⟨info, hinfo, h⟩ := of_bind hm (.look q) hlook h
    cases info with
    | none => cases pure_iff.mp h
    | some info =>
      rw [implementedIn] at h
      split at h
      case isTrue => cases pure_iff.mp h
      case isFalse hkind =>
        obtain ⟨method, hmethod, h⟩ := of_firstSome hm (hsame info) h
        obtain ⟨i', hi, h⟩ := of_bind hm (Program.candidate info method).stable (fun _ => .pure _) h
        have h := pure_iff.mp h
        split at h
        case isTrue hparams =>
          obtain rfl := Option.some.inj h
          refine ⟨order, horder, q, hq, hi.declaresMethod hinfo.info hmethod, ?_, eq_of_beq hparams⟩
          rw [hi.describes.declaringKind]
          simpa using hkind
        case isFalse => cases h

end Xref.Resolve
