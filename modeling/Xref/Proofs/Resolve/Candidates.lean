import Xref.Proofs.Resolve.Methods

/-!
# Methods that a lookup lists

A type comes first in its own lineage. So a lookup in a type lists every method that the type
declares, or another one of the same type with the same signature.
-/
open List

namespace Xref.Resolve

open Java

variable {α β : Type} {index : TypeIndex} {m : Memory}

/-- Every answer to the question passes `P`. -/
def Yields (P : α → Prop) (x : Query α) : Prop := ∀ m, P (x m).1

namespace Yields

variable {P : α → Prop} {Q : β → Prop} {x : Query α} {f : α → Query β}

lemma pure {a : α} (h : P a) : Yields P (pure a : Query α) := fun _ => h

lemma bind (hx : Yields P x) (hf : ∀ a, P a → Yields Q (f a)) : Yields Q (x >>= f) :=
  fun m => hf _ (hx m) (x m).2

lemma last (hf : ∀ a, Yields Q (f a)) : Yields Q (x >>= f) := fun m => hf _ (x m).2

lemma foldlM {f : β → α → Query β} {l : List α} (hf : ∀ b, Q b → ∀ a ∈ l, Yields Q (f b a)) {b : β}
    (hb : Q b) : Yields Q (l.foldlM f b) := by
  induction l generalizing b with
  | nil => exact .pure hb
  | cons a l ih =>
    rw [foldlM_cons]
    exact .bind (hf b hb a mem_cons_self) fun b hb =>
      ih (fun b hb a ha => hf b hb a (mem_cons_of_mem _ ha)) hb

end Yields

section

variable {ask : Ask}

lemma prefix_superclassChain (n : Nat) (current : String) (order : List String) :
    Yields (order <+: ·) (superclassChain ask n current order) := by
  induction n generalizing current order with
  | zero => exact .pure prefix_rfl
  | succ n ih =>
    refine .last fun s => ?_
    split
    · exact .pure prefix_rfl
    · split
      · exact .pure prefix_rfl
      · exact fun m => (prefix_append order _).trans (ih _ _ m)

lemma prefix_addSupertypes (order : List String) (q : String) :
    Yields (order <+: ·) (addSupertypes ask order q) := by
  refine .last fun s => .pure ?_
  induction s.direct generalizing order with
  | nil => exact prefix_rfl
  | cons name names ih => exact (prefix_addNew order name).trans (ih _)

lemma prefix_widen (n : Nat) (layer order : List String) :
    Yields (order <+: ·) (widen ask n layer order) := by
  induction n generalizing layer order with
  | zero => exact .pure prefix_rfl
  | succ n ih =>
    have hlayer : Yields (order <+: ·) (layer.foldlM (addSupertypes ask) order) :=
      .foldlM (fun found hfound q _ m => hfound.trans (prefix_addSupertypes found q m)) prefix_rfl
    refine .bind hlayer fun wider hwider => ?_
    dsimp only
    split
    · exact .pure hwider
    · exact fun m => hwider.trans (ih _ _ m)

lemma exists_lineage (index : TypeIndex) (q : String) (m : Memory) :
    ∃ rest, (index.lineage q m).1 = q :: rest := by
  have hlineage : Yields ([q] <+: ·) (index.lineage q) := by
    refine .bind (prefix_superclassChain _ q [q]) fun chain hchain => ?_
    refine .bind (fun m => hchain.trans (prefix_widen _ chain chain m)) fun order horder => .pure ?_
    split
    · exact horder.trans (prefix_addNew order objectName)
    · exact horder
  obtain ⟨rest, hrest⟩ := hlineage m
  exact ⟨rest, hrest.symm⟩

end

variable {info : TypeInfo} {method : MethodInfo} {owner : String}

/-- Where a call looks for a method that `owner` declares. -/
def candidatesFor (index : TypeIndex) (owner : String) (method : MethodInfo) :
    Query (List Candidate) :=
  if method.isConstructor then index.constructors owner else index.findMethods owner method.name

def Lists (signature : String) (found : List Candidate) : Prop :=
  ∃ c ∈ found, c.signature = signature

/-- The answer is one of `found` at some time after `m`. -/
def ListsLater (m : Memory) (x : Query Candidate) (found : List Candidate) : Prop :=
  ∃ m', m'.active = [] ∧ m.Within m' ∧ Lists (x m').1.signature found

lemma signature_of_params {other : MethodInfo} {name : String}
    (hmethod : method ∈ info.methodsNamed name) (hother : other ∈ info.methodsNamed name)
    (h : (candidate index index.lineage info other m).1.params =
      (candidate index index.lineage info method m).1.params) :
    (candidate index index.lineage info other m).1.signature =
      (candidate index index.lineage info method m).1.signature := by
  have hc : (candidate index index.lineage info method m).1.Describes info method :=
    describes_candidate index.lineage info method m
  have hx : (candidate index index.lineage info other m).1.Describes info other :=
    describes_candidate index.lineage info other m
  obtain ⟨-, hconstructor, hname⟩ := mem_methodsNamed.mp hmethod
  obtain ⟨-, hconstructor', hname'⟩ := mem_methodsNamed.mp hother
  simp only [Candidate.signature, hc.declaringType, hc.name, hc.isConstructor, hx.declaringType,
    hx.name, hx.isConstructor, h, hconstructor, hconstructor', hname, hname']

section

variable (hm : m.active = []) (hinfo : index.info owner = some info)
include hm hinfo

/-- The type itself comes first, so what has the parameters of a method of it is a method of it. -/
lemma listsLater_findMethods {name : String} (hmethod : method ∈ info.methodsNamed name) :
    ListsLater m (candidate index index.lineage info method)
      (index.findMethods owner name m).1 := by
  have hstable : Stable (index.findMethods owner name) := (Program.findMethods owner name).stable
  obtain ⟨hactive, hwithin, hfinds⟩ := hstable.finds hm
  obtain ⟨order, horder, hset⟩ := hfinds.isMethodSet hactive
  obtain ⟨rest, hrest⟩ := exists_lineage index owner (index.findMethods owner name m).2
  obtain rfl : owner :: rest = order := hrest.symm.trans (congrArg Prod.fst horder)
  have hown : MethodOf index (index.findMethods owner name m).2 name owner _ :=
    ⟨info, method, hinfo, hmethod, rfl⟩
  obtain ⟨d, ⟨hd, hparams⟩, -⟩ := hset.listed owner mem_cons_self _ hown
  obtain ⟨before, q, after, hsplit, hdeclared, hfirst⟩ := hset.first d hd
  refine ⟨_, hactive, hwithin, d, hd, ?_⟩
  cases before with
  | cons first before =>
    obtain rfl := (List.cons.inj hsplit).1
    exact absurd hparams.symm (hfirst owner mem_cons_self _ hown)
  | nil =>
    obtain rfl := (List.cons.inj hsplit).1
    obtain ⟨info', other, hinfo', hother, rfl⟩ := hdeclared
    obtain rfl := Option.some.inj (hinfo.symm.trans hinfo')
    exact signature_of_params hmethod hother hparams

lemma listsLater_constructors (hmethod : method ∈ info.constructors) :
    ListsLater m (candidate index index.lineage info method) (index.constructors owner m).1 := by
  have hstable : Stable (index.constructors owner) := (Program.constructors owner).stable
  obtain ⟨hactive, hwithin, hfinds⟩ := hstable.finds hm
  refine ⟨_, hactive, hwithin, _, ?_, rfl⟩
  obtain ⟨found, hfound, h⟩ := hfinds.of_bind hactive (.look owner) (fun info => by
    cases info with
    | none => exact .pure []
    | some info => exact .mapM (fun method => (Program.candidate info method).stable) _)
  rw [← hfound.info, hinfo] at h
  rw [(h.of_mapM hactive fun method => (Program.candidate info method).stable).1]
  exact mem_map_of_mem hmethod

lemma listsLater_candidatesFor (hmethod : method ∈ info.methods) :
    ListsLater m (candidate index index.lineage info method)
      (candidatesFor index owner method m).1 := by
  unfold candidatesFor
  split
  case isTrue hconstructor =>
    exact listsLater_constructors hm hinfo (mem_filter.mpr ⟨hmethod, hconstructor⟩)
  case isFalse hconstructor =>
    refine listsLater_findMethods hm hinfo (mem_methodsNamed.mpr ⟨hmethod, ?_, rfl⟩)
    simpa using hconstructor

end

end Xref.Resolve
