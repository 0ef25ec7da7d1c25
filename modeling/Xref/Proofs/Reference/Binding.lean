import Xref.Proofs.Reference.Position
import Xref.Proofs.Reference.Report

/-!
# What calls are bound to

A call is bound to a method that is declared by a type in the lineage of its receiver and takes as
many arguments as the call has. Taking the walk that binds it apart shows where the method comes
from.
-/
open List Option Bool

namespace Xref.Reference

open Declaration Java Resolve Syntax Text Walk

variable {α β : Type} {st : Setting} {scopes : List Scope} {m : Memory} {binding : Bindings}
  {κ : Contexts} {ctx : Context}

/-- Where names mean what they mean in `scopes`, the walk has the answer `a`, and a resolver that
remembers `m` learns nothing from it. -/
def Walk.Finds (st : Setting) (scopes : List Scope) (m : Memory) (x : Walk α) (a : α) : Prop :=
  Resolve.Finds m (x.query st scopes) a

namespace Walk.Finds

lemma pure_iff {a b : α} : Walk.Finds st scopes m (pure a) b ↔ a = b := Resolve.Finds.pure_iff

lemma ask {question : TypeIndex → Query α} {a : α}
    (h : Walk.Finds st scopes m (ask question) a) : Resolve.Finds m (question st.index) a :=
  h

lemma text {t : Tree} {s : String} (h : Walk.Finds st scopes m (text t) s) : s = t.text st.source :=
  (congrArg Prod.fst h).symm

lemma currentType {current : Option String}
    (h : Walk.Finds st scopes m currentType current) : current = st.frames.head? :=
  (congrArg Prod.fst h).symm

end Walk.Finds

/-- An evaluation that does not ask what trees mean. -/
abbrev Evaluation.Plain (x : Walk α) : Prop :=
  Evaluation (fun _ => Pure.pure {}) (fun _ => {}) {} x

/-- The walk is a question to the resolver, and its answer passes `P` where a resolver that
remembers `m` learns nothing from it. -/
structure Walk.Tells (st : Setting) (scopes : List Scope) (m : Memory) (x : Walk α)
    (P : α → Prop) : Prop where
  isQuery : IsQuery x
  stable : Stable (x.query st scopes)
  sound : ∀ a, Walk.Finds st scopes m x a → P a

namespace Walk.Tells

variable {x y : Walk α} {P : α → Prop}

lemma of (h : Evaluation binding κ ctx x) : Tells st scopes m x (Walk.Finds st scopes m x) :=
  ⟨h.isQuery, h.stable st scopes, fun _ ha => ha⟩

lemma plain (h : Evaluation.Plain x) : Tells st scopes m x (Walk.Finds st scopes m x) := .of h

lemma imp {Q : α → Prop} (h : Tells st scopes m x P) (hPQ : ∀ a, P a → Q a) :
    Tells st scopes m x Q :=
  ⟨h.isQuery, h.stable, fun a ha => hPQ a (h.sound a ha)⟩

lemma pure {a : α} (h : P a) : Tells st scopes m (Pure.pure a) P :=
  (plain (.pure a)).imp fun _ ha => Walk.Finds.pure_iff.mp ha ▸ h

lemma ite (c : Prop) [Decidable c] (hx : Tells st scopes m x fun a => c → P a)
    (hy : Tells st scopes m y fun a => ¬c → P a) : Tells st scopes m (if c then x else y) P := by
  by_cases h : c
  · rw [if_pos h]
    exact hx.imp fun _ ha => ha h
  · rw [if_neg h]
    exact hy.imp fun _ ha => ha h

/-- What is told at the end may rest on what was told before. -/
lemma bind (hm : m.active = []) {f : α → Walk β} {Q : β → Prop} (hx : Tells st scopes m x P)
    (hf : ∀ a, Tells st scopes m (f a) fun b => P a → Q b) : Tells st scopes m (x >>= f) Q := by
  have hquery : (x >>= f).query st scopes = x.query st scopes >>= fun a => (f a).query st scopes :=
    funext fun m => query_bind hx.isQuery (fun a => (hf a).isQuery) st scopes m
  refine ⟨fun place s hr => .bind hx.isQuery (fun a => (hf a).isQuery) (hx.isQuery place s hr)
    ((hf _).isQuery place _ hr), ?_, fun b hb => ?_⟩
  · rw [hquery]
    exact .bind hx.stable fun a => (hf a).stable
  · unfold Walk.Finds at hb
    rw [hquery] at hb
    obtain ⟨a, ha, hb⟩ := Resolve.Finds.of_bind hm hx.stable (fun a => (hf a).stable) hb
    exact (hf a).sound b hb (hx.sound a ha)

section

variable (hm : m.active = []) {l : List α}
include hm

lemma mapM {f : α → Walk β} (hf : ∀ a ∈ l, Tells st scopes m (f a) fun _ => True) :
    Tells st scopes m (l.mapM f) fun bs => bs.length = l.length := by
  induction l with
  | nil => exact .pure rfl
  | cons a l ih =>
    rw [mapM_cons]
    refine .bind hm (hf a mem_cons_self) fun b =>
      .bind hm (ih fun a ha => hf a (mem_cons_of_mem _ ha)) fun bs => .pure fun hbs _ => ?_
    rw [length_cons, length_cons, hbs]

variable {f : α → Walk (Option β)} {R : α → β → Prop}
  (hf : ∀ a, Tells st scopes m (f a) fun found => ∀ b, found = some b → R a b)
include hf

lemma firstSome : Tells st scopes m (firstSome f l) fun found =>
    ∀ b, found = some b → ∃ a ∈ l, R a b := by
  induction l with
  | nil => exact .pure fun b hb => by cases hb
  | cons a l ih =>
    refine .bind hm (hf a) fun found => ?_
    cases found with
    | none =>
      refine ih.imp fun found h _ b hb => ?_
      obtain ⟨a', ha', h⟩ := h b hb
      exact ⟨a', mem_cons_of_mem _ ha', h⟩
    | some b => exact .pure fun h b hb => ⟨a, mem_cons_self, h b hb⟩

lemma filterMapM : Tells st scopes m (l.filterMapM f) fun bs => ∀ b ∈ bs, ∃ a ∈ l, R a b := by
  induction l with
  | nil => exact .pure fun b hb => by cases hb
  | cons a l ih =>
    have hrest := ih.imp (Q := fun bs => ∀ b ∈ bs, ∃ a' ∈ a :: l, R a' b) fun bs h b hb => by
      obtain ⟨a', ha', h⟩ := h b hb
      exact ⟨a', mem_cons_of_mem _ ha', h⟩
    rw [filterMapM_cons]
    refine .bind hm (hf a) fun found => ?_
    cases found with
    | none => exact hrest.imp fun _ h _ => h
    | some b => exact .bind hm hrest fun bs => .pure fun h hb =>
        forall_mem_cons.mpr ⟨⟨a, mem_cons_self, hb b rfl⟩, h⟩

end

end Walk.Tells

namespace Walk.Finds

lemma of_bind (hm : m.active = []) {x : Walk α} {f : α → Walk β} (hx : Evaluation binding κ ctx x)
    (hf : ∀ a, Evaluation binding κ ctx (f a)) {b : β} (h : Walk.Finds st scopes m (x >>= f) b) :
    ∃ a, Walk.Finds st scopes m x a ∧ Walk.Finds st scopes m (f a) b :=
  (Tells.bind (Q := fun b => ∃ a, Walk.Finds st scopes m x a ∧ Walk.Finds st scopes m (f a) b) hm
    (.of hx) fun a => (Tells.of (hf a)).imp fun _ hb ha => ⟨a, ha, hb⟩).sound b h

end Walk.Finds

def argumentCount (t : Tree) : Nat :=
  ((t.child? .arguments).map fun list =>
    (list.named.filter fun a => !a.kind.isComment).length).getD 0

/-- The types that a call of `callee` can be made on. -/
inductive Receiver (st : Setting) (scopes : List Scope) (m : Memory) (cs : Sense)
    (callee : String) : String → Prop where
  | enclosing {q : String} (hobject : cs.child? .object = none) (h : q ∈ st.frames) :
      Receiver st scopes m cs callee q
  | imported {q written : String} {i : Import} (hobject : cs.child? .object = none)
      (hi : i ∈ st.context.imports) (hstatic : i.isStatic)
      (hwritten : i.onDemand ∧ i.name = written ∨
        i.simpleName = callee ∧ i.qualifier = some written)
      (h : Resolve.Finds m (st.index.resolveFull written) (some q)) :
      Receiver st scopes m cs callee q
  | super {q current : String} {object : Tree × Decorated Meaning}
      (hobject : cs.child? .object = some object) (hkind : object.1.kind = .superKeyword)
      (hcurrent : st.frames.head? = some current)
      (h : Resolve.Finds m (st.index.superclass current) (some q)) :
      Receiver st scopes m cs callee q
  /-- Arrays have the methods of the root class. -/
  | value {type : TypeName} {object : Tree × Decorated Meaning}
      (hobject : cs.child? .object = some object)
      (h : Walk.Finds st scopes m object.2.value.operand (.value (some type)))
      (hresolved : type.isResolved) :
      Receiver st scopes m cs callee (if isArray type.name then objectName else type.name)
  | type {q : String} {object : Tree × Decorated Meaning}
      (hobject : cs.child? .object = some object)
      (h : Walk.Finds st scopes m object.2.value.operand (.type q)) :
      Receiver st scopes m cs callee q

section

variable {cs : Sense} {source : List Char}
variable {callee q : String} {target : Target} {args : List (Option TypeName)} {t written : Tree}
  {names : List TypeName}

/-- The methods that a call can mean are those of a receiver. -/
def Target.IsOf (st : Setting) (scopes : List Scope) (m : Memory) (cs : Sense) (callee : String) :
    Target → Prop
  | .owner q => Receiver st scopes m cs callee q
  | .found q candidates => Receiver st scopes m cs callee q ∧
      ∃ found, Resolve.Finds m (st.index.findMethods q callee) found ∧ ∀ c ∈ candidates, c ∈ found
  | .unbound _ => True

section

variable (hm : m.active = [])
include hm

lemma tells_staticImports (hobject : cs.child? .object = none) :
    Tells st scopes m (staticImports callee) fun owners =>
      ∀ q ∈ owners, Receiver st scopes m cs callee q := by
  have hfull (owner : String) : Tells st scopes m (ask fun index => index.resolveFull owner)
      fun found => ∀ q, found = some q → Resolve.Finds m (st.index.resolveFull owner) (some q) :=
    (Tells.plain (.of (.pose (.resolveFull owner) rfl))).imp fun _ h q hq => (hq ▸ h).ask
  refine .bind hm (.plain .setting) fun st' => (Tells.filterMapM hm hfull).imp ?_
  rintro owners howners hst q hq
  obtain rfl : st' = st := (congrArg Prod.fst hst).symm
  obtain ⟨written, hwritten, hfinds⟩ := howners q hq
  rcases mem_append.mp hwritten with hwritten | hwritten
  · obtain ⟨i, hi, hqualifier⟩ := mem_filterMap.mp hwritten
    obtain ⟨hi, hmember⟩ := mem_filter.mp hi
    obtain ⟨hi, hstatic⟩ := mem_filter.mp hi
    simp only [and_eq_true, beq_iff_eq] at hmember
    exact .imported hobject hi hstatic (.inr ⟨hmember.2, hqualifier⟩) hfinds
  · obtain ⟨i, hi, rfl⟩ := List.mem_map.mp hwritten
    obtain ⟨hi, hdemand⟩ := mem_filter.mp hi
    obtain ⟨hi, hstatic⟩ := mem_filter.mp hi
    exact .imported hobject hi hstatic (.inl ⟨hdemand, rfl⟩) hfinds

lemma tells_found (cs : Sense) (q : String) {keep : List Candidate → List Candidate}
    (hkeep : ∀ found, ∀ c ∈ keep found, c ∈ found) :
    Tells st scopes m (do
      let candidates := keep (← findMethods q callee)
      return if candidates.isEmpty then none else some (Target.found q candidates))
      fun found => ∀ target, found = some target → Receiver st scopes m cs callee q →
        target.IsOf st scopes m cs callee := by
  refine .bind hm (.plain (.of (.pose (.findMethods q callee) rfl))) fun found =>
    .pure fun hfound target htarget hreceiver => ?_
  split at htarget
  · cases htarget
  · obtain rfl := some.inj htarget
    exact ⟨hreceiver, found, hfound, hkeep found⟩

lemma tells_implicitTarget (hobject : cs.child? .object = none) :
    Tells st scopes m (implicitTarget callee) (Target.IsOf st scopes m cs callee) := by
  refine .bind hm (.plain .setting) fun st' =>
    .bind hm (.firstSome hm fun q => tells_found hm cs q fun _ _ hc => hc) fun found => ?_
  cases found with
  | some target =>
    refine .pure fun hfound hst => ?_
    obtain rfl : st' = st := (congrArg Prod.fst hst).symm
    obtain ⟨q, hq, h⟩ := hfound target rfl
    exact h (.enclosing hobject hq)
  | none =>
    refine .bind hm (tells_staticImports hm hobject) fun owners =>
      .bind hm (.firstSome hm fun q => tells_found hm cs q fun _ _ hc => (mem_filter.mp hc).1)
        fun found => .pure fun hfound howners _ _ => ?_
    cases found with
    | none => exact trivial
    | some target =>
      obtain ⟨q, hq, h⟩ := hfound target rfl
      exact h (howners q hq)

lemma tells_superType : Tells st scopes m superType fun owner => ∀ name, owner = some name →
    ∃ current, st.frames.head? = some current ∧
      Resolve.Finds m (st.index.superclass current) (some name.name) := by
  refine .bind hm (.plain .currentType) fun current => ?_
  cases current with
  | none => exact .pure fun _ _ hnone => by cases hnone
  | some current =>
    refine .bind hm (.plain (.of (.pose (.superclass current) rfl))) fun found =>
      .pure fun hfound hcurrent name hname => ?_
    obtain ⟨q, rfl, rfl⟩ := map_eq_some_iff.mp hname
    exact ⟨current, hcurrent.currentType.symm, hfound⟩

lemma tells_receiverTarget {object : SensePart} (hobject : cs.child? .object = some object)
    (hoperand : Evaluation binding κ ctx object.2.value.operand) :
    Tells st scopes m (receiverTarget object.1 object.2.value)
      (Target.IsOf st scopes m cs callee) := by
  have hrecover (name : String) :
      Tells st scopes m (do return Target.unbound (some (← recover name).name))
        (Target.IsOf st scopes m cs callee) :=
    .bind hm (.plain (.of (.recover name))) fun _ => .pure fun _ => trivial
  refine .ite _ (.bind hm (tells_superType hm) fun owner => ?owner)
    (.bind hm (.of hoperand) fun operand => ?_)
  case owner =>
    cases owner with
    | none => exact .pure fun _ _ => trivial
    | some owner =>
      refine .pure fun howner hsuper => ?_
      obtain ⟨current, hcurrent, hq⟩ := howner owner rfl
      exact .super hobject (eq_of_beq hsuper) hcurrent hq
  cases operand with
  | value type =>
    cases type with
    | some type =>
      exact .ite _ (.pure fun _ _ _ => trivial)
        (.pure fun hresolved hfound _ => .value hobject hfound (by simpa using hresolved))
    | none =>
      refine .bind hm (.plain (.dotted object.1)) fun name => ?_
      cases name with
      | none => exact .pure fun _ _ _ => trivial
      | some name => exact (hrecover name).imp fun _ h _ _ _ => h
  | type owner => exact .pure fun hfound _ => .type hobject hfound
  | package name | unknown name => exact (hrecover name).imp fun _ h _ _ => h

lemma tells_callTarget (hcs : SoundParts binding source κ ctx cs) :
    Tells st scopes m (callTarget cs callee) (Target.IsOf st scopes m cs callee) := by
  unfold callTarget
  cases hobject : cs.child? .object with
  | none => exact tells_implicitTarget hm hobject
  | some object => exact tells_receiverTarget hm hobject (hcs.child hobject).operand

end

/-- The method of a receiver that a call is bound to. -/
structure BoundTo (st : Setting) (scopes : List Scope) (m : Memory) (cs : Sense) (callee : String)
    (count : Nat) (c : Candidate) : Prop where
  declared : ∃ q order, Receiver st scopes m cs callee q ∧
    Resolve.Finds m (st.index.lineage q) order ∧
      ∃ type ∈ order, DeclaresMethod st.index m type callee c
  accepts : Accepts c count

/-- The method `i` of an interface that `c` implements. -/
structure Implements (index : TypeIndex) (m : Memory) (c i : Candidate) : Prop where
  declared : ∃ order, Resolve.Finds m (index.lineage c.declaringType) order ∧
    ∃ type ∈ order, DeclaresMethod index m type c.name i
  isInterface : i.declaringKind.isInterface
  params : i.params = c.params

/-- The names that are reported for a method call with `count` arguments. -/
inductive MethodNames (st : Setting) (scopes : List Scope) (m : Memory) (cs : Sense)
    (callee : String) (count : Nat) : List TypeName → Prop where
  | unbound (n : TypeName) (h : n.isResolved = false) :
      MethodNames st scopes m cs callee count [n]
  | bound {c : Candidate} (h : BoundTo st scopes m cs callee count c) :
      MethodNames st scopes m cs callee count [.resolved c.signature]
  | implementing {c i : Candidate} (h : BoundTo st scopes m cs callee count c)
      (hi : Implements st.index m c i) :
      MethodNames st scopes m cs callee count [.resolved c.signature, .resolved i.signature]

lemma tells_bindCall (hm : m.active = []) (cs : Sense) (owner : String)
    (candidates : List Candidate) :
    Tells st scopes m (bindCall owner callee candidates args) fun outcome =>
      ∀ q found, Receiver st scopes m cs callee q →
        Resolve.Finds m (st.index.findMethods q callee) found → (∀ c ∈ candidates, c ∈ found) →
        MethodNames st scopes m cs callee args.length outcome.calls := by
  refine .bind hm (.plain (.of (.select candidates args))) fun selected => ?_
  cases selected with
  | none => exact .pure fun _ _ _ _ _ _ => .unbound _ rfl
  | some c =>
    refine .bind hm (.plain (.ask fun _ => (Program.implementedMethod c).posed)) fun implemented =>
      .pure fun hi hselected q found hreceiver hfound hcandidates => ?_
    obtain ⟨hmem, haccepts⟩ := Overload.mem_of_select hm hselected.ask
    obtain ⟨order, horder, hdeclared⟩ := hfound.findMethods hm
    have hbound : BoundTo st scopes m cs callee args.length c :=
      ⟨⟨q, order, hreceiver, horder, hdeclared c (hcandidates c hmem)⟩, haccepts⟩
    cases implemented with
    | none => exact .bound hbound
    | some i =>
      obtain ⟨order, horder, type, htype, hdeclares, hinterface, hparams⟩ :=
        hi.ask.implementedMethod hm
      by_cases hsame : i.signature = c.signature
      · simp only [map_some, filter_some, hsame, bne_self_eq_false]
        exact .bound hbound
      · have hne : (i.signature != c.signature) = true := by simpa using hsame
        simp only [map_some, filter_some, hne, if_true]
        exact .implementing hbound ⟨⟨order, horder, type, htype, hdeclares⟩, hinterface, hparams⟩

lemma SenseOf.child? (h : SenseOf source t cs) (r : Role) :
    (cs.child? r).map Prod.fst = t.child? r := by
  obtain ⟨p, rfl⟩ := h.parts
  rw [Tree.child?, ← trees_meaning p t, find?_map]
  rfl

lemma SenseOf.trees_part (h : SenseOf source t cs) {c : SensePart}
    (hc : c ∈ cs) : c.2.parts.map Prod.fst = c.1.children := by
  obtain ⟨p, rfl⟩ := h.parts
  obtain ⟨i, child, _, rfl⟩ := mem_parts_meaning hc
  exact trees_meaning (i :: p) child

lemma tells_argumentTypes (hm : m.active = []) (hsense : SenseOf source t cs)
    (hcs : SoundParts binding source κ ctx cs) (hplain : PlainParts cs) :
    Tells st scopes m (argumentTypes cs) fun args => args.length = argumentCount t := by
  unfold argumentCount argumentTypes
  rw [← hsense.child? .arguments]
  cases hlist : cs.child? .arguments with
  | none => exact .pure rfl
  | some list =>
    have hparts := hcs.inside hplain hlist
    refine (Tells.mapM hm fun a ha => (Tells.of (hparts a
      (Valued.mem_of_mem_named (mem_filter.mp ha).1)).meaning.type).imp fun _ _ => trivial).imp
        fun args hargs => ?_
    rw [hargs, map_some, map_some, getD_some, Tree.named,
      ← hsense.trees_part (Valued.mem_of_child? hlist), List.filter_map, List.filter_map,
      length_map]
    rfl

lemma tells_bindInvocation (hm : m.active = []) {name : Tree} (hkind : t.kind = .methodInvocation)
    (hname : t.child? .name = some name) (hsense : SenseOf st.source t cs) :
    Tells st scopes m (bindInvocation t cs) fun outcome =>
      MethodNames st scopes m cs (name.text st.source) (argumentCount t) outcome.calls := by
  obtain ⟨binding, κ, ctx, hcs⟩ := hsense.sound
  have hplain : PlainParts cs := hsense.plain (hkind ▸ rfl)
  unfold bindInvocation
  rw [hname]
  refine .bind hm (.plain (.text name)) fun callee =>
    .bind hm (tells_argumentTypes hm hsense hcs hplain) fun args =>
      .bind hm (tells_callTarget hm hcs) fun target => ?_
  cases target with
  | owner owner =>
    refine .bind hm (.plain (.of (.pose (.findMethods owner callee) rfl))) fun found =>
      (tells_bindCall hm cs owner found).imp ?_
    intro outcome houtcome hfound hreceiver hargs hcallee
    rw [← hargs, ← hcallee.text]
    exact houtcome owner found hreceiver hfound fun _ hc => hc
  | found owner candidates =>
    refine (tells_bindCall hm cs owner candidates).imp ?_
    rintro outcome houtcome ⟨hreceiver, found, hfound, hcandidates⟩ hargs hcallee
    rw [← hargs, ← hcallee.text]
    exact houtcome owner found hreceiver hfound hcandidates
  | unbound receiver => exact .pure fun _ _ _ => .unbound _ rfl

/-- The names that are reported for the call of a constructor of one of the types `owner`. The
anonymous class of `body` can implement an interface. -/
inductive ConstructorNames (index : TypeIndex) (m : Memory) (owner : String → Prop)
    (body : Option Tree) (count : Nat) : List TypeName → Prop where
  | unbound (n : TypeName) (h : n.isResolved = false) :
      ConstructorNames index m owner body count [n]
  | bound {q : String} {c : Candidate} (hq : owner q) (hc : Resolve.Declares index m q c)
      (hconstructor : c.isConstructor) (haccepts : Accepts c count) :
      ConstructorNames index m owner body count [.resolved c.signature]
  | implementing {q : String} {info : TypeInfo} (hq : owner q) (hbody : body.isSome)
      (hinfo : index.info q = some info) (hinterface : info.kind.isInterface) :
      ConstructorNames index m owner body count [.resolved (q ++ "()")]

lemma tells_bindConstructor (hm : m.active = []) (owner : String → Prop) (body : Option Tree)
    (q : String) : Tells st scopes m (bindConstructor q args) fun names =>
      owner q → ConstructorNames st.index m owner body args.length names := by
  refine .bind hm (.plain (.ask fun _ => (Program.constructors q).posed)) fun candidates =>
    .bind hm (.plain (.of (.select candidates args))) fun selected => ?_
  cases selected with
  | none => exact .pure fun _ _ _ => .unbound _ rfl
  | some c =>
    refine .pure fun hselected hcandidates hq => ?_
    obtain ⟨hmem, haccepts⟩ := Overload.mem_of_select hm hselected.ask
    obtain ⟨hdeclares, hconstructor⟩ := hcandidates.ask.constructors hm c hmem
    exact .bound hq hdeclares hconstructor haccepts

def Created (st : Setting) (scopes : List Scope) (m : Memory) (t : Tree) (cs : Sense)
    (q : String) : Prop :=
  Walk.Finds st scopes m (creationOwner t cs) (some (.resolved q))

lemma forall_answers {P : β → Prop} {x : Walk α} {f : α → Walk β}
    (h : ∀ a place s, P (f a place s).1) (place : Place) (s : WalkState) :
    P ((x >>= f) place s).1 :=
  h _ _ _

lemma isSome_creationOwner (hwritten : t.child? .type = some written) (place : Place)
    (s : WalkState) : (creationOwner t cs place s).1.isSome := by
  let P (owner : Option TypeName) : Prop := owner.isSome
  have hlast (text : String) (place : Place) (s : WalkState) :
      P ((do return some (← typeName text) : Walk (Option TypeName)) place s).1 :=
    forall_answers (P := P) (fun _ _ _ => rfl) place s
  change P _
  unfold creationOwner
  rw [hwritten]
  refine forall_answers (fun text => forall_answers fun outer => ?_) place s
  cases outer with
  | none => exact hlast text
  | some outer =>
    refine forall_answers fun member => ?_
    cases member with
    | none => exact hlast text
    | some member => exact fun _ _ => rfl

lemma tells_creationCalls (hm : m.active = []) (hkind : t.kind = .objectCreationExpression)
    (hwritten : t.child? .type = some written) (hsense : SenseOf st.source t cs) :
    Tells st scopes m (creationCalls t cs) (ConstructorNames st.index m (Created st scopes m t cs)
      (t.childOf? .classBody) (argumentCount t)) := by
  obtain ⟨binding, κ, ctx, hcs⟩ := hsense.sound
  have hplain : PlainParts cs := hsense.plain (hkind ▸ rfl)
  have howner : Tells st scopes m (creationOwner t cs) fun owner =>
      owner.isSome ∧ Walk.Finds st scopes m (creationOwner t cs) owner := by
    refine (Tells.of (.creationOwner t hcs)).imp fun owner howner => ⟨?_, howner⟩
    rw [← show _ = owner from congrArg Prod.fst howner]
    exact isSome_creationOwner hwritten _ _
  refine .bind hm (tells_argumentTypes hm hsense hcs hplain) fun args =>
    .bind hm howner fun owner => ?_
  cases owner with
  | none => exact .pure fun hnone _ => by cases hnone.1
  | some owner =>
    refine .ite _ (.pure fun _ _ _ => .unbound _ rfl) ?_
    have hcreated (howner : Walk.Finds st scopes m (creationOwner t cs) (some owner))
        (hresolved : ¬(!owner.isResolved) = true) : Created st scopes m t cs owner.name := by
      obtain ⟨name, status⟩ := owner
      obtain rfl : status = .resolved := by simpa [TypeName.isResolved] using hresolved
      exact howner
    refine .bind hm (.plain (.info owner.name)) fun info => .ite _ (.pure ?_)
      ((tells_bindConstructor hm (Created st scopes m t cs) (t.childOf? .classBody) owner.name).imp
        ?_)
    · intro hanonymous hinfo hresolved howner _
      obtain ⟨hbody, hinterface⟩ := (and_eq_true _ _).mp hanonymous
      cases info with
      | none => cases hinterface
      | some info =>
        exact .implementing (hcreated howner.2 hresolved) hbody hinfo.ask.info hinterface
    · intro names hnames _ _ hresolved howner hargs
      exact hargs ▸ hnames (hcreated howner.2 hresolved)

inductive Constructed (st : Setting) (m : Memory) (t : Tree) : String → Prop where
  | this {q : String}
      (hkeyword : ¬ (t.child? .constructor).any fun c => c.kind == .superKeyword)
      (h : st.frames.head? = some q) : Constructed st m t q
  | super {q current : String}
      (hkeyword : (t.child? .constructor).any fun c => c.kind == .superKeyword)
      (hcurrent : st.frames.head? = some current)
      (h : Resolve.Finds m (st.index.superclass current) (some q)) : Constructed st m t q

lemma tells_explicitCalls (hm : m.active = [])
    (hkind : t.kind = .explicitConstructorInvocation) (hsense : SenseOf st.source t cs) :
    Tells st scopes m (explicitConstructorCalls t cs) fun names => st.frames = [] ∧ names = [] ∨
      ConstructorNames st.index m (Constructed st m t) none (argumentCount t) names := by
  obtain ⟨binding, κ, ctx, hcs⟩ := hsense.sound
  have hplain : PlainParts cs := hsense.plain (hkind ▸ rfl)
  refine .bind hm (tells_argumentTypes hm hsense hcs hplain) fun args =>
    .bind hm (.plain .currentType) fun current => ?_
  cases current with
  | none => exact .pure fun hcurrent _ => .inl ⟨head?_eq_none_iff.mp hcurrent.currentType.symm, rfl⟩
  | some current =>
    refine .bind hm (.plain (.constructorOwner t current)) fun owner => ?_
    cases owner with
    | none =>
      exact .bind hm (.plain (.of (.writtenSuperclass current))) fun _ =>
        .pure fun _ _ _ _ => .inr (.unbound _ rfl)
    | some owner =>
      refine (tells_bindConstructor hm (Constructed st m t) none owner).imp
        fun names hnames hfound hcurrent hargs => .inr (hargs ▸ hnames ?_)
      have hcurrent := hcurrent.currentType.symm
      unfold constructorOwner at hfound
      split at hfound
      case isTrue hkeyword => exact .super hkeyword hcurrent hfound.ask
      case isFalse hkeyword =>
        obtain rfl := some.inj (Walk.Finds.pure_iff.mp hfound)
        exact .this hkeyword hcurrent

end

end Xref.Reference

