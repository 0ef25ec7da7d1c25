import Mathlib.Tactic.Lemma
import Xref.Resolve.Member

/-!
# Questions as dialogues

Whatever is asked about types is put together from a few steps. `Program` says so of a computation
for all indexes and all ways to answer at once, `Routine` for one index, and `Dialogue` with the
lists of supertypes taken apart. What holds of the steps then holds of every question, and no proof
about memory needs to open the rules by which names are bound.
-/
open List

namespace Xref.Resolve

open Java Text

/-- A computation for every index and every way to answer. -/
abbrev Course (α : Type) := TypeIndex → Ask → Lineage → Query α

/-- A computation that learns of types only by their names, by descriptions, by direct supertypes
and by supertypes in order. Where a type was found does not matter to it. -/
inductive Program : {α : Type} → Course α → Prop where
  | answer {α : Type} {g : TypeIndex → α}
      (hg : ∀ index index' : TypeIndex, index'.contains = index.contains → g index' = g index) :
      Program fun index _ _ => pure (g index)
  | look {α : Type} (q : String) {f : Option TypeInfo → Course α}
      (hf : ∀ info, Program (f info))
      (horigin : ∀ t origin, f (some { t with origin := origin }) = f (some t)) :
      Program fun index ask lineage => Query.info index q >>= fun info => f info index ask lineage
  | ask (q : String) : Program fun _ ask _ => ask q
  | lineage (q : String) : Program fun _ _ lineage => lineage q
  | bind {α β : Type} {x : Course α}
      {f : α → Course β} (hx : Program x) (hf : ∀ a, Program (f a)) :
      Program fun index ask lineage => x index ask lineage >>= fun a => f a index ask lineage

/-- A computation that learns of types only by descriptions, by direct supertypes and by supertypes
in order. -/
inductive Routine (index : TypeIndex) : {α : Type} → (Ask → Lineage → Query α) → Prop where
  | pure {α : Type} (a : α) : Routine index fun _ _ => pure a
  | look (q : String) : Routine index fun _ _ => Query.info index q
  | ask (q : String) : Routine index fun ask _ => ask q
  | lineage (q : String) : Routine index fun _ lineage => lineage q
  | bind {α β : Type} {x : Ask → Lineage → Query α} {f : α → Ask → Lineage → Query β}
      (hx : Routine index x) (hf : ∀ a, Routine index (f a)) :
      Routine index fun ask lineage => x ask lineage >>= fun a => f a ask lineage

/-- A computation that learns of types only by descriptions and by direct supertypes. -/
inductive Dialogue (index : TypeIndex) : {α : Type} → (Ask → Query α) → Prop where
  | pure {α : Type} (a : α) : Dialogue index fun _ => pure a
  | look (q : String) : Dialogue index fun _ => Query.info index q
  | ask (q : String) : Dialogue index fun ask => ask q
  | bind {α β : Type} {x : Ask → Query α} {f : α → Ask → Query β} (hx : Dialogue index x)
      (hf : ∀ a, Dialogue index (f a)) : Dialogue index fun ask => x ask >>= fun a => f a ask

variable {index : TypeIndex} {α : Type} {f : Course α}

lemma Program.routine (h : Program f) (index : TypeIndex) : Routine index (f index) := by
  induction h with
  | answer => exact .pure _
  | look q _ _ ih => exact .bind (.look q) ih
  | ask q => exact .ask q
  | lineage q => exact .lineage q
  | bind _ _ ihx ihf => exact .bind ihx ihf

namespace Dialogue

lemma ite {α : Type} (c : Prop) [Decidable c] {x y : Ask → Query α} (hx : Dialogue index x)
    (hy : Dialogue index y) : Dialogue index fun ask => if c then x ask else y ask := by
  by_cases h : c
  · simpa only [h, if_true] using hx
  · simpa only [h, if_false] using hy

lemma foldlM {α β : Type} {f : β → α → Ask → Query β} (hf : ∀ b a, Dialogue index (f b a))
    (l : List α) (b : β) : Dialogue index fun ask => l.foldlM (fun b a => f b a ask) b := by
  induction l generalizing b with
  | nil => exact .pure b
  | cons a l ih =>
    simp only [foldlM_cons]
    exact .bind (hf b a) ih

lemma superclassChain (n : Nat) (current : String) (order : List String) :
    Dialogue index fun ask => superclassChain ask n current order := by
  induction n generalizing current order with
  | zero => exact .pure order
  | succ n ih =>
    refine .bind (.ask current) fun s => ?_
    cases s.superclass with
    | none => exact .pure order
    | some next => exact .ite _ (.pure order) (ih next (order ++ [next]))

lemma widen (n : Nat) (layer order : List String) :
    Dialogue index fun ask => widen ask n layer order := by
  induction n generalizing layer order with
  | zero => exact .pure order
  | succ n ih =>
    refine .bind (.foldlM (fun found q => .bind (.ask q) fun s => .pure _) layer order)
      fun wider => ?_
    exact .ite _ (.pure wider) (ih (wider.drop order.length) wider)

lemma linearization (q : String) : Dialogue index fun ask => linearization index ask q :=
  .bind (.superclassChain _ q [q]) fun chain => .bind (.widen _ chain chain) fun _ => .pure _

end Dialogue

/-- A routine is a dialogue once the lists of supertypes are taken apart. -/
lemma Routine.dialogue {f : Ask → Lineage → Query α} (h : Routine index f) :
    Dialogue index fun ask => f ask (linearization index ask) := by
  induction h with
  | pure a => exact .pure a
  | look q => exact .look q
  | ask q => exact .ask q
  | lineage q => exact .linearization q
  | bind _ _ ihx ihf => exact .bind ihx ihf

lemma Program.dialogue (h : Program f) :
    Dialogue index fun ask => f index ask (linearization index ask) :=
  (h.routine index).dialogue

namespace Program

variable {α β : Type} {x : Course α} {f : α → Course (Option β)} {follow : String → Course String}

lemma pure (a : α) : Program fun _ _ _ => pure a := .answer fun _ _ _ => rfl

lemma ifKnown {c : TypeIndex → Bool}
    (hc : ∀ index index' : TypeIndex, index'.contains = index.contains → c index' = c index)
    {y : Course α} (hx : Program x) (hy : Program y) :
    Program fun index ask lineage => if c index then x index ask lineage else y index ask lineage :=
  .bind (f := fun (b : Bool) index ask lineage =>
    if b then x index ask lineage else y index ask lineage) (.answer hc)
      fun b => by cases b <;> assumption

lemma ite (c : Prop) [Decidable c] {y : Course α} (hx : Program x) (hy : Program y) :
    Program fun index ask lineage => if c then x index ask lineage else y index ask lineage := by
  by_cases h : c
  · simpa only [h, if_true] using hx
  · simpa only [h, if_false] using hy

lemma dite (c : Prop) [Decidable c] {x : c → Course α} {y : ¬c → Course α} (hx : ∀ h, Program (x h))
    (hy : ∀ h, Program (y h)) :
    Program fun index ask lineage =>
      if h : c then x h index ask lineage else y h index ask lineage := by
  by_cases h : c
  · simpa only [h, dif_pos] using hx h
  · simpa only [h, dif_neg, not_false_eq_true] using hy h

lemma map (g : α → β) (hx : Program x) :
    Program fun index ask lineage => g <$> x index ask lineage := by
  simp only [map_eq_pure_bind]
  exact .bind hx fun a => .pure (g a)

lemma firstSome (hf : ∀ a, Program (f a)) (l : List α) :
    Program fun index ask lineage => Query.firstSome (fun a => f a index ask lineage) l := by
  induction l with
  | nil => exact .pure none
  | cons a l ih =>
    refine .bind (hf a) fun found => ?_
    cases found with
    | none => exact ih
    | some b => exact .pure (some b)

lemma orElse {first second : Course (Option β)}
    (hfirst : Program first) (hsecond : Program second) :
    Program fun index ask lineage =>
      Query.orElse (first index ask lineage) (second index ask lineage) := by
  refine .bind hfirst fun found => ?_
  cases found with
  | none => exact hsecond
  | some b => exact .pure (some b)

lemma mapM {f : α → Course β} (hf : ∀ a, Program (f a)) (l : List α) :
    Program fun index ask lineage => l.mapM fun a => f a index ask lineage := by
  induction l with
  | nil => exact .pure []
  | cons a l ih =>
    simp only [mapM_cons]
    exact .bind (hf a) fun b => .bind ih fun bs => .pure (b :: bs)

lemma filterMapM (hf : ∀ a, Program (f a)) (l : List α) :
    Program fun index ask lineage => l.filterMapM fun a => f a index ask lineage := by
  induction l with
  | nil => exact .pure []
  | cons a l ih =>
    simp only [filterMapM_cons]
    refine .bind (hf a) fun found => ?_
    cases found with
    | none => exact ih
    | some b => exact .bind ih fun bs => .pure (b :: bs)

lemma foldlM {f : β → α → Course β} (hf : ∀ b a, Program (f b a)) (l : List α) (b : β) :
    Program fun index ask lineage => l.foldlM (fun b a => f b a index ask lineage) b := by
  induction l generalizing b with
  | nil => exact .pure b
  | cons a l ih =>
    simp only [foldlM_cons]
    exact .bind (hf b a) ih

lemma findMemberType (owner simple : String) :
    Program fun index _ lineage => findMemberType index lineage owner simple :=
  .bind (.lineage owner) fun _ => .answer fun _ _ h => by rw [h]

lemma walkMemberTypes (head : String) (rest : List String) :
    Program fun index _ lineage => walkMemberTypes index lineage head rest := by
  induction rest generalizing head with
  | nil => exact .pure (some head)
  | cons segment rest ih =>
    refine .bind (.findMemberType head segment) fun found => ?_
    cases found with
    | none => exact .pure none
    | some next => exact ih next

lemma resolveSegments (segments : List String) :
    Program fun index _ lineage => resolveSegments index lineage segments := by
  refine .firstSome (fun k => ?_) _
  cases segments.drop k with
  | nil => exact .pure none
  | cons simple members =>
    exact .ifKnown (fun _ _ h => by rw [h]) (.walkMemberTypes _ members) (.pure none)

lemma resolveQualified (name : String) :
    Program fun index _ lineage => resolveQualified index lineage name :=
  .resolveSegments _

lemma resolveSimple (simple : String) (ctx : Context) :
    Program fun index _ lineage => resolveSimple index lineage simple ctx := by
  have hindexed (name : String) (index index' : TypeIndex) (h : index'.contains = index.contains) :
      ifIndexed index' name = ifIndexed index name := by
    rw [ifIndexed, h, ifIndexed]
  refine .orElse (.orElse (.orElse (.orElse (.orElse ?enclosing ?single) ?static)
    (.answer (hindexed _))) ?demand) (.answer (hindexed _))
  case enclosing =>
    exact .firstSome (fun e => .ifKnown (fun _ _ h => by rw [h]) (.pure _)
      (.findMemberType e simple)) _
  case single => exact .firstSome (fun i => .ite _ (.resolveSegments _) (.pure none)) _
  case static =>
    refine .firstSome (fun i => .ite _ (.pure none) ?_) _
    cases i.qualifier with
    | none => exact .pure none
    | some qualifier =>
      refine .bind (.resolveQualified qualifier) fun found => ?_
      cases found with
      | none => exact .pure none
      | some owner => exact .findMemberType owner simple
  case demand =>
    have hdirect (i : Import) (index index' : TypeIndex) (h : index'.contains = index.contains) :
        (if i.isStatic then none else ifIndexed index' (i.name ++ "." ++ simple)) =
          if i.isStatic then none else ifIndexed index (i.name ++ "." ++ simple) := by
      rw [hindexed _ _ _ h]
    refine .firstSome (fun i => .ifKnown (fun _ _ h => congrArg Option.isSome (hdirect i _ _ h))
      (.answer (hdirect i)) ?_) _
    refine .bind (.resolveQualified i.name) fun found => ?_
    cases found with
    | none => exact .pure none
    | some owner => exact .findMemberType owner simple

lemma resolveInScope (segments : List String) (ctx : Context) :
    Program fun index _ lineage => resolveInScope index lineage segments ctx := by
  cases segments with
  | nil => exact .pure none
  | cons first rest =>
    refine .bind (.resolveSimple first ctx) fun found => ?_
    cases found with
    | none => exact .pure none
    | some head => exact .walkMemberTypes head rest

lemma resolveClassName (name : String) (ctx : Context) :
    Program fun index _ lineage => resolveClassName index lineage name ctx :=
  .orElse (.resolveInScope _ ctx) (.ite _ (.resolveSegments _) (.pure none))

lemma resolveElement (hfollow : ∀ bound, Program (follow bound)) (name : String) (ctx : Context) :
    Program fun index ask lineage =>
      resolveElement index lineage (fun b => follow b index ask lineage) name ctx := by
  refine .ite _ (.pure _) ?_
  cases ctx.typeVariable? name with
  | none => exact .resolveClassName _ ctx
  | some v =>
    obtain ⟨_, bound⟩ := v
    cases bound with
    | none => exact .map some (.pure objectName)
    | some bound => exact .map some (hfollow bound)

lemma resolveErased (hfollow : ∀ bound, Program (follow bound)) (name : String) (ctx : Context) :
    Program fun index ask lineage =>
      resolveErased index lineage (fun b => follow b index ask lineage) name ctx :=
  .ite _ (.pure none) (.bind (.resolveElement hfollow _ ctx) fun _ => .pure _)

lemma resolveTo (depth : Nat) (name : String) (ctx : Context) :
    Program fun index _ lineage => resolveTo index lineage depth name ctx := by
  induction depth generalizing name with
  | zero => exact .resolveErased (fun _ => .pure objectName) name ctx
  | succ depth ih => exact .resolveErased (fun bound => .bind (ih bound) fun _ => .pure _) name ctx

lemma resolveType (name : String) (ctx : Context) :
    Program fun index _ lineage => resolveType index lineage name ctx :=
  .resolveTo boundDepth name ctx

lemma recoverName {lead : String → Course (Option String)} (text : String)
    (imports : List Import) (hlead : ∀ first, Program (lead first)) :
    Program fun index ask lineage =>
      recoverName text imports fun first => lead first index ask lineage := by
  simp only [Resolve.recoverName]
  cases cutFirst '.' (trim text) with
  | none => cases imports.find? _ <;> exact .pure _
  | some cut =>
    refine .bind (hlead cut.1) fun found => ?_
    cases found with
    | some known => exact .pure _
    | none => cases imports.find? _ <;> exact .pure _

lemma resolveOrRecover (text : String) (ctx : Context) :
    Program fun index _ lineage => resolveOrRecover index lineage text ctx := by
  refine .bind (.resolveType text ctx) fun found => ?_
  cases found with
  | some name => exact .pure _
  | none =>
    exact .bind (.recoverName _ ctx.imports fun first => .resolveType first ctx) fun _ => .pure _

lemma typeNameOf (ref : TypeRef) : Program fun index _ lineage => typeNameOf index lineage ref := by
  cases ref with
  | qualified name => exact .pure _
  | written text ctx => exact .resolveOrRecover text ctx

lemma supertypeOf (self : String) (ref : TypeRef) :
    Program fun index _ lineage => supertypeOf index lineage self ref :=
  .bind (.typeNameOf ref) fun _ => .pure _

lemma superclassOf (info : TypeInfo) :
    Program fun index _ lineage => superclassOf index lineage info := by
  refine .ite _ (.pure none) ?_
  cases info.superclass with
  | none => exact .answer fun _ _ h => by simp only [implicitSuperclass, h]
  | some ref => exact .supertypeOf info.name ref

lemma describeSupertypes (q : String) (info : TypeInfo) :
    Program fun index _ lineage => describeSupertypes index lineage q info :=
  .bind (.superclassOf info) fun _ => .bind (.filterMapM (.supertypeOf q) _) fun _ => .pure _

lemma findSupertypes (q : String) :
    Program fun index _ lineage => findSupertypes index lineage q := by
  refine .look q (fun info => ?_) fun _ _ => rfl
  cases info with
  | none => exact .pure _
  | some info => exact .describeSupertypes q info

lemma isAssignable (source target : String) :
    Program fun _ _ lineage => isAssignable lineage source target := by
  induction h : assignableRank source target using Nat.strongRecOn generalizing source target with
  | ind rank ih =>
    subst h
    unfold Resolve.isAssignable
    refine .ite _ (.pure _) (.ite _ (.pure _) (.dite _ (fun hs => ?fromPrimitive) fun hs => ?other))
    case fromPrimitive =>
      refine .dite _ (fun _ => .pure _) fun ht => ?_
      split
      · next box hb => exact ih _ (assignableRank_box hs ht hb) box target rfl
      · exact .pure _
    case other =>
      refine .dite _ (fun ht => ?toPrimitive) fun ht => .ite _ (.pure _) (.dite _ (fun hd => ?array)
        fun _ => .ite _ (.pure _) (.bind (.lineage source) fun _ => .pure _))
      case toPrimitive =>
        split
        · next primitive hu => exact ih _ (assignableRank_unbox hs ht hu) primitive target rfl
        · exact .pure _
      case array =>
        refine .ite _ (.pure _) (.ite _ (.dite _ (fun _ => .pure _) fun he => ?_) (.pure _))
        exact ih _ (assignableRank_element _ hs ht hd he) _ _ rfl

lemma findField (owner name : String) :
    Program fun index _ lineage => findField index lineage owner name := by
  refine .bind (.lineage owner) fun order => .firstSome (fun t => ?_) order
  refine .look t (fun info => ?_) fun _ _ => rfl
  cases info.bind fun info => info.field? name with
  | none => exact .pure none
  | some field => exact .bind (.typeNameOf field.type) fun _ => .pure _

lemma candidate (info : TypeInfo) (method : MethodInfo) :
    Program fun index _ lineage => candidate index lineage info method := by
  refine .bind (.mapM (fun p => .bind (.typeNameOf p) fun _ => .pure _) _) fun params => ?_
  cases method.returnType with
  | none => exact .bind (.pure none) fun _ => .pure _
  | some ref => exact .bind (.typeNameOf ref) fun _ => .bind (.pure _) fun _ => .pure _

lemma findMethods (owner name : String) :
    Program fun index _ lineage => findMethods index lineage owner name := by
  refine .bind (.lineage owner) fun order =>
    .foldlM (fun found t => .look t (fun info => ?_) fun _ _ => rfl) order []
  cases info with
  | none => exact .pure found
  | some info => exact .foldlM (fun found m => .bind (.candidate info m) fun _ => .pure _) _ found

lemma constructors (owner : String) :
    Program fun index _ lineage => constructors index lineage owner := by
  refine .look owner (fun info => ?_) fun _ _ => rfl
  cases info with
  | none => exact .pure []
  | some info => exact .mapM (.candidate info) _

lemma implementedMethod (implementation : Candidate) :
    Program fun index _ lineage => implementedMethod index lineage implementation := by
  refine .ite _ (.pure none) (.bind (.lineage _) fun order => .firstSome (fun t => ?_) order)
  refine .look t (fun info => ?_) fun _ _ => rfl
  cases info with
  | none => exact .pure none
  | some info =>
    exact .ite _ (.pure none) (.firstSome (fun m => .bind (.candidate info m) fun _ => .pure _) _)

end Program

end Xref.Resolve
