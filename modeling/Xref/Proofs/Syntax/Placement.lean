import Mathlib.Order.Nat
import Xref.Proofs.Syntax.Twin
import Xref.Proofs.Text.Slices

/-!
# Where trees stand

The children of a node stand in a row inside of it. The declaration of a type begins with a leaf, or
with modifiers, which begin with a leaf or with an annotation, so no two declarations begin at the
same byte. Grouping a chain of operators does not change the order of its trees.
-/
open List Option Bool

namespace Xref.Syntax

open Text

variable {source : List Char} {r : Range} {text : String}

/-- Declarations of types and bodies of classes, which are known by where they begin. -/
def Kind.isHeaded (k : Kind) : Bool := k.isTypeDeclaration || k == .classBody

/-- What begins with a leaf, or with something that does. -/
def Kind.isLed (k : Kind) : Bool := k.isHeaded || k == .stringLiteral

def Inked (source : List Char) (r : Range) : Prop :=
  ∃ before c after, source = before ++ c :: after ∧ byteLength before = r.start ∧
    r.start + c.utf8Size ≤ r.stop ∧ isBlank c = false

lemma Inked.mono {r' : Range} (h : Inked source r)
    (hstart : r'.start = r.start) (hstop : r.stop ≤ r'.stop) : Inked source r' := by
  obtain ⟨before, c, after, hsource, hbefore, hsize, hink⟩ := h
  exact ⟨before, c, after, hsource, hbefore.trans hstart.symm, by omega, hink⟩

lemma Inked.lt (h : Inked source r) : r.start < r.stop := by
  obtain ⟨_, c, _, _, _, hsize, _⟩ := h
  have hpos := c.utf8Size_pos
  omega

def Spells (source : List Char) (n : Nat) (text : String) : Prop :=
  ∃ before after, source = before ++ text.toList ++ after ∧ byteLength before = n

structure Spans (source : List Char) (r : Range) (text : String) : Prop where
  spells : Spells source r.start text
  size : r.stop = r.start + text.utf8ByteSize

lemma Spans.of_append {rest : String} (h : Spans source r (text ++ rest)) :
    Spans source ⟨r.start + text.utf8ByteSize, r.stop⟩ rest := by
  obtain ⟨⟨before, after, hsource, hbefore⟩, hsize⟩ := h
  refine ⟨⟨before ++ text.toList, after, ?_, ?_⟩, ?_⟩
  · rw [hsource, String.toList_append]
    simp only [append_assoc]
  · rw [byteLength_append, hbefore, ← utf8ByteSize_ofList, String.ofList_toList]
  · rw [hsize, String.utf8ByteSize_append, Nat.add_assoc]

lemma utf8Size_le_of_head {s : String} {c : Char} (hc : s.toList.head? = some c) :
    c.utf8Size ≤ s.utf8ByteSize := by
  obtain ⟨rest, hrest⟩ := head?_eq_some_iff.mp hc
  rw [← String.ofList_toList (s := s), hrest, utf8ByteSize_ofList, byteLength_cons]
  exact Nat.le_add_right _ _

section

variable (h : Spans source r text) {c : Char}
include h

lemma Spans.slice_eq : slice r.start r.stop source = text.toList := by
  obtain ⟨⟨before, after, rfl, hbefore⟩, hsize⟩ := h
  rw [hsize, ← hbefore, ← String.ofList_toList (s := text), utf8ByteSize_ofList,
    String.toList_ofList, append_assoc, ← Nat.add_zero (byteLength before), Nat.add_assoc,
    Nat.zero_add, slice_append_add, slice_append_of_le (Nat.le_refl _), slice_all]

lemma Spans.inked (hc : text.toList.head? = some c) (hink : isBlank c = false) {stop : Nat}
    (hstop : r.start + c.utf8Size ≤ stop) : Inked source ⟨r.start, stop⟩ := by
  obtain ⟨⟨before, after, hsource, hbefore⟩, hsize⟩ := h
  obtain ⟨rest, hrest⟩ := head?_eq_some_iff.mp hc
  refine ⟨before, c, rest ++ after, ?_, hbefore, hstop, hink⟩
  rw [hsource, hrest, append_assoc, cons_append]

lemma Spans.inked_of_head (hc : text.toList.head? = some c) (hink : isBlank c = false) :
    Inked source r := by
  have hsize := utf8Size_le_of_head hc
  exact h.inked hc hink (by rw [h.size]; omega)

lemma Spans.stop_le : r.stop ≤ byteLength source := by
  obtain ⟨⟨before, after, hsource, hbefore⟩, hsize⟩ := h
  rw [hsize, hsource, byteLength_append, byteLength_append, hbefore,
    ← utf8ByteSize_ofList text.toList, String.ofList_toList]
  exact Nat.le_add_right _ _

end

def Angled (source : List Char) (r : Range) : Prop :=
  ∃ before after, source = before ++ '>' :: after ∧ byteLength before + 1 = r.stop

lemma Angled.slice_eq (h : Angled source r)
    (hlt : r.start < r.stop) : ∃ cs, slice r.start r.stop source = cs ++ ['>'] := by
  obtain ⟨before, after, rfl, hstop⟩ := h
  have hsize : byteLength (before ++ ['>']) = r.stop := by
    rw [byteLength_append, ← hstop]
    rfl
  have hall := slice_all (before ++ ['>'])
  refine ⟨before.drop (charsWithin r.start before), ?_⟩
  rw [append_cons, slice_append_of_le hsize.ge]
  rw [hsize, slice, charsWithin_zero, drop_zero, Nat.sub_zero] at hall
  have hlength := congrArg List.length hall
  rw [length_take] at hlength
  have hfirst := length_charsWithin_le r.start before
  have hstart : charsWithin r.start (before ++ ['>']) = charsWithin r.start before :=
    charsWithin_append_of_le (by omega) _
  rw [slice, hstart, drop_append_of_le_length hfirst, take_of_length_le]
  rw [length_append, length_drop]
  rw [length_append] at hlength
  omega

/-- What the source has where a node stands: nothing that is white space inside a word, and `>` at
the end of a generic type. -/
structure Outlined (source : List Char) (kind : Kind) (range : Range) : Prop where
  solid : kind.isSolid → ∃ text, isSolid text ∧ Spans source range text
  angled : kind = .genericType → Angled source range

lemma Outlined.of_loose (source : List Char) {kind : Kind} (range : Range)
    (h : kind.isSolid = false) (hkind : kind ≠ .genericType) : Outlined source kind range where
  solid hsolid := by
    rw [h] at hsolid
    cases hsolid
  angled hgeneric := absurd hgeneric hkind

/-- What a declaration can begin with besides leaves. -/
def Kind.isLead (k : Kind) : Bool :=
  List.contains [.modifiers, .annotationUse, .annotationMarker] k

namespace Tree

inductive Row : Nat → List Tree → Nat → Prop where
  | nil {lo hi : Nat} (h : lo ≤ hi) : Row lo [] hi
  | cons {lo hi : Nat} {t : Tree} {ts : List Tree} (hstart : lo ≤ t.start)
      (hrange : t.start ≤ t.stop) (hrest : Row t.stop ts hi) : Row lo (t :: ts) hi

/-- On the way down along the first children there are modifiers and annotations only, and then a
leaf that is not empty and not a piece of a string. -/
inductive Leafy : Tree → Prop where
  | leaf (role : Option Role) {kind : Kind} {range : Range} (text : String)
      (hkind : kind.isFragment = false) (h : range.start < range.stop) :
      Leafy (leaf role kind range text)
  | node (role : Option Role) {kind : Kind} (range : Range) {c : Tree} {cs : List Tree}
      (hkind : kind.isLead) (h : Leafy c) : Leafy (node role kind range (c :: cs))

/-- Children stand in a row inside their parents, which begin where the first child does.
Declarations and strings begin with something leafy, increments have an operand and a mark, nothing
is empty, and there are no comments. Leaves begin with ink unless they are pieces of strings, and
the texts of identifiers are those of the source. -/
inductive Placed (source : List Char) : Tree → Prop where
  | leaf (role : Option Role) {kind : Kind} {range : Range} {text : String}
      (hproper : range.start < range.stop) (hkind : kind.isComment = false)
      (hhead : kind.isHeaded = false) (hinked : kind.isFragment = false → Inked source range)
      (hspans : kind = .identifier → Spans source range text) :
      Placed source (leaf role kind range text)
  | node (role : Option Role) {kind : Kind} {range : Range} {cs : List Tree}
      (hfirst : cs.head?.map start = some range.start) (hkind : kind.isComment = false)
      (hparts : ∀ c ∈ cs, Placed source c) (hrow : Row range.start cs range.stop)
      (hhead : kind.isLed → ∃ c rest, cs = c :: rest ∧ Leafy c)
      (hpair : kind = .updateExpression → 2 ≤ cs.length)
      (houtline : Outlined source kind range) : Placed source (node role kind range cs)

structure Laid (source : List Char) (lo : Nat) (ts : List Tree) (hi : Nat) : Prop where
  row : Row lo ts hi
  placed : ∀ t ∈ ts, t.Placed source

variable {lo mid hi : Nat} {t : Tree} {ts xs ys : List Tree}

namespace Row

lemma le (h : Row lo ts hi) : lo ≤ hi := by
  induction h with
  | nil h => exact h
  | cons hstart hrange _ ih => exact hstart.trans (hrange.trans ih)

lemma mono (h : Row lo ts hi) {lo' hi' : Nat} (hlo : lo' ≤ lo) (hhi : hi ≤ hi') :
    Row lo' ts hi' := by
  induction h generalizing lo' with
  | nil h => exact .nil (hlo.trans (h.trans hhi))
  | cons hstart hrange _ ih => exact .cons (hlo.trans hstart) hrange (ih le_rfl hhi)

lemma append (h : Row lo xs mid) (h' : Row mid ys hi) : Row lo (xs ++ ys) hi := by
  induction h with
  | nil h => exact h'.mono h le_rfl
  | cons hstart hrange _ ih => exact .cons hstart hrange (ih h')

lemma split (h : Row lo (xs ++ ys) hi) : ∃ mid, Row lo xs mid ∧ Row mid ys hi := by
  induction xs generalizing lo with
  | nil => exact ⟨lo, .nil le_rfl, h⟩
  | cons t xs ih =>
    cases h with
    | cons hstart hrange hrest =>
      obtain ⟨mid, hxs, hys⟩ := ih hrest
      exact ⟨mid, .cons hstart hrange hxs, hys⟩

lemma sublist (h : Row lo ts hi) (hsub : xs.Sublist ts) : Row lo xs hi := by
  induction hsub generalizing lo with
  | slnil => exact h
  | cons t _ ih =>
    cases h with
    | cons hstart hrange hrest => exact (ih hrest).mono (hstart.trans hrange) le_rfl
  | cons_cons t _ ih =>
    cases h with
    | cons hstart hrange hrest => exact .cons hstart hrange (ih hrest)

lemma of_mem (h : Row lo ts hi) (ht : t ∈ ts) : lo ≤ t.start ∧ t.start ≤ t.stop ∧ t.stop ≤ hi := by
  have hrow := h.sublist (singleton_sublist.mpr ht)
  cases hrow with
  | cons hstart hrange hrest => exact ⟨hstart, hrange, hrest.le⟩

lemma of_range {f : Tree → Tree} (hf : ∀ t, (f t).range = t.range) (h : Row lo ts hi) :
    Row lo (ts.map f) hi := by
  induction h with
  | nil h => exact .nil h
  | @cons _ _ t ts hstart hrange _ ih =>
    have hsame := hf t
    refine .cons ?_ ?_ ?_ <;> simp only [start, stop, hsame]
    · exact hstart
    · exact hrange
    · exact ih

lemma ends (h : Row lo ts hi) (hne : ts ≠ []) :
    Row ((ts.head?.map start).getD 0) ts ((ts.getLast?.map stop).getD 0) ∧
      lo ≤ (ts.head?.map start).getD 0 ∧ (ts.getLast?.map stop).getD 0 ≤ hi := by
  obtain ⟨last, hlast⟩ : ∃ last, ts.getLast? = some last := ⟨_, getLast?_eq_some_getLast hne⟩
  obtain ⟨before, rfl⟩ := getLast?_eq_some_iff.mp hlast
  obtain ⟨mid, hbefore, hend⟩ := h.split
  cases hend with
  | cons hstart hrange hrest =>
    have hrow := hbefore.append (.cons hstart hrange (.nil le_rfl))
    rw [hlast]
    refine ⟨?_, ?_, hrest.le⟩
    · cases before with
      | nil => exact .cons le_rfl hrange (.nil le_rfl)
      | cons first before =>
        cases hrow with
        | cons _ hrange hrest => exact .cons le_rfl hrange hrest
    · cases before with
      | nil => exact hbefore.le.trans hstart
      | cons first before =>
        cases hrow with
        | cons hstart _ _ => exact hstart

end Row

lemma exists_cons_of_first {n : Nat} (h : ts.head?.map start = some n) :
    ∃ c rest, ts = c :: rest := by
  cases ts with
  | nil => cases h
  | cons c rest => exact ⟨c, rest, rfl⟩

lemma range_withRole (r : Option Role) : (t.withRole r).range = t.range := by cases t <;> rfl

lemma Leafy.withRole (h : t.Leafy) (r : Option Role) : (t.withRole r).Leafy := by
  cases h with
  | leaf _ text hkind h => exact .leaf r text hkind h
  | node _ range hkind h => exact .node r range hkind h

namespace Placed

section

variable (h : t.Placed source)
include h

lemma withRole (r : Option Role) : (t.withRole r).Placed source := by
  cases h with
  | leaf _ hproper hkind hhead hinked hspans => exact .leaf r hproper hkind hhead hinked hspans
  | node _ hfirst hkind hparts hrow hhead hpair houtline =>
    exact .node r hfirst hkind hparts hrow hhead hpair houtline

lemma kind : t.kind.isComment = false := by
  cases h with
  | leaf _ _ hkind | node _ _ hkind => exact hkind

lemma parts : ∀ c ∈ t.children, c.Placed source := by
  cases h with
  | leaf => exact fun c hc => by cases hc
  | node _ _ _ hparts => exact hparts

lemma row : Row t.start t.children t.stop := by
  cases h with
  | leaf _ hproper => exact .nil hproper.le
  | node _ _ _ _ hrow => exact hrow

lemma proper : t.start < t.stop := by
  induction h with
  | leaf _ hproper => exact hproper
  | node _ hfirst _ _ hrow _ _ _ ih =>
    obtain ⟨c, rest, rfl⟩ := exists_cons_of_first hfirst
    cases hrow with
    | cons hstart _ hrest => exact hstart.trans_lt ((ih c mem_cons_self).trans_le hrest.le)

end

end Placed

namespace Laid

lemma nil (h : lo ≤ hi) : Laid source lo [] hi := ⟨.nil h, fun t ht => by cases ht⟩

lemma append (h : Laid source lo xs mid) (h' : Laid source mid ys hi) :
    Laid source lo (xs ++ ys) hi :=
  ⟨h.row.append h'.row, forall_mem_append.mpr ⟨h.placed, h'.placed⟩⟩

lemma split (xs : List Tree) (h : Laid source lo (xs ++ ys) hi) :
    ∃ mid, Laid source lo xs mid ∧ Laid source mid ys hi := by
  obtain ⟨hxs, hys⟩ := forall_mem_append.mp h.placed
  obtain ⟨mid, hrow, hrow'⟩ := h.row.split
  exact ⟨mid, ⟨hrow, hxs⟩, hrow', hys⟩

lemma uncons (h : Laid source lo (t :: ts) hi) :
    ∃ mid, Laid source lo [t] mid ∧ Laid source mid ts hi :=
  split [t] h

section

variable (h : Laid source lo ts hi)
include h

lemma mono {lo' hi' : Nat} (hlo : lo' ≤ lo) (hhi : hi ≤ hi') : Laid source lo' ts hi' :=
  ⟨h.row.mono hlo hhi, h.placed⟩

lemma sublist (hsub : xs.Sublist ts) : Laid source lo xs hi :=
  ⟨h.row.sublist hsub, fun t ht => h.placed t (hsub.subset ht)⟩

lemma roles (r : Option Role) : Laid source lo (ts.map (withRole r)) hi := by
  refine ⟨h.row.of_range fun t => range_withRole r, fun t ht => ?_⟩
  obtain ⟨c, hc, rfl⟩ := List.mem_map.mp ht
  exact (h.placed c hc).withRole r

lemma inNode (hne : ts ≠ []) (role : Option Role) {kind : Kind}
    (hkind : kind.isComment = false) (hhead : kind.isLed → ∃ c rest, ts = c :: rest ∧ Leafy c)
    (hpair : kind = .updateExpression → 2 ≤ ts.length)
    (houtline : Outlined source kind (Tree.inNode role kind ts).range) :
    Laid source lo [inNode role kind ts] hi := by
  obtain ⟨hrow, hlo, hhi⟩ := h.row.ends hne
  have hfirst : ts.head?.map start = some ((ts.head?.map start).getD 0) := by
    obtain ⟨c, rest, rfl⟩ := exists_cons_of_ne_nil hne
    rfl
  exact ⟨.cons hlo hrow.le (.nil hhi),
    forall_mem_singleton.mpr (.node role hfirst hkind h.placed hrow hhead hpair houtline)⟩

lemma inPlain (role : Option Role) (kind : Kind)
    (hkind : kind.isComment = false) (hhead : kind.isLed = false) (hpair : 2 ≤ ts.length)
    (hsolid : kind.isSolid = false := by rfl) (hgeneric : kind ≠ .genericType := by decide) :
    Laid source lo [Tree.inNode role kind ts] hi :=
  h.inNode (by rintro rfl; cases hpair) role hkind (fun h => by rw [hhead] at h; cases h)
    (fun _ => hpair) (.of_loose source _ hsolid hgeneric)

end

lemma withRole (h : Laid source lo [t] hi) (r : Option Role) : Laid source lo [t.withRole r] hi :=
  h.roles r

lemma inRole (h : Laid source lo [t] hi) (r : Role) : Laid source lo [t.inRole r] hi :=
  h.roles (some r)

lemma expand (h : Laid source lo [t] hi) : Laid source lo t.children hi := by
  obtain ⟨hstart, hrange, hstop⟩ := h.row.of_mem mem_cons_self
  have hplaced := h.placed t mem_cons_self
  exact ⟨hplaced.row.mono hstart hstop, hplaced.parts⟩

end Laid

variable {left right : Tree} {comments : List Tree} {pending : List (Tree × Tree)}

def flat (pairs : List (Tree × Tree)) : List Tree := pairs.flatMap fun p => [p.1, p.2]

lemma flat_append (ps qs : List (Tree × Tree)) : flat (ps ++ qs) = flat ps ++ flat qs :=
  flatMap_append

lemma laid_binary {op : Tree} (h : Laid source lo [left, op, right] hi) :
    Laid source lo [binary left op right] hi := by
  have hroles : Laid source lo [left.inRole .left, op.inRole .operator, right.inRole .right]
    hi := by
    obtain ⟨mid, hleft, h⟩ := h.uncons
    obtain ⟨mid', hop, hright⟩ := h.uncons
    exact (hleft.inRole _).append ((hop.inRole _).append (hright.inRole _))
  have hnode := hroles.inPlain none .binaryExpression rfl rfl (by simp)
  simpa [Tree.inNode, binary, start, stop, Tree.inRole, range_withRole] using hnode

lemma laid_instanceTest {test : Tree} (h : Laid source lo [left, test] hi) :
    Laid source lo [instanceTest left test] hi := by
  obtain ⟨mid, hleft, htest⟩ := h.uncons
  obtain ⟨hstart, hrange, hstop⟩ := hleft.row.of_mem mem_cons_self
  obtain ⟨hstart', hrange', hstop'⟩ := htest.row.of_mem mem_cons_self
  have hplaced := htest.placed test mem_cons_self
  have hfirst : left.stop ≤ test.start := hstop.trans hstart'
  have hrow : Row left.start (left.inRole .left :: test.children) test.stop := by
    refine .cons ?_ ?_ ?_ <;> simp only [start, stop, Tree.inRole, range_withRole]
    · exact le_rfl
    · exact hrange
    · exact hplaced.row.mono hfirst le_rfl
  refine ⟨.cons hstart (hrange.trans (hfirst.trans hrange')) (.nil hstop'), ?_⟩
  have hbegin : (left.inRole .left :: test.children).head?.map start = some left.start := by
    simp only [head?_cons, map_some, start, Tree.inRole, range_withRole]
  refine forall_mem_singleton.mpr (.node none hbegin rfl ?_ hrow nofun nofun
    (.of_loose source _ rfl nofun))
  exact forall_mem_cons.mpr ⟨(hleft.placed left mem_cons_self).withRole _, hplaced.parts⟩

lemma laid_closeOperators (level : Nat) (h : Laid source lo (flat pending.reverse ++ [right]) hi) :
    Laid source lo (flat (closeOperators level pending right).1.reverse ++
      [(closeOperators level pending right).2]) hi := by
  induction pending generalizing right with
  | nil => exact h
  | cons pair pending ih =>
    obtain ⟨left, op⟩ := pair
    unfold closeOperators
    split
    · refine ih ?_
      rw [reverse_cons, flat_append, append_assoc] at h
      obtain ⟨mid, hbefore, h⟩ := h.split _
      exact hbefore.append (laid_binary h)
    · exact h

lemma laid_groupFrom {current : Tree}
    (h : Laid source lo (flat pending.reverse ++ current :: ts) hi) :
    Laid source lo [groupFrom pending current ts] hi := by
  fun_induction groupFrom pending current ts with
  | case1 pending current => exact (laid_closeOperators 0 h).sublist (sublist_append_right _ _)
  | case2 pending current test rest hkind pending' left hclose ih =>
    refine ih ?_
    obtain ⟨mid, hbefore, hrest⟩ := Laid.split (flat pending.reverse ++ [current]) (by
      rw [append_assoc]; exact h)
    have hclosed := laid_closeOperators (precedence "instanceof") hbefore
    rw [hclose] at hclosed
    obtain ⟨mid', htest, hrest⟩ := hrest.uncons
    obtain ⟨mid'', hpending, hleft⟩ := hclosed.split _
    exact hpending.append ((laid_instanceTest (hleft.append htest)).append hrest)
  | case3 pending current mark rest _ _ ih =>
    refine ih ?_
    obtain ⟨mid, hbefore, hrest⟩ := h.split _
    obtain ⟨mid', hnode, hrest⟩ := Laid.split [current, mark] hrest
    have hnode := hnode.inPlain none .updateExpression rfl rfl (by simp)
    exact hbefore.append (hnode.append hrest)
  | case4 pending current op =>
    have hdrop : Laid source lo (flat pending.reverse ++ [current]) hi :=
      h.sublist ((List.Sublist.refl _).append (by simp))
    exact (laid_closeOperators 0 hdrop).sublist (sublist_append_right _ _)
  | case5 pending current op _ _ operand rest pending' left hclose ih =>
    refine ih ?_
    obtain ⟨mid, hbefore, hrest⟩ := Laid.split (flat pending.reverse ++ [current]) (by
      rw [append_assoc]; exact h)
    have hclosed := laid_closeOperators (precedence op.mark) hbefore
    rw [hclose] at hclosed
    have hwhole := hclosed.append hrest
    rw [reverse_cons, flat_append]
    simpa [flat] using hwhole

lemma laid_nameParts {parts : List Tree} (hparts : t.nameParts = some parts)
    (h : Laid source lo [t] hi) :
    Laid source lo parts hi ∧ ∀ p ∈ parts, p.kind.isFragment = false := by
  induction t using Tree.induction generalizing parts lo hi
  next t ih =>
  unfold nameParts at hparts
  rw [fold_eq] at hparts
  split at hparts
  case h_5 =>
    obtain ⟨lists, hlists, rfl⟩ := map_eq_some_iff.mp hparts
    have hchildren := h.expand
    clear h hparts
    -- the parts of each child stand in its place
    generalize t.children = cs at ih hlists hchildren
    induction cs generalizing lo lists with
    | nil =>
      simp only [map_nil, mapM_nil, Option.pure_def, some.injEq] at hlists
      subst hlists
      exact ⟨hchildren, nofun⟩
    | cons c cs ihs =>
      simp only [map_cons, mapM_cons, bind_eq_bind, bind_eq_some_iff,
        Option.pure_def, some.injEq] at hlists
      obtain ⟨first, hfirst, rest, hrest, rfl⟩ := hlists
      obtain ⟨mid, hc, hcs⟩ := hchildren.uncons
      obtain ⟨hlaid, hkinds⟩ := ih c mem_cons_self hfirst hc
      obtain ⟨hlaid', hkinds'⟩ := ihs rest (fun c hc => ih c (mem_cons_of_mem _ hc)) hrest hcs
      exact ⟨hlaid.append hlaid', forall_mem_append.mpr ⟨hkinds, hkinds'⟩⟩
  case h_6 => cases hparts
  all_goals next hkind =>
    obtain rfl := some.inj hparts
    exact ⟨h, forall_mem_singleton.mpr (hkind ▸ rfl)⟩

lemma laid_asTypeName (h : Laid source lo [t] hi) (hkind : t.kind.isFragment = false) :
    Laid source lo [t.asTypeName] hi := by
  cases t with
  | leaf role kind range text =>
    obtain ⟨hstart, hrange, hstop⟩ := h.row.of_mem mem_cons_self
    refine ⟨.cons hstart hrange (.nil hstop), forall_mem_singleton.mpr ?_⟩
    cases h.placed _ mem_cons_self with
    | leaf _ hproper _ _ hinked => exact .leaf role hproper rfl rfl (fun _ => hinked hkind) nofun
  | node role kind range cs => exact h

lemma laid_scopedType {parts : List Tree} (h : Laid source lo (t :: parts) hi)
    (hkinds : ∀ p ∈ parts, p.kind.isFragment = false) : Laid source lo [scopedType t parts] hi := by
  fun_induction scopedType t parts with
  | case1 t dot name rest inner ih =>
    obtain ⟨_, hkind, hkinds⟩ := by simpa using hkinds
    refine ih ?_ hkinds
    obtain ⟨mid, hhead, hrest⟩ := Laid.split [t, dot, name] h
    obtain ⟨mid', hbefore, hname⟩ := Laid.split [t, dot] hhead
    have hwhole := hbefore.append ((laid_asTypeName hname hkind).withRole none)
    have hnode := hwhole.inPlain none .scopedTypeIdentifier rfl rfl (by simp)
    have hstop : inner.stop = name.stop := by
      simp only [inner, stop, range_withRole]
      cases name <;> rfl
    have hsame : Tree.inNode none .scopedTypeIdentifier ([t, dot] ++ [inner]) =
        node none .scopedTypeIdentifier ⟨t.start, name.stop⟩ [t, dot, inner] := by
      simp [Tree.inNode, hstop]
    rw [hsame] at hnode
    exact hnode.append hrest
  | case2 t => exact h.sublist (by simp)

lemma laid_typeNamed {type : Tree} (htype : t.typeNamed? = some type) (h : Laid source lo [t] hi) :
    Laid source lo [type] hi := by
  unfold typeNamed? at htype
  split at htype
  case h_1 role range text rest hparts =>
    obtain ⟨hlaid, hkinds⟩ := laid_nameParts hparts h
    split at htype
    · cases htype
    · obtain rfl := some.inj htype
      obtain ⟨mid, hfirst, hrest⟩ := hlaid.uncons
      obtain ⟨hkind, hkinds⟩ := forall_mem_cons.mp hkinds
      exact laid_scopedType (((laid_asTypeName hfirst hkind).withRole none).append hrest) hkinds
  case h_2 => cases htype

lemma pair_of_update (h : t.Placed source) (hkind : t.kind = .updateExpression)
    (hne : t.children ≠ []) : 2 ≤ t.children.length := by
  cases h with
  | leaf => exact absurd rfl hne
  | node _ _ _ _ _ _ hpair _ => exact hpair hkind

lemma sublist_of_incremented {c mark : Tree} (h : t.Placed source) (hincremented : t.isIncremented)
    (hc : t.children.head? = some c) (hmark : t.children.getLast? = some mark) :
    [c, mark].Sublist t.children := by
  have hkind := eq_of_beq ((and_eq_true _ _).mp hincremented).1
  have hlength := pair_of_update h hkind (ne_nil_of_mem (mem_of_mem_head? hc))
  generalize t.children = cs at hc hmark hlength
  match cs with
  | first :: second :: rest =>
    obtain rfl : first = c := some.inj hc
    rw [getLast?_cons_cons] at hmark
    exact .cons_cons _ (singleton_sublist.mpr (mem_of_getLast? hmark))

lemma laid_castAtEnd {finish : Tree → Tree}
    (hfinish : ∀ {lo v}, Laid source lo [v] mid → Laid source lo [finish v] hi)
    {build : Tree → Tree}
    (hbuild : t.castAtEnd? finish = some build) {v : Tree} (h : Laid source lo [t, v] mid) :
    Laid source lo [build v] hi := by
  induction t using Tree.induction generalizing build lo v
  next t ih =>
  obtain ⟨middle, ht, hv⟩ := h.uncons
  have hexpand := ht.expand.append hv
  unfold castAtEnd? at hbuild
  rw [fold_eq] at hbuild
  split at hbuild
  case isTrue hincremented =>
    simp only [head?_map, bind_eq_bind, bind_eq_some_iff,
      map_eq_some_iff, Option.pure_def, some.injEq] at hbuild
    obtain ⟨build', ⟨pair, ⟨c, hc, rfl⟩, hbuild'⟩, mark, hmark, rfl⟩ := hbuild
    have hsub := sublist_of_incremented (ht.placed t mem_cons_self) hincremented hc hmark
    obtain ⟨middle', hfirst, hrest⟩ :=
      (hexpand.sublist (hsub.append (List.Sublist.refl [v]))).uncons
    have hvalue := hrest.inPlain none .updateExpression rfl rfl (by simp)
    exact (ih c (mem_of_mem_head? hc) hbuild' (hfirst.append hvalue)).withRole _
  case isFalse =>
    split at hbuild
    case isTrue hprefixed =>
      simp only [getLast?_map, bind_eq_bind, bind_eq_some_iff,
        map_eq_some_iff, Option.pure_def, some.injEq] at hbuild
      obtain ⟨build', ⟨pair, ⟨c, hc, rfl⟩, hbuild'⟩, rfl⟩ := hbuild
      have hkind : t.kind.isComment = false ∧ t.kind.isLed = false ∧ t.kind.isSolid = false ∧
          t.kind ≠ .genericType := by
        rcases kind_of_prefixed hprefixed with hkind | hkind | hkind <;> rw [hkind] <;>
          exact ⟨rfl, rfl, rfl, by decide⟩
      obtain ⟨before, hcs⟩ := getLast?_eq_some_iff.mp hc
      rw [hcs, append_assoc] at hexpand
      obtain ⟨middle', hbefore, hlast⟩ := hexpand.split _
      have hbuilt := ih c (mem_of_getLast? hc) hbuild' hlast
      rw [hcs, dropLast_concat]
      refine (hbefore.append hbuilt).inNode (by simp) t.role hkind.1
        (fun h => by rw [hkind.2.1] at h; cases h) (fun hupdate => ?_)
        (.of_loose source _ hkind.2.2.1 hkind.2.2.2)
      have hlength := pair_of_update (ht.placed t mem_cons_self) hupdate (by simp [hcs])
      simpa [hcs] using hlength
    case isFalse =>
      split at hbuild
      case h_1 role _ opening inner closing _ _ =>
        obtain ⟨type, htype, rfl⟩ := map_eq_some_iff.mp hbuild
        obtain ⟨a, hopening, hrest⟩ := hexpand.uncons
        obtain ⟨b, hinner, hrest⟩ := hrest.uncons
        obtain ⟨c, hclosing, hvalue⟩ := hrest.uncons
        have htype := (laid_typeNamed htype hinner).inRole .type
        have hvalue := (hfinish hvalue).inRole .value
        exact (hopening.append (htype.append (hclosing.append hvalue))).inPlain role _ rfl rfl
          (by simp)
      case h_2 => cases hbuild

lemma laid_splitIncrements (h : Laid source lo [t] hi) :
    ∃ mid, Laid source lo [t.splitIncrements.1] mid ∧
      ∀ {lo v}, Laid source lo [v] mid → Laid source lo [t.splitIncrements.2 v] hi := by
  induction t using Tree.induction generalizing lo hi
  next t ih =>
  unfold splitIncrements
  rw [fold_eq]
  split
  case isFalse => exact ⟨hi, h, fun hv => hv⟩
  case isTrue hincremented =>
    split
    case h_2 => exact ⟨hi, h, fun hv => hv⟩
    case h_1 c inner finish cs mark hcs hmark =>
      obtain ⟨first, others, heq, hfirst, _⟩ := map_eq_cons_iff.mp hcs
      have hmem : first ∈ t.children := heq ▸ mem_cons_self
      have hsplit : first.splitIncrements = (inner, finish) := (Prod.mk.inj hfirst).2
      have hsub := sublist_of_incremented (h.placed t mem_cons_self) hincremented
        (by rw [heq]; rfl) hmark
      obtain ⟨middle, hhead, hlast⟩ := (h.expand.sublist hsub).uncons
      obtain ⟨mid, hinner, hfinish⟩ := ih first hmem hhead
      rw [hsplit] at hinner hfinish
      exact ⟨mid, hinner, fun hv => ((hfinish hv).append hlast).inPlain t.role _ rfl rfl (by simp)⟩

lemma laid_signedCast {sign : Tree} (h : Laid source lo [left, sign, right] hi) :
    Laid source lo [signedCast left sign right] hi := by
  obtain ⟨a, hleft, hrest⟩ := h.uncons
  obtain ⟨b, hsign, hright⟩ := hrest.uncons
  obtain ⟨mid, hinner, hfinish⟩ := laid_splitIncrements hright
  unfold signedCast
  dsimp only
  split
  case h_2 => exact h.sublist (by simp)
  case h_1 build hbuild =>
    have hsigned := ((hsign.inRole .operator).append (hinner.inRole .operand)).inPlain none
      .unaryExpression rfl rfl (by simp)
    exact laid_castAtEnd hfinish hbuild (hleft.append hsigned)

lemma laid_joinCasts {rest : List (Tree × Tree)} (casts : List Bool)
    (h : Laid source lo (left :: flat rest) hi) :
    Laid source lo (joinCasts left rest casts) hi := by
  induction rest generalizing lo left casts with
  | nil => exact h
  | cons pair rest ih =>
    obtain ⟨op, right⟩ := pair
    have hnext (casts : List Bool) :
        Laid source lo (left :: op :: joinCasts right rest casts) hi := by
      obtain ⟨mid, hbefore, hrest⟩ := Laid.split [left, op] h
      exact hbefore.append (ih casts hrest)
    unfold joinCasts
    split
    · split
      · refine ih casts.tail ?_
        obtain ⟨mid, hbefore, hrest⟩ := Laid.split [left, op, right] h
        exact (laid_signedCast hbefore).append hrest
      · exact hnext casts.tail
    · exact hnext casts

lemma laid_readCastsFrom {first : Tree} {sum : List (Tree × Tree)}
    (h : Laid source lo (first :: flat sum.reverse ++ ts) hi) :
    Laid source lo (readCastsFrom first sum ts) hi := by
  fun_induction readCastsFrom first sum ts generalizing lo with
  | case1 first sum => exact laid_joinCasts _ (by simpa using h)
  | case2 first sum t =>
    obtain ⟨mid, hsum, hrest⟩ := h.split _
    exact (laid_joinCasts _ hsum).append hrest
  | case3 first sum t next rest _ ih =>
    obtain ⟨mid, hsum, hrest⟩ := h.split _
    exact (laid_joinCasts _ hsum).append (ih hrest)
  | case4 first sum t next rest _ _ ih =>
    refine ih ?_
    rw [reverse_cons, flat_append]
    simpa [flat] using h
  | case5 first sum t next rest _ _ ih =>
    obtain ⟨mid, hsum, hrest⟩ := h.split _
    obtain ⟨mid', hop, hrest⟩ := hrest.uncons
    exact (laid_joinCasts _ hsum).append (hop.append (ih hrest))

lemma laid_ofChain (h : Laid source lo ts hi) : Laid source lo (ofChain ts) hi := by
  cases ts with
  | nil => exact h
  | cons first rest =>
    have hread : Laid source lo (readCastsFrom first [] rest) hi := laid_readCastsFrom h
    unfold ofChain
    dsimp only
    cases hcasts : readCastsFrom first [] rest with
    | nil => exact .nil h.row.le
    | cons current others =>
      rw [hcasts] at hread
      exact laid_groupFrom hread

lemma joinCasts_ne_nil (left : Tree) (rest : List (Tree × Tree)) (casts : List Bool) :
    joinCasts left rest casts ≠ [] := by
  induction rest generalizing left casts with
  | nil => exact cons_ne_nil _ _
  | cons pair rest ih =>
    unfold joinCasts
    split
    · split
      · exact ih _ _
      · exact cons_ne_nil _ _
    · exact cons_ne_nil _ _

lemma readCastsFrom_ne_nil (first : Tree) (sum : List (Tree × Tree)) (ts : List Tree) :
    readCastsFrom first sum ts ≠ [] := by
  fun_induction readCastsFrom first sum ts with
  | case1 => exact joinCasts_ne_nil _ _ _
  | case2 | case3 | case5 => exact append_ne_nil_of_left_ne_nil (joinCasts_ne_nil _ _ _) _
  | case4 _ _ _ _ _ _ _ ih => exact ih

lemma length_ofChain (ts : List Tree) : (ofChain ts).length = min 1 ts.length := by
  cases ts with
  | nil => rfl
  | cons first rest =>
    unfold ofChain
    dsimp only
    cases hcasts : readCastsFrom first [] rest with
    | nil => exact absurd hcasts (readCastsFrom_ne_nil _ _ _)
    | cons current others => simp [groupOperators]

/-- Where the declarations in a tree begin, in the order of the text. -/
def heads : Tree → List Nat :=
  fold fun t cs => (if t.kind.isHeaded then [t.start] else []) ++ cs.flatMap Prod.snd

lemma heads_eq (t : Tree) :
    t.heads = (if t.kind.isHeaded then [t.start] else []) ++ t.children.flatMap heads := by
  rw [heads, fold_eq, flatMap_map]

lemma Placed.bounds (h : t.Placed source) : ∀ s ∈ t.heads, t.start ≤ s ∧ s < t.stop := by
  induction t using Tree.induction
  next t ih =>
  intro s hs
  rw [heads_eq] at hs
  rcases mem_append.mp hs with hs | hs
  · split at hs
    case isTrue hhead =>
      obtain rfl := mem_singleton.mp hs
      exact ⟨le_rfl, h.proper⟩
    case isFalse => cases hs
  · obtain ⟨c, hc, hs⟩ := mem_flatMap.mp hs
    obtain ⟨hstart, _, hstop⟩ := h.row.of_mem hc
    obtain ⟨hlower, hupper⟩ := ih c hc (h.parts c hc) s hs
    exact ⟨hstart.trans hlower, hupper.trans_le hstop⟩

lemma Laid.bounds (h : Laid source lo ts hi) : ∀ s ∈ ts.flatMap heads, lo ≤ s ∧ s < hi := by
  intro s hs
  obtain ⟨t, ht, hs⟩ := mem_flatMap.mp hs
  obtain ⟨hstart, _, hstop⟩ := h.row.of_mem ht
  obtain ⟨hlower, hupper⟩ := (h.placed t ht).bounds s hs
  exact ⟨hstart.trans hlower, hupper.trans_le hstop⟩

lemma Leafy.lt_of_mem_heads (h : t.Leafy) (hplaced : t.Placed source) :
    ∀ s ∈ t.heads, t.start < s := by
  induction h with
  | leaf role text hkind h =>
    intro s hs
    rw [heads_eq] at hs
    cases hplaced with
    | leaf _ _ _ hhead => simp [Tree.kind, hhead, children] at hs
  | @node role kind range c cs hkind h ih =>
    intro s hs
    have hplain : kind.isHeaded = false := by
      revert hkind
      cases kind <;> decide
    rw [heads_eq] at hs
    simp only [Tree.kind, hplain, false_eq_true, if_false, nil_append, children,
      flatMap_cons, mem_append] at hs
    cases hplaced with
    | node _ _ _ hparts hrow =>
      have hfirst := hparts c mem_cons_self
      cases hrow with
      | cons hstart hrange hrest =>
        rcases hs with hs | hs
        · exact lt_of_le_of_lt hstart (ih hfirst s hs)
        · have hrest : Laid source c.stop cs range.stop :=
            ⟨hrest, fun c hc => hparts c (mem_cons_of_mem _ hc)⟩
          exact hstart.trans_lt (hfirst.proper.trans_le (hrest.bounds s hs).1)

lemma Laid.increasing_of_parts (h : Laid source lo ts hi)
    (hparts : ∀ t ∈ ts, t.heads.Pairwise (· < ·)) : (ts.flatMap heads).Pairwise (· < ·) := by
  induction ts generalizing lo with
  | nil => exact .nil
  | cons t ts ih =>
    obtain ⟨mid, ht, hts⟩ := h.uncons
    rw [flatMap_cons, pairwise_append]
    refine ⟨hparts t mem_cons_self, ih hts fun t ht => hparts t (mem_cons_of_mem _ ht),
      fun a ha b hb => ?_⟩
    have hupper := (ht.bounds a (by simpa using ha)).2
    exact hupper.trans_le (hts.bounds b hb).1

lemma Placed.increasing (h : t.Placed source) : t.heads.Pairwise (· < ·) := by
  induction t using Tree.induction
  next t ih =>
  have hlaid : Laid source t.start t.children t.stop := ⟨h.row, h.parts⟩
  have hparts := hlaid.increasing_of_parts fun c hc => ih c hc (h.parts c hc)
  rw [heads_eq]
  split
  case isFalse => exact hparts
  case isTrue hhead =>
    refine pairwise_cons.mpr ⟨fun s hs => ?_, hparts⟩
    cases h with
    | leaf => cases hs
    | @node role kind range cs _ _ hplaced hrow hfirst =>
      obtain ⟨c, rest, rfl, hleafy⟩ := hfirst (or_eq_true_iff.mpr (.inl hhead))
      have hc := hplaced c mem_cons_self
      cases hrow with
      | cons hstart _ hrest =>
        have hs : s ∈ c.heads ∨ s ∈ rest.flatMap heads := by simpa [children] using hs
        rcases hs with hs | hs
        · exact hstart.trans_lt (hleafy.lt_of_mem_heads hc s hs)
        · have hrest : Laid source c.stop rest range.stop :=
            ⟨hrest, fun c hc => hplaced c (mem_cons_of_mem _ hc)⟩
          exact hstart.trans_lt (hc.proper.trans_le (hrest.bounds s hs).1)

lemma Laid.increasing (h : Laid source lo ts hi) : (ts.flatMap heads).Pairwise (· < ·) :=
  h.increasing_of_parts fun t ht => (h.placed t ht).increasing

/-- Comments are leaves without roles. -/
inductive Aired : Tree → Prop where
  | mk {t : Tree} (haside : ∀ c ∈ t.children, c.kind.isComment → c.IsAside)
      (hparts : ∀ c ∈ t.children, Aired c) : Aired t

lemma Aired.aside (h : t.Aired) : ∀ c ∈ t.children, c.kind.isComment → c.IsAside := by
  cases h with
  | mk haside => exact haside

lemma Aired.parts (h : t.Aired) : ∀ c ∈ t.children, c.Aired := by
  cases h with
  | mk _ hparts => exact hparts

lemma Aired.twin (h : t.Aired) (source : List Char) (stand : Stand) :
    Twin (.refl source) stand t t := by
  induction h generalizing stand with
  | @mk t haside _ ih =>
    have hsame {pair : Tree × Tree} (hpair : pair ∈ t.clean.zip t.clean) :
        pair.2 = pair.1 ∧ pair.1 ∈ t.children := by
      have hdiagonal : List.Forall₂ (fun c c' => c' = c ∧ c ∈ t.children) t.clean t.clean :=
        forall₂_same.mpr fun c hc => ⟨rfl, (mem_filter.mp hc).1⟩
      exact (forall₂_iff_zip.mp hdiagonal).2 hpair
    refine .mk rfl (fun _ => ⟨rfl, rfl⟩) rfl haside haside rfl (fun _ _ => rfl) rfl
      (fun pair hpair => ?_) (fun pair hpair => ?_) fun pair hpair _ => ?_
    · obtain ⟨heq, hmem⟩ := hsame hpair
      rw [heq]
      exact ih _ hmem _
    · rw [(hsame hpair).1]
      exact ⟨rfl, rfl⟩
    · rw [(hsame hpair).1]
      rfl

lemma IsAside.children (h : t.IsAside) : t.children = [] := by
  cases t with
  | leaf => rfl
  | node => cases h.leaf

/-- A comment with nothing around it and nothing in it. -/
structure IsLone (x : Tree) : Prop where
  kind : x.kind.isComment
  aside : x.IsAside

lemma IsLone.heads (h : t.IsLone) : t.heads = [] := by
  have hplain : t.kind.isHeaded = false := by
    have hkind := h.kind
    revert hkind
    cases t.kind <;> decide
  rw [heads_eq, hplain, h.aside.children]
  rfl

lemma IsLone.aired (h : t.IsLone) : t.Aired :=
  .mk (fun c hc => by rw [h.aside.children] at hc; cases hc)
    fun c hc => by rw [h.aside.children] at hc; cases hc

lemma weave_nil (t : Tree) : weave [] t = t := by cases t <;> rfl

lemma mem_children_weave {x : Tree} (h : x ∈ (weave comments t).children) :
    x ∈ comments ∨ ∃ c ∈ t.children, ∃ inside, (∀ x ∈ inside, x ∈ comments) ∧
      x = weave inside c := by
  cases t with
  | leaf => cases h
  | node role kind range cs =>
    change x ∈ if comments.isEmpty then cs else weaveAll comments cs at h
    split at h
    · exact .inr ⟨x, h, [], nofun, (weave_nil x).symm⟩
    · exact mem_weaveAll h

section

variable (hcomments : ∀ x ∈ comments, x.IsLone) {cs : List Tree}
include hcomments

lemma heads_weaveAll
    (hcs : ∀ c ∈ cs, ∀ inside, (∀ x ∈ inside, x.IsLone) → (weave inside c).heads = c.heads) :
    (weaveAll comments cs).flatMap heads = cs.flatMap heads := by
  induction cs generalizing comments with
  | nil =>
    rw [weaveAll, flatMap_eq_nil_iff.mpr fun x hx => (hcomments x hx).heads]
    rfl
  | cons c cs ih =>
    obtain ⟨before, inside, after, rfl, heq⟩ := weaveAll_cons comments c cs
    simp only [forall_mem_append] at hcomments
    have hbefore : before.flatMap heads = [] :=
      flatMap_eq_nil_iff.mpr fun x hx => (hcomments.1 x hx).heads
    rw [heq, flatMap_append, hbefore, nil_append, flatMap_cons, flatMap_cons,
      hcs c mem_cons_self inside hcomments.2.1,
      ih hcomments.2.2 fun c hc => hcs c (mem_cons_of_mem _ hc)]

lemma heads_weave (t : Tree) : (weave comments t).heads = t.heads := by
  induction t using Tree.induction generalizing comments
  next t ih =>
  cases t with
  | leaf => rfl
  | node role kind range cs =>
    have hall := heads_weaveAll hcomments fun c hc _ hinside => ih c hc hinside
    rw [weave, heads_eq, heads_eq]
    have hparts : (if comments.isEmpty then cs else weaveAll comments cs).flatMap heads =
        cs.flatMap heads := by
      split
      · rfl
      · exact hall
    simp only [children, hparts]
    rfl

lemma aired_of_woven
    (h : ∀ x ∈ t.children, x ∈ comments ∨ ∃ c ∈ cs, ∃ inside, (∀ x ∈ inside, x ∈ comments) ∧
      x = weave inside c)
    (hcs : ∀ c ∈ cs, c.kind.isComment = false)
    (hparts : ∀ c ∈ cs, ∀ inside, (∀ x ∈ inside, x.IsLone) → (weave inside c).Aired) : t.Aired := by
  refine .mk (fun x hx hcomment => ?_) fun x hx => ?_
  · rcases h x hx with hx | ⟨c, hc, inside, _, rfl⟩
    · exact (hcomments x hx).aside
    · rw [kind_weave, hcs c hc] at hcomment
      cases hcomment
  · rcases h x hx with hx | ⟨c, hc, inside, hinside, rfl⟩
    · exact (hcomments x hx).aired
    · exact hparts c hc inside fun x hx => hcomments x (hinside x hx)

lemma aired_weave (h : t.Placed source) : (weave comments t).Aired := by
  induction t using Tree.induction generalizing comments
  next t ih =>
  exact aired_of_woven hcomments (fun _ => mem_children_weave) (fun c hc => (h.parts c hc).kind)
    fun c hc _ hinside => ih c hc hinside (h.parts c hc)

end

end Tree

end Xref.Syntax
