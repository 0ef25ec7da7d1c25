import Xref.Proofs.Syntax.Placement
import Xref.Proofs.Syntax.Shaping
import Xref.Proofs.Syntax.Tiling

/-!
# What rules read stands in a row

Tokens stand in a row, and a rule reads from the first of them on. Whether it also keeps what is in
`hole` in front of that, what it begins with and how many trees it gives at least can be seen from
the rule. All rules of the grammar pass these tests.
-/
open List Option Bool String

namespace Xref.Syntax

open Text Tree

structure Token.Sized (source : List Char) (t : Token) : Prop where
  spans : Spans source t.range t.text
  spelled : t.text ≠ ""
  inked : t.kind.isInked → beginsInked t.text.toList
  symbol : t.kind = .symbol → ∀ c ∈ t.text.toList, isBlank c = false

inductive Token.Row (source : List Char) : Nat → List Token → Prop where
  | nil {lo : Nat} (h : lo ≤ byteLength source) : Row source lo []
  | cons {lo : Nat} {t : Token} {ts : List Token} (hstart : lo ≤ t.range.start)
      (hsized : t.Sized source) (hrest : Row source t.range.stop ts) : Row source lo (t :: ts)

variable {lo : Nat} {ts rest : List Token}

namespace Token

variable {source : List Char} {t : Token} {text : String}

lemma utf8ByteSize_pos {s : String} (h : s ≠ "") : 0 < s.utf8ByteSize :=
  Nat.pos_of_ne_zero fun hzero => h (utf8ByteSize_eq_zero_iff.mp hzero)

lemma Sized.lt (h : t.Sized source) : t.range.start < t.range.stop := by
  have hsize := utf8ByteSize_pos h.spelled
  rw [h.spans.size]
  omega

lemma Row.mono (h : Row source lo ts) {lo' : Nat} (hlo : lo' ≤ lo) : Row source lo' ts := by
  cases h with
  | nil h => exact .nil (hlo.trans h)
  | cons hstart hsized hrest => exact .cons (hlo.trans hstart) hsized hrest

lemma row_dropText (hsized : t.Sized source) (h : t.dropText text = some rest)
    (hrest : Row source t.range.stop ts) :
    Row source (t.range.start + text.utf8ByteSize) (rest ++ ts) := by
  unfold dropText at h
  split at h
  case isTrue htext =>
    cases h
    rw [← eq_of_beq htext, ← hsized.spans.size]
    exact hrest
  case isFalse htext =>
    split at h
    case isFalse => cases h
    case isTrue hword =>
      cases h
      obtain ⟨more, hmore⟩ := startsWith_string_iff.mp ((and_eq_true _ _).mp hword).2
      have hdrop : t.text.toList.drop text.length = more := by
        rw [← hmore, ← String.length_toList, drop_left]
      have hwhole : t.text = text ++ String.ofList more := by
        rw [← toList_inj, toList_append, toList_ofList, hmore]
      simp only [hdrop]
      refine .cons le_rfl ⟨(hwhole ▸ hsized.spans).of_append, fun hempty => htext ?_, ?_, ?_⟩ hrest
      · rw [hwhole, show String.ofList more = "" from hempty, String.append_empty]
        exact beq_self_eq_true text
      · -- what is left of a word is a word only if it begins like one
        cases more with
        | nil => exact fun h => by cases h
        | cons c more =>
          cases hstart : isIdentifierStart c with
          | true => simp [beginsInked, isBlank_of_isIdentifierStart hstart]
          | false => simp [hstart, TokenKind.isInked]
      · split <;> exact fun h => by cases h

lemma head_of_dropText {c : Char} (h : t.dropText text = some rest)
    (hc : text.toList.head? = some c) : t.text.toList.head? = some c := by
  unfold dropText at h
  split at h
  case isTrue htext => rw [eq_of_beq htext, hc]
  case isFalse =>
    split at h
    case isTrue hword =>
      obtain ⟨more, hmore⟩ := startsWith_string_iff.mp ((and_eq_true _ _).mp hword).2
      rw [← hmore, head?_append, hc, some_or]
    case isFalse => cases h

lemma row_takeJoined {parts : List String} {start stop : Nat}
    (h : takeJoined parts start ts = some (stop, rest)) (hts : Row source start ts) :
    start ≤ stop ∧ Row source stop rest ∧
      ((parts.head?.any fun p => beginsInked p.toList) → Inked source ⟨start, stop⟩) := by
  fun_induction takeJoined parts start ts with
  | case1 start ts =>
    cases h
    exact ⟨le_rfl, hts, fun h => by cases h⟩
  | case2 part start t ts hstart =>
    obtain ⟨dropped, hdropped, heq⟩ := map_eq_some_iff.mp h
    cases heq
    obtain rfl := eq_of_beq hstart
    cases hts with
    | cons _ hsized hrest =>
      refine ⟨Nat.le_add_right _ _, row_dropText hsized hdropped hrest, fun hpart => ?_⟩
      obtain ⟨c, hc, hink⟩ : ∃ c, part.toList.head? = some c ∧ _ :=
        (Option.any_eq_true _ _).mp hpart
      have hsize := utf8Size_le_of_head hc
      exact hsized.spans.inked (head_of_dropText hdropped hc) (by simpa using hink) (by omega)
  | case3 | case5 | case6 => cases h
  | case4 part parts start t ts _ htest ih =>
    obtain ⟨htext, hstart⟩ := (and_eq_true _ _).mp htest
    obtain rfl := eq_of_beq hstart
    cases hts with
    | cons _ hsized hrest =>
      obtain ⟨hle, hrow, _⟩ := ih h hrest
      refine ⟨hsized.lt.le.trans hle, hrow, fun hpart => ?_⟩
      obtain ⟨c, hc, hink⟩ : ∃ c, part.toList.head? = some c ∧ _ :=
        (Option.any_eq_true _ _).mp hpart
      rw [← eq_of_beq htext] at hc
      have hsize := utf8Size_le_of_head hc
      have hstop := hsized.spans.size
      exact hsized.spans.inked hc (by simpa using hink) (by omega)

lemma row_splitAngle {tree : Tree} (hsized : t.Sized source)
    (h : t.splitAngle = some (tree, rest)) (hrest : Row source t.range.stop ts) :
    Laid source t.range.start [tree] (t.range.start + 1) ∧ tree.Leafy ∧
      Row source (t.range.start + 1) (rest ++ ts) := by
  unfold splitAngle at h
  split at h
  case h_1 more hkind htext =>
    have hwhole : t.text = ">" ++ String.ofList more := by
      rw [← toList_inj, toList_append, toList_ofList, htext]
      simp
    have hmore := (hwhole ▸ hsized.spans).of_append
    have hinked : Inked source ⟨t.range.start, t.range.start + 1⟩ :=
      hsized.spans.inked (by rw [htext]; rfl) (by decide) le_rfl
    cases h
    refine ⟨⟨.cons le_rfl (Nat.le_succ _) (.nil le_rfl), ?_⟩, ?_, ?_⟩
    · exact forall_mem_singleton.mpr
        (.leaf none (Nat.lt_succ_self _) rfl rfl (fun _ => hinked) nofun)
    · exact .leaf none _ rfl (Nat.lt_succ_self _)
    · cases more with
      | nil => exact hmore.size ▸ hrest
      | cons c more =>
        have hall : ∀ x ∈ (String.ofList (c :: more)).toList, isBlank x = false := fun x hx =>
          hsized.symbol hkind x (by
            rw [htext]; exact mem_cons_of_mem _ (by simpa using hx))
        refine .cons le_rfl ⟨hmore, by simp, fun _ => ?_, fun _ => hall⟩ hrest
        simp [beginsInked, hall c (by simp)]
  case h_2 => cases h

lemma Sized.range_inked (h : t.Sized source) (hkind : t.kind.isInked) : Inked source t.range := by
  obtain ⟨c, hc, hink⟩ := (Option.any_eq_true _ _).mp (h.inked hkind)
  exact h.spans.inked_of_head hc (by simpa using hink)

lemma laid_leaf (hsized : t.Sized source) {kind : Kind} (hkind : kind.isComment = false)
    (hhead : kind.isHeaded = false) (hinked : kind.isFragment = false → t.kind.isInked) :
    Laid source t.range.start [t.leaf kind] t.range.stop :=
  ⟨.cons le_rfl hsized.lt.le (.nil le_rfl),
    forall_mem_singleton.mpr (.leaf none hsized.lt hkind hhead
      (fun h => hsized.range_inked (hinked h)) fun _ => hsized.spans)⟩

end Token

/-- What trees begin with. -/
structure Lead where
  least : Nat
  isLeafy : Bool

def Lead.implies (l l' : Lead) : Bool := l'.least ≤ l.least && (!l'.isLeafy || l.isLeafy)

structure Lead.Holds (l : Lead) (trees : List Tree) : Prop where
  least : l.least ≤ trees.length
  leafy : l.isLeafy → ∀ t ∈ trees.head?, t.Leafy

namespace Lead.Holds

variable {l l' : Lead} {xs ys : List Tree}

lemma of_none (h : l.least = 0) : l.Holds [] := ⟨h.le, fun _ t ht => by cases ht⟩

lemma of_leafy {t : Tree} (h : l.least = 1) (ht : l.isLeafy → t.Leafy) : l.Holds [t] :=
  ⟨h.le, fun hleafy t' ht' => by cases ht'; exact ht hleafy⟩

lemma weaken (h : l.Holds xs) (hleast : l'.least ≤ l.least) (hleafy : l'.isLeafy → l.isLeafy) :
    l'.Holds xs :=
  ⟨hleast.trans h.least, fun h' => h.leafy (hleafy h')⟩

lemma of_implies (h : l.Holds xs) (himplies : l.implies l') : l'.Holds xs := by
  simp only [Lead.implies, and_eq_true, or_eq_true, not_eq_true',
    decide_eq_true_eq] at himplies
  exact h.weaken himplies.1 fun hleafy => himplies.2.resolve_left (by simp [hleafy])

lemma append (h : l.Holds xs) (h' : l'.Holds ys) :
    Lead.Holds ⟨l.least + l'.least, l.isLeafy && (0 < l.least || l'.isLeafy)⟩ (xs ++ ys) := by
  have hleast := h.least
  have hleast' := h'.least
  refine ⟨by rw [List.length_append]; exact Nat.add_le_add hleast hleast', fun hleafy t ht => ?_⟩
  simp only [and_eq_true, or_eq_true, decide_eq_true_eq] at hleafy
  obtain ⟨hfirst, hsecond⟩ := hleafy
  cases xs with
  | cons x xs => exact h.leafy hfirst t ht
  | nil =>
    have hzero : l.least = 0 := Nat.le_zero.mp hleast
    exact h'.leafy (hsecond.resolve_left (by omega)) t ht

lemma roles (h : l.Holds xs) (r : Role) : l.Holds (xs.map (inRole r)) := by
  refine ⟨by rw [List.length_map]; exact h.least, fun hleafy t ht => ?_⟩
  rw [head?_map] at ht
  obtain ⟨c, hc, rfl⟩ := map_eq_some_iff.mp ht
  exact (h.leafy hleafy c hc).withRole _

end Lead.Holds

namespace Rule

variable {N : Type}
variable {g : N → Rule N} {rule : Rule N} {held trees : List Tree} {source : List Char}
  {before : Nat}

def isSilent : Rule N → Bool
  | empty | notWord _ | notAhead _ | atEnd | holeHas _ => true
  | seq a b | alt a b => a.isSilent && b.isSilent
  | _ => false

def takesHole : Rule N → Bool
  | hole => true
  | seq a b | alt a b => a.takesHole || b.takesHole
  | many a | role _ a | node _ a | operators a | share a _ | chain a _ => a.takesHole
  | _ => false

variable (leads : N → Lead)

/-- What the rule begins with, if `l` is true of what is in `hole`. -/
def lead (l : Lead) : Rule N → Lead
  | symbol _ kind | keyword _ kind | word kind | literal kind => ⟨1, !kind.isFragment⟩
  | joined _ | angle => ⟨1, true⟩
  | notAhead empty => ⟨1, true⟩
  | empty | notWord _ | notAhead _ | atEnd | holeHas _ => ⟨0, true⟩
  | seq a b =>
    let first := a.lead l
    let second := b.lead l
    ⟨first.least + second.least, first.isLeafy && (0 < first.least || second.isLeafy)⟩
  | alt a b =>
    let first := a.lead l
    let second := b.lead l
    ⟨min first.least second.least, first.isLeafy && second.isLeafy⟩
  | many a => ⟨0, (a.lead l).isLeafy⟩
  | role _ a => a.lead l
  | node kind a => ⟨1, kind.isLead && (a.lead l).isLeafy && 0 < (a.lead l).least⟩
  | call n => leads n
  | hole => l
  | share a b => b.lead (a.lead l)
  | chain _ _ => ⟨1, false⟩
  | operators a => ⟨min 1 (a.lead l).least, false⟩

def isWord : Rule N → Bool
  | keyword text _ => isSolid text
  | alt a b => a.isWord && b.isWord
  | _ => false

variable (angled : N → Bool)

def isAngled : Rule N → Bool
  | angle => true
  | seq _ b => b.isAngled
  | node _ a => a.isAngled
  | call n => angled n
  | _ => false

/-- The rule keeps what is in `hole` in front of what it reads, gives no comments, puts something
into every node, something leafy in front of declarations and strings, a word where a node is a word
and `>` at the end of generic types. -/
def keepsRow (l : Lead) : Rule N → Bool
  | symbol _ kind | literal kind | keyword _ kind | word kind => !kind.isComment && !kind.isHeaded
  | joined parts => parts.head?.any fun p => beginsInked p.toList
  | seq a b => a.keepsRow l && b.keepsRow l && (!b.takesHole || a.isSilent)
  | alt a b => a.keepsRow l && b.keepsRow l
  | many a => a.keepsRow l && !a.takesHole
  | role _ a | operators a => a.keepsRow l
  | node kind a =>
    let inner := a.lead leads l
    a.keepsRow l && !kind.isComment && (!kind.isLed || inner.isLeafy) &&
      (if kind == .updateExpression then 2 else 1) ≤ inner.least &&
        (!kind.isSolid || a.isWord) && (kind != .genericType || a.isAngled angled)
  | share a b => a.keepsRow l && b.keepsRow (a.lead leads l)
  | chain a b =>
    a.keepsRow l && 1 ≤ (a.lead leads l).least && b.keepsRow ⟨1, false⟩ &&
      1 ≤ (b.lead leads ⟨1, false⟩).least
  | _ => true

lemma reads_silent (h : Reads g rule held ts trees rest) (hsilent : rule.isSilent) :
    trees = [] ∧ rest = ts := by
  induction h with
  | empty | notWord | notAhead | atEnd | holeHas => exact ⟨rfl, rfl⟩
  | seq _ _ iha ihb =>
    obtain ⟨ha, hb⟩ := (and_eq_true _ _).mp hsilent
    obtain ⟨rfl, rfl⟩ := iha ha
    exact ihb hb
  | altLeft _ ih => exact ih ((and_eq_true _ _).mp hsilent).1
  | altRight _ ih => exact ih ((and_eq_true _ _).mp hsilent).2
  | _ => cases hsilent

/-- What is true of trees that were read from `lo` on, with what begins at `before` in `hole`. -/
structure Stands (source : List Char) (rule : Rule N) (l : Lead) (before lo : Nat)
    (trees : List Tree) (rest : List Token) (hi : Nat) : Prop where
  laid : Laid source (if rule.takesHole then before else lo) trees hi
  le : lo ≤ hi
  row : Token.Row source hi rest
  holds : (rule.lead leads l).Holds trees

variable {leads} {angled : N → Bool} {kind : Kind} {l : Lead} {p : Bool}

lemma stands_leaf {t : Token} (hkind : !kind.isComment && !kind.isHeaded)
    (hhole : rule.takesHole = false) (hts : Token.Row source lo (t :: ts))
    (hinked : kind.isFragment = false → t.kind.isInked)
    (hlead : rule.lead leads l = ⟨1, !kind.isFragment⟩) :
    ∃ hi, Stands leads source rule l before lo [t.leaf kind] ts hi := by
  simp only [and_eq_true, not_eq_true'] at hkind
  cases hts with
  | cons hstart hsized hrest =>
    have hlaid := (Token.laid_leaf hsized hkind.1 hkind.2 hinked).mono hstart le_rfl
    refine ⟨_, by rw [hhole]; exact hlaid, hlaid.row.le, hrest, ?_⟩
    rw [hlead]
    exact .of_leafy rfl fun hleafy => .leaf none t.text (by simpa using hleafy) hsized.lt

lemma Stands.of_silent (hhole : rule.takesHole = false) (hleast : (rule.lead leads l).least = 0)
    (hts : Token.Row source lo ts) : Stands leads source rule l before lo [] ts lo :=
  ⟨by rw [hhole]; exact .nil le_rfl, le_rfl, hts, .of_none hleast⟩

lemma spans_of_isWord (h : Reads g rule held ts trees rest) (hword : rule.isWord)
    (hts : Token.Row source lo ts) :
    ∃ text, isSolid text ∧ Spans source (around .literal trees).range text := by
  induction h with
  | keyword hkind htext =>
    cases hts with
    | cons _ hsized => exact ⟨_, htext ▸ hword, hsized.spans⟩
  | altLeft _ ih => exact ih ((and_eq_true _ _).mp hword).1 hts
  | altRight _ ih => exact ih ((and_eq_true _ _).mp hword).2 hts
  | _ => cases hword

lemma row_of_reads (h : Reads g rule held ts trees rest)
    (hts : Token.Row source lo ts) : ∃ hi, Token.Row source hi rest := by
  induction h generalizing lo with
  | symbol | keyword | word | literal =>
    cases hts with
    | cons _ _ hrest => exact ⟨_, hrest⟩
  | joined h =>
    cases hts with
    | cons _ hsized hrest => exact ⟨_, (Token.row_takeJoined h (.cons le_rfl hsized hrest)).2.1⟩
  | angle h =>
    cases hts with
    | cons _ hsized hrest => exact ⟨_, (Token.row_splitAngle hsized h hrest).2.2⟩
  | empty | notWord | notAhead | atEnd | manyNone | hole | holeHas => exact ⟨lo, hts⟩
  | seq _ _ iha ihb | manyMore _ _ iha ihb | share _ _ iha ihb | chainMore _ _ iha ihb =>
    obtain ⟨_, hmiddle⟩ := iha hts
    exact ihb hmiddle
  | altLeft _ ih | altRight _ ih | role _ ih | node _ ih | call _ ih | chainFirst _ ih
  | operators _ ih => exact ih hts

lemma angled_around (h : ∃ t, trees.getLast? = some t ∧ Angled source t.range) :
    Angled source (around kind trees).range := by
  obtain ⟨t, ht, before, after, hsource, hstop⟩ := h
  refine ⟨before, after, hsource, hstop.trans ?_⟩
  simp [around, Tree.range, Tree.stop, ht]

lemma angled_of_reads (hcalls : ∀ n, angled n → (g n).isAngled angled)
    (h : Reads g rule held ts trees rest) (hangled : rule.isAngled angled)
    (hts : Token.Row source lo ts) : ∃ t, trees.getLast? = some t ∧ Angled source t.range := by
  induction h generalizing lo with
  | @angle _ t _ _ tree h =>
    cases hts with
    | cons _ hsized =>
      unfold Token.splitAngle at h
      split at h
      case h_1 more _ htext =>
        cases h
        obtain ⟨⟨before, after, hsource, hbefore⟩, _⟩ := hsized.spans
        refine ⟨_, rfl, before, more ++ after, ?_, congrArg (· + 1) hbefore⟩
        rw [hsource, htext, List.append_assoc, cons_append]
      case h_2 => cases h
  | seq ha _ _ ihb =>
    obtain ⟨_, hmiddle⟩ := row_of_reads ha hts
    obtain ⟨t, ht, hlast⟩ := ihb hangled hmiddle
    exact ⟨t, by rw [getLast?_append, ht, some_or], hlast⟩
  | node _ ih => exact ⟨_, rfl, angled_around (ih hangled hts)⟩
  | @call n _ _ _ _ _ ih => exact ih (hcalls n hangled) hts
  | _ => cases hangled

lemma ite_le_ite {q : Bool} (hle : before ≤ lo) (h : p → q) :
    (if q then before else lo) ≤ if p then before else lo := by
  cases p with
  | true => rw [h rfl]
  | false => cases q <;> simp [hle]

lemma le_ite {mid : Nat} (hle : lo ≤ mid) : lo ≤ if p then lo else mid := by
  cases p <;> simp [hle]

/-- What a rule reads stands in a row from where it begins, after what is in `hole`. -/
lemma reads_stands (hg : ∀ n, (g n).keepsRow leads angled ⟨0, false⟩)
    (hcalls : ∀ n, angled n → (g n).isAngled angled) (hhole : ∀ n, (g n).takesHole = false)
    (hleads : ∀ n, ((g n).lead leads ⟨0, false⟩).implies (leads n))
    (h : Reads g rule held ts trees rest) (hrule : rule.keepsRow leads angled l)
    (hheld : l.Holds held) (hlaid : Laid source before held lo) (hts : Token.Row source lo ts) :
    ∃ hi, Stands leads source rule l before lo trees rest hi := by
  induction h generalizing l before lo with
  | empty | notWord | atEnd | holeHas => exact ⟨lo, .of_silent rfl rfl hts⟩
  | @notAhead a _ _ hne =>
    refine ⟨lo, .of_silent rfl ?_ hts⟩
    cases a with
    | empty => exact absurd rfl hne
    | _ => rfl
  | symbol hkind | keyword hkind | word hkind =>
    exact stands_leaf hrule rfl hts (fun _ => by rw [hkind]; rfl) rfl
  | literal hkind =>
    exact stands_leaf hrule rfl hts (fun h => by rw [hkind]; simp [TokenKind.isInked, h]) rfl
  | @joined parts _ t ts rest stop hjoined =>
    cases hts with
    | cons hstart hsized hrest =>
      obtain ⟨hle, hrow, hinked⟩ := Token.row_takeJoined hjoined (.cons le_rfl hsized hrest)
      refine ⟨stop, ⟨.cons hstart hle (.nil le_rfl), ?_⟩, hstart.trans hle, hrow, ?_⟩
      · exact forall_mem_singleton.mpr
          (.leaf none (hinked hrule).lt rfl rfl (fun _ => hinked hrule) nofun)
      · exact .of_leafy rfl fun _ => .leaf none _ rfl (hinked hrule).lt
  | angle hsplit =>
    cases hts with
    | cons hstart hsized hrest =>
      obtain ⟨hlaid, hleafy, hrow⟩ := Token.row_splitAngle hsized hsplit hrest
      exact ⟨_, hlaid.mono hstart le_rfl, hstart.trans (Nat.le_succ _), hrow,
        .of_leafy rfl fun _ => hleafy⟩
  | @seq a b held xs ys ts middle rest ha hb iha ihb =>
    simp only [keepsRow, and_eq_true, or_eq_true, not_eq_true'] at hrule
    obtain ⟨⟨hrule, hrule'⟩, hkeeps⟩ := hrule
    obtain ⟨mid, hfirst⟩ := iha hrule hheld hlaid hts
    cases htakes : b.takesHole with
    | true =>
      -- nothing is read before `hole`
      obtain ⟨rfl, rfl⟩ := reads_silent ha (hkeeps.resolve_left (by simp [htakes]))
      obtain ⟨hi, hsecond⟩ := ihb hrule' hheld hlaid hts
      have hlaid := hsecond.laid
      rw [htakes] at hlaid
      refine ⟨hi, ?_, hsecond.le, hsecond.row, hfirst.holds.append hsecond.holds⟩
      simpa [takesHole, htakes] using hlaid
    | false =>
      have hhere := hlaid.mono le_rfl hfirst.le
      obtain ⟨hi, hsecond⟩ := ihb hrule' hheld hhere hfirst.row
      have hlaid := hsecond.laid
      rw [htakes] at hlaid
      refine ⟨hi, ?_, hfirst.le.trans hsecond.le, hsecond.row, hfirst.holds.append hsecond.holds⟩
      simpa [takesHole, htakes] using hfirst.laid.append hlaid
  | @altLeft a b held trees ts rest _ ih =>
    simp only [keepsRow, and_eq_true] at hrule
    obtain ⟨hi, hread⟩ := ih hrule.1 hheld hlaid hts
    exact ⟨hi, hread.laid.mono (ite_le_ite hlaid.row.le (by simp +contextual [takesHole])) le_rfl,
      hread.le, hread.row, hread.holds.weaken (Nat.min_le_left _ _) (by simp +contextual [lead])⟩
  | @altRight a b held trees ts rest _ ih =>
    simp only [keepsRow, and_eq_true] at hrule
    obtain ⟨hi, hread⟩ := ih hrule.2 hheld hlaid hts
    exact ⟨hi, hread.laid.mono (ite_le_ite hlaid.row.le (by simp +contextual [takesHole])) le_rfl,
      hread.le, hread.row, hread.holds.weaken (Nat.min_le_right _ _) (by simp +contextual [lead])⟩
  | @manyNone a =>
    simp only [keepsRow, and_eq_true, not_eq_true'] at hrule
    exact ⟨lo, .of_silent hrule.2 rfl hts⟩
  | @manyMore a held xs ys ts middle rest _ _ iha ihmore =>
    have hmany := hrule
    simp only [keepsRow, and_eq_true, not_eq_true'] at hrule
    obtain ⟨mid, hfirst⟩ := iha hrule.1 hheld hlaid hts
    obtain ⟨hi, hmore⟩ := ihmore hmany hheld (hlaid.mono le_rfl hfirst.le) hfirst.row
    have hxs := hfirst.laid
    have hys := hmore.laid
    simp only [takesHole, hrule.2, false_eq_true, if_false] at hxs hys
    refine ⟨hi, ?_, hfirst.le.trans hmore.le, hmore.row, ?_⟩
    · simpa only [takesHole, hrule.2, false_eq_true, if_false] using hxs.append hys
    · exact (hfirst.holds.append hmore.holds).weaken (Nat.zero_le _) (by simp +contextual [lead])
  | role _ ih =>
    obtain ⟨hi, hread⟩ := ih hrule hheld hlaid hts
    exact ⟨hi, hread.laid.roles _, hread.le, hread.row, hread.holds.roles _⟩
  | @node kind a held trees ts rest h ih =>
    simp only [keepsRow, and_eq_true, or_eq_true, not_eq_true',
      decide_eq_true_eq] at hrule
    obtain ⟨⟨⟨⟨⟨hrule, hkind⟩, hhead⟩, hleast⟩, hword⟩, hangled⟩ := hrule
    obtain ⟨hi, hread⟩ := ih hrule hheld hlaid hts
    have hlength := hleast.trans hread.holds.least
    obtain ⟨first, others, rfl⟩ : ∃ first others, trees = first :: others := by
      refine exists_cons_of_length_pos (Nat.lt_of_lt_of_le ?_ hlength)
      split <;> decide
    have hfirst (hleafy : (a.lead leads l).isLeafy) : first.Leafy :=
      hread.holds.leafy hleafy first rfl
    have hnode := hread.laid.inNode (cons_ne_nil _ _) none hkind
      (fun h => ⟨first, others, rfl, hfirst (hhead.resolve_left (by simp [h]))⟩)
      (fun hupdate => by simpa [hupdate] using hlength)
      ⟨fun hsolid => spans_of_isWord h (hword.resolve_left (by simp [hsolid])) hts,
        fun hgeneric => angled_around
          (angled_of_reads hcalls h (hangled.resolve_left (by simp [hgeneric])) hts)⟩
    refine ⟨hi, hnode, hread.le, hread.row, .of_leafy rfl fun hleafy => ?_⟩
    simp only [lead, and_eq_true] at hleafy
    exact .node none _ hleafy.1.1 (hfirst hleafy.1.2)
  | @call n held trees ts rest _ ih =>
    obtain ⟨hi, hread⟩ := ih (hg n) (.of_none rfl) (.nil (le_refl lo)) hts
    have hlaid := hread.laid
    rw [hhole n] at hlaid
    exact ⟨hi, hlaid, hread.le, hread.row, hread.holds.of_implies (hleads n)⟩
  | hole => exact ⟨lo, hlaid, le_rfl, hts, hheld⟩
  | @share a b held xs trees ts middle rest _ _ iha ihb =>
    simp only [keepsRow, and_eq_true] at hrule
    obtain ⟨mid, hfirst⟩ := iha hrule.1 hheld hlaid hts
    obtain ⟨hi, hread⟩ := ihb hrule.2 hfirst.holds hfirst.laid hfirst.row
    exact ⟨hi, hread.laid.mono (le_ite hfirst.laid.row.le) le_rfl, hfirst.le.trans hread.le,
      hread.row, hread.holds⟩
  | @chainFirst a b held trees ts rest _ ih =>
    simp only [keepsRow, and_eq_true, decide_eq_true_eq] at hrule
    obtain ⟨hi, hread⟩ := ih hrule.1.1.1 hheld hlaid hts
    exact ⟨hi, hread.laid, hread.le, hread.row, hread.holds.weaken hrule.1.1.2 nofun⟩
  | @chainMore a b held xs trees ts middle rest _ _ ihchain ihb =>
    obtain ⟨mid, hfirst⟩ := ihchain hrule hheld hlaid hts
    simp only [keepsRow, and_eq_true, decide_eq_true_eq] at hrule
    obtain ⟨hi, hread⟩ := ihb hrule.1.2 hfirst.holds hfirst.laid hfirst.row
    exact ⟨hi, hread.laid.mono (le_ite hfirst.laid.row.le) le_rfl, hfirst.le.trans hread.le,
      hread.row, hread.holds.weaken hrule.2 nofun⟩
  | @operators a held trees ts rest _ ih =>
    obtain ⟨hi, hread⟩ := ih hrule hheld hlaid hts
    refine ⟨hi, laid_ofChain hread.laid, hread.le, hread.row, ?_, nofun⟩
    have hleast := hread.holds.least
    rw [length_ofChain]
    simp only [lead]
    omega

end Rule

variable {source : List Char} {items : List Tree} {unit : Tree}

def Phrase.isAngled : Phrase → Bool
  | typeArguments => true
  | _ => false

/-- All phrases give a tree, and some begin with a leaf. -/
def Phrase.lead : Phrase → Lead
  | modifiers _ | annotated => ⟨1, true⟩
  | _ => ⟨1, false⟩

lemma grammar_isAngled (n : Phrase) (h : n.isAngled) : (grammar n).isAngled Phrase.isAngled := by
  cases n with
  | typeArguments => rfl
  | _ => cases h

lemma grammar_checks (n : Phrase) :
    (grammar n).keepsRow Phrase.lead Phrase.isAngled ⟨0, false⟩ ∧ (grammar n).takesHole = false ∧
      ((grammar n).lead Phrase.lead ⟨0, false⟩).implies n.lead := by
  cases n with
  | prefixed site => rcases site with _ | (_ | (_ | arrows)) <;> exact ⟨rfl, rfl, rfl⟩
  | statement inBlock => cases inBlock <;> exact ⟨rfl, rfl, rfl⟩
  | modifiers ofType => cases ofType <;> exact ⟨rfl, rfl, rfl⟩
  | formalParameters ofLambda => cases ofLambda <;> exact ⟨rfl, rfl, rfl⟩
  | recordPattern inLabel => cases inLabel <;> exact ⟨rfl, rfl, rfl⟩
  | _ => exact ⟨rfl, rfl, rfl⟩

structure Lexeme.Sized (source : List Char) (l : Lexeme) : Prop where
  spans : Spans source l.range (String.ofList l.text)
  proper : l.text ≠ []
  inked : l.kind.isInked → beginsInked l.text
  symbol : l.kind = .token .symbol → ∀ c ∈ l.text, isBlank c = false

lemma Lexeme.Sized.token {l : Lexeme} {t : Token} (h : l.Sized source)
    (ht : l.token? = some t) : t.Sized source ∧ t.range = l.range := by
  unfold Lexeme.token? at ht
  split at ht
  case h_1 kind hkind =>
    cases ht
    refine ⟨⟨h.spans, fun hempty => h.proper (ofList_eq_empty_iff.mp hempty), fun hinked => ?_,
      fun hsymbol => ?_⟩, rfl⟩
    · rw [toList_ofList]
      exact h.inked (by rw [hkind]; exact hinked)
    · rw [toList_ofList]
      exact h.symbol (hkind.trans (congrArg _ hsymbol))
  case h_2 => cases ht

lemma sized_scan (modes : List Mode) (before : List Char) {cs : List Char} (hcs : cs ≠ []) :
    Lexeme.Sized (before ++ cs) ⟨(Lexer.scan modes cs).kind,
      ⟨byteLength before, byteLength before + byteLength (Lexer.scan modes cs).text⟩,
      (Lexer.scan modes cs).text⟩ := by
  have htiles := Scan.Tiles.scan modes hcs
  have hinks := Scan.Inks.scan modes cs
  refine ⟨⟨⟨before, (Lexer.scan modes cs).rest, ?_, rfl⟩, ?_⟩, htiles.proper, fun hinked => ?_,
    hinks.all⟩
  · rw [toList_ofList, List.append_assoc, htiles.text]
  · rw [Text.utf8ByteSize_ofList]
  · rw [beginsInked, htiles.head]
    exact hinks.first hinked

lemma row_lexemes (n : Nat) (modes : List Mode) (before cs : List Char) :
    Token.Row (before ++ cs) (byteLength before)
      ((Lexer.lexemes n modes (byteLength before) cs).filterMap Lexeme.token?) ∧
    ∀ l ∈ Lexer.lexemes n modes (byteLength before) cs, l.Sized (before ++ cs) := by
  have hnil (cs : List Char) : Token.Row (before ++ cs) (byteLength before) [] :=
    .nil (by rw [byteLength_append]; exact Nat.le_add_right _ _)
  induction n generalizing modes before cs with
  | zero =>
    exact ⟨hnil cs, fun _ h => by cases h⟩
  | succ n ih =>
    cases cs with
    | nil =>
      exact ⟨hnil [], fun _ h => by cases h⟩
    | cons c cs =>
      have htiles := Scan.Tiles.scan modes (cons_ne_nil c cs)
      have hfirst := sized_scan modes before (cons_ne_nil c cs)
      unfold Lexer.lexemes
      have hrest := ih (Lexer.scan modes (c :: cs)).modes
        (before ++ (Lexer.scan modes (c :: cs)).text) (Lexer.scan modes (c :: cs)).rest
        fun cs => .nil (by rw [byteLength_append _ cs]; exact Nat.le_add_right _ _)
      rw [byteLength_append, List.append_assoc, htiles.text] at hrest
      refine ⟨?_, forall_mem_cons.mpr ⟨hfirst, hrest.2⟩⟩
      rw [filterMap_cons]
      split
      case h_1 => exact hrest.1.mono (Nat.le_add_right _ _)
      case h_2 token htoken =>
        obtain ⟨hsized, hrange⟩ := hfirst.token htoken
        exact .cons (by rw [hrange]) hsized (by rw [hrange]; exact hrest.1)

lemma row_tokens (source : List Char) : Token.Row source 0 (scanUnit source).1 ∧
    ∀ l ∈ Lexer.lex source, l.Sized source := by
  unfold scanUnit Lexer.lex
  split
  · exact ⟨.nil (Nat.zero_le _), nofun⟩
  · next c rest =>
    split
    · obtain ⟨hrow, hsized⟩ := row_lexemes rest.length [] [c] rest
      exact ⟨hrow.mono (Nat.zero_le _), hsized⟩
    · exact row_lexemes (c :: rest).length [] [] (c :: rest)

lemma isLone_comments (source : List Char) : ∀ x ∈ (scanUnit source).2, x.IsLone := by
  intro x hx
  obtain ⟨lexeme, _, hlexeme⟩ := mem_filterMap.mp hx
  unfold Lexeme.comment? at hlexeme
  split at hlexeme
  · next kind _ =>
    cases hlexeme
    exact ⟨by cases kind <;> rfl, rfl, rfl⟩
  · cases hlexeme

lemma stands_readItems (hread : readItems ts = .matched items rest)
    (hrow : Token.Row source lo ts) : ∃ hi, Laid source lo items hi ∧ Token.Row source hi rest := by
  obtain ⟨hi, hstands⟩ := Rule.reads_stands (fun n => (grammar_checks n).1)
    grammar_isAngled (fun n => (grammar_checks n).2.1) (fun n => (grammar_checks n).2.2)
    (Rule.reads_of_run _ hread) (l := ⟨0, false⟩) rfl (.of_none rfl)
    (.nil (le_refl lo)) hrow
  exact ⟨hi, hstands.laid, hstands.row⟩

/-- The items of a unit stand in a row in its text, and comments are put between and into them. -/
lemma exists_laid_of_parse (h : parse? source = some unit) :
    ∃ items hi, unit = unitOf source (scanUnit source).2 items ∧
      Laid source 0 items hi ∧ hi ≤ byteLength source ∧ ∀ c ∈ items, c.Shaped := by
  unfold parse? at h
  dsimp only at h
  split at h
  case h_1 items hitems =>
    cases h
    obtain ⟨hi, hlaid, hrow⟩ := stands_readItems hitems (row_tokens source).1
    have hshaped := Rule.reads_shaped grammar_fits (Rule.reads_of_run _ hitems) rfl
      .nothing (by simp) (spelled_tokens source)
    cases hrow with
    | nil hle => exact ⟨items, hi, rfl, hlaid, hle, hshaped.shaped⟩
  case h_2 => cases h

lemma aired_unitOf (h : ∀ c ∈ items, c.Placed source) :
    (unitOf source (scanUnit source).2 items).Aired :=
  aired_of_woven (isLone_comments source) (fun _ => mem_weaveAll) (fun c hc => (h c hc).kind)
    fun c hc _ hinside => aired_weave hinside (h c hc)

/-- In a compilation unit comments are leaves without roles, and no two declarations begin at the
same byte. -/
lemma placed_of_parse (h : parse? source = some unit) :
    unit.Aired ∧ unit.heads.Pairwise (· < ·) := by
  obtain ⟨items, hi, rfl, hlaid, _⟩ := exists_laid_of_parse h
  refine ⟨aired_unitOf hlaid.placed, ?_⟩
  have hheads : (weaveAll (scanUnit source).2 items).flatMap heads = items.flatMap heads :=
    heads_weaveAll (isLone_comments source) fun c _ inside hinside => heads_weave hinside c
  rw [heads_eq]
  exact hheads ▸ hlaid.increasing

lemma placed_salvageItems (n : Nat) (h : Token.Row source lo ts) :
    ∀ c ∈ salvageItems n ts, c.Placed source := by
  induction n generalizing lo ts with
  | zero => exact fun _ hc => by cases hc
  | succ n ih =>
    unfold salvageItems
    split
    case h_1 items token rest hread =>
      obtain ⟨hi, hlaid, hrow⟩ := stands_readItems hread h
      cases hrow with
      | cons _ _ hrow => exact fun c hc => (mem_append.mp hc).elim (hlaid.placed c) (ih hrow c)
    case h_2 items hread =>
      obtain ⟨hi, hlaid, _⟩ := stands_readItems hread h
      exact hlaid.placed
    case h_3 => exact fun _ hc => by cases hc

lemma aired_parseOrSalvage (source : List Char) : (parseOrSalvage source).Aired := by
  unfold parseOrSalvage
  cases h : parse? source with
  | some unit => exact (placed_of_parse h).1
  | none => exact aired_unitOf (placed_salvageItems _ (row_tokens source).1)

namespace Tree

/-- No tree in `t` is empty, and none goes further than the source. The parts of a tree stand inside
of it, comments aside. Trees begin with a character that is not white space unless they are pieces
of strings, identifiers are spelled in the source, there is no white space in names and marks, and
generic types end with `>`. -/
inductive Within (source : List Char) : Tree → Prop where
  | mk {t : Tree} (hproper : t.start < t.stop) (hstop : t.stop ≤ byteLength source)
      (hinked : t.kind.isFragment = false → Inked source t.range)
      (hspans : t.kind = .identifier → Spans source t.range (t.text source))
      (hsolid : t.kind.isSolid → isSolid (t.text source))
      (hangled : t.kind = .genericType → ∃ cs, (t.text source).toList = cs ++ ['>'])
      (hnested : ∀ c ∈ t.children, c.kind.isComment = false → t.start ≤ c.start ∧ c.stop ≤ t.stop)
      (hparts : ∀ c ∈ t.children, Within source c) : Within source t

variable {source : List Char} {t : Tree}

section

variable (h : t.Within source) {c : Tree}
include h

lemma Within.parts : ∀ c ∈ t.children, c.Within source := by
  cases h with
  | mk _ _ _ _ _ _ _ hparts => exact hparts

lemma Within.inked (hkind : t.kind.isFragment = false) : Inked source t.range := by
  cases h with
  | mk _ _ hinked => exact hinked hkind

lemma Within.spans (hkind : t.kind = .identifier) : Spans source t.range (t.text source) := by
  cases h with
  | mk _ _ _ hspans => exact hspans hkind

lemma Within.solid (hkind : t.kind.isSolid) : isSolid (t.text source) := by
  cases h with
  | mk _ _ _ _ hsolid => exact hsolid hkind

lemma Within.angled (hkind : t.kind = .genericType) :
    ∃ cs, (t.text source).toList = cs ++ ['>'] := by
  cases h with
  | mk _ _ _ _ _ hangled => exact hangled hkind

lemma Within.nested (hc : c ∈ t.children) (hkind : c.kind.isComment = false) :
    t.start ≤ c.start ∧ c.stop ≤ t.stop := by
  cases h with
  | mk _ _ _ _ _ _ hnested => exact hnested c hc hkind

lemma Within.inked_part (hshaped : t.Shaped) (hkind : t.kind ≠ .stringLiteral)
    (hc : c ∈ t.children) : Inked source c.range := by
  refine (h.parts c hc).inked ?_
  rcases hshaped.fits.admitted c hc with hremark | hadmits
  · exact Kind.not_of_comment hremark.kind
  · exact isFragment_of_admits hadmits hkind

end

lemma squeeze_ne_empty {s : String} {c : Char} (hc : c ∈ s.toList) (hink : isBlank c = false) :
    squeeze s ≠ "" := by
  intro hempty
  have hmem : c ∈ s.toList.filter fun c => !isBlank c := mem_filter.mpr ⟨hc, by simp [hink]⟩
  rw [ofList_eq_empty_iff.mp hempty] at hmem
  cases hmem

lemma dottedName_ne_empty (hshaped : t.Shaped) (hwithin : t.Within source)
    (hkind : t.kind = .identifier ∨ t.kind = .scopedIdentifier) : t.dottedName source ≠ "" := by
  cases hshaped with
  | leaf role range hfits htext =>
    rcases hkind with rfl | rfl
    · obtain ⟨c, rest, htext, hstart, _⟩ := isIdentifier_iff.mp (htext.identifier rfl)
      exact squeeze_ne_empty (by simp [text, htext]) (isBlank_of_isIdentifierStart hstart)
    · obtain ⟨c, hc, _⟩ := hfits.required .name (by decide)
      cases hc
  | @node role kind range cs hparts hfits hatom =>
    have hkind : kind = .scopedIdentifier := hkind.resolve_left fun h => by
      rw [show kind = .identifier from h] at hatom
      cases hatom
    subst hkind
    obtain ⟨c, hc, hrole⟩ := hfits.required .name (by decide)
    have hc' : c.kind = .identifier := by
      rcases hfits.admitted c hc with hremark | hadmits
      · simp [Label.inRole, label, hremark.role] at hrole
      · simp only [Kind.shape, Kind.isBare, hrole, if_true, and_eq_true] at hadmits
        simpa [Label.ofKind, label] using hadmits.1.2
    obtain ⟨before, x, after, hsource, hbefore, hstop, hink⟩ :=
      (hwithin.parts c hc).inked (by rw [hc']; rfl)
    obtain ⟨hfirst, hlast⟩ := hwithin.nested hc (by rw [hc']; rfl)
    refine squeeze_ne_empty ?_ hink
    rw [text, toList_ofList, hsource]
    exact mem_slice (hfirst.trans_eq hbefore.symm) (by rw [hbefore]; exact hstop.trans hlast)

lemma range_weave (comments : List Tree) (t : Tree) : (weave comments t).range = t.range := by
  cases t <;> rfl

lemma Leafy.inked (h : t.Leafy) (hplaced : t.Placed source) : Inked source t.range := by
  induction h with
  | leaf role text hkind =>
    cases hplaced with
    | leaf _ _ _ _ hinked => exact hinked hkind
  | node role range hkind h ih =>
    cases hplaced with
    | node _ hfirst _ hparts hrow =>
      exact (ih (hparts _ mem_cons_self)).mono (some.inj hfirst).symm
        (hrow.of_mem mem_cons_self).2.2

/-- A tree begins where its first leaf does, which is a piece of a string only inside of one. -/
lemma Placed.inked (h : t.Placed source) (hshaped : t.Shaped) (hkind : t.kind.isFragment = false) :
    Inked source t.range := by
  induction h with
  | leaf _ _ _ _ hinked => exact hinked hkind
  | @node role kind range cs hfirst _ hparts hrow hhead _ _ ih =>
    obtain ⟨c, rest, rfl⟩ := exists_cons_of_first hfirst
    have hc := hparts c mem_cons_self
    have hinked : Inked source c.range := by
      by_cases hstring : kind = .stringLiteral
      · obtain ⟨_, _, hcs, hleafy⟩ := hhead (hstring ▸ rfl)
        cases hcs
        exact hleafy.inked hc
      · refine ih c mem_cons_self (hshaped.parts c mem_cons_self) ?_
        rcases hshaped.fits.admitted c mem_cons_self with hremark | hadmits
        · cases hc.kind.symm.trans hremark.kind
        · exact isFragment_of_admits hadmits hstring
    exact hinked.mono (some.inj hfirst).symm (hrow.of_mem mem_cons_self).2.2

lemma Placed.within_weave (h : t.Placed source) (hshaped : t.Shaped)
    (hstop : t.stop ≤ byteLength source) {comments : List Tree}
    (hcomments : ∀ x ∈ comments, x.Within source ∧ x.kind.isComment) :
    (weave comments t).Within source := by
  induction t using Tree.induction generalizing comments
  next t ih =>
  refine .mk ?_ ?_ (fun hkind => ?_) (fun hkind => ?_) (fun hkind => ?_) (fun hkind => ?_)
    (fun x hx hx' => ?_) fun x hx => ?_
  · simpa only [start, stop, range_weave] using h.proper
  · simpa only [stop, range_weave] using hstop
  · rw [kind_weave] at hkind
    rw [range_weave]
    exact h.inked hshaped hkind
  · rw [kind_weave] at hkind
    cases h with
    | leaf _ _ _ _ _ hspans => exact hspans hkind
    | node _ hfirst =>
      have hatom := hshaped.children_of_atom (hkind ▸ rfl)
      subst hatom
      cases hfirst
  · rw [kind_weave] at hkind
    cases h with
    | leaf => exact isSolid_of_leaf hshaped hkind
    | node _ _ _ _ _ _ _ houtline =>
      obtain ⟨text, hsolid, hspans⟩ := houtline.solid hkind
      rw [weave, Tree.text, hspans.slice_eq, ofList_toList]
      exact hsolid
  · rw [kind_weave] at hkind
    have hproper := h.proper
    cases h with
    | leaf =>
      cases hshaped with
      | leaf _ _ _ htext => exact absurd hkind htext.whole
    | node _ _ _ _ _ _ _ houtline =>
      rw [weave, Tree.text, toList_ofList]
      exact (houtline.angled hkind).slice_eq hproper
  · rcases mem_children_weave hx with hx | ⟨c, hc, inside, hinside, rfl⟩
    · simp [(hcomments x hx).2] at hx'
    · have hnested := h.row.of_mem hc
      simp only [start, stop, range_weave] at hnested ⊢
      exact ⟨hnested.1, hnested.2.2⟩
  · rcases mem_children_weave hx with hx | ⟨c, hc, inside, hinside, rfl⟩
    · exact (hcomments x hx).1
    · exact ih c hc (h.parts c hc) (hshaped.parts c hc) ((h.row.of_mem hc).2.2.trans hstop)
        fun x hx => hcomments x (hinside x hx)

end Tree

lemma within_comments (source : List Char) :
    ∀ x ∈ (scanUnit source).2, x.Within source ∧ x.kind.isComment := by
  intro x hx
  obtain ⟨lexeme, hlexeme, hcomment⟩ := mem_filterMap.mp hx
  have hsized := (row_tokens source).2 lexeme hlexeme
  unfold Lexeme.comment? at hcomment
  split at hcomment
  · next kind hkind =>
    cases hcomment
    have hinked : Inked source lexeme.range := by
      obtain ⟨c, hc, hink⟩ := (Option.any_eq_true _ _).mp (hsized.inked (hkind ▸ rfl))
      rw [← toList_ofList (l := lexeme.text)] at hc
      exact hsized.spans.inked_of_head hc (by simpa using hink)
    exact ⟨.mk hinked.lt hsized.spans.stop_le (fun _ => hinked) (by cases kind <;> exact nofun)
      (by cases kind <;> exact nofun) (by cases kind <;> exact nofun) nofun nofun,
      by cases kind <;> rfl⟩
  · cases hcomment

lemma within_of_parse (h : parse? source = some unit) : ∀ c ∈ unit.children, c.Within source := by
  obtain ⟨items, hi, rfl, hlaid, hle, hshaped⟩ := exists_laid_of_parse h
  intro x hx
  have hcomments := within_comments source
  rcases mem_weaveAll hx with hx | ⟨c, hc, inside, hinside, rfl⟩
  · exact (hcomments x hx).1
  · exact (hlaid.placed c hc).within_weave (hshaped c hc) ((hlaid.row.of_mem hc).2.2.trans hle)
      fun x hx => hcomments x (hinside x hx)

end Xref.Syntax

