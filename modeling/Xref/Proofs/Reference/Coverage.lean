import Xref.Proofs.Reference.Remembering

/-!
# The reports of a unit

The walk over a unit reports each of its sites once. All of its other reports are of the supertypes
of declared types or of trees that stand apart.
-/
open List Bool

namespace Xref.Reference

open Declaration Java Resolve Syntax Text Walk

/-- Where `v` surrounds the place, all reports of the walk come from spots that pass `within`. The
sites among these are `found`, in any order. -/
def Covers (st : Setting) (within : Spot → Prop) (v : View) (found : List Spot) {α : Type}
    (x : Walk α) : Prop :=
  ∀ s : WalkState, s.memory.active = [] →
    ∃ events, Runs st s (x (v.place st) s).2 events ∧ (∀ e ∈ events, within e.spot) ∧
      ((events.filter Event.isMain).map Event.spot).Perm found

lemma reports_add {s : WalkState} {r : Record} (h : r.location.isReported = false) :
    (s.add r).reports = s.reports := by
  rw [WalkState.reports, WalkState.add, filter_append, filter_cons_of_neg (by simp [h]), filter_nil,
    append_nil]
  rfl

lemma filter_findsAt (s : WalkState) (st : Setting) {construct : Construct}
    (h : construct.location.isReported) (key : Tree) (names : List TypeName) :
    (s.findsAt st construct key names).filter (fun f => f.1.location.isReported) =
      s.findsAt st construct key names := by
  refine filter_eq_self.mpr fun f hf => ?_
  obtain ⟨r, hr, rfl⟩ := mem_map.mp hf
  obtain ⟨name, _, rfl⟩ := mem_map.mp hr
  exact h

namespace Covers

variable {st : Setting} {within : Spot → Prop} {v : View} {found found' : List Spot} {α β : Type}
  {x : Walk α} {f : α → Walk β} {construct : Construct} {body : Walk Unit}
  {vars : List TypeVariable} {t : Tree}

lemma bind (hx : Covers st within v found x)
    (hf : ∀ s, Covers st within v found' (f (x (v.place st) s).1)) :
    Covers st within v (found ++ found') (x >>= f) := by
  intro s hs
  obtain ⟨events, hruns, hwithin, hfound⟩ := hx s hs
  obtain ⟨events', hruns', hwithin', hfound'⟩ :=
    hf s (x (v.place st) s).2 (hruns.grows.active.trans hs)
  refine ⟨events ++ events', hruns.append hruns', forall_mem_append.mpr ⟨hwithin, hwithin'⟩, ?_⟩
  rw [filter_append, map_append]
  exact hfound.append hfound'

lemma after (hx : Covers st within v [] x)
    (hf : ∀ s, Covers st within v found (f (x (v.place st) s).1)) :
    Covers st within v found (x >>= f) :=
  hx.bind hf

lemma perm (h : Covers st within v found x) (hperm : found.Perm found') :
    Covers st within v found' x := by
  intro s hs
  obtain ⟨events, hruns, hwithin, hfound⟩ := h s hs
  exact ⟨events, hruns, hwithin, hfound.trans hperm⟩

lemma evaluates (h : Evaluates x) : Covers st within v [] x := by
  obtain ⟨binding, contexts, ctx, h⟩ := h
  intro s hs
  have hanswers := h.isQuery (v.place st) s rfl
  have hmemory := congrArg Prod.snd hanswers.query
  have hgrows := (h.stable (v.place st).toSetting s.scopes s.memory hs).1
  have hreaches := Memory.Reaches.of_posed (h.posed (v.place st).toSetting s.scopes) s.memory
  rw [← show (x (v.place st) s).2.memory = _ from hmemory] at hgrows hreaches
  refine ⟨[], ⟨?_, hgrows, hreaches, by simp⟩, by simp, by simp⟩
  rw [WalkState.reports, hanswers.found]
  simp [WalkState.reports]

lemma addRecord {r : Record} (h : r.location.isReported = false) :
    Covers st within v [] (Walk.addRecord r) := by
  intro s _
  unfold Walk.addRecord
  split
  · exact ⟨[], .refl s, by simp, by simp⟩
  · refine ⟨[], ⟨?_, .refl s.memory, .refl s.memory, by simp⟩, by simp, by simp⟩
    rw [flatMap_nil, append_nil]
    exact reports_add h

lemma emitWith (h : construct.location.isReported = false) (name : TypeName) (span : Span)
    (values : Option ElementValues) : Covers st within v [] (emitWith construct name span values) :=
  .after (.evaluates (.always fun _ _ _ => .setting)) fun _ => .addRecord h

lemma emitAt (h : construct.location.isReported = false) (name : TypeName) (t : Tree) :
    Covers st within v [] (emitAt construct name t) :=
  .after (.evaluates (.always fun _ _ _ => .spanOf t)) fun _ => .emitWith h name _ none

lemma visitImport (t : Tree) : Covers st within v [] (visitImport t) := by
  refine .after (.evaluates (.always fun _ _ _ => .setting)) fun _ => ?_
  split
  case h_1 i tree _ _ =>
    exact .after (.evaluates (.always fun _ _ _ => .of (.importName i))) fun _ => .emitAt rfl _ tree
  case h_2 => exact .evaluates (.always fun _ _ _ => .pure ())

lemma declare (change : Scope → Scope) : Covers st within v [] (declare change) :=
  fun s _ => ⟨[], (Runs.refl s).congr rfl rfl rfl rfl, by simp, by simp⟩

lemma bindLocalType (name : String) : Covers st within v [] (bindLocalType name) := by
  refine .after (.after (fun s _ => ⟨[], .refl s, by simp, by simp⟩) fun _ =>
    .evaluates (.always fun _ _ _ => .pure _)) fun _ => ?_
  split
  · exact .declare _
  · exact .evaluates (.always fun _ _ _ => .pure ())

lemma inScope (h : Covers st within v found body) : Covers st within v found (inScope body) := by
  intro s hs
  obtain ⟨events, hruns, hwithin, hfound⟩ := h { s with scopes := {} :: s.scopes } hs
  exact ⟨events, hruns.congr rfl rfl rfl rfl, hwithin, hfound⟩

lemma insideType {name : String} (h : Covers st within (v.inType name vars) found body) :
    Covers st within v found (insideType name vars body) := by
  intro s hs
  obtain ⟨events, hruns, hwithin, hfound⟩ := h { s with calls := [] } hs
  exact ⟨events, hruns.congr rfl rfl rfl rfl, hwithin, hfound⟩

lemma withVariables {body : Walk α} (h : Covers st within (v.declaring vars) found body) :
    Covers st within v found (withVariables vars body) := h

lemma inside {body : Walk α} (h : Covers st within (v.within t) found body) :
    Covers st within v found (inside t body) := h

/-- Finding the names of a report and making it. The spot may be surrounded by less than the place
where the names are found, if the tree declares type variables for them. -/
lemma report {names : α → List TypeName} {r : Report} {u : View} (hx : Evaluates x)
    (hnames : Evaluates (r.names t))
    (hsame : ∀ s, ((r.names t (v.place st) s).1, (r.names t (v.place st) s).2.memory) =
      (names (x (v.place st) s).1, (x (v.place st) s).2.memory))
    (hv : v.setting st = (u.declaring (r.vars st.source t)).setting st)
    (hdescribes : r.Describes st.declarations st.source ⟨t, u⟩) (hwithin : within ⟨t, u⟩) :
    Covers st within v (if r.isMain && !u.isApart then [⟨t, u⟩] else [])
      (reporting r.construct (r.key t) x names) := by
  obtain ⟨_, _, _, hx⟩ := hx
  obtain ⟨_, _, _, hnames⟩ := hnames
  intro s hs
  have hquery := (hnames.isQuery (v.place st) s rfl).query
  have hsettled := hnames.settled (v.setting st) s.scopes hs
  have hgrows := (hnames.stable (v.setting st) s.scopes s.memory hs).1
  have hreaches := Memory.Reaches.of_posed (hnames.posed (v.setting st) s.scopes) s.memory
  have hanswers := hx.isQuery (v.place st) s rfl
  rw [← show _ = (r.names t).query (v.setting st) s.scopes s.memory from hquery, hsame s]
    at hsettled hgrows hreaches
  have hstate : (reporting r.construct (r.key t) x names (v.place st) s).2 =
      { (x (v.place st) s).2 with
        found := s.found ++ s.findsAt st r.construct (r.key t) (names (x (v.place st) s).1) } := by
    rw [WalkState.findsAt, ← hanswers.found, ← hanswers.scopes]
    exact reporting_apply r.construct (r.key t) x names (v.place st) s
  rw [hstate]
  refine ⟨[⟨r, ⟨t, u⟩, s.scopes, names (x (v.place st) s).1⟩], ⟨?_, hgrows, hreaches, ?_⟩, ?_, ?_⟩
  · rw [WalkState.reports, filter_append, filter_findsAt s st r.isReported_location,
      flatMap_singleton]
    rfl
  · refine forall_mem_singleton.mpr ⟨hdescribes, ?_⟩
    rw [Event.setting, ← hv]
    exact hsettled
  · exact forall_mem_singleton.mpr hwithin
  · rw [filter_cons, filter_nil, Event.isMain]
    cases r.isMain && !u.isApart <;> exact .refl _

end Covers

variable {source : List Char} {unit : Tree}

lemma Acts.covers {o : Scene} {κ : Contexts} {u : View} {a : Trace} {α : Type}
    {x : Walk α} (h : Acts o κ u a x) : Covers o.st o.holds u a.sites x := by
  induction h with
  | evaluation h => exact .evaluates h.evaluates
  | bindWith _ hP _ ihx ihf => exact .bind ihx fun s => ihf _ (hP .never s)
  | congr _ heq ih =>
    intro s hs
    have hnever : _ = _ := heq .never s
    rw [View.place, hnever]
    exact ih s hs
  | moved _ hplace ih => exact fun s hs => hplace ▸ ih s hs
  | bindVariable name type => exact .declare _
  | bindLocalType => exact .bindLocalType _
  | emit h name _ =>
    simp only [Construct.isRemark, and_eq_true, not_eq_true'] at h
    exact .emitWith h.2 name _ none
  | report hx hnames hsame hv hdescribes hholds _ =>
    exact .report hx.evaluates hnames.evaluates hsame hv hdescribes hholds
  | visitImport => exact .visitImport _
  | use _ _ hvalues =>
    exact .after (.evaluates (.always fun _ _ _ => .setting)) fun _ =>
      .after (.evaluates (.always fun _ _ _ => .of (.typeName _))) fun _ =>
        .after (.evaluates hvalues.evaluates) fun _ =>
          .after (.evaluates (.always fun _ _ _ => .spanOf _)) fun _ => .emitWith rfl _ _ _
  | inScope _ ih => exact .inScope ih
  | insideType κ' _ ih => exact .insideType ih
  | withVariables _ ih => exact .withVariables ih
  | inside _ ih => exact .inside ih
  | weaken _ hrefines ih => exact .perm ih hrefines.sites

def View.ofUnit (d : Declarations) : View where
  context := { package := d.package, imports := d.imports }
  frames := []
  path := []
  isApart := false

def Setting.ofUnit (index : TypeIndex) (source : List Char) (d : Declarations) : Setting :=
  (Place.ofUnit index source d).toSetting

section

variable (hparse : parse? source = some unit) (index : TypeIndex) (d : Declarations)
include hparse index d

lemma covers_unit :
    Covers (.ofUnit index source d) (· ∈ spots d source unit (.ofUnit d)) (.ofUnit d)
      (sites d source unit (.ofUnit d)) (visitAll unit (meaning [] unit).parts) := by
  obtain ⟨_, hacts⟩ := exists_acts (.ofUnit index source d) (.ofUnit d)
    (· ∈ spots d source unit (.ofUnit d)) hparse fun _ hs => hs
  exact hacts.covers

/-- A walk over a unit reports each site once. Of all that it reports it can be told which tree it
is about, what surrounds that and what was declared around it, and the resolver would find the same
names again. -/
lemma exists_events : let final := collect (Place.ofUnit index source d) unit
    ∃ events : List Event,
      final.reports = events.flatMap (Event.finds (.ofUnit index source d)) ∧
      (∀ e ∈ events, e.Holds (.ofUnit index source d) final.memory) ∧
      (∀ e ∈ events, e.spot ∈ spots d source unit (.ofUnit d)) ∧
      ((events.filter Event.isMain).map Event.spot).Perm (sites d source unit (.ofUnit d)) ∧
      final.memory.active = [] := by
  have halike := collect_alike hparse (Place.ofUnit index source d) .trusting
  obtain ⟨events, hruns, hspots, hsites⟩ := covers_unit hparse index d {} rfl
  refine ⟨events, ?_, fun e he => ?_, hspots, hsites, ?_⟩
  · have hreports := hruns.reports
    rw [show ({} : WalkState).reports = [] from rfl, nil_append] at hreports
    rw [WalkState.reports,
      show (collect (Place.ofUnit index source d) unit).found = _ from halike.found]
    exact hreports
  · rw [show (collect (Place.ofUnit index source d) unit).memory = _ from halike.memory]
    exact hruns.holds e he
  · rw [show (collect (Place.ofUnit index source d) unit).memory = _ from halike.memory]
    exact hruns.grows.active

/-- What the walk over a unit leaves in memory is what some questions to the resolver leave there.
-/
lemma exists_history :
    ∃ history, (collect (Place.ofUnit index source d) unit).memory = after index history := by
  have halike := collect_alike hparse (Place.ofUnit index source d) .trusting
  obtain ⟨events, hruns, -, -⟩ := covers_unit hparse index d {} rfl
  obtain ⟨history, hhistory⟩ := hruns.reaches
  exact ⟨history, halike.memory.trans hhistory⟩

end

end Xref.Reference

