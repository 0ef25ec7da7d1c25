import Xref.Proofs.Json.Reading
import Xref.Reference.Serial

/-!
# Records are read back from JSON

A record whose numbers have 32 bits and whose element values are sorted is read back from its JSON.
Sorted are also the values of annotations inside of values, at any depth. From a text it is read
back unless it is nested too deep for a reader.
-/
open List

namespace Xref.Reference

open Java

inductive ElementValue.Sorted : ElementValue → Prop where
  | literal (type : Option String) (value : String) : Sorted (.literal type value)
  | list {values : List ElementValue} (h : ∀ v ∈ values, Sorted v) : Sorted (.list values)
  | nested (name : String) {values : List (String × ElementValue)}
      (hnames : (values.map Prod.fst).Pairwise (· < ·)) (h : ∀ x ∈ values, Sorted x.2) :
      Sorted (.nested name values)

structure ElementValues.Sorted (values : ElementValues) : Prop where
  names : (values.map Prod.fst).Pairwise (· < ·)
  values : ∀ x ∈ values, x.2.Sorted

structure Record.Fits (r : Record) : Prop where
  line : r.span.line < Json.bound32
  column : r.span.column < Json.bound32
  length : r.span.length < Json.bound32
  values : ∀ values ∈ r.values, ElementValues.Sorted values

namespace ElementValue

variable {v : ElementValue} {values : ElementValues}

lemma itemsJson_eq (values : List ElementValue) : itemsJson values = values.map toJson := by
  induction values with
  | nil => rfl
  | cons v values ih => rw [itemsJson, ih, map_cons]

lemma fieldsJson_eq (values : List (String × ElementValue)) :
    fieldsJson values = values.map fun x => (x.1, x.2.toJson) := by
  induction values with
  | nil => rfl
  | cons x values ih => rw [fieldsJson, ih, map_cons]

lemma Sorted.plain (h : v.Sorted) : v.toJson.Plain := by
  induction h with
  | literal type value =>
    rw [toJson]
    refine .object ?_
    cases type <;> simp [Json.ofOption, Json.Plain.string, Json.Plain.null]
  | @list values _ ih =>
    rw [toJson, itemsJson_eq]
    refine .object ?_
    simp only [forall_mem_cons, not_mem_nil, false_implies, implies_true, and_true]
    refine ⟨.string _, .array fun j hj => ?_⟩
    obtain ⟨v, hv, rfl⟩ := mem_map.mp hj
    exact ih v hv
  | @nested name values _ _ ih =>
    rw [toJson, fieldsJson_eq]
    refine .object ?_
    simp only [forall_mem_cons, not_mem_nil, false_implies, implies_true, and_true]
    refine ⟨.string _, .string _, .object fun f hf => ?_⟩
    obtain ⟨x, hx, rfl⟩ := mem_map.mp hf
    exact ih x hx

lemma beq_of_lt {a b : String} (h : a < b) : (a == b) = false := by
  refine beq_eq_false_iff_ne.mpr fun heq => ?_
  subst heq
  exact String.lt_irrefl a h

lemma insert_of_first {name : String} (h : ∀ x ∈ values, name < x.1) :
    ElementValues.insert name v values = (name, v) :: values := by
  cases values with
  | nil => rfl
  | cons x values =>
    have hx := h x mem_cons_self
    rw [ElementValues.insert, beq_of_lt hx, if_neg Bool.false_ne_true, if_pos hx]

lemma itemsOf?_map {values : List ElementValue} (h : ∀ v ∈ values, ofJson? true v.toJson = some v) :
    itemsOf? (values.map toJson) = some values := by
  induction values with
  | nil => simp [itemsOf?]
  | cons v values ih =>
    obtain ⟨hv, hvalues⟩ := forall_mem_cons.mp h
    simp [itemsOf?, hv, ih hvalues]

lemma fieldsOf?_map {isInner : Bool} (hnames : (values.map Prod.fst).Pairwise (· < ·))
    (h : ∀ x ∈ values, ofJson? isInner x.2.toJson = some x.2) :
    fieldsOf? isInner (values.map fun x => (x.1, x.2.toJson)) = some values := by
  induction values with
  | nil => simp [fieldsOf?]
  | cons x values ih =>
    obtain ⟨hx, hvalues⟩ := forall_mem_cons.mp h
    obtain ⟨hfirst, hnames⟩ := pairwise_cons.mp hnames
    have hless : ∀ y ∈ values, x.1 < y.1 := fun y hy => hfirst y.1 (mem_map_of_mem hy)
    have hnone : values.lookup x.1 = none :=
      lookup_eq_none_iff.mpr fun y hy => by
        rw [bne, beq_of_lt (hless y hy), Bool.not_false]
    simp [fieldsOf?, hx, ih hnames hvalues, hnone, insert_of_first hless]

lemma Sorted.ofJson?_toJson (h : v.Sorted) (isInner : Bool) :
    ofJson? isInner v.toJson = some v := by
  induction h generalizing isInner with
  | literal type value =>
    cases type <;>
      simp [toJson, ofJson?, formOf?, optString?, Json.ofOption, Json.string?, lookup_cons]
  | @list values _ ih =>
    have hitems := itemsOf?_map fun v hv => ih v hv true
    simp [toJson, itemsJson_eq, ofJson?, formOf?, listField?, listOf?, lookup_cons, hitems]
  | @nested name values hnames _ ih =>
    have hfields := fieldsOf?_map hnames fun x hx => ih x hx true
    simp [toJson, fieldsJson_eq, ofJson?, formOf?, valuesField?, valuesOf?, lookup_cons,
      Json.string?, hfields]

end ElementValue

lemma Status.ofLabel?_label (s : Status) : Status.ofLabel? s.label = some s := by cases s <;> decide

lemma Location.ofLabel?_label (l : Location) : Location.ofLabel? l.label = some l := by
  cases l <;> decide

namespace Record

variable {r : Record}

lemma Fits.plain (h : r.Fits) : r.toJson.Plain := by
  refine .object (forall_mem_append.mpr ⟨?_, ?_⟩)
  · simp [Json.Plain.string, Json.Plain.nat]
  · cases hvalues : r.values with
    | none => simp
    | some values =>
      refine forall_mem_singleton.mpr (.object fun f hf => ?_)
      rw [ElementValue.fieldsJson_eq] at hf
      obtain ⟨x, hx, rfl⟩ := mem_map.mp hf
      exact ((h.values values hvalues).values x hx).plain

lemma values?_toJson {values : ElementValues} (h : values.Sorted) :
    values? values.toJson = some (some values) := by
  have hfields := ElementValue.fieldsOf?_map h.names fun x hx =>
    (h.values x hx).ofJson?_toJson false
  simp [ElementValues.toJson, ElementValue.fieldsJson_eq, values?, hfields]

lemma Fits.ofJson?_toJson (h : r.Fits) : ofJson? r.toJson = some r := by
  have hline := Json.nat?_ofNat h.line
  have hcolumn := Json.nat?_ofNat h.column
  have hlength := Json.nat?_ofNat h.length
  cases r with
  | mk name status location span snippet values =>
    cases values with
    | none =>
      simp [toJson, ofJson?, ofParts?, lookup_cons, label?, values?, Json.string?, hline,
        hcolumn, hlength, Status.ofLabel?_label, Location.ofLabel?_label]
    | some values =>
      have hvalues := values?_toJson (h.values values rfl)
      simp [toJson, ofJson?, ofParts?, lookup_cons, label?, Json.string?, hline, hcolumn,
        hlength, Status.ofLabel?_label, Location.ofLabel?_label, hvalues]

lemma nesting_valuesOf (r : Record) :
    (valuesOf r.toJson).nesting < Json.nestingLimit ↔ r.toJson.nesting ≤ Json.nestingLimit := by
  cases hvalues : r.values with
  | none =>
    simp [toJson, valuesOf, Json.nesting, Json.nestingOfFields, Json.ofNat, Json.nestingLimit,
      lookup_cons, hvalues]
  | some values =>
    simp [toJson, valuesOf, Json.nesting, Json.nestingOfFields, Json.ofNat, lookup_cons, hvalues,
      Nat.add_one_le_iff]

lemma Fits.read?_eq (h : r.Fits) {text : String} (htext : Json.read? text = some r.toJson) :
    read? text = if r.toJson.nesting ≤ Json.nestingLimit then some r else none := by
  simp only [read?, htext, Option.bind_eq_bind, Option.bind_some, nesting_valuesOf,
    h.ofJson?_toJson]

/-- A record is read back from its JSON, and from each text of that unless it is nested too deep. No
other record has the same text. Element values are left out only where there are none. -/
structure Restored (r : Record) : Prop where
  value : ofJson? r.toJson = some r
  compact : read? r.toJson.compact =
    if r.toJson.nesting ≤ Json.nestingLimit then some r else none
  pretty : read? r.toJson.pretty =
    if r.toJson.nesting ≤ Json.nestingLimit then some r else none
  distinct : ∀ other : Record, other.Fits → other ≠ r → other.toJson.compact ≠ r.toJson.compact
  omitted : r.toJson.field? "annotation_values" = none ↔ r.values = none

end Record

end Xref.Reference
