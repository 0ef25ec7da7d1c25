import Mathlib.Data.List.TakeDrop
import Mathlib.Data.List.TakeWhile
import Mathlib.Tactic.IntervalCases
import Xref.Json.Read
import Xref.Json.Write

/-!
# JSON is read back from its text

A value that can be written is read back from its text on one line and from its text on many lines.
The two differ in white space only, so both are of one form: items between brackets with commas, and
gaps of white space before each item and before the last bracket.
-/
open List Option

namespace Xref.Json

variable {gap rest : List Char} {c : Char} {n : Nat}

/-- A value that can be written and read again. -/
inductive Plain : Json → Prop where
  | null : Plain .null
  | bool (b : Bool) : Plain (.bool b)
  | nat (n : Nat) : Plain (.ofNat n)
  | string (s : String) : Plain (.string s)
  | array {items : List Json} (h : ∀ j ∈ items, Plain j) : Plain (.array items)
  | object {fields : List (String × Json)} (h : ∀ f ∈ fields, Plain f.2) : Plain (.object fields)

def IsGap (cs : List Char) : Prop := ∀ c ∈ cs, isSpace c

lemma skipSpace_gap (h : IsGap gap) (cs : List Char) : skipSpace (gap ++ cs) = skipSpace cs :=
  dropWhile_append_of_pos h

lemma skipSpace_cons (h : isSpace c = false) (cs : List Char) : skipSpace (c :: cs) = c :: cs :=
  dropWhile_cons_of_neg (by simp [h])

lemma readValue_gap (h : IsGap gap) (n : Nat) (cs : List Char) :
    readValue n (gap ++ cs) = readValue n cs := by
  cases n with
  | zero => rfl
  | succ n => rw [readValue, readValue, skipSpace_gap h]

def ends : List Char → Bool
  | [] => true
  | c :: _ => isSpace c || [',', ']', '\x7d'].contains c

lemma ends_gap (h : IsGap gap) {cs : List Char} (hcs : ends cs) : ends (gap ++ cs) := by
  cases gap with
  | nil => exact hcs
  | cons c gap => simp [ends, h c mem_cons_self]

lemma exists_escape (h : c.toNat < 0x20) :
    ∃ e, escapeChar c = '\x5c' :: e ∧ ∀ rest, readEscape (e ++ rest) = some (.char c, rest) := by
  have hself : Char.ofNat c.toNat = c := Char.ofNat_toNat c
  generalize c.toNat = n at h hself
  subst hself
  interval_cases n <;> exact ⟨_, rfl, fun _ => rfl⟩

lemma readChars_escapeChar (n : Nat) (found : List Char) (c : Char) (rest : List Char) :
    readChars (n + 1) (some found) (escapeChar c ++ rest) =
      readChars n (some (c :: found)) rest := by
  by_cases hcontrol : c.toNat < 0x20
  · obtain ⟨e, he, hread⟩ := exists_escape hcontrol
    rw [he, cons_append, readChars]
    simp [hread]
  · by_cases hquote : c = '\x22'
    · subst hquote
      rfl
    · by_cases hslash : c = '\x5c'
      · subst hslash
        rfl
      · have hplain : escapeChar c = [c] := by
          simp [escapeChar, hquote, hslash, Nat.le_of_not_lt hcontrol]
        rw [hplain, cons_append, readChars]
        simp [hquote, hslash, hcontrol]

lemma readChars_quoted (cs : List Char) (hn : cs.length < n) (found rest : List Char) :
    readChars n (some found) (cs.flatMap escapeChar ++ '\x22' :: rest) =
      some (some (String.ofList (found.reverse ++ cs)), rest) := by
  induction cs generalizing n found with
  | nil =>
    obtain ⟨n, rfl⟩ := Nat.exists_eq_add_one_of_ne_zero (Nat.ne_of_gt hn)
    simp [readChars]
  | cons c cs ih =>
    obtain ⟨n, rfl⟩ := Nat.exists_eq_add_one_of_ne_zero (Nat.ne_of_gt (Nat.zero_lt_of_lt hn))
    rw [flatMap_cons, append_assoc, readChars_escapeChar, ih (by simpa using hn) (c :: found)]
    simp

lemma escapeChar_ne_nil (c : Char) : escapeChar c ≠ [] := by
  unfold escapeChar
  split
  · simp
  · split
    · simp
    · split
      · simp
      · split <;> simp

lemma length_le_escaped (cs : List Char) : cs.length ≤ (cs.flatMap escapeChar).length := by
  induction cs with
  | nil => simp
  | cons c cs ih =>
    have hc := length_pos_iff.mpr (escapeChar_ne_nil c)
    rw [flatMap_cons, length_append, length_cons]
    omega

lemma toList_quote (s : String) :
    (quote s).toList = '\x22' :: (s.toList.flatMap escapeChar ++ ['\x22']) := by
  simp [quote]

lemma readString_quoted (s : String) (rest : List Char) :
    readString (s.toList.flatMap escapeChar ++ '\x22' :: rest) = some (some s, rest) := by
  have hlength := length_le_escaped s.toList
  rw [readString, readChars_quoted _ (by rw [length_append]; omega)]
  simp

lemma toDigits_head (h : 0 < n) : (Nat.toDigits 10 n).head? ≠ some '0' := by
  induction n using Nat.strong_induction_on with
  | _ n ih =>
    rw [Nat.toDigits_eq_if (by decide)]
    split
    next hlt => interval_cases n <;> simp [Nat.digitChar]
    next hge =>
      obtain ⟨d, ds, hdigits⟩ := exists_cons_of_ne_nil (@Nat.toDigits_ne_nil (n / 10) 10)
      have hhead := ih (n / 10) (by omega) (by omega)
      rw [hdigits] at hhead ⊢
      exact hhead

lemma toList_toString (n : Nat) : (toString n).toList = Nat.toDigits 10 n := by
  rw [Nat.toString_eq_repr, Nat.toList_repr]

lemma isDigit_of_mem (h : c ∈ Nat.toDigits 10 n) : c.isDigit :=
  Nat.isDigit_of_mem_toDigits (by decide) (by decide) h

lemma nat?_ofNat {bound : Nat} (h : n < bound) : (Json.ofNat n).nat? bound = some n := by
  have hstep : (fun (m : Nat) (c : Char) => m * 10 + (c.toNat - 48)) =
      fun m c => 10 * m + (c.toNat - '0'.toNat) := by
    funext m c
    rw [Nat.mul_comm]
    rfl
  have hvalue : (toString n).toList.foldl (fun m c => m * 10 + (c.toNat - 48)) 0 = n := by
    rw [toList_toString, hstep]
    exact Nat.ofDigitChars_toDigits (by decide) (by decide)
  have hdigits : (toString n).toList.all Char.isDigit := by
    rw [toList_toString]
    exact List.all_eq_true.mpr fun c hc => isDigit_of_mem hc
  have hne : (toString n).isEmpty = false := by
    rw [String.isEmpty_eq_false_iff, Ne, ← String.toList_eq_nil_iff, toList_toString]
    exact Nat.toDigits_ne_nil
  rw [Json.ofNat, nat?]
  simp only [hvalue, hdigits, hne, h, Bool.not_false, Bool.and_self, if_true]

lemma isDigit_of_ends (h : ends (c :: rest)) : c.isDigit = false ∧ c ≠ '.' ∧ c ≠ 'e' ∧ c ≠ 'E' := by
  simp only [ends, isSpace, contains_cons, Bool.or_eq_true, beq_iff_eq] at h
  rcases h with (((rfl | rfl) | rfl) | rfl) | rfl | rfl | rfl | h <;> first | decide | simp at h

lemma readDigits_digits {digits : List Char} (hne : digits ≠ [])
    (hdigits : ∀ c ∈ digits, c.isDigit) (hends : ends rest) :
    readDigits (digits ++ rest) = some (digits, rest) := by
  have hrest : rest.takeWhile Char.isDigit = [] ∧ rest.dropWhile Char.isDigit = rest := by
    cases rest with
    | nil => simp
    | cons c rest => simp [(isDigit_of_ends hends).1]
  rw [readDigits, span_eq_takeWhile_dropWhile]
  simp only [takeWhile_append_of_pos hdigits, dropWhile_append_of_pos hdigits, hrest, append_nil]
  rw [if_neg (by simpa using hne)]

lemma readNumber_digits (n : Nat) (hends : ends rest) :
    readNumber (Nat.toDigits 10 n ++ rest) = some (.ofNat n, rest) := by
  have hdigits (c : Char) (hc : c ∈ Nat.toDigits 10 n) : c.isDigit := isDigit_of_mem hc
  have hwhole : readWhole (Nat.toDigits 10 n ++ rest) = some (Nat.toDigits 10 n, rest) := by
    obtain rfl | hpos := Nat.eq_zero_or_pos n
    · cases rest with
      | nil => rfl
      | cons c rest => simp [readWhole, (isDigit_of_ends hends).1]
    · have hread := readDigits_digits Nat.toDigits_ne_nil hdigits hends
      have hhead := toDigits_head hpos
      obtain ⟨d, ds, heq⟩ := exists_cons_of_ne_nil (@Nat.toDigits_ne_nil n 10)
      rw [heq] at hread hhead ⊢
      rw [← hread]
      unfold readWhole
      split
      next hzero => simp_all
      next => rfl
  have hfraction : readFraction rest = some ([], rest) := by
    unfold readFraction
    split
    next => exact absurd rfl (isDigit_of_ends hends).2.1
    next => rfl
  have hexponent : readExponent rest = some ([], rest) := by
    cases rest with
    | nil => rfl
    | cons c rest =>
      obtain ⟨_, _, hlower, hupper⟩ := isDigit_of_ends hends
      simp [readExponent, hlower, hupper]
  have hsign : readSign (Nat.toDigits 10 n ++ rest) = ([], Nat.toDigits 10 n ++ rest) := by
    obtain ⟨d, ds, heq⟩ := exists_cons_of_ne_nil (@Nat.toDigits_ne_nil n 10)
    have hd := hdigits d (by simp [heq])
    rw [heq, cons_append]
    unfold readSign
    split
    next hminus =>
      rw [(List.cons.inj hminus).1] at hd
      cases hd
    next => rfl
  simp only [readNumber, hsign, hwhole, hfraction, hexponent, bind_eq_bind, bind_some,
    nil_append, append_nil]
  rw [← toList_toString, String.ofList_toList]
  rfl

/-- The value is read from the front of the text, whatever stands behind it. -/
structure Reads (j : Json) (text : List Char) : Prop where
  begins : ∃ c cs, text = c :: cs ∧ isSpace c = false ∧ c ≠ ']'
  read : ∀ {n : Nat} {rest : List Char}, 2 * text.length ≤ n → ends rest →
    readValue (n + 1) (text ++ rest) = some (j, rest)

lemma Reads.null : Reads .null "null".toList := ⟨⟨_, _, rfl, rfl, by decide⟩, fun _ _ => rfl⟩

lemma Reads.bool (b : Bool) : Reads (.bool b) (if b then "true" else "false").toList := by
  cases b <;> exact ⟨⟨_, _, rfl, rfl, by decide⟩, fun _ _ => rfl⟩

lemma Reads.nat (n : Nat) : Reads (.ofNat n) (toString n).toList := by
  rw [toList_toString]
  obtain ⟨d, ds, heq⟩ := exists_cons_of_ne_nil (@Nat.toDigits_ne_nil n 10)
  have hd : d.isDigit := isDigit_of_mem (by rw [heq]; exact mem_cons_self)
  have hother (c : Char) (hc : c.isDigit = false) : (d == c) = false :=
    beq_eq_false_iff_ne.mpr fun h => by rw [h, hc] at hd; cases hd
  have hspace : isSpace d = false := by simp [isSpace, hother]
  refine ⟨⟨d, ds, heq, hspace, ?_⟩, fun {m rest} _ hends => ?_⟩
  · simpa using hother ']' rfl
  · have hread := readNumber_digits n hends
    rw [heq, cons_append] at hread ⊢
    rw [readValue, skipSpace_cons hspace]
    simpa [hother] using hread

lemma Reads.string (s : String) : Reads (.string s) (quote s).toList := by
  rw [toList_quote]
  refine ⟨⟨_, _, rfl, rfl, by decide⟩, fun {n rest} _ _ => ?_⟩
  rw [cons_append, append_assoc, readValue, skipSpace_cons (by rfl)]
  simp [readString_quoted]

lemma Reads.behind {j : Json} {text lead : List Char} (h : Reads j text)
    (hlead : IsGap lead) (hn : 2 * text.length < n) (hends : ends rest) :
    readValue n (lead ++ (text ++ rest)) = some (j, rest) := by
  obtain ⟨n, rfl⟩ := Nat.exists_eq_add_one_of_ne_zero (Nat.ne_zero_of_lt hn)
  rw [readValue_gap hlead]
  exact h.read (by omega) hends

def tailText (gap closing : List Char) : List (List Char) → List Char
  | [] => closing
  | text :: texts => ',' :: (gap ++ text ++ tailText gap closing texts)

/-- Texts with commas, each behind a gap. -/
def blockText (gap closing : List Char) : List (List Char) → List Char
  | [] => closing
  | text :: texts => gap ++ text ++ tailText gap closing texts

/-- How `R` reads the text of `x`: it goes on behind a comma, and comes to an end at `z`. -/
structure ReadsEach {α : Type} (R : Nat → List α → List Char → Option (Json × List Char))
    (make : List α → Json) (closing : List Char) (z : Char) (text : α → List Char) (x : α) :
    Prop where
  next : ∀ {n found lead rest}, IsGap lead → 2 * (text x).length < n →
    R (n + 1) found (lead ++ (text x ++ ',' :: rest)) = R n (x :: found) rest
  last : ∀ {n found lead rest}, IsGap lead → 2 * (text x).length < n →
    R (n + 1) found (lead ++ (text x ++ (closing ++ z :: rest))) =
      some (make (x :: found).reverse, rest)

section

variable {gap closing : List Char} (hgap : IsGap gap)
include hgap

lemma ReadsEach.run {α : Type} {R : Nat → List α → List Char → Option (Json × List Char)}
    {make : List α → Json} {z : Char} {text : α → List Char} {x : α} {xs : List α}
    (h : ∀ y ∈ x :: xs, ReadsEach R make closing z text y) {lead : List Char} (hlead : IsGap lead)
    (hn : 2 * (text x ++ tailText gap (closing ++ [z]) (xs.map text)).length ≤ n)
    (found : List α) (rest : List Char) :
    R n found (lead ++ (text x ++ (tailText gap (closing ++ [z]) (xs.map text) ++ rest))) =
      some (make (found.reverse ++ x :: xs), rest) := by
  have hx := h x mem_cons_self
  induction xs generalizing x lead n found with
  | nil =>
    simp only [map_nil, tailText, length_append, length_singleton] at hn
    obtain ⟨n, rfl⟩ := Nat.exists_eq_add_one_of_ne_zero (show n ≠ 0 by omega)
    rw [map_nil, tailText, append_assoc, singleton_append, hx.last hlead (by omega)]
    simp
  | cons y ys ih =>
    simp only [map_cons, tailText, length_append, length_cons] at hn
    obtain ⟨n, rfl⟩ := Nat.exists_eq_add_one_of_ne_zero (show n ≠ 0 by omega)
    have hrest := ih (n := n) (fun y hy => h y (mem_cons_of_mem _ hy)) hgap
      (by simp only [length_append]; omega) (x :: found) (h y (mem_cons_of_mem _ mem_cons_self))
    rw [map_cons, tailText, cons_append, hx.next hlead (by omega)]
    simpa using hrest

variable (hclosing : IsGap closing) {f : Json → List Char} {j : Json} {space : List Char}
include hclosing

omit hgap in
lemma readsEach_item (h : Reads j (f j)) : ReadsEach readItems .array closing ']' f j where
  next hlead hn := by
    rw [readItems, h.behind hlead hn rfl]
    simp only [bind_eq_bind, bind_some, skipSpace_cons (c := ',') rfl]
  last hlead hn := by
    rw [readItems, h.behind hlead hn (ends_gap hclosing rfl)]
    simp only [bind_eq_bind, bind_some, skipSpace_gap hclosing, skipSpace_cons (c := ']') rfl]

lemma Reads.array {items : List Json} (h : ∀ j ∈ items, Reads j (f j)) :
    Reads (.array items) ('[' :: blockText gap (closing ++ [']']) (items.map f)) := by
  refine ⟨⟨_, _, rfl, rfl, by decide⟩, fun {n rest} hn _ => ?_⟩
  rw [cons_append, readValue, skipSpace_cons (by rfl)]
  cases items with
  | nil =>
    simp only [map_nil, blockText, append_assoc, skipSpace_gap hclosing]
    rfl
  | cons j items =>
    obtain ⟨c, cs, hcs, hspace, hbracket⟩ := (h j mem_cons_self).begins
    simp only [map_cons, blockText, length_cons, length_append] at hn
    have hlead : IsGap [] := fun c hc => by cases hc
    have hread := ReadsEach.run hgap (fun k hk => readsEach_item hclosing (h k hk)) hlead
      (show 2 * (f j ++ tailText gap (closing ++ [']']) (items.map f)).length ≤ n by
        simp only [length_append]; omega) [] rest
    simp only [map_cons, blockText, append_assoc, skipSpace_gap hgap]
    rw [nil_append, hcs, cons_append] at hread
    rw [hcs, cons_append, skipSpace_cons hspace]
    simpa [hbracket] using hread

def fieldText (space : List Char) (f : Json → List Char) (field : String × Json) : List Char :=
  (quote field.1).toList ++ ':' :: (space ++ f field.2)

omit hgap in
lemma readsEach_field (hspace : IsGap space) {field : String × Json}
    (h : Reads field.2 (f field.2)) :
    ReadsEach (fun n found => readFields n (some found)) .object closing '\x7d'
      (fieldText space f) field := by
  constructor
  all_goals
    intro n found lead rest hlead hn
    simp only [fieldText, toList_quote, length_append, length_cons] at hn
    rw [readFields, skipSpace_gap hlead, fieldText, toList_quote]
    simp only [cons_append, append_assoc, nil_append,
      skipSpace_cons (c := '\x22') rfl, readString_quoted,
      bind_eq_bind, bind_some, skipSpace_cons (c := ':') rfl]
  case next =>
    rw [h.behind hspace (by omega) rfl]
    simp [skipSpace_cons (c := ',') rfl]
  case last =>
    rw [h.behind hspace (by omega) (ends_gap hclosing rfl)]
    simp [skipSpace_gap hclosing, skipSpace_cons (c := '\x7d') rfl]

lemma Reads.object (hspace : IsGap space) {fields : List (String × Json)}
    (h : ∀ x ∈ fields, Reads x.2 (f x.2)) :
    Reads (.object fields)
      ('\x7b' :: blockText gap (closing ++ ['\x7d']) (fields.map (fieldText space f))) := by
  refine ⟨⟨_, _, rfl, rfl, by decide⟩, fun {n rest} hn _ => ?_⟩
  rw [cons_append, readValue, skipSpace_cons (by rfl)]
  cases fields with
  | nil =>
    simp only [map_nil, blockText, append_assoc, skipSpace_gap hclosing]
    rfl
  | cons field fields =>
    simp only [map_cons, blockText, length_cons, length_append] at hn
    have hlead : IsGap [] := fun c hc => by cases hc
    have hread := ReadsEach.run hgap (fun x hx => readsEach_field hclosing hspace (h x hx)) hlead
      (show 2 * (fieldText space f field ++ tailText gap (closing ++ ['\x7d'])
        (fields.map (fieldText space f))).length ≤ n by
          simp only [length_append]; omega) [] rest
    simp only [map_cons, blockText, append_assoc, skipSpace_gap hgap]
    have hquote : ∃ cs, fieldText space f field = '\x22' :: cs :=
      ⟨_, by rw [fieldText, toList_quote, cons_append]⟩
    obtain ⟨cs, hcs⟩ := hquote
    rw [nil_append, hcs, cons_append] at hread
    rw [hcs, cons_append, skipSpace_cons (by rfl)]
    simpa using hread

end

variable {j : Json}

lemma blockText_eq (gap closing : List Char) (texts : List (List Char)) :
    blockText gap closing texts = [','].intercalate (texts.map (gap ++ ·)) ++ closing := by
  cases texts with
  | nil => rfl
  | cons text texts =>
    rw [blockText, map_cons]
    induction texts generalizing text with
    | nil => simp [tailText]
    | cons next texts ih => simp [tailText, ih]

lemma compactItems_eq (items : List Json) : compactItems items = items.map compact := by
  induction items with
  | nil => rfl
  | cons j items ih => rw [compactItems, ih, map_cons]

lemma compactFields_eq (fields : List (String × Json)) :
    compactFields fields = fields.map fun f => quote f.1 ++ ":" ++ compact f.2 := by
  induction fields with
  | nil => rfl
  | cons f fields ih => rw [compactFields, ih, map_cons]

lemma prettyItems_eq (depth : Nat) (items : List Json) :
    prettyItems depth items = items.map (prettyAt depth) := by
  induction items with
  | nil => rfl
  | cons j items ih => rw [prettyItems, ih, map_cons]

lemma prettyFields_eq (depth : Nat) (fields : List (String × Json)) :
    prettyFields depth fields = fields.map fun f => quote f.1 ++ ": " ++ prettyAt depth f.2 := by
  induction fields with
  | nil => rfl
  | cons f fields ih => rw [prettyFields, ih, map_cons]

lemma isGap_newline (depth : Nat) : IsGap (newline depth).toList := by
  intro c hc
  simp only [newline, String.toList_ofList, mem_cons, mem_replicate] at hc
  rcases hc with rfl | ⟨_, rfl⟩ <;> rfl

lemma toList_block (opening closing : String) (depth : Nat) (lines : List String) :
    ∃ gap, IsGap gap ∧ (block opening closing depth lines).toList = opening.toList ++
      blockText (newline (depth + 1)).toList (gap ++ closing.toList) (lines.map String.toList) := by
  cases lines with
  | nil => exact ⟨[], fun c hc => (by cases hc), by simp [block, blockText]⟩
  | cons line lines =>
    refine ⟨(newline depth).toList, isGap_newline depth, ?_⟩
    rw [blockText_eq]
    change (opening ++ withCommas ((line :: lines).map fun l => newline (depth + 1) ++ l) ++
      newline depth ++ closing).toList = _
    simp only [withCommas, String.toList_append, String.toList_intercalate, List.map_map,
      Function.comp_def, append_assoc]
    rfl

lemma Plain.reads_compact (h : Plain j) : Reads j (compact j).toList := by
  have hnone : IsGap [] := fun c hc => by cases hc
  induction h with
  | null => exact .null
  | bool b => exact .bool b
  | nat n => exact .nat n
  | string s => exact .string s
  | @array items _ ih =>
    have htext : (compact (.array items)).toList =
        '[' :: blockText [] ([] ++ [']']) (items.map fun j => (compact j).toList) := by
      rw [compact, compactItems_eq, blockText_eq]
      simp [withCommas, String.toList_intercalate, Function.comp_def]
    rw [htext]
    exact .array hnone hnone ih
  | @object fields _ ih =>
    have htext : (compact (.object fields)).toList = '\x7b' :: blockText [] ([] ++ ['\x7d'])
        (fields.map (fieldText [] fun j => (compact j).toList)) := by
      rw [compact, compactFields_eq, blockText_eq]
      simp [withCommas, String.toList_intercalate, Function.comp_def, fieldText]
    rw [htext]
    exact .object hnone hnone hnone ih

lemma Plain.reads_prettyAt (h : Plain j) (depth : Nat) : Reads j (prettyAt depth j).toList := by
  induction h generalizing depth with
  | null => rw [prettyAt]; exact .null
  | bool b => rw [prettyAt]; exact .bool b
  | nat n => rw [Json.ofNat, prettyAt]; exact .nat n
  | string s => rw [prettyAt]; exact .string s
  | @array items _ ih =>
    obtain ⟨gap, hgap, htext⟩ := toList_block "[" "]" depth (items.map (prettyAt (depth + 1)))
    rw [prettyAt, prettyItems_eq, htext, List.map_map]
    exact .array (isGap_newline _) hgap fun j hj => ih j hj (depth + 1)
  | @object fields _ ih =>
    obtain ⟨gap, hgap, htext⟩ := toList_block "\x7b" "\x7d" depth
      (fields.map fun f => quote f.1 ++ ": " ++ prettyAt (depth + 1) f.2)
    have hspace : IsGap [' '] := fun c hc => by rw [mem_singleton.mp hc]; rfl
    have hfields : (fields.map fun f => quote f.1 ++ ": " ++ prettyAt (depth + 1) f.2).map
        String.toList = fields.map (fieldText [' '] fun j => (prettyAt (depth + 1) j).toList) := by
      simp [fieldText, Function.comp_def]
    rw [prettyAt, prettyFields_eq, htext, hfields]
    exact .object (isGap_newline _) hgap hspace fun f hf => ih f hf (depth + 1)

lemma read?_of_reads {text : String} (h : Reads j text.toList) : read? text = some j := by
  have hread : readValue (2 * text.toList.length + 1 + 1) (text.toList ++ []) = some (j, []) :=
    h.read (Nat.le_succ _) rfl
  rw [append_nil] at hread
  rw [read?, hread]
  rfl

lemma Plain.read?_compact (h : Plain j) : read? (compact j) = some j :=
  read?_of_reads h.reads_compact

lemma Plain.read?_pretty (h : Plain j) : read? (pretty j) = some j :=
  read?_of_reads (h.reads_prettyAt 0)

end Xref.Json
