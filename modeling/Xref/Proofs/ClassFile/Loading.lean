import Mathlib.Data.List.TakeDrop
import Xref.ClassFile.Describe
import Xref.Proofs.ClassFile.Truncation
import Xref.Proofs.Text.Pieces
import Xref.Proofs.Text.Utf8

/-!
# Loading a class never fails

The loader once more, with an outcome of its own for an access that fails: a byte, a slot of the
pool or a part of a text that is not there, or rounds of a loop that run out. Texts are cut by
bytes, and can only be cut between two characters. Whatever the bytes of a class are, no access
fails.
-/
open List

namespace Xref.ClassFile

open Java Text

section

variable {α : Type}

def part? (l : List α) (start stop : Nat) : Option (List α) :=
  if start ≤ stop ∧ stop ≤ l.length then some ((l.take stop).drop start) else none

/-- The list with another item at a position, if it has that position. -/
def put? (l : List α) (i : Nat) (a : α) : Option (List α) :=
  if i < l.length then some (l.set i a) else none

end

def bytesOf (cs : List Char) : List UInt8 := cs.flatMap String.utf8EncodeChar

/-- The text between two bytes. Bytes that begin or end inside of a character are no text. -/
def textPart? (cs : List Char) (start stop : Nat) : Option (List Char) := do
  let text ← decodeUtf8? (← part? (bytesOf cs) start stop)
  return text.toList

/-- A computation that may find nothing. No outcome at all stands for a failed access. -/
abbrev Checked := OptionT Option

namespace Checked

variable {α β : Type}

def found (a : Option α) : Checked α := some a

def access (a : Option α) : Checked α := a.map some

variable (a : α) (f : α → Checked β)

@[simp] lemma found_bind : found (some a) >>= f = f a := rfl

@[simp] lemma access_bind : access (some a) >>= f = f a := rfl

end Checked

open Checked

def fillAt (count : Nat) : (rounds index : Nat) → List Constant → Decode (Option (List Constant))
  | 0, _, _ => return none
  | rounds + 1, index, pool =>
    if index < count then do
      let slots ← constant
      match put? pool index (slots.headD .unusable) with
      | some pool => fillAt count rounds (index + slots.length) pool
      | none => return none
    else return some pool

def poolAt : Decode (Option (List Constant)) := do
  let count ← u2
  fillAt count (count + 1) 1 (replicate (max count 1) .unusable)

def classFileAt : Decode (Option ClassFile) := do
  if (← u4) != magic then refuse .badMagic
  skip 4
  match ← poolAt with
  | some pool => return some (← classBody pool)
  | none => return none

/-- The type at the front of a descriptor, and the number of its bytes. -/
def fieldTypeAt (cs : List Char) : Checked (String × Nat) := do
  let bytes := bytesOf cs
  let dims := (bytes.takeWhile (· == 0x5B)).length
  let letter ← found bytes[dims]?
  if letter == 0x4C then
    let rest ← access (textPart? cs dims bytes.length)
    let stop ← found ((bytesOf rest).findIdx? (· == 0x3B))
    let name ← access (textPart? cs (dims + 1) (dims + stop))
    return (withDims (binaryName (String.ofList name)) dims, dims + (stop + 1))
  else
    let name ← found (primitiveLetters.lookup (Char.ofNat letter.toNat))
    return (withDims name dims, dims + 1)

/-- Types up to a closing parenthesis, which begins the rest. -/
def paramsAt : Nat → List Char → Checked (List String × List Char)
  | 0, _ => access none
  | rounds + 1, cs =>
    if cs.head? = some ')' then return ([], cs)
    else do
      let (type, size) ← fieldTypeAt cs
      let (types, rest) ← paramsAt rounds (← access (textPart? cs size (bytesOf cs).length))
      return (type :: types, rest)

def methodTypeAt (rounds : Nat) : List Char → Checked (List String × String)
  | '(' :: cs => do
    let (params, rest) ← paramsAt rounds cs
    let (returned, _) ← fieldTypeAt (← access (textPart? rest 1 (bytesOf rest).length))
    return (params, returned)
  | _ => found none

def fieldInfoAt (m : Member) : Checked FieldInfo :=
  if Flag.isSet Flag.synthetic m.flags then found none
  else do return m.asField (← fieldTypeAt m.descriptor.toList).1

def methodInfoAt (more : Nat) (c : ClassFile) (m : Member) : Checked MethodInfo :=
  if m.isHidden then found none
  else do
    let (params, returned) ← methodTypeAt (m.descriptor.length + more) m.descriptor.toList
    return c.asMethod m params returned

def describeAt (more : Nat) (c : ClassFile) (path : String) : Option TypeInfo := do
  let fields ← c.fields.mapM fun m => (fieldInfoAt m).run
  let methods ← c.methods.mapM fun m => (methodInfoAt more c m).run
  return { c.describe path with fields := fields.filterMap id, methods := methods.filterMap id }

def loadAt (more : Nat) (bytes : List UInt8) (path : String) : Option (Except Fault TypeInfo) :=
  match classFileAt ⟨bytes, 0⟩ with
  | .ok (c, _) => do return .ok (← describeAt more (← c) path)
  | .error fault => some (.error fault)

section

variable {α : Type}

lemma constant_bind {f g : List Constant → Decode α} (hone : ∀ c, f [c] = g [c])
    (htwo : f [.other, .unusable] = g [.other, .unusable]) : constant >>= f = constant >>= g := by
  have hrefuse (tag : Nat) (f : List Constant → Decode α) :
      refuse (.unknownTag tag) >>= f = refuse (.unknownTag tag) := rfl
  unfold constant
  simp only [bind_assoc, apply_ite (· >>= f), apply_ite (· >>= g), pure_bind, hone, htwo, hrefuse]

end

lemma put?_append (front : List Constant) (c : Constant) (n : Nat) :
    put? (front ++ replicate (n + 1) .unusable) front.length c =
      some (front ++ c :: replicate n .unusable) := by
  rw [put?, if_pos (by simp)]
  simp [replicate_succ]

lemma fillAt_of_le {count index : Nat} (h : count ≤ index) (rounds : Nat) (pool : List Constant) :
    fillAt count (rounds + 1) index pool = pure (some pool) := by
  rw [fillAt, if_neg (by omega)]

/-- The slots before `front.length` are written, the others are still unusable. -/
lemma fillAt_eq {count n : Nat} (rounds : Nat) (front : List Constant)
    (hcount : front.length + n = count) (hrounds : n ≤ rounds) :
    fillAt count (rounds + 1) front.length (front ++ replicate n .unusable) =
      constants n >>= fun cs => pure (some (front ++ cs)) := by
  induction n using constants.induct generalizing front rounds with
  | case1 => rw [fillAt_of_le (by omega), constants, pure_bind, replicate_zero]
  | case2 =>
    obtain ⟨more, rfl⟩ := Nat.exists_eq_add_of_le' hrounds
    rw [fillAt, if_pos (by omega), constants, bind_assoc]
    -- A wide constant in the last slot has no second one.
    refine constant_bind (fun c => ?_) ?_ <;>
      simp only [headD_cons, put?_append, pure_bind] <;> rw [fillAt_of_le (by simp; omega)] <;> rfl
  | case3 n ihone ihtwo =>
    obtain ⟨more, rfl⟩ := Nat.exists_eq_add_of_le' hrounds
    rw [fillAt, if_pos (by omega), constants, bind_assoc]
    refine constant_bind (fun c => ?_) ?_
    · have h := ihone (more + n + 1) (front ++ [c]) (by simp; omega) (by omega)
      simp only [append_assoc, length_append] at h
      simp only [headD_cons, put?_append, bind_assoc, pure_bind]
      exact h
    · have h := ihtwo (more + n + 1) (front ++ [.other, .unusable]) (by simp; omega) (by omega)
      simp only [append_assoc, length_append] at h
      simp only [headD_cons, put?_append, bind_assoc, pure_bind]
      exact h

lemma poolAt_eq : poolAt = constantPool >>= fun pool => pure (some pool) := by
  rw [poolAt, constantPool, bind_assoc]
  refine bind_congr fun count => ?_
  cases count with
  | zero => rfl
  | succ n =>
    rw [Nat.max_eq_left (Nat.le_add_left 1 n), bind_assoc]
    exact fillAt_eq (n + 1) [.unusable] (Nat.add_comm 1 n) (Nat.le_succ n)

lemma classFileAt_eq : classFileAt = classFile >>= fun c => pure (some c) := by
  unfold classFileAt classFile
  simp only [poolAt_eq, bind_assoc, pure_bind]
  refine bind_congr fun value => ?_
  split <;> simp only [bind_assoc]

lemma bytesOf_append (xs ys : List Char) : bytesOf (xs ++ ys) = bytesOf xs ++ bytesOf ys :=
  flatMap_append

lemma textPart?_append (before between after : List Char) {start stop : Nat}
    (hstart : (bytesOf before).length = start) (hstop : start + (bytesOf between).length = stop) :
    textPart? (before ++ between ++ after) start stop = some between := by
  have hdecode : decodeUtf8? (bytesOf between) = some (String.ofList between) := by
    have h := decodeUtf8?_encodeUtf8 (String.ofList between)
    rwa [encodeUtf8, String.toList_ofList] at h
  subst hstart hstop
  rw [textPart?, bytesOf_append, bytesOf_append, part?, if_pos (by simp),
    ← length_append, take_left, drop_left]
  simp [hdecode]

lemma textPart?_rest (before after : List Char) {start : Nat}
    (hstart : (bytesOf before).length = start) :
    textPart? (before ++ after) start (bytesOf (before ++ after)).length = some after := by
  subst hstart
  have h := textPart?_append before after [] rfl rfl
  rwa [append_nil, ← length_append, ← bytesOf_append] at h

/-- A byte of ASCII that occurs in a character is all of it. -/
lemma bytes_of_ascii {c : Char} {b : UInt8} (h : b ∈ String.utf8EncodeChar c)
    (hb : b.toNat < 0x80) :
    String.utf8EncodeChar c = [b] ∧ c.toNat = b.toNat := by
  have hval : c.val.toNat = c.toNat := rfl
  simp only [String.utf8EncodeChar, hval] at h ⊢
  split at h
  next hsmall =>
    obtain rfl := mem_singleton.mp h
    rw [if_pos hsmall]
    exact ⟨rfl, by simp; omega⟩
  next =>
    -- All bytes of longer characters are above ASCII.
    exfalso
    repeat' split at h
    all_goals
      simp only [mem_cons, not_mem_nil, or_false] at h
      rcases h with rfl | rfl | rfl | rfl <;> simp at hb <;> omega

lemma eq_of_byte {b : UInt8} {c d : Char} (h : b ∈ String.utf8EncodeChar c) (hd : d.toNat < 0x80)
    (hb : b.toNat = d.toNat) : c = d :=
  Char.toNat_inj.mp ((bytes_of_ascii h (hb ▸ hd)).2.trans hb)

/-- A semicolon is found at its byte. -/
lemma findIdx?_bytesOf (cs : List Char) : (bytesOf cs).findIdx? (· == 0x3B) =
    (cutChars ';' cs).map fun p => (bytesOf p.1).length := by
  induction cs with
  | nil => rfl
  | cons c cs ih =>
    rw [cutChars]
    split
    next hc =>
      rw [eq_of_beq hc]
      rfl
    next hc =>
      have hnone : (String.utf8EncodeChar c).findIdx? (· == 0x3B) = none := by
        refine findIdx?_eq_none_iff.mpr fun b hb => ?_
        by_contra hsemicolon
        refine hc (beq_iff_eq.mpr (eq_of_byte hb (by decide) ?_))
        rw [eq_of_beq (by simpa using hsemicolon : (b == 0x3B) = true)]
        rfl
      rw [bytesOf, flatMap_cons, findIdx?_append, hnone, ← bytesOf, ih]
      simp [bytesOf, Function.comp_def, Nat.add_comm]

lemma lookup_first_byte {b : UInt8} {c : Char} {bs : List UInt8}
    (h : String.utf8EncodeChar c = b :: bs) :
    primitiveLetters.lookup (Char.ofNat b.toNat) = primitiveLetters.lookup c := by
  have hmem : b ∈ String.utf8EncodeChar c := by simp [h]
  by_cases hb : b.toNat < 0x80
  · rw [← (bytes_of_ascii hmem hb).2, Char.ofNat_toNat]
  have hnone {d : Char} (hd : 0x80 ≤ d.toNat) : primitiveLetters.lookup d = none := by
    have hletters : ∀ p ∈ primitiveLetters, p.1.toNat < 0x80 := by decide
    refine lookup_eq_none_iff.mpr fun p hp => bne_iff_ne.mpr ?_
    rintro rfl
    exact absurd (hletters p hp) (Nat.not_lt.mpr hd)
  have hc : 0x80 ≤ c.toNat := by
    by_contra hlow
    have hone : c.val.toNat ≤ 0x7F := Nat.lt_succ_iff.mp (Nat.not_le.mp hlow)
    simp only [String.utf8EncodeChar, if_pos hone, cons.injEq] at h
    rw [← h.1] at hb
    simp at hb
    omega
  have hvalid : b.toNat.isValidChar := .inl (Nat.lt_trans b.toNat_lt (by decide))
  rw [hnone hc, hnone]
  rw [Char.ofNat, dif_pos hvalid]
  exact Nat.not_lt.mp hb

lemma bytesOf_brackets (d : Nat) : bytesOf (replicate d '[') = replicate d 0x5B := by
  induction d with
  | zero => rfl
  | succ d ih =>
    rw [replicate_succ, bytesOf, flatMap_cons, ← bytesOf, ih]
    rfl

/-- The brackets at the front of a text are as many bytes. -/
lemma dims_eq {cs : List Char} (h : cs.head? ≠ some '[') (d : Nat) :
    ((bytesOf (replicate d '[' ++ cs)).takeWhile (· == 0x5B)).length = d := by
  rw [bytesOf_append, bytesOf_brackets, takeWhile_append_of_pos (by simp)]
  cases cs with
  | nil => simp [bytesOf]
  | cons c cs =>
    obtain ⟨b, bs, hb⟩ := exists_cons_of_ne_nil (String.utf8EncodeChar_ne_nil (c := c))
    have hne : b ≠ 0x5B := by
      rintro rfl
      exact h (congrArg some (eq_of_byte (b := 0x5B) (by simp [hb]) (by decide) rfl))
    simp [bytesOf, hb, hne]

/-- A type is found by address where it is found at all, and it ends at the same character. -/
lemma fieldTypeAt_spec (cs : List Char) :
    readType cs = none ∧ fieldTypeAt cs = found none ∨
      ∃ type used rest, cs = used ++ rest ∧ used ≠ [] ∧ readType cs = some (type, rest) ∧
        fieldTypeAt cs = found (some (type, (bytesOf used).length)) := by
  obtain ⟨d, rest, rfl, hrest, hread⟩ : ∃ d rest, cs = replicate d '[' ++ rest ∧
      rest.head? ≠ some '[' ∧ readType cs = (readBase rest).map fun p => (withDims p.1 d, p.2) := by
    refine ⟨(cs.takeWhile (· == '[')).length, cs.dropWhile (· == '['), ?_, ?_, ?_⟩
    · have hall : cs.takeWhile (· == '[') = replicate (cs.takeWhile (· == '[')).length '[' :=
        eq_replicate_of_mem fun c hc => eq_of_beq (all_eq_true.mp all_takeWhile c hc)
      rw [← hall, takeWhile_append_dropWhile]
    · intro hhead
      have := head?_dropWhile_not (· == '[') cs
      simp [hhead] at this
    · rw [readType, span_eq_takeWhile_dropWhile]
  have hlength : (bytesOf (replicate d '[')).length = d := by
    rw [bytesOf_brackets, length_replicate]
  rw [hread]
  simp only [fieldTypeAt, dims_eq hrest]
  cases rest with
  | nil =>
    refine .inl ⟨rfl, ?_⟩
    rw [getElem?_eq_none (by simp [hlength])]
    rfl
  | cons c rest =>
    obtain ⟨b, bs, hb⟩ := exists_cons_of_ne_nil (String.utf8EncodeChar_ne_nil (c := c))
    have hletter : (bytesOf (replicate d '[' ++ c :: rest))[d]? = some b := by
      rw [bytesOf_append, getElem?_append_right (Nat.le_of_eq hlength), hlength,
        Nat.sub_self, bytesOf, flatMap_cons, hb]
      rfl
    rw [hletter]
    by_cases hc : c = 'L'
    · subst hc
      have hL : b == 0x4C := beq_iff_eq.mpr (cons.inj hb).1.symm
      have hrest := textPart?_rest (replicate d '[') ('L' :: rest) hlength
      simp only [found_bind, if_pos hL, hrest, access_bind, findIdx?_bytesOf]
      rw [cutChars, if_neg (by decide), readBase, if_pos (by decide)]
      cases hcut : cutChars ';' rest with
      | none => exact .inl ⟨rfl, rfl⟩
      | some cut =>
        obtain ⟨name, after⟩ := cut
        obtain ⟨-, rfl⟩ := cutChars_eq_some.mp hcut
        have hname : textPart? (replicate d '[' ++ ['L'] ++ name ++ ';' :: after) (d + 1)
            (d + (bytesOf ('L' :: name)).length) = some name := by
          refine textPart?_append _ name _ (by rw [bytesOf_append, length_append, hlength]; rfl) ?_
          rw [Nat.add_assoc, ← singleton_append, bytesOf_append, length_append]
          rfl
        simp only [append_assoc, cons_append, nil_append] at hname
        refine .inr ⟨_, replicate d '[' ++ 'L' :: name ++ [';'], after, by simp, by simp, rfl, ?_⟩
        simp only [Option.map_some, found_bind, hname, access_bind, bytesOf_append, length_append,
          hlength, Nat.add_assoc]
        rfl
    · have hL : ¬ b == 0x4C := fun h =>
        hc (eq_of_byte (b := b) (by simp [hb]) (by decide) (congrArg _ (eq_of_beq h)))
      simp only [found_bind, if_neg hL, lookup_first_byte hb]
      rw [readBase, if_neg (by simpa using hc)]
      cases hlookup : primitiveLetters.lookup c with
      | none => exact .inl ⟨rfl, rfl⟩
      | some name =>
        have hsize : ∀ p ∈ primitiveLetters, (bytesOf [p.1]).length = 1 := by decide
        obtain ⟨_, _, hletters, -⟩ := lookup_eq_some_iff.mp hlookup
        refine .inr ⟨_, replicate d '[' ++ [c], rest, by simp, by simp, rfl, ?_⟩
        rw [bytesOf_append, length_append, hlength, hsize (c, name) (by simp [hletters])]
        rfl

/-- Each round takes at least one character, so the rounds do not run out. -/
lemma paramsAt_eq {rounds fuel : Nat} (cs : List Char) (hrounds : cs.length < rounds)
    (hfuel : cs.length < fuel) :
    paramsAt rounds cs = found ((readParams fuel cs).map fun p => (p.1, ')' :: p.2)) := by
  induction rounds generalizing fuel cs with
  | zero => exact absurd hrounds (Nat.not_lt_zero _)
  | succ rounds ih =>
    obtain ⟨fuel, rfl⟩ := Nat.exists_eq_succ_of_ne_zero (Nat.ne_zero_of_lt hfuel)
    rw [paramsAt]
    split
    next hhead =>
      obtain ⟨rest, rfl⟩ := head?_eq_some_iff.mp hhead
      rfl
    next hhead =>
      have hopen : ∀ rest, cs = ')' :: rest → False := by
        rintro rest rfl
        exact hhead rfl
      rw [readParams.eq_3 _ _ hopen]
      obtain ⟨hread, hat⟩ | ⟨type, used, rest, rfl, hused, hread, hat⟩ := fieldTypeAt_spec cs
      · rw [hread, hat]
        rfl
      · have hpos := length_pos_iff.mpr hused
        rw [length_append] at hrounds hfuel
        have hrest : paramsAt rounds rest =
            found ((readParams fuel rest).map fun p => (p.1, ')' :: p.2)) :=
          ih rest (by omega) (by omega)
        simp only [hread, hat, found_bind, textPart?_rest used rest rfl, access_bind, hrest,
          Option.bind_eq_bind, Option.bind_some]
        cases readParams fuel rest <;> rfl

lemma methodTypeAt_eq (more : Nat) (descriptor : String) :
    methodTypeAt (descriptor.length + more) descriptor.toList = found (methodType? descriptor) := by
  by_cases h : ∃ cs, descriptor.toList = '(' :: cs
  · obtain ⟨cs, hcs⟩ := h
    have hlength : descriptor.length = cs.length + 1 := by
      rw [← String.length_toList, hcs, length_cons]
    have hparams : paramsAt (descriptor.length + more) cs =
        found ((readParams (cs.length + 1) cs).map fun p => (p.1, ')' :: p.2)) :=
      paramsAt_eq cs (by omega) (by omega)
    simp only [methodType?, hcs, methodTypeAt, hparams]
    cases readParams (cs.length + 1) cs with
    | none => rfl
    | some p =>
      have hrest : textPart? (')' :: p.2) 1 (bytesOf (')' :: p.2)).length = some p.2 :=
        textPart?_rest [')'] p.2 rfl
      simp only [Option.map_some, found_bind, hrest, access_bind, Option.bind_eq_bind,
        Option.bind_some]
      obtain ⟨hread, hat⟩ | ⟨type, used, rest, -, -, hread, hat⟩ := fieldTypeAt_spec p.2 <;>
        rw [hread, hat] <;> rfl
  · have hnot : ∀ cs, descriptor.toList = '(' :: cs → False := fun cs hcs => h ⟨cs, hcs⟩
    rw [methodTypeAt.eq_2 _ _ hnot, methodType?]
    split
    next cs hcs => exact absurd hcs (hnot cs)
    next => rfl

lemma fieldInfoAt_eq (m : Member) : fieldInfoAt m = found (fieldInfo? m) := by
  unfold fieldInfoAt fieldInfo? fieldType?
  split
  · rfl
  obtain ⟨hread, hat⟩ | ⟨type, used, rest, -, -, hread, hat⟩ :=
    fieldTypeAt_spec m.descriptor.toList <;>
    rw [hread, hat] <;> rfl

lemma methodInfoAt_eq (more : Nat) (c : ClassFile) (m : Member) :
    methodInfoAt more c m = found (c.methodInfo? m) := by
  unfold methodInfoAt methodInfo?
  split
  · rfl
  rw [methodTypeAt_eq]
  cases methodType? m.descriptor <;> rfl

lemma mapM_found {α : Type} (f : Member → Option α) (ms : List Member) :
    ms.mapM (fun m => (found (f m)).run) = some (ms.map f) := by
  induction ms with
  | nil => rfl
  | cons m ms ih =>
    rw [mapM_cons, ih]
    rfl

lemma describeAt_eq (more : Nat) (c : ClassFile) (path : String) :
    describeAt more c path = some (c.describe path) := by
  simp only [describeAt, fieldInfoAt_eq, methodInfoAt_eq, mapM_found]
  simp [describe, filterMap_map]

/-- Bytes are taken by position where the input has them. -/
def takeAt (n : Nat) (bytes : List UInt8) (offset : Nat) : Except Fault (List UInt8 × Cursor) :=
  match part? bytes offset (offset + n) with
  | some taken => .ok (taken, ⟨bytes.drop (offset + n), offset + n⟩)
  | none => .error ⟨.unexpectedEnd, offset⟩

lemma takeAt_eq (n : Nat) (before rest : List UInt8) :
    takeAt n (before ++ rest) before.length = take n ⟨rest, before.length⟩ := by
  rw [take, takeAt, part?, splitBytes_eq, length_append]
  by_cases hn : n ≤ rest.length
  · rw [if_pos hn, if_pos ⟨by omega, by omega⟩]
    simp [take_append, drop_append]
  · rw [if_neg hn, if_neg (by omega)]

/-- Loading makes no access that fails and no loop that goes on, whatever the bytes and however many
rounds are left over: it ends with a fault of the input or with a type. Wherever the reader has come
to, the bytes that it takes are a part of the input. -/
theorem loadAt_eq (more : Nat) (before rest : List UInt8) (path : String) :
    loadAt more (before ++ rest) path =
        some ((ofBytes (before ++ rest)).map fun c => c.describe path) ∧
      ∀ n, takeAt n (before ++ rest) before.length = take n ⟨rest, before.length⟩ := by
  refine ⟨?_, fun n => takeAt_eq n before rest⟩
  rw [loadAt, classFileAt_eq, ofBytes, StateT.run]
  change (match classFile ⟨before ++ rest, 0⟩ >>= fun p => .ok (some p.1, p.2) with
    | .ok (c, _) => _
    | .error fault => _) = _
  cases classFile ⟨before ++ rest, 0⟩ with
  | error fault => rfl
  | ok p =>
    change (describeAt more p.1 path >>= fun info => some (Except.ok info)) = _
    rw [describeAt_eq]
    rfl

end Xref.ClassFile
