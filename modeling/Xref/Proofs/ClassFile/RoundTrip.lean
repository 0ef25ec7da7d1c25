import Xref.Proofs.ClassFile.Layout
import Xref.Proofs.Text.Utf8

/-!
# Class files are read as they are written

Reading the bytes of a layout gives what the layout says. Each part of a layout has bytes that its
reader takes from the front of the input, whatever follows them.
-/
open List

namespace Xref.ClassFile

open Text

/-- A character that is neither NUL nor supplementary is read back from its bytes. -/
lemma readUtf8_charBytes {c : Char} (hpos : 0 < c.toNat) (hplain : c.toNat < 0x10000)
    (bs : List UInt8) : readUtf8 none (charBytes c ++ bs) = some c :: readUtf8 none bs := by
  rw [charBytes, if_pos hplain, unitBytes]
  split
  next h => exact readUtf8_one bs h.2
  next h =>
    split
    next h' => exact readUtf8_two bs (by omega)
    next h' => exact readUtf8_three bs (by omega)

lemma decodeLossy_bytes (t : PlainText) : decodeLossy t.bytes = t.text := by
  have hread : ∀ cs : List Char, (∀ c ∈ cs, 0 < c.toNat ∧ c.toNat < 0x10000) →
      readUtf8 none (cs.flatMap charBytes) = cs.map some := by
    intro cs hcs
    induction cs with
    | nil => rfl
    | cons c cs ih =>
      obtain ⟨⟨hpos, hplain⟩, hcs⟩ := forall_mem_cons.mp hcs
      rw [flatMap_cons, readUtf8_charBytes hpos hplain, ih hcs, map_cons]
  rw [decodeLossy, PlainText.bytes, hread _ t.plain, map_map]
  simp [Function.comp_def]

/-- The reader takes exactly `bs` from the front of the input and makes `a` of it. -/
def Reads {α : Type} (x : Decode α) (bs : List UInt8) (a : α) : Prop :=
  ∀ rest offset, x ⟨bs ++ rest, offset⟩ = .ok (a, ⟨rest, offset + bs.length⟩)

namespace Reads

variable {α β : Type} {bs cs : List UInt8} {n : Nat}

lemma pure (a : α) : Reads (pure a) [] a := fun _ _ => rfl

section

variable {x : Decode α} {f : α → Decode β} {a : α} {b : β}

lemma bind (hx : Reads x bs a) (hf : Reads (f a) cs b) : Reads (x >>= f) (bs ++ cs) b := by
  intro rest offset
  change (x ⟨bs ++ cs ++ rest, offset⟩ >>= fun p => f p.1 p.2) = _
  rw [append_assoc, hx]
  change f a ⟨cs ++ rest, offset + bs.length⟩ = _
  rw [hf, length_append, Nat.add_assoc]

lemma after (hx : Reads x [] a) (hf : Reads (f a) bs b) : Reads (x >>= f) bs b := hx.bind hf

lemma before (hx : Reads x bs a) (hf : Reads (f a) [] b) : Reads (x >>= f) bs b := by
  have h := hx.bind hf
  rwa [append_nil] at h

end

lemma map {x : Decode α} {a : α} (hx : Reads x bs a) (f : α → β) :
    Reads (x >>= fun a => Pure.pure (f a)) bs (f a) :=
  hx.before (pure (f a))

lemma take (bs : List UInt8) : Reads (take bs.length) bs bs := by
  have hsplit : ∀ rest, splitBytes bs.length (bs ++ rest) = some (bs, rest) := by
    intro rest
    induction bs with
    | nil => rfl
    | cons b bs ih => simp [splitBytes, ih]
  intro rest offset
  simp only [ClassFile.take, hsplit]

lemma skip (bs : List UInt8) : Reads (skip bs.length) bs () := (take bs).map fun _ => ()

lemma number (bs : List UInt8) : Reads (number bs.length) bs (bigEndian bs) :=
  (take bs).map bigEndian

lemma u2 (h : n < 65536) : Reads u2 (twoBytes n) n := by
  have hvalue : bigEndian (twoBytes n) = n := by
    simp only [twoBytes, bigEndian, foldl_cons, foldl_nil,
      toNat_ofNat_of_lt (show n / 256 < 256 by omega), toNat_ofNat_of_lt (Nat.mod_lt n (by omega))]
    omega
  have h := number (twoBytes n)
  rw [hvalue] at h
  exact h

lemma u4 (h : n < 4294967296) : Reads u4 (fourBytes n) n := by
  have hvalue : bigEndian (fourBytes n) = n := by
    simp only [fourBytes, twoBytes, bigEndian, cons_append, nil_append, foldl_cons,
      foldl_nil, toNat_ofNat_of_lt (show n / 65536 / 256 < 256 by omega),
      toNat_ofNat_of_lt (show n % 65536 / 256 < 256 by omega),
      toNat_ofNat_of_lt (Nat.mod_lt _ (show 0 < 256 by omega))]
    omega
  have h := number (fourBytes n)
  rw [hvalue] at h
  exact h

section

variable {item : Decode β} {encode : α → List UInt8} {value : α → β}
  (hitem : ∀ a, Reads item (encode a) (value a))
include hitem

lemma times (l : List α) : Reads (times item l.length) (l.flatMap encode) (l.map value) := by
  induction l with
  | nil => exact pure []
  | cons a l ih => exact (hitem a).bind (ih.map fun values => value a :: values)

lemma table (t : Table α) :
    Reads (do ClassFile.times item (← ClassFile.u2)) (t.bytes encode) (t.val.map value) :=
  (u2 t.property).bind (times hitem t.val)

end

lemma tableThen {γ : Type} {item : Decode β} {encode : α → List UInt8} {value : α → β}
    (hitem : ∀ a, Reads item (encode a) (value a)) (t : Table α) {f : List β → Decode γ} {c : γ}
    (hf : Reads (f (t.val.map value)) cs c) :
    Reads (ClassFile.u2 >>= fun n => ClassFile.times item n >>= f) (t.bytes encode ++ cs) c := by
  rw [Table.bytes, append_assoc]
  exact (u2 t.property).bind ((times hitem t.val).bind hf)

end Reads

def Entry.constant : Entry → Constant
  | utf8 text => .text text.text
  | classEntry name => .classRef name.toNat
  | _ => .other

def slotConstant (slot : Option Entry) : Constant := slot.elim .unusable Entry.constant

lemma reads_tag (e : Entry) : Reads u1 [e.tag] e.tag.toNat := by
  have h := Reads.number [e.tag]
  rw [show bigEndian [e.tag] = e.tag.toNat by simp [bigEndian]] at h
  exact h

lemma reads_constant (e : Entry) : Reads constant e.bytes (e.slots.map slotConstant) := by
  refine (reads_tag e).bind (?_ : Reads _ e.content _)
  cases e with
  | utf8 text =>
    have h := (Reads.take text.bytes).map fun bs => [Constant.text (decodeLossy bs)]
    rw [decodeLossy_bytes] at h
    exact (Reads.u2 text.fits).bind h
  | classEntry name => exact (Reads.u2 name.toNat_lt).map fun n => [Constant.classRef n]
  | long high low | double high low =>
    exact (Reads.skip (fourBytes high.toNat ++ fourBytes low.toNat)).map fun _ =>
      [Constant.other, .unusable]
  | integer bits | float bits =>
    exact (Reads.skip (fourBytes bits.toNat)).map fun _ => [Constant.other]
  | string i | methodType i | moduleEntry i | packageEntry i =>
    exact (Reads.skip (twoBytes i.toNat)).map fun _ => [Constant.other]
  | fieldRef i j | methodRef i j | interfaceMethodRef i j | nameAndType i j | dynamic i j
  | invokeDynamic i j =>
    exact (Reads.skip (twoBytes i.toNat ++ twoBytes j.toNat)).map fun _ => [Constant.other]
  | methodHandle kind i =>
    exact (Reads.skip (kind :: twoBytes i.toNat)).map fun _ => [Constant.other]

lemma Entry.slots_ne_nil (e : Entry) : e.slots ≠ [] := by cases e <;> exact cons_ne_nil _ _

lemma reads_constants (entries : List Entry) :
    Reads (constants (entries.flatMap Entry.slots).length) (entries.flatMap Entry.bytes)
      ((entries.flatMap Entry.slots).map slotConstant) := by
  induction entries with
  | nil => exact Reads.pure []
  | cons e entries ih =>
    have hfirst := reads_constant e
    obtain hone | htwo : e.slots = [some e] ∨ e.slots = [some e, none] := by
      cases e <;> simp [Entry.slots]
    · rw [flatMap_cons, hone]
      rw [hone] at hfirst
      cases entries with
      | nil =>
        rw [flatMap_singleton]
        exact hfirst.map (List.take 1)
      | cons e' entries =>
        obtain ⟨slot, slots, hslots⟩ :
            ∃ slot slots, (e' :: entries).flatMap Entry.slots = slot :: slots :=
          exists_cons_of_ne_nil fun h => e'.slots_ne_nil (append_eq_nil_iff.mp h).1
        rw [hslots] at ih ⊢
        exact hfirst.bind (ih.map fun rest => slotConstant (some e) :: rest)
    · rw [flatMap_cons, htwo]
      rw [htwo] at hfirst
      exact hfirst.bind (ih.map fun rest => [slotConstant (some e), slotConstant none] ++ rest)

lemma reads_pool (p : Pool) : Reads constantPool p.bytes (p.slots.map slotConstant) :=
  (Reads.u2 p.fits).bind ((reads_constants p.entries).map fun rest => Constant.unusable :: rest)

section

variable {p : Pool}

lemma getElem?_pool {index : UInt16} {e : Entry} (h : p.entryAt index = some e) :
    (p.slots.map slotConstant)[index.toNat]? = some e.constant := by
  have hslot : p.slots[index.toNat]? = some (some e) := Option.join_eq_some_iff.mp h
  rw [getElem?_map, hslot]
  rfl

lemma reads_textAt (t : TextIndex p) :
    Reads (textAt (p.slots.map slotConstant) t.index.toNat) [] t.text.text := by
  unfold textAt
  rw [getElem?_pool t.found]
  exact Reads.pure t.text.text

lemma reads_classAt (c : ClassIndex p) :
    Reads (classAt (p.slots.map slotConstant) c.index.toNat) [] c.binary := by
  unfold classAt
  rw [getElem?_pool c.found]
  exact (reads_textAt c.name).map binaryName

lemma ClassIndex.index_ne_zero (c : ClassIndex p) : c.index.toNat ≠ 0 := by
  intro hzero
  have hfound := c.found
  rw [Pool.entryAt, hzero] at hfound
  cases hfound

lemma reads_optClassAt (c : Option (ClassIndex p)) :
    Reads (optClassAt (p.slots.map slotConstant) (ClassIndex.optIndex c).toNat) []
      (c.map ClassIndex.binary) := by
  cases c with
  | none => exact Reads.pure none
  | some c =>
    rw [optClassAt, if_neg (by simpa [ClassIndex.optIndex] using c.index_ne_zero)]
    exact (reads_classAt c).map some

lemma reads_class (c : ClassIndex p) :
    Reads (do classAt (p.slots.map slotConstant) (← u2)) c.bytes c.binary :=
  (Reads.u2 c.index.toNat_lt).before (reads_classAt c)

lemma reads_attribute (a : Attribute p) : Reads skipAttribute a.bytes () := by
  rw [Attribute.bytes, append_assoc]
  exact (Reads.skip (twoBytes a.name.index.toNat)).bind ((Reads.u4 a.fits).bind (Reads.skip a.info))

lemma reads_member (m : MemberLayout p) :
    Reads (member (p.slots.map slotConstant)) m.bytes m.summary := by
  rw [MemberLayout.bytes, append_assoc, append_assoc]
  refine (Reads.u2 m.flags.toNat_lt).bind ?_
  refine (Reads.u2 m.name.index.toNat_lt).bind ?_
  refine (Reads.u2 m.descriptor.index.toNat_lt).bind ?_
  refine (reads_textAt m.name).after ?_
  refine (reads_textAt m.descriptor).after ?_
  refine (Reads.u2 m.attributes.property).bind ?_
  have hattributes := (Reads.times reads_attribute m.attributes.val).map fun _ => ()
  exact hattributes.map fun _ => m.summary

lemma reads_innerClass (c : InnerClassLayout p) :
    Reads (innerClass (p.slots.map slotConstant)) c.bytes c.summary := by
  rw [InnerClassLayout.bytes, append_assoc, append_assoc]
  refine (Reads.u2 c.inner.index.toNat_lt).bind ?_
  refine (Reads.u2 (ClassIndex.optIndex c.outer).toNat_lt).bind ?_
  refine (Reads.skip (twoBytes (c.simple.elim 0 TextIndex.index).toNat)).bind ?_
  refine (Reads.u2 c.flags.toNat_lt).before ?_
  refine (reads_classAt c.inner).after ?_
  exact (reads_optClassAt c.outer).map fun _ => _

/-- The length of the list of inner classes is not used, and no other attribute is looked into. -/
lemma reads_classAttribute (a : ClassAttribute p) :
    Reads (classAttribute (p.slots.map slotConstant)) a.bytes a.summary := by
  cases a with
  | innerClasses name named classes =>
    rw [ClassAttribute.bytes, append_assoc]
    refine (Reads.u2 name.index.toNat_lt).bind ?_
    refine (Reads.u4 (by have := classes.property; omega)).bind ?_
    rw [getElem?_pool name.found, if_pos (by simp [Entry.constant, named, innerClassesName])]
    exact Reads.table reads_innerClass classes
  | other a named =>
    rw [ClassAttribute.bytes, Attribute.bytes, append_assoc]
    refine (Reads.u2 a.name.index.toNat_lt).bind ?_
    refine (Reads.u4 a.fits).bind ?_
    rw [getElem?_pool a.name.found,
      if_neg (by simpa [Entry.constant, innerClassesName] using named)]
    exact (Reads.skip a.info).map fun _ => []

end

lemma reads_layout (l : Layout) : Reads classFile l.bytes l.summary := by
  simp only [Layout.bytes, append_assoc]
  refine (Reads.u4 (by decide)).bind ?_
  rw [if_neg (by decide)]
  refine (Reads.skip (twoBytes l.minor.toNat ++ twoBytes l.major.toNat)).bind ?_
  refine (reads_pool l.pool).bind ?_
  refine (Reads.u2 l.flags.toNat_lt).bind ?_
  refine (Reads.u2 l.self.index.toNat_lt).bind ?_
  refine (reads_classAt l.self).after ?_
  refine (Reads.u2 (ClassIndex.optIndex l.superclass).toNat_lt).bind ?_
  refine (reads_optClassAt l.superclass).after ?_
  refine Reads.tableThen reads_class l.interfaces ?_
  refine Reads.tableThen reads_member l.fields ?_
  refine Reads.tableThen reads_member l.methods ?_
  refine (Reads.u2 l.attributes.property).bind ?_
  exact (Reads.times reads_classAttribute l.attributes.val).map fun attributes =>
    { l.summary with innerClasses := attributes.flatten }

/-- The reader finds in the bytes of a class what the class says. -/
theorem ofBytes_bytes (l : Layout) : ofBytes l.bytes = .ok l.summary := by
  have h := reads_layout l [] 0
  rw [List.append_nil] at h
  simp [ofBytes, StateT.run, h, Except.map]

/-- The pool of a member class with a field, and a wide constant in the middle. -/
def memberClassPool : Pool where
  entries := [.utf8 ⟨"p/A$B", by simp, by decide⟩, .classEntry 1,
    .long 0 1, .utf8 ⟨"InnerClasses", by simp, by decide⟩, .utf8 ⟨"p/A", by simp, by decide⟩,
    .classEntry 6, .utf8 ⟨"x", by simp, by decide⟩, .utf8 ⟨"J", by simp, by decide⟩]
  fits := by decide

def memberClass : Layout where
  minor := 0
  major := 61
  pool := memberClassPool
  flags := 0x20
  self := ⟨2, ⟨1, _, rfl⟩, rfl⟩
  superclass := none
  interfaces := ⟨[], by decide⟩
  fields := ⟨[⟨0x10, ⟨8, _, rfl⟩, ⟨9, _, rfl⟩, ⟨[], by decide⟩⟩], by decide⟩
  methods := ⟨[], by decide⟩
  attributes := ⟨[.innerClasses ⟨5, _, rfl⟩ rfl
    ⟨[⟨⟨2, ⟨1, _, rfl⟩, rfl⟩, some ⟨7, ⟨6, _, rfl⟩, rfl⟩, none, 0x8⟩], by decide⟩], by decide⟩

theorem ofBytes_of_member_class :
    memberClass.summary = ⟨0x20, "p.A$B", none, [], [⟨0x10, "x", "J"⟩], [],
      [⟨"p.A$B", some "p.A", 0x8⟩]⟩ ∧ ofBytes memberClass.bytes = .ok memberClass.summary :=
  ⟨by decide, ofBytes_bytes memberClass⟩

end Xref.ClassFile

