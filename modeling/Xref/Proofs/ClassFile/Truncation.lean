import Xref.Proofs.ClassFile.RoundTrip

/-!
# Class files that end too early

A class file says itself where it ends. What follows is ignored, and if any of its bytes are
missing, the reader notices that the input has ended and makes no smaller class of it.
-/
open List

namespace Xref.ClassFile

/-- The reader finds too little to read in any part of `used` from its front. -/
def Needs {α : Type} (x : Decode α) (used : List UInt8) : Prop :=
  ∀ short offset, short <+: used → short ≠ used →
    ∃ stop ≤ offset + short.length, x ⟨short, offset⟩ = .error ⟨.unexpectedEnd, stop⟩

/-- The reader takes bytes from the front of its input and needs all of them, or it fails within its
input. -/
def Exact {α : Type} (x : Decode α) : Prop :=
  ∀ bs offset, (∃ a used rest, bs = used ++ rest ∧ Reads x used a ∧ Needs x used) ∨
    ∃ fault, x ⟨bs, offset⟩ = .error fault ∧ fault.offset ≤ offset + bs.length

lemma splitBytes_eq (n : Nat) (bs : List UInt8) :
    splitBytes n bs = if n ≤ bs.length then some (bs.take n, bs.drop n) else none := by
  induction n generalizing bs with
  | zero => simp [splitBytes]
  | succ n ih =>
    cases bs with
    | nil => rfl
    | cons b bs =>
      rw [splitBytes, ih]
      by_cases h : n ≤ bs.length <;> simp [h]

namespace Exact

variable {α β : Type} {x : Decode α}

@[simp] lemma pure (a : α) : Exact (pure a) := fun bs _ =>
  .inl ⟨a, [], bs, rfl, Reads.pure a, fun _ _ hshort hne => absurd (prefix_nil.mp hshort) hne⟩

@[simp] lemma refuse (cause : Cause) : Exact (refuse cause : Decode α) := fun _ offset =>
  .inr ⟨⟨cause, offset⟩, rfl, Nat.le_add_right _ _⟩

@[simp] lemma take (n : Nat) : Exact (take n) := by
  intro bs offset
  by_cases hn : n ≤ bs.length
  · have hlength : (bs.take n).length = n := length_take_of_le hn
    have hreads := Reads.take (bs.take n)
    rw [hlength] at hreads
    refine .inl ⟨_, bs.take n, bs.drop n, (take_append_drop n bs).symm, hreads, ?_⟩
    intro short offset hshort hne
    have hlt : short.length < n := by
      rw [← hlength]
      exact Nat.lt_of_le_of_ne hshort.length_le fun heq => hne (hshort.eq_of_length heq)
    refine ⟨offset, Nat.le_add_right _ _, ?_⟩
    simp only [ClassFile.take, splitBytes_eq, if_neg (Nat.not_le.mpr hlt)]
  · refine .inr ⟨⟨.unexpectedEnd, offset⟩, ?_, Nat.le_add_right _ _⟩
    simp only [ClassFile.take, splitBytes_eq, if_neg hn]

@[simp] lemma bind {f : α → Decode β} (hx : Exact x) (hf : ∀ a, Exact (f a)) : Exact (x >>= f) := by
  intro bs offset
  have hbind (c : Cursor) : (x >>= f) c = x c >>= fun p => f p.1 p.2 := rfl
  rcases hx bs offset with ⟨a, used, rest, rfl, hreads, hneeds⟩ | ⟨fault, hrun, hfault⟩
  · rcases hf a rest (offset + used.length) with
      ⟨b, used', rest, rfl, hreads', hneeds'⟩ | ⟨fault, hrun, hfault⟩
    · refine .inl ⟨b, used ++ used', rest, by rw [append_assoc], hreads.bind hreads', ?_⟩
      intro short offset hshort hne
      rw [hbind]
      -- Either bytes that `x` takes are missing, or some that are read after them.
      by_cases hlt : short.length < used.length
      · have hshort := prefix_of_prefix_length_le hshort (prefix_append _ _) (Nat.le_of_lt hlt)
        obtain ⟨stop, hstop, herror⟩ := hneeds short offset hshort (by rintro rfl; omega)
        exact ⟨stop, hstop, by rw [herror]; rfl⟩
      · obtain ⟨more, rfl⟩ : used <+: short :=
          prefix_of_prefix_length_le (prefix_append _ _) hshort (Nat.not_lt.mp hlt)
        obtain ⟨stop, hstop, herror⟩ := hneeds' more (offset + used.length)
          ((prefix_append_right_inj _).mp hshort) fun heq => hne (by rw [heq])
        refine ⟨stop, by rw [length_append]; omega, ?_⟩
        rw [hreads more offset]
        exact herror
    · refine .inr ⟨fault, ?_, by rw [length_append]; omega⟩
      rw [hbind, hreads rest offset]
      exact hrun
  · exact .inr ⟨fault, by rw [hbind, hrun]; rfl, hfault⟩

@[simp] lemma map (hx : Exact x) (f : α → β) : Exact (f <$> x) := by
  rw [map_eq_pure_bind]
  exact bind hx fun a => pure (f a)

@[simp] lemma number (n : Nat) : Exact (number n) := bind (take n) fun _ => pure _

@[simp] lemma skip (n : Nat) : Exact (skip n) := map (take n) _

@[simp] lemma times (hx : Exact x) (n : Nat) : Exact (times x n) := by
  induction n with
  | zero => exact pure []
  | succ n ih => simp [ClassFile.times, hx, ih]

lemma skipAttribute : Exact skipAttribute := bind (skip 2) fun _ => bind (number 4) skip

section

variable (pool : List Constant) (index : Nat)

@[simp] lemma textAt : Exact (textAt pool index) := by
  unfold ClassFile.textAt
  split <;> simp

@[simp] lemma classAt : Exact (classAt pool index) := by
  unfold ClassFile.classAt
  split <;> simp

@[simp] lemma optClassAt : Exact (optClassAt pool index) := by
  unfold ClassFile.optClassAt
  split <;> simp

end

@[simp] lemma constant : Exact constant := by
  refine bind (number 1) fun tag => ?_
  repeat' split
  all_goals simp [u2]

@[simp] lemma constants (n : Nat) : Exact (constants n) := by
  fun_induction ClassFile.constants n with
  | case1 => exact pure []
  | case2 => simp
  | case3 n ihone ihtwo =>
    refine bind constant fun filled => ?_
    split <;> simp [ihone, ihtwo]

lemma member (pool : List Constant) : Exact (member pool) :=
  bind (number 2) fun _ => bind (number 2) fun name => bind (number 2) fun descriptor =>
    bind (textAt pool name) fun _ => bind (textAt pool descriptor) fun _ =>
      bind (number 2) fun count => bind (map (times skipAttribute count) _) fun _ => pure _

lemma innerClass (pool : List Constant) : Exact (innerClass pool) :=
  bind (number 2) fun inner => bind (number 2) fun outer => bind (skip 2) fun _ =>
    bind (number 2) fun _ => bind (classAt pool inner) fun _ =>
      bind (optClassAt pool outer) fun _ => pure _

lemma classAttribute (pool : List Constant) : Exact (classAttribute pool) := by
  refine bind (number 2) fun name => bind (number 4) fun length => ?_
  split
  · exact bind (number 2) (times (innerClass pool))
  · exact bind (skip length) fun _ => pure []

lemma classFile : Exact classFile := by
  refine bind (number 4) fun value => ?_
  split
  · exact refuse .badMagic
  have hpool : Exact constantPool := bind (number 2) fun n =>
    bind (constants (n - 1)) fun _ => pure _
  refine bind (skip 4) fun _ => bind hpool fun pool => bind (number 2) fun _ => ?_
  refine bind (number 2) fun self => bind (classAt pool self) fun _ => ?_
  refine bind (number 2) fun parent => bind (optClassAt pool parent) fun _ => ?_
  refine bind (number 2) fun count => bind (times (bind (number 2) (classAt pool)) count) fun _ =>
    ?_
  refine bind (number 2) fun count => bind (times (member pool) count) fun _ => ?_
  refine bind (number 2) fun count => bind (times (member pool) count) fun _ => ?_
  exact bind (number 2) fun count => bind (times (classAttribute pool) count) fun _ => pure _

end Exact

variable {bs : List UInt8}

/-- The class file at the front of `bs` is made of its first `n` bytes. -/
structure EndsAfter (bs : List UInt8) (c : ClassFile) (n : Nat) : Prop where
  within : n ≤ bs.length
  ignored : ∀ other : List UInt8, other.take n = bs.take n → ofBytes other = .ok c
  needed : ∀ m < n, ∃ stop ≤ m, ofBytes (bs.take m) = .error ⟨.unexpectedEnd, stop⟩

/-- Every class file that is read has its end: the bytes behind it do not matter, and none before it
may be missing. -/
theorem exists_endsAfter {c : ClassFile} (h : ofBytes bs = .ok c) : ∃ n, EndsAfter bs c n := by
  rcases Exact.classFile bs 0 with ⟨a, used, rest, hbs, hreads, hneeds⟩ | ⟨fault, hrun, -⟩
  · have hall (more : List UInt8) : ofBytes (used ++ more) = .ok a := by
      simp [ofBytes, StateT.run, hreads more 0, Except.map]
    obtain rfl : a = c := Except.ok.inj ((hbs ▸ hall rest).symm.trans h)
    have hused : bs.take used.length = used := by rw [hbs, take_left]
    refine ⟨used.length, by simp [hbs], fun other hother => ?_, fun m hm => ?_⟩
    · obtain ⟨more, rfl⟩ : used <+: other := by
        rw [← hused, ← hother]
        exact take_prefix used.length other
      exact hall more
    · have hshort : bs.take m = used.take m := by
        rw [← hused, take_take, Nat.min_eq_left (by omega)]
      have hlength : (used.take m).length = m := length_take_of_le (by omega)
      obtain ⟨stop, hstop, herror⟩ := hneeds (used.take m) 0 ⟨_, take_append_drop m used⟩
        fun heq => by
          rw [heq] at hlength
          omega
      refine ⟨stop, by omega, ?_⟩
      simp [ofBytes, StateT.run, hshort, herror, Except.map]
  · simp [ofBytes, StateT.run, hrun, Except.map] at h

theorem exists_endsAfter_of_member_class :
    ofBytes (memberClass.bytes ++ [0]) = .ok memberClass.summary ∧
      ∃ n, EndsAfter (memberClass.bytes ++ [0]) memberClass.summary n := by
  have h : ofBytes (memberClass.bytes ++ [0]) = .ok memberClass.summary := by
    simp [ofBytes, StateT.run, reads_layout memberClass [0] 0, Except.map]
  exact ⟨h, exists_endsAfter h⟩

end Xref.ClassFile
