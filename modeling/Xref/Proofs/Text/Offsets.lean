import Xref.Proofs.Text.Lines

/-!
# Offsets into a text

Lines are found by halving a sorted list, and offsets are moved down to boundaries one byte at a
time. The list could be read past its end, a range could be empty, and a text could be cut inside a
character. None of this happens.
-/
open List

namespace Xref.Text

/-- A character begins at byte `b`, or the text ends there. -/
def IsBoundary (cs : List Char) (b : Nat) : Prop :=
  ∃ front, front <+: cs ∧ byteLength front = b

/-- `b` is `offset`, cut to the text and moved down to a boundary. -/
structure IsFloor (cs : List Char) (offset b : Nat) : Prop where
  boundary : IsBoundary cs b
  le : b ≤ min offset (byteLength cs)
  greatest : ∀ c, IsBoundary cs c → c ≤ min offset (byteLength cs) → c ≤ b

variable {cs : List Char}

lemma byteLength_mono {xs ys : List Char} (h : xs <+: ys) : byteLength xs ≤ byteLength ys := by
  obtain ⟨rest, rfl⟩ := h
  rw [byteLength_append]
  omega

lemma length_le_byteLength (cs : List Char) : cs.length ≤ byteLength cs := by
  induction cs with
  | nil => exact Nat.le_refl _
  | cons c cs ih =>
    have := c.utf8Size_pos
    rw [length_cons, byteLength_cons]
    omega

lemma length_eq_charsWithin {front : List Char} (h : front <+: cs) :
    front.length = charsWithin (byteLength front) cs := by
  obtain ⟨rest, rfl⟩ := h
  exact (IsLine.charsWithin_front rest).symm

lemma byteLength_take_charsWithin (n : Nat) (cs : List Char) :
    byteLength (cs.take (charsWithin n cs)) ≤ n := by
  induction cs generalizing n with
  | nil => exact Nat.zero_le n
  | cons c cs ih =>
    rw [charsWithin]
    split
    next hfits =>
      have hrest := ih (n - c.utf8Size)
      rw [take_succ_cons, byteLength_cons]
      omega
    next => exact Nat.zero_le n

lemma isFloor_charsWithin (n : Nat) (cs : List Char) :
    IsFloor cs n (byteLength (cs.take (charsWithin n cs))) where
  boundary := ⟨_, take_prefix _ _, rfl⟩
  le := Nat.le_min.mpr ⟨byteLength_take_charsWithin n cs, byteLength_mono (List.take_prefix _ _)⟩
  greatest := by
    rintro _ ⟨front, hfront, rfl⟩ hle
    have hlength := charsWithin_mono (Nat.le_trans hle (Nat.min_le_left _ _)) cs
    rw [← length_eq_charsWithin hfront] at hlength
    rw [prefix_iff_eq_take.mp hfront]
    exact byteLength_mono (take_prefix_take_left hlength)

lemma IsFloor.eq_of_boundary {a b : Nat} (h : IsFloor cs a b) (ha : IsBoundary cs a) : b = a := by
  obtain ⟨front, hfront, rfl⟩ := ha
  have hle := byteLength_mono hfront
  have hfloor := h.le
  have hgreatest := h.greatest _ ⟨front, hfront, rfl⟩ (by omega)
  omega

/-- The search for `x` in a sorted list. It halves the part from `base` on that is left. -/
def narrow (xs : List Nat) (x base size : Nat) : Option Nat :=
  if 1 < size then do
    let y ← xs[base + size / 2]?
    narrow xs x (if y ≤ x then base + size / 2 else base) (size - size / 2)
  else some base
termination_by size

/-- The place of `x` in a sorted list, or else the place to insert it. -/
def search (xs : List Nat) (x : Nat) : Option (Except Nat Nat) :=
  if xs.isEmpty then some (.error 0)
  else do
    let base ← narrow xs x 0 xs.length
    let y ← xs[base]?
    return if y = x then .ok base else .error (if y < x then base + 1 else base)

section

variable {xs : List Nat} {x : Nat}

lemma le_of_sorted (h : xs.Pairwise (· < ·)) {i y : Nat} (hi : xs[i]? = some y) :
    (∀ z ∈ xs.take (i + 1), z ≤ y) ∧ ∀ z ∈ xs.drop i, y ≤ z := by
  obtain ⟨hlt, rfl⟩ := List.getElem?_eq_some_iff.mp hi
  rw [← take_append_drop i xs, drop_eq_getElem_cons hlt, pairwise_append, pairwise_cons] at h
  obtain ⟨-, ⟨hafter, -⟩, hbefore⟩ := h
  rw [take_add_one, hi, drop_eq_getElem_cons hlt]
  exact ⟨forall_mem_append.mpr ⟨fun z hz => Nat.le_of_lt (hbefore z hz _ mem_cons_self), by simp⟩,
    forall_mem_cons.mpr ⟨Nat.le_refl _, fun z hz => Nat.le_of_lt (hafter z hz)⟩⟩

/-- What is in front of the part that is left is not greater than `x`, nor is its first element, and
what is behind it is greater. -/
lemma narrow_eq (h : xs.Pairwise (· < ·)) {base size : Nat} (hsize : 0 < size)
    (hle : base + size ≤ xs.length) (hfirst : ∀ y ∈ xs.take (base + 1), y ≤ x)
    (hlast : ∀ y ∈ xs.drop (base + size), x < y) :
    narrow xs x base size = some (xs.countP (· ≤ x) - 1) := by
  induction size using Nat.strongRecOn generalizing base with
  | ind size ih =>
    rw [narrow]
    split
    case isTrue hlarge =>
      obtain ⟨y, hy⟩ : ∃ y, xs[base + size / 2]? = some y :=
        ⟨_, getElem?_eq_getElem (by omega)⟩
      obtain ⟨hbefore, hbehind⟩ := le_of_sorted h hy
      rw [hy]
      by_cases hyx : y ≤ x
      · rw [Option.bind_eq_bind, Option.bind_some, if_pos hyx]
        refine ih _ (by omega) (by omega) (by omega)
          (fun z hz => Nat.le_trans (hbefore z hz) hyx) ?_
        rwa [show base + size / 2 + (size - size / 2) = base + size by omega]
      · rw [Option.bind_eq_bind, Option.bind_some, if_neg hyx]
        refine ih _ (by omega) (by omega) (by omega) hfirst fun z hz => ?_
        have hz :=
          drop_subset_drop_left xs (show base + size / 2 ≤ base + (size - size / 2) by omega) hz
        exact Nat.lt_of_lt_of_le (Nat.lt_of_not_le hyx) (hbehind z hz)
    case isFalse hsmall =>
      obtain rfl : size = 1 := by omega
      have hin : (xs.take (base + 1)).countP (· ≤ x) = base + 1 := by
        rw [countP_eq_length.mpr (by simpa using hfirst), length_take, Nat.min_eq_left hle]
      have hout : (xs.drop (base + 1)).countP (· ≤ x) = 0 :=
        countP_eq_zero.mpr (by simpa using hlast)
      rw [← take_append_drop (base + 1) xs, countP_append, hin, hout]
      rfl

end

/-- Whether a character of the text begins at a byte, or the text ends there. -/
def isCharBoundary : List Char → Nat → Bool
  | _, 0 => true
  | [], _ + 1 => false
  | c :: cs, n + 1 => c.utf8Size ≤ n + 1 && isCharBoundary cs (n + 1 - c.utf8Size)

def floorBoundary (cs : List Char) : Nat → Nat
  | 0 => 0
  | n + 1 => if isCharBoundary cs (n + 1) then n + 1 else floorBoundary cs n

/-- The text between two bytes. This fails unless both are boundaries, in this order. -/
def between? (cs : List Char) (start stop : Nat) : Option (List Char) :=
  if start ≤ stop ∧ isCharBoundary cs start ∧ isCharBoundary cs stop then some (slice start stop cs)
  else none

/-- A number moved into a range. This fails if there is none. -/
def clamp? (n low high : Nat) : Option Nat :=
  if low ≤ high then some (min high (max low n)) else none

def cut? (cs : List Char) (start stop : Nat) : Option (List Char) := do
  let first := floorBoundary cs (min start (byteLength cs))
  between? cs first (floorBoundary cs (← clamp? stop first (byteLength cs)))

lemma isCharBoundary_iff {b : Nat} : isCharBoundary cs b ↔ IsBoundary cs b := by
  fun_induction isCharBoundary cs b with
  | case1 cs => simpa using ⟨[], nil_prefix, rfl⟩
  | case2 n =>
    simp only [Bool.false_eq_true, false_iff]
    rintro ⟨front, hfront, hlength⟩
    rw [prefix_nil.mp hfront] at hlength
    cases hlength
  | case3 c cs n ih =>
    rw [Bool.and_eq_true, decide_eq_true_eq, ih]
    constructor
    · rintro ⟨hle, front, hfront, hlength⟩
      refine ⟨c :: front, cons_prefix_cons.mpr ⟨rfl, hfront⟩, ?_⟩
      rw [byteLength_cons]
      omega
    · rintro ⟨front, hfront, hlength⟩
      cases front with
      | nil => cases hlength
      | cons x front =>
        obtain ⟨rfl, htail⟩ := cons_prefix_cons.mp hfront
        rw [byteLength_cons] at hlength
        exact ⟨by omega, front, htail, by omega⟩

lemma isFloor_floorBoundary {n : Nat} (h : n ≤ byteLength cs) :
    IsFloor cs n (floorBoundary cs n) := by
  induction n with
  | zero => exact ⟨⟨[], nil_prefix, rfl⟩, Nat.zero_le _, fun c _ hc => by rw [floorBoundary]; omega⟩
  | succ n ih =>
    rw [floorBoundary]
    split
    case isTrue hboundary =>
      exact ⟨isCharBoundary_iff.mp hboundary, by omega, fun c _ hc => by omega⟩
    case isFalse hboundary =>
      have hfloor := ih (by omega)
      refine ⟨hfloor.boundary, by have := hfloor.le; omega, fun c hc hle => ?_⟩
      refine hfloor.greatest c hc ?_
      have hne : c ≠ n + 1 := by
        rintro rfl
        exact hboundary (isCharBoundary_iff.mpr hc)
      omega

lemma IsFloor.unique {n a b : Nat} (h : IsFloor cs n a) (h' : IsFloor cs n b) : a = b :=
  Nat.le_antisymm (h'.greatest a h.boundary h.le) (h.greatest b h'.boundary h'.le)

/-- Flooring finds the last boundary that the characters in front leave room for. -/
lemma floorBoundary_eq (n : Nat) (cs : List Char) :
    floorBoundary cs (min n (byteLength cs)) = byteLength (cs.take (charsWithin n cs)) := by
  refine (isFloor_floorBoundary (Nat.min_le_right _ _)).unique ?_
  have hfloor := isFloor_charsWithin n cs
  refine ⟨hfloor.boundary, ?_, fun c hc hle => hfloor.greatest c hc ?_⟩
  · have := hfloor.le
    omega
  · omega

lemma charsWithin_boundary {n : Nat} (h : n ≤ cs.length) :
    charsWithin (byteLength (cs.take n)) cs = n := by
  rw [← length_eq_charsWithin ( take_prefix n cs), length_take, Nat.min_eq_left h]

lemma charsWithin_max (m n : Nat) (cs : List Char) :
    charsWithin (max m n) cs = max (charsWithin m cs) (charsWithin n cs) := by
  rcases Nat.le_total m n with h | h
  · rw [Nat.max_eq_right h, Nat.max_eq_right (charsWithin_mono h cs)]
  · rw [Nat.max_eq_left h, Nat.max_eq_left (charsWithin_mono h cs)]

/-- Cutting never fails. -/
lemma cut?_eq (cs : List Char) (start stop : Nat) : cut? cs start stop =
    some ((cs.drop (charsWithin start cs)).take (charsWithin stop cs - charsWithin start cs)) := by
  have hfirst := length_charsWithin_le start cs
  have hlast := length_charsWithin_le stop cs
  have hboundary (n : Nat) : isCharBoundary cs (byteLength (cs.take n)) :=
    isCharBoundary_iff.mpr ⟨_, take_prefix n cs, rfl⟩
  rw [cut?, floorBoundary_eq, clamp?, if_pos (byteLength_mono ( take_prefix _ cs)), Nat.min_comm,
    Option.bind_eq_bind, Option.bind_some, floorBoundary_eq, charsWithin_max,
    charsWithin_boundary hfirst, between?, slice,
    if_pos ⟨byteLength_mono (take_prefix_take_left (Nat.le_max_left _ _)), hboundary _,
      hboundary _⟩,
    charsWithin_boundary hfirst, charsWithin_boundary (Nat.max_le.mpr ⟨hfirst, hlast⟩),
    show max (charsWithin start cs) (charsWithin stop cs) - charsWithin start cs =
      charsWithin stop cs - charsWithin start cs by omega]

lemma pairwise_newlines (pos : Nat) (cs : List Char) :
    (LineMap.newlines pos cs).Pairwise (· < ·) := by
  induction cs generalizing pos with
  | nil => exact .nil
  | cons c cs ih =>
    rw [LineMap.newlines]
    split
    · exact .cons (fun n hn => (LineMap.newlines_range hn).1) (ih _)
    · exact ih _

end Xref.Text
