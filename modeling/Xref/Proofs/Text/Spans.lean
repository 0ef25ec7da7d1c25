import Mathlib.Algebra.Group.Nat.Defs
import Xref.Proofs.Text.Offsets

/-!
# Where spans stand

A span is what a reader of the characters would count. An offset past the end of the text or inside
a character is moved down to the nearest boundary. Its line is the number of newlines in front of
it, its column the number of characters since the last of them, so a position belongs to one
boundary only.
-/
open List

namespace Xref.Text

variable {cs : List Char}

/-- A span in numbers of 32 bits. Of the line it is its index that is cut to these, so that the next
number may not be one of them. -/
def Span.inWords? (s : Span) : Option Span :=
  if (s.line - 1) % 2 ^ 32 + 1 < 2 ^ 32 then
    some ⟨(s.line - 1) % 2 ^ 32 + 1, s.column % 2 ^ 32, s.length % 2 ^ 32⟩
  else none

namespace LineMap

/-- The span from `start` to `stop`, counted in the text: `lines` is what lies in front of the line,
`head` the line up to the span and `part` the text that the span covers. -/
structure Measures (cs : List Char) (start stop : Nat) (lines head part : List Char) : Prop where
  text : lines ++ head ++ part <+: cs
  ended : lines = [] ∨ ∃ xs, lines = xs ++ ['\n']
  plain : '\n' ∉ head
  first : IsFloor cs start (byteLength (lines ++ head))
  last : ∃ e, IsFloor cs stop e ∧
    byteLength (lines ++ head ++ part) = max (byteLength (lines ++ head)) e
  found : (ofChars cs).starts[(ofChars cs).lineIndex start]? = some (byteLength lines)
  span : (ofChars cs).span start stop =
    { line := 1 + (lines ++ head).count '\n', column := head.length, length := max 1 part.length }

lemma exists_measures (cs : List Char) (start stop : Nat) :
    ∃ lines head part, Measures cs start stop lines head part := by
  obtain ⟨first, hfirst⟩ : ∃ first, first = charsWithin start cs := ⟨_, rfl⟩
  obtain ⟨last, hlast⟩ : ∃ last, last = charsWithin stop cs := ⟨_, rfl⟩
  have hstart := isFloor_charsWithin start cs
  have hstop := isFloor_charsWithin stop cs
  rw [← hfirst] at hstart
  rw [← hlast] at hstop
  have hfirstLength := hfirst ▸ length_charsWithin_le start cs
  have hlastLength := hlast ▸ length_charsWithin_le stop cs
  obtain ⟨lines, head, tail, rest, hbefore, hafter, hline⟩ :=
    exists_isLine (cs.take first) (not_mem_nil (a := '\n')) (cs.drop first)
  have hcs : cs = lines ++ (head ++ [] ++ tail) ++ rest := by
    rw [← take_append_drop first cs, hbefore, hafter]
    simp
  have hplain : '\n' ∉ head := fun hmem => hline.plain (by simp [hmem])
  -- a newline at the end of the line lies behind the offset
  have hinside : byteLength lines ≤ start ∧
      (start - byteLength lines ≤ byteLength (head ++ [] ++ tail) ∨ rest = []) := by
    have hle := hstart.le
    rw [hbefore, byteLength_append] at hle
    refine ⟨by omega, ?_⟩
    rcases hline.rest with hrest | ⟨xs, hrest⟩
    · exact .inr hrest
    · refine .inl (Nat.le_of_not_lt fun hlt => ?_)
      have hboundary : lines ++ (head ++ [] ++ tail) ++ ['\n'] <+: cs :=
        ⟨xs, by rw [hcs, hrest]; simp⟩
      have hbytes : byteLength (lines ++ (head ++ [] ++ tail) ++ ['\n']) =
          byteLength lines + byteLength (head ++ [] ++ tail) + 1 := by
        rw [byteLength_append, byteLength_append]
        rfl
      have hall := byteLength_mono hboundary
      have hgreatest := hstart.greatest _ ⟨_, hboundary, rfl⟩ (by omega)
      rw [hbefore, hbytes, byteLength_append, byteLength_append, byteLength_append] at hgreatest
      omega
  obtain ⟨n, rfl⟩ := Nat.exists_eq_add_of_le hinside.1
  rw [Nat.add_sub_cancel_left] at hinside
  have hlength : (lines ++ head).length = first := by
    rw [← hbefore, length_take, Nat.min_eq_left hfirstLength]
  have hcolumn : lines.length + charsWithin n (head ++ [] ++ tail ++ rest) = first := by
    rw [hfirst, ← charsWithin_append_add, ← append_assoc, ← hcs]
  have hspan := hline.span hinside.2 stop
  have hindex := hline.lineIndex hinside.2
  have hfound := hline.starts_getElem?
  rw [← hcs] at hspan hindex hfound
  rw [hcolumn, ← hlast] at hspan
  have hpart : lines ++ head ++ (cs.drop first).take (last - first) = cs.take (max first last) := by
    rw [← hbefore, ← take_add]
    congr 1
    omega
  refine ⟨lines, head, (cs.drop first).take (last - first), ?_, hline.front, hplain,
    hbefore ▸ hstart, ⟨_, hstop, ?_⟩, by rw [hindex, hfound], ?_⟩
  · exact hpart ▸ take_prefix _ _
  · rw [hpart, ← hbefore]
    rcases Nat.le_total first last with hle | hle
    · rw [Nat.max_eq_right hle, Nat.max_eq_right (byteLength_mono (take_prefix_take_left hle))]
    · rw [Nat.max_eq_left hle, Nat.max_eq_left (byteLength_mono (take_prefix_take_left hle))]
  · rw [hspan, count_append, count_eq_zero.mpr hplain, Nat.add_zero, Nat.add_comm, length_take,
      length_drop, Nat.min_eq_left (by omega)]
    rw [length_append] at hlength
    congr 1
    omega

/-- The index of the line that holds a byte, as it is searched for. -/
def lineIndex? (m : LineMap) (offset : Nat) : Option Nat := do
  match ← search m.starts offset with
  | .ok i => return i
  | .error i => return i - 1

/-- The span of a range of bytes, where each step can fail. -/
def span? (m : LineMap) (start stop : Nat) : Option Span := do
  let line ← m.lineIndex? start
  let head ← cut? m.chars (← m.starts[line]?) start
  let part ← cut? m.chars start stop
  Span.inWords? { line := line + 1, column := head.length, length := max 1 part.length }

section

variable {start stop : Nat} {lines head part : List Char}
  (h : Measures cs start stop lines head part)
include h

lemma Measures.lineIndex?_eq :
    (ofChars cs).lineIndex? start = some ((ofChars cs).lineIndex start) := by
  have hsorted : (ofChars cs).starts.Pairwise (· < ·) :=
    .cons (fun n hn => (newlines_range hn).1) (pairwise_newlines 0 cs)
  have hnarrow : narrow (ofChars cs).starts start 0 (ofChars cs).starts.length =
      some ((ofChars cs).lineIndex start) :=
    narrow_eq hsorted (Nat.succ_pos _) (by omega) (by simp [ofChars]) (by simp)
  have hle : byteLength lines ≤ start := by
    have hfloor := h.first.le
    rw [byteLength_append] at hfloor
    omega
  have hsearch : search (ofChars cs).starts start = some (if byteLength lines = start
      then .ok ((ofChars cs).lineIndex start) else .error ((ofChars cs).lineIndex start + 1)) := by
    rw [search, if_neg (by simp [ofChars]), hnarrow, Option.bind_eq_bind, Option.bind_some, h.found]
    by_cases heq : byteLength lines = start
    · simp [heq]
    · simp [heq, Nat.lt_of_le_of_ne hle heq]
  rw [lineIndex?, hsearch]
  split <;> rfl

/-- No step fails but the last. -/
lemma Measures.span?_eq :
    (ofChars cs).span? start stop = ((ofChars cs).span start stop).inWords? := by
  have hbegin : (ofChars cs).starts.getD ((ofChars cs).lineIndex start) 0 = byteLength lines := by
    rw [getD_eq_getElem?_getD, h.found, Option.getD_some]
  have hfirst := length_charsWithin_le start cs
  have hlast := length_charsWithin_le stop cs
  simp only [span?, h.lineIndex?_eq, h.found, Option.bind_eq_bind, Option.bind_some,
    show (ofChars cs).chars = cs from rfl, cut?_eq, length_take, length_drop]
  rw [LineMap.span, hbegin, show min (charsWithin start cs - charsWithin (byteLength lines) cs)
      (cs.length - charsWithin (byteLength lines) cs) =
        charsWithin start cs - charsWithin (byteLength lines) cs by omega,
    show min (charsWithin stop cs - charsWithin start cs) (cs.length - charsWithin start cs) =
      charsWithin stop cs - charsWithin start cs by omega]
  rfl

lemma Measures.inWords?_eq (hshort : byteLength cs + 1 < 2 ^ 32) :
    ((ofChars cs).span start stop).inWords? = some ((ofChars cs).span start stop) := by
  have hlength := Nat.le_trans h.text.length_le (length_le_byteLength cs)
  have hcount : (lines ++ head).count '\n' ≤ (lines ++ head).length := count_le_length
  rw [length_append, length_append] at hlength
  rw [length_append] at hcount
  simp only [h.span, Span.inWords?, Nat.add_sub_cancel_left]
  rw [Nat.mod_eq_of_lt (by omega), Nat.mod_eq_of_lt (by omega), Nat.mod_eq_of_lt (by omega),
    if_pos (by omega), Nat.add_comm]

end

lemma eq_of_span_eq {a b : Nat} (ha : IsBoundary cs a) (hb : IsBoundary cs b) {stop stop' : Nat}
    (hline : ((ofChars cs).span a stop).line = ((ofChars cs).span b stop').line)
    (hcolumn : ((ofChars cs).span a stop).column = ((ofChars cs).span b stop').column) : a = b := by
  obtain ⟨lines, head, part, hmeasures⟩ := exists_measures cs a stop
  obtain ⟨lines', head', part', hmeasures'⟩ := exists_measures cs b stop'
  have hprefix : lines ++ head <+: cs := (prefix_append _ part).trans hmeasures.text
  have hprefix' : lines' ++ head' <+: cs := (prefix_append _ part').trans hmeasures'.text
  -- the line is looked up under the same number, so it begins at the same place
  have hindex : (ofChars cs).lineIndex a = (ofChars cs).lineIndex b := Nat.succ.inj hline
  have hbegin : byteLength lines = byteLength lines' := by
    have hfound := hmeasures.found
    rw [hindex, hmeasures'.found] at hfound
    exact (Option.some.inj hfound).symm
  have hlines : lines.length = lines'.length := by
    rw [length_eq_charsWithin ((prefix_append _ head).trans hprefix), hbegin,
      length_eq_charsWithin ((prefix_append _ head').trans hprefix')]
  have hheads : head.length = head'.length := by
    rwa [hmeasures.span, hmeasures'.span] at hcolumn
  have hsame : lines ++ head = lines' ++ head' := by
    rw [prefix_iff_eq_take.mp hprefix, prefix_iff_eq_take.mp hprefix', length_append,
      length_append, hlines, hheads]
  rw [← hmeasures.first.eq_of_boundary ha, ← hmeasures'.first.eq_of_boundary hb, hsame]

end LineMap

end Xref.Text
