import GreedyMatch.Source.Basic
import Mathlib.Data.Prod.Lex
import Mathlib.Tactic

/-!
# Offsets and places

The breaks of a text are found one after the other, so the rows start at increasing offsets
and follow each other without a gap. An offset lies on the last row that starts at or before
it. Rows and columns are thus another way to write the offsets of a source: each offset is
one place in the rows, and a later offset is a later place.
-/
namespace GreedyMatch

namespace LineBreaks
variable {breaks : LineBreaks} {t : Text} {offset e : Nat}

theorem atFront_le_length (breaks : LineBreaks) (t : Text) : breaks.atFront t ≤ t.length := by
  unfold atFront
  split <;> simp

theorem mem_ends_bounds (h : e ∈ ends breaks offset t) : offset < e ∧ e ≤ offset + t.length := by
  fun_induction ends breaks offset t with
  | case1 => cases h
  | case2 offset c cs hfront ih =>
    obtain ⟨hlt, hle⟩ := ih h
    rw [List.length_cons]
    omega
  | case3 offset c cs n hfront ih =>
    have hn := breaks.atFront_le_length (c :: cs)
    rw [hfront, List.length_cons] at hn
    rw [List.length_cons]
    rcases List.mem_cons.1 h with rfl | h
    · omega
    · obtain ⟨hlt, hle⟩ := ih h
      rw [List.length_drop] at hle
      omega

theorem pairwise_ends (breaks : LineBreaks) (offset : Nat) (t : Text) :
    (ends breaks offset t).Pairwise (· < ·) := by
  fun_induction ends breaks offset t with
  | case1 => exact .nil
  | case2 offset c cs hfront ih => exact ih
  | case3 offset c cs n hfront ih => exact .cons (fun e he => (mem_ends_bounds he).1) ih

end LineBreaks

/-- In an increasing list the items up to some number are the ones at the front. -/
theorem Sequence.lt_countP_iff {l : List Nat} (h : l.Pairwise (· < ·)) {i x : Nat}
    (hi : l[i]? = some x) {index : Int} :
    i < l.countP (fun (y : Nat) => (y : Int) ≤ index) ↔ (x : Int) ≤ index := by
  induction l generalizing i with
  | nil => cases hi
  | cons a l ih =>
    obtain ⟨ha, hl⟩ := List.pairwise_cons.1 h
    by_cases hai : (a : Int) ≤ index
    · rw [List.countP_cons_of_pos (by simpa using hai)]
      cases i with
      | zero =>
        cases hi
        exact iff_of_true (Nat.succ_pos _) hai
      | succ i => rw [Nat.add_lt_add_iff_right, ih hl hi]
    -- the first item is too great, and so is every other one
    · have hall (y : Nat) (hy : y ∈ l) : ¬ (y : Int) ≤ index := by
        have hay := ha y hy
        omega
      have hx : ¬ (x : Int) ≤ index := by
        rcases List.mem_cons.1 (List.mem_of_getElem? hi) with rfl | hx
        · exact hai
        · exact hall x hx
      rw [List.countP_cons_of_neg (by simpa using hai), List.countP_eq_zero.2 (by simpa using hall)]
      exact iff_of_false (Nat.not_lt_zero i) hx

namespace Source
variable {s : Source} {index : Int} {r q : Nat}

def rowCount (s : Source) : Nat := s.starts.length

def lines (s : Source) : List Text :=
  (List.range s.rowCount).filterMap fun (r : Nat) => s.line? (r + 1)

/-- The offset behind the first `r` rows. -/
def rowStart (s : Source) (r : Nat) : Nat := s.bounds.getD r s.content.length

def rowText (s : Source) (r : Nat) : Text :=
  (s.content.take (s.rowStart (r + 1))).drop (s.rowStart r)

theorem pairwise_starts (s : Source) : s.starts.Pairwise (· < ·) :=
  .cons (fun _ he => (LineBreaks.mem_ends_bounds he).1) (s.breaks.pairwise_ends 0 s.content)

theorem le_length_of_mem_starts {e : Nat} (h : e ∈ s.starts) : e ≤ s.content.length := by
  rcases List.mem_cons.1 h with rfl | h
  · exact Nat.zero_le _
  · have hle := (LineBreaks.mem_ends_bounds h).2
    omega

theorem rowCount_pos (s : Source) : 0 < s.rowCount := Nat.succ_pos _

theorem getElem?_bounds (hr : r ≤ s.rowCount) : s.bounds[r]? = some (s.rowStart r) := by
  have hlen : r < s.bounds.length := by
    rw [bounds, List.length_append]
    exact Nat.lt_succ_of_le hr
  rw [rowStart, List.getD_eq_getElem?_getD, List.getElem?_eq_getElem hlen]
  rfl

theorem getElem?_starts (hr : r < s.rowCount) : s.starts[r]? = some (s.rowStart r) := by
  rw [← getElem?_bounds hr.le, bounds, List.getElem?_append_left hr]

theorem rowStart_zero (s : Source) : s.rowStart 0 = 0 := rfl

theorem rowStart_of_le (hr : s.rowCount ≤ r) : s.rowStart r = s.content.length := by
  rw [rowStart, bounds, List.getD_eq_getElem?_getD, List.getElem?_append_right hr]
  cases r - s.starts.length <;> rfl

theorem mem_starts_iff {e : Nat} : e ∈ s.starts ↔ ∃ r < s.rowCount, e = s.rowStart r := by
  constructor
  · intro h
    obtain ⟨r, hr, rfl⟩ := List.getElem_of_mem h
    refine ⟨r, hr, Option.some.inj ?_⟩
    rw [← getElem?_starts hr, List.getElem?_eq_getElem hr]
  · rintro ⟨r, hr, rfl⟩
    exact List.mem_of_getElem? (getElem?_starts hr)

theorem rowStart_le_length (s : Source) (r : Nat) : s.rowStart r ≤ s.content.length := by
  by_cases hr : r < s.rowCount
  · exact le_length_of_mem_starts (mem_starts_iff.2 ⟨r, hr, rfl⟩)
  · rw [rowStart_of_le (by omega)]

theorem rowStart_lt (h : r < q) (hq : q < s.rowCount) : s.rowStart r < s.rowStart q := by
  have hr : r < s.rowCount := h.trans hq
  have hlt := List.pairwise_iff_getElem.1 s.pairwise_starts r q hr hq h
  rwa [(List.getElem_eq_iff hr).2 (getElem?_starts hr),
    (List.getElem_eq_iff hq).2 (getElem?_starts hq)] at hlt

theorem rowStart_mono (s : Source) : Monotone s.rowStart := by
  intro r q h
  by_cases hq : q < s.rowCount
  · rcases h.eq_or_lt with rfl | h
    · exact Nat.le_refl _
    · exact (rowStart_lt h hq).le
  · rw [rowStart_of_le (r := q) (by omega)]
    exact s.rowStart_le_length r

theorem rowStart_succ_le {e : Nat} (he : e ∈ s.starts) (h : s.rowStart r < e) :
    s.rowStart (r + 1) ≤ e := by
  obtain ⟨q, -, rfl⟩ := mem_starts_iff.1 he
  exact s.rowStart_mono (s.rowStart_mono.reflect_lt h)

theorem line?_eq (row : Int) :
    s.line? row = if (row - 1).toNat < s.rowCount then some (s.rowText (row - 1).toNat) else none := by
  by_cases hr : (row - 1).toNat < s.rowCount
  · simp only [line?, getElem?_bounds hr.le, getElem?_bounds hr, if_pos hr]
    rfl
  · have hlen : s.bounds.length ≤ (row - 1).toNat + 1 := by
      rw [bounds, List.length_append]
      exact Nat.succ_le_succ (Nat.not_lt.1 hr)
    simp only [line?, List.getElem?_eq_none hlen, if_neg hr]
    cases s.bounds[(row - 1).toNat]? <;> rfl

theorem line?_succ (hr : r < s.rowCount) : s.line? ((r : Int) + 1) = some (s.rowText r) := by
  have hnat : ((r : Int) + 1 - 1).toNat = r := by omega
  rw [line?_eq, hnat, if_pos hr]

theorem line?_eq_none_iff {row : Int} : s.line? row = none ↔ (s.rowCount : Int) < row := by
  have hpos := s.rowCount_pos
  rw [line?_eq]
  by_cases hr : (row - 1).toNat < s.rowCount
  · rw [if_pos hr]
    exact iff_of_false (Option.some_ne_none _) (by omega)
  · rw [if_neg hr]
    exact iff_of_true rfl (by omega)

theorem lines_eq (s : Source) : s.lines = (List.range s.rowCount).map s.rowText := by
  rw [lines, ← List.filterMap_eq_map]
  refine List.filterMap_congr fun r hr => ?_
  rw [line?_succ (List.mem_range.1 hr)]
  rfl

theorem length_lines (s : Source) : s.lines.length = s.rowCount := by
  rw [lines_eq, List.length_map, List.length_range]

theorem length_rowText (s : Source) (r : Nat) :
    (s.rowText r).length = s.rowStart (r + 1) - s.rowStart r := by
  rw [rowText, List.length_drop, List.length_take, Nat.min_eq_left (s.rowStart_le_length _)]

theorem getElem?_rowText {i : Nat} (hi : s.rowStart r + i < s.rowStart (r + 1)) :
    (s.rowText r)[i]? = s.content[s.rowStart r + i]? := by
  rw [rowText, List.getElem?_drop, List.getElem?_take_of_lt hi]

theorem flatten_take_lines (hr : r ≤ s.rowCount) :
    (s.lines.take r).flatten = s.content.take (s.rowStart r) := by
  induction r with
  | zero => rw [rowStart_zero, List.take_zero, List.take_zero, List.flatten_nil]
  | succ r ih =>
    have hget : s.lines[r]? = some (s.rowText r) := by
      rw [lines_eq, List.getElem?_map, List.getElem?_range hr]
      rfl
    rw [List.take_add_one, List.flatten_append, ih (by omega), hget]
    have hle := s.rowStart_mono r.le_succ
    calc s.content.take (s.rowStart r) ++ [s.rowText r].flatten
        = (s.content.take (s.rowStart (r + 1))).take (s.rowStart r) ++ s.rowText r := by
          rw [List.take_take, Nat.min_eq_left hle, List.flatten_singleton]
      _ = s.content.take (s.rowStart (r + 1)) := List.take_append_drop _ _

theorem length_take_lines (hr : r ≤ s.rowCount) :
    ((s.lines.take r).map List.length).sum = s.rowStart r := by
  rw [← List.length_flatten, flatten_take_lines hr, List.length_take,
    Nat.min_eq_left (s.rowStart_le_length r)]

theorem flatten_lines (s : Source) : s.lines.flatten = s.content := by
  have hall := flatten_take_lines (s := s) le_rfl
  rwa [rowStart_of_le le_rfl, List.take_length, List.take_of_length_le s.length_lines.le] at hall

theorem fst_rowCol (s : Source) (index : Int) :
    (s.rowCol index).1 = s.starts.countP fun (start : Nat) => (start : Int) ≤ index := by
  unfold rowCol
  split <;> simp only [*]

theorem fst_rowCol_le (s : Source) (index : Int) : (s.rowCol index).1 ≤ s.rowCount := by
  rw [fst_rowCol]
  exact List.countP_le_length

theorem lt_fst_rowCol_iff (hr : r < s.rowCount) :
    r < (s.rowCol index).1 ↔ (s.rowStart r : Int) ≤ index := by
  rw [fst_rowCol, Sequence.lt_countP_iff s.pairwise_starts (getElem?_starts hr)]

theorem snd_rowCol_of_zero (h : (s.rowCol index).1 = 0) :
    (s.rowCol index).2 = index - s.content.length := by
  rw [fst_rowCol] at h
  rw [rowCol, h]

theorem snd_rowCol_of_succ (h : (s.rowCol index).1 = r + 1) :
    (s.rowCol index).2 = index - s.rowStart r := by
  have hr : r < s.rowCount := by
    have hle := s.fst_rowCol_le index
    omega
  rw [fst_rowCol] at h
  rw [rowCol, h]
  simp only [List.getD_eq_getElem?_getD, getElem?_starts hr, Option.getD_some]

/-- An offset lies on the last row that starts at or before it. -/
theorem rowCol_eq_iff {col : Int} :
    s.rowCol index = (r + 1, col) ↔ r < s.rowCount ∧ (s.rowStart r : Int) ≤ index ∧
      (r + 1 < s.rowCount → index < s.rowStart (r + 1)) ∧ col = index - s.rowStart r := by
  constructor
  · intro h
    have hrow : (s.rowCol index).1 = r + 1 := by rw [h]
    have hcol : (s.rowCol index).2 = col := by rw [h]
    have hr : r < s.rowCount := by
      have hle := s.fst_rowCol_le index
      omega
    refine ⟨hr, (lt_fst_rowCol_iff hr).1 (by omega), ?_, ?_⟩
    · intro hnext
      rw [← not_le, ← lt_fst_rowCol_iff hnext]
      omega
    · rw [← hcol, snd_rowCol_of_succ hrow]
  · rintro ⟨hr, hstart, hnext, rfl⟩
    have hrow : (s.rowCol index).1 = r + 1 := by
      have hlt := (lt_fst_rowCol_iff hr).2 hstart
      have hle := s.fst_rowCol_le index
      by_cases hlast : r + 1 < s.rowCount
      · have hstop := hnext hlast
        rw [← not_le, ← lt_fst_rowCol_iff hlast] at hstop
        omega
      · omega
    exact Prod.ext hrow (snd_rowCol_of_succ hrow)

/-- A row and a column in it that make up an offset. The end of a row is a place only if no
row comes after it. -/
structure IsPlace (s : Source) (index row col : Nat) : Prop where
  row_pos : 1 ≤ row
  row_le : row ≤ s.rowCount
  sum_eq : ((s.lines.take (row - 1)).map List.length).sum + col = index
  col_le : ∃ line, s.line? row = some line ∧
    (col < line.length ∨ row = s.rowCount ∧ col ≤ line.length)

theorem isPlace_succ_iff {index col : Nat} (hr : r < s.rowCount) :
    s.IsPlace index (r + 1) col ↔ s.rowStart r + col = index ∧
      (index < s.rowStart (r + 1) ∨ r + 1 = s.rowCount ∧ index ≤ s.content.length) := by
  have hline : s.line? ((r + 1 : Nat) : Int) = some (s.rowText r) := line?_succ hr
  have hlen := s.length_rowText r
  have hle := s.rowStart_mono r.le_succ
  constructor
  · intro h
    obtain ⟨line, hl, hcol⟩ := h.col_le
    have hsum := h.sum_eq
    rw [Nat.add_sub_cancel, length_take_lines hr.le] at hsum
    rw [hline] at hl
    cases hl
    refine ⟨hsum, ?_⟩
    rcases hcol with hcol | ⟨hlast, hcol⟩
    · left
      omega
    · right
      rw [rowStart_of_le hlast.ge] at hlen hle
      exact ⟨hlast, by omega⟩
  · rintro ⟨hsum, hstop⟩
    refine ⟨Nat.succ_pos r, hr, ?_, s.rowText r, hline, ?_⟩
    · rwa [Nat.add_sub_cancel, length_take_lines hr.le]
    · rcases hstop with hstop | ⟨hlast, hstop⟩
      · left
        omega
      · right
        rw [rowStart_of_le hlast.ge] at hlen
        exact ⟨hlast, by omega⟩

theorem exists_rowCol (s : Source) (index : Nat) :
    ∃ r col : Nat, r < s.rowCount ∧ s.rowCol index = (r + 1, (col : Int)) ∧
      index = s.rowStart r + col := by
  have hpos : 0 < (s.rowCol index).1 := by
    rw [lt_fst_rowCol_iff s.rowCount_pos, rowStart_zero]
    omega
  obtain ⟨r, hr⟩ := Nat.exists_eq_succ_of_ne_zero hpos.ne'
  have hsnd := snd_rowCol_of_succ hr
  obtain ⟨hlt, hstart, -, -⟩ := rowCol_eq_iff.1 (Prod.ext hr hsnd : s.rowCol index = (r + 1, _))
  refine ⟨r, index - s.rowStart r, hlt, Prod.ext hr ?_, by omega⟩
  rw [hsnd]
  dsimp only
  omega

theorem isPlace_of_rowCol {index row col : Nat} (hi : index ≤ s.content.length)
    (h : s.rowCol index = (row, (col : Int))) : s.IsPlace index row col := by
  obtain ⟨r, c, hr, heq, hsum⟩ := s.exists_rowCol index
  obtain ⟨rfl, hc⟩ := Prod.ext_iff.1 (h.symm.trans heq)
  obtain rfl : col = c := Int.natCast_inj.1 hc
  obtain ⟨-, -, hnext, -⟩ := rowCol_eq_iff.1 heq
  refine (isPlace_succ_iff hr).2 ⟨hsum.symm, ?_⟩
  by_cases hlast : r + 1 < s.rowCount
  · have hstop := hnext hlast
    left
    omega
  · right
    omega

theorem IsPlace.rowCol_eq {index row col : Nat} (h : s.IsPlace index row col) :
    index ≤ s.content.length ∧ s.rowCol index = (row, (col : Int)) := by
  obtain ⟨r, rfl⟩ := Nat.exists_eq_add_of_le' h.row_pos
  have hr : r < s.rowCount := h.row_le
  obtain ⟨hsum, hstop⟩ := (isPlace_succ_iff hr).1 h
  have hle := s.rowStart_le_length (r + 1)
  refine ⟨by omega, rowCol_eq_iff.2 ⟨hr, by omega, ?_, by omega⟩⟩
  intro hlast
  omega

theorem rowCol_lt {i j : Int} (h : i < j) : toLex (s.rowCol i) < toLex (s.rowCol j) := by
  rw [Prod.Lex.toLex_lt_toLex]
  have hmono : (s.rowCol i).1 ≤ (s.rowCol j).1 := by
    rw [fst_rowCol, fst_rowCol]
    refine List.countP_mono_left fun start _ hi => ?_
    rw [decide_eq_true_eq] at hi ⊢
    omega
  rcases hmono.lt_or_eq with hlt | heq
  · exact .inl hlt
  · refine .inr ⟨heq, ?_⟩
    cases hrow : (s.rowCol i).1 with
    | zero =>
      rw [snd_rowCol_of_zero hrow, snd_rowCol_of_zero (heq.symm.trans hrow)]
      omega
    | succ r =>
      rw [snd_rowCol_of_succ hrow, snd_rowCol_of_succ (heq.symm.trans hrow)]
      omega

theorem fst_rowCol_of_length_le (h : (s.content.length : Int) ≤ index) :
    (s.rowCol index).1 = s.rowCount := by
  have hpos := s.rowCount_pos
  have hle := s.rowStart_le_length (s.rowCount - 1)
  have hlt : s.rowCount - 1 < (s.rowCol index).1 := by
    rw [lt_fst_rowCol_iff (by omega)]
    omega
  have hmost := s.fst_rowCol_le index
  omega

end Source

/-- Rows and columns are another way to write the offsets of a source: each offset in it is one
place, and a later offset is a later place. -/
theorem offsets_are_places (s : Source) :
    (s.lines.length = s.rowCount ∧ s.lines.flatten = s.content) ∧
    (∀ index : Nat, index ≤ s.content.length →
      ∃ row col : Nat, s.rowCol index = (row, (col : Int)) ∧ s.IsPlace index row col) ∧
    (∀ index row col : Nat, s.IsPlace index row col →
      index ≤ s.content.length ∧ s.rowCol index = (row, (col : Int))) ∧
    (∀ i j : Int, i < j → toLex (s.rowCol i) < toLex (s.rowCol j)) ∧
    (s.isSingleLine = true ↔ s.rowCount = 1) ∧
    (∀ index : Int, s.content.length ≤ index → (s.rowCol index).1 = s.rowCount) ∧
    (∀ row : Int, s.line? row = none ↔ s.rowCount < row) := by
  refine ⟨⟨s.length_lines, s.flatten_lines⟩, ?_, ?_, ?_, ?_, ?_, ?_⟩
  · intro index hi
    obtain ⟨r, col, -, h, -⟩ := s.exists_rowCol index
    exact ⟨r + 1, col, h, Source.isPlace_of_rowCol hi h⟩
  · intro index row col h
    exact h.rowCol_eq
  · intro i j h
    exact Source.rowCol_lt h
  · exact beq_iff_eq
  · intro index h
    exact Source.fst_rowCol_of_length_le h
  · intro row
    exact Source.line?_eq_none_iff

theorem offsets_are_places_ab :
    2 ≤ "a\r\nb\n".toList.length ∧
    (∃ row col : Nat, Source.rowCol ⟨"a\r\nb\n".toList, .any⟩ (2 : Nat) = (row, (col : Int)) ∧
      Source.IsPlace ⟨"a\r\nb\n".toList, .any⟩ 2 row col) ∧
    Source.IsPlace ⟨"a\r\nb\n".toList, .any⟩ 5 3 0 ∧
    Source.rowCol ⟨"a\r\nb\n".toList, .any⟩ (5 : Nat) = (3, ((0 : Nat) : Int)) ∧
    (2 : Int) < 3 ∧
    toLex (Source.rowCol ⟨"a\r\nb\n".toList, .any⟩ 2) <
      toLex (Source.rowCol ⟨"a\r\nb\n".toList, .any⟩ 3) ∧
    (("a\r\nb\n".toList.length : Nat) : Int) ≤ 7 ∧
    (Source.rowCol ⟨"a\r\nb\n".toList, .any⟩ 7).1 = 3 := by
  obtain ⟨-, hplace, hoffset, hlater, -, hpast, -⟩ := offsets_are_places ⟨"a\r\nb\n".toList, .any⟩
  have hstarts : Source.starts ⟨"a\r\nb\n".toList, .any⟩ = [0, 3, 5] := by cbv
  have hlast : Source.IsPlace ⟨"a\r\nb\n".toList, .any⟩ 5 3 0 :=
    ⟨by decide, by rw [Source.rowCount, hstarts]; decide, by cbv, [], by cbv, .inr ⟨by cbv, by decide⟩⟩
  have hcount : Source.rowCount ⟨"a\r\nb\n".toList, .any⟩ = 3 := congrArg List.length hstarts
  exact ⟨by decide, hplace 2 (by decide), hlast, (hoffset 5 3 0 hlast).2, by decide,
    hlater 2 3 (by decide), by decide, (hpast 7 (by decide)).trans hcount⟩

end GreedyMatch
