import GreedyMatch.Proofs.Source.Complaint
import Mathlib

/-!
# Where breaks end

Breaks are found by a scan from left to right that takes the longest break at each offset and
goes on behind it. Whether a break ends at an offset can be told without the scan, from the two
or three characters around it. The rows between the breaks are therefore the same ones, but for
the way they end, when all breaks are written as line feeds and only those are looked for.
-/
namespace GreedyMatch

namespace LineBreaks
variable {breaks : LineBreaks} {t : Text} {c : Char} {offset k n : Nat}

/-- The characters around the offset `e` say that a break ends there. -/
def EndsAt (breaks : LineBreaks) (t : Text) (e : Nat) : Prop :=
  match breaks with
  | .any => t[e - 1]? = some '\n' ∨ t[e - 1]? = some '\r' ∧ t[e]? ≠ some '\n'
  | .lf => t[e - 1]? = some '\n'
  | .cr => t[e - 1]? = some '\r'
  | .crlf => 2 ≤ e ∧ t[e - 2]? = some '\r' ∧ t[e - 1]? = some '\n'

theorem atFront_eq_two_iff :
    breaks.atFront (c :: t) = 2 ↔
      (breaks = .any ∨ breaks = .crlf) ∧ c = '\r' ∧ t[0]? = some '\n' := by
  cases t with
  | nil =>
    by_cases hcr : c = '\r' <;> by_cases hlf : c = '\n' <;> cases breaks <;>
      simp [atFront, hcr, hlf]
  | cons d t =>
    by_cases hcr : c = '\r' <;> by_cases hlf : c = '\n' <;> by_cases hd : d = '\n' <;>
      cases breaks <;> simp [atFront, hcr, hlf, hd]

theorem atFront_le_two (breaks : LineBreaks) (t : Text) : breaks.atFront t ≤ 2 := by
  unfold atFront
  split <;> simp

theorem endsAt_one_iff : breaks.EndsAt (c :: t) 1 ↔ breaks.atFront (c :: t) = 1 := by
  cases t with
  | nil =>
    by_cases hcr : c = '\r' <;> by_cases hlf : c = '\n' <;> cases breaks <;>
      simp [EndsAt, atFront, hcr, hlf]
  | cons d t =>
    by_cases hcr : c = '\r' <;> by_cases hlf : c = '\n' <;> by_cases hd : d = '\n' <;>
      cases breaks <;> simp [EndsAt, atFront, hcr, hlf, hd]

theorem endsAt_iff_of_le (hpos : 0 < k) (hle : k ≤ max 1 (breaks.atFront (c :: t))) :
    breaks.EndsAt (c :: t) k ↔ breaks.atFront (c :: t) = k := by
  have htwo := breaks.atFront_le_two (c :: t)
  obtain rfl | rfl : k = 1 ∨ k = 2 := by omega
  · exact endsAt_one_iff
  · have hfront : breaks.atFront (c :: t) = 2 := by omega
    obtain ⟨hbreaks, rfl, hlf⟩ := atFront_eq_two_iff.1 hfront
    refine iff_of_true ?_ hfront
    rcases hbreaks with rfl | rfl <;> simp [EndsAt, hlf]

theorem endsAt_cons_iff (h : k = 0 → breaks.atFront (c :: t) ≠ 2) :
    breaks.EndsAt (c :: t) (k + 2) ↔ breaks.EndsAt t (k + 1) := by
  cases breaks with
  | any => rfl
  | lf => rfl
  | cr => rfl
  | crlf =>
    cases k with
    -- the first character counts only as the first of a pair
    | zero =>
      have hpair := h rfl
      rw [Ne, atFront_eq_two_iff] at hpair
      simp_all [EndsAt]
    | succ k => simp [EndsAt]

/-- Behind the break at the front, or else behind the first character, the characters before an
offset are the same ones without what is at the front. -/
theorem endsAt_add_iff (h : max 1 (breaks.atFront (c :: t)) = n + 1) :
    breaks.EndsAt (c :: t) (n + 1 + (k + 1)) ↔ breaks.EndsAt (t.drop n) (k + 1) := by
  have htwo := breaks.atFront_le_two (c :: t)
  obtain rfl | rfl : n = 0 ∨ n = 1 := by omega
  · rw [Nat.add_comm (0 + 1), Nat.add_assoc, endsAt_cons_iff fun _ => by omega, List.drop_zero]
  · obtain ⟨-, rfl, hlf⟩ := atFront_eq_two_iff.1 (show breaks.atFront (c :: t) = 2 by omega)
    cases t with
    | nil => cases hlf
    | cons d t =>
      cases hlf
      have hfront : breaks.atFront ('\n' :: t) ≠ 2 := by simp [atFront_eq_two_iff]
      rw [show 1 + 1 + (k + 1) = k + 1 + 2 by omega, endsAt_cons_iff fun hk => by omega,
        endsAt_cons_iff fun _ => hfront]
      rfl

theorem mem_ends_cons_iff {e : Nat} (h : max 1 (breaks.atFront (c :: t)) = n + 1) :
    e ∈ ends breaks offset (c :: t) ↔
      0 < breaks.atFront (c :: t) ∧ e = offset + breaks.atFront (c :: t) ∨
        e ∈ ends breaks (offset + n + 1) (t.drop n) := by
  rw [ends]
  cases hfront : breaks.atFront (c :: t) with
  | zero =>
    obtain rfl : n = 0 := by omega
    simp
  | succ m =>
    obtain rfl : m = n := by omega
    simp [Nat.add_assoc]

/-- If the scan is right about what comes behind the front, it is right about the whole. -/
theorem mem_ends_step (hmax : max 1 (breaks.atFront (c :: t)) = n + 1)
    (ih : ∀ k, offset + n + 1 + k ∈ ends breaks (offset + n + 1) (t.drop n) ↔
      0 < k ∧ k ≤ (t.drop n).length ∧ breaks.EndsAt (t.drop n) k) :
    offset + k ∈ ends breaks offset (c :: t) ↔
      0 < k ∧ k ≤ (c :: t).length ∧ breaks.EndsAt (c :: t) k := by
  have hlength := breaks.atFront_le_length (c :: t)
  rw [List.length_cons] at hlength
  rw [mem_ends_cons_iff hmax, List.length_cons]
  -- what is passed at once has no end inside of it; behind it the scan starts anew
  by_cases hk : k ≤ n + 1
  · have hrest : offset + k ∉ ends breaks (offset + n + 1) (t.drop n) := fun h => by
      have hlt := (mem_ends_bounds h).1
      omega
    rw [or_iff_left hrest]
    constructor
    · rintro ⟨hpos, heq⟩
      have hfront : breaks.atFront (c :: t) = k := by omega
      exact ⟨by omega, by omega, (endsAt_iff_of_le (by omega) (by omega)).2 hfront⟩
    · rintro ⟨hpos, -, h⟩
      have hfront := (endsAt_iff_of_le hpos (by omega)).1 h
      omega
  · obtain ⟨j, rfl⟩ := Nat.exists_eq_add_of_lt (Nat.lt_of_not_le hk)
    have hoffset : offset + (n + 1 + j + 1) = offset + n + 1 + (j + 1) := by omega
    rw [or_iff_right (by omega), hoffset, ih, List.length_drop, Nat.add_assoc (n + 1),
      endsAt_add_iff hmax]
    exact and_congr (by omega) (and_congr_left' (by omega))

theorem mem_ends_iff :
    offset + k ∈ ends breaks offset t ↔ 0 < k ∧ k ≤ t.length ∧ breaks.EndsAt t k := by
  fun_induction ends breaks offset t generalizing k with
  | case1 =>
    rw [List.length_nil]
    exact iff_of_false List.not_mem_nil (by omega)
  | case2 offset c cs hfront ih =>
    have hends : ends breaks offset (c :: cs) = ends breaks (offset + 1) cs := by rw [ends, hfront]
    rw [← hends]
    exact mem_ends_step (n := 0) (by omega) fun _ => ih
  | case3 offset c cs n hfront ih =>
    have hends : ends breaks offset (c :: cs) =
        (offset + n + 1) :: ends breaks (offset + n + 1) (cs.drop n) := by rw [ends, hfront]
    rw [← hends]
    exact mem_ends_step (by omega) fun _ => ih

theorem ends_add (breaks : LineBreaks) (offset k : Nat) (t : Text) :
    ends breaks (offset + k) t = (ends breaks offset t).map (· + k) := by
  fun_induction ends breaks offset t with
  | case1 => rw [ends, List.map_nil]
  | case2 offset c cs hfront ih =>
    rw [ends, hfront, Nat.add_right_comm]
    exact ih
  | case3 offset c cs n hfront ih =>
    rw [ends, hfront, List.map_cons, ← ih]
    simp only [Nat.add_right_comm _ k, Nat.add_assoc]

end LineBreaks

namespace Source
variable {breaks : LineBreaks} {t : Text} {c : Char} {n : Nat}

theorem bounds_cons_of_eq_zero (h : breaks.atFront (c :: t) = 0) :
    bounds ⟨c :: t, breaks⟩ = 0 :: (bounds ⟨t, breaks⟩).tail.map (· + 1) := by
  rw [bounds, starts, LineBreaks.ends, h]
  simp [bounds, starts, LineBreaks.ends_add breaks 0 1]

theorem bounds_cons_of_eq_succ (h : breaks.atFront (c :: t) = n + 1) :
    bounds ⟨c :: t, breaks⟩ = 0 :: (bounds ⟨t.drop n, breaks⟩).map (· + (n + 1)) := by
  have hn := breaks.atFront_le_length (c :: t)
  have hends : LineBreaks.ends breaks (n + 1) (t.drop n) =
      (LineBreaks.ends breaks 0 (t.drop n)).map (· + (n + 1)) := by
    rw [← LineBreaks.ends_add, Nat.zero_add]
  have hlength : (c :: t).length = (t.drop n).length + (n + 1) := by
    rw [h, List.length_cons] at hn
    rw [List.length_cons, List.length_drop]
    omega
  rw [bounds, starts, LineBreaks.ends, h]
  simp [bounds, starts, hends, hlength]

theorem lines_eq_zipWith (s : Source) :
    s.lines = List.zipWith (fun start stop => (s.content.take stop).drop start) s.bounds
      s.bounds.tail := by
  have hlength : s.bounds.length = s.rowCount + 1 := by
    rw [bounds, List.length_append, rowCount, List.length_singleton]
  refine List.ext_getElem? fun r => ?_
  rw [lines_eq, List.getElem?_map, List.getElem?_zipWith, List.getElem?_tail]
  by_cases hr : r < s.rowCount
  · rw [List.getElem?_range hr, getElem?_bounds hr.le, getElem?_bounds hr]
    rfl
  · rw [List.getElem?_eq_none (l := s.bounds) (i := r + 1) (by omega),
      List.getElem?_eq_none (by rw [List.length_range]; omega)]
    cases s.bounds[r]? <;> rfl

theorem bounds_eq_cons (s : Source) : ∃ b bs, s.bounds = 0 :: b :: bs := by
  cases h : s.breaks.ends 0 s.content with
  | nil => exact ⟨_, [], by rw [bounds, starts, h]; rfl⟩
  | cons b bs => exact ⟨b, bs ++ [s.content.length], by rw [bounds, starts, h]; rfl⟩

theorem lines_cons_of_eq_zero (h : breaks.atFront (c :: t) = 0) :
    lines ⟨c :: t, breaks⟩ = (lines ⟨t, breaks⟩).modifyHead (c :: ·) := by
  obtain ⟨b, bs, hbs⟩ := bounds_eq_cons ⟨t, breaks⟩
  rw [lines_eq_zipWith, lines_eq_zipWith, bounds_cons_of_eq_zero h, hbs]
  simp only [List.tail_cons, List.map_cons, List.zipWith_cons_cons, List.modifyHead_cons]
  congr 1
  rw [← List.map_cons (f := (· + 1)), List.zipWith_map]
  simp

theorem lines_cons_of_eq_succ (h : breaks.atFront (c :: t) = n + 1) :
    lines ⟨c :: t, breaks⟩ = (c :: t.take n) :: lines ⟨t.drop n, breaks⟩ := by
  have hrow (start stop : Nat) :
      ((c :: t).take (stop + (n + 1))).drop (start + (n + 1)) =
        ((t.drop n).take stop).drop start := by
    rw [← Nat.add_assoc, ← Nat.add_assoc, List.take_succ_cons, List.drop_succ_cons,
      Nat.add_comm start, ← List.drop_drop, List.drop_take, Nat.add_sub_cancel]
  obtain ⟨b, bs, hbs⟩ := bounds_eq_cons ⟨t.drop n, breaks⟩
  rw [lines_eq_zipWith, lines_eq_zipWith, bounds_cons_of_eq_succ h, List.tail_cons, hbs,
    List.map_cons, List.zipWith_cons_cons, ← List.map_cons (f := (· + (n + 1))), List.zipWith_map,
    List.tail_cons]
  simp only [hrow, Nat.zero_add, List.take_succ_cons, List.drop_zero]

def innerBounds (s : Source) : List Nat := s.bounds.tail.dropLast

theorem innerBounds_eq (s : Source) : s.innerBounds = s.breaks.ends 0 s.content := by
  rw [innerBounds, bounds, starts, List.cons_append, List.tail_cons, List.dropLast_concat]

theorem mem_innerBounds_iff {s : Source} {e : Nat} (hpos : 0 < e) (hle : e ≤ s.content.length) :
    e ∈ s.innerBounds ↔ s.breaks.EndsAt s.content e := by
  have hends : 0 + e ∈ s.breaks.ends 0 s.content ↔ _ := LineBreaks.mem_ends_iff
  rwa [Nat.zero_add, ← innerBounds_eq, and_iff_right hpos, and_iff_right hle] at hends

/-- A carriage return and the line feed behind it are one break, which ends behind both. -/
theorem count_innerBounds_of_pair {content : Text} {i : Nat} (hcr : content[i]? = some '\r')
    (hlf : content[i + 1]? = some '\n') :
    i + 1 ∉ innerBounds ⟨content, .any⟩ ∧ (innerBounds ⟨content, .any⟩).count (i + 2) = 1 := by
  have hlength : i + 1 < content.length := (List.getElem?_eq_some_iff.1 hlf).1
  have hnodup : (innerBounds ⟨content, .any⟩).Nodup := by
    rw [innerBounds_eq]
    exact (LineBreaks.pairwise_ends .any 0 content).imp Nat.ne_of_lt
  constructor
  · rw [mem_innerBounds_iff (Nat.succ_pos i) hlength.le]
    simp [LineBreaks.EndsAt, hcr, hlf]
  · refine List.count_eq_one_of_mem hnodup ?_
    rw [mem_innerBounds_iff (s := ⟨content, .any⟩) (Nat.succ_pos (i + 1)) hlength]
    exact .inl hlf

/-- Rows that differ in nothing but the break at the end of each row but the last. No row has a
break inside of it. -/
inductive AlikeRows : List Text → List Text → Prop
  | last {row : Text} : row.Unbroken → AlikeRows [row] [row]
  | cons {visible ending : Text} {rows rows' : List Text} : visible.Unbroken →
      ending ∈ [['\n'], ['\r'], ['\r', '\n']] → AlikeRows rows rows' →
      AlikeRows ((visible ++ ending) :: rows) ((visible ++ ['\n']) :: rows')

theorem AlikeRows.length_eq {rows rows' : List Text} (h : AlikeRows rows rows') :
    rows.length = rows'.length := by
  induction h with
  | last => rfl
  | cons _ _ _ ih => rw [List.length_cons, List.length_cons, ih]

theorem AlikeRows.modifyHead_cons {rows rows' : List Text} (h : AlikeRows rows rows')
    (hc : Picture.isBreak c = false) :
    AlikeRows (rows.modifyHead (c :: ·)) (rows'.modifyHead (c :: ·)) := by
  cases h with
  | last hrow => exact .last (List.forall_mem_cons.2 ⟨hc, hrow⟩)
  | cons hvisible hending hrows =>
    exact .cons (List.forall_mem_cons.2 ⟨hc, hvisible⟩) hending hrows

end Source

/-- The text with a line feed in place of each carriage return, and of the two together. -/
def Text.withLineFeeds : Text → Text
  | [] => []
  | '\r' :: '\n' :: t => '\n' :: withLineFeeds t
  | '\r' :: t => '\n' :: withLineFeeds t
  | c :: t => c :: withLineFeeds t

namespace Source

theorem AlikeRows.cons_break (ending : Text) {t u : Text}
    (hending : ending ∈ [['\n'], ['\r'], ['\r', '\n']])
    (hrow : lines ⟨ending ++ t, .any⟩ = ending :: lines ⟨t, .any⟩)
    (h : AlikeRows (lines ⟨t, .any⟩) (lines ⟨u, .lf⟩)) :
    AlikeRows (lines ⟨ending ++ t, .any⟩) (lines ⟨'\n' :: u, .lf⟩) := by
  have hrow' : lines ⟨'\n' :: u, .lf⟩ = ['\n'] :: lines ⟨u, .lf⟩ :=
    lines_cons_of_eq_succ (n := 0) rfl
  rw [hrow, hrow']
  exact AlikeRows.cons (List.forall_mem_nil _) hending h

theorem alikeRows_withLineFeeds (t : Text) :
    AlikeRows (lines ⟨t, .any⟩) (lines ⟨t.withLineFeeds, .lf⟩) := by
  fun_induction Text.withLineFeeds t with
  | case1 =>
    have hrow (breaks : LineBreaks) : lines ⟨[], breaks⟩ = [[]] := by
      rw [lines_eq_zipWith, bounds, starts, LineBreaks.ends]
      rfl
    rw [hrow, hrow]
    exact .last (List.forall_mem_nil _)
  | case2 t ih =>
    exact AlikeRows.cons_break ['\r', '\n'] (by simp) (lines_cons_of_eq_succ (n := 1) rfl) ih
  | case3 t ht ih =>
    have hfront : LineBreaks.atFront .any ('\r' :: t) = 1 := by simp [LineBreaks.atFront]
    exact AlikeRows.cons_break ['\r'] (by simp) (lines_cons_of_eq_succ (n := 0) hfront) ih
  | case4 c t _ hcr ih =>
    by_cases hlf : c = '\n'
    · subst hlf
      exact AlikeRows.cons_break ['\n'] (by simp) (lines_cons_of_eq_succ (n := 0) rfl) ih
    · have hc : Picture.isBreak c = false := by simpa [Picture.isBreak] using ⟨hcr, hlf⟩
      have hfront : LineBreaks.atFront .lf (c :: Text.withLineFeeds t) = 0 := by
        simp [LineBreaks.atFront, hlf]
      rw [lines_cons_of_eq_zero (LineBreaks.atFront_any_eq_zero_iff.2 hc),
        lines_cons_of_eq_zero hfront]
      exact ih.modifyHead_cons hc

end Source

/-- Breaks end where the characters around say so. Where all three sorts count, each row but the
last has one break, at its end, and the rows are otherwise those of the text with line feeds for the
breaks. -/
theorem breaks_are_found_exactly (content : Text) :
    (∀ (breaks : LineBreaks) (e : Nat), 0 < e → e ≤ content.length →
      (e ∈ Source.innerBounds ⟨content, breaks⟩ ↔ breaks.EndsAt content e)) ∧
    (∀ i : Nat, content[i]? = some '\r' → content[i + 1]? = some '\n' →
      i + 1 ∉ Source.innerBounds ⟨content, .any⟩ ∧
        (Source.innerBounds ⟨content, .any⟩).count (i + 2) = 1) ∧
    (Source.lines ⟨content.withLineFeeds, .lf⟩).length = (Source.lines ⟨content, .any⟩).length ∧
    Source.AlikeRows (Source.lines ⟨content, .any⟩)
      (Source.lines ⟨content.withLineFeeds, .lf⟩) := by
  refine ⟨?_, ?_, (Source.alikeRows_withLineFeeds content).length_eq.symm,
    Source.alikeRows_withLineFeeds content⟩
  · intro breaks e hpos hle
    exact Source.mem_innerBounds_iff (s := ⟨content, breaks⟩) hpos hle
  · intro i hcr hlf
    exact Source.count_innerBounds_of_pair hcr hlf

theorem breaks_are_found_exactly_crcrlf :
    0 < 3 ∧ 3 ≤ "\r\r\n\n\r".toList.length ∧
    (3 ∈ Source.innerBounds ⟨"\r\r\n\n\r".toList, .crlf⟩ ↔
      LineBreaks.EndsAt .crlf "\r\r\n\n\r".toList 3) ∧
    "\r\r\n\n\r".toList[1]? = some '\r' ∧ "\r\r\n\n\r".toList[2]? = some '\n' ∧
    2 ∉ Source.innerBounds ⟨"\r\r\n\n\r".toList, .any⟩ ∧
    (Source.innerBounds ⟨"\r\r\n\n\r".toList, .any⟩).count 3 = 1 ∧
    Source.innerBounds ⟨"\r\r\n\n\r".toList, .any⟩ = [1, 3, 4, 5] := by
  obtain ⟨hlaw, hpair, -, -⟩ := breaks_are_found_exactly "\r\r\n\n\r".toList
  obtain ⟨hsplit, hcount⟩ := hpair 1 (by decide) (by decide)
  exact ⟨by decide, by decide, hlaw .crlf 3 (by decide) (by decide), by decide, by decide, hsplit,
    hcount, by cbv⟩

end GreedyMatch
