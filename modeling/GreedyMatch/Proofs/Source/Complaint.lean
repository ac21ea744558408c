import GreedyMatch.Proofs.Source.Rows
import GreedyMatch.Source.Picture
import Mathlib.Data.List.DropRight

/-!
# What a complaint points at

Where a line feed, a carriage return and the two together all break a line, a row has no such
character in it but for the break at its end. The picture of a row leaves out this break and
nothing else, so the column of an offset is also a column of the picture, unless the offset is
inside the break. The carets begin below that column, or below the end of the line.
-/
namespace GreedyMatch

def Text.Unbroken (t : Text) : Prop := ∀ c ∈ t, Picture.isBreak c = false

instance (t : Text) : Decidable t.Unbroken := List.decidableBAll _ t

/-- The column behind the text where the tabs are `tab` columns apart. -/
def Text.displayColumn (tab : Nat) (t : Text) : Nat :=
  t.foldl (fun column c => if c = '\t' then column + (tab - column % tab) else column + 1) 0

namespace Text.Unbroken
variable {t u : Text}

theorem append (ht : t.Unbroken) (hu : u.Unbroken) : Text.Unbroken (t ++ u) :=
  List.forall_mem_append.2 ⟨ht, hu⟩

theorem ofNat (n : Nat) : (Text.ofNat n).Unbroken := by
  intro c hc
  have hdigit := Nat.isDigit_of_mem_toDigits (by decide) (by decide) hc
  rw [Picture.isBreak, Bool.or_eq_false_iff, beq_eq_false_iff_ne, beq_eq_false_iff_ne]
  constructor
  · rintro rfl
    cases hdigit
  · rintro rfl
    cases hdigit

theorem indent (t : Text) : (Picture.indent t).Unbroken := by
  intro c hc
  obtain ⟨a, -, rfl⟩ := List.mem_map.1 hc
  by_cases ha : a = '\t'
  · rw [if_pos ha]
    decide
  · rw [if_neg ha]
    decide

theorem replicate (n : Nat) {c : Char} (hc : Picture.isBreak c = false) :
    Text.Unbroken (List.replicate n c) := by
  intro a ha
  rwa [List.eq_of_mem_replicate ha]

end Text.Unbroken

namespace LineBreaks
variable {t : Text} {offset i : Nat} {c : Char}

theorem atFront_any_eq_zero_iff : any.atFront (c :: t) = 0 ↔ Picture.isBreak c = false := by
  unfold atFront Picture.isBreak
  split <;> simp_all

theorem of_atFront_any_eq_succ {n : Nat} (h : any.atFront (c :: t) = n + 1) :
    n = 0 ∨ n = 1 ∧ c = '\r' ∧ ∃ rest, t = '\n' :: rest := by
  unfold atFront at h
  split at h <;> simp_all

/-- A break ends behind each of its characters, or one further behind a carriage return that a
line feed follows. -/
theorem exists_mem_ends_of_isBreak (hi : t[i]? = some c) (hc : Picture.isBreak c = true) :
    ∃ e ∈ ends any offset t,
      e = offset + i + 1 ∨ e = offset + i + 2 ∧ c = '\r' ∧ t[i + 1]? = some '\n' := by
  fun_induction ends any offset t generalizing i with
  | case1 => cases hi
  | case2 offset a t hfront ih =>
    cases i with
    | zero =>
      cases hi
      rw [atFront_any_eq_zero_iff.1 hfront] at hc
      cases hc
    | succ i =>
      obtain ⟨e, he, hcases⟩ := ih hi
      exact ⟨e, he, hcases.imp (by omega) (And.imp_left (by omega))⟩
  | case3 offset a t n hfront ih =>
    rcases of_atFront_any_eq_succ hfront with rfl | ⟨rfl, rfl, rest, rfl⟩
    · cases i with
      | zero => exact ⟨_, List.mem_cons_self, .inl rfl⟩
      | succ i =>
        obtain ⟨e, he, hcases⟩ := ih hi
        exact ⟨e, List.mem_cons_of_mem _ he, hcases.imp (by omega) (And.imp_left (by omega))⟩
    -- two characters are passed at once: the one asked for is the first, the second or further on
    · cases i with
      | zero =>
        cases hi
        exact ⟨_, List.mem_cons_self, .inr ⟨rfl, rfl, rfl⟩⟩
      | succ i =>
        cases i with
        | zero => exact ⟨_, List.mem_cons_self, .inl rfl⟩
        | succ i =>
          obtain ⟨e, he, hcases⟩ := ih hi
          exact ⟨e, List.mem_cons_of_mem _ he, hcases.imp (by omega) (And.imp_left (by omega))⟩

theorem ends_any_eq_nil_iff : ends any offset t = [] ↔ t.Unbroken := by
  constructor
  · intro h c hc
    obtain ⟨i, hi⟩ := List.mem_iff_getElem?.1 hc
    rw [← Bool.not_eq_true]
    intro hbreak
    obtain ⟨e, he, -⟩ : ∃ e ∈ ends any offset t, _ := exists_mem_ends_of_isBreak hi hbreak
    rw [h] at he
    cases he
  · intro h
    induction t generalizing offset with
    | nil => rw [ends]
    | cons c t ih =>
      obtain ⟨hc, ht⟩ := List.forall_mem_cons.1 h
      rw [ends, atFront_any_eq_zero_iff.2 hc]
      exact ih ht

end LineBreaks

/-- A break as it stands at the end of a row, or nothing. -/
def LineBreaks.IsEnding (t : Text) : Prop := t ∈ [[], ['\r'], ['\n'], ['\r', '\n']]

theorem LineBreaks.IsEnding.isBreak {t : Text} (h : IsEnding t) : ∀ c ∈ t, Picture.isBreak c = true := by
  unfold IsEnding at h
  fin_cases h <;> simp [Picture.isBreak]

namespace Source
variable {content : Text} {r : Nat}

theorem isEnding_of_rowText_eq {visible rest : Text} {c : Char}
    (h : rowText ⟨content, .any⟩ r = visible ++ c :: rest) (hc : Picture.isBreak c = true) :
    LineBreaks.IsEnding (c :: rest) := by
  have hlen := length_rowText ⟨content, .any⟩ r
  rw [h, List.length_append, List.length_cons] at hlen
  have hget (i : Nat) (hi : i < rest.length + 1) :
      content[rowStart ⟨content, .any⟩ r + visible.length + i]? = (c :: rest)[i]? := by
    have hrow := getElem?_rowText (s := ⟨content, .any⟩) (r := r) (i := visible.length + i) (by omega)
    rwa [h, List.getElem?_append_right (by omega), Nat.add_sub_cancel_left, ← Nat.add_assoc,
      eq_comm] at hrow
  obtain ⟨e, he, hcases⟩ : ∃ e ∈ LineBreaks.ends .any 0 content, _ :=
    LineBreaks.exists_mem_ends_of_isBreak (hget 0 (Nat.succ_pos _)) hc
  -- what ends there is a row, so this one ends there already
  have hstart := rowStart_succ_le (s := ⟨content, .any⟩) (r := r) (List.mem_cons_of_mem 0 he) (by omega)
  rcases hcases with hend | ⟨hend, rfl, hlf⟩
  · obtain rfl : rest = [] := List.length_eq_zero_iff.1 (by omega)
    have hc : c = '\r' ∨ c = '\n' := by simpa [Picture.isBreak] using hc
    rcases hc with rfl | rfl <;> simp [LineBreaks.IsEnding]
  · cases rest with
    | nil => simp [LineBreaks.IsEnding]
    | cons d rest =>
      obtain rfl : rest = [] := List.length_eq_zero_iff.1 (by rw [List.length_cons] at hlen; omega)
      have hd := (hget 1 (by simp)).symm.trans hlf
      cases hd
      simp [LineBreaks.IsEnding]

theorem exists_rowText_eq (content : Text) (r : Nat) :
    ∃ visible ending, rowText ⟨content, .any⟩ r = visible ++ ending ∧ visible.Unbroken ∧
      LineBreaks.IsEnding ending := by
  let stays := fun c => !Picture.isBreak c
  have hsplit := List.takeWhile_append_dropWhile (p := stays) (l := rowText ⟨content, .any⟩ r)
  refine ⟨_, _, hsplit.symm, ?_, ?_⟩
  · intro c hc
    simpa [stays] using List.mem_takeWhile_imp hc
  · cases hrest : (rowText ⟨content, .any⟩ r).dropWhile stays with
    | nil => exact .head _
    | cons c rest =>
      rw [hrest] at hsplit
      refine isEnding_of_rowText_eq hsplit.symm ?_
      have hhead := List.head?_dropWhile_not stays (rowText ⟨content, .any⟩ r)
      rw [hrest] at hhead
      simpa [stays] using hhead

theorem isSingleLine_iff : isSingleLine ⟨content, .any⟩ = true ↔ content.Unbroken := by
  rw [isSingleLine, starts, beq_iff_eq, List.length_cons, Nat.add_eq_right,
    List.length_eq_zero_iff, LineBreaks.ends_any_eq_nil_iff]

end Source

namespace Picture
variable {t shown visible ending caption : Text} {start k count : Nat} {width : Int}

/-- In the row `carets` below the row `shown` the carets begin at `k`. What is before them is
blank, and as wide as what is above it, however wide a tab is. -/
structure Underlines (carets shown : Text) (k count : Nat) (caption : Text) : Prop where
  first_caret : carets.idxOf? '^' = some k
  blank : ∀ i < k, carets[i]? = shown[i]?.map fun c => if c = '\t' then '\t' else ' '
  displayColumn_eq (tab : Nat) :
    Text.displayColumn tab (carets.take k) = Text.displayColumn tab (shown.take k)
  drop_eq : carets.drop k = List.replicate count '^' ++ ' ' :: caption

theorem length_indent (t : Text) : (indent t).length = t.length := List.length_map _

theorem notMem_indent (t : Text) : '^' ∉ indent t := by
  intro h
  obtain ⟨c, -, hc⟩ := List.mem_map.1 h
  by_cases htab : c = '\t'
  · rw [if_pos htab] at hc
    cases hc
  · rw [if_neg htab] at hc
    cases hc

theorem displayColumn_indent (tab : Nat) (t : Text) :
    (indent t).displayColumn tab = t.displayColumn tab := by
  rw [Text.displayColumn, Text.displayColumn, indent, List.foldl_map]
  congr 1
  funext column c
  by_cases htab : c = '\t'
  · rw [if_pos htab, if_pos htab, if_pos rfl]
  · rw [if_neg htab, if_neg htab, if_neg (by decide)]

theorem underlines (hk : k ≤ shown.length) (hcount : 0 < count) :
    Underlines (indent (shown.take k) ++ List.replicate count '^' ++ ' ' :: caption) shown k count
      caption := by
  have hlen : (indent (shown.take k)).length = k := by
    rw [length_indent, List.length_take, Nat.min_eq_left hk]
  rw [List.append_assoc]
  refine ⟨?_, ?_, ?_, ?_⟩
  · obtain ⟨n, rfl⟩ := Nat.exists_eq_succ_of_ne_zero hcount.ne'
    rw [List.idxOf?_eq_some_iff]
    refine ⟨by rw [List.length_append, hlen, List.replicate_succ]; simp, ?_, ?_⟩
    · simp [List.getElem_append_right hlen.le, hlen, List.replicate_succ]
    · intro i hi
      rw [List.getElem_append_left (by omega)]
      exact fun h => notMem_indent (shown.take k) (h ▸ List.getElem_mem _)
  · intro i hi
    rw [List.getElem?_append_left (by omega), indent, List.getElem?_map, List.getElem?_take_of_lt hi]
  · intro tab
    rw [List.take_append_of_le_length hlen.ge, List.take_of_length_le hlen.le, displayColumn_indent]
  · rw [List.drop_left' hlen]

theorem dropRightWhile_isBreak (hv : visible.Unbroken) (he : LineBreaks.IsEnding ending) :
    Text.dropRightWhile isBreak (visible ++ ending) = visible := by
  rw [Text.dropRightWhile_append_of_all visible he.isBreak]
  refine List.rdropWhile_eq_self_iff.2 fun hne => ?_
  rw [Bool.not_eq_true]
  exact hv _ (List.getLast_mem hne)

/-- The picture of a row leaves out the break, and shows the carets no further right than where
the rest ends. -/
theorem draw_append (hv : visible.Unbroken) (he : LineBreaks.IsEnding ending) :
    draw margin (visible ++ ending) start width caption =
      (margin ++ visible) ++ '\n' ::
        (indent ((margin ++ visible).take (margin.length + min start visible.length)) ++
          List.replicate (caretCount visible.length start width) '^' ++ ' ' :: caption) := by
  have hstem : margin ++ Sequence.upTo visible start =
      (margin ++ visible).take (margin.length + min start visible.length) := by
    rw [List.take_length_add_append, Sequence.upTo, Sequence.clamp_of_nonneg (by omega),
      Int.toNat_natCast]
  rw [draw, dropRightWhile_isBreak hv he, hstem]
  simp only [List.append_assoc, List.cons_append]

end Picture

namespace Source
variable {content message caption : Text} {left r row col : Nat} {right : Int}

theorem capitalized_append_after (t : Text) :
    capitalized ("after ".toList ++ t) = "After ".toList ++ t := rfl

theorem capitalized_append_at (t : Text) :
    capitalized ("at line ".toList ++ t) = "At line ".toList ++ t := rfl

theorem capitalized_location_of_unbroken (h : content.Unbroken) :
    capitalized (location ⟨content, .any⟩ left) =
      "After ".toList ++ Text.ofNat left ++ (if left = 1 then " character" else " characters").toList := by
  rw [location, if_pos (isSingleLine_iff.2 h), capitalized_append_after, Text.counted,
    List.append_assoc]
  by_cases hone : left = 1
  · subst hone
    rfl
  · rw [if_neg hone, if_neg (by omega), List.append_assoc]
    rfl

theorem capitalized_location_of_not_unbroken (h : ¬ content.Unbroken)
    (hplace : rowCol ⟨content, .any⟩ left = (row, (col : Int))) :
    capitalized (location ⟨content, .any⟩ left) =
      "At line ".toList ++ Text.ofNat row ++ ", column ".toList ++ Text.ofNat (col + 1) := by
  rw [location, if_neg fun hsingle => h (isSingleLine_iff.1 hsingle), hplace]
  simp only [List.append_assoc, capitalized_append_at]
  rfl

/-- A complaint about the offset `left` has three parts: a header, the row of that offset without
its break, and a row of carets. -/
structure Complains (content : Text) (left : Nat) (right : Int) (message caption : Text)
    (header visible carets : Text) (row col : Nat) : Prop where
  complaint_eq : complaint ⟨content, .any⟩ left right message caption =
    header ++ '\n' :: (Picture.margin ++ visible) ++ '\n' :: carets
  unbroken_header : header.Unbroken
  unbroken_shown : (Picture.margin ++ visible : Text).Unbroken
  unbroken_carets : carets.Unbroken
  rowCol_eq : rowCol ⟨content, .any⟩ left = (row, (col : Int))
  line_eq : ∃ ending, LineBreaks.IsEnding ending ∧
    line? ⟨content, .any⟩ row = some (visible ++ ending)
  header_of_unbroken : content.Unbroken → header = "After ".toList ++ Text.ofNat left ++
    (if left = 1 then " character" else " characters").toList ++ ": ".toList ++ message
  header_of_not_unbroken : ¬ content.Unbroken → header = "At line ".toList ++ Text.ofNat row ++
    ", column ".toList ++ Text.ofNat (col + 1) ++ ": ".toList ++ message
  /-- There is at least one caret, and past the end of the row there are no more. -/
  underlines : Picture.Underlines carets (Picture.margin ++ visible)
    (Picture.margin.length + min col visible.length)
    (max 1 (min (right - left) (visible.length - col))).toNat caption
  /-- The first caret is below the character at `left`, unless a break is there, or the end. -/
  offender : ∀ c, content[left]? = some c → Picture.isBreak c = false →
    (Picture.margin ++ visible)[Picture.margin.length + min col visible.length]? = some c

theorem unbroken_capitalized_location (hplace : rowCol ⟨content, .any⟩ left = (row, (col : Int))) :
    Text.Unbroken (capitalized (location ⟨content, .any⟩ left)) := by
  by_cases h : content.Unbroken
  · rw [capitalized_location_of_unbroken h]
    refine Text.Unbroken.append (.append (by decide) (.ofNat left)) ?_
    by_cases hone : left = 1
    · rw [if_pos hone]
      decide
    · rw [if_neg hone]
      decide
  · rw [capitalized_location_of_not_unbroken h hplace]
    exact .append (.append (.append (by decide) (.ofNat row)) (by decide)) (.ofNat (col + 1))

theorem getElem?_visible {visible ending : Text} {c : Char}
    (hplace : rowCol ⟨content, .any⟩ left = (r + 1, (col : Int)))
    (hrow : rowText ⟨content, .any⟩ r = visible ++ ending) (hending : LineBreaks.IsEnding ending)
    (hc : content[left]? = some c) (hbreak : Picture.isBreak c = false) :
    visible[col]? = some c := by
  obtain ⟨hr, hstart, hnext, hcol⟩ := rowCol_eq_iff.1 hplace
  have hleft : left < content.length := (List.getElem?_eq_some_iff.1 hc).1
  have hstop : left < rowStart ⟨content, .any⟩ (r + 1) := by
    by_cases hlast : r + 1 < rowCount ⟨content, .any⟩
    · have hlt := hnext hlast
      omega
    · rwa [rowStart_of_le (Nat.not_lt.1 hlast)]
  have hsum : rowStart ⟨content, .any⟩ r + col = left := by omega
  have hget : (visible ++ ending)[col]? = some c := by
    rw [← hrow, getElem?_rowText (by rwa [hsum]), hsum]
    exact hc
  by_cases hvisible : col < visible.length
  · rwa [List.getElem?_append_left hvisible] at hget
  · rw [List.getElem?_append_right (Nat.not_lt.1 hvisible)] at hget
    have hmem := hending.isBreak c (List.mem_of_getElem? hget)
    rw [hbreak] at hmem
    cases hmem

theorem complaint_eq {s : Source} (hr : r < s.rowCount) (hplace : s.rowCol left = (r + 1, (col : Int))) :
    s.complaint left right message caption =
      capitalized (s.location left) ++ ": ".toList ++ message ++ '\n' ::
        Picture.draw Picture.margin (s.rowText r) col (right - left) caption := by
  have hline : s.line? ((r + 1 : Nat) : Int) = some (s.rowText r) := line?_succ hr
  simp only [complaint, hplace, hline, Option.getD_some]

end Source

/-- A complaint is three rows of text. The second one is the row that holds the offset, without
the break at its end; the carets in the third one begin below the character at that offset; and
the first one says which it is. -/
theorem complaints_point_at_offender (content : Text) (left : Nat) (right : Int)
    {message caption : Text} (hmessage : message.Unbroken) (hcaption : caption.Unbroken) :
    ∃ header visible carets row col,
      Source.Complains content left right message caption header visible carets row col := by
  obtain ⟨r, col, hr, hplace, -⟩ := Source.exists_rowCol ⟨content, .any⟩ left
  obtain ⟨visible, ending, hrow, hvisible, hending⟩ := Source.exists_rowText_eq content r
  have hmargin : Text.Unbroken Picture.margin := by decide
  have hshown : Text.Unbroken (Picture.margin ++ visible) := hmargin.append hvisible
  refine ⟨Source.capitalized (Source.location ⟨content, .any⟩ left) ++ ": ".toList ++ message, visible,
    _, r + 1, col, ?_, ?_, hshown, ?_, hplace, ⟨ending, hending, ?_⟩, ?_, ?_,
    Picture.underlines ?_ ?_, ?_⟩
  · rw [Source.complaint_eq hr hplace, hrow, Picture.draw_append hvisible hending]
    simp only [List.append_assoc, List.cons_append, Picture.caretCount]
  · exact ((Source.unbroken_capitalized_location hplace).append (by decide)).append hmessage
  · exact ((Text.Unbroken.indent _).append (.replicate _ (by decide))).append
      (List.forall_mem_cons.2 ⟨by decide, hcaption⟩)
  · rw [← hrow]
    exact Source.line?_succ hr
  · intro h
    rw [Source.capitalized_location_of_unbroken h]
  · intro h
    rw [Source.capitalized_location_of_not_unbroken h hplace]
  · rw [List.length_append]
    exact Nat.add_le_add_left (Nat.min_le_right _ _) _
  · omega
  · intro c hc hbreak
    have hget := Source.getElem?_visible hplace hrow hending hc hbreak
    have hcol : col < visible.length := (List.getElem?_eq_some_iff.1 hget).1
    rw [Nat.min_eq_left hcol.le, List.getElem?_append_right (Nat.le_add_right _ _),
      Nat.add_sub_cancel_left]
    exact hget

theorem complaints_point_at_offender_tab :
    Text.Unbroken "Oops.".toList ∧ Text.Unbroken "here".toList ∧
    ∃ visible carets, Source.Complains "let\n\tx y\r\nz".toList 7 9 "Oops.".toList "here".toList
      "At line 2, column 4: Oops.".toList visible carets 2 3 := by
  have hmessage : Text.Unbroken "Oops.".toList := by decide
  have hcaption : Text.Unbroken "here".toList := by decide
  obtain ⟨header, visible, carets, row, col, h⟩ :=
    complaints_point_at_offender "let\n\tx y\r\nz".toList 7 9 hmessage hcaption
  have hplace : Source.rowCol ⟨"let\n\tx y\r\nz".toList, .any⟩ (7 : Nat) = (2, ((3 : Nat) : Int)) := by
    cbv
  obtain ⟨hrow, hcol⟩ := Prod.mk.inj (h.rowCol_eq.symm.trans hplace)
  obtain rfl : row = 2 := hrow
  obtain rfl : col = 3 := Int.natCast_inj.1 hcol
  have hheader : "At line ".toList ++ Text.ofNat 2 ++ ", column ".toList ++ Text.ofNat (3 + 1) ++
      ": ".toList ++ "Oops.".toList = "At line 2, column 4: Oops.".toList := by cbv
  obtain rfl := (h.header_of_not_unbroken (by decide)).trans hheader
  exact ⟨hmessage, hcaption, visible, carets, h⟩

end GreedyMatch
