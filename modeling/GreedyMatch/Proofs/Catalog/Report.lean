import GreedyMatch.Catalog.Verdict
import GreedyMatch.Proofs.Source.Complaint
import GreedyMatch.Proofs.Text.Read

/-!
# Reading reports back

A report is one line, whatever the tokens are that it shows. All that it tells can be read off
it again: the grammar, and either how far that got in how many characters or how its tokens are
written. So reports that tell of something else are not the same text.
-/
namespace GreedyMatch

namespace Text

theorem dropPrefix?_append (p t : Text) : (p ++ t).dropPrefix? p = some t :=
  List.dropPrefix?_eq_some_iff.2 ⟨p, rfl, beq_self_eq_true p⟩

namespace Unbroken
variable {t : Text} {c : Char}

theorem cons (hc : Picture.isBreak c = false) (ht : t.Unbroken) : Text.Unbroken (c :: t) :=
  List.forall_mem_cons.2 ⟨hc, ht⟩

theorem singleton (hc : Picture.isBreak c = false) : Text.Unbroken [c] :=
  cons hc (List.forall_mem_nil _)

theorem toDigits_sixteen (n : Nat) : Text.Unbroken (Nat.toDigits 16 n) := by
  have hdigit : ∀ d < 16, Picture.isBreak (Nat.digitChar d) = false := by decide
  induction n using Nat.strongRecOn with
  | ind n ih =>
    rw [Nat.toDigits_eq_if (by decide)]
    split_ifs with hn
    · exact singleton (hdigit n hn)
    · exact (ih (n / 16) (by omega)).append (singleton (hdigit _ (by omega)))

theorem hex (width n : Nat) : (Text.hex width n).Unbroken :=
  (replicate _ (by decide)).append (toDigits_sixteen n)

/-- The characters that break a line are the first ones to be written as something else. -/
theorem escape {quote : Char} (hquote : Picture.isBreak quote = false) (c : Char) :
    (Text.escape quote c).Unbroken := by
  have hbackslash : Picture.isBreak backslash = false := by decide
  unfold Text.escape
  split_ifs with hself hlf hcr
  · refine cons hbackslash (singleton ?_)
    rcases hself with rfl | rfl
    · exact hquote
    · exact hbackslash
  · decide
  · decide
  · decide
  · refine singleton ?_
    rw [Picture.isBreak, Bool.or_eq_false_iff, beq_eq_false_iff_ne, beq_eq_false_iff_ne]
    exact ⟨hcr, hlf⟩
  · exact cons hbackslash (cons (by decide) (hex _ _))
  · exact cons hbackslash (cons (by decide) (hex _ _))
  · exact cons hbackslash (cons (by decide) (hex _ _))

theorem quoted (t : Text) : t.quoted.Unbroken := by
  have hquote : Picture.isBreak t.delimiter = false := by
    unfold delimiter
    split_ifs <;> decide
  refine (cons hquote ?_).append (singleton hquote)
  intro a ha
  obtain ⟨c, -, hc⟩ := List.mem_flatMap.1 ha
  exact escape hquote c a hc

theorem commaSeparated {items : List Text} (h : ∀ item ∈ items, item.Unbroken) :
    (Text.commaSeparated items).Unbroken := by
  induction items with
  | nil => exact List.forall_mem_nil _
  | cons item items ih =>
    obtain ⟨hitem, hitems⟩ := List.forall_mem_cons.1 h
    cases items with
    | nil => exact hitem
    | cons next items => exact hitem.append (cons (by decide) (cons (by decide) (ih hitems)))

theorem renderTokens (tokens : List Text) : (Text.renderTokens tokens).Unbroken := by
  refine (cons (by decide) (commaSeparated ?_)).append (singleton (by decide))
  intro item hitem
  obtain ⟨token, -, rfl⟩ := List.mem_map.1 hitem
  exact quoted token

end Unbroken
end Text

/-- What a report tells of a grammar. -/
inductive Finding
  /-- It does not match, and got no further than `position` in a text of `size` characters. -/
  | reached (position size : Nat)
  /-- It matches, with tokens that are written as shown. -/
  | matched (shown : Text)

namespace Finding

def write : Finding → Text
  | .reached position size =>
    ": no match; reached ".toList ++ Text.ofNat position ++ " of ".toList ++ Text.ofNat size ++ ['.']
  | .matched shown => ": matched as ".toList ++ shown ++ ['.']

def read? (t : Text) : Option Finding :=
  match t.dropPrefix? ": no match; reached ".toList with
  | some t => do
    let (position, t) ← Text.readNat? t
    let t ← t.dropPrefix? " of ".toList
    let (size, t) ← Text.readNat? t
    if t = ['.'] then some (.reached position size) else none
  | none => do
    let t ← t.dropPrefix? ": matched as ".toList
    if t.getLast? = some '.' then some (.matched t.dropLast) else none

theorem read?_write (f : Finding) : read? f.write = some f := by
  cases f with
  | reached position size =>
    have hof (t : Text) : ∀ c ∈ (" of ".toList ++ t).head?, c.isDigit = false := by
      rintro c ⟨⟩
      decide
    have hstop : ∀ c ∈ ['.'].head?, c.isDigit = false := by
      rintro c ⟨⟩
      decide
    unfold write read?
    simp only [List.append_assoc, Text.dropPrefix?_append, Text.readNat?_ofNat _ (hof _),
      Text.readNat?_ofNat _ hstop, Option.bind_eq_bind, Option.bind_some, if_true]
  | matched shown =>
    have hother (t : Text) :
        List.dropPrefix? (": matched as ".toList ++ t) ": no match; reached ".toList = none := rfl
    unfold write read?
    simp only [List.append_assoc, hother, Text.dropPrefix?_append, Option.bind_eq_bind,
      Option.bind_some, List.getLast?_concat, List.dropLast_concat, if_true]

end Finding

structure Line where
  index : Nat
  finding : Finding

namespace Line

def write (l : Line) : Text := "Grammar ".toList ++ Text.ofNat l.index ++ l.finding.write

def read? (t : Text) : Option Line := do
  let t ← t.dropPrefix? "Grammar ".toList
  let (index, t) ← Text.readNat? t
  let finding ← Finding.read? t
  return ⟨index, finding⟩

theorem read?_write (l : Line) : read? l.write = some l := by
  have hcolon : ∀ c ∈ l.finding.write.head?, c.isDigit = false := by
    cases l.finding with
    | reached position size =>
      rintro c ⟨⟩
      decide
    | matched shown =>
      rintro c ⟨⟩
      decide
  unfold write read?
  simp only [List.append_assoc, Text.dropPrefix?_append, Text.readNat?_ofNat _ hcolon,
    Finding.read?_write, Option.bind_eq_bind, Option.bind_some]
  rfl

def isMatch (l : Line) : Bool :=
  match l.finding with
  | .reached _ _ => false
  | .matched _ => true

/-- How far the grammar got that does not match. -/
def reached? (l : Line) : Option Nat :=
  match l.finding with
  | .reached position _ => some position
  | .matched _ => none

end Line

namespace Trial

def line (size : Nat) (t : Trial) : Line where
  index := t.index
  finding :=
    match t.outcome with
    | none => .reached t.reached size
    | some m => .matched (Text.renderTokens m.tokens)

theorem report_eq (size : Nat) (t : Trial) : t.report size = (t.line size).write := by
  unfold report Line.write line
  cases t.outcome with
  | none =>
    unfold Finding.write
    simp only [List.append_assoc]
  | some m =>
    unfold Finding.write
    simp only [List.append_assoc]

theorem unbroken_report (size : Nat) (t : Trial) : (t.report size).Unbroken := by
  have hname : Text.Unbroken ("Grammar ".toList ++ Text.ofNat t.index) :=
    .append (by decide) (.ofNat _)
  unfold report
  cases t.outcome with
  | none =>
    exact ((((hname.append (by decide)).append (.ofNat _)).append (by decide)).append
      (.ofNat _)).append (by decide)
  | some m => exact ((hname.append (by decide)).append (.renderTokens _)).append (by decide)

end Trial

namespace Survey
variable (size : Nat) (s : Survey)

def lines : List Line := s.trials.map (Trial.line size)

theorem report_eq : s.report size = (s.lines size).map Line.write := by
  rw [report, lines, List.map_map]
  exact List.map_congr_left fun t _ => t.report_eq size

/-- Nothing of what the reports tell is lost when they are written. -/
theorem filterMap_read?_report : (s.report size).filterMap Line.read? = s.lines size := by
  have hread : Line.read? ∘ Line.write = some := funext Line.read?_write
  rw [report_eq, List.filterMap_map, hread, List.filterMap_some]

theorem filter_isMatch_lines : (s.lines size).filter Line.isMatch =
    s.winners.map fun w => ⟨w.1, .matched (Text.renderTokens w.2)⟩ := by
  rw [lines, winners]
  induction s.trials with
  | nil => rfl
  | cons t ts ih =>
    rcases t with ⟨index, reached, _ | m⟩
    · exact ih
    · exact congrArg (List.cons _) ih

theorem filterMap_reached?_lines (h : s.winners = []) :
    (s.lines size).filterMap Line.reached? = s.trials.map (·.reached) := by
  rw [lines, List.filterMap_map, ← List.filterMap_eq_map]
  refine List.filterMap_congr fun t ht => ?_
  have houtcome : t.outcome = none := by
    have hwinner := List.filterMap_eq_nil_iff.1 h t ht
    exact Option.map_eq_none_iff.1 hwinner
  rw [Function.comp_apply, Function.comp_apply, Trial.line, houtcome]
  rfl

/-- Without a winner the furthest position is the greatest that the lines tell of. -/
theorem furthest_eq_max?_lines (h : s.winners = []) :
    s.furthest = ((s.lines size).filterMap Line.reached?).max?.getD 0 := by
  rw [filterMap_reached?_lines size s h, furthest, ← List.foldl_map (f := Trial.reached),
    List.foldl_max, Nat.zero_max]

end Survey
end GreedyMatch
