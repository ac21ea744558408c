import GreedyMatch.Text.Blank
import GreedyMatch.Text.Quoted
import Mathlib.Tactic

/-!
# Reading numbers and quoted texts back

Numbers and the characters of a quoted text are written one after the other, and each of them can
be read off the front again, together with what follows it: a number up to the first character
that is no digit, a character whatever follows. So a text that begins with a quoted text does so in
one way only.
-/
namespace GreedyMatch.Text

/-- The number at the front of a text and what follows it. -/
def readNat? (t : Text) : Option (Nat × Text) :=
  let digits := t.takeWhile Char.isDigit
  if digits = [] then none
  else some (Nat.ofDigitChars 10 digits 0, t.dropWhile Char.isDigit)

theorem isDigit_of_mem_ofNat {n : Nat} {c : Char} (h : c ∈ ofNat n) : c.isDigit = true :=
  Nat.isDigit_of_mem_toDigits (by decide) (by decide) h

theorem readNat?_ofNat (n : Nat) {t : Text} (ht : ∀ c ∈ t.head?, c.isDigit = false) :
    readNat? (ofNat n ++ t) = some (n, t) := by
  have hdigits : ∀ c ∈ ofNat n, c.isDigit = true := fun c hc => isDigit_of_mem_ofNat hc
  have hdrop : t.dropWhile Char.isDigit = t := dropWhile_eq_self ht
  have htake : t.takeWhile Char.isDigit = [] := by
    have hsplit := List.takeWhile_append_dropWhile (p := Char.isDigit) (l := t)
    rwa [hdrop, List.append_left_eq_self] at hsplit
  have hne : ofNat n ≠ [] := Nat.toDigits_ne_nil
  have hvalue : Nat.ofDigitChars 10 (ofNat n) 0 = n := Nat.ofDigitChars_ten_toDigits
  rw [readNat?, List.takeWhile_append_of_pos hdigits, List.dropWhile_append_of_pos hdigits, htake,
    hdrop, List.append_nil, if_neg hne, hvalue]

def readInt? (t : Text) : Option (Int × Text) :=
  if t.head? = some '-' then (readNat? t.tail).map fun (n, rest) => (-(n : Int), rest)
  else (readNat? t).map fun (n, rest) => ((n : Int), rest)

theorem exists_ofNat_eq_cons (n : Nat) : ∃ c cs, ofNat n = c :: cs ∧ c.isDigit = true := by
  obtain ⟨c, cs, h⟩ := List.exists_cons_of_ne_nil (show ofNat n ≠ [] from Nat.toDigits_ne_nil)
  exact ⟨c, cs, h, isDigit_of_mem_ofNat (n := n) (by rw [h]; exact List.mem_cons_self)⟩

theorem readInt?_ofInt (n : Int) {t : Text} (ht : ∀ c ∈ t.head?, c.isDigit = false) :
    readInt? (ofInt n ++ t) = some (n, t) := by
  cases n with
  | ofNat n =>
    obtain ⟨c, cs, h, hc⟩ := exists_ofNat_eq_cons n
    have hhead : (ofNat n ++ t).head? ≠ some '-' := by
      rw [h]
      rintro ⟨⟩
      cases hc
    rw [ofInt, readInt?, if_neg hhead, readNat?_ofNat n ht]
    rfl
  | negSucc n =>
    rw [ofInt, readInt?, List.cons_append, if_pos List.head?_cons, List.tail_cons,
      readNat?_ofNat (n + 1) ht]
    rfl

def hexDigitValue (c : Char) : Nat :=
  if c.isDigit then c.toNat - '0'.toNat else c.toNat - 'a'.toNat + 10

def ofHex (digits : Text) : Nat := digits.foldl (fun n c => 16 * n + hexDigitValue c) 0

theorem ofHex_append (digits : Text) (c : Char) :
    ofHex (digits ++ [c]) = 16 * ofHex digits + hexDigitValue c := by
  rw [ofHex, List.foldl_append]
  rfl

theorem ofHex_toDigits (n : Nat) : ofHex (Nat.toDigits 16 n) = n := by
  have hdigit : ∀ d < 16, hexDigitValue (Nat.digitChar d) = d := by decide
  induction n using Nat.strongRecOn with
  | ind n ih =>
    rw [Nat.toDigits_eq_if (by decide)]
    split_ifs with hn
    · rw [ofHex, List.foldl_cons, List.foldl_nil, hdigit n hn, Nat.mul_zero, Nat.zero_add]
    · rw [ofHex_append, ih (n / 16) (by omega), hdigit _ (by omega)]
      omega

theorem ofHex_hex (width n : Nat) : ofHex (hex width n) = n := by
  have hzeros (k : Nat) :
      (List.replicate k '0').foldl (fun n c => 16 * n + hexDigitValue c) 0 = 0 := by
    induction k with
    | zero => rfl
    | succ k ih => rw [List.replicate_succ, List.foldl_cons]; exact ih
  rw [hex, ofHex, List.foldl_append, hzeros]
  exact ofHex_toDigits n

theorem length_hex {width n : Nat} (hwidth : 0 < width) (h : n < 16 ^ width) :
    (hex width n).length = width := by
  have hlength := (Nat.length_toDigits_le_iff (by decide) hwidth).2 h
  rw [hex, List.length_append, List.length_replicate]
  omega

def readHex (width : Nat) (t : Text) : Char × Text :=
  (Char.ofNat (ofHex (t.take width)), t.drop width)

theorem readHex_hex {width : Nat} {c : Char} (hwidth : 0 < width) (h : c.toNat < 16 ^ width)
    (t : Text) : readHex width (hex width c.toNat ++ t) = (c, t) := by
  have hlength := length_hex hwidth h
  rw [readHex, List.take_left' hlength, List.drop_left' hlength, ofHex_hex, Char.ofNat_toNat]

def readEscape? : Text → Option (Char × Text)
  | 'n' :: t => some ('\n', t)
  | 'r' :: t => some ('\r', t)
  | 't' :: t => some ('\t', t)
  | 'x' :: t => some (readHex 2 t)
  | 'u' :: t => some (readHex 4 t)
  | 'U' :: t => some (readHex 8 t)
  | c :: t => some (c, t)
  | [] => none

/-- The first character of what stands between quotes, and what follows it. -/
def readChar? : Text → Option (Char × Text)
  | [] => none
  | c :: t => if c = backslash then readEscape? t else some (c, t)

def IsQuote (c : Char) : Prop := c = apostrophe ∨ c = doubleQuote

theorem readChar?_escape {quote : Char} (hquote : IsQuote quote) (c : Char) (t : Text) :
    readChar? (escape quote c ++ t) = some (c, t) := by
  unfold escape
  split_ifs with hself hlf hcr htab hprint hx hu
  · obtain rfl | rfl | rfl : c = apostrophe ∨ c = doubleQuote ∨ c = backslash := by
      rcases hself with rfl | rfl
      · exact hquote.imp_right .inl
      · exact .inr (.inr rfl)
    all_goals rfl
  · rw [hlf]
    rfl
  · rw [hcr]
    rfl
  · rw [htab]
    rfl
  · rw [List.singleton_append, readChar?, if_neg fun h => hself (.inr h)]
  · exact congrArg some (readHex_hex (by decide) hx t)
  · exact congrArg some (readHex_hex (by decide) hu t)
  · have hc : c.toNat < 16 ^ 8 := c.val.toNat_lt
    exact congrArg some (readHex_hex (by decide) hc t)

theorem head?_escape_ne {quote : Char} (hquote : IsQuote quote) (c : Char) (t : Text) :
    (escape quote c ++ t).head? ≠ some quote := by
  have hbackslash : ∀ rest : Text, (backslash :: rest).head? ≠ some quote := by
    rintro rest ⟨⟩
    rcases hquote with h | h <;> cases h
  unfold escape
  split_ifs with hself
  all_goals try exact hbackslash _
  rintro ⟨⟩
  exact hself (.inl rfl)

theorem flatMap_escape_append_inj {quote : Char} (hquote : IsQuote quote) {t u rest rest' : Text}
    (h : t.flatMap (escape quote) ++ quote :: rest = u.flatMap (escape quote) ++ quote :: rest') :
    t = u ∧ rest = rest' := by
  induction t generalizing u with
  | nil =>
    cases u with
    | nil => exact ⟨rfl, List.tail_eq_of_cons_eq h⟩
    | cons d u =>
      rw [List.flatMap_cons, List.append_assoc] at h
      exact absurd (congrArg List.head? h).symm (head?_escape_ne hquote d _)
  | cons c t ih =>
    cases u with
    | nil =>
      rw [List.flatMap_cons, List.append_assoc] at h
      exact absurd (congrArg List.head? h) (head?_escape_ne hquote c _)
    | cons d u =>
      have hread := congrArg readChar? h
      rw [List.flatMap_cons, List.flatMap_cons, List.append_assoc, List.append_assoc,
        readChar?_escape hquote, readChar?_escape hquote, Option.some_inj, Prod.mk.injEq] at hread
      obtain ⟨rfl, hrest⟩ := hread
      obtain ⟨rfl, rfl⟩ := ih hrest
      exact ⟨rfl, rfl⟩

theorem isQuote_delimiter (t : Text) : IsQuote t.delimiter := by
  unfold delimiter
  split_ifs
  · exact .inr rfl
  · exact .inl rfl

/-- A quoted text ends where its quote comes back, and stands for one text. -/
theorem quoted_append_inj {t u rest rest' : Text} (h : t.quoted ++ rest = u.quoted ++ rest') :
    t = u ∧ rest = rest' := by
  simp only [quoted, List.cons_append, List.append_assoc, List.nil_append, List.cons.injEq] at h
  obtain ⟨hquote, hinside⟩ := h
  rw [hquote] at hinside
  exact flatMap_escape_append_inj (isQuote_delimiter u) hinside

end GreedyMatch.Text
