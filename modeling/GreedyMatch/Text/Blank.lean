import GreedyMatch.Text.Word

/-!
# Blank characters and trimming

The blank characters are those with the Unicode property White_Space, together
with the four separator controls from U+001C to U+001F. Trimming removes the
longest runs of them at both ends of a text and leaves what stands between alone.
-/
namespace GreedyMatch

def isBlank (c : Char) : Bool :=
  let n := c.toNat
  (0x09 ≤ n && n ≤ 0x0d) || (0x1c ≤ n && n ≤ 0x20) || n == 0x85 || n == 0xa0 || n == 0x1680 ||
    (0x2000 ≤ n && n ≤ 0x200a) || n == 0x2028 || n == 0x2029 || n == 0x202f || n == 0x205f ||
    n == 0x3000

namespace Text

/-- The text without the longest run of characters of the class `p` at its end. -/
def dropRightWhile (p : Char → Bool) (t : Text) : Text := (t.reverse.dropWhile p).reverse

def trim (t : Text) : Text := dropRightWhile isBlank (t.dropWhile isBlank)

theorem dropWhile_eq_self {p : Char → Bool} {t : Text} (h : ∀ c ∈ t.head?, p c = false) :
    t.dropWhile p = t := by
  cases t with
  | nil => rfl
  | cons c t => rw [List.dropWhile_cons, h c rfl, if_neg Bool.false_ne_true]

theorem dropRightWhile_append_of_all {p : Char → Bool} (t : Text) {v : Text}
    (hv : ∀ c ∈ v, p c = true) : dropRightWhile p (t ++ v) = dropRightWhile p t := by
  rw [dropRightWhile, dropRightWhile, List.reverse_append,
    List.dropWhile_append_of_pos fun c hc => hv c (List.mem_reverse.mp hc)]

theorem dropRightWhile_eq_self {p : Char → Bool} {t : Text} (h : ∀ c ∈ t.getLast?, p c = false) :
    dropRightWhile p t = t := by
  rw [dropRightWhile, dropWhile_eq_self (by rwa [List.head?_reverse]), List.reverse_reverse]

theorem dropRightWhile_append_run (p : Char → Bool) (t : Text) :
    dropRightWhile p t ++ (t.reverse.takeWhile p).reverse = t := by
  rw [dropRightWhile, ← List.reverse_append, List.takeWhile_append_dropWhile, List.reverse_reverse]

end Text
end GreedyMatch
