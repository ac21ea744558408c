/-!
# Texts and words

A text is a list of characters, so it is counted, indexed and cut in whole
characters. A word is a text that is not empty: whatever stands for a fixed word
consumes something each time it matches.
-/
namespace GreedyMatch

abbrev Text := List Char

structure Word where
  first : Char
  rest : Text
  deriving DecidableEq

namespace Word

def text (w : Word) : Text := w.first :: w.rest

def ofText? : Text → Option Word
  | [] => none
  | c :: cs => some ⟨c, cs⟩

theorem text_ne_nil (w : Word) : w.text ≠ [] := List.cons_ne_nil _ _

theorem length_text_pos (w : Word) : 0 < w.text.length := Nat.succ_pos _

theorem ofText?_eq_some_iff {t : Text} {w : Word} : ofText? t = some w ↔ t = w.text := by
  cases t with
  | nil => simp [ofText?, text]
  | cons c cs =>
    cases w
    simp [ofText?, text]

theorem text_inj {v w : Word} : v.text = w.text ↔ v = w := by
  cases v
  cases w
  simp [text]

end Word
end GreedyMatch
