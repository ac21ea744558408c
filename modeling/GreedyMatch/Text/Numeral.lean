import GreedyMatch.Text.Word

/-!
# Numerals

Integers in decimal, and character numbers in hexadecimal of a fixed width.
-/
namespace GreedyMatch.Text

def ofNat (n : Nat) : Text := Nat.toDigits 10 n

/-- Decimal digits, after a minus sign if the number is below zero. -/
def ofInt : Int → Text
  | .ofNat n => ofNat n
  | .negSucc n => '-' :: ofNat (n + 1)

/-- Lower-case hexadecimal digits, filled up to `width` with zeros from the left. -/
def hex (width n : Nat) : Text :=
  let digits := Nat.toDigits 16 n
  List.replicate (width - digits.length) '0' ++ digits

example : ofInt (-120) = "-120".toList ∧ ofInt 0 = ['0'] := by decide

example : hex 4 0xad = "00ad".toList := by decide

end GreedyMatch.Text
