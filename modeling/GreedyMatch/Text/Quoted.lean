import GreedyMatch.Text.Numeral
import GreedyMatch.Text.Printable

/-!
# Quoted texts

A quoted text stands between apostrophes, or between double quotes when it holds an
apostrophe and no double quote. Inside, a backslash and the quote in use follow a
backslash; line feed, carriage return and tab have a letter each; any other
character that is not printable is written as its number, in the shortest of three
widths that holds it.
-/
namespace GreedyMatch.Text

def apostrophe : Char := '\x27'

def doubleQuote : Char := '\x22'

def backslash : Char := '\x5c'

def delimiter (t : Text) : Char :=
  if t.contains apostrophe && !t.contains doubleQuote then doubleQuote else apostrophe

def escape (quote c : Char) : Text :=
  if c = quote ∨ c = backslash then [backslash, c]
  else if c = '\n' then [backslash, 'n']
  else if c = '\r' then [backslash, 'r']
  else if c = '\t' then [backslash, 't']
  else if isPrintable c then [c]
  else if c.toNat < 0x100 then backslash :: 'x' :: hex 2 c.toNat
  else if c.toNat < 0x10000 then backslash :: 'u' :: hex 4 c.toNat
  else backslash :: 'U' :: hex 8 c.toNat

def quoted (t : Text) : Text :=
  let quote := delimiter t
  quote :: t.flatMap (escape quote) ++ [quote]

example : quoted ['a', apostrophe, '\n'] = [doubleQuote, 'a', apostrophe, backslash, 'n', doubleQuote] := by
  decide

example : quoted ['é', Char.ofNat 0xad] =
    [apostrophe, 'é', backslash, 'x', 'a', 'd', apostrophe] := by decide

end GreedyMatch.Text
