import GreedyMatch.Proofs.Catalog.Verdict
import Mathlib.Data.List.TakeWhile
import Mathlib.Tactic

/-!
# Blanks around a text

Blanks at the ends of a text are as good as not there: a catalog looks at what is left between
them, and that does not depend on how many of them there are. What is left is the one core of
the text, which neither begins nor ends with a blank; the blanks inside of it stay.
-/
namespace GreedyMatch

namespace Text
variable {text core u v : Text}

def Blank (t : Text) : Prop := ∀ x ∈ t, isBlank x = true

instance (t : Text) : Decidable t.Blank := List.decidableBAll _ t

/-- What is left of a text without the blanks at both of its ends. -/
structure IsCore (text core : Text) : Prop where
  padded : ∃ u v, Blank u ∧ Blank v ∧ text = u ++ core ++ v
  first : ∀ x ∈ core.head?, isBlank x = false
  last : ∀ x ∈ core.getLast?, isBlank x = false

theorem Blank.append (hu : Blank u) (hv : Blank v) : Blank (u ++ v) :=
  fun x hx => (List.mem_append.1 hx).elim (hu x) (hv x)

theorem trim_eq_nil (h : Blank text) : text.trim = [] := by
  have hdrop : text.dropWhile isBlank = [] := List.dropWhile_eq_nil_iff.2 h
  rw [trim, hdrop]
  rfl

namespace IsCore

theorem trim_eq (h : text.IsCore core) : text.trim = core := by
  obtain ⟨u, v, hu, hv, rfl⟩ := h.padded
  by_cases hcore : core = []
  · rw [hcore, List.append_nil]
    exact trim_eq_nil (hu.append hv)
  · have hfirst : ∀ x ∈ (core ++ v).head?, isBlank x = false := by
      rw [List.head?_append_of_ne_nil _ hcore]
      exact h.first
    rw [trim, List.append_assoc, List.dropWhile_append_of_pos hu, dropWhile_eq_self hfirst,
      dropRightWhile_append_of_all core hv, dropRightWhile_eq_self h.last]

theorem pad (h : text.IsCore core) (hu : Blank u) (hv : Blank v) :
    (u ++ text ++ v).IsCore core := by
  obtain ⟨u', v', hu', hv', rfl⟩ := h.padded
  refine ⟨⟨u ++ u', v' ++ v, hu.append hu', hv'.append hv, ?_⟩, h.first, h.last⟩
  simp only [List.append_assoc]

theorem self (h : text.IsCore core) : core.IsCore core :=
  ⟨⟨[], [], List.forall_mem_nil _, List.forall_mem_nil _, (List.append_nil core).symm⟩,
    h.first, h.last⟩

end IsCore

theorem first_dropWhile (t : Text) : ∀ x ∈ (t.dropWhile isBlank).head?, isBlank x = false := by
  intro x hx
  have hstop := List.head?_dropWhile_not isBlank t
  rwa [Option.mem_def.1 hx] at hstop

theorem isCore_trim (text : Text) : text.IsCore text.trim where
  padded := by
    refine ⟨text.takeWhile isBlank,
      ((text.dropWhile isBlank).reverse.takeWhile isBlank).reverse, ?_, ?_, ?_⟩
    · exact fun x hx => List.mem_takeWhile_imp hx
    · exact fun x hx => List.mem_takeWhile_imp (List.mem_reverse.1 hx)
    · rw [trim, List.append_assoc, dropRightWhile_append_run, List.takeWhile_append_dropWhile]
  first x hx := by
    -- What is left begins as the text does once the blanks in front of it are gone.
    obtain ⟨rest, hrest⟩ := List.head?_eq_some_iff.1 (Option.mem_def.1 hx)
    refine first_dropWhile text x ?_
    rw [← dropRightWhile_append_run isBlank (text.dropWhile isBlank), ← trim, hrest]
    rfl
  last x hx := by
    rw [trim, dropRightWhile, List.getLast?_reverse] at hx
    exact first_dropWhile _ x hx

theorem trim_pad (hu : Blank u) (hv : Blank v) : trim (u ++ text ++ v) = text.trim :=
  ((isCore_trim text).pad hu hv).trim_eq

theorem trim_trim (text : Text) : text.trim.trim = text.trim := (isCore_trim text).self.trim_eq

end Text

namespace Catalog
variable {c : Catalog} {text text' : Text}

/-- A catalog answers alike on texts with the same core, and reports the same. -/
theorem call_of_trim_eq (h : text.trim = text'.trim) :
    c.call (.tokens text) = c.call (.tokens text') ∧
    c.call (.candidates text) = c.call (.candidates text') ∧
    c.trace text = c.trace text' := by
  refine ⟨?_, ?_, ?_⟩
  · rw [call, call, tokens, tokens, h]
  · rw [call, call, candidates, candidates, h]
  · rw [trace, trace, h]

end Catalog

/-- Blanks around a text do not matter: a catalog answers both questions, and reports, as for the
core of the text, which is all that the grammars get to see. -/
theorem padding_never_matters (c : Catalog) (text : Text) {u v : Text} (hu : u.Blank)
    (hv : v.Blank) :
    c.call (.tokens (u ++ text ++ v)) = c.call (.tokens text.trim) ∧
    c.call (.candidates (u ++ text ++ v)) = c.call (.candidates text.trim) ∧
    c.trace (u ++ text ++ v) = c.trace text.trim ∧
    (∀ g, c.attempt (u ++ text ++ v) g = g.attempt text.trim c.limit) ∧
    ∀ core, text.IsCore core ↔ core = text.trim := by
  have hpad : Text.trim (u ++ text ++ v) = text.trim := Text.trim_pad hu hv
  obtain ⟨htokens, hcandidates, htrace⟩ :=
    Catalog.call_of_trim_eq (c := c) (hpad.trans (Text.trim_trim text).symm)
  refine ⟨htokens, hcandidates, htrace, ?_, ?_⟩
  · intro g
    rw [Catalog.attempt, hpad]
  · intro core
    constructor
    · exact fun hcore => hcore.trim_eq.symm
    · rintro rfl
      exact Text.isCore_trim text

theorem padding_never_matters_let :
    Text.Blank "\u3000\n".toList ∧ Text.Blank [' ', Char.ofNat 0x1c] ∧
    (Catalog.call ⟨.greedy, some defaultLimit, [[.literal ⟨'l', ['e', 't']⟩, .literal ⟨' ', []⟩,
        .oneOrMore [.literal ⟨'x', []⟩]]]⟩
        (.tokens ("\u3000\n".toList ++ "\tlet xx".toList ++ [' ', Char.ofNat 0x1c]))).2 =
      .ok (.tokens ["let".toList, " ".toList, "xx".toList]) ∧
    (Catalog.call ⟨.greedy, some defaultLimit, [[.literal ⟨'l', ['e', 't']⟩, .literal ⟨' ', []⟩,
        .oneOrMore [.literal ⟨'x', []⟩]]]⟩
        (.tokens ("\u3000\n".toList ++ "let  x".toList ++ [' ', Char.ofNat 0x1c]))).2 =
      .error (.refusal (.failure (.mismatch (.noMatch "let  x".toList 4)))) := by
  have hu : Text.Blank "\u3000\n".toList := by decide
  have hv : Text.Blank [' ', Char.ofNat 0x1c] := by decide
  have hmatch : (Catalog.call ⟨.greedy, some defaultLimit, [[.literal ⟨'l', ['e', 't']⟩,
        .literal ⟨' ', []⟩, .oneOrMore [.literal ⟨'x', []⟩]]]⟩
        (.tokens (Text.trim "\tlet xx".toList))).2 =
      .ok (.tokens ["let".toList, " ".toList, "xx".toList]) := by cbv
  have hmismatch : (Catalog.call ⟨.greedy, some defaultLimit, [[.literal ⟨'l', ['e', 't']⟩,
        .literal ⟨' ', []⟩, .oneOrMore [.literal ⟨'x', []⟩]]]⟩
        (.tokens (Text.trim "let  x".toList))).2 =
      .error (.refusal (.failure (.mismatch (.noMatch "let  x".toList 4)))) := by cbv
  refine ⟨hu, hv, ?_, ?_⟩
  · rw [(padding_never_matters _ "\tlet xx".toList hu hv).1, hmatch]
  · rw [(padding_never_matters _ "let  x".toList hu hv).1, hmismatch]

end GreedyMatch
