import Mathlib.Computability.Language

/-!
# Local languages

In a local language what may come after a symbol does not depend on what came before
it. An expression in which every symbol occurs once denotes a local language, since the
operations of such expressions keep the property as long as their operands share no
symbol. A longest word of a local language can be taken off the front of a row of its
words, and what is left is a row of its words again.
-/
namespace GreedyMatch
open scoped Computability
variable {α : Type} {l m : Language α} {s t : List α}

/-- What may come after a symbol does not depend on what came before it. -/
def IsLocal (l : Language α) : Prop :=
  ∀ ⦃u v x y : List α⦄ ⦃a : α⦄, u ++ a :: x ∈ l → v ++ a :: y ∈ l → u ++ a :: y ∈ l

/-- Only symbols from the list occur. -/
def Over (s : List α) (l : Language α) : Prop := ∀ u ∈ l, ∀ a ∈ u, a ∈ s

namespace Over

theorem mono (h : Over s l) (hst : s ⊆ t) : Over t l := fun u hu a ha => hst (h u hu a ha)

theorem mul (hl : Over s l) (hm : Over t m) : Over (s ++ t) (l * m) := by
  intro w hw a ha
  obtain ⟨u, hu, v, hv, rfl⟩ := Language.mem_mul.1 hw
  rcases List.mem_append.1 ha with ha | ha
  · exact List.mem_append_left t (hl u hu a ha)
  · exact List.mem_append_right s (hm v hv a ha)

theorem add (hl : Over s l) (hm : Over s m) : Over s (l + m) := by
  intro w hw
  rcases (Language.mem_add l m w).1 hw with hw | hw
  · exact hl w hw
  · exact hm w hw

theorem kstar (hl : Over s l) : Over s l∗ := by
  intro w hw a ha
  obtain ⟨ws, rfl, hws⟩ := Language.mem_kstar.1 hw
  obtain ⟨u, hu, hau⟩ := List.mem_flatten.1 ha
  exact hl u (hws u hu) a hau

theorem sub (hl : Over s l) : Over s (l - m) := fun w hw => hl w ((Language.mem_sub l m w).1 hw).1

theorem one : Over s (1 : Language α) := by
  intro w hw a ha
  rw [(Language.mem_one w).1 hw] at ha
  cases ha

end Over

theorem exists_of_append_eq_left {p q u x : List α} {a : α} (h : p ++ q = u ++ a :: x)
    (ha : a ∉ q) : ∃ z, p = u ++ a :: z ∧ x = z ++ q := by
  rcases List.append_eq_append_iff.1 h with ⟨r, rfl, rfl⟩ | ⟨r, rfl, hr⟩
  · exact absurd (List.mem_append_right r List.mem_cons_self) ha
  · cases r with
    | nil =>
      rw [List.nil_append] at hr
      rw [← hr] at ha
      exact absurd List.mem_cons_self ha
    | cons b r =>
      obtain ⟨rfl, rfl⟩ := List.cons.inj hr
      exact ⟨r, rfl, rfl⟩

theorem exists_of_append_eq_right {p q u x : List α} {a : α} (h : p ++ q = u ++ a :: x)
    (ha : a ∉ p) : ∃ z, u = p ++ z ∧ q = z ++ a :: x := by
  rcases List.append_eq_append_iff.1 h with ⟨r, rfl, rfl⟩ | ⟨r, rfl, hr⟩
  · exact ⟨r, rfl, rfl⟩
  · cases r with
    | nil => exact ⟨[], by simp, hr.symm⟩
    | cons b r =>
      obtain ⟨rfl, rfl⟩ := List.cons.inj hr
      exact absurd (List.mem_append_right u List.mem_cons_self) ha

/-- The word of a row in which a symbol lies. -/
theorem exists_of_flatten_eq {ws : List (List α)} {u x : List α} {a : α}
    (h : ws.flatten = u ++ a :: x) :
    ∃ vs p q vs', ws = vs ++ (p ++ a :: q) :: vs' ∧ u = vs.flatten ++ p ∧ x = q ++ vs'.flatten := by
  rcases List.flatten_eq_append_iff.1 h with
    ⟨vs, vs', rfl, rfl, hvs⟩ | ⟨vs, p, b, q, vs', rfl, rfl, hx⟩
  · obtain ⟨es, q, vs', rfl, hes, rfl⟩ := List.flatten_eq_cons_iff.1 hvs.symm
    refine ⟨vs ++ es, [], q, vs', by simp, ?_, rfl⟩
    rw [List.flatten_append, List.flatten_eq_nil_iff.2 hes, List.append_nil, List.append_nil]
  · obtain ⟨rfl, rfl⟩ := List.cons.inj hx
    exact ⟨vs, p, q, vs', rfl, rfl, rfl⟩

theorem append_cons_notMem_one (u x : List α) (a : α) : u ++ a :: x ∉ (1 : Language α) := by
  rw [Language.mem_one]
  exact List.append_ne_nil_of_right_ne_nil u (List.cons_ne_nil a x)

namespace IsLocal

theorem zero : IsLocal (0 : Language α) := by
  intro u v x y a hu _
  exact absurd hu (Language.notMem_zero _)

theorem one : IsLocal (1 : Language α) := by
  intro u v x y a hu _
  exact absurd hu (append_cons_notMem_one u x a)

theorem singleton (a : α) : IsLocal ({[a]} : Language α) := by
  intro u v x y b hu hv
  have hu : u ++ b :: x = [a] := hu
  have hv : v ++ b :: y = [a] := hv
  obtain ⟨rfl, -⟩ : u = [] ∧ _ := by simpa [List.append_eq_singleton_iff] using hu
  obtain ⟨rfl, -⟩ : v = [] ∧ _ := by simpa [List.append_eq_singleton_iff] using hv
  exact hv

theorem mul (hl : IsLocal l) (hm : IsLocal m) (hs : Over s l) (ht : Over t m)
    (hst : s.Disjoint t) : IsLocal (l * m) := by
  intro u v x y a hu hv
  obtain ⟨p, hp, q, hq, hpq⟩ := Language.mem_mul.1 hu
  obtain ⟨p', hp', q', hq', hpq'⟩ := Language.mem_mul.1 hv
  by_cases ha : a ∈ s
  · have hat : a ∉ t := fun hat => hst ha hat
    obtain ⟨z, rfl, rfl⟩ := exists_of_append_eq_left hpq fun h => hat (ht q hq a h)
    obtain ⟨z', rfl, rfl⟩ := exists_of_append_eq_left hpq' fun h => hat (ht q' hq' a h)
    refine Language.mem_mul.2 ⟨u ++ a :: z', hl hp hp', q', hq', ?_⟩
    simp
  · obtain ⟨z, rfl, rfl⟩ := exists_of_append_eq_right hpq fun h => ha (hs p hp a h)
    obtain ⟨z', rfl, rfl⟩ := exists_of_append_eq_right hpq' fun h => ha (hs p' hp' a h)
    refine Language.mem_mul.2 ⟨p, hp, z ++ a :: y, hm hq hq', ?_⟩
    simp

theorem add (hl : IsLocal l) (hm : IsLocal m) (hs : Over s l) (ht : Over t m)
    (hst : s.Disjoint t) : IsLocal (l + m) := by
  intro u v x y a hu hv
  have hau (x : List α) : a ∈ u ++ a :: x := List.mem_append_right u List.mem_cons_self
  have hav (y : List α) : a ∈ v ++ a :: y := List.mem_append_right v List.mem_cons_self
  rcases hu with hu | hu <;> rcases hv with hv | hv
  · exact .inl (hl hu hv)
  · exact absurd (ht _ hv a (hav y)) (hst (hs _ hu a (hau x)))
  · exact absurd (ht _ hu a (hau x)) (hst (hs _ hv a (hav y)))
  · exact .inr (hm hu hv)

theorem one_add (hl : IsLocal l) : IsLocal (1 + l) := by
  intro u v x y a hu hv
  have hu := hu.resolve_left (append_cons_notMem_one u x a)
  have hv := hv.resolve_left (append_cons_notMem_one v y a)
  exact .inr (hl hu hv)

theorem sub_one (hl : IsLocal l) : IsLocal (l - 1) := by
  intro u v x y a hu hv
  exact ⟨hl hu.1 hv.1, append_cons_notMem_one u y a⟩

theorem kstar (hl : IsLocal l) : IsLocal l∗ := by
  intro u v x y a hu hv
  obtain ⟨ws, hws, hmem⟩ := Language.mem_kstar.1 hu
  obtain ⟨ws', hws', hmem'⟩ := Language.mem_kstar.1 hv
  obtain ⟨vs, p, q, us, rfl, rfl, -⟩ := exists_of_flatten_eq hws.symm
  obtain ⟨us', p', q', vs', rfl, -, rfl⟩ := exists_of_flatten_eq hws'.symm
  have hleft : p ++ a :: q ∈ l := hmem _ (by simp)
  have hright : p' ++ a :: q' ∈ l := hmem' _ (by simp)
  have hword : p ++ a :: q' ∈ l := hl hleft hright
  refine Language.mem_kstar.2 ⟨vs ++ (p ++ a :: q') :: vs', by simp, ?_⟩
  intro w hw
  rcases List.mem_append.1 hw with hw | hw
  · exact hmem w (List.mem_append_left _ hw)
  · rcases List.mem_cons.1 hw with rfl | hw
    · exact hword
    · exact hmem' w (List.mem_append_right _ (List.mem_cons_of_mem _ hw))

/-- What stands after a longest word at the front of a row of words is a row of words: the
word that straddles the end of the longest one would make it longer. -/
theorem mem_kstar_of_longest (hl : IsLocal l) {x z : List α} (hx : x ∈ l) (h : x ++ z ∈ l∗)
    (hmax : ∀ y, y <+: z → x ++ y ∈ l → y = []) : z ∈ l∗ := by
  obtain ⟨ws, hws, hmem⟩ := Language.mem_kstar.1 h
  rcases List.flatten_eq_append_iff.1 hws.symm with
    ⟨vs, vs', rfl, -, rfl⟩ | ⟨vs, p, b, q, vs', rfl, rfl, rfl⟩
  · exact Language.join_mem_kstar fun w hw => hmem w (List.mem_append_right vs hw)
  · rcases List.eq_nil_or_concat p with rfl | ⟨p, a, rfl⟩
    · refine Language.mem_kstar.2 ⟨(b :: q) :: vs', by simp, ?_⟩
      intro w hw
      exact hmem w (List.mem_append_right vs (by simpa using hw))
    · have hword : p ++ a :: b :: q ∈ l := by simpa using hmem (p ++ [a] ++ b :: q) (by simp)
      have hlong : vs.flatten ++ p ++ a :: b :: q ∈ l := hl (by simpa using hx) hword
      have hnil := hmax (b :: q) (List.prefix_append _ _) (by simpa using hlong)
      cases hnil

end IsLocal
end GreedyMatch
