/-!
# Slots and slices of a sequence

An integer names a slot of a sequence from the front, or from the end when it is
below zero. A slice is forgiving where a slot is not: its bounds are moved to the
nearest end of the sequence, and a slice whose bounds cross is empty.
-/
namespace GreedyMatch.Sequence
variable {α : Type}

/-- An index reckoned from the front; one below zero counts back from the end. -/
def fromFront (size : Nat) (i : Int) : Int := if i < 0 then i + size else i

/-- The bound of a slice: a cut between items, from `0` to `size`. -/
def clamp (size : Nat) (i : Int) : Nat := min (fromFront size i).toNat size

def slot? (size : Nat) (i : Int) : Option Nat :=
  let j := fromFront size i
  if 0 ≤ j ∧ j < size then some j.toNat else none

def item? (xs : List α) (i : Int) : Option α := (slot? xs.length i).bind (xs[·]?)

def upTo (xs : List α) (stop : Int) : List α := xs.take (clamp xs.length stop)

def between (xs : List α) (start stop : Int) : List α :=
  (upTo xs stop).drop (clamp xs.length start)

/-- Every `step`-th item from `start` as long as `stop` is not reached; a negative step walks toward
the front. -/
def stride? (xs : List α) (start stop step : Option Int) : Option (List α) :=
  let pace := step.getD 1
  let low : Int := if pace < 0 then -1 else 0
  let high : Int := if pace < 0 then xs.length - 1 else xs.length
  let cut (i : Int) : Int := max low (min high (fromFront xs.length i))
  let first := (start.map cut).getD (if pace < 0 then high else low)
  let last := (stop.map cut).getD (if pace < 0 then low else high)
  if pace = 0 then none
  else
    let count := if pace < 0 then (first - last - pace - 1) / -pace else (last - first + pace - 1) / pace
    some ((List.range count.toNat).filterMap fun (k : Nat) => xs[(first + k * pace).toNat]?)

theorem clamp_le (size : Nat) (i : Int) : clamp size i ≤ size := Nat.min_le_right _ _

theorem clamp_of_nonneg {size : Nat} {i : Int} (h : 0 ≤ i) : clamp size i = min i.toNat size := by
  simp [clamp, fromFront, Int.not_lt.mpr h]

theorem between_of_nonneg (xs : List α) {start stop : Int} (h : 0 ≤ start) (h' : 0 ≤ stop) :
    between xs start stop = (xs.take stop.toNat).drop start.toNat := by
  rw [between, upTo, clamp_of_nonneg h, clamp_of_nonneg h', ← List.take_eq_take_min]
  by_cases hs : start.toNat ≤ xs.length
  · rw [Nat.min_eq_left hs]
  · have hl : (xs.take stop.toNat).length ≤ xs.length := by rw [List.length_take]; omega
    rw [Nat.min_eq_right (by omega), List.drop_of_length_le hl, List.drop_of_length_le (by omega)]

theorem between_self (xs : List α) (i : Int) : between xs i i = [] :=
  List.drop_of_length_le (by rw [upTo, List.length_take]; exact Nat.min_le_left _ _)

theorem between_add_zero (xs : List α) (i : Int) : between xs i (i + (0 : Nat)) = [] :=
  (congrArg (between xs i) (Int.add_zero i)).trans (between_self xs i)

theorem between_add (xs : List α) (p n : Nat) :
    between xs (p : Int) (p + n) = (xs.drop p).take n := by
  rw [between_of_nonneg xs (by omega) (by omega), List.take_drop, Int.toNat_natCast]
  congr 1

theorem between_append_between (xs : List α) {p : Int} (h : 0 ≤ p) (m n : Nat) :
    between xs p (p + m) ++ between xs (p + m) (p + m + n) = between xs p (p + (m + n : Nat)) := by
  obtain ⟨p, rfl⟩ := Int.eq_ofNat_of_zero_le h
  have hm : ((p : Int) + m) = (p + m : Nat) := by omega
  rw [between_add, between_add, hm, between_add, ← List.drop_drop, List.take_add]

theorem between_append_drop (xs : List α) {p : Int} (h : 0 ≤ p) (n : Nat) :
    between xs p (p + n) ++ xs.drop (p + n).toNat = xs.drop p.toNat := by
  obtain ⟨p, rfl⟩ := Int.eq_ofNat_of_zero_le h
  have hn : ((p : Int) + n).toNat = p + n := by omega
  rw [between_add, hn, Int.toNat_natCast, ← List.drop_drop, List.take_append_drop]

theorem length_between_add (xs : List α) {p : Int} (h : 0 ≤ p) {n : Nat}
    (hn : p + n ≤ max p xs.length) : (between xs p (p + n)).length = n := by
  obtain ⟨p, rfl⟩ := Int.eq_ofNat_of_zero_le h
  rw [between_add, List.length_take, List.length_drop]
  omega

end GreedyMatch.Sequence
