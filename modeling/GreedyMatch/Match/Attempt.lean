import GreedyMatch.Match.Fault

/-!
# Attempts

An attempt works its way along a text. Beside its result it tells the furthest
position at which any of its steps ended, and it tells so even when the step was part
of a branch given up later, or when a fault ends it. In a sequence of attempts the
furthest position of all counts.
-/
namespace GreedyMatch

structure Attempt (α : Type) where
  reached : Nat
  result : Except Fault α

namespace Attempt
variable {α β γ : Type}

protected def pure (a : α) : Attempt α := ⟨0, .ok a⟩

def fail (fault : Fault) : Attempt α := ⟨0, .error fault⟩

def ofExcept (e : Except Fault α) : Attempt α := ⟨0, e⟩

/-- Marks a position as reached; the ones before the text are not counted. -/
def mark (position : Int) : Attempt Unit := ⟨position.toNat, .ok ()⟩

protected def bind (x : Attempt α) (f : α → Attempt β) : Attempt β :=
  match x.result with
  | .ok a => let y := f a; ⟨max x.reached y.reached, y.result⟩
  | .error fault => ⟨x.reached, .error fault⟩

instance : Monad Attempt where
  pure := Attempt.pure
  bind := Attempt.bind

theorem pure_eq (a : α) : (pure a : Attempt α) = ⟨0, .ok a⟩ := rfl

theorem bind_eq_of_ok {r : Nat} {a : α} (f : α → Attempt β) :
    ((⟨r, .ok a⟩ : Attempt α) >>= f) = ⟨max r (f a).reached, (f a).result⟩ := rfl

theorem bind_eq_of_error {r : Nat} {fault : Fault} (f : α → Attempt β) :
    ((⟨r, .error fault⟩ : Attempt α) >>= f) = ⟨r, .error fault⟩ := rfl

instance : LawfulMonad Attempt := LawfulMonad.mk' Attempt
  (fun x => by
    rcases x with ⟨r, fault | a⟩
    · rfl
    · change (⟨max r 0, .ok a⟩ : Attempt _) = _
      rw [Nat.max_zero])
  (fun a f => by
    change (⟨max 0 (f a).reached, (f a).result⟩ : Attempt _) = _
    rw [Nat.zero_max])
  (fun x f g => by
    rcases x with ⟨r, fault | a⟩
    · rfl
    · change (⟨max r (f a).reached, (f a).result⟩ : Attempt _) >>= g = _
      rw [bind_eq_of_ok]
      rcases hfa : f a with ⟨s, fault | b⟩
      · rw [bind_eq_of_error, bind_eq_of_error]
      · rw [bind_eq_of_ok, bind_eq_of_ok, Nat.max_assoc])

theorem reached_le_reached_bind (x : Attempt α) (f : α → Attempt β) :
    x.reached ≤ (x >>= f).reached := by
  rcases x with ⟨r, fault | a⟩
  · exact Nat.le_refl r
  · exact Nat.le_max_left _ _

theorem reached_bind_of_ok {x : Attempt α} {a : α} (f : α → Attempt β) (h : x.result = .ok a) :
    (x >>= f).reached = max x.reached (f a).reached := by
  rcases x with ⟨r, e⟩
  subst h
  rfl

theorem reached_bind_of_error {x : Attempt α} {fault : Fault} (f : α → Attempt β)
    (h : x.result = .error fault) : (x >>= f).reached = x.reached := by
  rcases x with ⟨r, e⟩
  subst h
  rfl

theorem reached_bind_pure (x : Attempt α) (f : α → β) :
    (x >>= fun a => pure (f a)).reached = x.reached := by
  rcases x with ⟨r, fault | a⟩
  · rfl
  · exact Nat.max_zero r

@[simp] theorem result_pure (a : α) : (pure a : Attempt α).result = .ok a := rfl

@[simp] theorem result_fail (fault : Fault) : (fail fault : Attempt α).result = .error fault := rfl

@[simp] theorem result_ofExcept (e : Except Fault α) : (ofExcept e).result = e := rfl

theorem result_bind_of_ok {x : Attempt α} {a : α} (f : α → Attempt β) (h : x.result = .ok a) :
    (x >>= f).result = (f a).result := by
  rcases x with ⟨r, e⟩
  subst h
  rfl

theorem result_bind_of_error {x : Attempt α} {fault : Fault} (f : α → Attempt β)
    (h : x.result = .error fault) : (x >>= f).result = .error fault := by
  rcases x with ⟨r, e⟩
  subst h
  rfl

theorem result_bind_eq_ok_iff {x : Attempt α} {f : α → Attempt β} {b : β} :
    (x >>= f).result = .ok b ↔ ∃ a, x.result = .ok a ∧ (f a).result = .ok b := by
  constructor
  · intro h
    cases hx : x.result with
    | error fault =>
      rw [result_bind_of_error f hx] at h
      cases h
    | ok a => exact ⟨a, rfl, by rwa [result_bind_of_ok f hx] at h⟩
  · rintro ⟨a, hx, hf⟩
    rw [result_bind_of_ok f hx, hf]

theorem result_bind_eq_error_iff {x : Attempt α} {f : α → Attempt β} {fault : Fault} :
    (x >>= f).result = .error fault ↔
      x.result = .error fault ∨ ∃ a, x.result = .ok a ∧ (f a).result = .error fault := by
  cases hx : x.result with
  | error e => simp [result_bind_of_error f hx]
  | ok a => simp [result_bind_of_ok f hx]

theorem result_bind_pure_eq_error_iff {x : Attempt α} {f : α → β} {fault : Fault} :
    (x >>= fun a => pure (f a)).result = .error fault ↔ x.result = .error fault := by
  rw [result_bind_eq_error_iff]
  simp

end Attempt
end GreedyMatch
