import GreedyMatch.Proofs.Match.Outcome
import GreedyMatch.Value.Build

/-!
# Runs of concatenations

A run of two grammars joined is a run of the first one and, from where that ends, a run of
the second. The two come to the same match, to the same fault, and reach equally far. At
the end of the text the joined grammar asks at once of all that is left whether it may be
left out, while its parts ask one after the other; the first answer that is no decides
either way.
-/
namespace GreedyMatch
variable {text : Text} {limit : Option Int} {depth position : Int}

namespace Attempt
variable {α β : Type}

/-- One run and, from where it ended, the next one. The two matches are joined, and the
next run is not made if the first one failed. -/
def followedBy (x : Attempt (Option Match)) (next : Int → Attempt (Option Match))
    (position : Int) : Attempt (Option Match) := do
  match ← x with
  | none => return none
  | some m => return (← next (position + m.length)).map (m ++ ·)

theorem none_followedBy (next : Int → Attempt (Option Match)) :
    followedBy (pure none) next position = pure none := by
  rw [followedBy, pure_bind]

theorem some_followedBy (m : Match) (next : Int → Attempt (Option Match)) :
    followedBy (pure (some m)) next position =
      (Option.map (m ++ ·)) <$> next (position + m.length) := by
  rw [followedBy, pure_bind, map_eq_pure_bind]

theorem map_empty_append (r : Option Match) : r.map (Match.empty ++ ·) = r := by
  cases r with
  | none => rfl
  | some m => exact congrArg some (Match.empty_append m)

theorem empty_followedBy (next : Int → Attempt (Option Match)) :
    followedBy (pure (some .empty)) next position = next position := by
  have hstay : position + ((Match.empty.length : Nat) : Int) = position := Int.add_zero position
  rw [some_followedBy, hstay, map_eq_pure_bind]
  simp only [map_empty_append, bind_pure]

theorem followedBy_empty (x : Attempt (Option Match)) :
    x.followedBy (fun _ => pure (some .empty)) position = x := by
  refine Eq.trans (bind_congr fun r => ?_) (bind_pure x)
  cases r with
  | none => rfl
  | some m => simp only [pure_bind, Option.map_some, Match.append_empty]

theorem fail_followedBy (fault : Fault) (next : Int → Attempt (Option Match)) :
    followedBy (fail fault) next position = fail fault := rfl

theorem followedBy_eq_of_some (r : Nat) (m : Match) (next : Int → Attempt (Option Match)) :
    followedBy ⟨r, .ok (some m)⟩ next position =
      ⟨max r (next (position + m.length)).reached,
        (next (position + m.length)).result.map (Option.map (m ++ ·))⟩ := by
  rw [followedBy, bind_eq_of_ok]
  rcases hy : next (position + m.length) with ⟨r', fault | o⟩
  · simp only [hy, bind_eq_of_error, Except.map]
  · simp only [hy, bind_eq_of_ok, pure_eq, Nat.max_zero, Except.map]

theorem bind_congr_of_ok {x : Attempt α} {f g : α → Attempt β}
    (h : ∀ a, x.result = .ok a → f a = g a) : x >>= f = x >>= g := by
  rcases x with ⟨r, fault | a⟩
  · rfl
  · rw [bind_eq_of_ok, bind_eq_of_ok, h a rfl]

theorem followedBy_congr {x : Attempt (Option Match)} {next next' : Int → Attempt (Option Match)}
    (h : ∀ m, x.result = .ok (some m) →
      next (position + m.length) = next' (position + m.length)) :
    x.followedBy next position = x.followedBy next' position := by
  apply bind_congr_of_ok
  intro r hr
  cases r with
  | none => rfl
  | some m => simp only [h m hr]

theorem result_followedBy {x : Attempt (Option Match)} {next : Int → Attempt (Option Match)}
    {m m' : Match} (hx : x.result = .ok (some m))
    (hnext : (next (position + m.length)).result = .ok (some m')) :
    (x.followedBy next position).result = .ok (some (m ++ m')) := by
  rw [followedBy, result_bind_of_ok _ hx, result_bind_of_ok _ hnext]
  rfl

theorem bind_followedBy (x : Attempt α) (f : α → Attempt (Option Match))
    (next : Int → Attempt (Option Match)) :
    followedBy (x >>= f) next position = x >>= fun a => followedBy (f a) next position := by
  rw [followedBy, bind_assoc]
  rfl

theorem followedBy_assoc (x : Attempt (Option Match)) (next last : Int → Attempt (Option Match)) :
    followedBy (x.followedBy next position) last position =
      x.followedBy (fun p => (next p).followedBy last p) position := by
  rw [followedBy, followedBy, followedBy, bind_assoc]
  refine bind_congr fun r => ?_
  cases r with
  | none => rw [pure_bind]
  | some m =>
    simp only [followedBy, bind_assoc, pure_bind]
    refine bind_congr fun r' => ?_
    cases r' with
    | none => rw [pure_bind]; rfl
    | some k =>
      simp only [Option.map_some, Match.length_append, Int.natCast_add, Int.add_assoc, bind_assoc,
        pure_bind, Option.map_map]
      refine bind_congr fun r'' => ?_
      congr 1
      cases r'' with
      | none => rfl
      | some l => exact congrArg some (Match.append_assoc m k l)

end Attempt

/-- What a walk makes of a component while there is text left: it takes what it can, or is
left out if that is nothing and it may be. -/
def Component.step (text : Text) (limit : Option Int) (c : Component) (depth position : Int) :
    Attempt (Option Match) := do
  let m ← c.consume text limit depth position
  if 0 < m.length then
    .mark (position + m.length)
    return some m
  else
    return if ← .ofExcept (c.nullable limit depth) then some .empty else none

theorem Component.step_followedBy (c : Component) (next : Int → Attempt (Option Match)) :
    (c.step text limit depth position).followedBy next position = (do
      let m ← c.consume text limit depth position
      if 0 < m.length then
        .mark (position + m.length)
        let rest ← next (position + m.length)
        return rest.map (m ++ ·)
      else if ← .ofExcept (c.nullable limit depth) then
        next position
      else
        return none) := by
  rw [step, Attempt.bind_followedBy]
  refine bind_congr fun m => ?_
  by_cases h0 : 0 < m.length
  · rw [if_pos h0, if_pos h0, Attempt.bind_followedBy]
    refine bind_congr fun _ => ?_
    rw [Attempt.some_followedBy, map_eq_pure_bind]
  · rw [if_neg h0, if_neg h0, Attempt.bind_followedBy]
    refine bind_congr fun bare => ?_
    cases bare with
    | false => exact Attempt.none_followedBy next
    | true => exact Attempt.empty_followedBy next

namespace Grammar
variable {c : Component} {cs : Grammar}

theorem walk_cons (hp : position ≠ text.length) :
    walk text limit (c :: cs) depth position =
      (c.step text limit depth position).followedBy (walk text limit cs depth) position := by
  rw [walk, if_neg hp, Component.step_followedBy]

theorem walk_singleton (hp : position ≠ text.length) :
    walk text limit [c] depth position = c.step text limit depth position := by
  have hnil : walk text limit [] depth = fun _ => pure (some .empty) := funext fun _ => walk_nil
  rw [walk_cons hp, hnil, Attempt.followedBy_empty]

theorem walk_append (g h : Grammar) :
    walk text limit (g ++ h) depth position =
      (walk text limit g depth position).followedBy (walk text limit h depth) position := by
  induction g generalizing position with
  | nil => rw [walk_nil, Attempt.empty_followedBy, List.nil_append]
  | cons c cs ih =>
    by_cases hp : position = text.length
    · subst hp
      rw [walk_length, walk_length, nullable_append]
      cases nullable limit (c :: cs) depth with
      | error fault => rfl
      | ok bare =>
        cases bare with
        | false => exact (Attempt.none_followedBy _).symm
        | true =>
          rw [← walk_length]
          exact (Attempt.empty_followedBy _).symm
    · have hcs : walk text limit (cs ++ h) depth = fun p =>
          (walk text limit cs depth p).followedBy (walk text limit h depth) p := funext fun _ => ih
      rw [List.cons_append, walk_cons hp, walk_cons hp, hcs, Attempt.followedBy_assoc]

theorem run_append (g h : Grammar) :
    run text limit (g ++ h) depth position =
      (run text limit g depth position).followedBy (run text limit h depth) position := by
  cases ha : allow limit depth with
  | error fault =>
    have hfail (g : Grammar) (p : Int) : run text limit g depth p = .fail fault := by
      rw [run, guarded, ha]
    rw [hfail, hfail, Attempt.fail_followedBy]
  | ok _ =>
    have hwalk (g : Grammar) : run text limit g depth = walk text limit g depth := by
      funext p
      rw [run, guarded, ha]
    rw [hwalk, hwalk, hwalk, walk_append]

theorem filter_map_append (m : Match) (r : Option Match) (stop : Int) :
    ((r.map (m ++ ·)).filter fun k => position + k.length = stop) =
      (r.filter fun k => position + m.length + k.length = stop).map (m ++ ·) := by
  cases r with
  | none => rfl
  | some k =>
    rw [Option.map_some, Option.filter_some, Option.filter_some, Match.length_append,
      Int.natCast_add, Int.add_assoc]
    by_cases hstop : position + ((m.length : Int) + k.length) = stop
    · simp [hstop]
    · simp [hstop]

theorem runWhole_append (g h : Grammar) :
    runWhole text limit (g ++ h) depth position =
      (run text limit g depth position).followedBy (runWhole text limit h depth) position := by
  rw [runWhole, run_append, Attempt.followedBy, Attempt.followedBy, bind_assoc]
  refine bind_congr fun r => ?_
  cases r with
  | none => rw [pure_bind]; rfl
  | some m =>
    simp only [runWhole, bind_assoc, pure_bind, filter_map_append]

end Grammar

namespace Session

/-- A session that made one attempt after another has recorded both. -/
theorem record_followedBy (s : Session) (x : Attempt (Option Match))
    (next : Int → Attempt (Option Match)) :
    s.record (x.followedBy next position) =
      match s.record x with
      | (s', .ok (some m)) =>
        match s'.record (next (position + m.length)) with
        | (s'', .ok (some m')) => (s'', .ok (some (m ++ m')))
        | failed => failed
      | failed => failed := by
  rcases x with ⟨r, fault | _ | m⟩
  · rfl
  · simp only [record, Attempt.followedBy, Attempt.bind_eq_of_ok, Attempt.pure_eq, Nat.max_zero]
  · rw [Attempt.followedBy_eq_of_some]
    rcases hy : next (position + m.length) with ⟨r', fault | _ | m'⟩ <;>
      simp only [record, hy, Except.map, Option.map, Nat.max_assoc]

theorem run_append (s : Session) (g h : Grammar) (nested : Bool) :
    s.run (g ++ h) depth position nested =
      match s.run g depth position true with
      | (s', .ok (some m)) =>
        match s'.run h depth (position + m.length) nested with
        | (s'', .ok (some m')) => (s'', .ok (some (m ++ m')))
        | failed => failed
      | failed => failed := by
  have hfirst : s.run g depth position true =
      s.record (g.run s.text s.limit depth position) := rfl
  rw [hfirst]
  cases nested with
  | true =>
    have hboth : s.run (g ++ h) depth position true =
        s.record ((g ++ h).run s.text s.limit depth position) := rfl
    rw [hboth, Grammar.run_append, record_followedBy]
    rcases g.run s.text s.limit depth position with ⟨r, fault | _ | m⟩ <;> rfl
  | false =>
    have hboth : s.run (g ++ h) depth position false =
        s.record ((g ++ h).runWhole s.text s.limit depth position) := rfl
    rw [hboth, Grammar.runWhole_append, record_followedBy]
    rcases g.run s.text s.limit depth position with ⟨r, fault | _ | m⟩ <;> rfl

theorem record_ofExcept {α : Type} (s : Session) (e : Except Fault α) :
    s.record (.ofExcept e) = (s, e) := by
  have hmark : max s.furthest 0 = s.furthest := Nat.max_zero s.furthest
  simp only [record, Attempt.ofExcept, hmark]

theorem run_nil (s : Session) :
    s.run [] depth position true = (s, (allow s.limit depth).map fun _ => some .empty) := by
  have hrun : Grammar.run s.text s.limit [] depth position =
      .ofExcept ((allow s.limit depth).map fun _ => some .empty) := by
    unfold Grammar.run guarded
    cases allow s.limit depth with
    | error fault => rfl
    | ok _ => exact Grammar.walk_nil
  rw [← record_ofExcept, ← hrun]
  rfl

end Session

/-- Running two grammars joined is running the first one and, from where it ends, the second one in
the same session; the grammar without components is neutral. -/
theorem run_concat_in_sequence (s : Session) (depth position : Int) (nested : Bool) :
    (∀ g h : Grammar,
      Value.concat (.grammar g) (.grammar h) = .ok (g ++ h) ∧
      s.run (g ++ h) depth position nested =
        match s.run g depth position true with
        | (s', .ok (some m)) =>
          match s'.run h depth (position + m.length) nested with
          | (s'', .ok (some m')) => (s'', .ok (some (m ++ m')))
          | failed => failed
        | failed => failed) ∧
    s.run [] depth position true = (s, (allow s.limit depth).map fun _ => some .empty) := by
  constructor
  · intro g h
    exact ⟨rfl, s.run_append g h nested⟩
  · exact s.run_nil

end GreedyMatch
