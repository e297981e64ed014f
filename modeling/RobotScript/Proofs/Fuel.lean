import RobotScript.Proofs.Reporting

/-!
# Fuel accounts

A recorder can be used by hand: its actions are called one by one, and it is
reset from time to time.  Some of the calls are refused.  What the recorder
holds afterwards can be told from the uses that were accepted, without going
through its states one by one.

* The record holds the actions called since the last reset.
* The tank holds what it held when it was last filled, less what the moves
  since then have burnt.  Taking fuel and resetting fill it.

The second is a truncated difference of natural numbers, `FuelTank.levelBehind`.
The product in it may be far larger than a word, but a tank counts down in
words and stops at zero.  The two agree because truncated subtraction in steps
is truncated subtraction of the sum.

## Main results

* `Recorder.perform_eq` — a call is refused only if it is a move on an empty
  tank.
* `FuelTank.levelBehind_move`, `FuelTank.levelBehind_of_fills`,
  `FuelTank.levelBehind_of_other` — what one more use does to the difference.
* `Recorder.Accounted.apply`, `Recorder.accounted_used` — the account after one
  use and after any number of them.
* `fuel_accounted` — what a recorder holds after any history, and which calls
  it refuses then.
-/

namespace RobotScript

/-! ## Uses -/

namespace Recorder

/-- What can be done to a recorder by hand. -/
inductive Use where
  | call (a : Action)
  | reset
  deriving DecidableEq, Repr

namespace Use

/-- Does it. -/
def apply : Use → EStateM OutOfFuel Recorder Unit
  | .call a => perform a
  | .reset => fun r => .ok () r.reset

/-- The action that is called for. -/
def action? : Use → Option Action
  | .call a => some a
  | .reset => none

/-- Whether the use is a reset. -/
def isReset (use : Use) : Bool :=
  use = .reset

/-- Whether the use fills the tank, if it is accepted. -/
def fills (use : Use) : Bool :=
  use = .reset || use = .call .takeFuel

end Use

/-- The recorder after several uses, one after the other.  A refusal does not
keep anybody from going on. -/
def used (uses : List Use) (r : Recorder) : Recorder :=
  uses.foldl (fun r use => stateAfter (use.apply r)) r

/-- Those of the uses that are not refused, in order. -/
def accepted : List Use → Recorder → List Use
  | [], _ => []
  | use :: uses, r =>
    match use.apply r with
    | .ok _ r => use :: accepted uses r
    | .error _ r => accepted uses r

/-- The uses behind the last one of a kind; all of them if there is none. -/
def since (kind : Use → Bool) (uses : List Use) : List Use :=
  (uses.reverse.takeWhile (!kind ·)).reverse

theorem since_concat_of_kind {kind : Use → Bool} {use : Use}
    (h : kind use = true) (uses : List Use) :
    since kind (uses ++ [use]) = [] := by
  simp [since, h]

theorem since_concat_of_other {kind : Use → Bool} {use : Use}
    (h : kind use = false) (uses : List Use) :
    since kind (uses ++ [use]) = since kind uses ++ [use] := by
  simp [since, h]

/-- The actions called since the last reset. -/
def actionsSinceReset (uses : List Use) : List Action :=
  (since Use.isReset uses).filterMap Use.action?

/-- The number of moves since the tank was last filled. -/
def movesSinceFilling (uses : List Use) : Nat :=
  (since Use.fills uses).count (.call .move)

theorem actionsSinceReset_reset (uses : List Use) :
    actionsSinceReset (uses ++ [.reset]) = [] := by
  rw [actionsSinceReset, since_concat_of_kind rfl]
  rfl

theorem actionsSinceReset_call (uses : List Use) (a : Action) :
    actionsSinceReset (uses ++ [.call a]) = actionsSinceReset uses ++ [a] := by
  rw [actionsSinceReset, since_concat_of_other rfl, List.filterMap_append]
  rfl

end Recorder

/-! ## The level of a tank -/

namespace FuelTank

open Recorder

/-- The level from which the moves since the last filling have burnt: that of
the full tank or, if it has never been filled, the level at the beginning. -/
def levelFilled (tank : FuelTank) (uses : List Use) : Nat :=
  if uses.any Use.fills then tank.capacity.toNat else tank.level.toNat

/-- The level behind some uses, all of them accepted, told from the level at
the last filling and the moves since then. -/
def levelBehind (tank : FuelTank) (uses : List Use) : Nat :=
  tank.levelFilled uses - tank.perMove.toNat * movesSinceFilling uses

theorem levelBehind_le (tank : FuelTank) (uses : List Use) :
    tank.levelBehind uses ≤ max tank.level.toNat tank.capacity.toNat := by
  have hfilled : tank.levelFilled uses ≤
      max tank.level.toNat tank.capacity.toNat := by
    unfold levelFilled
    split <;> omega
  unfold levelBehind
  omega

theorem levelFilled_of_other {use : Use} (h : use.fills = false)
    (tank : FuelTank) (uses : List Use) :
    tank.levelFilled (uses ++ [use]) = tank.levelFilled uses := by
  simp [levelFilled, h]

/-- Filling the tank begins a new account. -/
theorem levelBehind_of_fills {use : Use} (h : use.fills = true)
    (tank : FuelTank) (uses : List Use) :
    tank.levelBehind (uses ++ [use]) = tank.capacity.toNat := by
  simp [levelBehind, levelFilled, movesSinceFilling, since_concat_of_kind h, h]

/-- A move burns what it needs, or what there is. -/
theorem levelBehind_move (tank : FuelTank) (uses : List Use) :
    tank.levelBehind (uses ++ [.call .move]) =
      tank.levelBehind uses - tank.perMove.toNat := by
  have hmoves : movesSinceFilling (uses ++ [.call .move]) =
      movesSinceFilling uses + 1 := by
    rw [movesSinceFilling, since_concat_of_other rfl, List.count_append]
    rfl
  unfold levelBehind
  rw [levelFilled_of_other rfl, hmoves, Nat.mul_succ, Nat.sub_add_eq]

/-- Nothing else changes the level. -/
theorem levelBehind_of_other {use : Use} (hfills : use.fills = false)
    (hmove : use ≠ .call .move) (tank : FuelTank) (uses : List Use) :
    tank.levelBehind (uses ++ [use]) = tank.levelBehind uses := by
  have hmoves : movesSinceFilling (uses ++ [use]) = movesSinceFilling uses := by
    rw [movesSinceFilling, since_concat_of_other hfills, List.count_append,
      List.count_singleton, if_neg (by simpa using hmove)]
    rfl
  unfold levelBehind
  rw [levelFilled_of_other hfills, hmoves]

/-- The tank after an action that was performed. -/
def after (tank : FuelTank) : Action → FuelTank
  | .move => tank.burn
  | .takeFuel => tank.refill
  | .turnLeft => tank
  | .turnRight => tank
  | .wait => tank

/-- What is left of `tank` behind some uses, all of them accepted. -/
structure Accounts (tank : FuelTank) (uses : List Use) (now : FuelTank) :
    Prop where
  capacity : now.capacity = tank.capacity
  perMove : now.perMove = tank.perMove
  level : now.level.toNat = tank.levelBehind uses

theorem accounts_nil (tank : FuelTank) : tank.Accounts [] tank where
  capacity := rfl
  perMove := rfl
  level := rfl

namespace Accounts

variable {tank now : FuelTank} {uses : List Use}

theorem refill (h : tank.Accounts uses now) {use : Use}
    (hfills : use.fills = true) :
    tank.Accounts (uses ++ [use]) now.refill where
  capacity := h.capacity
  perMove := h.perMove
  level := by
    rw [levelBehind_of_fills hfills, ← h.capacity]
    rfl

theorem burn (h : tank.Accounts uses now) :
    tank.Accounts (uses ++ [.call .move]) now.burn where
  capacity := h.capacity
  perMove := h.perMove
  level := by
    rw [levelBehind_move, toNat_level_burn, h.level, h.perMove]

theorem keep (h : tank.Accounts uses now) {use : Use}
    (hfills : use.fills = false) (hmove : use ≠ .call .move) :
    tank.Accounts (uses ++ [use]) now where
  capacity := h.capacity
  perMove := h.perMove
  level := by
    rw [levelBehind_of_other hfills hmove]
    exact h.level

/-- **One action** more. -/
theorem after (h : tank.Accounts uses now) (a : Action) :
    tank.Accounts (uses ++ [.call a]) (now.after a) := by
  cases a with
  | move => exact h.burn
  | takeFuel => exact h.refill rfl
  | turnLeft => exact h.keep rfl nofun
  | turnRight => exact h.keep rfl nofun
  | wait => exact h.keep rfl nofun

end Accounts

end FuelTank

/-! ## The account of a recorder -/

namespace Recorder

theorem fuel_after (r : Recorder) (a : Action) :
    (r.after a).fuel = r.fuel.map (·.after a) := by
  cases a with
  | move => rfl
  | takeFuel => rfl
  | turnLeft => exact Option.map_id'.symm
  | turnRight => exact Option.map_id'.symm
  | wait => exact Option.map_id'.symm

/-- **A call** is refused only if it is a move on an empty tank, and then
nothing changes.  Otherwise the action is performed and written down. -/
theorem perform_eq (a : Action) (r : Recorder) :
    perform a r =
      if a = .move ∧ r.isDry = true then .error ⟨r.calls.size⟩ r
      else .ok () (r.after a) := by
  cases a with
  | move =>
      by_cases hdry : r.isDry = true
      · simp [perform, hdry]
      · simp [perform, hdry, after]
  | takeFuel => rfl
  | turnLeft => rfl
  | turnRight => rfl
  | wait => rfl

/-- What a new recorder with the given tank holds behind some uses, all of them
accepted. -/
structure Accounted (tank? : Option FuelTank) (uses : List Use)
    (r : Recorder) : Prop where
  calls : r.calls.toList = actionsSinceReset uses
  fuel : Option.Rel (fun tank now => tank.Accounts uses now) tank? r.fuel

theorem accounted_new (tank? : Option FuelTank) :
    Accounted tank? [] { fuel := tank? } where
  calls := rfl
  fuel := by
    cases tank? with
    | none => exact .none
    | some tank => exact .some tank.accounts_nil

namespace Accounted

variable {tank? : Option FuelTank} {uses : List Use} {r : Recorder}

theorem map_fuel {use : Use} {f : FuelTank → FuelTank}
    (h : Accounted tank? uses r)
    (hf : ∀ tank now : FuelTank, tank.Accounts uses now →
      tank.Accounts (uses ++ [use]) (f now)) :
    Option.Rel (fun tank now => tank.Accounts (uses ++ [use]) now) tank?
      (r.fuel.map f) := by
  have hfuel := h.fuel
  generalize r.fuel = fuel at hfuel
  cases hfuel with
  | some htank => exact .some (hf _ _ htank)
  | none => exact .none

theorem after (h : Accounted tank? uses r) (a : Action) :
    Accounted tank? (uses ++ [.call a]) (r.after a) where
  calls := by
    rw [actionsSinceReset_call, ← h.calls]
    exact Array.toList_push
  fuel := by
    rw [fuel_after]
    exact h.map_fuel fun _ _ htank => htank.after a

theorem reset (h : Accounted tank? uses r) :
    Accounted tank? (uses ++ [.reset]) r.reset where
  calls := by
    rw [actionsSinceReset_reset]
    rfl
  fuel := h.map_fuel fun _ _ htank => htank.refill rfl

/-- **One use.**  It goes into the account if it is accepted, and leaves the
recorder as it was otherwise. -/
theorem apply (h : Accounted tank? uses r) (use : Use) :
    Accounted tank? (uses ++ accepted [use] r) (stateAfter (use.apply r)) := by
  cases use with
  | reset => exact h.reset
  | call a =>
      show Accounted tank? (uses ++ accepted [.call a] r)
        (stateAfter (perform a r))
      by_cases hrefused : a = .move ∧ r.isDry = true
      · have hperform : perform a r = .error ⟨r.calls.size⟩ r := by
          rw [perform_eq, if_pos hrefused]
        simp only [accepted, Use.apply, hperform, List.append_nil]
        exact h
      · have hperform : perform a r = .ok () (r.after a) := by
          rw [perform_eq, if_neg hrefused]
        simp only [accepted, Use.apply, hperform]
        exact h.after a

end Accounted

/-- The uses that are accepted are accepted one after the other. -/
theorem accepted_cons (use : Use) (uses : List Use) (r : Recorder) :
    accepted (use :: uses) r =
      accepted [use] r ++ accepted uses (stateAfter (use.apply r)) := by
  simp only [accepted]
  cases use.apply r with
  | ok _ r' => rfl
  | error e r' => rfl

/-- **Any number of uses.** -/
theorem Accounted.used {tank? : Option FuelTank} {done : List Use}
    {r : Recorder} (h : Accounted tank? done r) (uses : List Use) :
    Accounted tank? (done ++ accepted uses r) (used uses r) := by
  induction uses generalizing done r with
  | nil =>
      rw [accepted, List.append_nil]
      exact h
  | cons use uses ih =>
      rw [accepted_cons, ← List.append_assoc]
      exact ih (h.apply use)

theorem accounted_used (tank? : Option FuelTank) (uses : List Use) :
    Accounted tank? (accepted uses { fuel := tank? })
      (Recorder.used uses { fuel := tank? }) :=
  (accounted_new tank?).used uses

/-! ## Refusals -/

theorem isDry_iff {r : Recorder} {tank : FuelTank} (h : r.fuel = some tank) :
    r.isDry = true ↔ tank.level = 0 := by
  simp [isDry, h]

theorem perform_error_iff {a : Action} {r r' : Recorder} {e : OutOfFuel} :
    perform a r = .error e r' ↔
      (a = .move ∧ r.isDry = true) ∧ e = ⟨r.calls.size⟩ ∧ r' = r := by
  rw [perform_eq]
  by_cases hrefused : a = .move ∧ r.isDry = true
  · rw [if_pos hrefused, and_iff_right hrefused]
    constructor
    · intro h
      cases h
      exact ⟨rfl, rfl⟩
    · rintro ⟨rfl, rfl⟩
      rfl
  · rw [if_neg hrefused]
    exact iff_of_false nofun fun h => hrefused h.1

/-- Without a tank every call is accepted. -/
theorem accepted_no_tank {r : Recorder} (h : r.fuel = none)
    (uses : List Use) : accepted uses r = uses := by
  induction uses generalizing r with
  | nil => rfl
  | cons use uses ih =>
      cases use with
      | reset =>
          have hreset : r.reset.fuel = none := by
            rw [reset, h]
            rfl
          exact congrArg _ (ih hreset)
      | call a =>
          have hdry : ¬(a = .move ∧ r.isDry = true) := by
            simp [isDry, h]
          have hafter : (r.after a).fuel = none := by
            rw [fuel_after, h]
            rfl
          simp only [accepted, Use.apply, perform_eq, if_neg hdry, ih hafter]

/-- **Fuel accounts.**  A recorder with any tank, whose level may lie above its
capacity, is used by hand in any way: actions are called, some of them in vain,
and it is reset.  Then the following holds of what it holds.

* Its capacity and what a move burns are as they were at the beginning.
* Its level is the truncated difference of the level at the last filling and
  what the moves accepted since then burn, in natural numbers.  So it is never
  above both the level at the beginning and the capacity.
* Its record is the list of the actions accepted since the last reset.
* The next call is refused exactly if it is a move and the level is zero, and a
  refused call leaves the recorder as it is.
* The next move, if it is accepted, takes what it burns from the level without
  wrapping around.

A recorder without a tank accepts every call. -/
theorem fuel_accounted (tank : FuelTank) (uses : List Use) :
    (let r := Recorder.used uses { fuel := some tank }
      let done := accepted uses { fuel := some tank }
      r.calls.toList = actionsSinceReset done ∧
        (∀ a e r', perform a r = .error e r' → r' = r) ∧
        ∃ now, r.fuel = some now ∧
          now.capacity = tank.capacity ∧ now.perMove = tank.perMove ∧
          now.level.toNat =
            (if done.any Use.fills then tank.capacity.toNat
              else tank.level.toNat) -
              tank.perMove.toNat * movesSinceFilling done ∧
          now.level.toNat ≤ max tank.level.toNat tank.capacity.toNat ∧
          (∀ a, (∃ e r', perform a r = .error e r') ↔
            a = .move ∧ now.level = 0) ∧
          ∀ r', perform .move r = .ok () r' →
            ∃ next, r'.fuel = some next ∧
              next.level.toNat = now.level.toNat - now.perMove.toNat) ∧
      accepted uses {} = uses ∧
      (Recorder.used uses {}).calls.toList = actionsSinceReset uses := by
  have hall : accepted uses {} = uses := accepted_no_tank rfl uses
  have hfree := (accounted_used none uses).calls
  rw [hall] at hfree
  refine ⟨?_, hall, hfree⟩
  intro r done
  obtain ⟨hcalls, hfuel⟩ : Accounted (some tank) done r :=
    accounted_used (some tank) uses
  refine ⟨hcalls, fun a e r' h => (perform_error_iff.1 h).2.2, ?_⟩
  generalize hnow : r.fuel = fuel at hfuel
  cases hfuel with
  | @some _ now hnow' =>
      have hle := tank.levelBehind_le done
      rw [← hnow'.level] at hle
      refine ⟨now, rfl, hnow'.capacity, hnow'.perMove, hnow'.level, hle, ?_, ?_⟩
      · intro a
        rw [← isDry_iff hnow]
        constructor
        · rintro ⟨e, r', h⟩
          exact (perform_error_iff.1 h).1
        · intro hrefused
          exact ⟨_, r, perform_error_iff.2 ⟨hrefused, rfl, rfl⟩⟩
      · intro r' h
        rw [perform_eq] at h
        split at h
        · cases h
        · cases h
          refine ⟨now.burn, ?_, now.toNat_level_burn⟩
          rw [fuel_after, hnow]
          rfl

-- The second move needs more than is left and burns the rest, the third is
-- refused, and a turn on the empty tank is not.
example :
    let tank : FuelTank := ⟨5, 7, 4⟩
    let uses : List Use :=
      [.call .move, .call .move, .call .move, .call .turnLeft]
    accepted uses { fuel := some tank } =
        [.call .move, .call .move, .call .turnLeft] ∧
      Recorder.used uses { fuel := some tank } =
        ⟨#[.move, .move, .turnLeft], some ⟨5, 0, 4⟩⟩ := by decide

end Recorder

end RobotScript
