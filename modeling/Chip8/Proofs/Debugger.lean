import Mathlib.Data.List.Infix
import Chip8.Debugger

/-!
# Every step is accounted for

While it is paused, a debugger lets a cycle through for each step that was asked for, and for nothing
else. What it owes can be read off the record of the calls that were made: the entries since it was
paused hold the steps that were asked for and the cycles that were let through, and the difference is
still to come. `Accounted` says so of a debugger, every call keeps it so (`Accounted.call`) as long as
what is owed fits its word, and so does a run (`Accounted.calls`).

A debugger that runs owes nothing. It is like a fresh one, whatever was asked of it before, so a step
that was asked for while it ran or was left over from a pause is never granted later.
-/

namespace Chip8.Debugger

/-! ## Calls and their record -/

/-- What a host can ask of a debugger. -/
inductive Call where
  /-- To stop free running. -/
  | pause
  /-- To go back to free running. -/
  | resume
  /-- To pause or to resume. -/
  | toggle
  /-- For one cycle while paused. -/
  | step
  /-- Whether a cycle should be executed now. -/
  | shouldCycle
  deriving DecidableEq

/-- Whether a call lets a cycle through, and the debugger after it. -/
def call (d : Debugger) : Call → Bool × Debugger
  | .pause => (false, d.pause)
  | .resume => (false, d.resume)
  | .toggle => (false, d.toggle)
  | .step => (false, d.step)
  | .shouldCycle => d.shouldCycle

/-- The debugger after calls, one after another. -/
def calls (d : Debugger) (xs : List Call) : Debugger := xs.foldl (fun d x => (d.call x).2) d

/-- A call that was made. -/
structure Entry where
  /-- What was asked for. -/
  call : Call
  /-- A cycle was let through. -/
  cycle : Bool
  deriving DecidableEq

/-- The record of calls, the first of them first. -/
def record (d : Debugger) : List Call → List Entry
  | [] => []
  | x :: xs => ⟨x, (d.call x).1⟩ :: (d.call x).2.record xs

/-! ## Pauses -/

/-- The entries of the current pause, if there is one, after another entry. A pause begins with `pause`
or `toggle`, and ends with `resume` or `toggle`; to pause once more does not end it. -/
def follow (entries : Option (List Entry)) (entry : Entry) : Option (List Entry) :=
  match entries, entry.call with
  | none, .pause => some []
  | none, .toggle => some []
  | none, _ => none
  | some _, .resume => none
  | some _, .toggle => none
  | some entries, _ => some (entries ++ [entry])

/-- The entries of a record since the debugger was paused, or none if it runs. -/
def currentPause (entries : List Entry) : Option (List Entry) := entries.foldl follow none

/-- How many steps were asked for. -/
def requested (entries : List Entry) : Nat := entries.countP (·.call = .step)

/-- How many cycles were let through. -/
def granted (entries : List Entry) : Nat := entries.countP (·.cycle)

/-- Another entry may ask for one more step. -/
theorem requested_concat (entries : List Entry) (entry : Entry) :
    requested (entries ++ [entry]) = requested entries + if entry.call = .step then 1 else 0 := by
  simp [requested, List.countP_append, List.countP_singleton]

/-- Another entry may let one more cycle through. -/
theorem granted_concat (entries : List Entry) (entry : Entry) :
    granted (entries ++ [entry]) = granted entries + if entry.cycle then 1 else 0 := by
  simp [granted, List.countP_append, List.countP_singleton]

/-! ## What a debugger owes -/

/-- A debugger holds what it owes after the entries of the current pause, if there is one. -/
inductive Accounted : Debugger → Option (List Entry) → Prop
  /-- Nothing is owed while running. -/
  | running : Accounted {} none
  /-- While paused, what was asked for is either granted or pending. -/
  | paused {pending : UInt32} {entries : List Entry}
      (h : granted entries + pending.toNat = requested entries) :
      Accounted ⟨true, pending⟩ (some entries)

namespace Accounted

variable {d : Debugger} {pause : Option (List Entry)}

/-- Another entry keeps a paused debugger accounted for, if it changes both sides alike. -/
theorem concat {pending : UInt32} {entries : List Entry} {entry : Entry}
    (h : granted entries + (if entry.cycle then 1 else 0) + pending.toNat =
      requested entries + if entry.call = .step then 1 else 0) :
    Accounted ⟨true, pending⟩ (some (entries ++ [entry])) := by
  refine .paused ?_
  rw [granted_concat, requested_concat, h]

/-- Every call keeps a debugger accounted for, if what is owed afterwards fits its word. -/
theorem call (h : d.Accounted pause) (x : Call)
    (hfits : ∀ entries, follow pause ⟨x, (d.call x).1⟩ = some entries →
      requested entries - granted entries < UInt32.size) :
    (d.call x).2.Accounted (follow pause ⟨x, (d.call x).1⟩) := by
  cases h with
  | running =>
    cases x with
    | pause | toggle => exact .paused rfl
    | resume | step | shouldCycle => exact .running
  | @paused pending entries howed =>
    cases x with
    | resume | toggle => exact .running
    | pause => exact concat howed
    | step =>
      have hless := hfits _ rfl
      rw [granted_concat, requested_concat] at hless
      simp only [Debugger.call, Bool.false_eq_true, if_false, if_true, Nat.add_zero] at hless
      -- One more is owed, and the word does not overflow.
      have hpending : (pending + 1).toNat = pending.toNat + 1 := by
        rw [UInt32.toNat_add]
        exact Nat.mod_eq_of_lt (show pending.toNat + 1 < UInt32.size by omega)
      refine concat ?_
      show granted entries + 0 + (pending + 1).toNat = requested entries + 1
      omega
    | shouldCycle =>
      simp only [Debugger.call, shouldCycle, if_true]
      split
      · next hsome =>
        -- A pending step is used up.
        have hpos : 0 < pending.toNat := UInt32.lt_iff_toNat_lt.1 hsome
        have hpending : (pending - 1).toNat = pending.toNat - 1 :=
          UInt32.toNat_sub_of_le _ _ (UInt32.le_iff_toNat_le.2 hpos)
        refine concat ?_
        show granted entries + 1 + (pending - 1).toNat = requested entries + 0
        omega
      · exact concat howed

/-- A debugger stays accounted for over calls, if what is owed fits its word at any time. -/
theorem calls (h : d.Accounted pause) (xs : List Call)
    (hfits : ∀ ys, ys <+: xs → ∀ entries, (d.record ys).foldl follow pause = some entries →
      requested entries - granted entries < UInt32.size) :
    (d.calls xs).Accounted ((d.record xs).foldl follow pause) := by
  induction xs generalizing d pause with
  | nil => exact h
  | cons x xs ih =>
    have hnext : (d.call x).2.Accounted (follow pause ⟨x, (d.call x).1⟩) :=
      h.call x (hfits [x] (List.prefix_append [x] xs))
    exact ih hnext fun ys hys => hfits (x :: ys) (List.cons_prefix_cons.2 ⟨rfl, hys⟩)

/-- A debugger that runs is like a fresh one. -/
theorem eq_new (h : d.Accounted none) : d = {} := by
  cases h
  rfl

/-- A debugger that is paused holds the difference between what was asked for and what was granted. -/
theorem owed {entries : List Entry} (h : d.Accounted (some entries)) :
    d.paused = true ∧ granted entries + d.pending.toNat = requested entries := by
  cases h with
  | paused howed => exact ⟨rfl, howed⟩

end Accounted

/-- While paused, a cycle is let through if a step is pending. -/
theorem shouldCycle_iff_of_paused {d : Debugger} (h : d.paused = true) :
    d.shouldCycle.1 = true ↔ 0 < d.pending.toNat := by
  rw [shouldCycle, if_pos h]
  split
  · next hpos => exact iff_of_true rfl (UInt32.lt_iff_toNat_lt.1 hpos)
  · next hzero => exact iff_of_false Bool.false_ne_true fun hpos => hzero (UInt32.lt_iff_toNat_lt.2 hpos)

/-- What becomes of a fresh debugger over calls of any kind and in any order, of which never more steps are
owed than its word holds. While it runs it lets every cycle through, and is a fresh debugger again, so that
nothing is kept from before. While it is paused it lets a cycle through just when fewer were let through since
it was paused than steps were asked for since then, and what is pending is the difference. -/
theorem steps_accounted (xs : List Call)
    (hfits : ∀ ys, ys <+: xs → ∀ entries, currentPause (record {} ys) = some entries →
      requested entries - granted entries < UInt32.size) :
    let d := calls {} xs
    (currentPause (record {} xs) = none → d = {} ∧ d.shouldCycle.1 = true) ∧
      ∀ entries, currentPause (record {} xs) = some entries →
        d.paused = true ∧
          (d.shouldCycle.1 = true ↔ granted entries < requested entries) ∧
          granted entries ≤ requested entries ∧
          d.pending.toNat = requested entries - granted entries := by
  intro d
  have haccounted : d.Accounted (currentPause (record {} xs)) := Accounted.running.calls xs hfits
  refine ⟨fun hnone => ?_, fun entries hsome => ?_⟩
  · rw [hnone] at haccounted
    have hnew : d = {} := haccounted.eq_new
    exact ⟨hnew, hnew ▸ rfl⟩
  · rw [hsome] at haccounted
    obtain ⟨hpaused, howed⟩ := haccounted.owed
    have hcycle := shouldCycle_iff_of_paused hpaused
    exact ⟨hpaused, hcycle.trans (by omega), by omega, by omega⟩

/-- A step that was asked for while running, and two that were left over from a pause, come to nothing: the
next pause owes just the step that was asked for in it. -/
theorem steps_accounted_left_over :
    let xs : List Call :=
      [.step, .pause, .step, .step, .shouldCycle, .pause, .step, .toggle, .shouldCycle, .toggle, .step]
    (∀ ys, ys <+: xs → ∀ entries, currentPause (record {} ys) = some entries →
        requested entries - granted entries < UInt32.size) ∧
      currentPause (record {} xs) = some [⟨.step, false⟩] ∧
      (calls {} xs).shouldCycle.1 = true ∧ (calls {} xs).pending.toNat = 1 := by
  intro xs
  have hfits : ∀ ys, ys <+: xs → ∀ entries, currentPause (record {} ys) = some entries →
      requested entries - granted entries < UInt32.size := by
    have hprefixes : ∀ ys ∈ xs.inits, ∀ entries ∈ currentPause (record {} ys),
        requested entries - granted entries < UInt32.size := by decide
    exact fun ys hys => hprefixes ys ((List.mem_inits ys xs).2 hys)
  have hpause : currentPause (record {} xs) = some [⟨.step, false⟩] := by decide
  obtain ⟨-, hcycle, -, hpending⟩ := (steps_accounted xs hfits).2 _ hpause
  exact ⟨hfits, hpause, hcycle.2 (by decide), hpending⟩

end Chip8.Debugger
