import Chip8.Proofs.Alike
import Chip8.Proofs.Disturbance
import Chip8.Proofs.Loading
import Chip8.Proofs.Presentation

/-!
# What a new program keeps of the past

A program that is loaded replaces the whole state, so what a machine did before can only matter through
what lies outside of its state. The mark that the screen has changed is set again, the preferences are
never read by a program, and the keypad belongs to the host. The source of random numbers is what is left:
it is not started over, and goes on where the past has left it.

How far that is can be told. A session takes one number for each cycle that executes `CXKK`
(`random_session`), and a machine whose source is moved plays the same as long as no number is taken
(`play_withRandom`). So two machines of one seed play a new program alike if their pasts took equally many
numbers, or up to the first number that is taken (`play_loadProgram`), and not any further
(`loadProgram_keeps_random`).
-/

namespace Chip8

namespace Machine

variable {κ : Type}

/-- The machine with another source of random numbers. -/
def withRandom (m : Machine κ) (random : Random) : Machine κ := { m with random := random }

variable [Keypad κ]

/-! ## The numbers that are taken -/

/-- How many random numbers an operation takes. -/
def numbersTaken (m : Machine κ) : Operation κ → Nat
  | .cycle => if m.executes .random then 1 else 0
  | _ => 0

/-- How many random numbers operations take, one after another. -/
def numbersTakenBy (m : Machine κ) : List (Operation κ) → Nat
  | [] => 0
  | op :: ops => m.numbersTaken op + (m.perform op).numbersTakenBy ops

/-- A cycle moves the source on by the number that it takes. -/
theorem random_cycle (m : Machine κ) :
    m.cycle.machine.random = { m.random with taken := m.random.taken + m.numbersTaken .cycle } := by
  by_cases hexec : m.executes .random
  · rw [cycle_of_executes hexec, numbersTaken, if_pos hexec]
    rfl
  · have hnone : ∀ p ∈ Part.random.writers, ¬ m.executes p := by simpa [Part.writers] using hexec
    have hsame : m.cycle.machine.random = m.random := by
      refine (same_cycle m .random).resolve_right ?_
      rintro ⟨p, hp, hwrites⟩
      exact hnone p hp hwrites
    rw [hsame, numbersTaken, if_neg hexec]
    rfl

/-- Every operation moves the source on by the numbers that it takes, also one that starts over. -/
theorem random_perform (m : Machine κ) (op : Operation κ) :
    (m.perform op).random = { m.random with taken := m.random.taken + m.numbersTaken op } := by
  cases op with
  | cycle => exact random_cycle m
  | loadProgram program =>
    rw [perform, loadProgram]
    split <;> rfl
  | loadFile path contents =>
    cases contents with
    | none => rfl
    | some program =>
      rw [perform, loadFile, loadProgram]
      split <;> rfl
  | restore bytes =>
    rw [perform, restore]
    split <;> rfl
  | present => rw [perform, present_eq]; rfl
  | save | reset | tick | keys | setClockRate | takeRedraw => rfl

/-- So do operations one after another. -/
theorem random_run (m : Machine κ) (ops : List (Operation κ)) :
    (m.run ops).random = { m.random with taken := m.random.taken + m.numbersTakenBy ops } := by
  induction ops generalizing m with
  | nil => rfl
  | cons op ops ih =>
    show ((m.perform op).run ops).random = _
    rw [ih, random_perform, numbersTakenBy, Nat.add_assoc]

/-- In a session with a seed, the source is the stream of the seed behind the numbers that were taken. -/
theorem random_session (keypad : κ) {config : Config} {seed : UInt64} (h : config.seed = some seed)
    (entropy : ChaCha.Key) (ops : List (Operation κ)) :
    (session keypad config entropy ops).random =
      ⟨Seed.key seed, (new keypad config entropy).numbersTakenBy ops⟩ := by
  have hfresh : (new keypad config entropy).random = .ofSeed seed := by rw [new, h]
  rw [session, random_run, hfresh, Random.ofSeed, Nat.zero_add]

/-! ## Another source of random numbers -/

/-- A step that takes no number is the same with another source. -/
theorem perform_withRandom {m : Machine κ} (random : Random) {s : Step κ}
    (h : m.numbersTaken s.operation = 0) :
    (m.withRandom random).perform s.operation = (m.perform s.operation).withRandom random := by
  cases s with
  | tick | keys => rfl
  | cycle =>
    refine cycle_disturb (d := { random := fun _ => random }) fun p hp => ?_
    cases p with
    | random => exact absurd hp (by simpa [numbersTaken, Step.operation] using h)
    | readDelay | setDelay | setSound | awaitKey | skipPressed | skipReleased => rfl
    | _ => trivial

/-- So is what is played until a number is taken. -/
theorem play_withRandom {m : Machine κ} (random : Random) {steps : List (Step κ)}
    (h : m.numbersTakenBy (steps.map Step.operation) = 0) :
    (m.withRandom random).play steps = (m.play steps).withRandom random := by
  induction steps generalizing m with
  | nil => rfl
  | cons s steps ih =>
    rw [List.map_cons, numbersTakenBy, Nat.add_eq_zero_iff] at h
    show ((m.withRandom random).perform s.operation).play steps = _
    rw [perform_withRandom random h.1, ih h.2]
    rfl

/-! ## A new program -/

omit [Keypad κ] in
/-- Machines with the same keypad that were given the same program are copies of each other, whatever they
were before, but for the source of random numbers. -/
theorem isCopy_loadProgram {m t : Machine κ} {program : List UInt8}
    (h : program.length ≤ maxProgramSize) (hkeypad : t.keypad = m.keypad) :
    IsCopy ((m.loadProgram program).machine.withRandom t.random) (t.loadProgram program).machine := by
  rw [machine_loadProgram m h, machine_loadProgram t h]
  exact ⟨⟨Nat.zero_le 16, rfl, fun _ _ => rfl, rfl, rfl, rfl, rfl, rfl, rfl, hkeypad, rfl, rfl⟩,
    rfl, rfl⟩

/-- Nothing that is played takes the mark of a new program. -/
theorem redraw_play_loadProgram (m : Machine κ) {program : List UInt8}
    (h : program.length ≤ maxProgramSize) (steps : List (Step κ)) :
    ((m.loadProgram program).machine.play steps).redraw = true := by
  have hmark : (m.loadProgram program).machine.redraw = true := by rw [machine_loadProgram m h]
  exact redraw_run hmark (Step.takeRedraw_not_mem steps) (Step.present_not_mem steps)

/-- Two machines of the same preferences, with a seed, play a new program alike from the same keys,
whatever was done with them before, if that took equally many random numbers. If it did not, they play
alike as long as no random number is taken. -/
theorem play_loadProgram (keypad keypad' : κ) {config : Config} {seed : UInt64}
    (hseed : config.seed = some seed) (entropy entropy' : ChaCha.Key) (ops ops' : List (Operation κ))
    {program : List UInt8} (hfits : program.length ≤ maxProgramSize)
    (hkeys : (session keypad' config entropy' ops').keypad = (session keypad config entropy ops).keypad)
    (steps : List (Step κ)) :
    let m := ((session keypad config entropy ops).loadProgram program).machine
    let t := ((session keypad' config entropy' ops').loadProgram program).machine
    (new keypad' config entropy').numbersTakenBy ops' = (new keypad config entropy).numbersTakenBy ops ∨
        m.numbersTakenBy (steps.map Step.operation) = 0 →
      (t.play steps).toState = (m.play steps).toState ∧
        (t.play steps).keypad = (m.play steps).keypad ∧
        (t.play steps).redraw = (m.play steps).redraw := by
  intro m t hnumbers
  let random := (session keypad' config entropy' ops').random
  have hsource : ∃ random', (m.withRandom random).play steps = (m.play steps).withRandom random' := by
    rcases hnumbers with hpast | hnone
    · -- The source is where that of `m` is already.
      have hrandom : random = m.random := by
        rw [show m = _ from machine_loadProgram _ hfits]
        rw [show random = _ from random_session keypad' hseed entropy' ops', hpast,
          random_session keypad hseed]
      rw [hrandom]
      exact ⟨(m.play steps).random, rfl⟩
    · exact ⟨random, play_withRandom random hnone⟩
  obtain ⟨random', hplay⟩ := hsource
  have hcopy : IsCopy ((m.play steps).withRandom random') (t.play steps) := by
    rw [← hplay]
    exact (isCopy_loadProgram hfits hkeys).play steps
  refine ⟨hcopy.toState_eq, hcopy.keypad, ?_⟩
  rw [redraw_play_loadProgram _ hfits, redraw_play_loadProgram _ hfits]

/-- A machine that took a number before it started over, and one that took a number for another register
and had a key pressed and released. The next number is the same for both. -/
theorem play_loadProgram_second_number :
    let config : Config := { seed := some 42 }
    let entropy : ChaCha.Key := Vector.replicate 8 0
    let ops : List (Operation KeyState) := [.loadProgram [0xC0, 0xFF], .cycle, .reset]
    let ops' : List (Operation KeyState) :=
      [.keys (·.set 3 true), .loadProgram [0xC5, 0x0F], .cycle, .keys fun _ => .allUp]
    let program : List UInt8 := [0xC0, 0xFF]
    let m := ((session .allUp config entropy ops).loadProgram program).machine
    let t := ((session .allUp config entropy ops').loadProgram program).machine
    config.seed = some 42 ∧ program.length ≤ maxProgramSize ∧
      (session .allUp config entropy ops').keypad = (session .allUp config entropy ops).keypad ∧
      (new .allUp config entropy).numbersTakenBy ops' = (new .allUp config entropy).numbersTakenBy ops ∧
      (t.play [.cycle]).toState = (m.play [.cycle]).toState := by
  intro config entropy ops ops' program m t
  have hfits : program.length ≤ maxProgramSize := by decide
  have hkeys : (session .allUp config entropy ops').keypad =
      (session .allUp config entropy ops).keypad := by decide +kernel
  have hnumbers : (new .allUp config entropy).numbersTakenBy ops' =
      (new .allUp config entropy).numbersTakenBy ops := by decide +kernel
  have hplay := play_loadProgram KeyState.allUp .allUp rfl entropy entropy ops ops' hfits hkeys
    [.cycle] (.inl hnumbers)
  exact ⟨rfl, hfits, hkeys, hnumbers, hplay.1⟩

/-- A machine that took a number before a program was loaded is not like a fresh one: with the same seed,
the same keys and the same program, the first number that the program takes is another one. -/
theorem loadProgram_keeps_random :
    let config : Config := { seed := some 42 }
    let entropy : ChaCha.Key := Vector.replicate 8 0
    let program : List UInt8 := [0xC0, 0xFF]
    let used := session KeyState.allUp config entropy [.loadProgram program, .cycle]
    let fresh := session KeyState.allUp config entropy []
    program.length ≤ maxProgramSize ∧ used.keypad = fresh.keypad ∧
      ((fresh.loadProgram program).machine.play [.cycle]).registers.get 0 = 0xA2 ∧
      ((used.loadProgram program).machine.play [.cycle]).registers.get 0 = 0x63 := by
  intro config entropy program used fresh
  decide +kernel

end Machine

end Chip8
