import Chip8.Proofs.Log

/-!
# Past the end of memory

A program counter has 16 bits, and memory takes up the first 4096 addresses only. From `0xFFF` on memory holds
no word, so a machine that gets there fetches zeros. A word that is zero is outside the instruction set, and
is the one such word that is passed over without a warning (`cycle_of_fetch_eq_zero`). `PassesOver` says what
a run over zeros comes to, wherever they are: nothing but the program counter changes, and nothing but the
words themselves is reported. It follows word by word (`passesOver_succ`).

What is left is to see where the program counter goes. It moves by two and starts over after the last address,
so it stays outside memory until it does (`toNat_pc_further_of_lt`), and then it is at 0 or at 1, because it
keeps its parity. `return_to_memory` puts both together. It is about machines that are not held, as are all
machines at the end of a session (`sound_session`).
-/

namespace Chip8

namespace Machine

variable {κ : Type}

/-! ## Further on in the program -/

/-- The machine with its program counter `count` words further on. -/
def further (m : Machine κ) (count : Nat) : Machine κ :=
  { m with pc := UInt16.ofNat (m.pc.toNat + 2 * count) }

/-- After the last address come those from zero on. -/
theorem toNat_pc_further (m : Machine κ) (count : Nat) :
    (m.further count).pc.toNat = (m.pc.toNat + 2 * count) % 65536 := UInt16.toNat_ofNat'

/-- Up to the last address the program counter only grows. -/
theorem toNat_pc_further_of_lt {m : Machine κ} {count : Nat} (h : m.pc.toNat + 2 * count < 65536) :
    (m.further count).pc.toNat = m.pc.toNat + 2 * count := by
  rw [toNat_pc_further, Nat.mod_eq_of_lt h]

/-- The machine itself is no word further on. -/
theorem further_zero (m : Machine κ) : m.further 0 = m := by
  unfold further
  rw [Nat.mul_zero, Nat.add_zero, UInt16.ofNat_toNat]

/-- A word further on than the next one is one more word further on. -/
theorem further_advance (m : Machine κ) (count : Nat) :
    m.advance.further count = m.further (count + 1) := by
  have hpc : UInt16.ofNat ((m.pc + 2).toNat + 2 * count) =
      UInt16.ofNat (m.pc.toNat + 2 * (count + 1)) := by
    apply UInt16.toNat_inj.1
    have htwo : (2 : UInt16).toNat = 2 := rfl
    -- As numbers the two places are the same, unless the step past the first word starts over.
    rw [UInt16.toNat_ofNat', UInt16.toNat_ofNat', UInt16.toNat_add, htwo]
    omega
  unfold further advance
  dsimp only
  rw [hpc]

/-- The machines on the way past some words: the machine itself, and those on the way from the next word. -/
theorem map_further_succ {α : Type} (m : Machine κ) (f : Machine κ → α) (count : Nat) :
    (List.range (count + 1)).map (fun i => f (m.further i)) =
      f m :: (List.range count).map fun i => f (m.advance.further i) := by
  rw [List.range_succ_eq_map, List.map_cons, further_zero, List.map_map]
  refine congrArg (f m :: ·) (List.map_congr_left fun i _ => ?_)
  rw [further_advance]
  rfl

variable [Keypad κ]

/-! ## Passing over zeros -/

/-- The keys that operations ask for, one after another. Only the cycles among them ask for any. -/
def asks (m : Machine κ) (operations : List (Operation κ)) : List UInt8 :=
  (m.executions operations).flatMap (·.cycle.asked)

/-- A word that is zero is passed over, without a question and without a warning. -/
theorem cycle_of_fetch_eq_zero {m : Machine κ} (hrunning : m.paused = false)
    (hzero : m.fetch m.pc = 0) :
    m.cycle = { result := (), machine := m.advance, events := [.executing (.unsupported 0) m.pc 0] } := by
  have hword : Instruction.ofWord 0 = .unsupported 0 :=
    Instruction.ofWord_of_forall_not_fits Pattern.not_fits_zero
  unfold cycle
  rw [if_neg (by simp [hrunning]), hzero]
  dsimp only
  rw [hword]
  rfl

/-- A run of `count` cycles passes over as many words, each of which is zero. -/
structure PassesOver (m : Machine κ) (count : Nat) : Prop where
  /-- The program counter moves past the words, and nothing else changes. -/
  run : m.run (List.replicate count .cycle) = m.further count
  /-- The words are executed one after another. -/
  executions : m.executions (List.replicate count .cycle) = (List.range count).map m.further
  /-- No key is asked for. -/
  asks : m.asks (List.replicate count .cycle) = []
  /-- Every cycle reports its word at its place, and nothing else. -/
  log : m.log (List.replicate count .cycle) =
    (List.range count).map fun i => .executing (.unsupported 0) (m.further i).pc 0

/-- A word that is zero is passed over together with the words that follow it. -/
theorem passesOver_succ {m : Machine κ} {count : Nat} (hrunning : m.paused = false)
    (hzero : m.fetch m.pc = 0) (hrest : m.advance.PassesOver count) : m.PassesOver (count + 1) := by
  have hcycle := cycle_of_fetch_eq_zero hrunning hzero
  have hexecuted : m.executions (List.replicate (count + 1) .cycle) =
      m :: m.advance.executions (List.replicate count .cycle) := by
    rw [List.replicate_succ, Machine.executions, perform, hcycle, executing, hrunning]
    rfl
  -- The parts are those of the machine past the first word, each with the first word put in front.
  constructor
  · calc m.run (List.replicate (count + 1) .cycle)
        = m.cycle.machine.run (List.replicate count .cycle) := rfl
      _ = m.advance.run (List.replicate count .cycle) := by rw [hcycle]
      _ = m.further (count + 1) := by rw [hrest.run, further_advance]
  · rw [hexecuted, hrest.executions]
    exact (m.map_further_succ id count).symm
  · have hasks := hrest.asks
    unfold Machine.asks at hasks ⊢
    rw [hexecuted, List.flatMap_cons, hcycle, hasks]
    rfl
  · calc m.log (List.replicate (count + 1) .cycle)
        = m.cycle.events ++ m.cycle.machine.log (List.replicate count .cycle) := rfl
      _ = .executing (.unsupported 0) m.pc 0 :: m.advance.log (List.replicate count .cycle) := by
          rw [hcycle]
          rfl
      _ = (List.range (count + 1)).map fun i => .executing (.unsupported 0) (m.further i).pc 0 := by
          rw [hrest.log]
          exact (m.map_further_succ (fun t => Event.executing (.unsupported 0) t.pc 0) count).symm

/-- Words that are all zero are passed over. -/
theorem passesOver_of_forall_fetch_eq_zero {m : Machine κ} (hrunning : m.paused = false) {count : Nat}
    (hzero : ∀ i < count, m.fetch (m.further i).pc = 0) : m.PassesOver count := by
  induction count generalizing m with
  | zero => exact ⟨m.further_zero.symm, rfl, rfl, rfl⟩
  | succ count ih =>
    have hfirst : m.fetch m.pc = 0 := by
      have h := hzero 0 (Nat.succ_pos count)
      rwa [further_zero] at h
    have hnext : m.advance.paused = false := hrunning
    -- Passing over the first word leaves memory alone, so behind it are the other zeros.
    have hrest : m.advance.PassesOver count := by
      apply ih hnext
      intro i hi
      rw [further_advance]
      exact hzero (i + 1) (Nat.succ_lt_succ hi)
    exact passesOver_succ hrunning hfirst hrest

namespace PassesOver

variable {m : Machine κ} {count : Nat}

/-- The program counter moves by two for each word, and starts over after the last address. -/
theorem toNat_pc (h : m.PassesOver count) :
    (m.run (List.replicate count .cycle)).pc.toNat = (m.pc.toNat + 2 * count) % 65536 := by
  rw [h.run, toNat_pc_further]

/-- No word is warned of. -/
theorem warnings_log (h : m.PassesOver count) : warnings (m.log (List.replicate count .cycle)) = [] := by
  rw [h.log]
  apply List.filter_eq_nil_iff.2
  intro e he
  obtain ⟨i, -, rfl⟩ := List.mem_map.1 he
  exact Bool.false_ne_true

end PassesOver

/-! ## The way back -/

/-- Outside memory there are only zeros up to the last address, so a machine passes over them until its
program counter starts over. -/
theorem passesOver_of_outside {m : Machine κ} (hrunning : m.paused = false)
    (houtside : 0xFFF ≤ m.pc.toNat) {count : Nat} (hcount : m.pc.toNat + 2 * count ≤ 65537) :
    m.PassesOver count := by
  apply passesOver_of_forall_fetch_eq_zero hrunning
  intro i hi
  -- The last cycle may take the program counter around, but it begins before.
  have hplace : (m.further i).pc.toNat = m.pc.toNat + 2 * i := toNat_pc_further_of_lt (by omega)
  apply Memory.fetch_eq_zero
  rw [hplace]
  exact Nat.succ_le_succ (Nat.le_add_right_of_le houtside)

/-- How a machine comes back that runs off the end of memory. From a place at which memory holds no word, it
takes half as many cycles as there are addresses from there on, rounded up. Up to and with the last of them
nothing changes but the program counter, which moves by two with every cycle, no key is asked for, and nothing
is reported but the words that are passed over, all of them zero, so that there is no warning.

Before the last of these cycles the program counter is never back in memory. After it, it is at address 0 if
it was even, and at address 1 if it was odd. -/
theorem return_to_memory (m : Machine κ) (hrunning : m.paused = false) (houtside : 0xFFF ≤ m.pc.toNat) :
    let back := (65536 - m.pc.toNat + 1) / 2
    let cycles (k : Nat) : List (Operation κ) := List.replicate k .cycle
    let place (k : Nat) : Nat := (m.run (cycles k)).pc.toNat
    (∀ k ≤ back,
      m.run (cycles k) = { m with pc := UInt16.ofNat (m.pc.toNat + 2 * k) } ∧
        place k = (m.pc.toNat + 2 * k) % 65536 ∧
        m.asks (cycles k) = [] ∧
        warnings (m.log (cycles k)) = [] ∧
        m.log (cycles k) = (List.range k).map fun i =>
          .executing (.unsupported 0) (UInt16.ofNat (m.pc.toNat + 2 * i)) 0) ∧
      (∀ k < back, place k = m.pc.toNat + 2 * k ∧ 0xFFF ≤ place k) ∧
      place back = m.pc.toNat % 2 := by
  intro back cycles place
  have hlast : m.pc.toNat < 65536 := m.pc.toNat_lt
  have hpasses {k : Nat} (hk : k ≤ back) : m.PassesOver k :=
    passesOver_of_outside hrunning houtside (by omega)
  refine ⟨fun k hk => ?_, fun k hk => ?_, ?_⟩
  · have h := hpasses hk
    exact ⟨h.run, h.toNat_pc, h.asks, h.warnings_log, h.log⟩
  · have hplace : place k = m.pc.toNat + 2 * k := by
      show (m.run (cycles k)).pc.toNat = m.pc.toNat + 2 * k
      rw [(hpasses (Nat.le_of_lt hk)).run]
      exact toNat_pc_further_of_lt (by omega)
    exact ⟨hplace, hplace ▸ Nat.le_add_right_of_le houtside⟩
  · calc place back
        = (m.pc.toNat + 2 * back) % 65536 := (hpasses (Nat.le_refl back)).toNat_pc
      _ = m.pc.toNat % 2 := by omega

/-- A program that jumps to the last address of memory, where there is one byte and no word. It is back in
memory after 30721 cycles, at the second byte of the glyphs. -/
theorem return_to_memory_last_byte :
    let m : Machine KeyState :=
      session KeyState.allUp {} (Vector.replicate 8 0) [.loadProgram [0x1F, 0xFF], .cycle]
    m.paused = false ∧ 0xFFF ≤ m.pc.toNat ∧
      (m.run (List.replicate 30721 .cycle)).pc.toNat = 1 ∧
      m.asks (List.replicate 30721 .cycle) = [] ∧
      warnings (m.log (List.replicate 30721 .cycle)) = [] := by
  intro m
  have hrunning : m.paused = false := by decide +kernel
  have hplace : m.pc.toNat = 0xFFF := by decide +kernel
  have houtside : 0xFFF ≤ m.pc.toNat := Nat.le_of_eq hplace.symm
  have hback : (65536 - m.pc.toNat + 1) / 2 = 30721 := by rw [hplace]
  -- Of the machine only its program counter matters from here on.
  clear_value m
  obtain ⟨hcycles, -, hreturn⟩ := m.return_to_memory hrunning houtside
  dsimp only at hreturn
  rw [hback, hplace] at hreturn
  obtain ⟨-, -, hasks, hwarnings, -⟩ := hcycles 30721 (Nat.le_of_eq hback.symm)
  exact ⟨hrunning, houtside, hreturn, hasks, hwarnings⟩

end Machine

end Chip8
