import Chip8.Machine.Storage
import Chip8.Proofs.Frame
import Chip8.Proofs.Snapshot.Checks

/-!
# Sessions

What a host does with a machine is a list of operations, and a session is such a list carried out
from a machine that was just switched on. An operation that refuses its input is part of a session
like any other.

A machine is sound when its state is valid and it is not held. `Machine.Sound.perform` shows that
every operation keeps a machine sound, whatever program it runs and whatever bytes it is given, and
`sound_session` that every session leads to a sound machine. The stack pointer is safe because the
only two instructions that move it look at it first, and the pixels because drawing toggles them;
a snapshot is checked before it is taken.
-/

namespace Chip8

/-! ## Operations -/

/-- Something that a host can do with a machine. -/
inductive Operation (κ : Type) where
  /-- Starts over with a program. -/
  | loadProgram (program : List UInt8)
  /-- Starts over with the program of a file that may be unreadable. -/
  | loadFile (path : String) (contents : Option (List UInt8))
  /-- Goes on from a snapshot. -/
  | restore (bytes : List UInt8)
  /-- Writes a snapshot. -/
  | save
  /-- Starts over. -/
  | reset
  /-- Executes one instruction. -/
  | cycle
  /-- Counts the timers down. -/
  | tick
  /-- Changes the keypad in any way. -/
  | keys (change : κ → κ)
  /-- Changes the instruction rate. -/
  | setClockRate (rate : UInt32)
  /-- Asks whether the screen changed. -/
  | takeRedraw
  /-- Presents the screen. -/
  | present

namespace Machine

variable {κ : Type} [Keypad κ]

/-- The machine after an operation. -/
def perform (m : Machine κ) : Operation κ → Machine κ
  | .loadProgram program => (m.loadProgram program).machine
  | .loadFile path contents => (m.loadFile path contents).machine
  | .restore bytes => (m.restore bytes).machine
  | .save => m.save.machine
  | .reset => m.reset
  | .cycle => m.cycle.machine
  | .tick => m.tick
  | .keys change => m.withKeypad change
  | .setClockRate rate => m.setClockRate rate
  | .takeRedraw => m.takeRedraw.2
  | .present => m.present.2

/-- The machine after operations, one after another. -/
def run (m : Machine κ) (operations : List (Operation κ)) : Machine κ := operations.foldl perform m

/-- The machine at the end of a session: operations on a machine that was just switched on. -/
def session (keypad : κ) (config : Config) (entropy : ChaCha.Key)
    (operations : List (Operation κ)) : Machine κ :=
  (new keypad config entropy).run operations

end Machine

/-! ## Pixels are dark or lit -/

namespace Pixels

/-- Every pixel is dark or lit. -/
def Binary (pixels : Pixels) : Prop := ∀ p ∈ pixels, p ≤ 1

/-- A dark screen has dark pixels only. -/
theorem binary_dark : Binary dark := by
  intro p hp
  rw [dark, Vector.mem_replicate] at hp
  rw [hp.2]
  decide

/-- A pixel that is at most one is dark or lit. -/
theorem dark_or_lit {p : UInt8} (h : p ≤ 1) : p = 0 ∨ p = 1 := by
  rw [UInt8.le_iff_toNat_le] at h
  rcases Nat.le_one_iff_eq_zero_or_eq_one.1 h with h0 | h1
  · exact .inl (UInt8.toNat_inj.1 h0)
  · exact .inr (UInt8.toNat_inj.1 h1)

/-- A toggled pixel is dark or lit if it was before. -/
theorem toggled_le_one {p : UInt8} (h : p ≤ 1) : p ^^^ 1 ≤ 1 := by
  rcases dark_or_lit h with rfl | rfl <;> decide

/-- Toggling a pixel leaves all of them dark or lit. -/
theorem Binary.toggle {pixels : Pixels} (h : pixels.Binary) (p : Fin pixelCount) :
    Binary (pixels.toggle p) := by
  intro q hq
  rcases Vector.mem_or_eq_of_mem_set hq with hq | rfl
  · exact h q hq
  · exact toggled_le_one (h _ (Vector.getElem_mem _))

/-- So does toggling pixels one after another. -/
theorem Binary.toggleAll {pixels : Pixels} (h : pixels.Binary) (ps : List (Fin pixelCount)) :
    Binary (pixels.toggleAll ps) := by
  induction ps generalizing pixels with
  | nil => exact h
  | cons p ps ih => exact ih (h.toggle p)

end Pixels

namespace Machine

variable {κ : Type}

/-! ## Soundness -/

/-- The state is valid and the machine is not held. -/
structure Sound (m : Machine κ) : Prop where
  /-- The stack pointer is within the stack and every pixel is dark or lit. -/
  valid : m.toState.Valid
  /-- The machine executes instructions. -/
  running : m.paused = false

/-- A call leaves the stack pointer within the stack. -/
theorem call_sp_le (m : Machine κ) (target : Address) (h : m.sp.toNat ≤ 16) :
    (m.call target).machine.sp.toNat ≤ 16 := by
  unfold call
  split
  · next hroom =>
    have hnext := toNat_sp_add_one hroom
    show (m.sp + 1).toNat ≤ 16
    omega
  · exact h

/-- A return leaves the stack pointer within the stack. -/
theorem ret_sp_le (m : Machine κ) (h : m.sp.toNat ≤ 16) : m.ret.machine.sp.toNat ≤ 16 := by
  unfold ret
  split
  · exact h
  · next hsp =>
    have hnext := toNat_sp_sub_one hsp
    show (m.sp - 1).toNat ≤ 16
    omega

section

variable [Keypad κ]

/-- Every instruction keeps the state valid. -/
theorem valid_execute (m : Machine κ) (i : Instruction) (h : m.toState.Valid) :
    (m.execute i).machine.toState.Valid := by
  -- A plain instruction leaves both halves of validity alone; the other four are looked at.
  by_cases hplain : i.IsPlain
  · have hsame := sameStackAndScreen_execute m hplain
    exact ⟨hsame.sp ▸ h.sp_le, hsame.pixels ▸ h.pixel_le⟩
  cases i with
  | clear => exact ⟨h.sp_le, Pixels.binary_dark⟩
  | draw x y height => exact ⟨h.sp_le, Pixels.Binary.toggleAll h.pixel_le _⟩
  | call target =>
    refine ⟨call_sp_le m target h.sp_le, ?_⟩
    simp only [execute, call, Outcome.quiet]
    split <;> exact h.pixel_le
  | ret =>
    refine ⟨ret_sp_le m h.sp_le, ?_⟩
    simp only [execute, ret, Outcome.quiet]
    split <;> exact h.pixel_le
  | _ => exact (hplain trivial).elim

/-- A cycle keeps a machine sound. -/
theorem Sound.cycle {m : Machine κ} (h : m.Sound) : m.cycle.machine.Sound := by
  rw [Machine.cycle, if_neg (by simp [h.running])]
  refine ⟨valid_execute m _ h.valid, ?_⟩
  rw [(sameHost_execute m _).paused, h.running]

end

/-- The state of a machine that was just switched on is valid. -/
theorem valid_initial : State.initial.Valid := ⟨Nat.zero_le 16, Pixels.binary_dark⟩

/-- A machine that was just switched on is sound. -/
theorem sound_new (keypad : κ) (config : Config) (entropy : ChaCha.Key) :
    (new keypad config entropy).Sound := ⟨valid_initial, rfl⟩

/-- A program that is refused changes nothing, and one that is taken changes only the memory of a
fresh machine. -/
theorem Sound.loadProgram {m : Machine κ} (h : m.Sound) (program : List UInt8) :
    (m.loadProgram program).machine.Sound := by
  unfold Machine.loadProgram
  split
  · exact h
  · exact ⟨⟨valid_initial.sp_le, valid_initial.pixel_le⟩, rfl⟩

/-- So does the program of a file. -/
theorem Sound.loadFile {m : Machine κ} (h : m.Sound) (path : String)
    (contents : Option (List UInt8)) : (m.loadFile path contents).machine.Sound := by
  cases contents with
  | none => exact h
  | some program => exact h.loadProgram program

/-- A state is only taken from a snapshot that was checked. -/
theorem Sound.restore {m : Machine κ} (h : m.Sound) (bytes : List UInt8) :
    (m.restore bytes).machine.Sound := by
  unfold Machine.restore
  split
  · exact h
  · next state hstate => exact ⟨Snapshot.valid_of_stateOf hstate, rfl⟩

/-- Presenting the screen changes nothing but the mark that it has changed. -/
theorem Sound.present {m : Machine κ} (h : m.Sound) : m.present.2.Sound := by
  unfold Machine.present
  split <;> next heq => exact (Prod.mk.inj heq).2 ▸ ⟨h.valid, h.running⟩

/-! ## Sessions -/

variable [Keypad κ]

/-- Every operation keeps a machine sound, also one that refuses its input. -/
theorem Sound.perform {m : Machine κ} (h : m.Sound) (op : Operation κ) : (m.perform op).Sound := by
  cases op with
  | loadProgram program => exact h.loadProgram program
  | loadFile path contents => exact h.loadFile path contents
  | restore bytes => exact h.restore bytes
  | save => exact ⟨h.valid, rfl⟩
  | reset => exact ⟨valid_initial, rfl⟩
  | cycle => exact h.cycle
  | tick => exact ⟨⟨h.valid.sp_le, h.valid.pixel_le⟩, h.running⟩
  | keys | setClockRate | takeRedraw => exact ⟨h.valid, h.running⟩
  | present => exact h.present

/-- A machine stays sound over operations. -/
theorem Sound.run {m : Machine κ} (h : m.Sound) (operations : List (Operation κ)) :
    (m.run operations).Sound := by
  induction operations generalizing m with
  | nil => exact h
  | cons op operations ih => exact ih (h.perform op)

/-- Every session leads to a sound machine. -/
theorem sound_session (keypad : κ) (config : Config) (entropy : ChaCha.Key)
    (operations : List (Operation κ)) : (session keypad config entropy operations).Sound :=
  (sound_new keypad config entropy).run operations

end Machine

/-! ## Playing -/

/-- Something that happens to a machine while a program is played. -/
inductive Step (κ : Type) where
  /-- Executes one instruction. -/
  | cycle
  /-- Counts the timers down. -/
  | tick
  /-- Changes the keypad in any way. -/
  | keys (change : κ → κ)

/-- The operation that a step is. -/
def Step.operation {κ : Type} : Step κ → Operation κ
  | cycle => .cycle
  | tick => .tick
  | keys change => .keys change

/-- No step presents the screen. -/
theorem Step.present_not_mem {κ : Type} (steps : List (Step κ)) :
    .present ∉ steps.map Step.operation := by
  rw [List.mem_map]
  rintro ⟨s, -, hs⟩
  cases s <;> exact nomatch hs

/-- No step takes the mark that the screen has changed. -/
theorem Step.takeRedraw_not_mem {κ : Type} (steps : List (Step κ)) :
    .takeRedraw ∉ steps.map Step.operation := by
  rw [List.mem_map]
  rintro ⟨s, -, hs⟩
  cases s <;> exact nomatch hs

/-- The machine after steps, one after another. -/
def Machine.play {κ : Type} [Keypad κ] (m : Machine κ) (steps : List (Step κ)) : Machine κ :=
  m.run (steps.map Step.operation)

/-! ## What is executed -/

namespace Machine

variable {κ : Type}

/-- The machine that executes an instruction in an operation, as it is just before. -/
def executing (m : Machine κ) : Operation κ → List (Machine κ)
  | .cycle => if m.paused then [] else [m]
  | _ => []

variable [Keypad κ]

/-- The machines that execute the instructions of operations, one after another. -/
def executions (m : Machine κ) : List (Operation κ) → List (Machine κ)
  | [] => []
  | op :: ops => m.executing op ++ (m.perform op).executions ops

/-- The words that are executed in steps, one after another. -/
def wordsPlayed (m : Machine κ) (steps : List (Step κ)) : List UInt16 :=
  (m.executions (steps.map Step.operation)).map fun t => t.fetch t.pc

end Machine

end Chip8
