import Chip8.Proofs.Checked.Agreement
import Chip8.Proofs.Session

/-!
# No session leaves the bounds

`Checked.run` carries out the operations of a session with the checks of `Checked.cycle` around each
cycle. A session never meets a fault (`session_within_bounds`): the machine stays sound
(`Machine.Sound.perform`), so its stack pointer is within the stack before every cycle, and nothing
else is needed for a cycle to end (`Checked.cycle_eq`). The program counter, I, the registers and
the stack can hold anything by then, because programs and snapshots put there what they like.
-/

namespace Chip8

namespace Checked

variable {κ : Type} [Keypad κ]

/-- The machine after an operation, where a cycle checks its accesses and its numbers. -/
def perform (m : Machine κ) : Operation κ → Checked (Machine κ)
  | .cycle => do return (← cycle m).machine
  | op => return m.perform op

/-- The machine after operations, one after another, or the first fault that a cycle meets. -/
def run (m : Machine κ) (operations : List (Operation κ)) : Checked (Machine κ) :=
  operations.foldlM perform m

/-- No operation on a sound machine meets a fault. -/
theorem perform_eq {m : Machine κ} (h : m.Sound) (op : Operation κ) :
    perform m op = .ok (m.perform op) := by
  cases op with
  | cycle =>
    rw [perform, cycle_eq m h.valid.sp_le]
    rfl
  | _ => rfl

/-- Operations on a sound machine end with their results, because each leaves it sound for the
next. -/
theorem run_eq {m : Machine κ} (h : m.Sound) (operations : List (Operation κ)) :
    run m operations = .ok (m.run operations) := by
  induction operations generalizing m with
  | nil => rfl
  | cons op operations ih =>
    rw [run, List.foldlM_cons, perform_eq h, ok_bind]
    exact ih (h.perform op)

end Checked

variable {κ : Type} [Keypad κ]

/-- After every session at most sixteen calls are in progress, every pixel is dark or lit and the
machine is not held, and no cycle of the session left an array or formed a number that does not fit
its width. -/
theorem session_within_bounds (keypad : κ) (config : Config) (entropy : ChaCha.Key)
    (operations : List (Operation κ)) :
    (Machine.session keypad config entropy operations).sp.toNat ≤ 16 ∧
      (∀ p ∈ (Machine.session keypad config entropy operations).pixels, p = 0 ∨ p = 1) ∧
      (Machine.session keypad config entropy operations).paused = false ∧
      Checked.run (Machine.new keypad config entropy) operations =
        .ok (Machine.session keypad config entropy operations) := by
  have hsound := Machine.sound_session keypad config entropy operations
  refine ⟨hsound.valid.sp_le, ?_, hsound.running, ?_⟩
  · intro p hp
    exact Pixels.dark_or_lit (hsound.valid.pixel_le p hp)
  · exact Checked.run_eq (Machine.sound_new keypad config entropy) operations

end Chip8
