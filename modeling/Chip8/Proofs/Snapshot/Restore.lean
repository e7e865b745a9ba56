import Chip8.Proofs.Session

/-!
# Restoring what was saved

`Machine.restore` does what the judgement of the bytes says (`restore_of_ok`, `restore_of_error`),
so what is left is to know the judgement. The bytes that are written for a snapshot are judged as
the snapshot is, whatever follows them (`Snapshot.stateOf_encode_append`).

Two statements follow. What a session saves can be restored into any machine, which then has the
state of the session and saves the same bytes (`restore_save_session`); this rests on the soundness
of sessions, because a state out of range would be refused. And the bytes of any snapshot are taken
just when the snapshot is well formed, refused for its first fault otherwise, and change nothing
when they are refused (`restore_encode_checked`).
-/

namespace Chip8

/-- The bytes of a snapshot are judged as the snapshot is, whatever follows them. -/
theorem Snapshot.stateOf_encode_append {s : Snapshot} (h : s.Fits) (rest : List UInt8) :
    stateOf (s.encode ++ rest) = s.state := by
  rw [stateOf, decode?_encode s h]

/-- So are the bytes alone. -/
theorem Snapshot.stateOf_encode {s : Snapshot} (h : s.Fits) : stateOf s.encode = s.state := by
  simpa using stateOf_encode_append h []

namespace Machine

variable {κ : Type}

/-! ## Restoring -/

/-- A machine goes on from the state that the bytes are a snapshot of. -/
theorem restore_of_ok (t : Machine κ) {bytes : List UInt8} {st : State}
    (h : Snapshot.stateOf bytes = .ok st) :
    t.restore bytes =
      { result := .ok ()
        machine := { t with toState := st, redraw := true, paused := false }
        events := [.stateLoaded st.pc] } := by
  rw [restore, h]
  rfl

/-- A machine is left alone by bytes that are no snapshot of a state. -/
theorem restore_of_error (t : Machine κ) {bytes : List UInt8} {e : SnapshotError}
    (h : Snapshot.stateOf bytes = .error e) :
    t.restore bytes = { result := .error (.snapshot e), machine := t } := by
  rw [restore, h]

/-- Bytes are taken just when they are the snapshot of a state. -/
theorem restore_result_eq_ok_iff (t : Machine κ) (bytes : List UInt8) :
    (t.restore bytes).result = .ok () ↔ ∃ st, Snapshot.stateOf bytes = .ok st := by
  rcases h : Snapshot.stateOf bytes with e | st
  · simp [restore_of_error t h]
  · simp [restore_of_ok t h]

/-- Bytes are refused just for the error of the snapshot. -/
theorem restore_result_eq_error_iff (t : Machine κ) (bytes : List UInt8) (e : LoadError) :
    (t.restore bytes).result = .error e ↔
      ∃ fault, Snapshot.stateOf bytes = .error fault ∧ e = .snapshot fault := by
  rcases h : Snapshot.stateOf bytes with fault | st
  · simp [restore_of_error t h, eq_comm]
  · simp [restore_of_ok t h]

/-- Whatever the bytes, a machine that refuses them is left alone. -/
theorem machine_restore_of_error (t : Machine κ) {bytes : List UInt8} {e : LoadError}
    (h : (t.restore bytes).result = .error e) : (t.restore bytes).machine = t := by
  obtain ⟨fault, hfault, -⟩ := (restore_result_eq_error_iff t bytes e).1 h
  rw [restore_of_error t hfault]

/-! ## Round trip -/

/-- What is saved of a valid state is judged to be that state. -/
theorem stateOf_save {s : Machine κ} (h : s.toState.Valid) :
    Snapshot.stateOf s.save.result = .ok s.toState := by
  rw [save, Snapshot.stateOf_encode s.toState.fits_snapshot, h.state_snapshot]

/-- What a session saves can be restored into any machine: it takes over the whole state of the
session and asks for the screen to be drawn, keeps its keypad, its preferences and its random
numbers, and then saves the same bytes. -/
theorem restore_save_session {κ' : Type} [Keypad κ] (keypad : κ) (config : Config)
    (entropy : ChaCha.Key) (operations : List (Operation κ)) (t : Machine κ') :
    let s := session keypad config entropy operations
    let restored := t.restore s.save.result
    restored.result = .ok () ∧
      restored.machine.toState = s.toState ∧
      restored.machine.redraw = true ∧
      restored.machine.paused = false ∧
      restored.machine.keypad = t.keypad ∧
      restored.machine.config = t.config ∧
      restored.machine.random = t.random ∧
      restored.machine.save.result = s.save.result := by
  intro s restored
  have hsound : s.Sound := sound_session keypad config entropy operations
  have hstate : Snapshot.stateOf s.save.result = .ok s.toState := stateOf_save hsound.valid
  have hrestored : restored = _ := restore_of_ok t hstate
  rw [hrestored]
  exact ⟨rfl, rfl, rfl, rfl, rfl, rfl, rfl, rfl⟩

/-! ## Refusals -/

/-- The bytes of a snapshot are taken just when the snapshot has the lengths of a state, its stack
pointer is within the stack and its pixels are dark or lit. Otherwise they are refused for the first
fault of the snapshot, and a length at fault is reported with the length that was expected. Bytes
that are refused, of a snapshot or not, leave the whole machine as it was. -/
theorem restore_encode_checked (s : Snapshot) (h : s.Fits) (t : Machine κ) :
    ((t.restore s.encode).result = .ok () ↔
        s.registers.length = 16 ∧ s.stack.length = 16 ∧ s.memory.length = 4096 ∧
          s.pixels.length = 2048 ∧ s.sp.toNat ≤ 16 ∧ ∀ p ∈ s.pixels, p ≤ 1) ∧
      (∀ e, (t.restore s.encode).result = .error e ↔
        ∃ fault, s.FirstFault fault ∧ e = .snapshot fault) ∧
      (∀ field actual, s.FirstFault (.length field actual) →
        ∃ expected,
          (field, actual, expected) ∈
              [(.registers, s.registers.length, 16), (.stack, s.stack.length, 16),
                (.memory, s.memory.length, 4096), (.pixels, s.pixels.length, 2048)] ∧
            actual ≠ expected ∧
            (SnapshotError.length field actual).message =
              "snapshot field `" ++ field.name ++ "` holds " ++ toString actual ++
                " entries, expected " ++ toString expected) ∧
      ∀ (bytes : List UInt8) (e : LoadError), (t.restore bytes).result = .error e →
        (t.restore bytes).machine = t := by
  have hstate := Snapshot.stateOf_encode h
  refine ⟨?_, ?_, fun field actual => Snapshot.FirstFault.length_spec, ?_⟩
  · rw [restore_result_eq_ok_iff, hstate, Snapshot.exists_state_eq_ok_iff,
      Snapshot.wellFormed_iff]
  · intro e
    simp only [restore_result_eq_error_iff, hstate, Snapshot.state_eq_error_iff]
  · intro bytes e he
    exact machine_restore_of_error t he

/-- A snapshot with sixteen registers and nothing else, and a stack pointer that is out of range. -/
theorem restore_encode_checked_empty_stack :
    let s : Snapshot := ⟨0, 17, 0, List.replicate 16 0, [], [], [2], 0, 0⟩
    let t : Machine Unit := new () {} (Vector.replicate 8 0)
    s.Fits ∧ (t.restore s.encode).result = .error (.snapshot (.length .stack 0)) := by
  intro s t
  have hfits : s.Fits := by constructor <;> decide
  have hfault : s.FirstFault (.length .stack 0) :=
    .length [(.registers, 16)] [(.memory, 0), (.pixels, 1)] .stack 0 rfl (by decide) (by decide)
  exact ⟨hfits, ((restore_encode_checked s hfits t).2.1 _).2 ⟨_, hfault, rfl⟩⟩

end Machine

end Chip8
