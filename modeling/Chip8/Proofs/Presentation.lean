import Chip8.Proofs.Footprint
import Chip8.Proofs.Session

/-!
# What was presented is what is shown

A host looks at the mark that the screen has changed, and presents the screen only then. The mark is
honest if a screen that was presented and is not marked is still the one that the sink received last.

`UpToDate` says this of a machine and the frames received so far. An operation that hands out nothing
either marks the screen or leaves both the screen and the mark alone (`screen_perform`), and presenting
hands out the marked screen, so every operation keeps a machine up to date (`UpToDate.perform`), except
that the mark may not be taken by anybody else. A session starts with the mark set, which is why its
first frame is never missing (`frames_session`).
-/

namespace Chip8

namespace Machine

variable {κ : Type}

/-! ## Presenting -/

/-- Presenting hands out the screen just when it is marked, and takes the mark. -/
theorem present_eq (m : Machine κ) :
    m.present = (if m.redraw then some m.pixels else none, { m with redraw := false }) := by
  rw [present, takeRedraw]
  cases m.redraw <;> rfl

/-! ## Changing the screen -/

/-- A program that is taken marks the screen, and one that is refused changes nothing. -/
theorem screen_loadProgram (m : Machine κ) (program : List UInt8) :
    (m.loadProgram program).machine.redraw = true ∨
      ((m.loadProgram program).machine.redraw = m.redraw ∧
        (m.loadProgram program).machine.pixels = m.pixels) := by
  rw [loadProgram]
  split
  · exact .inr ⟨rfl, rfl⟩
  · exact .inl rfl

/-- The frames that an operation hands to a sink. -/
def delivered (m : Machine κ) : Operation κ → List Pixels
  | .present => m.present.1.toList
  | _ => []

/-- Only `present` hands out frames. -/
theorem delivered_of_ne_present (m : Machine κ) {op : Operation κ} (h : op ≠ .present) :
    m.delivered op = [] := by
  cases op with
  | present => exact absurd rfl h
  | _ => rfl

variable [Keypad κ]

/-- A cycle that changes the screen marks it. -/
theorem screen_cycle (m : Machine κ) :
    m.cycle.machine.redraw = true ∨
      (m.cycle.machine.redraw = m.redraw ∧ m.cycle.machine.pixels = m.pixels) := by
  rcases same_cycle m .pixels with hpixels | ⟨p, hp, hexec⟩
  · rcases same_cycle m .redraw with hredraw | ⟨p, hp, hexec⟩
    · exact .inr ⟨hredraw, hpixels⟩
    · exact .inl (redraw_cycle hp hexec)
  · exact .inl (redraw_cycle hp hexec)

/-- An operation that neither presents the screen nor takes the mark sets the mark, or leaves the
screen and the mark alone. -/
theorem screen_perform (m : Machine κ) {op : Operation κ} (hpresent : op ≠ .present)
    (htake : op ≠ .takeRedraw) :
    (m.perform op).redraw = true ∨
      ((m.perform op).redraw = m.redraw ∧ (m.perform op).pixels = m.pixels) := by
  cases op with
  | present => exact absurd rfl hpresent
  | takeRedraw => exact absurd rfl htake
  | cycle => exact screen_cycle m
  | loadProgram program => exact screen_loadProgram m program
  | loadFile path contents =>
    cases contents with
    | none => exact .inr ⟨rfl, rfl⟩
    | some program => exact screen_loadProgram m program
  | restore bytes =>
    rw [perform, restore]
    split
    · exact .inr ⟨rfl, rfl⟩
    · exact .inl rfl
  | reset => exact .inl rfl
  | save | tick | keys | setClockRate => exact .inr ⟨rfl, rfl⟩

/-! ## The frames that a sink receives -/

/-- The frames that a sink receives while operations are carried out, the oldest first. -/
def frames (m : Machine κ) : List (Operation κ) → List Pixels
  | [] => []
  | op :: ops => m.delivered op ++ (m.perform op).frames ops

/-- Frames come in the order of the operations. -/
theorem frames_append (m : Machine κ) (ops later : List (Operation κ)) :
    m.frames (ops ++ later) = m.frames ops ++ (m.run ops).frames later := by
  induction ops generalizing m with
  | nil => rfl
  | cons op ops ih =>
    rw [List.cons_append, frames, frames, ih, List.append_assoc]
    rfl

/-- A screen that is not marked is the last frame received. -/
def UpToDate (m : Machine κ) (received : List Pixels) : Prop :=
  m.redraw = true ∨ received.getLast? = some m.pixels

/-- Every operation that leaves the mark to `present` keeps a machine up to date. -/
theorem UpToDate.perform {m : Machine κ} {received : List Pixels} (h : m.UpToDate received)
    {op : Operation κ} (htake : op ≠ .takeRedraw) :
    (m.perform op).UpToDate (received ++ m.delivered op) := by
  by_cases hpresent : op = .present
  · subst hpresent
    right
    rw [Machine.perform, delivered, present_eq]
    by_cases hmark : m.redraw = true
    · rw [if_pos hmark]
      exact List.getLast?_concat
    · -- Without the mark the screen was the last frame already.
      rw [if_neg hmark, Option.toList_none, List.append_nil]
      exact h.resolve_left hmark
  · rw [delivered_of_ne_present m hpresent, List.append_nil]
    rcases m.screen_perform hpresent htake with hmark | ⟨hmark, hpixels⟩
    · exact .inl hmark
    · rw [UpToDate, hmark, hpixels]
      exact h

/-- A machine stays up to date over operations. -/
theorem UpToDate.run {m : Machine κ} {received : List Pixels} (h : m.UpToDate received)
    {ops : List (Operation κ)} (htake : .takeRedraw ∉ ops) :
    (m.run ops).UpToDate (received ++ m.frames ops) := by
  induction ops generalizing m received with
  | nil =>
    rw [frames, List.append_nil]
    exact h
  | cons op ops ih =>
    have hop : op ≠ .takeRedraw := (List.ne_of_not_mem_cons htake).symm
    rw [frames, ← List.append_assoc]
    exact ih (h.perform hop) (List.not_mem_of_not_mem_cons htake)

/-- Until it is presented, a marked screen stays marked. -/
theorem redraw_run {m : Machine κ} (h : m.redraw = true) {ops : List (Operation κ)}
    (htake : .takeRedraw ∉ ops) (hpresent : .present ∉ ops) : (m.run ops).redraw = true := by
  induction ops generalizing m with
  | nil => exact h
  | cons op ops ih =>
    have hop : op ≠ .present := (List.ne_of_not_mem_cons hpresent).symm
    have hop' : op ≠ .takeRedraw := (List.ne_of_not_mem_cons htake).symm
    -- An operation that leaves the mark alone leaves it set.
    refine ih ?_ (List.not_mem_of_not_mem_cons htake) (List.not_mem_of_not_mem_cons hpresent)
    rcases m.screen_perform hop hop' with hmark | ⟨hmark, -⟩
    · exact hmark
    · rw [hmark, h]

/-- No frame is received before the first is presented. -/
theorem frames_eq_nil (m : Machine κ) {ops : List (Operation κ)} (hpresent : .present ∉ ops) :
    m.frames ops = [] := by
  induction ops generalizing m with
  | nil => rfl
  | cons op ops ih =>
    have hop : op ≠ .present := (List.ne_of_not_mem_cons hpresent).symm
    rw [frames, delivered_of_ne_present m hop, ih _ (List.not_mem_of_not_mem_cons hpresent)]
    rfl

/-- In a session that leaves the mark to `present`, a screen that is not marked is the last frame that
the sink received. A session starts with the mark, so its first `present` hands out a frame; every
`present` hands out the screen as it is if it is marked, and nothing otherwise, and leaves it without
the mark. -/
theorem frames_session (keypad : κ) (config : Config) (entropy : ChaCha.Key)
    (ops : List (Operation κ)) (htake : .takeRedraw ∉ ops) :
    let fresh := new keypad config entropy
    let m := session keypad config entropy ops
    (m.redraw = false → (fresh.frames ops).getLast? = some m.pixels) ∧
      (fresh.redraw = true ∧
        (.present ∉ ops → fresh.frames (ops ++ [.present]) = [m.pixels])) ∧
      fresh.frames (ops ++ [.present]) =
        fresh.frames ops ++ (if m.redraw then [m.pixels] else []) ∧
      (session keypad config entropy (ops ++ [.present])).redraw = false := by
  intro fresh m
  have hdate : m.UpToDate ([] ++ fresh.frames ops) := UpToDate.run (.inl rfl) htake
  have hnext : fresh.frames (ops ++ [.present]) =
      fresh.frames ops ++ (if m.redraw then [m.pixels] else []) := by
    have hlast : m.frames [.present] = if m.redraw then [m.pixels] else [] := by
      rw [frames, frames, List.append_nil, delivered, present_eq]
      split <;> rfl
    rw [frames_append, ← hlast]
    rfl
  refine ⟨fun hmark => ?_, ⟨rfl, fun hpresent => ?_⟩, hnext, ?_⟩
  · rw [List.nil_append] at hdate
    exact hdate.resolve_left (by rw [hmark]; exact Bool.false_ne_true)
  · have hmark : m.redraw = true := redraw_run rfl htake hpresent
    rw [hnext, frames_eq_nil fresh hpresent, hmark]
    rfl
  · have hend : session keypad config entropy (ops ++ [.present]) = m.present.2 := by
      rw [session, run, List.foldl_append]
      rfl
    rw [hend, present_eq]

/-- A program that draws the digit 0 into the corner of the screen, which is presented before and after. A
refused snapshot and a tick of the timers then leave it as it was presented. -/
theorem frames_session_refused_snapshot :
    let entropy : ChaCha.Key := Vector.replicate 8 0
    let ops : List (Operation KeyState) :=
      [.loadProgram [0xD0, 0x05], .present, .cycle, .present, .restore [], .tick]
    let fresh := new KeyState.allUp {} entropy
    let m := session KeyState.allUp {} entropy ops
    .takeRedraw ∉ ops ∧ m.redraw = false ∧
      m.pixels.toList.take 8 = [1, 1, 1, 1, 0, 0, 0, 0] ∧
      (fresh.frames ops).length = 2 ∧ (fresh.frames ops).getLast? = some m.pixels := by
  intro entropy ops fresh m
  have htake : .takeRedraw ∉ ops := by simp [ops]
  have hmark : m.redraw = false := by decide +kernel
  have hcorner : m.pixels.toList.take 8 = [1, 1, 1, 1, 0, 0, 0, 0] := by decide +kernel
  have htwice : (fresh.frames ops).length = 2 := by decide +kernel
  have hshown := (frames_session KeyState.allUp {} entropy ops htake).1
  exact ⟨htake, hmark, hcorner, htwice, hshown hmark⟩

end Machine

end Chip8
