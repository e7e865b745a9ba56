import Chip8.Proofs.Disturbance
import Chip8.Proofs.Keys
import Chip8.Proofs.Pacing

/-!
# When the host acts

A host counts the timers down and moves keys between the cycles of a machine. As long as no instruction looks
at the timers, it does not matter between which cycles they are counted down, and as long as none asks for a
key, it does not matter when the keys are moved.

Both are the same argument. A step of the host is a disturbance, so it can be exchanged with a cycle that
spares it (`cycle_disturb`). `PutsOff` says that the steps of one kind can be exchanged with all others, as
long as certain patterns are not executed. One such step can then be put off to the end of any steps of other
kinds (`PutsOff.perform_play`), and by induction over the steps so can all of them (`PutsOff.play_eq`). The
words that are executed stay the same on the way, also where a program changes itself, because no step of the
host touches memory or the program counter.
-/

namespace Chip8

variable {κ : Type}

namespace Pattern

/-- The patterns whose instructions look at the timers: `FX07`, `FX15` and `FX18`. -/
def timerUsers : List Pattern := [.readDelay, .setDelay, .setSound]

end Pattern

namespace Step

/-- Whether a step moves keys. -/
def isKeys : Step κ → Bool
  | .keys _ => true
  | _ => false

/-- The ticks among steps differ in nothing but their number. -/
theorem filter_isTick (steps : List (Step κ)) :
    steps.filter isTick = List.replicate (steps.countP isTick) .tick := by
  rw [List.eq_replicate_iff, List.countP_eq_length_filter]
  refine ⟨rfl, fun s hs => ?_⟩
  cases s with
  | tick => rfl
  | cycle | keys => exact absurd (List.mem_filter.1 hs).2 Bool.false_ne_true

end Step

/-! ## Steps of the host -/

namespace Machine

/-- The next instruction is the same, and is executed in both machines or in neither. -/
structure SameNext (m m' : Machine κ) : Prop where
  /-- The word at the program counter is the same. -/
  word : m'.fetch m'.pc = m.fetch m.pc
  /-- Both machines are held or neither is. -/
  paused : m'.paused = m.paused

namespace SameNext

variable {m m' : Machine κ}

theorem executes (h : SameNext m m') (p : Pattern) : m'.executes p = m.executes p := by
  rw [Machine.executes, Machine.executes, h.paused, h.word]

/-- An operation executes the same word in both. -/
theorem map_executing (h : SameNext m m') (op : Operation κ) :
    (m'.executing op).map (fun t => t.fetch t.pc) = (m.executing op).map fun t => t.fetch t.pc := by
  cases op with
  | cycle =>
    simp only [executing, h.paused]
    split
    · rfl
    · simp only [List.map_cons, List.map_nil, h.word]
  | _ => rfl

end SameNext

/-- A step of the host executes nothing. -/
theorem executing_eq_nil (m : Machine κ) {s : Step κ} (h : s ≠ .cycle) :
    m.executing s.operation = [] := by
  cases s with
  | cycle => exact absurd rfl h
  | tick | keys change => rfl

variable [Keypad κ]

/-- No step of the host touches the next instruction. -/
theorem sameNext_perform (m : Machine κ) {s : Step κ} (h : s ≠ .cycle) :
    SameNext m (m.perform s.operation) := by
  cases s with
  | cycle => exact absurd rfl h
  | tick | keys change => exact ⟨rfl, rfl⟩

/-- Counting the timers down is a disturbance of the timers. -/
theorem cycle_tick {m : Machine κ} (h : ∀ p ∈ Pattern.timerUsers, ¬ m.executes p) :
    m.tick.cycle.machine = m.cycle.machine.tick := by
  refine cycle_disturb (d := { delay := countDown, sound := countDown }) fun p hp => ?_
  cases p with
  | readDelay | setDelay | setSound => exact absurd hp (h _ (by decide))
  | awaitKey | skipPressed | skipReleased | random => rfl
  | _ => trivial

/-- Moving keys is a disturbance of the keypad. -/
theorem cycle_withKeypad {m : Machine κ} (change : κ → κ)
    (h : ∀ p ∈ Pattern.askers, ¬ m.executes p) :
    (m.withKeypad change).cycle.machine = m.cycle.machine.withKeypad change := by
  refine cycle_disturb (d := { keypad := change }) fun p hp => ?_
  cases p with
  | awaitKey | skipPressed | skipReleased => exact absurd hp (h _ (by decide))
  | readDelay | setDelay | setSound | random => rfl
  | _ => trivial

end Machine

/-! ## Putting steps off -/

variable [Keypad κ]

/-- The steps of a kind can be put off: each of them can be exchanged with a step of another kind, if that
is no cycle which executes one of the patterns. -/
structure PutsOff (kind : Step κ → Bool) (patterns : List Pattern) : Prop where
  /-- A cycle is none of them. -/
  kind_cycle : kind .cycle = false
  /-- A step of the kind, and then one of another kind, may be taken the other way round. -/
  perform_comm : ∀ {m : Machine κ} {s t : Step κ}, kind s = true → kind t = false →
    (t = .cycle → ∀ p ∈ patterns, ¬ m.executes p) →
      (m.perform s.operation).perform t.operation = (m.perform t.operation).perform s.operation

/-- None of the patterns is among the words that are executed in the steps. -/
def Machine.Avoids (m : Machine κ) (patterns : List Pattern) (steps : List (Step κ)) : Prop :=
  ∀ word ∈ m.wordsPlayed steps, ∀ p ∈ patterns, ¬ p.fits word

instance (m : Machine κ) (patterns : List Pattern) (steps : List (Step κ)) :
    Decidable (m.Avoids patterns steps) :=
  decidable_of_iff ((m.wordsPlayed steps).all fun word => patterns.all fun p => !p.fits word)
    (by simp [Machine.Avoids])

namespace Machine

/-- The words of the first step come first. -/
theorem wordsPlayed_cons (m : Machine κ) (s : Step κ) (steps : List (Step κ)) :
    m.wordsPlayed (s :: steps) =
      (m.executing s.operation).map (fun t => t.fetch t.pc) ++
        (m.perform s.operation).wordsPlayed steps := by
  rw [wordsPlayed, List.map_cons, executions, List.map_append, wordsPlayed]

namespace Avoids

variable {m : Machine κ} {patterns : List Pattern} {s : Step κ} {steps : List (Step κ)}

theorem tail (h : m.Avoids patterns (s :: steps)) : (m.perform s.operation).Avoids patterns steps := by
  intro word hword
  refine h word ?_
  rw [wordsPlayed_cons]
  exact List.mem_append_right _ hword

theorem not_executes (h : m.Avoids patterns (.cycle :: steps)) : ∀ p ∈ patterns, ¬ m.executes p := by
  intro p hp hexec
  obtain ⟨hrunning, hfits⟩ := executes_iff.1 hexec
  refine h (m.fetch m.pc) ?_ p hp hfits
  rw [wordsPlayed_cons]
  exact List.mem_append_left _ (by simp [executing, Step.operation, hrunning])

end Avoids

end Machine

namespace PutsOff

variable {kind : Step κ → Bool} {patterns : List Pattern}

/-- A step of the kind is one of the host. -/
theorem ne_cycle (h : PutsOff kind patterns) {s : Step κ} (hs : kind s = true) : s ≠ .cycle := by
  intro hcycle
  rw [hcycle, h.kind_cycle] at hs
  exact Bool.false_ne_true hs

/-- One step of the kind can be put off to the end of steps of other kinds, and the same words are executed
in them. -/
theorem perform_play (h : PutsOff kind patterns) {m : Machine κ} {s : Step κ} (hs : kind s = true)
    {others : List (Step κ)} (hothers : ∀ t ∈ others, kind t = false)
    (havoids : m.Avoids patterns others) :
    (m.perform s.operation).play others = (m.play others).perform s.operation ∧
      (m.perform s.operation).wordsPlayed others = m.wordsPlayed others := by
  induction others generalizing m with
  | nil => exact ⟨rfl, rfl⟩
  | cons t others ih =>
    have hcomm := h.perform_comm (m := m) hs (hothers t List.mem_cons_self) fun hcycle =>
      (hcycle ▸ havoids).not_executes
    obtain ⟨hplay, hwords⟩ := ih (fun u hu => hothers u (List.mem_cons_of_mem t hu)) havoids.tail
    constructor
    · calc (m.perform s.operation).play (t :: others)
          = ((m.perform s.operation).perform t.operation).play others := rfl
        _ = ((m.perform t.operation).perform s.operation).play others := by rw [hcomm]
        _ = (m.play (t :: others)).perform s.operation := hplay
    · have hnext := m.sameNext_perform (h.ne_cycle hs)
      rw [Machine.wordsPlayed_cons, Machine.wordsPlayed_cons, hnext.map_executing, hcomm, hwords]

/-- All steps of the kind can be put off to the end of the others, in their order, and the same words are
executed in the others. -/
theorem play_eq (h : PutsOff kind patterns) {m : Machine κ} {steps : List (Step κ)}
    (havoids : m.Avoids patterns (steps.filter (!kind ·))) :
    m.play steps = (m.play (steps.filter (!kind ·))).play (steps.filter kind) ∧
      m.wordsPlayed steps = m.wordsPlayed (steps.filter (!kind ·)) := by
  induction steps generalizing m with
  | nil => exact ⟨rfl, rfl⟩
  | cons s steps ih =>
    by_cases hs : kind s = true
    · -- The step is put off behind the others, which are then those of the machine before it.
      have hfilter : (s :: steps).filter (!kind ·) = steps.filter (!kind ·) := by simp [hs]
      have hkind : (s :: steps).filter kind = s :: steps.filter kind := by simp [hs]
      rw [hfilter] at havoids ⊢
      have hothers : ∀ t ∈ steps.filter (!kind ·), kind t = false := by
        intro t ht
        simpa using (List.mem_filter.1 ht).2
      obtain ⟨hmove, hsame⟩ := h.perform_play hs hothers havoids
      have hafter : (m.perform s.operation).Avoids patterns (steps.filter (!kind ·)) := by
        rw [Machine.Avoids, hsame]
        exact havoids
      obtain ⟨hplay, hwords⟩ := ih hafter
      constructor
      · calc m.play (s :: steps)
            = (m.perform s.operation).play steps := rfl
          _ = ((m.perform s.operation).play (steps.filter (!kind ·))).play (steps.filter kind) := hplay
          _ = ((m.play (steps.filter (!kind ·))).perform s.operation).play (steps.filter kind) := by
              rw [hmove]
          _ = (m.play (steps.filter (!kind ·))).play ((s :: steps).filter kind) := by
              rw [hkind]
              rfl
      · rw [Machine.wordsPlayed_cons, m.executing_eq_nil (h.ne_cycle hs), hwords, hsame]
        rfl
    · -- The step stays where it is.
      have hfilter : (s :: steps).filter (!kind ·) = s :: steps.filter (!kind ·) := by simp [hs]
      have hkind : (s :: steps).filter kind = steps.filter kind := by simp [hs]
      rw [hfilter] at havoids ⊢
      rw [hkind]
      obtain ⟨hplay, hwords⟩ := ih havoids.tail
      exact ⟨hplay, by rw [Machine.wordsPlayed_cons, Machine.wordsPlayed_cons, hwords]⟩

end PutsOff

/-! ## Timers and keys -/

/-- Counting the timers down can be put off while nothing looks at them. -/
theorem putsOff_tick : PutsOff (κ := κ) Step.isTick Pattern.timerUsers where
  kind_cycle := rfl
  perform_comm := by
    intro m s t hs ht havoids
    cases s with
    | cycle | keys => exact absurd hs Bool.false_ne_true
    | tick =>
      cases t with
      | cycle => exact Machine.cycle_tick (havoids rfl)
      | tick => exact absurd ht.symm Bool.false_ne_true
      | keys => rfl

/-- Moving keys can be put off while nothing asks for them. -/
theorem putsOff_keys : PutsOff (κ := κ) Step.isKeys Pattern.askers where
  kind_cycle := rfl
  perform_comm := by
    intro m s t hs ht havoids
    cases s with
    | cycle | tick => exact absurd hs Bool.false_ne_true
    | keys change =>
      cases t with
      | cycle => exact Machine.cycle_withKeypad change (havoids rfl)
      | tick => rfl
      | keys => exact absurd ht.symm Bool.false_ne_true

namespace Machine

/-- From every machine, whatever it executes between the actions of its host. If the cycles execute no
instruction that looks at the timers, then the ticks may all be put off to the end: the same words are
executed without them, and counting the timers down as often afterwards leads to the same machine. And if the
cycles execute no instruction that asks for a key, then so may all changes of the keys, in their order. -/
theorem play_put_off (m : Machine κ) (steps : List (Step κ)) :
    let unticked := steps.filter (!·.isTick)
    let unkeyed := steps.filter (!·.isKeys)
    (m.Avoids Pattern.timerUsers unticked →
        m.play steps = (m.play unticked).play (List.replicate (steps.countP Step.isTick) .tick) ∧
          m.wordsPlayed steps = m.wordsPlayed unticked) ∧
      (m.Avoids Pattern.askers unkeyed →
        m.play steps = (m.play unkeyed).play (steps.filter Step.isKeys) ∧
          m.wordsPlayed steps = m.wordsPlayed unkeyed) := by
  intro unticked unkeyed
  constructor
  · intro havoids
    rw [← Step.filter_isTick]
    exact putsOff_tick.play_eq havoids
  · exact putsOff_keys.play_eq

/-- A program that changes itself: it writes the first byte of a jump over its own first word, while the host
counts the timers down three times and presses and releases a key. -/
theorem play_put_off_self_modifying :
    let program : List UInt8 := [0x60, 0x12, 0xA2, 0x00, 0xF0, 0x55, 0x12, 0x00]
    let loaded := session KeyState.allUp {} (Vector.replicate 8 0) [.loadProgram program]
    let m : Machine KeyState := { loaded with delay := 5, sound := 1 }
    let press : Step KeyState := .keys (·.set 7 true)
    let steps : List (Step KeyState) :=
      [.tick, .cycle, press, .cycle, .tick, .cycle, .cycle, .keys (·.set 7 false), .tick, .cycle]
    let unticked := steps.filter (!·.isTick)
    let unkeyed := steps.filter (!·.isKeys)
    m.Avoids Pattern.timerUsers unticked ∧ m.Avoids Pattern.askers unkeyed ∧
      m.play steps = (m.play unticked).play [.tick, .tick, .tick] ∧
      m.play steps = (m.play unkeyed).play [press, .keys (·.set 7 false)] ∧
      m.wordsPlayed unticked = [0x6012, 0xA200, 0xF055, 0x1200, 0x1212] := by
  intro program loaded m press steps unticked unkeyed
  have hticks : m.Avoids Pattern.timerUsers unticked := by decide +kernel
  have hkeys : m.Avoids Pattern.askers unkeyed := by decide +kernel
  obtain ⟨htick, hkey⟩ := m.play_put_off steps
  exact ⟨hticks, hkeys, (htick hticks).1, (hkey hkeys).1, by decide +kernel⟩

end Machine

end Chip8
