import Chip8.Proofs.ControlFlow

/-!
# The log of a run

A cycle of a machine that is not held reports its instruction before it carries it out, and the instruction
may then report one thing more. `Machine.Remarks` lists the remarks there are: a warning for each of the
three ways in which a word is dropped, and a line for a wait while no key is down. An instruction makes just
the remark of this list (`Remarks.events_execute`), and none if the list has none for it
(`events_execute_of_not_remarks`).

A machine drops a word when there is a warning to make (`drops_iff`), and then passes over the word without
any other change (`cycle_of_drops`). No other operation warns of anything. So the warnings in the log of
operations name the places of the words that were dropped, one for one and in the same order, which is shown
for one operation (`places_reported`) and from that for any number of them (`places_log`).
-/

namespace Chip8

/-- The place in the program that an event names. -/
def Event.place : Event → Option UInt16
  | executing _ pc _ | waiting pc | unsupported pc _ | returnDropped pc | callDropped pc
  | stateLoaded pc => some pc
  | programLoaded _ | stateSaved _ | frameIgnored _ | frameDropped | reportDropped => none

/-- The warnings among events. -/
def warnings (events : List Event) : List Event := events.filter (·.level = .warn)

namespace Pattern

/-- The patterns whose instructions can report something. -/
def reporters : List Pattern := [.ret, .call, .awaitKey]

/-- The words outside the instruction set are those that are decoded as such. -/
theorem ofWord_eq_unsupported_iff {word : UInt16} :
    Instruction.ofWord word = .unsupported word ↔ ∀ p : Pattern, ¬ p.fits word := by
  refine ⟨fun h p hp => ?_, Instruction.ofWord_of_forall_not_fits⟩
  rw [Instruction.ofWord_of_fits hp] at h
  cases p <;> exact Instruction.noConfusion h

end Pattern

namespace Machine

variable {κ : Type}

/-- The word at the program counter is dropped: it is outside the instruction set and not zero, or a return
without a call, or a call without room. -/
def Drops (m : Machine κ) : Prop :=
  let word := m.fetch m.pc
  ((∀ p : Pattern, ¬ p.fits word) ∧ word ≠ 0) ∨ (Pattern.ret.fits word ∧ m.sp = 0) ∨
    (Pattern.call.fits word ∧ 16 ≤ m.sp.toNat)

instance (m : Machine κ) : Decidable m.Drops :=
  let word := m.fetch m.pc
  decidable_of_iff
    ((Instruction.ofWord word = .unsupported word ∧ word ≠ 0) ∨ (Pattern.ret.fits word ∧ m.sp = 0) ∨
      (Pattern.call.fits word ∧ 16 ≤ m.sp.toNat))
    (by rw [Pattern.ofWord_eq_unsupported_iff]; rfl)

variable [Keypad κ]

/-! ## Remarks -/

/-- The instruction at the program counter makes a remark. -/
inductive Remarks (m : Machine κ) : Event → Prop where
  /-- A word outside the instruction set is passed over, unless it is zero. -/
  | unsupported (h : ∀ p : Pattern, ¬ p.fits (m.fetch m.pc)) (hword : m.fetch m.pc ≠ 0) :
    Remarks m (.unsupported m.pc (m.fetch m.pc))
  /-- There is no call to return from. -/
  | ret (h : Pattern.ret.fits (m.fetch m.pc)) (hsp : m.sp = 0) : Remarks m (.returnDropped m.pc)
  /-- There is no room for a call. -/
  | call (h : Pattern.call.fits (m.fetch m.pc)) (hfull : 16 ≤ m.sp.toNat) : Remarks m (.callDropped m.pc)
  /-- There is no key for `FX0A`. -/
  | wait (h : Pattern.awaitKey.fits (m.fetch m.pc)) (hkeys : Keypad.AllReleased m.keypad) :
    Remarks m (.waiting m.pc)

/-- A remark names the place of the instruction. -/
theorem Remarks.place {m : Machine κ} {e : Event} (h : m.Remarks e) : e.place = some m.pc := by
  cases h <;> rfl

/-- A remark that is no warning says that the instruction waits. -/
theorem Remarks.warn_or_waiting {m : Machine κ} {e : Event} (h : m.Remarks e) :
    e.level = .warn ∨ e = .waiting m.pc := by
  cases h with
  | unsupported | ret | call => exact .inl rfl
  | wait => exact .inr rfl

/-- An instruction that has a remark to make reports it, and nothing else. -/
theorem Remarks.events_execute {m : Machine κ} {e : Event} (h : m.Remarks e) :
    (m.execute (.ofWord (m.fetch m.pc))).events = [e] := by
  cases h with
  | unsupported h hword =>
    rw [Instruction.ofWord_of_forall_not_fits h]
    exact if_neg hword
  | ret h hsp =>
    rw [Instruction.ofWord_of_fits h]
    simp only [Pattern.instruction, execute, Machine.ret, if_pos hsp]
  | call h hfull =>
    rw [Instruction.ofWord_of_fits h]
    simp only [Pattern.instruction, execute, Machine.call, dif_neg (Nat.not_lt.2 hfull)]
  | wait h hkeys =>
    rw [Instruction.ofWord_of_fits h]
    simp only [Pattern.instruction, execute, awaitKey, Keypad.firstPressed_of_allReleased hkeys]

/-- Only three patterns report anything. -/
theorem events_execute_eq_nil (m : Machine κ) (word : UInt16) {p : Pattern} (h : p ∉ Pattern.reporters) :
    (m.execute (p.instruction word)).events = [] := by
  cases p with
  | ret | call | awaitKey => exact absurd (by decide) h
  | _ => rfl

/-- An instruction that has no remark to make reports nothing. -/
theorem events_execute_of_not_remarks {m : Machine κ} (h : ∀ e, ¬ m.Remarks e) :
    (m.execute (.ofWord (m.fetch m.pc))).events = [] := by
  rcases Instruction.ofWord_cases (m.fetch m.pc) with ⟨p, hp, hword⟩ | ⟨hnone, hword⟩
  · rw [hword]
    by_cases hreporter : p ∈ Pattern.reporters
    · -- The three that can report lack what they need to do so.
      simp only [Pattern.reporters, List.mem_cons, List.not_mem_nil, or_false] at hreporter
      rcases hreporter with rfl | rfl | rfl
      · have hsp : m.sp ≠ 0 := fun hzero => h _ (.ret hp hzero)
        simp only [Pattern.instruction, execute, ret, if_neg hsp, Outcome.quiet]
      · have hroom : m.sp.toNat < 16 := Nat.not_le.1 fun hfull => h _ (.call hp hfull)
        simp only [Pattern.instruction, execute, call, dif_pos hroom, Outcome.quiet]
      · rcases Keypad.allReleased_or m.keypad with hnone | hpressed
        · exact absurd (.wait hp hnone) (h _)
        · obtain ⟨key, hkey⟩ := Keypad.exists_isHighest hpressed
          simp only [Pattern.instruction, execute, awaitKey, Keypad.firstPressed_of_isHighest hkey,
            Outcome.quiet]
    · exact events_execute_eq_nil m _ hreporter
  · rw [hword]
    exact if_pos (Decidable.not_not.1 fun hne => h _ (.unsupported hnone hne))

/-- A cycle reports its instruction, and then the remark of the instruction if there is one. -/
theorem exists_remark {m : Machine κ} (hrunning : m.paused = false) :
    ∃ remark : Option Event,
      m.cycle.events = .executing (.ofWord (m.fetch m.pc)) m.pc (m.fetch m.pc) :: remark.toList ∧
        ∀ e, e ∈ remark ↔ m.Remarks e := by
  have hcycle : m.cycle.events = .executing (.ofWord (m.fetch m.pc)) m.pc (m.fetch m.pc) ::
      (m.execute (.ofWord (m.fetch m.pc))).events := by
    rw [cycle, if_neg (by simp [hrunning])]
  rw [hcycle]
  by_cases hsome : ∃ e, m.Remarks e
  · obtain ⟨e, he⟩ := hsome
    refine ⟨some e, by rw [he.events_execute]; rfl, fun e' => ⟨?_, fun he' => ?_⟩⟩
    · rintro ⟨⟩
      exact he
    · -- Each of the two would be all that the instruction reports.
      have hsame : [e] = [e'] := he.events_execute.symm.trans he'.events_execute
      exact congrArg some (List.singleton_inj.1 hsame)
  · have hnone : ∀ e, ¬ m.Remarks e := not_exists.1 hsome
    exact ⟨none, by rw [events_execute_of_not_remarks hnone]; rfl,
      fun e => iff_of_false (Option.not_mem_none e) (hnone e)⟩

/-! ## Dropped words -/

/-- A word is dropped if there is a warning to make. -/
theorem drops_iff {m : Machine κ} : m.Drops ↔ ∃ e, m.Remarks e ∧ e.level = .warn := by
  constructor
  · rintro (⟨hnone, hword⟩ | ⟨hfits, hsp⟩ | ⟨hfits, hfull⟩)
    · exact ⟨_, .unsupported hnone hword, rfl⟩
    · exact ⟨_, .ret hfits hsp, rfl⟩
    · exact ⟨_, .call hfits hfull, rfl⟩
  · rintro ⟨e, hremark, hlevel⟩
    cases hremark with
    | unsupported hnone hword => exact .inl ⟨hnone, hword⟩
    | ret hfits hsp => exact .inr (.inl ⟨hfits, hsp⟩)
    | call hfits hfull => exact .inr (.inr ⟨hfits, hfull⟩)
    | wait => exact nomatch hlevel

/-- A word that is dropped is passed over, and nothing else changes. -/
theorem cycle_of_drops {m : Machine κ} (hrunning : m.paused = false) (h : m.Drops) :
    m.cycle.machine = { m with pc := m.pc + 2 } := by
  have hexec {p : Pattern} (hfits : p.fits (m.fetch m.pc)) : m.executes p :=
    executes_iff.2 ⟨hrunning, hfits⟩
  rcases h with ⟨hnone, -⟩ | ⟨hfits, hsp⟩ | ⟨hfits, hfull⟩
  · exact cycle_of_forall_not_fits hrunning hnone
  · exact cycle_ret_empty (hexec hfits) hsp
  · exact cycle_call_full (hexec hfits) hfull

/-! ## Logs -/

/-- The events that an operation reports. -/
def reported (m : Machine κ) : Operation κ → List Event
  | .loadProgram program => (m.loadProgram program).events
  | .loadFile path contents => (m.loadFile path contents).events
  | .restore bytes => (m.restore bytes).events
  | .save => m.save.events
  | .cycle => m.cycle.events
  | .reset | .tick | .keys _ | .setClockRate _ | .takeRedraw | .present => []

/-- The events that operations report, one after another. -/
def log (m : Machine κ) : List (Operation κ) → List Event
  | [] => []
  | op :: ops => m.reported op ++ (m.perform op).log ops

/-- The places at which words are dropped among those that are executed in operations. -/
def droppedAt (machines : List (Machine κ)) : List UInt16 := (machines.filter (·.Drops)).map (·.pc)

/-- A cycle warns of the word that it drops. -/
theorem places_cycle (m : Machine κ) :
    (warnings m.cycle.events).map (·.place) = (droppedAt (m.executing .cycle)).map some := by
  by_cases hheld : m.paused
  · rw [cycle, if_pos hheld, executing, if_pos hheld]
    rfl
  obtain ⟨remark, hevents, hremark⟩ := exists_remark (m := m) (by simpa using hheld)
  rw [hevents, executing, if_neg hheld, droppedAt]
  -- The report of the instruction is no warning, so only the remark is left.
  show (warnings remark.toList).map (·.place) = _
  by_cases hdrops : m.Drops
  · obtain ⟨e, he, hlevel⟩ := drops_iff.1 hdrops
    rw [(hremark e).2 he]
    simp [warnings, hdrops, hlevel, he.place]
  · have hnone : warnings remark.toList = [] := by
      refine List.filter_eq_nil_iff.2 fun e he hlevel => ?_
      have hwarn : m.Remarks e := (hremark e).1 (Option.mem_toList.1 he)
      exact hdrops (drops_iff.2 ⟨e, hwarn, of_decide_eq_true hlevel⟩)
    rw [hnone]
    simp [hdrops]

/-- An operation warns of the words that it drops. -/
theorem places_reported (m : Machine κ) (op : Operation κ) :
    (warnings (m.reported op)).map (·.place) = (droppedAt (m.executing op)).map some := by
  have hload (program : List UInt8) : warnings (m.loadProgram program).events = [] := by
    unfold loadProgram
    split <;> rfl
  cases op with
  | cycle => exact m.places_cycle
  | loadProgram program => exact congrArg _ (hload program)
  | loadFile path contents =>
    cases contents with
    | none => rfl
    | some program => exact congrArg _ (hload program)
  | restore bytes =>
    simp only [reported, restore]
    split <;> rfl
  | _ => rfl

/-- The warnings in the log of operations name the places of the words that were dropped, in order. -/
theorem places_log (m : Machine κ) (operations : List (Operation κ)) :
    (warnings (m.log operations)).map (·.place) = (droppedAt (m.executions operations)).map some := by
  induction operations generalizing m with
  | nil => rfl
  | cons op ops ih =>
    rw [log, executions, warnings, droppedAt, List.filter_append, List.filter_append, List.map_append,
      List.map_append, List.map_append]
    exact congrArg₂ _ (m.places_reported op) (ih (m.perform op))

/-- What a machine reports. A cycle of a machine that is not held reports the instruction before it is
carried out, with its place, its word and its mnemonic, and then one thing more at the most, which names the
same place. That is a warning just when the word is dropped, and is that of a wait just when the instruction
waits for a key and none is down. After a warning the machine has passed over the word, and nothing else of it
has changed.

Over any operations there are therefore as many warnings as words that were executed and dropped. -/
theorem log_of_cycles (m : Machine κ) :
    (m.paused = false →
      let word := m.fetch m.pc
      let instruction := Instruction.ofWord word
      let first : Event := .executing instruction m.pc word
      ∃ second : Option Event,
        m.cycle.events = first :: second.toList ∧
          first.line = "TRACE " ++ (instruction.mnemonic ++ " pc=" ++ toString m.pc.toNat ++
            " opcode=" ++ toString word.toNat) ∧
          (∀ e ∈ second, e.place = some m.pc ∧ (e.level = .warn ∨ e = .waiting m.pc)) ∧
          ((∃ e ∈ second, e.level = .warn) ↔
            ((∀ p : Pattern, ¬ p.fits word) ∧ word ≠ 0) ∨ (Pattern.ret.fits word ∧ m.sp = 0) ∨
              (Pattern.call.fits word ∧ 16 ≤ m.sp.toNat)) ∧
          (.waiting m.pc ∈ second ↔ Pattern.awaitKey.fits word ∧ Keypad.AllReleased m.keypad) ∧
          ((∃ e ∈ second, e.level = .warn) → m.cycle.machine = { m with pc := m.pc + 2 })) ∧
      ∀ operations : List (Operation κ),
        (m.log operations).countP (·.level = .warn) = (m.executions operations).countP (·.Drops) := by
  refine ⟨fun hrunning => ?_, fun operations => ?_⟩
  · obtain ⟨second, hevents, hremark⟩ := exists_remark hrunning
    have hwarn : (∃ e ∈ second, e.level = .warn) ↔ m.Drops := by
      simp only [hremark, drops_iff]
    refine ⟨second, hevents, rfl, fun e he => ?_, hwarn, ?_,
      fun hwarned => cycle_of_drops hrunning (hwarn.1 hwarned)⟩
    · have he := (hremark e).1 he
      exact ⟨he.place, he.warn_or_waiting⟩
    · rw [hremark]
      exact ⟨fun | .wait hfits hkeys => ⟨hfits, hkeys⟩, fun ⟨hfits, hkeys⟩ => .wait hfits hkeys⟩
  · -- The places agree one by one, so there are equally many.
    have hplaces := congrArg List.length (m.places_log operations)
    rw [droppedAt, List.length_map, List.length_map, List.length_map] at hplaces
    rw [List.countP_eq_length_filter, List.countP_eq_length_filter]
    exact hplaces

/-- A program that starts with a return and a word outside the instruction set, and then runs into empty
memory: two words of the three are dropped. -/
theorem log_of_cycles_two_dropped :
    let m : Machine KeyState :=
      session KeyState.allUp {} (Vector.replicate 8 0) [.loadProgram [0x00, 0xEE, 0xFF, 0xFF]]
    let operations : List (Operation KeyState) := [.cycle, .tick, .cycle, .cycle]
    m.paused = false ∧ m.cycle.machine = { m with pc := m.pc + 2 } ∧
      (m.log operations).countP (·.level = .warn) = 2 := by
  intro m operations
  have hrunning : m.paused = false := by decide +kernel
  have hempty : Pattern.ret.fits (m.fetch m.pc) ∧ m.sp = 0 := by decide +kernel
  have hcount : (m.executions operations).countP (·.Drops) = 2 := by decide +kernel
  obtain ⟨hcycle, hlog⟩ := m.log_of_cycles
  obtain ⟨second, -, -, -, hwarn, -, hpassed⟩ := hcycle hrunning
  exact ⟨hrunning, hpassed (hwarn.2 (.inr (.inl hempty))), (hlog operations).trans hcount⟩

end Machine

end Chip8
