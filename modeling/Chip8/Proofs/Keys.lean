import Mathlib.Data.Bool.Basic
import Chip8.Proofs.Footprint
import Chip8.Proofs.Keypad
import Chip8.Proofs.Session

/-!
# What a machine asks its keypad

A keypad answers one question, and a machine asks it in three instructions only. The two skips on a
key ask for the key that Vx names, and a wait scans the keys from F downwards.

The keys that are asked for are all that matters of a keypad, and each of them matters. On another
keypad a cycle comes to the same just if that answers alike for these keys (`cycle_keypad_iff`). It
is so for the two instructions that ask, a skip and a wait, because what they leave behind tells the
answers; all others come to the same on any keypad.

While no key is down, a wait changes nothing at all. It can therefore be repeated any number of
times, with another keypad each time, and the first cycle that meets a pressed key goes on from the
machine that the wait began with (`play_polls`). `keys_protocol` puts all this together.
-/

namespace Chip8

namespace Pattern

/-- The patterns whose instructions ask for keys. -/
def askers : List Pattern := [.skipPressed, .skipReleased, .awaitKey]

end Pattern

/-- The steps of a wait, in which every cycle meets the next of the keypads. -/
def polls {κ : Type} (keypads : List κ) : List (Step κ) :=
  keypads.flatMap fun keypad => [.keys fun _ => keypad, .cycle]

namespace Outcome

variable {κ α : Type}

/-- The outcome on another keypad. -/
def onKeypad (o : Outcome κ α) (keypad : κ) : Outcome κ α :=
  { o with machine := { o.machine with keypad } }

/-- Outcomes are the same if they are with one more event before the others. -/
theorem cons_events_inj (o o' : Outcome κ α) (e : Event) :
    ({ o with events := e :: o.events } : Outcome κ α) = { o' with events := e :: o'.events } ↔
      o = o' := by
  obtain ⟨_, _, _, _⟩ := o
  obtain ⟨_, _, _, _⟩ := o'
  rw [Outcome.mk.injEq, Outcome.mk.injEq, List.cons.injEq, and_iff_right rfl]

end Outcome

namespace Machine

variable {κ : Type} [Keypad κ]

/-! ## The keys that a cycle asks for -/

/-- A machine that is not held asks for the keys that its instruction asks for. -/
theorem asked_cycle {m : Machine κ} (h : m.paused = false) :
    m.cycle.asked = (m.execute (.ofWord (m.fetch m.pc))).asked := by
  rw [cycle, if_neg (by simp [h])]

/-- If the word is one of a pattern, these are the keys that the instruction of the pattern asks
for. -/
theorem asked_cycle_of_executes {m : Machine κ} {p : Pattern} (h : m.executes p) :
    m.cycle.asked = (m.execute (p.instruction (m.fetch m.pc))).asked := by
  obtain ⟨hrunning, hfits⟩ := executes_iff.1 h
  rw [asked_cycle hrunning, Instruction.ofWord_of_fits hfits]

/-- Only three instructions ask for keys. -/
theorem asked_execute (m : Machine κ) (word : UInt16) {p : Pattern} (h : p ∉ Pattern.askers) :
    (m.execute (p.instruction word)).asked = [] := by
  cases p with
  | skipPressed | skipReleased | awaitKey => exact absurd (by decide) h
  | call =>
    simp only [Pattern.instruction, execute, call, Outcome.quiet]
    split <;> rfl
  | ret =>
    simp only [Pattern.instruction, execute, ret, Outcome.quiet]
    split <;> rfl
  | _ => rfl

/-- Every other cycle asks for none. -/
theorem asked_cycle_of_not_askers {m : Machine κ} (h : ∀ p ∈ Pattern.askers, ¬ m.executes p) :
    m.cycle.asked = [] := by
  by_cases hheld : m.paused
  · rw [cycle, if_pos hheld]
    rfl
  have hrunning : m.paused = false := by simpa using hheld
  rw [asked_cycle hrunning]
  rcases Instruction.ofWord_cases (m.fetch m.pc) with ⟨p, hp, hword⟩ | ⟨-, hword⟩
  · rw [hword]
    exact asked_execute m _ fun hasker => h p hasker (executes_iff.2 ⟨hrunning, hp⟩)
  · rw [hword]
    rfl

omit [Keypad κ] in
/-- The key that a register names is its remainder. -/
theorem keyOf_eq_ofNat (m : Machine κ) (x : Register) :
    m.keyOf x = UInt8.ofNat ((m.reg x).toNat % 16) := by
  have hmask : (m.reg x).toNat &&& 15 = (m.reg x).toNat % 16 := Nat.and_two_pow_sub_one_eq_mod _ 4
  rw [keyOf, ← hmask, ← UInt8.ofNat_toNat (x := m.reg x &&& 0xF), UInt8.toNat_and]
  rfl

/-- The skips on a key ask for the key that Vx names. -/
theorem asked_skip {m : Machine κ} {p : Pattern} (hp : p = .skipPressed ∨ p = .skipReleased)
    (h : m.executes p) :
    m.cycle.asked = [UInt8.ofNat ((m.reg (Opcode.x (m.fetch m.pc))).toNat % 16)] := by
  rw [asked_cycle_of_executes h, ← keyOf_eq_ofNat]
  rcases hp with rfl | rfl <;> rfl

/-! ## Another keypad -/

/-- A skip passes over one word or two. -/
theorem pc_skip (m : Machine κ) (condition : Condition) :
    (m.skip condition).machine.pc =
      if (m.test condition).1 then m.pc + 2 + 2 else m.pc + 2 := by
  simp only [skip, Outcome.quiet]
  split <;> rfl

/-- A condition is tested alike on another keypad just if that answers alike for the keys that the
condition asks for. -/
theorem test_keypad_iff (m : Machine κ) (keypad : κ) (condition : Condition) :
    ({ m with keypad } : Machine κ).test condition = m.test condition ↔
      Keypad.AnswersAlike m.keypad keypad (m.test condition).2 := by
  cases condition with
  | pressed x => exact Keypad.ask_eq_iff
  | released x =>
    have hpressed : Keypad.ask keypad (m.keyOf x) = Keypad.ask m.keypad (m.keyOf x) ↔
        Keypad.AnswersAlike m.keypad keypad [m.keyOf x] := Keypad.ask_eq_iff
    -- The answers are turned around on both keypads.
    refine Iff.trans ?_ hpressed
    rw [Prod.ext_iff, Prod.ext_iff]
    exact and_congr_left' Bool.not_inj_iff
  | _ => exact iff_of_true rfl (Keypad.answersAlike_nil _ _)

/-- A skip comes to the same just if its condition does, because the next word is passed over or
not. -/
theorem skip_keypad_iff (m : Machine κ) (keypad : κ) (condition : Condition) :
    ({ m with keypad } : Machine κ).skip condition = (m.skip condition).onKeypad keypad ↔
      Keypad.AnswersAlike m.keypad keypad (m.skip condition).asked := by
  refine Iff.trans ?_ (m.test_keypad_iff keypad condition)
  constructor
  · intro h
    have hpc : (({ m with keypad } : Machine κ).skip condition).machine.pc =
        (m.skip condition).machine.pc := congrArg (fun o => o.machine.pc) h
    rw [pc_skip, pc_skip] at hpc
    have hinjective : Function.Injective fun passed : Bool =>
        if passed then m.pc + 2 + 2 else m.pc + 2 :=
      Bool.injective_iff.2 (by simp)
    exact Prod.ext (hinjective hpc) (congrArg Outcome.asked h)
  · intro h
    simp only [skip, Outcome.quiet, Outcome.onKeypad, h]
    split <;> rfl

/-- A wait asks for the keys of its scan. -/
theorem asked_awaitKey (m : Machine κ) (x : Register) :
    (m.awaitKey x).asked = (Keypad.firstPressed m.keypad Keypad.scanOrder).2 := by
  unfold awaitKey
  rcases Keypad.firstPressed m.keypad Keypad.scanOrder with ⟨_ | key, asked⟩ <;> rfl

/-- A wait comes to the same just if its scan does, because the key that is found is put into Vx, and
a wait that finds none is reported. -/
theorem awaitKey_keypad_iff (m : Machine κ) (keypad : κ) (x : Register) :
    ({ m with keypad } : Machine κ).awaitKey x = (m.awaitKey x).onKeypad keypad ↔
      Keypad.AnswersAlike m.keypad keypad (m.awaitKey x).asked := by
  rw [asked_awaitKey, ← Keypad.firstPressed_eq_iff]
  constructor
  · intro h
    have hasked := congrArg Outcome.asked h
    rw [asked_awaitKey] at hasked
    refine Prod.ext ?_ (hasked.trans (m.asked_awaitKey x))
    -- A wait that finds no key is told by its report, and one that finds a key by Vx.
    clear hasked
    unfold awaitKey at h
    revert h
    rcases Keypad.firstPressed keypad Keypad.scanOrder with ⟨_ | new, _⟩ <;>
      rcases Keypad.firstPressed m.keypad Keypad.scanOrder with ⟨_ | old, _⟩ <;> intro h
    · rfl
    · exact absurd (congrArg Outcome.events h) (List.cons_ne_nil _ _)
    · exact absurd (congrArg Outcome.events h) (List.cons_ne_nil _ _).symm
    · have hreg := congrArg (fun o => o.machine.reg x) h
      have hkey : new = old := by
        rw [← reg_setReg_self m x old, ← reg_setReg_self { m with keypad } x new]
        exact hreg
      rw [hkey]
  · intro h
    simp only [awaitKey, Outcome.onKeypad, h]
    split <;> rfl

/-- An instruction comes to the same on another keypad just if that answers alike for the keys that
the instruction asks for. -/
theorem execute_keypad_iff (m : Machine κ) (keypad : κ) (i : Instruction) :
    ({ m with keypad } : Machine κ).execute i = (m.execute i).onKeypad keypad ↔
      Keypad.AnswersAlike m.keypad keypad (m.execute i).asked := by
  cases i with
  | skip condition => exact m.skip_keypad_iff keypad condition
  | awaitKey x => exact m.awaitKey_keypad_iff keypad x
  | ret =>
    simp only [execute, ret, Outcome.quiet, Outcome.onKeypad]
    split <;> exact iff_of_true rfl (Keypad.answersAlike_nil _ _)
  | call target =>
    simp only [execute, call, Outcome.quiet, Outcome.onKeypad]
    split <;> exact iff_of_true rfl (Keypad.answersAlike_nil _ _)
  | combine operator x y =>
    have hreg (z : Register) : ({ m with keypad } : Machine κ).reg z = m.reg z := rfl
    simp only [execute, Outcome.quiet, Outcome.onKeypad, hreg]
    split <;> exact iff_of_true rfl (Keypad.answersAlike_nil _ _)
  | load x =>
    -- Unfolded first: whole machines are not compared, which would evaluate the registers.
    simp only [execute, readRegisters, advance, Outcome.quiet, Outcome.onKeypad, true_iff]
    exact Keypad.answersAlike_nil _ _
  | _ => exact iff_of_true rfl (Keypad.answersAlike_nil _ _)

/-- So does a cycle. -/
theorem cycle_keypad_iff (m : Machine κ) (keypad : κ) :
    ({ m with keypad } : Machine κ).cycle = m.cycle.onKeypad keypad ↔
      Keypad.AnswersAlike m.keypad keypad m.cycle.asked := by
  by_cases hheld : m.paused
  · have hheld' : ({ m with keypad } : Machine κ).paused := hheld
    rw [cycle, cycle, if_pos hheld, if_pos hheld']
    exact iff_of_true rfl (Keypad.answersAlike_nil _ _)
  · have hrunning : m.paused = false := by simpa using hheld
    have hheld' : ¬ ({ m with keypad } : Machine κ).paused := hheld
    rw [asked_cycle hrunning, ← execute_keypad_iff, cycle, cycle, if_neg hheld, if_neg hheld']
    -- The report of the instruction comes before those of its execution, on either keypad.
    exact Outcome.cons_events_inj _ ((m.execute _).onKeypad keypad) _

/-! ## Waiting -/

/-- A wait that meets a pressed key takes the highest. -/
theorem cycle_awaitKey_of_isHighest {m : Machine κ} (h : m.executes .awaitKey) {key : UInt8}
    (hkey : Keypad.IsHighest m.keypad key) :
    m.cycle.asked = Keypad.downTo key ∧
      m.cycle.machine =
        { m with registers := m.registers.set (Opcode.x (m.fetch m.pc)) key, pc := m.pc + 2 } := by
  rw [asked_cycle_of_executes h, cycle_of_executes h]
  simp only [Pattern.instruction, execute, awaitKey, Keypad.firstPressed_of_isHighest hkey]
  exact ⟨trivial, rfl⟩

/-- A wait that meets no pressed key changes nothing. -/
theorem cycle_awaitKey_of_allReleased {m : Machine κ} (h : m.executes .awaitKey)
    (hkeys : Keypad.AllReleased m.keypad) :
    m.cycle.asked = Keypad.downTo 0 ∧ m.cycle.machine = m := by
  rw [asked_cycle_of_executes h, cycle_of_executes h]
  simp only [Pattern.instruction, execute, awaitKey, Keypad.firstPressed_of_allReleased hkeys]
  exact ⟨trivial, rfl⟩

/-- So does one that is repeated. -/
theorem play_replicate_cycle {m : Machine κ} (h : m.executes .awaitKey)
    (hkeys : Keypad.AllReleased m.keypad) (n : Nat) : m.play (List.replicate n .cycle) = m := by
  induction n with
  | zero => rfl
  | succ n ih =>
    show m.cycle.machine.play (List.replicate n .cycle) = m
    rw [(cycle_awaitKey_of_allReleased h hkeys).2, ih]

/-- So does one that meets another keypad each time, but for the keypad. -/
theorem play_polls {m : Machine κ} (h : m.executes .awaitKey) {keypads : List κ}
    (hkeys : ∀ keypad ∈ keypads, Keypad.AllReleased keypad) :
    m.play (polls keypads) = { m with keypad := keypads.getLastD m.keypad } := by
  induction keypads generalizing m with
  | nil => rfl
  | cons keypad keypads ih =>
    have hnext : ({ m with keypad } : Machine κ).executes .awaitKey := h
    show ({ m with keypad } : Machine κ).cycle.machine.play (polls keypads) = _
    rw [(cycle_awaitKey_of_allReleased hnext (hkeys keypad List.mem_cons_self)).2,
      ih hnext fun k hk => hkeys k (List.mem_cons_of_mem keypad hk), List.getLastD_cons]

/-- No key above F is asked for. -/
theorem le_of_mem_asked (m : Machine κ) : ∀ key ∈ m.cycle.asked, key ≤ 15 := by
  intro key hkey
  by_cases hskip : ∃ p, (p = .skipPressed ∨ p = .skipReleased) ∧ m.executes p
  · obtain ⟨p, hp, hexec⟩ := hskip
    rw [asked_skip hp hexec, List.mem_singleton] at hkey
    rw [hkey, UInt8.le_iff_toNat_le, UInt8.toNat_ofNat']
    show _ % 16 % 2 ^ 8 ≤ 15
    omega
  by_cases hwait : m.executes .awaitKey
  · rcases Keypad.allReleased_or m.keypad with hnone | hsome
    · rw [(cycle_awaitKey_of_allReleased hwait hnone).1] at hkey
      exact Keypad.le_of_mem_downTo hkey
    · obtain ⟨highest, hhighest⟩ := Keypad.exists_isHighest hsome
      rw [(cycle_awaitKey_of_isHighest hwait hhighest).1] at hkey
      exact Keypad.le_of_mem_downTo hkey
  · have hnone : m.cycle.asked = [] := asked_cycle_of_not_askers fun p hp hexec => by
      simp only [Pattern.askers, List.mem_cons, List.not_mem_nil, or_false] at hp
      rcases hp with rfl | rfl | rfl
      · exact hskip ⟨_, .inl rfl, hexec⟩
      · exact hskip ⟨_, .inr rfl, hexec⟩
      · exact hwait hexec
    rw [hnone] at hkey
    exact absurd hkey List.not_mem_nil

/-- The keys that a cycle asks for, and what a wait for a key comes to, whatever the keypad is. A
skip on a key asks for the one that Vx names. A wait asks for the keys from F down to the highest
that is pressed, or for all sixteen. No other cycle asks for any, and no key above F is ever asked
for. What a cycle comes to hangs on the answers for the keys that are asked for, on each of them and
on nothing else of a keypad: on another keypad it comes to the same just if that answers alike for
these keys.

While no key is pressed, a wait leaves the whole machine as it was, however often it is repeated. If
its cycles meet other keypads, then only the keypad is another, and the first of them on which a key
is pressed puts the highest pressed key into Vx and goes on, without any other change. -/
theorem keys_protocol (m : Machine κ) :
    let x := Opcode.x (m.fetch m.pc)
    (m.executes .skipPressed ∨ m.executes .skipReleased →
        m.cycle.asked = [UInt8.ofNat ((m.reg x).toNat % 16)]) ∧
      (m.executes .awaitKey →
        ((∃ key ≤ 15, Keypad.pressed m.keypad key = true) →
          ∃ key, Keypad.IsHighest m.keypad key ∧ m.cycle.asked = Keypad.downTo key) ∧
        (Keypad.AllReleased m.keypad → m.cycle.asked = Keypad.downTo 0)) ∧
      ((∀ p ∈ Pattern.askers, ¬ m.executes p) → m.cycle.asked = []) ∧
      (∀ key ∈ m.cycle.asked, key ≤ 15) ∧
      (∀ keypad : κ,
        ({ m with keypad } : Machine κ).cycle = m.cycle.onKeypad keypad ↔
          Keypad.AnswersAlike m.keypad keypad m.cycle.asked) ∧
      (m.executes .awaitKey →
        (Keypad.AllReleased m.keypad → ∀ n, m.play (List.replicate n .cycle) = m) ∧
        ∀ keypads : List κ, (∀ keypad ∈ keypads, Keypad.AllReleased keypad) →
          m.play (polls keypads) = { m with keypad := keypads.getLastD m.keypad } ∧
          ∀ keypad, (∃ key ≤ 15, Keypad.pressed keypad key = true) →
            ∃ key, Keypad.IsHighest keypad key ∧
              ({ m.play (polls keypads) with keypad } : Machine κ).cycle.machine =
                { m with keypad, registers := m.registers.set x key, pc := m.pc + 2 }) := by
  intro x
  refine ⟨fun h => ?_, fun hwait => ⟨fun hsome => ?_, fun hnone => ?_⟩, asked_cycle_of_not_askers,
    le_of_mem_asked m, m.cycle_keypad_iff,
    fun hwait => ⟨play_replicate_cycle hwait, fun keypads hnone => ?_⟩⟩
  · rcases h with hexec | hexec
    · exact asked_skip (.inl rfl) hexec
    · exact asked_skip (.inr rfl) hexec
  · obtain ⟨key, hkey⟩ := Keypad.exists_isHighest hsome
    exact ⟨key, hkey, (cycle_awaitKey_of_isHighest hwait hkey).1⟩
  · exact (cycle_awaitKey_of_allReleased hwait hnone).1
  · have hplayed := play_polls hwait hnone
    refine ⟨hplayed, fun keypad hsome => ?_⟩
    obtain ⟨key, hkey⟩ := Keypad.exists_isHighest hsome
    -- The machine still stands at the wait, and only its keypad is another.
    have hnext : ({ m with keypad } : Machine κ).executes .awaitKey := hwait
    rw [hplayed]
    exact ⟨key, hkey, (cycle_awaitKey_of_isHighest hnext hkey).2⟩

/-- A program that waits for a key and puts it into V3. It waits through two cycles without a key,
and then meets a keypad on which 4 and B are pressed. -/
theorem keys_protocol_third_keypad :
    let program : List UInt8 := [0xF3, 0x0A]
    let m := session KeyState.allUp {} (Vector.replicate 8 0) [.loadProgram program]
    let keypads : List KeyState := [.allUp, .allUp]
    let keypad := (KeyState.allUp.set 0x4 true).set 0xB true
    m.executes .awaitKey ∧ (∀ k ∈ keypads, Keypad.AllReleased k) ∧
      Keypad.pressed keypad 0xB = true ∧
      ∃ key, Keypad.IsHighest keypad key ∧
        ({ m.play (polls keypads) with keypad } : Machine KeyState).cycle.machine =
          { m with
            keypad
            registers := m.registers.set (Opcode.x (m.fetch m.pc)) key
            pc := m.pc + 2 } := by
  intro program m keypads keypad
  have hwait : m.executes .awaitKey := by decide +kernel
  have hnone : ∀ k ∈ keypads, Keypad.AllReleased k := by
    intro k hk key _
    simp only [keypads, List.mem_cons, List.not_mem_nil, or_false, or_self] at hk
    subst hk
    exact Vector.getElem_replicate (Fin.isLt _)
  have hpressed : Keypad.pressed keypad 0xB = true := by decide +kernel
  have hwaited := (keys_protocol m).2.2.2.2.2 hwait
  exact ⟨hwait, hnone, hpressed, (hwaited.2 keypads hnone).2 keypad ⟨0xB, by decide, hpressed⟩⟩

end Machine

end Chip8
