import Chip8.Proofs.Footprint
import Chip8.Proofs.Session

/-!
# The call stack is a list

The slots of the stack below the stack pointer, read in order, are the places of the calls in progress
(`State.calls`). On that list a call appends its own place, a return removes the last place and goes on
behind it, and nothing else that happens while a program is played touches the list.

`Machine.HasCalls` says that a machine has a given list of calls in progress, with as many entries as
the stack pointer counts. Each step of a run is one lemma about it, and `Balanced.hasCalls` is the
induction over the steps of a run whose calls and returns are balanced: the list that was there when
it started is there when it ends. A subroutine is such a run between its call and its return, so it
ends behind its call and leaves the stack as it was (`calls_session`).
-/

namespace Chip8

namespace Machine

variable {κ : Type}

/-- The calls in progress are the entries of the list, the oldest first. -/
structure HasCalls (m : Machine κ) (places : List UInt16) : Prop where
  /-- The stack holds their places. -/
  calls : m.calls = places
  /-- The stack pointer counts them. -/
  sp : m.sp.toNat = places.length

/-- A machine whose stack pointer is within the stack has the calls that its stack holds. -/
theorem hasCalls_calls {m : Machine κ} (h : m.sp.toNat ≤ 16) : m.HasCalls m.calls where
  calls := rfl
  sp := by
    rw [State.calls, List.length_take, Vector.length_toList]
    omega

/-- A slot below the stack pointer holds the place of its call. -/
theorem HasCalls.getElem?_stack {m : Machine κ} {places : List UInt16} (h : m.HasCalls places)
    {i : Nat} (hi : i < places.length) : m.stack[i]? = places[i]? := by
  have htake : places[i]? = m.stack.toList[i]? := by
    rw [← h.calls, State.calls, List.getElem?_take_of_lt (by rw [h.sp]; exact hi)]
  rw [htake, Vector.getElem?_toList]

/-- Machines with the same calls have the same slots below the stack pointer. -/
theorem HasCalls.get_stack_eq {m m' : Machine κ} {places : List UInt16} (h : m.HasCalls places)
    (h' : m'.HasCalls places) {i : Fin 16} (hi : i.val < places.length) :
    m'.stack.get i = m.stack.get i := by
  have hslot : m'.stack[i.val]? = m.stack[i.val]? := by
    rw [h'.getElem?_stack hi, h.getElem?_stack hi]
  rw [Vector.getElem?_eq_getElem i.isLt, Vector.getElem?_eq_getElem i.isLt] at hslot
  exact Option.some.inj hslot

/-- The calls stay those of the list where the stack and the stack pointer stay. -/
theorem HasCalls.congr {m m' : Machine κ} {places : List UInt16} (h : m.HasCalls places)
    (hstack : m'.stack = m.stack) (hsp : m'.sp = m.sp) : m'.HasCalls places where
  calls := by
    rw [State.calls, hstack, hsp]
    exact h.calls
  sp := by
    rw [hsp]
    exact h.sp

variable [Keypad κ]

/-! ## Cycles and the list -/

/-- A call that finds room appends its own place. -/
theorem HasCalls.cycle_call {m : Machine κ} {places : List UInt16} (h : m.HasCalls places)
    (hexec : m.executes .call) (hroom : places.length < 16) :
    m.cycle.machine.HasCalls (places ++ [m.pc]) := by
  have hsp : m.sp.toNat < 16 := by
    rw [h.sp]
    exact hroom
  have hnext := toNat_sp_add_one hsp
  rw [Machine.cycle_call hexec hsp]
  constructor
  · -- One slot more is read: those before it are not the one that was set, and it holds the place.
    show (m.stack.set m.sp.toNat m.pc).toList.take (m.sp + 1).toNat = places ++ [m.pc]
    rw [hnext, Vector.toList_set, List.take_add_one, List.take_set_of_le (Nat.le_refl _),
      ← h.calls, State.calls, List.getElem?_set_self (by simpa using hsp)]
    rfl
  · show (m.sp + 1).toNat = (places ++ [m.pc]).length
    rw [hnext, h.sp, List.length_append]
    rfl

/-- A return removes the last place and goes on behind it. -/
theorem HasCalls.cycle_ret {m : Machine κ} {places : List UInt16} {last : UInt16}
    (h : m.HasCalls (places ++ [last])) (hexec : m.executes .ret) :
    m.cycle.machine.HasCalls places ∧ m.cycle.machine.pc = last + 2 := by
  have hcount : m.sp.toNat = places.length + 1 := by
    rw [h.sp, List.length_append]
    rfl
  have hsp : m.sp ≠ 0 := by
    intro hzero
    rw [hzero] at hcount
    exact absurd hcount (Nat.succ_ne_zero _).symm
  have hnext : (m.sp - 1).toNat = places.length := by
    have hsub := toNat_sp_sub_one hsp
    omega
  have hslot : m.slot (m.sp - 1) = last := by
    rw [State.slot, hnext, h.getElem?_stack (by simp), List.getElem?_concat_length]
    rfl
  rw [Machine.cycle_ret hexec hsp]
  refine ⟨⟨?_, hnext⟩, ?_⟩
  · -- The stack is left alone, and one slot less of it is read.
    show m.stack.toList.take (m.sp - 1).toNat = places
    have hcalls : m.stack.toList.take (places.length + 1) = places ++ [last] := by
      rw [← hcount]
      exact h.calls
    have hless : places.length ≤ places.length + 1 := Nat.le_succ _
    rw [hnext, ← Nat.min_eq_left hless, ← List.take_take, hcalls]
    exact List.take_left
  · show m.slot (m.sp - 1) + 2 = last + 2
    rw [hslot]

/-- Every other instruction leaves the calls alone. -/
theorem HasCalls.cycle_other {m : Machine κ} {places : List UInt16} (h : m.HasCalls places)
    (hcall : ¬ m.executes .call) (hret : ¬ m.executes .ret) : m.cycle.machine.HasCalls places := by
  refine h.congr ?_ ?_
  · rcases same_cycle m .stack with hsame | ⟨p, hp, hexec⟩
    · exact hsame
    · rw [Part.writers, List.mem_singleton] at hp
      exact absurd (hp ▸ hexec) hcall
  · rcases same_cycle m .sp with hsame | ⟨p, hp, hexec⟩
    · exact hsame
    · simp only [Part.writers, List.mem_cons, List.not_mem_nil, or_false] at hp
      rcases hp with rfl | rfl
      · exact absurd hexec hcall
      · exact absurd hexec hret

/-! ## Balanced runs -/

/-- In the steps from a machine on, every call finds room, and the returns are those from the calls
that the steps make and from `depth` calls before them. -/
inductive Balanced : Machine κ → (depth : Nat) → List (Step κ) → Prop where
  /-- All calls have returned. -/
  | done (m : Machine κ) : Balanced m 0 []
  /-- A call that finds room, which opens a level. -/
  | call {m : Machine κ} {depth : Nat} {steps : List (Step κ)} (hexec : m.executes .call)
      (hroom : m.calls.length < 16) (hrest : Balanced m.cycle.machine (depth + 1) steps) :
      Balanced m depth (.cycle :: steps)
  /-- A return, which closes a level. -/
  | ret {m : Machine κ} {depth : Nat} {steps : List (Step κ)} (hexec : m.executes .ret)
      (hrest : Balanced m.cycle.machine depth steps) : Balanced m (depth + 1) (.cycle :: steps)
  /-- Any other cycle. -/
  | other {m : Machine κ} {depth : Nat} {steps : List (Step κ)} (hcall : ¬ m.executes .call)
      (hret : ¬ m.executes .ret) (hrest : Balanced m.cycle.machine depth steps) :
      Balanced m depth (.cycle :: steps)
  /-- The timers count down. -/
  | tick {m : Machine κ} {depth : Nat} {steps : List (Step κ)}
      (hrest : Balanced m.tick depth steps) : Balanced m depth (.tick :: steps)
  /-- Keys change. -/
  | keys {m : Machine κ} {depth : Nat} {steps : List (Step κ)} (change : κ → κ)
      (hrest : Balanced (m.withKeypad change) depth steps) :
      Balanced m depth (.keys change :: steps)

/-- After balanced steps, the calls are back to those below the levels that were open. -/
theorem Balanced.hasCalls {m : Machine κ} {depth : Nat} {steps : List (Step κ)}
    (h : Balanced m depth steps) {below opened : List UInt16} (hdepth : opened.length = depth)
    (hcalls : m.HasCalls (below ++ opened)) : (m.play steps).HasCalls below := by
  -- The places of the open levels are what the machine has above the list in question.
  induction h generalizing opened with
  | done m =>
    rw [List.length_eq_zero_iff.1 hdepth, List.append_nil] at hcalls
    exact hcalls
  | @call m depth steps hexec hroom hrest ih =>
    rw [hcalls.calls] at hroom
    have hnext := hcalls.cycle_call hexec hroom
    rw [List.append_assoc] at hnext
    exact ih (by rw [List.length_append, hdepth]; rfl) hnext
  | @ret m depth steps hexec hrest ih =>
    -- There is an open level, so the last place is one of `opened` and none of `below`.
    rcases List.eq_nil_or_concat opened with rfl | ⟨front, last, rfl⟩
    · exact absurd hdepth (Nat.succ_ne_zero depth).symm
    · rw [List.concat_eq_append] at hdepth hcalls
      rw [← List.append_assoc] at hcalls
      rw [List.length_append, List.length_singleton] at hdepth
      exact ih (Nat.succ.inj hdepth) (hcalls.cycle_ret hexec).1
  | other hcall hret hrest ih => exact ih hdepth (hcalls.cycle_other hcall hret)
  | tick hrest ih => exact ih hdepth (hcalls.congr rfl rfl)
  | keys change hrest ih => exact ih hdepth (hcalls.congr rfl rfl)

/-- A subroutine ends behind its call, with the calls that were in progress before it. -/
theorem HasCalls.subroutine {m : Machine κ} {places : List UInt16} (h : m.HasCalls places)
    (hroom : places.length < 16) (hcall : m.executes .call) {steps : List (Step κ)}
    (hbalanced : Balanced m.cycle.machine 0 steps)
    (hret : (m.cycle.machine.play steps).executes .ret) :
    (m.cycle.machine.play steps).cycle.machine.HasCalls places ∧
      (m.cycle.machine.play steps).cycle.machine.pc = m.pc + 2 := by
  have hstart := h.cycle_call hcall hroom
  rw [← List.append_nil (places ++ [m.pc])] at hstart
  exact (hbalanced.hasCalls rfl hstart).cycle_ret hret

/-- In every session a call appends its own place to the calls in progress and goes on at its address,
a return removes the last place and goes on behind it, and where there is no room or no call they are
passed over and change nothing but the program counter. No other instruction, no tick and no change of
keys touches the list.

From every machine with room for a call, a run that begins with a call and ends with the return from
it, with balanced calls and returns in between, ends behind the call, with the stack pointer and the
slots below it as they were. -/
theorem calls_session (keypad : κ) (config : Config) (entropy : ChaCha.Key)
    (ops : List (Operation κ)) :
    let m := session keypad config entropy ops
    let next := m.cycle.machine
    (m.executes .call →
        (m.calls.length < 16 →
          next.calls = m.calls ++ [m.pc] ∧
            next.pc = UInt16.ofNat (Opcode.address (m.fetch m.pc)).val) ∧
        (m.calls.length = 16 → next = { m with pc := m.pc + 2 })) ∧
      (m.executes .ret →
        (∀ places last, m.calls = places ++ [last] → next.calls = places ∧ next.pc = last + 2) ∧
        (m.calls = [] → next = { m with pc := m.pc + 2 })) ∧
      (¬ m.executes .call → ¬ m.executes .ret → next.calls = m.calls) ∧
      m.tick.calls = m.calls ∧
      (∀ change, (m.withKeypad change).calls = m.calls) ∧
      ∀ (start : Machine κ) (steps : List (Step κ)),
        start.sp.toNat ≤ 15 → start.executes .call → Balanced start.cycle.machine 0 steps →
          (start.cycle.machine.play steps).executes .ret →
            let last := (start.cycle.machine.play steps).cycle.machine
            last.pc = start.pc + 2 ∧ last.sp = start.sp ∧
              ∀ i : Fin 16, i.val < start.sp.toNat → last.stack.get i = start.stack.get i := by
  intro m next
  have hcalls : m.HasCalls m.calls :=
    hasCalls_calls (sound_session keypad config entropy ops).valid.sp_le
  refine ⟨fun hexec => ⟨fun hroom => ?_, fun hfull => ?_⟩,
    fun hexec => ⟨fun places last hlist => ?_, fun hempty => ?_⟩,
    fun hcall hret => (hcalls.cycle_other hcall hret).calls, rfl, fun _ => rfl, ?_⟩
  · refine ⟨(hcalls.cycle_call hexec hroom).calls, ?_⟩
    rw [← hcalls.sp] at hroom
    exact congrArg (·.pc) (Machine.cycle_call hexec hroom)
  · rw [← hcalls.sp] at hfull
    exact cycle_call_full hexec (Nat.le_of_eq hfull.symm)
  · rw [hlist] at hcalls
    exact ⟨(hcalls.cycle_ret hexec).1.calls, (hcalls.cycle_ret hexec).2⟩
  · rw [hempty] at hcalls
    exact cycle_ret_empty hexec (UInt8.toNat_inj.1 hcalls.sp)
  · intro start steps hsp hcall hbalanced hret last
    have hstart : start.HasCalls start.calls := hasCalls_calls (Nat.le_trans hsp (by decide))
    have hroom : start.calls.length < 16 := by
      rw [← hstart.sp]
      exact Nat.lt_succ_of_le hsp
    obtain ⟨hend, hpc⟩ := hstart.subroutine hroom hcall hbalanced hret
    refine ⟨hpc, UInt8.toNat_inj.1 (by rw [hend.sp, hstart.sp]), fun i hi => ?_⟩
    rw [hstart.sp] at hi
    exact hstart.get_stack_eq hend hi

/-- A program that calls a subroutine, which calls another: the outer call is executed at `0x200`, the
inner one at `0x204`, and after both have returned the program goes on at `0x202`. -/
theorem calls_session_nested :
    let program : List UInt8 := [0x22, 0x04, 0x00, 0x00, 0x22, 0x08, 0x00, 0xEE, 0x00, 0xEE]
    let entropy : ChaCha.Key := Vector.replicate 8 0
    let m := session KeyState.allUp {} entropy [.loadProgram program]
    let steps : List (Step KeyState) := [.cycle, .cycle]
    m.executes .call ∧ Balanced m.cycle.machine 0 steps ∧
      (m.cycle.machine.play steps).executes .ret ∧
      (m.cycle.machine.play steps).cycle.machine.pc = 0x202 ∧
      (m.cycle.machine.play steps).cycle.machine.sp = 0 := by
  intro program entropy m steps
  have hcall : m.executes .call := by decide +kernel
  have hbalanced : Balanced m.cycle.machine 0 steps :=
    .call (by decide +kernel) (by decide +kernel) (.ret (by decide +kernel) (.done _))
  have hret : (m.cycle.machine.play steps).executes .ret := by decide +kernel
  obtain ⟨hpc, hsp, -⟩ := (calls_session .allUp {} entropy [.loadProgram program]).2.2.2.2.2 m
    steps (by decide) hcall hbalanced hret
  exact ⟨hcall, hbalanced, hret, hpc, hsp⟩

end Machine

end Chip8
