import Chip8.Proofs.Keys

/-!
# Where execution goes on

After most instructions a machine goes on at the next word. `Machine.Redirects` lists the exceptions, each
with the place at which it goes on instead: a jump, a call that finds room, a return from a call, a jump by
an offset, a wait while no key is down, and a skip whose condition holds. `pc_cycle` says that the list is
complete: a cycle goes on where a redirection leads, and past the word if there is none.

Only the patterns of `Pattern.branches` can redirect at all, and these are looked at one by one. The skips
share one lemma, which says what a skip does from whether its condition holds (`machine_execute_skip`). As the
conditions of two opposite skips exclude each other and leave nothing between them, just one of the two passes
over the next word (`skipHolds_opposite`).
-/

namespace Chip8

namespace Pattern

/-- The skips. -/
def skips : List Pattern :=
  [.skipEqualsByte, .skipDiffersByte, .skipEquals, .skipDiffers, .skipPressed, .skipReleased]

/-- The patterns whose instructions do not always go on at the next word. -/
def branches : List Pattern := [.jump, .call, .ret, .jumpOffset, .awaitKey] ++ skips

/-- The skips in pairs, of which each skips on what the other does not. -/
def opposites : List (Pattern × Pattern) :=
  [(.skipEqualsByte, .skipDiffersByte), (.skipEquals, .skipDiffers), (.skipPressed, .skipReleased)]

/-- The digits of a word that its pattern leaves open. -/
def operands (p : Pattern) (word : UInt16) : List Nat :=
  ((p.digits.zip (Opcode.digits word)).filter (·.1.isNone)).map (·.2)

/-- Both patterns of such a pair are skips. -/
theorem mem_skips_of_opposites {p q : Pattern} (h : (p, q) ∈ opposites) : p ∈ skips ∧ q ∈ skips := by
  have hall : ∀ pair ∈ opposites, pair.1 ∈ skips ∧ pair.2 ∈ skips := by decide
  exact hall (p, q) h

/-- The operands of `3XKK` and `4XKK` are a register and a byte. -/
theorem x_byte_of_operands {word word' : UInt16}
    (h : operands .skipEqualsByte word = operands .skipDiffersByte word') :
    Opcode.x word = Opcode.x word' ∧ Opcode.byte word = Opcode.byte word' := by
  have hdigits : [(Opcode.x word).val, (Opcode.y word).val, (Opcode.n word).val] =
      [(Opcode.x word').val, (Opcode.y word').val, (Opcode.n word').val] := h
  simp only [List.cons.injEq, and_true] at hdigits
  obtain ⟨hx, hy, hn⟩ := hdigits
  exact ⟨Fin.ext hx, UInt8.toNat_inj.1 (by rw [Opcode.toNat_byte, Opcode.toNat_byte, hy, hn])⟩

/-- Those of `5XY0` and `9XY0` are two registers. -/
theorem x_y_of_operands {word word' : UInt16}
    (h : operands .skipEquals word = operands .skipDiffers word') :
    Opcode.x word = Opcode.x word' ∧ Opcode.y word = Opcode.y word' := by
  have hdigits : [(Opcode.x word).val, (Opcode.y word).val] =
      [(Opcode.x word').val, (Opcode.y word').val] := h
  simp only [List.cons.injEq, and_true] at hdigits
  exact ⟨Fin.ext hdigits.1, Fin.ext hdigits.2⟩

/-- That of `EX9E` and `EXA1` is one register. -/
theorem x_of_operands {word word' : UInt16}
    (h : operands .skipPressed word = operands .skipReleased word') :
    Opcode.x word = Opcode.x word' := by
  have hdigits : [(Opcode.x word).val] = [(Opcode.x word').val] := h
  exact Fin.ext (List.singleton_inj.1 hdigits)

/-- The word zero is outside the instruction set. -/
theorem not_fits_zero (p : Pattern) : ¬ p.fits 0 := by
  cases p <;> decide

end Pattern

namespace Machine

variable {κ : Type} [Keypad κ]

/-! ## Skips -/

/-- The condition of a skip holds, with the operands that stand in the word. -/
def SkipHolds (m : Machine κ) (word : UInt16) : Pattern → Prop
  | .skipEqualsByte => m.reg (Opcode.x word) = Opcode.byte word
  | .skipDiffersByte => m.reg (Opcode.x word) ≠ Opcode.byte word
  | .skipEquals => m.reg (Opcode.x word) = m.reg (Opcode.y word)
  | .skipDiffers => m.reg (Opcode.x word) ≠ m.reg (Opcode.y word)
  | .skipPressed =>
    Keypad.pressed m.keypad (UInt8.ofNat ((m.reg (Opcode.x word)).toNat % 16)) = true
  | .skipReleased =>
    Keypad.pressed m.keypad (UInt8.ofNat ((m.reg (Opcode.x word)).toNat % 16)) = false
  | _ => False

/-- The instruction of a skip looks at its condition. -/
theorem exists_condition (m : Machine κ) (word : UInt16) {p : Pattern} (h : p ∈ Pattern.skips) :
    ∃ condition, p.instruction word = .skip condition ∧
      ((m.test condition).1 = true ↔ m.SkipHolds word p) := by
  simp only [Pattern.skips, List.mem_cons, List.not_mem_nil, or_false] at h
  rcases h with rfl | rfl | rfl | rfl | rfl | rfl
  · exact ⟨_, rfl, by simp [test, SkipHolds]⟩
  · exact ⟨_, rfl, by simp [test, SkipHolds]⟩
  · exact ⟨_, rfl, by simp [test, SkipHolds]⟩
  · exact ⟨_, rfl, by simp [test, SkipHolds]⟩
  · exact ⟨_, rfl, by simp [test, Keypad.ask, SkipHolds, keyOf_eq_ofNat]⟩
  · exact ⟨_, rfl, by simp [test, Keypad.ask, SkipHolds, keyOf_eq_ofNat]⟩

/-- A skip passes over the next word if its condition holds, and changes nothing else. -/
theorem machine_execute_skip (m : Machine κ) (word : UInt16) {p : Pattern} (h : p ∈ Pattern.skips) :
    (m.SkipHolds word p → (m.execute (p.instruction word)).machine = { m with pc := m.pc + 4 }) ∧
      (¬ m.SkipHolds word p →
        (m.execute (p.instruction word)).machine = { m with pc := m.pc + 2 }) := by
  obtain ⟨condition, hinstruction, hholds⟩ := m.exists_condition word h
  rw [hinstruction]
  constructor
  · intro htaken
    have htwice : m.advance.advance = { m with pc := m.pc + 4 } := by
      simp only [advance, UInt16.add_assoc]
      rfl
    simp only [execute, skip, Outcome.quiet, hholds.2 htaken, if_true, htwice]
  · intro hpassed
    have hfalse : (m.test condition).1 = false := Bool.eq_false_iff.2 fun hc => hpassed (hholds.1 hc)
    simp only [execute, skip, Outcome.quiet, hfalse, Bool.false_eq_true, if_false]
    rfl

/-- Of two opposite skips with the same operands, the condition of one holds just when that of the other
does not. -/
theorem skipHolds_opposite (m : Machine κ) {p q : Pattern} (h : (p, q) ∈ Pattern.opposites)
    {word word' : UInt16} (hoperands : p.operands word = q.operands word') :
    m.SkipHolds word p ↔ ¬ m.SkipHolds word' q := by
  simp only [Pattern.opposites, List.mem_cons, Prod.mk.injEq, List.not_mem_nil, or_false] at h
  rcases h with ⟨rfl, rfl⟩ | ⟨rfl, rfl⟩ | ⟨rfl, rfl⟩
  · obtain ⟨hx, hbyte⟩ := Pattern.x_byte_of_operands hoperands
    simp only [SkipHolds, hx, hbyte, not_not]
  · obtain ⟨hx, hy⟩ := Pattern.x_y_of_operands hoperands
    simp only [SkipHolds, hx, hy, not_not]
  · have hx := Pattern.x_of_operands hoperands
    simp only [SkipHolds, hx, Bool.not_eq_false]

/-- So two opposite skips with the same operands lead to machines of which one has passed over the next word
and the other has not, and which are otherwise the same. -/
theorem execute_opposite (m : Machine κ) {p q : Pattern} (h : (p, q) ∈ Pattern.opposites)
    {word word' : UInt16} (hp : p.fits word) (hq : q.fits word')
    (hoperands : p.operands word = q.operands word') :
    let a := (m.execute (.ofWord word)).machine
    let b := (m.execute (.ofWord word')).machine
    (a = { m with pc := m.pc + 4 } ∧ b = { m with pc := m.pc + 2 }) ∨
      (a = { m with pc := m.pc + 2 } ∧ b = { m with pc := m.pc + 4 }) := by
  intro a b
  obtain ⟨hpskip, hqskip⟩ := Pattern.mem_skips_of_opposites h
  obtain ⟨hataken, hapassed⟩ := m.machine_execute_skip word hpskip
  obtain ⟨hbtaken, hbpassed⟩ := m.machine_execute_skip word' hqskip
  have ha : a = (m.execute (p.instruction word)).machine := by
    rw [← Instruction.ofWord_of_fits hp]
  have hb : b = (m.execute (q.instruction word')).machine := by
    rw [← Instruction.ofWord_of_fits hq]
  have hopposite := m.skipHolds_opposite h hoperands
  rw [ha, hb]
  by_cases hholds : m.SkipHolds word' q
  · exact .inr ⟨hapassed fun hother => hopposite.1 hother hholds, hbtaken hholds⟩
  · exact .inl ⟨hataken (hopposite.2 hholds), hbpassed hholds⟩

/-! ## Redirections -/

/-- The instruction of the next cycle does not go on at the next word, but at a target. -/
inductive Redirects (m : Machine κ) : (target : Nat) → Prop where
  /-- `1NNN` goes on at its address. -/
  | jump (h : m.executes .jump) : Redirects m ((m.fetch m.pc).toNat % 4096)
  /-- `2NNN` goes on at its address, if there is room for the call. -/
  | call (h : m.executes .call) (hroom : m.sp.toNat < 16) :
    Redirects m ((m.fetch m.pc).toNat % 4096)
  /-- `00EE` goes on behind the place of the most recent call, if there is one. -/
  | ret (h : m.executes .ret) (hsp : 0 < m.sp.toNat) :
    Redirects m ((m.slot (m.sp - 1)).toNat + 2)
  /-- `BNNN` goes on at the sum of V0 and its address, within memory. -/
  | jumpOffset (h : m.executes .jumpOffset) :
    Redirects m (((m.reg 0).toNat + (m.fetch m.pc).toNat % 4096) % 4096)
  /-- `FX0A` stays where it is while no key is down. -/
  | wait (h : m.executes .awaitKey) (hkeys : Keypad.AllReleased m.keypad) : Redirects m m.pc.toNat
  /-- A skip whose condition holds passes over the next word. -/
  | skip {p : Pattern} (h : m.executes p) (hholds : m.SkipHolds (m.fetch m.pc) p) :
    Redirects m (m.pc.toNat + 4)

/-- Only a skip has a condition. -/
theorem SkipHolds.mem_skips {m : Machine κ} {word : UInt16} {p : Pattern}
    (h : m.SkipHolds word p) : p ∈ Pattern.skips := by
  cases p with
  | skipEqualsByte | skipDiffersByte | skipEquals | skipDiffers | skipPressed | skipReleased => decide
  | _ => exact h.elim

/-- The address of a word as a place. -/
theorem toNat_ofNat_address (word : UInt16) :
    (UInt16.ofNat (Opcode.address word).val).toNat = word.toNat % 4096 := by
  have hval : (Opcode.address word).val = word.toNat % 4096 := rfl
  rw [hval, UInt16.toNat_ofNat']
  omega

/-- A cycle goes on where a redirection leads. -/
theorem Redirects.pc_cycle {m : Machine κ} {target : Nat} (h : m.Redirects target) :
    m.cycle.machine.pc.toNat = target % 65536 := by
  have hlt : (m.fetch m.pc).toNat % 4096 < 65536 := by omega
  cases h with
  | jump h =>
    rw [cycle_of_executes h, Nat.mod_eq_of_lt hlt]
    exact toNat_ofNat_address _
  | call h hroom =>
    rw [cycle_call h hroom, Nat.mod_eq_of_lt hlt]
    exact toNat_ofNat_address _
  | ret h hsp =>
    have hne : m.sp ≠ 0 := fun hzero => absurd hsp (by rw [hzero]; decide)
    rw [cycle_ret h hne]
    exact UInt16.toNat_add _ _
  | jumpOffset h =>
    rw [cycle_of_executes h]
    show (((m.reg 0).toUInt16 + UInt16.ofNat (Opcode.address (m.fetch m.pc)).val) &&& 0x0FFF).toNat = _
    have hreg := (m.reg 0).toNat_lt
    -- The sum fits its word, and the mask leaves its remainder.
    have hsum : ((m.reg 0).toUInt16 + UInt16.ofNat (Opcode.address (m.fetch m.pc)).val).toNat =
        (m.reg 0).toNat + (m.fetch m.pc).toNat % 4096 := by
      rw [UInt16.toNat_add, toNat_ofNat_address, UInt8.toNat_toUInt16]
      omega
    rw [UInt16.toNat_and, hsum]
    show _ &&& 4095 = _
    rw [Nat.and_two_pow_sub_one_eq_mod _ 12]
    omega
  | wait h hkeys =>
    rw [(cycle_awaitKey_of_allReleased h hkeys).2]
    exact (Nat.mod_eq_of_lt m.pc.toNat_lt).symm
  | skip h hholds =>
    rw [cycle_of_executes h, (m.machine_execute_skip _ hholds.mem_skips).1 hholds]
    exact UInt16.toNat_add _ _

/-- An instruction of a pattern that is no branch goes on at the next word. -/
theorem pc_execute (m : Machine κ) (word : UInt16) {p : Pattern} (h : p ∉ Pattern.branches) :
    (m.execute (p.instruction word)).machine.pc = m.pc + 2 := by
  cases p with
  | jump | call | ret | jumpOffset | awaitKey | skipEqualsByte | skipDiffersByte | skipEquals
  | skipDiffers | skipPressed | skipReleased => exact absurd (by decide) h
  | _ => rfl

/-- A cycle without a redirection goes on at the next word. -/
theorem pc_cycle_of_not_redirects {m : Machine κ} (hrunning : m.paused = false)
    (h : ∀ target, ¬ m.Redirects target) : m.cycle.machine.pc = m.advance.pc := by
  rcases Instruction.ofWord_cases (m.fetch m.pc) with ⟨p, hfits, -⟩ | ⟨hnone, -⟩
  · have hp : m.executes p := executes_iff.2 ⟨hrunning, hfits⟩
    by_cases hbranch : p ∈ Pattern.branches
    · -- The branches one by one: each of them lacks what it needs to redirect.
      rw [Pattern.branches, List.mem_append] at hbranch
      rcases hbranch with hother | hskip
      · simp only [List.mem_cons, List.not_mem_nil, or_false] at hother
        rcases hother with rfl | rfl | rfl | rfl | rfl
        · exact absurd (.jump hp) (h _)
        · have hfull : 16 ≤ m.sp.toNat := Nat.not_lt.1 fun hroom => h _ (.call hp hroom)
          rw [cycle_call_full hp hfull]
        · have hzero : m.sp = 0 :=
            UInt8.toNat_inj.1 (Nat.eq_zero_of_not_pos fun hsp => h _ (.ret hp hsp))
          rw [cycle_ret_empty hp hzero]
        · exact absurd (.jumpOffset hp) (h _)
        · rcases Keypad.allReleased_or m.keypad with hnone | hpressed
          · exact absurd (.wait hp hnone) (h _)
          · obtain ⟨key, hkey⟩ := Keypad.exists_isHighest hpressed
            rw [(cycle_awaitKey_of_isHighest hp hkey).2]
            rfl
      · rw [cycle_of_executes hp,
          (m.machine_execute_skip _ hskip).2 fun hholds => h _ (.skip hp hholds)]
        rfl
    · rw [cycle_of_executes hp]
      exact pc_execute m _ hbranch
  · rw [cycle_of_forall_not_fits hrunning hnone]

omit [Keypad κ] in
/-- No word that memory does not hold is one of the instruction set. -/
theorem not_fits_of_outside {m : Machine κ} (h : 4095 ≤ m.pc.toNat) (p : Pattern) :
    ¬ p.fits (m.fetch m.pc) := by
  have hzero : m.fetch m.pc = 0 := Memory.fetch_eq_zero (Nat.succ_le_succ h)
  rw [hzero]
  exact p.not_fits_zero

omit [Keypad κ] in
/-- A return reads the slot below the stack pointer. -/
theorem slot_sp_sub_one {m : Machine κ} {i : Fin 16} (h : m.sp.toNat = i.val + 1) :
    m.slot (m.sp - 1) = m.stack.get i := by
  have hne : m.sp ≠ 0 := fun hzero => absurd h (by rw [hzero]; exact (Nat.succ_ne_zero _).symm)
  have hlast : (m.sp - 1).toNat = i.val := by
    have hnext := toNat_sp_sub_one hne
    omega
  rw [State.slot, hlast, Vector.getElem?_eq_getElem i.isLt]
  rfl

/-- Where a machine that is not held goes on after a cycle, whatever its state and the word at its program
counter. It goes on where a redirection leads, and past the word if there is none: so after a call without
room, a return without a call, a word outside the instruction set, and wherever memory holds no word.

Two opposite skips with the same operands, carried out in the same state, leave machines that differ in the
program counter only: one of them has passed over the next word, and the other goes on at it. -/
theorem pc_after_cycle (m : Machine κ) (hrunning : m.paused = false) :
    let word := m.fetch m.pc
    let next := m.cycle.machine.pc.toNat
    let past := (m.pc.toNat + 2) % 65536
    (∀ target, m.Redirects target → next = target % 65536) ∧
      (∀ i : Fin 16, m.sp.toNat = i.val + 1 → m.slot (m.sp - 1) = m.stack.get i) ∧
      ((∀ target, ¬ m.Redirects target) → next = past) ∧
      (Pattern.call.fits word → 16 ≤ m.sp.toNat → next = past) ∧
      (Pattern.ret.fits word → m.sp = 0 → next = past) ∧
      ((∀ p : Pattern, ¬ p.fits word) → next = past) ∧
      (4095 ≤ m.pc.toNat → next = past) ∧
      ∀ p q : Pattern, (p, q) ∈ Pattern.opposites → ∀ w w' : UInt16, p.fits w → q.fits w' →
        p.operands w = q.operands w' →
          let a := (m.execute (.ofWord w)).machine
          let b := (m.execute (.ofWord w')).machine
          (a = { m with pc := m.pc + 4 } ∧ b = { m with pc := m.pc + 2 }) ∨
            (a = { m with pc := m.pc + 2 } ∧ b = { m with pc := m.pc + 4 }) := by
  intro word next past
  have hpast : m.advance.pc.toNat = past := UInt16.toNat_add _ _
  have hunmapped (hnone : ∀ p : Pattern, ¬ p.fits word) : next = past := by
    rw [← hpast, ← cycle_of_forall_not_fits hrunning hnone]
  refine ⟨fun target h => h.pc_cycle, fun i => slot_sp_sub_one, fun hnone => ?_,
    fun hfits hfull => ?_, fun hfits hzero => ?_, hunmapped,
    fun houtside => hunmapped (not_fits_of_outside houtside),
    fun p q h w w' hp hq => m.execute_opposite h hp hq⟩
  · rw [← hpast, ← pc_cycle_of_not_redirects hrunning hnone]
  · have hexec : m.executes .call := executes_iff.2 ⟨hrunning, hfits⟩
    rw [← hpast, ← cycle_call_full hexec hfull]
  · have hexec : m.executes .ret := executes_iff.2 ⟨hrunning, hfits⟩
    rw [← hpast, ← cycle_ret_empty hexec hzero]

/-- A jump by an offset from the last address of a jump leaves memory and comes back at its start, and the two
skips on the key that V0 names part there. -/
theorem pc_after_cycle_offset :
    let m : Machine KeyState :=
      { session KeyState.allUp {} (Vector.replicate 8 0)
          [.loadProgram [0x60, 0x13, 0xBF, 0xFF], .cycle] with
        keypad := KeyState.allUp.set 3 true }
    m.paused = false ∧ m.Redirects 0x12 ∧ m.cycle.machine.pc.toNat = 0x12 ∧
      Pattern.skipPressed.fits 0xE09E ∧ Pattern.skipReleased.fits 0xE0A1 ∧
      (m.execute (.ofWord 0xE09E)).machine.pc = 0x206 ∧
      (m.execute (.ofWord 0xE0A1)).machine = { m with pc := m.pc + 2 } := by
  intro m
  have hrunning : m.paused = false := by decide +kernel
  have htarget : ((m.reg 0).toNat + (m.fetch m.pc).toNat % 4096) % 4096 = 0x12 := by decide +kernel
  have hredirects : m.Redirects 0x12 := htarget ▸ .jumpOffset (by decide +kernel)
  obtain ⟨hnext, -, -, -, -, -, -, hopposite⟩ := m.pc_after_cycle hrunning
  have hpressed : (m.execute (.ofWord 0xE09E)).machine.pc = 0x206 := by decide +kernel
  have hplace : m.pc = 0x202 := by decide +kernel
  refine ⟨hrunning, hredirects, hnext _ hredirects, by decide, by decide, hpressed, ?_⟩
  rcases hopposite .skipPressed .skipReleased (by decide) 0xE09E 0xE0A1 (by decide) (by decide)
    (by decide) with ⟨-, hreleased⟩ | ⟨hsame, -⟩
  · exact hreleased
  · rw [hsame] at hpressed
    exact absurd hpressed (by show m.pc + 2 ≠ 0x206; rw [hplace]; decide)

end Machine

end Chip8
