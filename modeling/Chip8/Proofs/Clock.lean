import Chip8.Clock

/-!
# The clock keeps count

A clock counts the cycles since the last refresh, and starts again at each. `Clock.Counted` says that it
has counted a number of cycles since its rate was set: what it holds is the remainder of that number by
the cycles of a refresh. Every cycle keeps it so, and a refresh is due with just those cycles whose number
is a multiple (`Counted.due_iff`). Nothing overflows on the way, because the count stays below the cycles
of a refresh, and these are a sixtieth of a rate that fits its word.
-/

namespace Chip8.Clock

/-- A rate is raised to the refresh rate if it is below. -/
theorem toNat_atLeastRefresh (rate : UInt32) : (atLeastRefresh rate).toNat = max 60 rate.toNat := by
  unfold atLeastRefresh
  split
  · next hlow =>
    rw [UInt32.lt_iff_toNat_lt] at hlow
    exact (Nat.max_eq_left (Nat.le_of_lt hlow)).symm
  · next hhigh =>
    rw [UInt32.lt_iff_toNat_lt, Nat.not_lt] at hhigh
    exact (Nat.max_eq_right hhigh).symm

/-- The cycles of a refresh are a sixtieth of the rate, rounded down. -/
theorem toNat_perRefresh (c : Clock) : c.perRefresh.toNat = c.rate.toNat / 60 :=
  UInt32.toNat_div _ _

/-- A clock that is early counts on. -/
theorem advance_of_lt {c : Clock} (h : c.elapsed + 1 < c.perRefresh) :
    c.advance = (false, { c with elapsed := c.elapsed + 1 }) :=
  if_neg (UInt32.not_le.2 h)

/-- A clock at the end of a refresh starts again. -/
theorem advance_of_le {c : Clock} (h : c.perRefresh ≤ c.elapsed + 1) :
    c.advance = (true, { c with elapsed := 0 }) :=
  if_pos h

/-- Counting a cycle leaves the rate alone. -/
theorem rate_advance (c : Clock) : c.advance.2.rate = c.rate := by
  unfold advance
  split <;> rfl

/-- The clock has counted `count` cycles since its rate was set. -/
structure Counted (c : Clock) (count : Nat) : Prop where
  /-- The rate is not below the refresh rate. -/
  rate_ge : 60 ≤ c.rate.toNat
  /-- What was counted since the last refresh. -/
  elapsed_eq : c.elapsed.toNat = count % c.perRefresh.toNat

/-- A clock that was just set has counted nothing. -/
theorem counted_new (rate : UInt32) : (new rate).Counted 0 where
  rate_ge := by
    show 60 ≤ (atLeastRefresh rate).toNat
    rw [toNat_atLeastRefresh]
    exact Nat.le_max_left _ _
  elapsed_eq := (Nat.zero_mod _).symm

namespace Counted

variable {c : Clock} {count : Nat}

/-- A refresh takes at least one cycle. -/
theorem perRefresh_pos (h : c.Counted count) : 0 < c.perRefresh.toNat := by
  rw [toNat_perRefresh]
  exact Nat.div_pos h.rate_ge (by decide)

/-- The count stays below the cycles of a refresh. -/
theorem elapsed_lt (h : c.Counted count) : c.elapsed.toNat < c.perRefresh.toNat := by
  rw [h.elapsed_eq]
  exact Nat.mod_lt _ h.perRefresh_pos

/-- Counting one more cycle does not overflow. -/
theorem toNat_elapsed_add_one (h : c.Counted count) :
    (c.elapsed + 1).toNat = c.elapsed.toNat + 1 := by
  have hlt := h.elapsed_lt
  have hfits : c.perRefresh.toNat < 4294967296 := c.perRefresh.toNat_lt
  rw [UInt32.toNat_add]
  exact Nat.mod_eq_of_lt (by simp; omega)

/-- The clock is at the end of a refresh with the cycles whose number is a multiple. -/
theorem perRefresh_le_iff (h : c.Counted count) :
    c.perRefresh ≤ c.elapsed + 1 ↔ c.perRefresh.toNat ∣ count + 1 := by
  have hlt := h.elapsed_lt
  have helapsed := h.elapsed_eq
  rw [UInt32.le_iff_toNat_le, h.toNat_elapsed_add_one, Nat.dvd_iff_mod_eq_zero]
  obtain ⟨p, hp⟩ : ∃ p, c.perRefresh.toNat = p + 1 := Nat.exists_eq_add_one.2 h.perRefresh_pos
  rw [hp] at hlt helapsed ⊢
  rw [Nat.succ_mod_succ_eq_zero_iff]
  omega

/-- So a refresh is due with these cycles and no others. -/
theorem due_iff (h : c.Counted count) : c.advance.1 = true ↔ c.perRefresh.toNat ∣ count + 1 := by
  by_cases hdue : c.perRefresh ≤ c.elapsed + 1
  · rw [advance_of_le hdue]
    exact iff_of_true rfl (h.perRefresh_le_iff.1 hdue)
  · rw [advance_of_lt (UInt32.not_le.1 hdue)]
    exact iff_of_false Bool.false_ne_true fun hdvd => hdue (h.perRefresh_le_iff.2 hdvd)

/-- The clock has then counted one cycle more. -/
theorem advance (h : c.Counted count) : c.advance.2.Counted (count + 1) := by
  refine ⟨by rw [rate_advance]; exact h.rate_ge, ?_⟩
  by_cases hdue : c.perRefresh ≤ c.elapsed + 1
  · have hdvd : c.perRefresh.toNat ∣ count + 1 := h.perRefresh_le_iff.1 hdue
    rw [advance_of_le hdue]
    exact (Nat.mod_eq_zero_of_dvd hdvd).symm
  · have hearly : c.elapsed + 1 < c.perRefresh := UInt32.not_le.1 hdue
    rw [advance_of_lt hearly]
    show (c.elapsed + 1).toNat = (count + 1) % c.perRefresh.toNat
    rw [UInt32.lt_iff_toNat_lt, h.toNat_elapsed_add_one, h.elapsed_eq] at hearly
    rw [h.toNat_elapsed_add_one, h.elapsed_eq, ← Nat.mod_add_mod, Nat.mod_eq_of_lt hearly]

end Counted

end Chip8.Clock
