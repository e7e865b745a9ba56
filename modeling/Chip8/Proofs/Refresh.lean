import Chip8.Proofs.Clock

/-!
# How often a refresh is due

A host counts cycles on its clock and changes the rate whenever it likes. All that a clock remembers of that
is the rate that was set last and how many cycles were counted since: `Setting` is this memory, kept beside
the clock, and `Clock.Follows` says that the clock agrees with it. Each call keeps it so, and so do calls one
after another (`Follows.calls`).

From there on it is arithmetic. The refreshes that are due among any cycles in a row are the multiples of
the period that are passed (`Counted.due_add_div`). The period is the sixtieth of the rate, rounded down, so
that refreshes come at 60 Hz or faster, and never twice as fast: there are as many of them as the rate in
as many seconds as the period (`Counted.due_seconds`), and from 60 to 119 in every second
(`Counted.due_second`).
-/

namespace Chip8.Clock

/-! ## Calls -/

/-- What a host does with its clock. -/
inductive Call where
  /-- Counts one cycle. -/
  | advance
  /-- Changes the rate. -/
  | setRate (rate : UInt32)

/-- The clock after a call. -/
def call (c : Clock) : Call → Clock
  | .advance => c.advance.2
  | .setRate rate => c.setRate rate

/-- The clock after calls, one after another. -/
def calls (c : Clock) (xs : List Call) : Clock := xs.foldl call c

/-- What calls leave to be remembered. -/
structure Setting where
  /-- The rate that was given last. -/
  rate : UInt32
  /-- How many cycles were counted since then. -/
  cycles : Nat := 0

namespace Setting

/-- What is to be remembered after another call. -/
def follow (s : Setting) : Call → Setting
  | .advance => { s with cycles := s.cycles + 1 }
  | .setRate rate => { rate }

/-- What is to be remembered after calls, one after another. -/
def followAll (s : Setting) (xs : List Call) : Setting := xs.foldl follow s

end Setting

/-- The clock runs at the rate of the setting, raised to the refresh rate, and has counted its cycles. -/
structure Follows (c : Clock) (s : Setting) : Prop where
  /-- The rate is the one that was given last. -/
  rate_eq : c.rate = atLeastRefresh s.rate
  /-- The cycles since then were counted. -/
  counted : c.Counted s.cycles

/-- A clock that was just set has nothing else to remember. -/
theorem follows_new (rate : UInt32) : (new rate).Follows { rate } := ⟨rfl, counted_new rate⟩

namespace Follows

variable {c : Clock} {s : Setting}

/-- Every call is followed. -/
theorem call (h : c.Follows s) (x : Call) : (c.call x).Follows (s.follow x) := by
  cases x with
  | advance =>
    refine ⟨?_, h.counted.advance⟩
    rw [Clock.call, rate_advance]
    exact h.rate_eq
  | setRate rate => exact follows_new rate

/-- So are calls one after another. -/
theorem calls (h : c.Follows s) (xs : List Call) : (c.calls xs).Follows (s.followAll xs) := by
  induction xs generalizing c s with
  | nil => exact h
  | cons x xs ih => exact ih (h.call x)

/-- The rate in force is the one that was given last, or 60 if that is more. -/
theorem toNat_rate (h : c.Follows s) : c.rate.toNat = max 60 s.rate.toNat := by
  rw [h.rate_eq, toNat_atLeastRefresh]

end Follows

/-! ## Refreshes -/

/-- How many refreshes are due with the next cycles. -/
def due (c : Clock) : (cycles : Nat) → Nat
  | 0 => 0
  | cycles + 1 => (if c.advance.1 then 1 else 0) + c.advance.2.due cycles

/-- The cycles of a refresh stay those of the rate. -/
theorem perRefresh_advance (c : Clock) : c.advance.2.perRefresh = c.perRefresh := by
  rw [perRefresh, rate_advance, perRefresh]

namespace Counted

variable {c : Clock} {count : Nat}

/-- The refreshes that are due are the multiples of the period that the count passes. -/
theorem due_add_div (h : c.Counted count) (cycles : Nat) :
    count / c.perRefresh.toNat + c.due cycles = (count + cycles) / c.perRefresh.toNat := by
  induction cycles generalizing c count with
  | zero => rfl
  | succ cycles ih =>
    have hrest := ih h.advance
    rw [perRefresh_advance] at hrest
    calc count / c.perRefresh.toNat + c.due (cycles + 1)
        = count / c.perRefresh.toNat + (if c.perRefresh.toNat ∣ count + 1 then 1 else 0) +
            c.advance.2.due cycles := by rw [due, Nat.add_assoc]; simp only [h.due_iff]
      _ = (count + 1) / c.perRefresh.toNat + c.advance.2.due cycles := by rw [Nat.succ_div]
      _ = (count + (cycles + 1)) / c.perRefresh.toNat := by rw [hrest, Nat.add_assoc, Nat.add_comm 1]

/-- In as many seconds as the period, as many refreshes are due as the rate, at whatever count they begin. -/
theorem due_seconds (h : c.Counted count) :
    c.due (c.perRefresh.toNat * c.rate.toNat) = c.rate.toNat := by
  have hcount := h.due_add_div (c.perRefresh.toNat * c.rate.toNat)
  rw [Nat.add_mul_div_left _ _ h.perRefresh_pos] at hcount
  exact Nat.add_left_cancel hcount

/-- The refreshes among any cycles are as many as periods fit into their number, give or take the one that
the cycles begin in. -/
theorem due_bounds (h : c.Counted count) (cycles : Nat) :
    c.perRefresh.toNat * c.due cycles < cycles + c.perRefresh.toNat ∧
      cycles < c.perRefresh.toNat * (c.due cycles + 1) := by
  have hpos := h.perRefresh_pos
  -- The counts before and after the cycles, each between two multiples of the period.
  have hbefore := Nat.mul_div_le count c.perRefresh.toNat
  have hbefore' := Nat.lt_mul_div_succ count hpos
  have hafter := Nat.mul_div_le (count + cycles) c.perRefresh.toNat
  have hafter' := Nat.lt_mul_div_succ (count + cycles) hpos
  rw [← h.due_add_div] at hafter hafter'
  simp only [Nat.mul_add] at hbefore hbefore' hafter hafter' ⊢
  omega

end Counted

/-! ## The period of the refreshes -/

/-- The rate is at least sixty times the period. -/
theorem sixty_mul_perRefresh_le (c : Clock) : 60 * c.perRefresh.toNat ≤ c.rate.toNat := by
  rw [toNat_perRefresh]
  exact Nat.mul_div_le _ _

/-- It is below sixty times the next period. -/
theorem rate_lt_sixty_mul (c : Clock) : c.rate.toNat < 60 * (c.perRefresh.toNat + 1) := by
  rw [toNat_perRefresh]
  exact Nat.lt_mul_div_succ _ (by decide)

/-- A cycle takes as many nanoseconds as the rate fits into a second. -/
theorem periodNanos_mul_rate_le (c : Clock) : c.periodNanos * c.rate.toNat ≤ 1000000000 :=
  Nat.div_mul_le_self _ _

/-- The cycles of a refresh take a sixtieth of a second at the most. -/
theorem sixty_mul_refresh_le (c : Clock) :
    60 * (c.perRefresh.toNat * c.periodNanos) ≤ 1000000000 := by
  calc 60 * (c.perRefresh.toNat * c.periodNanos)
      = c.periodNanos * (60 * c.perRefresh.toNat) := by rw [← Nat.mul_assoc, Nat.mul_comm]
    _ ≤ c.periodNanos * c.rate.toNat := Nat.mul_le_mul_left _ c.sixty_mul_perRefresh_le
    _ ≤ 1000000000 := c.periodNanos_mul_rate_le

namespace Counted

variable {c : Clock} {count : Nat}

/-- The rate is below 120 times the period, because a period has at least one cycle. -/
theorem rate_lt (h : c.Counted count) : c.rate.toNat < 120 * c.perRefresh.toNat := by
  have hpos := h.perRefresh_pos
  calc c.rate.toNat < 60 * (c.perRefresh.toNat + 1) := c.rate_lt_sixty_mul
    _ ≤ 120 * c.perRefresh.toNat := by omega

/-- A nanosecond more in every cycle would not fit into a second. -/
theorem lt_periodNanos_add_one_mul (h : c.Counted count) :
    1000000000 < (c.periodNanos + 1) * c.rate.toNat := by
  have hpos : 0 < c.rate.toNat := Nat.lt_of_lt_of_le (by decide) h.rate_ge
  rw [Nat.mul_comm]
  exact Nat.lt_mul_div_succ _ hpos

/-- In every second, from 60 to 119 refreshes are due. -/
theorem due_second (h : c.Counted count) :
    60 ≤ c.due c.rate.toNat ∧ c.due c.rate.toNat < 120 := by
  have hpos := h.perRefresh_pos
  obtain ⟨hupper, hlower⟩ := h.due_bounds c.rate.toNat
  constructor
  · have hmul : c.perRefresh.toNat * 60 < c.perRefresh.toNat * (c.due c.rate.toNat + 1) := by
      calc c.perRefresh.toNat * 60 = 60 * c.perRefresh.toNat := Nat.mul_comm _ _
        _ ≤ c.rate.toNat := c.sixty_mul_perRefresh_le
        _ < c.perRefresh.toNat * (c.due c.rate.toNat + 1) := hlower
    exact Nat.le_of_lt_succ (Nat.lt_of_mul_lt_mul_left hmul)
  · have hmul : c.perRefresh.toNat * c.due c.rate.toNat < c.perRefresh.toNat * 120 := by
      calc c.perRefresh.toNat * c.due c.rate.toNat < c.rate.toNat + c.perRefresh.toNat := hupper
        _ ≤ 60 * (c.perRefresh.toNat + 1) - 1 + c.perRefresh.toNat :=
          Nat.add_le_add_right (Nat.le_sub_one_of_lt c.rate_lt_sixty_mul) _
        _ ≤ c.perRefresh.toNat * 120 := by omega
    exact Nat.lt_of_mul_lt_mul_left hmul

end Counted

/-- What becomes of a clock over calls of any kind and in any order, from any rate. It runs at the rate that
was given last, or at 60 if that is more. The count since the last refresh is below the period, so that one
more cycle always fits its word, and the next cycle is due just when its number since the rate was given is a
multiple of the period. The period is the sixtieth of the rate, rounded down: in as many seconds as the
period there are as many refreshes as the rate, and never fewer than 60 or as many as 120 in a second. The
nanoseconds of a cycle are a second divided by the rate, rounded down, so that a refresh is never later than
after a sixtieth of a second. -/
theorem calls_due (rate : UInt32) (xs : List Call) :
    let c := (new rate).calls xs
    let s := Setting.followAll { rate } xs
    let hz := c.rate.toNat
    let period := c.perRefresh.toNat
    let nanos := c.periodNanos
    hz = max 60 s.rate.toNat ∧
      (1 ≤ period ∧ c.elapsed.toNat < period ∧ c.elapsed.toNat + 1 < UInt32.size) ∧
      (c.advance.1 = true ↔ period ∣ s.cycles + 1) ∧
      (60 * period ≤ hz ∧ hz < 60 * (period + 1)) ∧
      (c.due (period * hz) = hz ∧ hz < 120 * period) ∧
      (60 ≤ c.due hz ∧ c.due hz < 120) ∧
      (nanos * hz ≤ 1000000000 ∧ 1000000000 < (nanos + 1) * hz) ∧
      60 * (period * nanos) ≤ 1000000000 := by
  intro c s hz period nanos
  have hfollows : c.Follows s := (follows_new rate).calls xs
  have hcounted := hfollows.counted
  have hfits : c.elapsed.toNat + 1 < UInt32.size :=
    Nat.lt_of_le_of_lt hcounted.elapsed_lt c.perRefresh.toNat_lt
  exact ⟨hfollows.toNat_rate, ⟨hcounted.perRefresh_pos, hcounted.elapsed_lt, hfits⟩, hcounted.due_iff,
    ⟨c.sixty_mul_perRefresh_le, c.rate_lt_sixty_mul⟩,
    ⟨hcounted.due_seconds, hcounted.rate_lt⟩, hcounted.due_second,
    ⟨c.periodNanos_mul_rate_le, hcounted.lt_periodNanos_add_one_mul⟩, c.sixty_mul_refresh_le⟩

end Chip8.Clock
