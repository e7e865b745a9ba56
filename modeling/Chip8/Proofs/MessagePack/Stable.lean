import Chip8.MessagePack.Reader

/-!
# Readers do not look ahead

A reader is stable when what it finds at the front of some bytes does not depend on what follows:
more bytes at the end are handed on with the rest. `Value.stable_read` shows it for `Value.read`, by
induction on the depth, from the same fact of every smaller reader. The two ways to put readers
together, one after another (`Stable.bind`) and with a function on the result (`Stable.map`), keep
it.

A stable reader that uses up some bytes finds nothing in any shorter piece of their front
(`Stable.eq_none_of_append`): what it found there would be followed by the missing bytes, and not by
nothing.
-/

namespace Chip8.MessagePack

/-- What the reader finds at the front of some bytes does not depend on what follows. -/
def Stable {α : Type} (reader : Reader α) : Prop :=
  ∀ ⦃bytes value rest⦄, reader bytes = some (value, rest) →
    ∀ more, reader (bytes ++ more) = some (value, rest ++ more)

variable {α β : Type}

/-- A stable reader that uses up some bytes finds nothing if bytes are missing at their end. -/
theorem Stable.eq_none_of_append {reader : Reader α} (h : Stable reader) {front tail : List UInt8}
    {value : α} (hwhole : reader (front ++ tail) = some (value, [])) (htail : tail ≠ []) :
    reader front = none := by
  rcases hfront : reader front with _ | ⟨value', rest⟩
  · rfl
  · have hmore := h hfront tail
    rw [hwhole] at hmore
    have hrest : rest ++ tail = [] := (Prod.mk.inj (Option.some.inj hmore)).2.symm
    exact absurd (List.append_eq_nil_iff.1 hrest).2 htail

/-! ## Putting readers together -/

/-- A reader that takes nothing is stable. -/
theorem stable_give (value : α) : Stable fun bytes => some (value, bytes) := by
  intro bytes value' rest h more
  obtain ⟨rfl, rfl⟩ := Prod.mk.inj (Option.some.inj h)
  rfl

/-- A reader that finds nothing is stable. -/
theorem stable_refuse : Stable fun _ => (none : Option (α × List UInt8)) := by
  intro bytes value rest h
  cases h

/-- A function on the result keeps a reader stable. -/
theorem Stable.map {reader : Reader α} (h : Stable reader) (f : α → β) :
    Stable fun bytes => (reader bytes).map fun (value, rest) => (f value, rest) := by
  intro bytes value rest hread more
  obtain ⟨⟨first, middle⟩, hfirst, heq⟩ := Option.map_eq_some_iff.1 hread
  obtain ⟨rfl, rfl⟩ := Prod.mk.inj heq
  simp only [h hfirst more, Option.map_some]

/-- A reader that hands what it finds to another one is stable if both are. -/
theorem Stable.bind {reader : Reader α} (h : Stable reader) {next : α → Reader β}
    (hnext : ∀ value, Stable (next value)) {whole : Reader β}
    (hwhole : ∀ bytes, whole bytes = (reader bytes).bind fun (value, rest) => next value rest) :
    Stable whole := by
  intro bytes value rest hread more
  rw [hwhole] at hread ⊢
  obtain ⟨⟨first, middle⟩, hfirst, hrest⟩ := Option.bind_eq_some_iff.1 hread
  rw [h hfirst more, Option.bind_some]
  exact hnext first hrest more

/-- A choice between stable readers that does not look at the bytes is stable. -/
theorem Stable.ite {c : Prop} [Decidable c] {reader reader' : Reader α} (h : Stable reader)
    (h' : Stable reader') : Stable fun bytes => if c then reader bytes else reader' bytes := by
  by_cases hc : c
  · simpa only [if_pos hc] using h
  · simpa only [if_neg hc] using h'

/-- Taking a number of bytes is stable. -/
theorem stable_takeBytes (count : Nat) : Stable (takeBytes count) := by
  intro bytes front rest h more
  simp only [takeBytes, List.length_take] at h ⊢
  split at h
  · next hcount =>
    have hle : count ≤ bytes.length := by omega
    obtain ⟨rfl, rfl⟩ := Prod.mk.inj (Option.some.inj h)
    rw [if_pos (by simp; omega), List.take_append_of_le_length hle,
      List.drop_append_of_le_length hle]
  · cases h

/-- Taking a number of some width is stable. -/
theorem stable_takeNat (width : Nat) : Stable (takeNat width) := (stable_takeBytes width).map _

/-- Taking values one after another is stable, by induction on their number. -/
theorem Stable.takeMany {reader : Reader α} (h : Stable reader) (count : Nat) (taken : List α) :
    Stable (takeMany reader count taken) := by
  induction count generalizing taken with
  | zero => exact stable_give taken.reverse
  | succ count ih =>
    refine h.bind (fun value => ih (value :: taken)) fun bytes => ?_
    rw [MessagePack.takeMany]
    cases reader bytes <;> rfl

/-- Taking two values is stable. -/
theorem Stable.takePair {reader : Reader α} (h : Stable reader) : Stable (takePair reader) := by
  refine h.bind (fun first => h.map fun second => (first, second)) fun bytes => ?_
  rw [MessagePack.takePair]
  cases reader bytes <;> rfl

/-! ## The start of a value -/

namespace Head

theorem stable_ofNat (width : Nat) (make : Nat → Head) : Stable (ofNat width make) :=
  (stable_takeNat width).map make

theorem stable_ofBytes (count : Nat) (make : List UInt8 → Value) : Stable (ofBytes count make) :=
  (stable_takeBytes count).map fun front => Head.leaf (make front)

theorem stable_sized (width : Nat) (make : List UInt8 → Value) : Stable (sized width make) := by
  refine (stable_takeNat width).bind (fun count => stable_ofBytes count make) fun bytes => ?_
  rw [sized]
  cases takeNat width bytes <;> rfl

/-- What follows a mark is taken in one of five ways. -/
theorem stable_ofMark (mark : Nat) : Stable (ofMark mark) := by
  unfold ofMark
  split <;>
    first
    | exact stable_give _
    | exact stable_ofNat _ _
    | exact stable_ofBytes _ _
    | exact stable_sized _ _
    | exact stable_refuse

/-- Reading the start of a value is stable: its first byte says how much follows. -/
theorem stable_read : Stable read := by
  have hcons (first : UInt8) : Stable fun rest => read (first :: rest) :=
    (stable_give _).ite <| (stable_give _).ite <| (stable_give _).ite <|
      (stable_ofBytes _ _).ite <| (stable_ofMark _).ite (stable_give _)
  intro bytes head rest h more
  cases bytes with
  | nil => cases h
  | cons first bytes => exact hcons first h more

end Head

/-- Taking a value of an application type is stable. -/
theorem stable_takeExtension (size : Nat) : Stable (takeExtension size) := by
  refine (stable_takeNat 1).bind
    (fun type => (stable_takeBytes size).map fun front => Value.extension (signed 1 type) front)
    fun bytes => ?_
  rw [takeExtension]
  cases takeNat 1 bytes <;> rfl

/-! ## Values -/

/-- Reading a value is stable, by induction on the depth: the head says what follows it, and what
follows it is less deep. -/
theorem Value.stable_read (depth : Nat) : Stable (Value.read depth) := by
  induction depth with
  | zero =>
    intro bytes value rest h more
    rw [Value.read] at h ⊢
    rcases hhead : Head.read bytes with _ | ⟨head, middle⟩
    · rw [hhead] at h
      cases h
    · rw [hhead] at h
      rw [Head.stable_read hhead more]
      -- Only a complete value is read at depth zero.
      cases head with
      | leaf => exact stable_give _ h more
      | array | map | extension => cases h
  | succ depth ih =>
    intro bytes value rest h more
    rw [Value.read] at h ⊢
    rcases hhead : Head.read bytes with _ | ⟨head, middle⟩
    · rw [hhead] at h
      cases h
    · rw [hhead] at h
      rw [Head.stable_read hhead more]
      -- What follows the head is taken by readers of the depth below, which `ih` is about.
      cases head with
      | leaf => exact stable_give _ h more
      | array count => exact (ih.takeMany count []).map Value.array h more
      | map count => exact (ih.takePair.takeMany count []).map Value.map h more
      | extension size => exact stable_takeExtension size h more

end Chip8.MessagePack
