import Mathlib.Data.Nat.Find
import Chip8.Keypad

/-!
# What a scan asks and finds

A scan asks for keys in turn until one is down. From F downwards it asks for the keys down to the highest that
is pressed and finds this one (`firstPressed_of_isHighest`), or it asks for all sixteen and finds none
(`firstPressed_of_allReleased`).

The keys that a scan asks for are all that it sees of a keypad, and it sees each of them. On another keypad it
comes to the same just if that answers alike for these keys (`firstPressed_eq_iff`). So no key is asked for
without being noted down, and none is noted down without being asked for.
-/

namespace Chip8.Keypad

variable {κ : Type} [Keypad κ]

/-! ## Keys that are down -/

/-- The keys from F down to one, in this order. -/
def downTo (lowest : UInt8) : List UInt8 :=
  (List.range' lowest.toNat (16 - lowest.toNat)).reverse.map UInt8.ofNat

example : downTo 13 = [15, 14, 13] := by decide

/-- They are keys. -/
theorem le_of_mem_downTo {lowest key : UInt8} (h : key ∈ downTo lowest) : key ≤ 15 := by
  simp only [downTo, List.mem_map, List.mem_reverse, List.mem_range'_1] at h
  obtain ⟨n, hn, rfl⟩ := h
  rw [UInt8.le_iff_toNat_le, UInt8.toNat_ofNat']
  show n % 2 ^ 8 ≤ 15
  omega

/-- No key is down. -/
def AllReleased (keypad : κ) : Prop := ∀ key ≤ 15, pressed keypad key = false

/-- The key is down, and no higher one is. -/
structure IsHighest (keypad : κ) (key : UInt8) : Prop where
  /-- It is one of the sixteen keys. -/
  le : key ≤ 15
  /-- It is down. -/
  pressed : pressed keypad key = true
  /-- The keys that are down are not higher. -/
  highest : ∀ other ≤ 15, Keypad.pressed keypad other = true → other ≤ key

/-- Whether a key is down at all. -/
theorem allReleased_or (keypad : κ) :
    AllReleased keypad ∨ ∃ key ≤ 15, pressed keypad key = true := by
  by_cases hsome : ∃ key ≤ 15, pressed keypad key = true
  · exact .inr hsome
  · refine .inl fun key hle => ?_
    rw [← Bool.not_eq_true]
    exact fun hkey => hsome ⟨key, hle, hkey⟩

/-- Where a key is down, one of them is the highest. -/
theorem exists_isHighest {keypad : κ} (h : ∃ key ≤ 15, pressed keypad key = true) :
    ∃ key, IsHighest keypad key := by
  obtain ⟨key, hle, hkey⟩ := h
  let down (n : Nat) : Prop := pressed keypad (UInt8.ofNat n) = true
  have hdown {k : UInt8} (hk : pressed keypad k = true) : down k.toNat := by
    show pressed keypad (UInt8.ofNat k.toNat) = true
    rw [UInt8.ofNat_toNat, hk]
  let greatest := Nat.findGreatest down 15
  have hbound : greatest ≤ 15 := Nat.findGreatest_le 15
  have hval : (UInt8.ofNat greatest).toNat = greatest :=
    UInt8.toNat_ofNat_of_lt' (Nat.lt_of_le_of_lt hbound (by decide))
  refine ⟨UInt8.ofNat greatest, ?_, Nat.findGreatest_spec hle (hdown hkey),
    fun other hother hpressed => ?_⟩
  · rw [UInt8.le_iff_toNat_le, hval]
    exact hbound
  · rw [UInt8.le_iff_toNat_le, hval]
    exact Nat.le_findGreatest hother (hdown hpressed)

/-! ## Scans -/

/-- A scan ends with a key that is down. -/
theorem firstPressed_cons_of_down {keypad : κ} {key : UInt8} (h : pressed keypad key = true)
    (rest : List UInt8) : firstPressed keypad (key :: rest) = (some key, [key]) := by
  unfold firstPressed ask
  rw [h]
  rfl

/-- A scan goes on behind a key that is up. -/
theorem firstPressed_cons_of_up {keypad : κ} {key : UInt8} (h : pressed keypad key = false)
    (rest : List UInt8) :
    firstPressed keypad (key :: rest) =
      ((firstPressed keypad rest).1, key :: (firstPressed keypad rest).2) := by
  rw [firstPressed, ask, h]
  rfl

/-- Where no key is down, all are asked for. -/
theorem firstPressed_of_forall {keypad : κ} {keys : List UInt8}
    (h : ∀ key ∈ keys, pressed keypad key = false) : firstPressed keypad keys = (none, keys) := by
  induction keys with
  | nil => rfl
  | cons key keys ih =>
    rw [firstPressed_cons_of_up (h key List.mem_cons_self),
      ih fun k hk => h k (List.mem_cons_of_mem key hk)]

/-- The first key that is down is the last that is asked for. -/
theorem firstPressed_append {keypad : κ} {above below : List UInt8} {key : UInt8}
    (habove : ∀ k ∈ above, pressed keypad k = false) (hkey : pressed keypad key = true) :
    firstPressed keypad (above ++ key :: below) = (some key, above ++ [key]) := by
  induction above with
  | nil => exact firstPressed_cons_of_down hkey below
  | cons k above ih =>
    rw [List.cons_append, firstPressed_cons_of_up (habove k List.mem_cons_self),
      ih fun j hj => habove j (List.mem_cons_of_mem k hj)]
    rfl

/-- The order of asking starts at F and ends at 0. -/
theorem scanOrder_eq : scanOrder = downTo 0 := by decide

/-- A scan asks for none but the sixteen keys. -/
theorem le_of_mem_scanOrder {key : UInt8} (h : key ∈ scanOrder) : key ≤ 15 :=
  le_of_mem_downTo (scanOrder_eq ▸ h)

/-- Every key has a place in the order of asking, behind the higher ones. -/
theorem scanOrder_split (n : Fin 16) :
    scanOrder = scanOrder.take (15 - n.val) ++ UInt8.ofNat n.val :: scanOrder.drop (16 - n.val) ∧
      downTo (UInt8.ofNat n.val) = scanOrder.take (15 - n.val) ++ [UInt8.ofNat n.val] ∧
      ∀ k ∈ scanOrder.take (15 - n.val), UInt8.ofNat n.val < k := by
  revert n
  decide +kernel

/-- A scan asks for the keys down to the highest that is pressed. -/
theorem firstPressed_of_isHighest {keypad : κ} {key : UInt8} (h : IsHighest keypad key) :
    firstPressed keypad scanOrder = (some key, downTo key) := by
  have hlt : key.toNat < 16 := Nat.lt_succ_of_le (UInt8.le_iff_toNat_le.1 h.le)
  obtain ⟨hsplit, hdown, habove⟩ := scanOrder_split ⟨key.toNat, hlt⟩
  rw [UInt8.ofNat_toNat] at hsplit hdown
  have hnone : ∀ k ∈ scanOrder.take (15 - key.toNat), pressed keypad k = false := by
    intro k hk
    -- A key above the highest is not down, or it would be the highest itself.
    rw [← Bool.not_eq_true]
    intro hpressed
    have hhigher := UInt8.lt_iff_toNat_lt.1 (habove k hk)
    have hle := h.highest k (le_of_mem_scanOrder (List.mem_of_mem_take hk)) hpressed
    rw [UInt8.ofNat_toNat] at hhigher
    exact Nat.not_le.2 hhigher (UInt8.le_iff_toNat_le.1 hle)
  rw [hdown]
  conv => lhs; rw [hsplit]
  exact firstPressed_append hnone h.pressed

/-- A scan that finds no key has asked for all. -/
theorem firstPressed_of_allReleased {keypad : κ} (h : AllReleased keypad) :
    firstPressed keypad scanOrder = (none, downTo 0) := by
  rw [← scanOrder_eq]
  exact firstPressed_of_forall fun key hkey => h key (le_of_mem_scanOrder hkey)

/-! ## Two keypads -/

/-- A scan asks for its first key at the least. -/
theorem mem_firstPressed (keypad : κ) (key : UInt8) (rest : List UInt8) :
    key ∈ (firstPressed keypad (key :: rest)).2 := by
  cases hkey : pressed keypad key with
  | true =>
    rw [firstPressed_cons_of_down hkey]
    exact List.mem_cons_self
  | false =>
    rw [firstPressed_cons_of_up hkey]
    exact List.mem_cons_self

/-- A scan that asks for no key finds none. -/
theorem firstPressed_fst_eq_none {keypad : κ} {keys : List UInt8}
    (h : (firstPressed keypad keys).2 = []) : (firstPressed keypad keys).1 = none := by
  cases keys with
  | nil => rfl
  | cons key rest =>
    have hmem := mem_firstPressed keypad key rest
    rw [h] at hmem
    exact absurd hmem List.not_mem_nil

/-- A scan that ends with its first key comes to something else where this key is up. -/
theorem firstPressed_ne {keypad keypad' : κ} {key : UInt8} (h : pressed keypad key = true)
    (h' : pressed keypad' key = false) (rest : List UInt8) :
    firstPressed keypad' (key :: rest) ≠ firstPressed keypad (key :: rest) := by
  rw [firstPressed_cons_of_down h, firstPressed_cons_of_up h']
  intro heq
  obtain ⟨hfound, hasked⟩ := Prod.mk.inj heq
  -- If nothing was asked for behind the key, nothing was found there.
  rw [firstPressed_fst_eq_none (List.cons.inj hasked).2] at hfound
  exact Option.some_ne_none key hfound.symm

/-- The keypads answer alike for each of the keys. -/
def AnswersAlike (keypad keypad' : κ) (keys : List UInt8) : Prop :=
  ∀ key ∈ keys, pressed keypad' key = pressed keypad key

/-- Any two keypads do so where nothing is asked. -/
theorem answersAlike_nil (keypad keypad' : κ) : AnswersAlike keypad keypad' [] := by
  intro key hkey
  exact absurd hkey List.not_mem_nil

/-- A question comes to the same on another keypad just if that answers it alike. -/
theorem ask_eq_iff {keypad keypad' : κ} {key : UInt8} :
    ask keypad' key = ask keypad key ↔ AnswersAlike keypad keypad' (ask keypad key).2 := by
  unfold ask AnswersAlike
  rw [List.forall_mem_singleton, Prod.mk.injEq, and_iff_left rfl]

/-- So does a scan, just if that answers alike for the keys of the scan. -/
theorem firstPressed_eq_iff {keypad keypad' : κ} {keys : List UInt8} :
    firstPressed keypad' keys = firstPressed keypad keys ↔
      AnswersAlike keypad keypad' (firstPressed keypad keys).2 := by
  induction keys with
  | nil => exact iff_of_true rfl (answersAlike_nil keypad keypad')
  | cons key rest ih =>
    have hfirst (hall : AnswersAlike keypad keypad' (firstPressed keypad (key :: rest)).2) :
        pressed keypad' key = pressed keypad key := hall key (mem_firstPressed keypad key rest)
    cases hold : pressed keypad key with
    | true =>
      cases hnew : pressed keypad' key with
      | true =>
        -- Both scans end here.
        rw [firstPressed_cons_of_down hold, firstPressed_cons_of_down hnew, AnswersAlike,
          List.forall_mem_singleton, hold, hnew]
        exact iff_of_true rfl rfl
      | false =>
        rw [hold, hnew] at hfirst
        exact iff_of_false (firstPressed_ne hold hnew rest) fun hall =>
          Bool.false_ne_true (hfirst hall)
    | false =>
      cases hnew : pressed keypad' key with
      | true =>
        rw [hold, hnew] at hfirst
        exact iff_of_false (firstPressed_ne hnew hold rest).symm fun hall =>
          Bool.false_ne_true (hfirst hall).symm
      | false =>
        -- Both scans go on, and all is said by what they come to behind the key.
        rw [firstPressed_cons_of_up hold, firstPressed_cons_of_up hnew, AnswersAlike,
          List.forall_mem_cons, hold, hnew, and_iff_right rfl, Prod.mk.injEq, List.cons.injEq,
          and_iff_right rfl, ← Prod.ext_iff]
        exact ih

end Chip8.Keypad
