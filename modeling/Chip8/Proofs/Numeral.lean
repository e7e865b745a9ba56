import Mathlib.Algebra.Group.Nat.Defs
import Chip8.Numeral

/-!
# Digits and the number they stand for

`Numeral.value` is the number that digits stand for, most significant first. It reads back the
digits of a fixed width that texts show (`value_digits`) and those of `Nat.toDigits` in either case
(`value_toDigits`, `value_upper`), also behind zeros. Digits are found in front of anything that is
no digit of theirs, so texts of a fixed width that start two equal texts are equal
(`digits_append_inj`).

`Numeral.Spells` is the grammar of a number without a minus sign. The reader of numbers takes a text
just when the grammar has it for a number within the limit (`natural_of_spells`,
`exists_natural_eq_error`).
-/

namespace Chip8

/-- A number of 16 bits is that of its word. -/
theorem toNat_word {n : Nat} (h : n < 65536) : (UInt16.ofNat n).toNat = n :=
  UInt16.toNat_ofNat_of_lt h

namespace Hex

/-- The digits are those of three ranges of characters. -/
theorem isSome_value?_iff (c : Char) :
    (value? c).isSome ↔ ('0' ≤ c ∧ c ≤ '9') ∨ ('A' ≤ c ∧ c ≤ 'F') ∨ ('a' ≤ c ∧ c ≤ 'f') := by
  unfold value?
  split
  · next h => simp [h]
  split
  · next h => simp [h]
  split
  · next h => simp [h]
  · next h0 hA ha => simp [h0, hA, ha]

/-- A digit stands for a number below 16. -/
theorem lt_of_value? {c : Char} {d : Nat} (h : value? c = some d) : d < 16 := by
  have hcode {a b : Char} (hle : a ≤ b) : a.toNat ≤ b.toNat := UInt32.le_iff_toNat_le.1 hle
  unfold value? at h
  split at h
  · next hc =>
    have hlast : c.toNat ≤ 57 := hcode hc.2
    have hd := Option.some.inj h
    omega
  split at h
  · next hc =>
    have hlast : c.toNat ≤ 70 := hcode hc.2
    have hd := Option.some.inj h
    omega
  split at h
  · next hc =>
    have hlast : c.toNat ≤ 102 := hcode hc.2
    have hd := Option.some.inj h
    omega
  · exact nomatch h

/-- A digit of `Nat.digitChar` stands for its number. -/
theorem value?_digitChar : ∀ d < 16, value? (Nat.digitChar d) = some d := by decide

/-- A digit of `Nat.digitChar` in upper case is the digit that texts show. -/
theorem toUpper_digitChar : ∀ d : Fin 16, (Nat.digitChar d.val).toUpper = digit d := by decide

end Hex

namespace Numeral

variable {radix limit : Nat}

/-! ## Values -/

/-- The number that a number becomes with digits appended to it. -/
def value (radix : Nat) (n : Nat) (cs : List Char) : Nat :=
  cs.foldl (fun n c => n * radix + (digit? radix c).getD 0) n

theorem value_append (n : Nat) (cs ds : List Char) :
    value radix n (cs ++ ds) = value radix (value radix n cs) ds :=
  List.foldl_append

/-- Digits that are appended do not make a number smaller. -/
theorem le_value (hradix : 0 < radix) (n : Nat) (cs : List Char) : n ≤ value radix n cs := by
  induction cs generalizing n with
  | nil => exact Nat.le_refl n
  | cons c cs ih =>
    have hone : n ≤ n * radix := Nat.le_mul_of_pos_right n hradix
    have hnext := ih (n * radix + (digit? radix c).getD 0)
    exact Nat.le_trans (Nat.le_trans hone (Nat.le_add_right _ _)) hnext

/-- A digit that stands for `d` in the radix. -/
theorem digit?_of_value? {c : Char} {d : Nat} (h : Hex.value? c = some d) (hlt : d < radix) :
    digit? radix c = some d := by
  rw [digit?, h]
  exact if_pos (decide_eq_true hlt)

/-- In radix 16 the digits are those of three ranges of characters. -/
theorem isSome_digit?_iff (c : Char) :
    (digit? 16 c).isSome ↔ ('0' ≤ c ∧ c ≤ '9') ∨ ('A' ≤ c ∧ c ≤ 'F') ∨ ('a' ≤ c ∧ c ≤ 'f') := by
  have hsame : digit? 16 c = Hex.value? c := by
    cases hc : Hex.value? c with
    | none => rw [digit?, hc]; rfl
    | some d => exact digit?_of_value? hc (Hex.lt_of_value? hc)
  rw [hsame, Hex.isSome_value?_iff]

/-- Zeros in front do not count. -/
theorem value_replicate_zero (hradix : 0 < radix) (k : Nat) (cs : List Char) :
    value radix 0 (List.replicate k '0' ++ cs) = value radix 0 cs := by
  have hzero : digit? radix '0' = some 0 := digit?_of_value? (by decide) hradix
  have hstep : 0 * radix + (digit? radix '0').getD 0 = 0 := by rw [hzero, Nat.zero_mul]; rfl
  induction k with
  | zero => rfl
  | succ k ih => rwa [List.replicate_succ, List.cons_append, value, List.foldl_cons, hstep]

/-! ## Digits of a fixed width -/

/-- Digits of a fixed width stand for the remainder that they have room for. -/
theorem value_digits (width n : Nat) : value 16 0 (Hex.digits width n) = n % 16 ^ width := by
  induction width generalizing n with
  | zero => exact (Nat.mod_one n).symm
  | succ width ih =>
    have hlast : digit? 16 (Hex.digit (Fin.ofNat 16 n)) = some (n % 16) :=
      digit?_of_value? (Hex.value?_digit _) (Nat.mod_lt n (by decide))
    rw [Hex.digits, value_append, ih]
    show n / 16 % 16 ^ width * 16 + (digit? 16 (Hex.digit (Fin.ofNat 16 n))).getD 0 = _
    rw [hlast, Option.getD_some, Nat.pow_succ, Nat.mul_comm (16 ^ width), Nat.mod_mul]
    omega

/-- Of zero, all digits are zeros. -/
theorem digits_zero (width : Nat) : Hex.digits width 0 = List.replicate width '0' := by
  induction width with
  | zero => rfl
  | succ width ih =>
    rw [Hex.digits, Nat.zero_div, ih, List.replicate_succ']
    rfl

/-- Digits of a fixed width are digits. -/
theorem isSome_of_mem_digits {width n : Nat} {c : Char} (h : c ∈ Hex.digits width n) :
    (Hex.value? c).isSome := by
  induction width generalizing n with
  | zero => exact absurd h List.not_mem_nil
  | succ width ih =>
    rcases List.mem_append.1 h with hfront | hlast
    · exact ih hfront
    · rw [List.mem_singleton.1 hlast, Hex.value?_digit]
      rfl

/-- Two numbers with the same digits of a width that holds both are the same number. -/
theorem digits_inj {width m n : Nat} (hm : m < 16 ^ width) (hn : n < 16 ^ width)
    (h : Hex.digits width m = Hex.digits width n) : m = n := by
  have hvalue := congrArg (value 16 0) h
  rwa [value_digits, value_digits, Nat.mod_eq_of_lt hm, Nat.mod_eq_of_lt hn] at hvalue

/-- Two texts that start with digits of one width, and are the same, show the same number and go on
with the same text. -/
theorem digits_append_inj {width m n : Nat} (hm : m < 16 ^ width) (hn : n < 16 ^ width)
    {rest rest' : List Char} (h : Hex.digits width m ++ rest = Hex.digits width n ++ rest') :
    m = n ∧ rest = rest' := by
  have hlength : (Hex.digits width m).length = (Hex.digits width n).length := by simp
  obtain ⟨hdigits, hrest⟩ := List.append_inj h hlength
  exact ⟨digits_inj hm hn hdigits, hrest⟩

/-! ## Digits of the standard library -/

/-- Characters that stand for the same digits stand for the same number. -/
theorem value_map {f : Char → Char} {cs : List Char}
    (h : ∀ c ∈ cs, digit? radix (f c) = digit? radix c) (n : Nat) :
    value radix n (cs.map f) = value radix n cs := by
  induction cs generalizing n with
  | nil => rfl
  | cons c cs ih =>
    rw [List.map_cons, value, List.foldl_cons, h c List.mem_cons_self]
    exact ih (fun c hc => h c (List.mem_cons_of_mem _ hc)) _

section Digits

variable (hradix : 1 < radix) (hle : radix ≤ 16)

include hradix in
/-- Every digit of a number stands for less than the radix. -/
theorem exists_digitChar_of_mem {n : Nat} {c : Char} (h : c ∈ Nat.toDigits radix n) :
    ∃ d < radix, c = Nat.digitChar d := by
  induction n using Nat.strongRecOn with
  | _ n ih =>
    rw [Nat.toDigits_eq_if hradix] at h
    split at h
    · next hlt => exact ⟨n, hlt, List.mem_singleton.1 h⟩
    · next hge =>
      rcases List.mem_append.1 h with hfront | hlast
      · exact ih (n / radix) (Nat.div_lt_self (by omega) hradix) hfront
      · exact ⟨n % radix, Nat.mod_lt n (by omega), List.mem_singleton.1 hlast⟩

include hradix hle

/-- The digits of a number are digits of its radix, and so are they in upper case. -/
theorem digit?_of_mem_toDigits {n : Nat} {c : Char} (h : c ∈ Nat.toDigits radix n) :
    (digit? radix c).isSome ∧ digit? radix c.toUpper = digit? radix c := by
  obtain ⟨d, hd, rfl⟩ := exists_digitChar_of_mem hradix h
  have hlt : d < 16 := Nat.lt_of_lt_of_le hd hle
  have hlower := digit?_of_value? (Hex.value?_digitChar d hlt) hd
  have hupper : digit? radix (Nat.digitChar d).toUpper = some d := by
    rw [Hex.toUpper_digitChar ⟨d, hlt⟩]
    exact digit?_of_value? (Hex.value?_digit ⟨d, hlt⟩) hd
  rw [hlower, hupper]
  exact ⟨rfl, rfl⟩

/-- The digits of a number stand for the number. -/
theorem value_toDigits (n : Nat) : value radix 0 (Nat.toDigits radix n) = n := by
  induction n using Nat.strongRecOn with
  | _ n ih =>
    have hone {m d : Nat} (hd : d < radix) : value radix m [Nat.digitChar d] = m * radix + d := by
      have hdigit := digit?_of_value? (Hex.value?_digitChar d (Nat.lt_of_lt_of_le hd hle)) hd
      show m * radix + (digit? radix (Nat.digitChar d)).getD 0 = _
      rw [hdigit, Option.getD_some]
    rw [Nat.toDigits_eq_if hradix]
    split
    · next hlt => rw [hone hlt, Nat.zero_mul, Nat.zero_add]
    · next hge =>
      rw [value_append, ih (n / radix) (Nat.div_lt_self (by omega) hradix),
        hone (Nat.mod_lt n (by omega)), Nat.mul_comm, Nat.div_add_mod]

/-- So do they in upper case. -/
theorem value_upper (n : Nat) :
    value radix 0 ((Nat.toDigits radix n).map Char.toUpper) = n := by
  rw [value_map fun c hc => (digit?_of_mem_toDigits hradix hle hc).2, value_toDigits hradix hle]

end Digits

/-! ## The grammar of a number -/

/-- The text is one or more digits that stand for `n`, behind a plus sign or none. -/
def Spells (radix : Nat) (text : List Char) (n : Nat) : Prop :=
  ∃ sign digits : List Char, (sign = [] ∨ sign = ['+']) ∧ text = sign ++ digits ∧ digits ≠ [] ∧
    (∀ c ∈ digits, (digit? radix c).isSome) ∧ value radix 0 digits = n

/-- Digits whose number is within the limit are read as their number, and others are refused. -/
theorem magnitude_of_digits (hradix : 0 < radix) (beyond : NumeralError) {n : Nat} {cs : List Char}
    (hn : n ≤ limit) (hcs : ∀ c ∈ cs, (digit? radix c).isSome) :
    magnitude radix limit beyond n cs =
      if value radix n cs ≤ limit then .ok (value radix n cs) else .error beyond := by
  induction cs generalizing n with
  | nil => exact (if_pos hn).symm
  | cons c cs ih =>
    obtain ⟨d, hd⟩ := Option.isSome_iff_exists.1 (hcs c List.mem_cons_self)
    have hvalue : value radix n (c :: cs) = value radix (n * radix + d) cs := by
      rw [value, List.foldl_cons, hd]
      rfl
    simp only [magnitude, hd]
    rw [hvalue]
    split
    · next hle => exact ih hle fun c hc => hcs c (List.mem_cons_of_mem _ hc)
    · next hgt =>
      -- The limit was left on the way, and the digits that follow do not lead back below it.
      have hmore := le_value hradix (n * radix + d) cs
      rw [if_neg (by omega)]

/-- A character that is no digit is an error, if the limit is not left before it. -/
theorem exists_magnitude_eq_error (beyond : NumeralError) {n : Nat} {c : Char} {cs : List Char}
    (hmem : c ∈ cs) (hc : digit? radix c = none) :
    ∃ e, magnitude radix limit beyond n cs = .error e := by
  induction cs generalizing n with
  | nil => exact absurd hmem List.not_mem_nil
  | cons c' cs ih =>
    cases hd : digit? radix c' with
    | none => exact ⟨.invalidDigit, by simp only [magnitude, hd]⟩
    | some d =>
      simp only [magnitude, hd]
      split
      · refine ih ((List.mem_cons.1 hmem).resolve_left fun heq => ?_)
        rw [heq, hd] at hc
        exact nomatch hc
      · exact ⟨beyond, rfl⟩

/-- A plus sign is no digit. -/
theorem digit?_plus (radix : Nat) : digit? radix '+' = none := rfl

/-- Behind a plus sign or none, digits are read by themselves. -/
theorem natural_append {sign digits : List Char} (hsign : sign = [] ∨ sign = ['+'])
    (hne : digits ≠ []) (hplus : digits.head? ≠ some '+') :
    natural radix limit (sign ++ digits) = magnitude radix limit .tooLarge 0 digits := by
  obtain ⟨c, cs, rfl⟩ := List.exists_cons_of_ne_nil hne
  have hc : c ≠ '+' := by
    rintro rfl
    exact hplus rfl
  rcases hsign with rfl | rfl
  · rw [List.nil_append, natural]
    · exact fun h => List.cons_ne_nil _ _ h
    · exact fun h => hc (List.cons.inj h).1
    · exact fun digits h => hc (List.cons.inj h).1
  · rw [List.singleton_append, natural]
    exact fun h => List.cons_ne_nil _ _ h

/-- A text that spells a number is read as that number if it is within the limit, and is refused as
too large if it is not. -/
theorem natural_of_spells (hradix : 0 < radix) {text : List Char} {n : Nat}
    (h : Spells radix text n) :
    natural radix limit text = if n ≤ limit then .ok n else .error .tooLarge := by
  obtain ⟨sign, digits, hsign, rfl, hne, hdigits, rfl⟩ := h
  have hplus : digits.head? ≠ some '+' := by
    intro hhead
    have hsome := hdigits '+' (List.mem_of_head? hhead)
    rw [digit?_plus] at hsome
    exact nomatch hsome
  rw [natural_append hsign hne hplus,
    magnitude_of_digits hradix .tooLarge (Nat.zero_le limit) hdigits]

/-- A text spells one number at the most. -/
theorem Spells.unique (hradix : 0 < radix) {text : List Char} {m n : Nat} (hm : Spells radix text m)
    (hn : Spells radix text n) : m = n := by
  have hm' : natural radix (m + n) text = _ := natural_of_spells hradix hm
  have hn' : natural radix (m + n) text = _ := natural_of_spells hradix hn
  rw [if_pos (Nat.le_add_right m n)] at hm'
  rw [if_pos (Nat.le_add_left n m)] at hn'
  exact Except.ok.inj (hm'.symm.trans hn')

/-- A text that spells no number is refused. -/
theorem exists_natural_eq_error {text : List Char} (h : ∀ n, ¬ Spells radix text n) :
    ∃ e, natural radix limit text = .error e := by
  -- Where digits are left behind the sign, one of them is none.
  have hbad {sign digits : List Char} (hsign : sign = [] ∨ sign = ['+']) (hne : digits ≠ [])
      (htext : text = sign ++ digits) : ∃ c ∈ digits, digit? radix c = none := by
    refine Decidable.byContradiction fun hnone => h (value radix 0 digits) ?_
    refine ⟨sign, digits, hsign, htext, hne, fun c hc => ?_, rfl⟩
    refine Option.isSome_iff_ne_none.2 fun hc' => hnone ⟨c, hc, hc'⟩
  unfold natural
  split
  · exact ⟨_, rfl⟩
  · exact ⟨_, rfl⟩
  · next digits hnil =>
    have hne : digits ≠ [] := by
      rintro rfl
      exact hnil rfl
    obtain ⟨c, hmem, hc⟩ := hbad (.inr rfl) hne rfl
    exact exists_magnitude_eq_error .tooLarge hmem hc
  · next hnil _ _ =>
    obtain ⟨c, hmem, hc⟩ := @hbad [] _ (.inl rfl) hnil rfl
    exact exists_magnitude_eq_error .tooLarge hmem hc

end Numeral

end Chip8
