import Chip8.Proofs.Numeral
import Chip8.Tool.Disassembler

/-!
# How an address is written

An address on the command line is written in hexadecimal, with the mark `0x` or `0X` in front or
without one: `SpellsAddress` is the grammar. The mark is taken off first and the rest is read as a
number, and these two steps accept what the grammar says (`spellsAddress_iff`): a text without a
mark cannot look as if it had one, because `x` is no digit. `Malformed` lists the ways in which a
text fails to be an address.

`readStart_grammar` says what is read from every text, and quotes the text where it is refused.
-/

namespace Chip8.Disassembler

open Numeral

/-- What may stand in front of an address. -/
def marks : List (List Char) := [[], ['0', 'x'], ['0', 'X']]

/-- The text is one or more hexadecimal digits that stand for `n`, behind a plus sign or none, and
that behind a mark. -/
def SpellsAddress (text : List Char) (n : Nat) : Prop :=
  ∃ mark ∈ marks, ∃ sign ∈ [[], ['+']], ∃ digits : List Char,
    text = mark ++ sign ++ digits ∧ digits ≠ [] ∧
    (∀ c ∈ digits, ('0' ≤ c ∧ c ≤ '9') ∨ ('A' ≤ c ∧ c ≤ 'F') ∨ ('a' ≤ c ∧ c ≤ 'f')) ∧
    value 16 0 digits = n

/-- The ways in which a text fails to be an address. -/
inductive Malformed : List Char → Prop where
  /-- Nothing stands behind the mark and the sign, or there is nothing at all. -/
  | noDigits {mark sign : List Char} (hmark : mark ∈ marks) (hsign : sign ∈ [[], ['+']]) :
    Malformed (mark ++ sign)
  /-- A character is none of the digits, the plus sign and the letters of the marks. -/
  | character {text : List Char} {c : Char} (hmem : c ∈ text)
    (hdigit : ¬ (('0' ≤ c ∧ c ≤ '9') ∨ ('A' ≤ c ∧ c ≤ 'F') ∨ ('a' ≤ c ∧ c ≤ 'f')))
    (hother : c ∉ ['+', 'x', 'X']) : Malformed text
  /-- There are two marks. -/
  | twoMarks {mark mark' : List Char} (hmark : mark ∈ marks.tail) (hmark' : mark' ∈ marks.tail)
    (rest : List Char) : Malformed (mark ++ mark' ++ rest)
  /-- The sign stands in front of the mark. -/
  | signFirst {mark : List Char} (hmark : mark ∈ marks.tail) (rest : List Char) :
    Malformed ('+' :: mark ++ rest)
  /-- There are two signs. -/
  | twoSigns {mark : List Char} (hmark : mark ∈ marks) (rest : List Char) :
    Malformed (mark ++ '+' :: '+' :: rest)
  /-- The number is more than 16 bits hold. -/
  | tooLarge {text : List Char} {n : Nat} (hspells : SpellsAddress text n) (hn : 65535 < n) :
    Malformed text

/-! ## Taking the mark off -/

/-- A text that spells a number holds nothing but digits and a plus sign. -/
theorem not_spells_of_mem {text : List Char} {c : Char} (hmem : c ∈ text) (hplus : c ≠ '+')
    (hc : digit? 16 c = none) (n : Nat) : ¬ Spells 16 text n := by
  rintro ⟨sign, digits, hsign, rfl, -, hdigits, -⟩
  rcases List.mem_append.1 hmem with hin | hin
  · rcases hsign with rfl | rfl
    · exact absurd hin List.not_mem_nil
    · exact hplus (List.mem_singleton.1 hin)
  · have hsome := hdigits c hin
    rw [hc] at hsome
    exact nomatch hsome

/-- What is left of a text when its mark is taken off is what stands behind one of the marks. -/
theorem exists_mark (text : List Char) : ∃ mark ∈ marks, text = mark ++ stripMark text := by
  unfold stripMark
  split
  · exact ⟨['0', 'x'], by decide, rfl⟩
  · exact ⟨['0', 'X'], by decide, rfl⟩
  · exact ⟨[], by decide, rfl⟩

/-- Digits behind a sign or none do not look as if they had a mark. -/
theorem stripMark_of_spells {text : List Char} {n : Nat} (h : Spells 16 text n) :
    stripMark text = text := by
  unfold stripMark
  split
  · exact absurd h (not_spells_of_mem (show 'x' ∈ _ by simp) (by decide) (by decide) n)
  · exact absurd h (not_spells_of_mem (show 'X' ∈ _ by simp) (by decide) (by decide) n)
  · rfl

/-- A mark in front of a number is taken off, and nothing else is. -/
theorem stripMark_append {mark text : List Char} {n : Nat} (hmark : mark ∈ marks)
    (h : Spells 16 text n) : stripMark (mark ++ text) = text := by
  simp only [marks, List.mem_cons, List.not_mem_nil, or_false] at hmark
  rcases hmark with rfl | rfl | rfl
  · exact stripMark_of_spells h
  · rfl
  · rfl

/-- An address is a number behind a mark. -/
theorem spellsAddress_iff (text : List Char) (n : Nat) :
    SpellsAddress text n ↔ Spells 16 (stripMark text) n := by
  constructor
  · rintro ⟨mark, hmark, sign, hsign, digits, rfl, hne, hdigits, hvalue⟩
    have hspells : Spells 16 (sign ++ digits) n := by
      refine ⟨sign, digits, by simpa using hsign, rfl, hne, fun c hc => ?_, hvalue⟩
      exact (isSome_digit?_iff c).2 (hdigits c hc)
    rw [List.append_assoc, stripMark_append hmark hspells]
    exact hspells
  · rintro ⟨sign, digits, hsign, htext, hne, hdigits, hvalue⟩
    obtain ⟨mark, hmark, hsplit⟩ := exists_mark text
    refine ⟨mark, hmark, sign, by simpa using hsign, digits, ?_, hne, fun c hc => ?_, hvalue⟩
    · rw [hsplit, htext, List.append_assoc]
    · exact (isSome_digit?_iff c).1 (hdigits c hc)

/-! ## Reading an address -/

/-- A text that spells an address is read as that address, unless it is more than 16 bits hold. -/
theorem readAddress_of_spells {text : String} {n : Nat} (h : SpellsAddress text.toList n) :
    readAddress text = if n ≤ 65535 then .ok (UInt16.ofNat n) else .error .tooLarge := by
  have hspells := (spellsAddress_iff text.toList n).1 h
  rw [readAddress, natural_of_spells (by decide) hspells]
  split <;> rfl

/-- A text that spells no address is refused. -/
theorem exists_readAddress_eq_error {text : String} (h : ∀ n, ¬ SpellsAddress text.toList n) :
    ∃ e, readAddress text = .error e := by
  have hnone (n : Nat) : ¬ Spells 16 (stripMark text.toList) n :=
    fun hspells => h n ((spellsAddress_iff text.toList n).2 hspells)
  obtain ⟨e, he⟩ := @exists_natural_eq_error 16 0xFFFF _ hnone
  exact ⟨e, by rw [readAddress, he]; rfl⟩

/-- What is read as an address is read for the command line. -/
theorem readStart_of_ok {text : String} {a : UInt16} (h : readAddress text = .ok a) :
    readStart text = .ok a := by
  rw [readStart, h]

/-- A refusal quotes the text. -/
theorem readStart_of_error {text : String} {e : NumeralError} (h : readAddress text = .error e) :
    readStart text = .error (.because ("invalid address `" ++ text ++ "`: " ++ e.message)) := by
  rw [readStart, h]
  rfl

/-- The digits of an address spell it in either case, behind a mark or none and any number of
zeros. -/
theorem spellsAddress_digits {mark digits : List Char} (hmark : mark ∈ marks) (zeros n : Nat)
    (hdigits : digits ∈ [Nat.toDigits 16 n, (Nat.toDigits 16 n).map Char.toUpper]) :
    SpellsAddress (mark ++ (List.replicate zeros '0' ++ digits)) n := by
  have hlower {c : Char} (hc : c ∈ Nat.toDigits 16 n) :=
    digit?_of_mem_toDigits (by decide : 1 < 16) (by decide) hc
  have hzero : ∀ c ∈ List.replicate zeros '0', (digit? 16 c).isSome := by
    intro c hc
    rw [List.eq_of_mem_replicate hc]
    rfl
  -- In both cases the digits are digits, there is one, and they stand for the number.
  have hall : digits ≠ [] ∧ (∀ c ∈ digits, (digit? 16 c).isSome) ∧ value 16 0 digits = n := by
    simp only [List.mem_cons, List.not_mem_nil, or_false] at hdigits
    rcases hdigits with rfl | rfl
    · exact ⟨Nat.toDigits_ne_nil, fun c hc => (hlower hc).1,
        value_toDigits (by decide) (by decide) n⟩
    · refine ⟨by simp, fun c hc => ?_, value_upper (by decide) (by decide) n⟩
      obtain ⟨d, hd, rfl⟩ := List.mem_map.1 hc
      rw [(hlower hd).2]
      exact (hlower hd).1
  obtain ⟨hne, hsome, hvalue⟩ := hall
  refine ⟨mark, hmark, [], by decide, List.replicate zeros '0' ++ digits, ?_, ?_, fun c hc => ?_,
    ?_⟩
  · rw [List.append_nil]
  · exact fun h => hne (List.append_eq_nil_iff.1 h).2
  · exact (isSome_digit?_iff c).1 ((List.mem_append.1 hc).elim (hzero c) (hsome c))
  · rw [value_replicate_zero (by decide), hvalue]

/-! ## Texts that are no address -/

/-- A sign by itself spells no number, and neither does nothing at all. -/
theorem not_spells_sign {sign : List Char} (hsign : sign ∈ [[], ['+']]) (n : Nat) :
    ¬ Spells 16 sign n := by
  rintro ⟨sign', digits, -, rfl, hne, hdigits, -⟩
  obtain ⟨c, cs, rfl⟩ := List.exists_cons_of_ne_nil hne
  have hc := hdigits c List.mem_cons_self
  -- The only character that the text can hold is the plus sign.
  have hplus : c = '+' := by
    have hmem : c ∈ sign' ++ c :: cs := by simp
    simp only [List.mem_cons, List.not_mem_nil, or_false] at hsign
    rcases hsign with h | h <;> rw [h] at hmem
    · exact absurd hmem List.not_mem_nil
    · exact List.mem_singleton.1 hmem
  rw [hplus, digit?_plus] at hc
  exact nomatch hc

/-- Two signs spell no number, whatever follows. -/
theorem not_spells_two_signs (rest : List Char) (n : Nat) : ¬ Spells 16 ('+' :: '+' :: rest) n := by
  rintro ⟨sign, digits, hsign, htext, -, hdigits, -⟩
  have hmem : '+' ∈ digits := by
    rcases hsign with rfl | rfl
    · rw [← show '+' :: '+' :: rest = digits from htext]
      exact List.mem_cons_self
    · rw [← show '+' :: rest = digits from (List.cons.inj htext).2]
      exact List.mem_cons_self
  have hc := hdigits '+' hmem
  rw [digit?_plus] at hc
  exact nomatch hc

/-- A malformed text spells no address of 16 bits. -/
theorem Malformed.lt_of_spells {text : List Char} (h : Malformed text) {n : Nat}
    (hspells : SpellsAddress text n) : 65535 < n := by
  have hnumber := (spellsAddress_iff text n).1 hspells
  cases h with
  | noDigits hmark hsign =>
    simp only [marks, List.mem_cons, List.not_mem_nil, or_false] at hmark
    refine absurd hnumber (not_spells_sign ?_ n)
    simp only [List.mem_cons, List.not_mem_nil, or_false] at hsign
    rcases hmark with rfl | rfl | rfl <;> rcases hsign with rfl | rfl <;> decide
  | @character _ c hmem hdigit hother =>
    simp only [List.mem_cons, List.not_mem_nil, or_false, not_or] at hother
    have hnone : digit? 16 c = none := by
      rw [← isSome_digit?_iff] at hdigit
      exact Option.not_isSome_iff_eq_none.1 hdigit
    obtain ⟨mark, hmark, hsplit⟩ := exists_mark text
    have hleft : c ∈ stripMark text := by
      rw [hsplit] at hmem
      refine (List.mem_append.1 hmem).resolve_left fun hin => ?_
      have hletter : ∀ mark ∈ marks, ∀ c ∈ mark, c = '0' ∨ c = 'x' ∨ c = 'X' := by
        simp [marks]
      rcases hletter mark hmark c hin with rfl | rfl | rfl
      · exact nomatch hnone
      · exact hother.2.1 rfl
      · exact hother.2.2 rfl
    exact absurd hnumber (not_spells_of_mem hleft hother.1 hnone n)
  | twoMarks hmark hmark' rest =>
    simp only [marks, List.tail_cons, List.mem_cons, List.not_mem_nil, or_false] at hmark hmark'
    -- The letter of the second mark is left when the first mark is taken off.
    rcases hmark' with rfl | rfl
    · refine absurd hnumber (not_spells_of_mem (show 'x' ∈ _ from ?_) (by decide) rfl n)
      rcases hmark with rfl | rfl <;> exact List.mem_cons_of_mem _ List.mem_cons_self
    · refine absurd hnumber (not_spells_of_mem (show 'X' ∈ _ from ?_) (by decide) rfl n)
      rcases hmark with rfl | rfl <;> exact List.mem_cons_of_mem _ List.mem_cons_self
  | signFirst hmark rest =>
    simp only [marks, List.tail_cons, List.mem_cons, List.not_mem_nil, or_false] at hmark
    rcases hmark with rfl | rfl
    · refine absurd hnumber (not_spells_of_mem (show 'x' ∈ _ from ?_) (by decide) rfl n)
      exact List.mem_cons_of_mem _ (List.mem_cons_of_mem _ List.mem_cons_self)
    · refine absurd hnumber (not_spells_of_mem (show 'X' ∈ _ from ?_) (by decide) rfl n)
      exact List.mem_cons_of_mem _ (List.mem_cons_of_mem _ List.mem_cons_self)
  | twoSigns hmark rest =>
    simp only [marks, List.mem_cons, List.not_mem_nil, or_false] at hmark
    rcases hmark with rfl | rfl | rfl <;> exact absurd hnumber (not_spells_two_signs rest n)
  | tooLarge hspells' hn =>
    rwa [hnumber.unique (by decide) ((spellsAddress_iff text _).1 hspells')]

/-! ## The grammar of the first address -/

/-- A text is refused as the first address, with an error that quotes it. -/
def RefusesStart (text : String) : Prop :=
  ∃ e : NumeralError,
    readStart text = .error (.because ("invalid address `" ++ text ++ "`: " ++ e.message))

/-- Either a text spells an address of 16 bits and is read as it, or it spells none and is refused.
-/
theorem readStart_of_spells_or_refuses (text : String) :
    (∃ n ≤ 65535, SpellsAddress text.toList n ∧ readStart text = .ok (UInt16.ofNat n)) ∨
      (∀ n ≤ 65535, ¬ SpellsAddress text.toList n) ∧ RefusesStart text := by
  by_cases hspells : ∃ n, SpellsAddress text.toList n
  · obtain ⟨n, hn⟩ := hspells
    have hread := readAddress_of_spells hn
    by_cases hle : n ≤ 65535
    · rw [if_pos hle] at hread
      exact .inl ⟨n, hle, hn, readStart_of_ok hread⟩
    · rw [if_neg hle] at hread
      refine .inr ⟨fun m hm hspells => hle ?_, _, readStart_of_error hread⟩
      have hsame := ((spellsAddress_iff _ m).1 hspells).unique (by decide)
        ((spellsAddress_iff _ n).1 hn)
      rwa [← hsame]
  · obtain ⟨e, he⟩ := exists_readAddress_eq_error fun n hn => hspells ⟨n, hn⟩
    exact .inr ⟨fun n _ hn => hspells ⟨n, hn⟩, e, readStart_of_error he⟩

/-- A refused text is not read as an address. -/
theorem RefusesStart.ne_ok {text : String} (h : RefusesStart text) (a : UInt16) :
    readStart text ≠ .ok a := by
  obtain ⟨e, he⟩ := h
  rw [he]
  exact nofun

/-- A text is read as an address just when it spells that address, and is refused with an error that
quotes it when it spells none of 16 bits. Among the texts refused are those in which nothing stands
behind the mark and the sign, those with another character, with two marks, with two signs or with
the sign in front of the mark, and those whose number is too large. The digits of an address in
either case are read as the address, behind a mark or none and any number of zeros. -/
theorem readStart_grammar (text : String) :
    (∀ a : UInt16, readStart text = .ok a ↔ SpellsAddress text.toList a.toNat) ∧
      ((∃ a, readStart text = .ok a) ↔ ∃ n ≤ 65535, SpellsAddress text.toList n) ∧
      ((∀ n ≤ 65535, ¬ SpellsAddress text.toList n) ↔ RefusesStart text) ∧
      (Malformed text.toList → RefusesStart text) ∧
      ∀ (a : UInt16) (zeros : Nat), ∀ mark ∈ marks,
        ∀ digits ∈ [Nat.toDigits 16 a.toNat, (Nat.toDigits 16 a.toNat).map Char.toUpper],
          text.toList = mark ++ (List.replicate zeros '0' ++ digits) → readStart text = .ok a := by
  have hnumber {n : Nat} (hn : n ≤ 65535) : (UInt16.ofNat n).toNat = n :=
    toNat_word (Nat.lt_succ_of_le hn)
  have hread (a : UInt16) : readStart text = .ok a ↔ SpellsAddress text.toList a.toNat := by
    have hlt : a.toNat ≤ 65535 := Nat.le_of_lt_succ a.toNat_lt
    rcases readStart_of_spells_or_refuses text with ⟨n, hn, hspells, hok⟩ | ⟨hnone, hrefuses⟩
    · rw [hok]
      constructor
      · intro h
        rw [← Except.ok.inj h, hnumber hn]
        exact hspells
      · intro h
        have hsame := ((spellsAddress_iff _ _).1 h).unique (by decide)
          ((spellsAddress_iff _ _).1 hspells)
        rw [← hsame, UInt16.ofNat_toNat]
    · exact ⟨fun h => absurd h (hrefuses.ne_ok a), fun h => absurd h (hnone _ hlt)⟩
  have hrefused (h : ∀ n ≤ 65535, ¬ SpellsAddress text.toList n) : RefusesStart text := by
    rcases readStart_of_spells_or_refuses text with ⟨n, hn, hspells, -⟩ | ⟨-, hrefuses⟩
    · exact absurd hspells (h n hn)
    · exact hrefuses
  refine ⟨hread, ⟨fun ⟨a, ha⟩ => ?_, fun ⟨n, hn, hspells⟩ => ?_⟩,
    ⟨hrefused, fun h n hn hspells => ?_⟩,
    fun hbad => hrefused fun n hn hspells => ?_, fun a zeros mark hmark digits hdigits htext => ?_⟩
  · exact ⟨a.toNat, Nat.le_of_lt_succ a.toNat_lt, (hread a).1 ha⟩
  · refine ⟨UInt16.ofNat n, (hread _).2 ?_⟩
    rwa [hnumber hn]
  · refine h.ne_ok (UInt16.ofNat n) ((hread _).2 ?_)
    rwa [hnumber hn]
  · exact absurd (hbad.lt_of_spells hspells) (Nat.not_lt.2 hn)
  · refine (hread a).2 ?_
    rw [htext]
    exact spellsAddress_digits hmark zeros a.toNat hdigits

end Chip8.Disassembler
