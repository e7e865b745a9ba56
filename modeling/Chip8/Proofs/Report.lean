import Chip8.Inspection
import Chip8.Proofs.Numeral

/-!
# What a report tells

A listing holds the addresses around the program counter that lie in memory, each once and in order
(`mem_listing_iff`, `pairwise_listing`), and marks the program counter if it is among them
(`filter_current_listing`).

A report is a long text, but little of it varies in width: the numbers have fixed widths, the stack
pointer ends with its line, and a mnemonic stands behind the word that it is the mnemonic of. So two
equal reports can be read side by side from the front, and each number that they show is the same in
both (`of_report_eq`). What a report does not show it does not depend on (`report_congr`). The two
make `listing_report`.
-/

namespace Chip8

/-! ## Numbers at the front of a text -/

/-- Two texts that start with as many digits, and are the same, show the same number and go on with
the same text. -/
theorem Hex.text_append_inj {width m n : Nat} (hm : m < 16 ^ width) (hn : n < 16 ^ width)
    {rest rest' : String} (h : Hex.text width m ++ rest = Hex.text width n ++ rest') :
    m = n ∧ rest = rest' := by
  have hlist := congrArg String.toList h
  simp only [Hex.text, String.toList_append, String.toList_ofList] at hlist
  obtain ⟨hsame, hrest⟩ := Numeral.digits_append_inj hm hn hlist
  exact ⟨hsame, String.toList_inj.1 hrest⟩

/-- A byte is read off the front of a text. -/
theorem byteText_append_inj {a b : UInt8} {rest rest' : String}
    (h : Hex.text 2 a.toNat ++ rest = Hex.text 2 b.toNat ++ rest') : a = b ∧ rest = rest' := by
  obtain ⟨hsame, hrest⟩ := Hex.text_append_inj a.toNat_lt b.toNat_lt h
  exact ⟨UInt8.toNat_inj.1 hsame, hrest⟩

/-- A word is read off the front of a text. -/
theorem wordText_append_inj {a b : UInt16} {rest rest' : String}
    (h : Hex.text 4 a.toNat ++ rest = Hex.text 4 b.toNat ++ rest') : a = b ∧ rest = rest' := by
  obtain ⟨hsame, hrest⟩ := Hex.text_append_inj a.toNat_lt b.toNat_lt h
  exact ⟨UInt16.toNat_inj.1 hsame, hrest⟩

/-- The stack pointer has one digit or two, which stand for it. -/
theorem stackPointerText_digits (sp : UInt8) :
    (∀ c ∈ (stackPointerText sp).toList, (Hex.value? c).isSome) ∧
      Numeral.value 16 0 (stackPointerText sp).toList = sp.toNat := by
  have hlt := sp.toNat_lt
  rw [stackPointerText, Hex.text, String.toList_ofList, Numeral.value_digits]
  refine ⟨fun c hc => Numeral.isSome_of_mem_digits hc, Nat.mod_eq_of_lt ?_⟩
  split
  · next hone => exact UInt8.lt_iff_toNat_lt.1 hone
  · exact hlt

/-- The stack pointer is read off the front of a text in which its line ends behind it. -/
theorem stackPointerText_append_inj {a b : UInt8} {rest rest' : String}
    (h : stackPointerText a ++ ("\n" ++ rest) = stackPointerText b ++ ("\n" ++ rest')) :
    a = b ∧ rest = rest' := by
  obtain ⟨hadigits, havalue⟩ := stackPointerText_digits a
  obtain ⟨hbdigits, hbvalue⟩ := stackPointerText_digits b
  have hend {sp : UInt8} (hdigits : ∀ c ∈ (stackPointerText sp).toList, (Hex.value? c).isSome) :
      '\n' ∉ (stackPointerText sp).toList := fun hmem => nomatch hdigits _ hmem
  have hlist : (stackPointerText a).toList ++ '\n' :: rest.toList =
      (stackPointerText b).toList ++ '\n' :: rest'.toList := by
    simpa using congrArg String.toList h
  -- Both texts are cut at their first line end.
  have hcut := congrArg (List.splitOn '\n') hlist
  rw [List.splitOn_append_cons_self_of_not_mem (hend hadigits),
    List.splitOn_append_cons_self_of_not_mem (hend hbdigits)] at hcut
  have hsame := (List.cons.inj hcut).1
  constructor
  · rw [← UInt8.toNat_inj, ← havalue, ← hbvalue, hsame]
  · rw [hsame] at hlist
    exact String.toList_inj.1 (List.cons.inj (List.append_cancel_left hlist)).2

/-! ## The registers -/

/-- A register is read off the front of a text. -/
theorem registerCell_append_inj {v v' : Vector UInt8 16} {x : Register} {rest rest' : String}
    (h : registerCell v x ++ rest = registerCell v' x ++ rest') :
    v.get x = v'.get x ∧ rest = rest' := by
  simp only [registerCell, String.append_assoc, String.append_right_inj] at h
  exact byteText_append_inj h

/-- A row of registers is read off the front of a text. -/
theorem registerRow_append_inj {v v' : Vector UInt8 16} {xs : List Register} {rest rest' : String}
    (h : registerRow v xs ++ rest = registerRow v' xs ++ rest') :
    (∀ x ∈ xs, v.get x = v'.get x) ∧ rest = rest' := by
  unfold registerRow at h
  induction xs with
  | nil => exact ⟨fun x hx => absurd hx List.not_mem_nil, (String.append_right_inj _).1 h⟩
  | cons x xs ih =>
    cases xs with
    | nil =>
      obtain ⟨hx, hrest⟩ := registerCell_append_inj (by simpa using h)
      exact ⟨fun y hy => by rwa [List.mem_singleton.1 hy], hrest⟩
    | cons y ys =>
      simp only [List.map_cons, String.intercalate_cons_cons, String.append_assoc] at h ih
      obtain ⟨hx, hrest⟩ := registerCell_append_inj h
      obtain ⟨hxs, hrest⟩ := ih ((String.append_right_inj _).1 hrest)
      exact ⟨List.forall_mem_cons.2 ⟨hx, hxs⟩, hrest⟩

namespace State

/-- What the register view shows of two states is the same. -/
structure SameRegisters (s t : State) : Prop where
  /-- The program counter is the same. -/
  pc : s.pc = t.pc
  /-- The index is the same. -/
  index : s.index = t.index
  /-- The stack pointer is the same. -/
  sp : s.sp = t.sp
  /-- V0 to VF are the same. -/
  registers : s.registers = t.registers
  /-- The delay timer is the same. -/
  delay : s.delay = t.delay
  /-- The sound timer is the same. -/
  sound : s.sound = t.sound

/-- The register view is read off the front of a text. -/
theorem registerView_append_inj {s t : State} {rest rest' : String}
    (h : s.registerView ++ rest = t.registerView ++ rest') : SameRegisters s t ∧ rest = rest' := by
  simp only [registerView, registerLines, String.intercalate_cons_cons,
    String.intercalate_singleton, String.append_assoc, String.append_right_inj] at h
  obtain ⟨hpc, h⟩ := wordText_append_inj h
  obtain ⟨hindex, h⟩ := wordText_append_inj ((String.append_right_inj _).1 h)
  obtain ⟨hsp, h⟩ := stackPointerText_append_inj ((String.append_right_inj _).1 h)
  obtain ⟨hrow0, h⟩ := registerRow_append_inj h
  obtain ⟨hrow1, h⟩ := registerRow_append_inj ((String.append_right_inj _).1 h)
  obtain ⟨hrow2, h⟩ := registerRow_append_inj ((String.append_right_inj _).1 h)
  obtain ⟨hrow3, h⟩ := registerRow_append_inj ((String.append_right_inj _).1 h)
  simp only [String.append_right_inj] at h
  obtain ⟨hdelay, h⟩ := byteText_append_inj h
  obtain ⟨hsound, h⟩ := byteText_append_inj ((String.append_right_inj _).1 h)
  -- Every register is in one of the four rows.
  have hregisters : s.registers = t.registers := by
    have hrows : ∀ x : Register, x ∈ [0, 1, 2, 3] ∨ x ∈ [4, 5, 6, 7] ∨ x ∈ [8, 9, 10, 11] ∨
        x ∈ [12, 13, 14, 15] := by decide
    refine Vector.ext fun i hi => ?_
    have hget : s.registers.get ⟨i, hi⟩ = t.registers.get ⟨i, hi⟩ := by
      rcases hrows ⟨i, hi⟩ with hx | hx | hx | hx
      · exact hrow0 _ hx
      · exact hrow1 _ hx
      · exact hrow2 _ hx
      · exact hrow3 _ hx
    exact hget
  exact ⟨⟨hpc, hindex, hsp, hregisters, hdelay, hsound⟩, h⟩

/-! ## The listing -/

/-- The line of an address. -/
def lineAt (s : State) (a : UInt16) : ListingLine := ⟨a, s.fetch a, a == s.pc⟩

/-- A listing has a line for each of its addresses. -/
theorem listing_eq (s : State) : s.listing = s.listingAddresses.map s.lineAt := rfl

/-- The addresses of a listing are those at most thirteen slots away from the program counter that
lie in memory. -/
theorem mem_listingAddresses_iff (s : State) (a : UInt16) :
    a ∈ s.listingAddresses ↔
      ∃ k : Int, -13 ≤ k ∧ k ≤ 13 ∧ (a.toNat : Int) = s.pc.toNat + 2 * k ∧ a.toNat ≤ 0xFFF := by
  have hpc := s.pc.toNat_lt
  simp only [listingAddresses, List.mem_filterMap, List.mem_range, Option.ite_none_right_eq_some,
    Option.some.injEq, memorySize, listingRadius, ← UInt16.toNat_inj]
  constructor
  · rintro ⟨slot, hslot, ⟨hle, hlt⟩, ha⟩
    rw [toNat_word (by omega)] at ha
    exact ⟨slot - 13, by omega, by omega, by omega, by omega⟩
  · rintro ⟨k, hlow, hhigh, ha, hmemory⟩
    refine ⟨(k + 13).toNat, by omega, ⟨by omega, by omega⟩, ?_⟩
    rw [toNat_word (by omega)]
    omega

/-- The addresses of a listing increase. -/
theorem pairwise_listingAddresses (s : State) : s.listingAddresses.Pairwise (· < ·) := by
  have hpc := s.pc.toNat_lt
  refine List.pairwise_filterMap.2 (List.pairwise_lt_range.imp fun {i j} hij a ha b hb => ?_)
  simp only [Option.ite_none_right_eq_some, Option.some.injEq, memorySize, listingRadius]
    at ha hb
  obtain ⟨⟨hile, hilt⟩, rfl⟩ := ha
  obtain ⟨⟨hjle, hjlt⟩, rfl⟩ := hb
  rw [UInt16.lt_iff_toNat_lt, toNat_word (by omega), toNat_word (by omega)]
  omega

/-- The program counter is listed just when it lies in memory. -/
theorem pc_mem_listingAddresses_iff (s : State) :
    s.pc ∈ s.listingAddresses ↔ s.pc.toNat ≤ 0xFFF := by
  rw [mem_listingAddresses_iff]
  exact ⟨fun ⟨_, _, _, _, hmemory⟩ => hmemory,
    fun hmemory => ⟨0, by decide, by decide, by omega, hmemory⟩⟩

/-- The line of the program counter is marked, if there is one, and no other line is. -/
theorem filter_current_listing (s : State) :
    s.listing.filter (·.current) =
      if s.pc.toNat ≤ 0xFFF then [⟨s.pc, s.fetch s.pc, true⟩] else [] := by
  have hnodup : s.listingAddresses.Nodup :=
    s.pairwise_listingAddresses.imp fun hlt heq => UInt16.ne_of_lt hlt heq
  have hcurrent : (fun l : ListingLine => l.current) ∘ s.lineAt = (· == s.pc) := rfl
  rw [listing_eq, List.filter_map, hcurrent, List.filter_beq, hnodup.count]
  by_cases hmemory : s.pc.toNat ≤ 0xFFF
  · rw [if_pos hmemory, if_pos (s.pc_mem_listingAddresses_iff.2 hmemory)]
    show [s.lineAt s.pc] = _
    rw [lineAt, beq_self_eq_true]
  · rw [if_neg hmemory, if_neg (mt s.pc_mem_listingAddresses_iff.1 hmemory)]
    rfl

/-- The word of a line is read off the front of a text, where the mark and the address are known. -/
theorem lineText_append_inj {s t : State} (hpc : s.pc = t.pc) {a : UInt16} {rest rest' : String}
    (h : (s.lineAt a).text ++ rest = (t.lineAt a).text ++ rest') :
    s.fetch a = t.fetch a ∧ rest = rest' := by
  rw [lineAt, lineAt, hpc] at h
  simp only [ListingLine.text, String.append_assoc, String.append_right_inj] at h
  obtain ⟨hword, h⟩ := wordText_append_inj h
  -- The mnemonic is that of the word, so the rest starts at the same place.
  simp only [ListingLine.mnemonic, hword, String.append_right_inj] at h
  exact ⟨hword, h⟩

/-- Lines at the same addresses that are the same text show the same words. -/
theorem fetch_eq_of_join_eq {s t : State} (hpc : s.pc = t.pc) {as : List UInt16}
    (h : String.join ((as.map s.lineAt).map fun line => "\n" ++ line.text) =
      String.join ((as.map t.lineAt).map fun line => "\n" ++ line.text)) :
    ∀ a ∈ as, s.fetch a = t.fetch a := by
  induction as with
  | nil => exact fun a ha => absurd ha List.not_mem_nil
  | cons a as ih =>
    simp only [List.map_cons, String.join_cons, String.append_assoc, String.append_right_inj] at h
    obtain ⟨hword, h⟩ := lineText_append_inj hpc h
    exact List.forall_mem_cons.2 ⟨hword, ih h⟩

/-! ## The report -/

/-- The addresses of a listing depend on the program counter only. -/
theorem listingAddresses_congr {s t : State} (hpc : s.pc = t.pc) :
    s.listingAddresses = t.listingAddresses := by
  rw [listingAddresses, listingAddresses, hpc]

/-- Equal reports show the same registers and the same words. -/
theorem of_report_eq {s t : State} (h : s.report = t.report) :
    SameRegisters s t ∧ ∀ a ∈ s.listingAddresses, s.fetch a = t.fetch a := by
  rw [report, report, String.append_assoc, String.append_assoc] at h
  obtain ⟨hregisters, h⟩ := registerView_append_inj h
  rw [String.append_right_inj, listing_eq, listing_eq, ← listingAddresses_congr hregisters.pc] at h
  exact ⟨hregisters, fetch_eq_of_join_eq hregisters.pc h⟩

/-- A report depends on nothing but the registers and the words that it shows. -/
theorem report_congr {s t : State} (hregisters : SameRegisters s t)
    (hwords : ∀ a ∈ s.listingAddresses, s.fetch a = t.fetch a) : s.report = t.report := by
  obtain ⟨hpc, hindex, hsp, hvalues, hdelay, hsound⟩ := hregisters
  have hview : s.registerView = t.registerView := by
    simp only [registerView, registerLines, hpc, hindex, hsp, hvalues, hdelay, hsound]
  have hlisting : s.listing = t.listing := by
    rw [listing_eq, listing_eq, ← listingAddresses_congr hpc]
    refine List.map_congr_left fun a ha => ?_
    rw [lineAt, lineAt, hwords a ha, hpc]
  rw [report, report, hview, hlisting]

/-- A listing has a line for each address that lies in memory and is at most thirteen slots of two
bytes away from the program counter, in either direction, and no other line. The addresses increase,
so each has one line, and it shows the word there and its mnemonic. Just the line at the program
counter is marked, if the program counter lies in memory, and otherwise none. Two states have the
same report just when they have the same registers, stack pointer and timers, and the same words at
the addresses of the listing. -/
theorem listing_report (s : State) :
    (∀ a : UInt16, a ∈ s.listing.map (·.address) ↔
        ∃ k : Int, -13 ≤ k ∧ k ≤ 13 ∧ (a.toNat : Int) = s.pc.toNat + 2 * k ∧ a.toNat ≤ 0xFFF) ∧
      (s.listing.map (·.address)).Pairwise (· < ·) ∧
      (∀ l ∈ s.listing, l.word = s.fetch l.address ∧ l.mnemonic = s.mnemonicAt l.address ∧
        (l.current ↔ l.address = s.pc)) ∧
      s.listing.filter (·.current) =
        (if s.pc.toNat ≤ 0xFFF then [⟨s.pc, s.fetch s.pc, true⟩] else []) ∧
      ∀ t : State, s.report = t.report ↔
        (s.pc = t.pc ∧ s.index = t.index ∧ s.sp = t.sp ∧ s.registers = t.registers ∧
          s.delay = t.delay ∧ s.sound = t.sound) ∧
        ∀ a ∈ s.listing.map (·.address), s.fetch a = t.fetch a := by
  have haddresses : s.listing.map (·.address) = s.listingAddresses := by
    rw [listing_eq, List.map_map]
    exact List.map_id _
  rw [haddresses]
  refine ⟨s.mem_listingAddresses_iff, s.pairwise_listingAddresses, fun l hl => ?_,
    s.filter_current_listing, fun t => ⟨fun h => ?_, fun ⟨hregisters, hwords⟩ => ?_⟩⟩
  · obtain ⟨a, -, rfl⟩ := List.mem_map.1 hl
    exact ⟨rfl, rfl, beq_iff_eq⟩
  · obtain ⟨⟨hpc, hindex, hsp, hvalues, hdelay, hsound⟩, hwords⟩ := of_report_eq h
    exact ⟨⟨hpc, hindex, hsp, hvalues, hdelay, hsound⟩, hwords⟩
  · obtain ⟨hpc, hindex, hsp, hvalues, hdelay, hsound⟩ := hregisters
    exact report_congr ⟨hpc, hindex, hsp, hvalues, hdelay, hsound⟩ hwords

end State

end Chip8
