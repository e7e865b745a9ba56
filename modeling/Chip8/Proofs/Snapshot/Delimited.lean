import Chip8.Proofs.MessagePack.Stable
import Chip8.Proofs.Snapshot.Restore

/-!
# Snapshots say where they end

A saved snapshot carries its own length: a reader that is given less of it finds nothing, and one
that is given more looks at the snapshot only. The first half is that the reader does not look ahead
(`MessagePack.Value.stable_read`), at bytes that it uses up. The second half is the round trip with
bytes behind it, which also shows that no snapshot is the beginning of another
(`Snapshot.encode_inj_of_prefix`). `save_delimited` puts them together for what machines save.
-/

namespace Chip8

open MessagePack

namespace Snapshot

/-- The bytes of a snapshot are used up by the value that is read in them. -/
theorem read_encode_all (s : Snapshot) (h : s.Fits) :
    Value.read maxDepth s.encode = some (.array s.values, []) := by
  simpa using read_encode s h 1021 []

/-- What is left of the bytes of a snapshot without some of the last is not decoded. -/
theorem stateOf_take_encode (s : Snapshot) (h : s.Fits) {cut : Nat} (hcut : cut < s.encode.length) :
    stateOf (s.encode.take cut) = .error .undecodable := by
  have hmissing : s.encode.drop cut ≠ [] := by
    rw [Ne, List.drop_eq_nil_iff]
    omega
  -- A value found in the front would leave the missing bytes over.
  have hread : Value.read maxDepth (s.encode.take cut) = none := by
    have hwhole := read_encode_all s h
    rw [← List.take_append_drop cut s.encode] at hwhole
    exact (Value.stable_read maxDepth).eq_none_of_append hwhole hmissing
  rw [stateOf, decode?, hread]
  rfl

/-- A snapshot whose bytes begin with those of another is the same snapshot. -/
theorem encode_inj_of_prefix {s u : Snapshot} (hs : s.Fits) (hu : u.Fits)
    (h : s.encode <+: u.encode) : s = u := by
  obtain ⟨tail, htail⟩ := h
  have hread : decode? u.encode = some s := by rw [← htail, decode?_encode s hs]
  have hwhole : decode? u.encode = some u := by simpa using decode?_encode u hu []
  exact Option.some.inj (hread.symm.trans hwhole)

end Snapshot

namespace Machine

variable {κ κ' κ'' : Type}

/-- Every strict prefix of what a machine saves is refused as undecodable and changes nothing, what
follows the whole makes no difference, and the whole is not a strict prefix of what another machine
saves. -/
theorem save_delimited (s : Machine κ) (t : Machine κ') (u : Machine κ'') :
    (∀ cut < s.save.result.length,
        t.restore (s.save.result.take cut) =
          { result := .error (.snapshot .undecodable), machine := t }) ∧
      (∀ more, t.restore (s.save.result ++ more) = t.restore s.save.result) ∧
      (s.save.result <+: u.save.result → s.save.result = u.save.result) := by
  have hs := s.fits_snapshot
  refine ⟨fun cut hcut => ?_, fun more => ?_, fun hprefix => ?_⟩
  · exact restore_of_error t (Snapshot.stateOf_take_encode s.snapshot hs hcut)
  · have hmore : Snapshot.stateOf (s.save.result ++ more) = s.snapshot.state :=
      Snapshot.stateOf_encode_append hs more
    have hwhole : Snapshot.stateOf s.save.result = s.snapshot.state := Snapshot.stateOf_encode hs
    rw [restore, hmore, restore, hwhole]
  · have hsame := Snapshot.encode_inj_of_prefix hs u.fits_snapshot hprefix
    exact congrArg Snapshot.encode hsame

end Machine

end Chip8
