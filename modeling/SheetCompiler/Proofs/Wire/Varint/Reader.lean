import Mathlib.Data.Nat.Bitwise
import Mathlib.Data.Nat.Size
import SheetCompiler.Proofs.Wire.Varint

/-!
# Varints are read exactly

Reading at a position gives the number that the bytes there make, and the position behind them, or says why there is
none. So a reader that stops behind ten bytes in any case never gets that far, and one that keeps the number in a word
never shifts a bit out of it.
-/

namespace SheetCompiler.Varint

variable {bytes buffer : Bytes} {place position k : Nat}

/-! ### Reading at a position -/

theorem Fits.readAt_eq (h : Fits (buffer.drop position) k) :
    readAt buffer position = (.ok (sumFrom 0 ((buffer.drop position).take k)), position + k) := by
  have hused {bytes : Bytes} (hle : k ≤ bytes.length) : bytes.length - (bytes.drop k).length = k := by
    rw [List.length_drop]
    omega
  rw [readAt, h.scan_eq]
  simp only [hused h.le_length]

theorem readAt_eq_ok_iff (buffer : Bytes) (position n next : Nat) :
    readAt buffer position = (.ok n, next) ↔ ∃ k, Fits (buffer.drop position) k
      ∧ n = sumFrom 0 ((buffer.drop position).take k) ∧ next = position + k := by
  constructor
  · intro h
    have hok : (readAt buffer position).1 = .ok n := congrArg Prod.fst h
    obtain ⟨k, hk, -, -⟩ := exists_fits_of_scan (Prod.ext hok rfl)
    rw [hk.readAt_eq] at h
    cases h
    exact ⟨k, hk, rfl, rfl⟩
  · rintro ⟨k, hk, rfl, rfl⟩
    exact hk.readAt_eq

theorem readAt_truncated_iff (buffer : Bytes) (position : Nat) :
    (readAt buffer position).1 = .error .truncated ↔ Short (buffer.drop position) := by
  refine ⟨fun h => ?_, fun h => by rw [readAt, h.scan_eq]⟩
  rcases fits_or_short_or_overflow (buffer.drop position) with ⟨k, hk⟩ | hshort | ⟨rest, hover⟩
  · rw [readAt, hk.scan_eq] at h
    cases h
  · exact hshort
  · rw [readAt, hover] at h
    cases h

theorem readAt_overflow_iff (buffer : Bytes) (position : Nat) :
    (readAt buffer position).1 = .error .overflow
      ↔ (¬∃ k, Fits (buffer.drop position) k) ∧ ¬Short (buffer.drop position) := by
  constructor
  · refine fun h => ⟨fun ⟨k, hk⟩ => ?_, fun hshort => ?_⟩
    · rw [readAt, hk.scan_eq] at h
      cases h
    · rw [readAt, hshort.scan_eq] at h
      cases h
  · rintro ⟨hfits, hshort⟩
    rcases fits_or_short_or_overflow (buffer.drop position) with hk | h | ⟨rest, hover⟩
    · exact absurd hk hfits
    · exact absurd h hshort
    · rw [readAt, hover]

/-! ### Reading in words -/

/-- How a reader stops that takes so many bytes and no more. -/
inductive Stop where
  | fault (fault : Fault)
  /-- All bytes that it may take go on. -/
  | tooLong
  deriving DecidableEq, Repr

/-- Reads into a word of 64 bits, which holds the groups in front of `place`, and takes `limit` bytes at most. -/
def readWithin (buffer : Bytes) : (limit place : Nat) → (value : UInt64) → (position : Nat) → Except Stop UInt64 × Nat
  | 0, _, _, position => (.error .tooLong, position)
  | limit + 1, place, value, position =>
      match buffer[position]? with
      | none => (.error (.fault .truncated), position)
      | some b =>
          if place = lastPlace ∧ 1 < b then (.error (.fault .overflow), position + 1)
          else
            let value := value ||| (b &&& 0x7F).toUInt64 <<< UInt64.ofNat (7 * place)
            if b &&& 0x80 = 0 then (.ok value, position + 1)
            else readWithin buffer limit (place + 1) value (position + 1)

theorem and_high_eq_zero_iff (b : UInt8) : b &&& 0x80 = 0 ↔ b < 0x80 := by
  have hbit : b.toNat &&& 2 ^ 7 = b.toNat / 2 ^ 7 % 2 * 2 ^ 7 := by
    rw [Nat.and_two_pow, Nat.toNat_testBit]
  have hlt := b.toNat_lt
  rw [← UInt8.toNat_inj, UInt8.lt_iff_toNat_lt, UInt8.toNat_and]
  change b.toNat &&& 2 ^ 7 = 0 ↔ b.toNat < 128
  omega

theorem toNat_and_low (b : UInt8) : (b &&& 0x7F).toNat = b.toNat % 0x80 :=
  (UInt8.toNat_and ..).trans (Nat.and_two_pow_sub_one_eq_mod b.toNat 7)

theorem group_lt {b : UInt8} (hplace : place ≤ lastPlace) (hfits : place = lastPlace → b ≤ 1) :
    b.toNat % 0x80 * 2 ^ (7 * place) < 2 ^ 64 := by
  rcases Nat.lt_or_eq_of_le hplace with hlt | rfl
  · have hgroup : b.toNat % 0x80 < 2 ^ 7 := Nat.mod_lt _ (by decide)
    rw [lastPlace] at hlt
    calc b.toNat % 0x80 * 2 ^ (7 * place) < 2 ^ 7 * 2 ^ (7 * place) :=
          Nat.mul_lt_mul_of_pos_right hgroup (Nat.two_pow_pos _)
      _ = 2 ^ (7 + 7 * place) := (Nat.pow_add ..).symm
      _ ≤ 2 ^ 64 := Nat.pow_le_pow_right (by decide) (by omega)
  · have hbit : b.toNat ≤ 1 := UInt8.le_iff_toNat_le.1 (hfits rfl)
    change b.toNat % 0x80 * 2 ^ 63 < 2 ^ 64
    omega

/-- A group that is put above the ones before it keeps them, and nothing of it is shifted out. -/
theorem toNat_or_shiftLeft {value : UInt64} {b : UInt8} (hplace : place ≤ lastPlace)
    (hvalue : value.toNat < 2 ^ (7 * place)) (hfits : place = lastPlace → b ≤ 1) :
    (value ||| (b &&& 0x7F).toUInt64 <<< UInt64.ofNat (7 * place)).toNat
      = b.toNat % 0x80 * 2 ^ (7 * place) + value.toNat := by
  have hshift : (UInt64.ofNat (7 * place)).toNat % 64 = 7 * place := by
    rw [UInt64.toNat_ofNat']
    rw [lastPlace] at hplace
    omega
  rw [UInt64.toNat_or, UInt64.toNat_shiftLeft, hshift, UInt8.toNat_toUInt64, toNat_and_low, Nat.shiftLeft_eq,
    Nat.mod_eq_of_lt (group_lt hplace hfits), Nat.or_comm, Nat.mul_comm, ← Nat.two_pow_add_eq_or_of_lt hvalue]

theorem scan_length_le (place : Nat) (bytes : Bytes) : (scan place bytes).2.length ≤ bytes.length := by
  cases bytes with
  | nil => exact Nat.le_refl _
  | cons b bytes => exact Nat.le_of_lt (scan_length_lt place b bytes)

/-- What a scan that starts at a position finds, in a word that holds the groups before it, and where it leaves off. -/
def inWords (value : UInt64) (bytes : Bytes) (position : Nat) (scanned : Except Fault Nat × Bytes) :
    Except Stop UInt64 × Nat :=
  ((scanned.1.map fun n => UInt64.ofNat (n + value.toNat)).mapError .fault,
    position + (bytes.length - scanned.2.length))

/-- A group may be put into the word or be added to the number. -/
theorem inWords_cons {value value' : UInt64} {group : Nat} (hgroup : value'.toNat = group + value.toNat) (b : UInt8)
    {scanned : Except Fault Nat × Bytes} (hscanned : scanned.2.length ≤ bytes.length) :
    inWords value (b :: bytes) position (scanned.1.map (group + ·), scanned.2)
      = inWords value' bytes (position + 1) scanned := by
  refine Prod.ext ?_ ?_
  · rcases scanned with ⟨e | n, rest⟩
    · rfl
    · change Except.ok (UInt64.ofNat (group + n + value.toNat)) = Except.ok (UInt64.ofNat (n + value'.toNat))
      rw [hgroup, Nat.add_right_comm, Nat.add_comm n]
  · change position + (bytes.length + 1 - scanned.2.length) = position + 1 + (bytes.length - scanned.2.length)
    omega

theorem inWords_stopped (value : UInt64) (b : UInt8) (outcome : Except Fault Nat) :
    inWords value (b :: bytes) position (outcome, bytes)
      = ((outcome.map fun n => UInt64.ofNat (n + value.toNat)).mapError .fault, position + 1) := by
  rw [inWords, List.length_cons, Nat.add_sub_cancel_left]

theorem readWithin_eq_scan {limit : Nat} {value : UInt64} (hlimit : place + limit = 10) (hplace : place ≤ lastPlace)
    (hvalue : value.toNat < 2 ^ (7 * place)) (buffer : Bytes) (position : Nat) :
    readWithin buffer limit place value position
      = inWords value (buffer.drop position) position (scan place (buffer.drop position)) := by
  induction limit generalizing place value position with
  | zero =>
      rw [lastPlace] at hplace
      omega
  | succ limit ih =>
      rw [readWithin]
      cases hb : buffer[position]? with
      | none =>
          rw [List.drop_eq_nil_of_le (List.getElem?_eq_none_iff.1 hb)]
          rfl
      | some b =>
          obtain ⟨hlt, rfl⟩ := List.getElem?_eq_some_iff.1 hb
          rw [List.drop_eq_getElem_cons hlt, scan]
          generalize buffer[position] = b
          simp only [and_high_eq_zero_iff]
          split
          · exact (inWords_stopped value b (.error .overflow)).symm
          · next hroom =>
            have hfits : place = lastPlace → b ≤ 1 := fun h => UInt8.not_lt.1 fun hlast => hroom ⟨h, hlast⟩
            have hword := toNat_or_shiftLeft hplace hvalue hfits
            split
            · rw [inWords_stopped]
              change _ = (Except.ok (UInt64.ofNat (_ + value.toNat)), position + 1)
              rw [← hword, UInt64.ofNat_toNat]
            · next hgoes =>
              -- A tenth byte that has room ends the number, so there is a place behind this one.
              have hbefore : place < lastPlace := Nat.lt_of_le_of_ne hplace fun h =>
                hgoes (UInt8.lt_of_le_of_lt (hfits h) (by decide))
              rw [ih (by omega) hbefore (hword ▸ group_add_lt b hvalue)]
              exact (inWords_cons hword b (scan_length_le _ _)).symm

theorem readWithin_eq_readAt (buffer : Bytes) (position : Nat) :
    readWithin buffer 10 0 0 position
      = (((readAt buffer position).1.map UInt64.ofNat).mapError .fault, (readAt buffer position).2) :=
  readWithin_eq_scan rfl (Nat.zero_le _) (by decide) buffer position

theorem readWithin_ne_tooLong (buffer : Bytes) (position : Nat) :
    (readWithin buffer 10 0 0 position).1 ≠ .error .tooLong := by
  rw [readWithin_eq_readAt]
  cases (readAt buffer position).1 with
  | ok n => nofun
  | error e => nofun

/-! ### Varints of words -/

/-- A byte for every seven bits, and one for none. -/
theorem length_write (n : Nat) : (write n).length = max 1 ((n.size + 6) / 7) := by
  refine eq_of_forall_ge_iff fun k => ?_
  rcases Nat.eq_zero_or_pos k with rfl | hk
  · have := length_write_pos n
    omega
  · have hbits : n < 0x80 ^ k ↔ n.size ≤ 7 * k := by
      rw [Nat.size_le, Nat.pow_mul]
    rw [length_write_le_iff hk, hbits]
    omega

theorem readAt_write {n : Nat} (h : n < 2 ^ 64) (front rest : Bytes) :
    readAt (front ++ write n ++ rest) front.length = (.ok n, front.length + (write n).length) := by
  rw [readAt, List.append_assoc, List.drop_left]
  simp only [scan_write h, List.length_append, Nat.add_sub_cancel]

/-- What is taken off the front is what is read there. -/
theorem read_drop (buffer : Bytes) (position : Nat) :
    read (buffer.drop position)
      = (readAt buffer position).1.map fun n => (n, buffer.drop (readAt buffer position).2) := by
  rcases fits_or_short_or_overflow (buffer.drop position) with ⟨k, hk⟩ | hshort | ⟨rest, hover⟩
  · rw [read, hk.scan_eq, hk.readAt_eq, List.drop_drop]
    rfl
  · rw [read, readAt, hshort.scan_eq]
    rfl
  · rw [read, readAt, hover]
    rfl

/-- What is to hold of the varint of a word. -/
structure WrittenExactly (v : UInt64) : Prop where
  length : (write v.toNat).length = max 1 ((v.toNat.size + 6) / 7)
  length_le : (write v.toNat).length ≤ 10
  read_back : ∀ front rest, readAt (front ++ write v.toNat ++ rest) front.length
    = (.ok v.toNat, front.length + (write v.toNat).length)

/-- What is to hold of reading at a position of any bytes. -/
structure ReadExactly (buffer : Bytes) (position : Nat) : Prop where
  ok_iff : ∀ n next, readAt buffer position = (.ok n, next) ↔ ∃ k, Fits (buffer.drop position) k
    ∧ n = sumFrom 0 ((buffer.drop position).take k) ∧ next = position + k
  truncated_iff : (readAt buffer position).1 = .error .truncated ↔ Short (buffer.drop position)
  overflow_iff : (readAt buffer position).1 = .error .overflow
    ↔ (¬∃ k, Fits (buffer.drop position) k) ∧ ¬Short (buffer.drop position)
  taken_off : read (buffer.drop position)
    = (readAt buffer position).1.map fun n => (n, buffer.drop (readAt buffer position).2)
  in_words : readWithin buffer 10 0 0 position
    = (((readAt buffer position).1.map UInt64.ofNat).mapError .fault, (readAt buffer position).2)
  ne_tooLong : (readWithin buffer 10 0 0 position).1 ≠ .error .tooLong

/-- A word takes as many bytes as its bits need and is read back wherever it stands. Any bytes are read exactly, also
by a reader in words that takes ten bytes at most, and that never stops for want of another. -/
theorem written_and_read_exactly :
    (∀ v : UInt64, WrittenExactly v) ∧ ∀ (buffer : Bytes) (position : Nat), ReadExactly buffer position := by
  refine ⟨fun v => ⟨length_write _, ?_, readAt_write v.toNat_lt⟩, fun buffer position => ?_⟩
  · exact (length_write_le_iff (by decide) _).2 (Nat.lt_trans v.toNat_lt (by decide))
  · exact ⟨readAt_eq_ok_iff buffer position, readAt_truncated_iff buffer position, readAt_overflow_iff buffer position,
      read_drop buffer position, readWithin_eq_readAt buffer position, readWithin_ne_tooLong buffer position⟩

end SheetCompiler.Varint
