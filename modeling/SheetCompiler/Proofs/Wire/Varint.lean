import Mathlib.Algebra.GroupWithZero.Nat
import Mathlib.Data.List.Induction
import SheetCompiler.Number.BinaryFormat
import SheetCompiler.Wire.Varint

/-!
# Varints

A varint ends with the first byte whose high bit is clear. A scan reads it if that is one of the first ten bytes and
its groups make a number of 64 bits, and then nothing of it is lost. Bytes that end before that are truncated, and all
others overflow. A number is written with as few bytes as it can be, so it is never read from less.
-/

namespace SheetCompiler.Varint

variable {bytes front rest : Bytes} {last : UInt8} {place n k : Nat}

/-! ### What bytes say -/

/-- Whether the first `k` bytes are a varint: the high bit is set in all of them but the last. -/
def EndsAfter (bytes : Bytes) (k : Nat) : Prop :=
  ∃ front last rest, bytes = front ++ last :: rest ∧ front.length + 1 = k ∧ (∀ b ∈ front, 0x80 ≤ b) ∧ last < 0x80

/-- The number that the groups of these bytes make, the first one standing at a place. -/
def sumFrom (place : Nat) (bytes : Bytes) : Nat :=
  ((bytes.zipIdx place).map fun (b, i) => b.toNat % 0x80 * 2 ^ (7 * i)).sum

theorem sumFrom_cons (place : Nat) (b : UInt8) (bytes : Bytes) :
    sumFrom place (b :: bytes) = b.toNat % 0x80 * 2 ^ (7 * place) + sumFrom (place + 1) bytes := rfl

theorem sumFrom_append_singleton (place : Nat) (front : Bytes) (last : UInt8) :
    sumFrom place (front ++ [last])
      = sumFrom place front + last.toNat % 0x80 * 2 ^ (7 * (place + front.length)) := by
  rw [sumFrom, List.zipIdx_append, List.map_append, List.sum_append]
  exact congrArg (sumFrom place front + ·) (Nat.add_zero _)

/-- A group leaves off where the next place begins. -/
theorem group_add_lt {below : Nat} (b : UInt8) (h : below < 2 ^ (7 * place)) :
    b.toNat % 0x80 * 2 ^ (7 * place) + below < 2 ^ (7 * (place + 1)) :=
  calc b.toNat % 0x80 * 2 ^ (7 * place) + below < b.toNat % 0x80 * 2 ^ (7 * place) + 2 ^ (7 * place) :=
        Nat.add_lt_add_left h _
    _ = (b.toNat % 0x80 + 1) * 2 ^ (7 * place) := (Nat.succ_mul _ _).symm
    _ ≤ 0x80 * 2 ^ (7 * place) := Nat.mul_le_mul_right _ (Nat.mod_lt _ (by decide))
    _ = 2 ^ (7 * (place + 1)) := by rw [Nat.mul_succ, Nat.pow_add, Nat.mul_comm]

theorem sumFrom_zero_lt (bytes : Bytes) : sumFrom 0 bytes < 2 ^ (7 * bytes.length) := by
  induction bytes using List.reverseRecOn with
  | nil => exact Nat.one_pos
  | append_singleton front last ih =>
      rw [sumFrom_append_singleton, Nat.zero_add, List.length_append, List.length_singleton,
        Nat.add_comm (sumFrom 0 front)]
      exact group_add_lt last ih

/-- At the tenth place there is room for one bit. -/
theorem sumFrom_lt_iff (hfront : front.length ≤ lastPlace) (hlast : last < 0x80) :
    sumFrom 0 (front ++ [last]) < 2 ^ 64 ↔ (front.length = lastPlace → last ≤ 1) := by
  have hsum := sumFrom_zero_lt front
  have hgroup : last.toNat < 0x80 := UInt8.lt_iff_toNat_lt.1 hlast
  rw [sumFrom_append_singleton, Nat.zero_add, Nat.mod_eq_of_lt hgroup, UInt8.le_iff_toNat_le]
  rcases Nat.lt_or_eq_of_le hfront with hlt | heq
  · refine ⟨fun _ h => absurd h (Nat.ne_of_lt hlt), fun _ => ?_⟩
    have hall := sumFrom_zero_lt (front ++ [last])
    rw [sumFrom_append_singleton, Nat.zero_add, Nat.mod_eq_of_lt hgroup, List.length_append,
      List.length_singleton] at hall
    refine Nat.lt_of_lt_of_le hall (Nat.pow_le_pow_right (by decide) ?_)
    rw [lastPlace] at hlt
    omega
  · rw [heq] at hsum ⊢
    change sumFrom 0 front < 2 ^ 63 at hsum
    change sumFrom 0 front + last.toNat * 2 ^ 63 < 2 ^ 64 ↔ (9 = 9 → last.toNat ≤ 1)
    omega

/-! ### What a scan finds -/

theorem scan_cons_of_high {b : UInt8} (hb : 0x80 ≤ b) (hplace : place < lastPlace) (bytes : Bytes) :
    scan place (b :: bytes)
      = ((scan (place + 1) bytes).1.map (b.toNat % 0x80 * 2 ^ (7 * place) + ·), (scan (place + 1) bytes).2) := by
  rw [scan, if_neg fun h => Nat.ne_of_lt hplace h.1]
  simp only [if_neg (UInt8.not_lt.2 hb)]

theorem scan_of_ends (hfront : ∀ b ∈ front, 0x80 ≤ b) (hlast : last < 0x80) (hplace : place + front.length ≤ lastPlace)
    (hfits : place + front.length = lastPlace → last ≤ 1) (rest : Bytes) :
    scan place (front ++ last :: rest) = (.ok (sumFrom place (front ++ [last])), rest) := by
  induction front generalizing place with
  | nil =>
      have hroom : ¬(place = lastPlace ∧ 1 < last) := fun h => UInt8.not_lt.2 (hfits h.1) h.2
      rw [List.nil_append, scan, if_neg hroom]
      simp only [if_pos hlast]
      rfl
  | cons b front ih =>
      obtain ⟨hb, hfront⟩ := List.forall_mem_cons.1 hfront
      rw [List.length_cons] at hplace hfits
      rw [List.cons_append, scan_cons_of_high hb (by omega),
        ih hfront (by omega) fun h => hfits (by omega)]
      rfl

theorem scan_of_overflow (hfront : ∀ b ∈ front, 0x80 ≤ b) (hplace : place + front.length = lastPlace) (hlast : 1 < last)
    (rest : Bytes) : scan place (front ++ last :: rest) = (.error .overflow, rest) := by
  induction front generalizing place with
  | nil => rw [List.nil_append, scan, if_pos ⟨hplace, hlast⟩]
  | cons b front ih =>
      obtain ⟨hb, hfront⟩ := List.forall_mem_cons.1 hfront
      rw [List.length_cons] at hplace
      rw [List.cons_append, scan_cons_of_high hb (by omega), ih hfront (by omega)]
      rfl

theorem scan_of_short (hbytes : ∀ b ∈ bytes, 0x80 ≤ b) (hplace : place + bytes.length ≤ lastPlace) :
    scan place bytes = (.error .truncated, []) := by
  induction bytes generalizing place with
  | nil => rfl
  | cons b bytes ih =>
      obtain ⟨hb, hbytes⟩ := List.forall_mem_cons.1 hbytes
      rw [List.length_cons] at hplace
      rw [scan_cons_of_high hb (by omega), ih hbytes (by omega)]
      rfl

/-- A varint ends in time and has room, or the bytes end within it, or the byte at the last place has no room. -/
theorem bytes_cases (bytes : Bytes) (hplace : place ≤ lastPlace) :
    (∃ front last rest, bytes = front ++ last :: rest ∧ (∀ b ∈ front, 0x80 ≤ b) ∧ last < 0x80
        ∧ place + front.length ≤ lastPlace ∧ (place + front.length = lastPlace → last ≤ 1))
      ∨ ((∀ b ∈ bytes, 0x80 ≤ b) ∧ place + bytes.length ≤ lastPlace)
      ∨ ∃ front last rest, bytes = front ++ last :: rest ∧ (∀ b ∈ front, 0x80 ≤ b) ∧ place + front.length = lastPlace
        ∧ 1 < last := by
  induction bytes generalizing place with
  | nil => exact .inr (.inl ⟨nofun, hplace⟩)
  | cons b bytes ih =>
      rcases Nat.lt_or_eq_of_le hplace with hlt | heq
      · rcases UInt8.lt_or_le b 0x80 with hends | hgoes
        · exact .inl ⟨[], b, bytes, rfl, nofun, hends, hplace, fun h => absurd h (Nat.ne_of_lt hlt)⟩
        · -- The byte goes on, so all depends on what is behind it.
          have hlength (front : Bytes) : place + (b :: front).length = place + 1 + front.length := by
            rw [List.length_cons]
            omega
          rcases ih hlt with ⟨front, last, rest, rfl, hfront, hlast, hroom, hfits⟩ | ⟨hbytes, hshort⟩
            | ⟨front, last, rest, rfl, hfront, hroom, hlast⟩
          · exact .inl ⟨b :: front, last, rest, rfl, List.forall_mem_cons.2 ⟨hgoes, hfront⟩, hlast,
              hlength front ▸ hroom, fun h => hfits (hlength front ▸ h)⟩
          · exact .inr (.inl ⟨List.forall_mem_cons.2 ⟨hgoes, hbytes⟩, hlength bytes ▸ hshort⟩)
          · exact .inr (.inr ⟨b :: front, last, rest, rfl, List.forall_mem_cons.2 ⟨hgoes, hfront⟩,
              (hlength front).trans hroom, hlast⟩)
      · rcases UInt8.lt_or_le 1 b with hlast | hfits
        · exact .inr (.inr ⟨[], b, bytes, rfl, nofun, heq, hlast⟩)
        · exact .inl ⟨[], b, bytes, rfl, nofun, UInt8.lt_of_le_of_lt hfits (by decide), hplace, fun _ => hfits⟩

/-- Whether a varint of 64 bits ends after the first `k` bytes. -/
def Fits (bytes : Bytes) (k : Nat) : Prop := k ≤ 10 ∧ EndsAfter bytes k ∧ sumFrom 0 (bytes.take k) < 2 ^ 64

/-- Whether the bytes end within the first ten, before a varint does. -/
def Short (bytes : Bytes) : Prop := bytes.length < 10 ∧ ∀ b ∈ bytes, 0x80 ≤ b

theorem take_length_succ (front rest : Bytes) (last : UInt8) :
    (front ++ last :: rest).take (front.length + 1) = front ++ [last] := by
  rw [List.take_length_add_append]
  rfl

theorem Fits.scan_eq (h : Fits bytes k) : scan 0 bytes = (.ok (sumFrom 0 (bytes.take k)), bytes.drop k) := by
  obtain ⟨hle, ⟨front, last, rest, rfl, rfl, hfront, hlast⟩, hsum⟩ := h
  have hlength : front.length ≤ lastPlace := Nat.le_of_succ_le_succ hle
  rw [take_length_succ] at hsum ⊢
  have hfits := (sumFrom_lt_iff hlength hlast).1 hsum
  rw [scan_of_ends hfront hlast (by rwa [Nat.zero_add]) (by rwa [Nat.zero_add]), List.drop_length_add_append]
  rfl

theorem Short.scan_eq (h : Short bytes) : scan 0 bytes = (.error .truncated, []) :=
  scan_of_short h.2 (by rw [Nat.zero_add]; exact Nat.le_of_lt_succ h.1)

theorem fits_or_short_or_overflow (bytes : Bytes) :
    (∃ k, Fits bytes k) ∨ Short bytes ∨ ∃ rest, scan 0 bytes = (.error .overflow, rest) := by
  rcases bytes_cases bytes (Nat.zero_le lastPlace) with ⟨front, last, rest, rfl, hfront, hlast, hroom, hfits⟩
    | ⟨hbytes, hshort⟩ | ⟨front, last, rest, rfl, hfront, hroom, hlast⟩
  · rw [Nat.zero_add] at hroom hfits
    refine .inl ⟨front.length + 1, Nat.succ_le_succ hroom, ⟨front, last, rest, rfl, rfl, hfront, hlast⟩, ?_⟩
    rw [take_length_succ]
    exact (sumFrom_lt_iff hroom hlast).2 hfits
  · rw [Nat.zero_add] at hshort
    exact .inr (.inl ⟨Nat.lt_succ_of_le hshort, hbytes⟩)
  · exact .inr (.inr ⟨rest, scan_of_overflow hfront hroom hlast rest⟩)

theorem Fits.le_length (h : Fits bytes k) : k ≤ bytes.length := by
  obtain ⟨-, ⟨front, last, rest, rfl, rfl, -⟩, -⟩ := h
  rw [List.length_append, List.length_cons]
  omega

/-- Only the bytes of the varint matter. -/
theorem Fits.of_take_eq (h : Fits bytes k) {bytes' : Bytes} (htake : bytes'.take k = bytes.take k) : Fits bytes' k := by
  obtain ⟨hle, ⟨front, last, rest, rfl, rfl, hends⟩, hsum⟩ := h
  refine ⟨hle, ⟨front, last, bytes'.drop (front.length + 1), ?_, rfl, hends⟩, htake ▸ hsum⟩
  rw [take_length_succ] at htake
  rw [List.append_cons, ← htake, List.take_append_drop]

theorem exists_fits_of_scan (h : scan 0 bytes = (.ok n, rest)) :
    ∃ k, Fits bytes k ∧ n = sumFrom 0 (bytes.take k) ∧ rest = bytes.drop k := by
  rcases fits_or_short_or_overflow bytes with ⟨k, hk⟩ | hshort | ⟨rest, hover⟩
  · rw [hk.scan_eq] at h
    cases h
    exact ⟨k, hk, rfl, rfl⟩
  · rw [hshort.scan_eq] at h
    cases h
  · rw [hover] at h
    cases h

/-- A scan reads the same of the same front. -/
theorem scan_front (h : scan 0 bytes = (.ok n, rest)) :
    ∃ front, bytes = front ++ rest ∧ ∀ behind, scan 0 (front ++ behind) = (.ok n, behind) := by
  obtain ⟨k, hk, rfl, rfl⟩ := exists_fits_of_scan h
  refine ⟨bytes.take k, (List.take_append_drop k bytes).symm, fun behind => ?_⟩
  have hlength : (bytes.take k).length = k := List.length_take_of_le hk.le_length
  have htake : (bytes.take k ++ behind).take k = bytes.take k := List.take_left' hlength
  rw [(hk.of_take_eq htake).scan_eq, htake, List.drop_left' hlength]

/-! ### What is written -/

/-- The high bit is set in all bytes but the last. -/
theorem write_ends (n : Nat) :
    ∃ front last, write n = front ++ [last] ∧ (∀ b ∈ front, 0x80 ≤ b) ∧ last < 0x80 := by
  fun_induction write n with
  | case1 n hsmall =>
      refine ⟨[], UInt8.ofNat n, rfl, nofun, ?_⟩
      rw [UInt8.lt_iff_toNat_lt, UInt8.toNat_ofNat']
      exact Nat.lt_of_le_of_lt (Nat.mod_le _ _) hsmall
  | case2 n hlarge ih =>
      obtain ⟨front, last, hwrite, hfront, hlast⟩ := ih
      refine ⟨UInt8.ofNat (0x80 + n % 0x80) :: front, last, ?_, List.forall_mem_cons.2 ⟨?_, hfront⟩, hlast⟩
      · rw [hwrite, List.cons_append]
      · rw [UInt8.le_iff_toNat_le, UInt8.toNat_ofNat']
        change 128 ≤ _
        omega

theorem sumFrom_write (place n : Nat) : sumFrom place (write n) = n * 2 ^ (7 * place) := by
  fun_induction write n generalizing place with
  | case1 n hsmall =>
      have hgroup : (UInt8.ofNat n).toNat % 0x80 = n := by
        rw [UInt8.toNat_ofNat']
        omega
      rw [sumFrom_cons, hgroup]
      rfl
  | case2 n hlarge ih =>
      have hgroup : (UInt8.ofNat (0x80 + n % 0x80)).toNat % 0x80 = n % 0x80 := by
        rw [UInt8.toNat_ofNat']
        omega
      rw [sumFrom_cons, hgroup, ih]
      calc n % 0x80 * 2 ^ (7 * place) + n / 0x80 * 2 ^ (7 * (place + 1))
          = (n % 0x80 + n / 0x80 * 0x80) * 2 ^ (7 * place) := by
            rw [Nat.mul_succ, Nat.add_comm (7 * place), Nat.pow_add, ← Nat.mul_assoc, ← Nat.add_mul]
        _ = n * 2 ^ (7 * place) := by rw [Nat.mul_comm (n / 0x80), Nat.mod_add_div]

theorem length_write_pos (n : Nat) : 0 < (write n).length := by
  rw [write]
  split <;> exact Nat.succ_pos _

theorem length_write_le_iff {k : Nat} (hk : 0 < k) (n : Nat) : (write n).length ≤ k ↔ n < 0x80 ^ k := by
  induction k generalizing n with
  | zero => cases hk
  | succ k ih =>
      have hpow : 0x80 ^ (k + 1) = 0x80 ^ k * 0x80 := Nat.pow_succ ..
      have hpos : 0 < 0x80 ^ k := Nat.pow_pos (by decide)
      rw [write]
      split
      · next hsmall =>
        exact ⟨fun _ => by omega, fun _ => Nat.succ_le_succ (Nat.zero_le _)⟩
      · next hlarge =>
        have hmore := length_write_pos (n / 0x80)
        rw [List.length_cons, Nat.succ_le_succ_iff]
        cases k with
        | zero => omega
        | succ k => rw [ih (Nat.succ_pos k), Nat.div_lt_iff_lt_mul (by decide), hpow]

theorem lt_pow_length_write (n : Nat) : n < 0x80 ^ (write n).length :=
  (length_write_le_iff (length_write_pos n) n).1 (Nat.le_refl _)

theorem length_write_mono {n m : Nat} (h : n ≤ m) : (write n).length ≤ (write m).length :=
  (length_write_le_iff (length_write_pos m) n).2 (Nat.lt_of_le_of_lt h (lt_pow_length_write m))

theorem length_write_add_le (n m : Nat) : (write (n + m)).length ≤ (write n).length + (write m).length := by
  have hbase (n : Nat) : 2 ≤ 0x80 ^ (write n).length :=
    Nat.le_trans (by decide : 2 ≤ 0x80 ^ 1) (Nat.pow_le_pow_right (by decide) (length_write_pos n))
  refine (length_write_le_iff (Nat.add_pos_left (length_write_pos n) _) _).2 ?_
  calc n + m < 0x80 ^ (write n).length + 0x80 ^ (write m).length :=
        Nat.add_lt_add (lt_pow_length_write n) (lt_pow_length_write m)
    _ ≤ 0x80 ^ (write n).length * 0x80 ^ (write m).length := Nat.add_le_mul (hbase n) (hbase m)
    _ = 0x80 ^ ((write n).length + (write m).length) := (Nat.pow_add ..).symm

theorem length_write_two_mul_le (n : Nat) : (write (2 * n)).length ≤ 2 * (write n).length := by
  rw [Nat.two_mul, Nat.two_mul]
  exact length_write_add_le n n

/-- A number of 64 bits takes ten bytes at most, which is twice what any number takes that is not small. -/
theorem length_write_le_two_mul {n m : Nat} (hn : n < 2 ^ 64) (h : m < 2 ^ 28 → n ≤ m) :
    (write n).length ≤ 2 * (write m).length := by
  rcases Nat.lt_or_ge m (2 ^ 28) with hsmall | hlarge
  · have := length_write_mono (h hsmall)
    omega
  · have hten : (write n).length ≤ 10 := (length_write_le_iff (by decide) n).2 (Nat.lt_of_lt_of_le hn (by decide))
    have hfour : ¬(write m).length ≤ 4 := fun hle =>
      absurd ((length_write_le_iff (by decide) m).1 hle) (Nat.not_lt.2 hlarge)
    omega

theorem fits_write (h : n < 2 ^ 64) (rest : Bytes) : Fits (write n ++ rest) (write n).length := by
  obtain ⟨front, last, hwrite, hends⟩ := write_ends n
  have hlength : (write n).length = front.length + 1 := by rw [hwrite, List.length_append, List.length_singleton]
  refine ⟨(length_write_le_iff (by decide) n).2 (Nat.lt_trans h (by decide)), ?_, ?_⟩
  · exact ⟨front, last, rest, by rw [hwrite, ← List.append_cons], hlength.symm, hends⟩
  · rwa [List.take_left, sumFrom_write, Nat.mul_zero, Nat.pow_zero, Nat.mul_one]

theorem scan_write (h : n < 2 ^ 64) (rest : Bytes) : scan 0 (write n ++ rest) = (.ok n, rest) := by
  rw [(fits_write h rest).scan_eq, List.take_left, List.drop_left, sumFrom_write, Nat.mul_zero, Nat.pow_zero,
    Nat.mul_one]

theorem read_write (h : n < 2 ^ 64) (rest : Bytes) : read (write n ++ rest) = .ok (n, rest) := by
  rw [read, scan_write h]

/-- What is read of bytes needs no more than these. -/
theorem length_write_of_scan (h : scan 0 bytes = (.ok n, rest)) : (write n).length + rest.length ≤ bytes.length := by
  obtain ⟨k, hk, rfl, rfl⟩ := exists_fits_of_scan h
  have hlength := hk.le_length
  have hpos : 0 < k := by
    obtain ⟨-, ⟨front, last, rest, -, rfl, -⟩, -⟩ := hk
    exact Nat.succ_pos _
  have hsum := sumFrom_zero_lt (bytes.take k)
  rw [List.length_take_of_le hlength, Nat.pow_mul] at hsum
  have hwrite := (length_write_le_iff hpos _).2 hsum
  rw [List.length_drop]
  omega

end SheetCompiler.Varint
