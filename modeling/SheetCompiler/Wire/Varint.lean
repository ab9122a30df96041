import SheetCompiler.Text.Utf8

/-!
# Varints

A number is written in groups of seven bits, the least significant group first, one to a byte; the
high bit of a byte says that another follows. Reading takes at most ten bytes and accepts what stays
below `2 ^ 64`, written with as few bytes as possible or not.
-/

namespace SheetCompiler.Varint

def write (n : Nat) : Bytes :=
  if n < 0x80 then [UInt8.ofNat n] else UInt8.ofNat (0x80 + n % 0x80) :: write (n / 0x80)
termination_by n

inductive Fault where
  /-- The bytes end within the number. -/
  | truncated
  /-- The number needs more than 64 bits. -/
  | overflow
  deriving DecidableEq, Repr

def Fault.message : Fault → String
  | .truncated => "truncated varint"
  | .overflow => "varint overflows 64 bits"

/-- The index of the tenth byte, which holds the one bit that is left of 64. -/
def lastPlace : Nat := 9

/-- Reads the groups from the one at `place` on. The bytes behind those that were looked at are
answered in any case. -/
def scan (place : Nat) : Bytes → Except Fault Nat × Bytes
  | [] => (.error .truncated, [])
  | b :: rest =>
      if place = lastPlace ∧ 1 < b then (.error .overflow, rest)
      else
        let group := b.toNat % 0x80 * 2 ^ (7 * place)
        if b < 0x80 then (.ok group, rest)
        else
          let (higher, rest) := scan (place + 1) rest
          (higher.map (group + ·), rest)

theorem scan_length_lt (place : Nat) (b : UInt8) (rest : Bytes) :
    (scan place (b :: rest)).2.length < (b :: rest).length := by
  induction rest generalizing place b with
  | nil => rw [scan]; split <;> (try split) <;> simp [scan]
  | cons c rest ih =>
      have h := ih (place + 1) c
      rw [scan]
      split
      · simp
      · split
        · simp
        · exact Nat.lt_succ_of_lt h

def read (bytes : Bytes) : Except Fault (Nat × Bytes) :=
  match scan 0 bytes with
  | (.ok n, rest) => .ok (n, rest)
  | (.error e, _) => .error e

theorem read_length_lt {bytes rest : Bytes} {n : Nat} (h : read bytes = .ok (n, rest)) :
    rest.length < bytes.length := by
  cases bytes with
  | nil => simp [read, scan] at h
  | cons b bytes =>
      have hlt := scan_length_lt 0 b bytes
      rw [read] at h
      split at h
      · next hscan =>
          rw [hscan] at hlt
          cases h
          exact hlt
      · cases h

/-- Reads a number at a position: the outcome, and the position behind the bytes looked at. -/
def readAt (buffer : Bytes) (position : Nat) : Except Fault Nat × Nat :=
  let bytes := buffer.drop position
  let (outcome, rest) := scan 0 bytes
  (outcome, position + (bytes.length - rest.length))

end SheetCompiler.Varint
