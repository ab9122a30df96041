/-!
# Text as bytes

A text travels as its UTF-8 bytes. Reading bytes back accepts exactly well-formed UTF-8; what is
ill-formed is reported by the index of the first character that cannot be completed, and by how many
of its bytes belong to the faulty sequence.
-/

namespace SheetCompiler

abbrev Bytes := List UInt8

namespace Text.Utf8

def encode (s : String) : Bytes := s.toUTF8.data.toList

/-- Where bytes stop being UTF-8. -/
inductive Fault where
  /-- The `length` bytes from `index` on begin no character. -/
  | invalid (length index : Nat)
  /-- The bytes end inside the character that begins at `index`. -/
  | incomplete (index : Nat)
  deriving DecidableEq, Repr

def Fault.message : Fault → String
  | .invalid length index => s!"invalid utf-8 sequence of {length} bytes from index {index}"
  | .incomplete index => s!"incomplete utf-8 byte sequence from index {index}"

/-- The range of the second byte of a character, which depends on its first, and how many further
bytes follow; `none` where the byte begins no character of several bytes. -/
def secondByte (first : UInt8) : Option (UInt8 × UInt8 × Nat) :=
  if 0xC2 ≤ first && first ≤ 0xDF then some (0x80, 0xBF, 0)
  else if first == 0xE0 then some (0xA0, 0xBF, 1)
  else if first == 0xED then some (0x80, 0x9F, 1)
  else if 0xE1 ≤ first && first ≤ 0xEF then some (0x80, 0xBF, 1)
  else if first == 0xF0 then some (0x90, 0xBF, 2)
  else if 0xF1 ≤ first && first ≤ 0xF3 then some (0x80, 0xBF, 2)
  else if first == 0xF4 then some (0x80, 0x8F, 2)
  else none

/-- Takes `owed` continuation bytes, of which the first `seen` bytes of the character at `index` are
already known to be right. -/
def continuation (index seen : Nat) : Nat → Bytes → Except Fault Bytes
  | 0, rest => .ok rest
  | _ + 1, [] => .error (.incomplete index)
  | owed + 1, b :: rest =>
      if 0x80 ≤ b && b ≤ 0xBF then continuation index (seen + 1) owed rest
      else .error (.invalid seen index)

/-- Takes one character, which begins at `index`. -/
def character (index : Nat) : Bytes → Except Fault Bytes
  | [] => .error (.incomplete index)
  | first :: rest =>
      if first < 0x80 then .ok rest
      else match secondByte first with
        | none => .error (.invalid 1 index)
        | some (low, high, owed) =>
            match rest with
            | [] => .error (.incomplete index)
            | second :: rest =>
                if low ≤ second && second ≤ high then continuation index 2 owed rest
                else .error (.invalid 1 index)

theorem continuation_length_le {index seen owed : Nat} {bytes rest : Bytes}
    (h : continuation index seen owed bytes = .ok rest) : rest.length ≤ bytes.length := by
  induction owed generalizing seen bytes with
  | zero => cases bytes <;> (simp only [continuation, Except.ok.injEq] at h; subst h; simp)
  | succ owed ih =>
      cases bytes with
      | nil => simp [continuation] at h
      | cons b bytes =>
          rw [continuation] at h
          split at h
          · have := ih h
            simp only [List.length_cons]
            omega
          · cases h

theorem character_length_lt {index : Nat} {bytes rest : Bytes}
    (h : character index bytes = .ok rest) : rest.length < bytes.length := by
  cases bytes with
  | nil => simp [character] at h
  | cons first bytes =>
      rw [character] at h
      split at h
      · cases h
        simp
      · split at h
        · cases h
        · split at h
          · cases h
          · split at h
            · have := continuation_length_le h
              simp only [List.length_cons]
              omega
            · cases h

/-- The fault of the first character that is ill-formed, `index` being where `bytes` begin. Bytes
without such a character have none to report and count as ending too early. -/
def firstFault (index : Nat) (bytes : Bytes) : Fault :=
  match bytes with
  | [] => .incomplete index
  | first :: rest =>
      match _h : character index (first :: rest) with
      | .error fault => fault
      | .ok after => firstFault (index + ((first :: rest).length - after.length)) after
termination_by bytes.length
decreasing_by exact character_length_lt _h

/-- The text with these UTF-8 bytes. -/
def decode (bytes : Bytes) : Except Fault String :=
  match String.fromUTF8? ⟨⟨bytes⟩⟩ with
  | some s => .ok s
  | none => .error (firstFault 0 bytes)

theorem decode_encode (s : String) : decode (encode s) = .ok s := by
  have h : String.fromUTF8? ⟨⟨s.toUTF8.data.toList⟩⟩ = some s := by
    change String.fromUTF8? s.toUTF8 = some s
    rw [String.fromUTF8?, String.toUTF8_eq_toByteArray, dif_pos s.isValidUTF8]
    rfl
  rw [decode, encode, h]

end Text.Utf8

end SheetCompiler
