import SheetCompiler.Proofs.FileTree
import SheetCompiler.Proofs.Header.Grammar
import SheetCompiler.Run

/-!
# Where the records of a sheet go

The record of a sheet is an identifier, so the files of its records lie directly in the directories for the two formats,
and the files of two records never share a place. So does its schema lie in the directory for schemas, as long as their
extension has no slash.
-/

namespace SheetCompiler

open FileTree

theorem isIdentifier_of_recordOfSheet? {sheet record : String} (h : recordOfSheet? sheet = some record) :
    Text.isIdentifier record = true := by
  rw [recordOfSheet?] at h
  split at h
  · dsimp only at h
    split at h
    · next hrecord => cases h; exact hrecord
    · cases h
  · cases h

theorem isName_of_isIdentifier {record suffix : String} (h : Text.isIdentifier record = true)
    (hslash : '/' ∉ suffix.toList) (hlong : 2 < suffix.length) :
    '/' ∉ (record ++ suffix).toList ∧ record ++ suffix ∉ ["", ".", ".."] := by
  constructor
  · rw [String.toList_append, List.mem_append]
    exact fun hmem => hmem.elim (Text.slash_not_mem_of_isIdentifier h) hslash
  · have hlength : 2 < (record ++ suffix).length := by rw [String.length_append]; omega
    have hshort : ∀ short ∈ ["", ".", ".."], short.length ≤ 2 := by decide
    exact fun hmem => absurd (hshort _ hmem) (by omega)

theorem place_binaryPath {record : String} (s : Settings) (h : Text.isIdentifier record = true) (w : Location) :
    place w (s.binaryPath record) = place w s.outputDirectory ++ ["bin", record ++ ".bin"] := by
  obtain ⟨hslash, hname⟩ := isName_of_isIdentifier h (by decide : '/' ∉ ".bin".toList) (by decide)
  rw [Settings.binaryPath, place_join hslash hname, place_join (by decide) (by decide), List.append_assoc]
  rfl

theorem place_textPath {record : String} (s : Settings) (h : Text.isIdentifier record = true) (w : Location) :
    place w (s.textPath record) = place w s.outputDirectory ++ ["log", record ++ ".txt"] := by
  obtain ⟨hslash, hname⟩ := isName_of_isIdentifier h (by decide : '/' ∉ ".txt".toList) (by decide)
  rw [Settings.textPath, Settings.logDirectory, place_join hslash hname, place_join (by decide) (by decide),
    List.append_assoc]
  rfl

theorem place_binaryPath_ne_textPath {record other : String} (s : Settings) (h : Text.isIdentifier record = true)
    (hother : Text.isIdentifier other = true) (w : Location) :
    place w (s.binaryPath record) ≠ place w (s.textPath other) := by
  rw [place_binaryPath s h, place_textPath s hother]
  exact fun heq => absurd (List.append_cancel_left heq) (by simp)

theorem eq_of_place_binaryPath {record other : String} {s : Settings} (h : Text.isIdentifier record = true)
    (hother : Text.isIdentifier other = true) {w : Location}
    (heq : place w (s.binaryPath record) = place w (s.binaryPath other)) : record = other := by
  rw [place_binaryPath s h, place_binaryPath s hother] at heq
  simpa using List.append_cancel_left heq

theorem eq_of_place_textPath {record other : String} {s : Settings} (h : Text.isIdentifier record = true)
    (hother : Text.isIdentifier other = true) {w : Location}
    (heq : place w (s.textPath record) = place w (s.textPath other)) : record = other := by
  rw [place_textPath s h, place_textPath s hother] at heq
  simpa using List.append_cancel_left heq

/-! ### Names with an extension -/

/-- The record is what stands in front of the first dot of a name. -/
theorem takeWhile_of_isIdentifier {record : String} (h : Text.isIdentifier record = true) (behind : String) :
    (record ++ ("." ++ behind)).toList.takeWhile (· != '.') = record.toList := by
  have hdot : ∀ c ∈ record.toList, (c != '.') = true := fun c hc => bne_iff_ne.2 fun heq =>
    absurd (Text.continuesIdentifier_of_mem h hc) (by rw [heq]; decide)
  rw [String.toList_append, List.takeWhile_append_of_pos hdot, String.toList_append]
  exact List.append_nil _

theorem eq_of_append_dot {record other behind behind' : String} (h : Text.isIdentifier record = true)
    (hother : Text.isIdentifier other = true) (heq : record ++ ("." ++ behind) = other ++ ("." ++ behind')) :
    record = other := by
  rw [← String.toList_inj, ← takeWhile_of_isIdentifier h behind, heq, takeWhile_of_isIdentifier hother]

theorem place_schemaPath {record : String} {s : Settings} (h : Text.isIdentifier record = true)
    (hslash : '/' ∉ s.schemaExtension.toList) (w : Location) :
    place w (s.schemaPath record) = place w s.schemaDirectory ++ [record ++ ("." ++ s.schemaExtension)] := by
  have hname : record ++ ("." ++ s.schemaExtension) ∉ ["", ".", ".."] := by
    intro hmem
    have hshort : ∀ short ∈ ["", ".", ".."], short.toList.takeWhile (· != '.') = [] := by decide
    have hempty := (takeWhile_of_isIdentifier h _).symm.trans (hshort _ hmem)
    rw [String.toList_eq_nil_iff.1 hempty] at h
    cases h
  have hnone : '/' ∉ (record ++ ("." ++ s.schemaExtension)).toList := by
    rw [String.toList_append, String.toList_append, List.mem_append, List.mem_append, not_or, not_or]
    exact ⟨Text.slash_not_mem_of_isIdentifier h, by decide, hslash⟩
  rw [Settings.schemaPath, Schema.fileNameOf, String.append_assoc, place_join hnone hname]

end SheetCompiler
