import EventCodegen.Proofs.EncodedText
import EventCodegen.Proofs.FileTrees
import EventCodegen.Proofs.JsonTexts
import EventCodegen.Settings.File

/-! Settings files. What is read from one has come out of a text (`properFields_of_readFile`), and
members that have been written to one are read from it again (`readFile_of_stat`). -/
namespace EventCodegen

/-- A file that has been written stands where it was written, with the bytes written to it. -/
theorem FileTree.stat_of_write {t t' : FileTree} {p : Path} {bytes : List UInt8}
    (h : t.write p bytes = .ok t') : t'.stat p = .ok (.file bytes) := by
  obtain ⟨hfind, hfree, rfl⟩ := write_eq_ok.mp h
  have hentry : (t.put (t.placeOf p) (.file bytes)).get? (t.placeOf p) = some (.file bytes) := by
    rw [get?_put t (ne_root_of_get? hfree), if_pos rfl]
  rw [stat, (find_put_file hfree bytes p).mpr hfind]
  simp only [bind, Except.bind, hentry]
  rfl

namespace Settings

open Json (Fields ProperFields)

variable {fields : Fields}

theorem properFields_of_ofText {path : Path} {s : List Char} (h : ofText path s = .ok fields) :
    ProperFields fields := by
  unfold ofText at h
  split at h
  · cases h
  · cases h
  · next hparse =>
    cases h
    exact (Json.proper_of_parse hparse).fields
  · cases h

/-- What a settings file holds has been read from a text. -/
theorem properFields_of_readFile {files : FileTree} {file : Json}
    (h : (readFile files file).outcome = .ok fields) : ProperFields fields := by
  unfold readFile at h
  split at h
  · cases h
    exact .empty
  · simp only [Traced.outcome_bind, Traced.outcome_ofExcept] at h
    obtain ⟨path, _, h⟩ := bind_eq_ok.mp h
    obtain ⟨fields, hread, h⟩ := bind_eq_ok.mp h
    cases h
    unfold read at hread
    split at hread
    · cases hread
    · cases hread
    · split at hread
      · cases hread
      · split at hread
        · cases hread
        · split at hread
          · cases hread
          · exact properFields_of_ofText hread

/-- The bytes of a settings file with some members. -/
def bytesOf (fields : Fields) : List UInt8 := Text.encode (Json.write .saved (.obj fields)).toList

theorem ofText_write (path : Path) (hfields : ProperFields fields)
    (hwrite : (Json.obj fields).writeFault? = none) :
    ofText path (Json.write .saved (.obj fields)).toList = .ok fields := by
  have hlines : Json.NoReturn (Json.write .saved (.obj fields)).toList := by
    rw [Json.write, String.toList_ofList]
    exact Json.noReturn_render hfields.proper hwrite 0
  rw [ofText, Json.unifyNewlines_of_noReturn hlines, String.ofList_toList,
    Json.parse_write hfields.proper hwrite]

/-- Of a file whose name ends as it should the bytes decide. -/
theorem read_eq_of_stat {files : FileTree} {path : Path} {bytes : List UInt8}
    (hjson : isJsonPath path = true) (hfile : files.stat path = .ok (.file bytes)) :
    read files path = match Text.decode bytes with
      | .error fault => .error (.misuse (.undecodable fault))
      | .ok s => ofText path s := by
  have hpresent : files.present path = .ok true := by rw [FileTree.present, hfile]
  have hbytes : files.read path = .ok bytes := by rw [FileTree.read, hfile]
  rw [read, hpresent, hbytes]
  exact if_neg (by simp [hjson])

/-- A file that is named is read; the note that is made of it has no part in what it holds. -/
theorem outcome_readFile_eq (files : FileTree) {p : String}
    (hjson : isJsonPath (Path.ofString p) = true) :
    (readFile files (.text p)).outcome = read files (Path.ofString p) := by
  have hgiven : (Json.text p).isGiven = true := by
    -- an empty path has no ending
    have hne : p ≠ "" := by
      rintro rfl
      revert hjson
      decide
    simp [Json.text, Json.isGiven, hne]
  have hpath : pathOf (.text p) = .ok (Path.ofString p) := rfl
  simp only [readFile, hgiven, hpath, Bool.not_true, Bool.false_eq_true, if_false,
    Traced.outcome_bind, Traced.outcome_ofExcept, Traced.outcome_note, Traced.outcome_pure]
  exact bind_pure (read files (Path.ofString p))

/-- A file whose name ends as it should is read if it stands there. -/
theorem read_of_stat {files : FileTree} {path : Path} (hjson : isJsonPath path = true)
    (hfile : files.stat path = .ok (.file (bytesOf fields))) (hfields : ProperFields fields)
    (hwrite : (Json.obj fields).writeFault? = none) : read files path = .ok fields := by
  have hdecode : Text.decode (bytesOf fields) = .ok (Json.write .saved (.obj fields)).toList :=
    Text.decode_encode _
  rw [read_eq_of_stat hjson hfile, hdecode]
  exact ofText_write path hfields hwrite

/-- Members written to a settings file are read from it. -/
theorem readFile_of_stat {files : FileTree} {p : String}
    (hjson : isJsonPath (Path.ofString p) = true)
    (hfile : files.stat (Path.ofString p) = .ok (.file (bytesOf fields)))
    (hfields : ProperFields fields) (hwrite : (Json.obj fields).writeFault? = none) :
    (readFile files (.text p)).outcome = .ok fields := by
  rw [outcome_readFile_eq files hjson, read_of_stat hjson hfile hfields hwrite]

/-- A home directory with nothing in it but a settings file. -/
def homeWith (fields : Fields) : FileTree :=
  { entries := [(["eventgen.json", "home"], .file (bytesOf fields)), (["home"], .directory)] }

theorem readFile_homeWith (hfields : ProperFields fields)
    (hwrite : (Json.obj fields).writeFault? = none) :
    (readFile (homeWith fields) (.text "eventgen.json")).outcome = .ok fields := by
  have hjson : isJsonPath (Path.ofString "eventgen.json") = true := by decide
  have hstat : (homeWith fields).stat (Path.ofString "eventgen.json") =
      .ok (.file (bytesOf fields)) := rfl
  exact readFile_of_stat hjson hstat hfields hwrite

end Settings

end EventCodegen
