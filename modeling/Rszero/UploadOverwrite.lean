import Mathlib.Data.List.Forall2
import Rszero.Upload
import Rszero.Writes

/-!
# Uploads of one form

`save_multipart` saves the files of a form one after another. Nothing keeps two of them, or one and
a file of the directory, from the same name, so a write may take the place of another.
-/

namespace Rszero.Upload

open FilePath Writes

/-- A field, with what is drawn for it and what the disk does. -/
structure Part where
  field : Field
  uuid : Uuid
  disk : Disk

/-- The loop, with the uploads so far; `next_field` may fail after the parts. -/
def saveParts (config : UploadConfig) (dest_dir : Path) (error : Option String)
    (uploads : List FileUpload) (fs : FileSystem) :
    List Part → Except RszeroError (List FileUpload) × FileSystem
  | [] =>
      match error with
      | some e => (.error (.http 400 s!"multipart error: {e}"), fs)
      | none => (.ok uploads, fs)
  | part :: parts =>
      if part.field.file_name.isSome then
        match saveUpload config dest_dir part.uuid part.disk part.field fs with
        | (.error e, fs) => (.error e, fs)
        | (.ok upload, fs) => saveParts config dest_dir error (uploads ++ [upload]) fs parts
      else saveParts config dest_dir error uploads fs parts

def saveMultipart (config : UploadConfig) (dest_dir : Path) (error : Option String)
    (parts : List Part) (fs : FileSystem) : Except RszeroError (List FileUpload) × FileSystem :=
  saveParts config dest_dir error [] fs parts

namespace Part

def isFile (part : Part) : Bool := part.field.file_name.isSome

def upload (dest_dir : Path) (part : Part) : FileUpload :=
  savedUpload part.uuid dest_dir part.field

def target (dest_dir : Path) (part : Part) : List Component :=
  components (destPath part.uuid dest_dir part.field)

end Part

def files (parts : List Part) : List Part := parts.filter Part.isFile

def InDirectory (dest_dir : Path) (path : List Component) : Prop :=
  ∃ name rest, path = components dest_dir ++ .normal name :: rest

/-- Every upload has the bytes of its field, and what was in the directory is as it was. -/
structure Preserves (dest_dir : Path) (parts : List Part) (fs fs' : FileSystem)
    (uploads : List FileUpload) : Prop where
  own : List.Forall₂ (fun part upload => fs' (components upload.saved_path) = some part.field.data ∧
    upload.size = part.field.data.length) (files parts) uploads
  others : ∀ path, InDirectory dest_dir path → fs path ≠ none → fs' path = fs path

/-- Files that are stored under one name have the same bytes, and so has a file that was there. -/
structure Compatible (dest_dir : Path) (parts : List Part) (fs : FileSystem) : Prop where
  among : ∀ p ∈ files parts, ∀ q ∈ files parts, p.target dest_dir = q.target dest_dir →
    p.field.data = q.field.data
  before : ∀ p ∈ files parts, ∀ bytes, InDirectory dest_dir (p.target dest_dir) →
    fs (p.target dest_dir) = some bytes → bytes = p.field.data

variable {config : UploadConfig} {dest_dir : Path} {error : Option String} {parts : List Part}
  {fs fs' : FileSystem} {uploads uploads' : List FileUpload} {part : Part}

def writtenAll (dest_dir : Path) (parts : List Part) (fs : FileSystem) : FileSystem :=
  writeAll (Part.target dest_dir) (fun p => some p.field.data) (files parts) fs

theorem files_cons_of_isFile (h : part.isFile) : files (part :: parts) = part :: files parts :=
  List.filter_cons_of_pos h

theorem files_cons_of_not_isFile (h : ¬ part.isFile) : files (part :: parts) = files parts :=
  List.filter_cons_of_neg h

/-- A form is saved when all its files are accepted, and its parts do not end in an error. -/
theorem saveParts_eq_ok_iff :
    saveParts config dest_dir error uploads fs parts = (.ok uploads', fs') ↔
      error = none ∧ (∀ p ∈ files parts, Accepted config p.disk p.field) ∧
        uploads' = uploads ++ (files parts).map (Part.upload dest_dir) ∧
        fs' = writtenAll dest_dir parts fs := by
  induction parts generalizing uploads fs with
  | nil =>
      have hwritten : writtenAll dest_dir [] fs = fs := rfl
      cases error with
      | some e => exact iff_of_false (fun h => absurd (Prod.mk.inj h).1 nofun) nofun
      | none => simp [saveParts, files, hwritten, eq_comm]
  | cons part parts ih =>
      rw [saveParts]
      by_cases hfile : part.field.file_name.isSome
      · have hwritten : writtenAll dest_dir (part :: parts) fs =
            writtenAll dest_dir parts (written part.uuid dest_dir part.field fs) := by
          rw [writtenAll, writtenAll, files_cons_of_isFile hfile]
          rfl
        rw [if_pos hfile, files_cons_of_isFile hfile, hwritten, List.forall_mem_cons, List.map_cons]
        by_cases haccepted : Accepted config part.disk part.field
        · rw [saveUpload_of_accepted haccepted]
          simp only [ih, haccepted, true_and, List.append_assoc]
          rfl
        · refine iff_of_false (fun h => ?_) (fun h => haccepted h.2.1.1)
          cases hsave : saveUpload config dest_dir part.uuid part.disk part.field fs with
          | mk result fs'' =>
              cases result with
              | error e =>
                  rw [hsave] at h
                  exact absurd (Prod.mk.inj h).1 nofun
              | ok upload => exact haccepted (saveUpload_eq_ok_iff.1 hsave).1
      · rw [if_neg hfile, ih, writtenAll, writtenAll, files_cons_of_not_isFile hfile]

theorem own_iff : List.Forall₂ (fun part upload =>
      writtenAll dest_dir parts fs (components upload.saved_path) = some part.field.data ∧
        upload.size = part.field.data.length) (files parts)
        ((files parts).map (Part.upload dest_dir)) ↔
    ∀ p ∈ files parts, ∀ q ∈ files parts, p.target dest_dir = q.target dest_dir →
      p.field.data = q.field.data := by
  have hwrites := forall_writeAll_iff (Part.target dest_dir) (fun p => some p.field.data)
    (files parts) fs
  simp only [Option.some.injEq] at hwrites
  rw [List.forall₂_map_right_iff, List.forall₂_same, ← hwrites]
  exact forall₂_congr (fun p _ => and_iff_left rfl)

theorem preserves_iff : Preserves dest_dir parts fs (writtenAll dest_dir parts fs)
      ((files parts).map (Part.upload dest_dir)) ↔ Compatible dest_dir parts fs := by
  constructor
  · rintro ⟨hown, hothers⟩
    have hamong := own_iff.1 hown
    refine ⟨hamong, fun p hp bytes hin hbytes => ?_⟩
    have hkept := hothers _ hin (hbytes ▸ Option.some_ne_none bytes)
    have hwritten : writtenAll dest_dir parts fs (p.target dest_dir) = some p.field.data :=
      writeAll_of_agree (fun q hq hkey => congrArg some (hamong q hq p hp hkey)) ⟨p, hp, rfl⟩
    exact Option.some.inj (hbytes.symm.trans (hkept.symm.trans hwritten))
  · rintro ⟨hamong, hbefore⟩
    refine ⟨own_iff.2 hamong, fun path hin hne => writeAll_of_same ?_⟩
    rintro p hp rfl
    obtain ⟨bytes, hbytes⟩ := Option.ne_none_iff_exists'.1 hne
    rw [hbytes, hbefore p hp bytes hin hbytes]

theorem target_of_name {p : Part} (h : p.field.name.toList ≠ ['.']) :
    p.target dest_dir =
      components dest_dir ++ [.normal (sanitizeFilename p.uuid p.field.name.toList)] :=
  components_join ((safeName_sanitize_iff p.uuid _).2 h).isFileName

/-- Two files are stored at one place when their names are sanitised to one. -/
theorem target_eq_iff {p q : Part} (hp : p.field.name.toList ≠ ['.'])
    (hq : q.field.name.toList ≠ ['.']) : p.target dest_dir = q.target dest_dir ↔
      sanitizeFilename p.uuid p.field.name.toList =
        sanitizeFilename q.uuid q.field.name.toList := by
  rw [target_of_name hp, target_of_name hq, List.append_cancel_left_eq, List.cons.injEq,
    Component.normal.injEq]
  exact and_iff_left rfl

/-- Uploads do not overwrite anything exactly when the names under which they are stored are not
those of other bytes. -/
theorem saveMultipart_exact_iff (config : UploadConfig) (dest_dir : Path) (error : Option String)
    (parts : List Part) (fs fs' : FileSystem) (uploads : List FileUpload)
    (h : saveMultipart config dest_dir error parts fs = (.ok uploads, fs')) :
    Preserves dest_dir parts fs fs' uploads ↔ Compatible dest_dir parts fs := by
  obtain ⟨-, -, rfl, rfl⟩ := saveParts_eq_ok_iff.1 h
  exact preserves_iff

def textPart (name : String) (data : Bytes) : Part :=
  ⟨⟨some name, some "text/plain", [data], none⟩, zeroUuid, ⟨none, none⟩⟩

theorem accepted_textPart (name : String) {data : Bytes} (h : data.length ≤ 10) :
    Accepted .default (textPart name data).disk (textPart name data).field where
  type := .inl rfl
  extension := .inl rfl
  read := rfl
  size := by
    have hdata : (textPart name data).field.data = data := List.append_nil data
    rw [hdata]
    exact h.trans (by decide)
  disk := ⟨rfl, rfl⟩

/-- A form with two files. -/
theorem saveMultipart_pair (name name' : String) {data data' : Bytes} (h : data.length ≤ 10)
    (h' : data'.length ≤ 10) (fs : FileSystem) :
    saveMultipart .default "/tmp".toList none [textPart name data, textPart name' data'] fs =
      (.ok [(textPart name data).upload "/tmp".toList, (textPart name' data').upload "/tmp".toList],
        writtenAll "/tmp".toList [textPart name data, textPart name' data'] fs) := by
  refine saveParts_eq_ok_iff.2 ⟨rfl, ?_, rfl, rfl⟩
  exact List.forall_mem_cons.2 ⟨accepted_textPart name h,
    List.forall_mem_cons.2 ⟨accepted_textPart name' h', nofun⟩⟩

/-- A directory with a file of the form already in it, and with another one. -/
def occupied : FileSystem := fun path =>
  if path = (textPart "a.txt" [49]).target "/tmp".toList then some [49]
  else if path = (textPart "c.txt" [51]).target "/tmp".toList then some [51]
  else none

theorem saveMultipart_exact_iff_occupied :
    Preserves "/tmp".toList [textPart "a.txt" [49], textPart "b.txt" [50]] occupied
      (writtenAll "/tmp".toList [textPart "a.txt" [49], textPart "b.txt" [50]] occupied)
      [(textPart "a.txt" [49]).upload "/tmp".toList,
        (textPart "b.txt" [50]).upload "/tmp".toList] := by
  have hsaved := @saveMultipart_pair "a.txt" "b.txt" [49] [50] (by decide) (by decide) occupied
  refine (saveMultipart_exact_iff _ _ _ _ _ _ _ hsaved).2 ⟨by decide, ?_⟩
  have ha : occupied ((textPart "a.txt" [49]).target "/tmp".toList) = some [49] := if_pos rfl
  have hb : occupied ((textPart "b.txt" [50]).target "/tmp".toList) = none := by decide
  refine List.forall_mem_cons.2 ⟨fun bytes _ hbytes => ?_,
    List.forall_mem_singleton.2 (fun bytes _ hbytes => ?_)⟩
  · exact Option.some.inj (hbytes.symm.trans ha)
  · cases hb.symm.trans hbytes

/-- Two files have one name when it is sanitised. -/
theorem not_preserves : ∃ fs' uploads,
    saveMultipart .default "/tmp".toList none [textPart "a/b" [49], textPart "a_b" [50]]
      (fun _ => none) = (.ok uploads, fs') ∧
    ¬ Preserves "/tmp".toList [textPart "a/b" [49], textPart "a_b" [50]] (fun _ => none) fs'
      uploads := by
  refine ⟨_, _, saveMultipart_pair "a/b" "a_b" (by decide) (by decide) _, fun h => ?_⟩
  have hdata := (preserves_iff.1 h).among (textPart "a/b" [49]) List.mem_cons_self
    (textPart "a_b" [50]) (List.mem_cons_of_mem _ List.mem_cons_self) (by decide)
  exact absurd hdata (by decide)

end Rszero.Upload
