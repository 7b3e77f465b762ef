import Mathlib.Logic.Function.Basic
import Rszero.Error
import Rszero.SanitizedNames

/-!
# Uploads

`save_upload` checks the type, the extension and the size of a file and writes it under a name from
which `sanitize_filename` has taken what could lead out of the directory. The extension is that of
the name that the client gave. Files are known by the components of their paths.
-/

namespace Rszero.Upload

open FilePath

abbrev Bytes := List UInt8

structure UploadConfig where
  max_size : ℕ
  allowed_types : List String
  allowed_extensions : List String

def UploadConfig.default : UploadConfig where
  max_size := 10 * 1024 * 1024
  allowed_types := []
  allowed_extensions := []

structure FileUpload where
  original_name : String
  saved_path : Path
  size : ℕ
  content_type : String
  checksum : Option String

/-- A part of a form, which may fail after the chunks. -/
structure Field where
  file_name : Option String
  content_type : Option String
  chunks : List Bytes
  read_error : Option String

namespace Field

def name (field : Field) : String := field.file_name.getD "unnamed"

def mimeType (field : Field) : String := field.content_type.getD "application/octet-stream"

def data (field : Field) : Bytes := field.chunks.flatten

end Field

abbrev FileSystem := List Component → Option Bytes

/-- The disk may fail to make the directory, and a write that fails leaves anything. -/
structure Disk where
  mkdir_error : Option String
  write_error : Option (String × Option Bytes)

def eqIgnoreAsciiCase (s t : List Char) : Prop := s.map Char.toLower = t.map Char.toLower

instance : DecidableRel eqIgnoreAsciiCase :=
  fun s t => inferInstanceAs (Decidable (s.map Char.toLower = t.map Char.toLower))

def IsAllowed (allowed_extensions : List String) (ext : List Char) : Prop :=
  ∃ e ∈ allowed_extensions, eqIgnoreAsciiCase e.toList ext

instance (allowed_extensions : List String) (ext : List Char) :
    Decidable (IsAllowed allowed_extensions ext) :=
  inferInstanceAs (Decidable (∃ e ∈ allowed_extensions, _))

/-- The extension that is checked, which may be empty. -/
def clientExtension (name : String) : List Char := (extension name.toList).getD []

def checkType (config : UploadConfig) (content_type : String) : Except RszeroError Unit :=
  if config.allowed_types ≠ [] ∧ content_type ∉ config.allowed_types then
    .error (.http 415 s!"content type '{content_type}' not allowed")
  else .ok ()

def checkExtension (config : UploadConfig) (file_name : String) : Except RszeroError Unit :=
  if config.allowed_extensions ≠ [] ∧
      ¬ IsAllowed config.allowed_extensions (clientExtension file_name) then
    .error (.http 415
      s!"file extension '{String.ofList (clientExtension file_name)}' not allowed")
  else .ok ()

def readChunks (max_size : ℕ) (read_error : Option String) (data : Bytes) :
    List Bytes → Except RszeroError Bytes
  | [] =>
      match read_error with
      | some e => .error (.http 400 s!"upload read error: {e}")
      | none => .ok data
  | chunk :: chunks =>
      if (data ++ chunk).length > max_size then
        .error (.http 413 s!"file exceeds maximum size of {max_size} bytes")
      else readChunks max_size read_error (data ++ chunk) chunks

def readUpload (config : UploadConfig) (field : Field) : Except RszeroError Bytes := do
  checkType config field.mimeType
  checkExtension config field.name
  readChunks config.max_size field.read_error [] field.chunks

def destPath (uuid : Uuid) (dest_dir : Path) (field : Field) : Path :=
  join dest_dir (sanitizeFilename uuid field.name.toList)

def saveUpload (config : UploadConfig) (dest_dir : Path) (uuid : Uuid) (disk : Disk)
    (field : Field) (fs : FileSystem) : Except RszeroError FileUpload × FileSystem :=
  match readUpload config field with
  | .error e => (.error e, fs)
  | .ok data =>
      let dest_path := destPath uuid dest_dir field
      match disk.mkdir_error, disk.write_error with
      | some e, _ => (.error (.internal s!"failed to create upload dir: {e}" none), fs)
      | none, some (e, left) =>
          (.error (.internal s!"failed to write upload: {e}" none),
            Function.update fs (components dest_path) left)
      | none, none =>
          (.ok ⟨field.name, dest_path, data.length, field.mimeType, none⟩,
            Function.update fs (components dest_path) (some data))

section Stored

variable {config : UploadConfig} {dest_dir : Path} {uuid : Uuid} {disk : Disk} {field : Field}
  {fs fs' : FileSystem} {upload : FileUpload} {data bytes : Bytes} {chunks : List Bytes}
  {max_size : ℕ} {read_error : Option String}

/-- The field passes the checks, and the disk does its part. -/
structure Accepted (config : UploadConfig) (disk : Disk) (field : Field) : Prop where
  type : config.allowed_types = [] ∨ field.mimeType ∈ config.allowed_types
  extension : config.allowed_extensions = [] ∨
    IsAllowed config.allowed_extensions (clientExtension field.name)
  read : field.read_error = none
  size : field.data.length ≤ config.max_size
  disk : disk.mkdir_error = none ∧ disk.write_error = none

theorem readChunks_eq_ok_iff (hdata : data.length ≤ max_size) :
    readChunks max_size read_error data chunks = .ok bytes ↔
      read_error = none ∧ data ++ chunks.flatten = bytes ∧ bytes.length ≤ max_size := by
  induction chunks generalizing data with
  | nil =>
      cases read_error with
      | none =>
          rw [readChunks, List.flatten_nil, List.append_nil, Except.ok.injEq]
          constructor
          · rintro rfl
            exact ⟨rfl, rfl, hdata⟩
          · exact fun h => h.2.1
      | some e => exact iff_of_false nofun nofun
  | cons chunk chunks ih =>
      rw [readChunks]
      split_ifs with hlarge
      · refine iff_of_false nofun ?_
        rintro ⟨-, rfl, hle⟩
        rw [List.flatten_cons, ← List.append_assoc, List.length_append] at hle
        omega
      · rw [ih (not_lt.1 hlarge), List.flatten_cons, List.append_assoc]

/-- A check that fails when neither of two conditions holds. -/
theorem ite_error_eq_ok_iff {p q : Prop} [Decidable (¬ p ∧ ¬ q)] {e : RszeroError} :
    (if ¬ p ∧ ¬ q then .error e else .ok () : Except RszeroError Unit) = .ok () ↔ p ∨ q := by
  split_ifs with h
  · exact iff_of_false nofun (fun h' => h'.elim h.1 h.2)
  · exact iff_of_true rfl (by tauto)

theorem checkType_eq_ok_iff : checkType config field.mimeType = .ok () ↔
    config.allowed_types = [] ∨ field.mimeType ∈ config.allowed_types :=
  ite_error_eq_ok_iff

theorem checkExtension_eq_ok_iff : checkExtension config field.name = .ok () ↔
    config.allowed_extensions = [] ∨
      IsAllowed config.allowed_extensions (clientExtension field.name) :=
  ite_error_eq_ok_iff

theorem readUpload_eq_ok_iff : readUpload config field = .ok bytes ↔
    checkType config field.mimeType = .ok () ∧ checkExtension config field.name = .ok () ∧
      readChunks config.max_size field.read_error [] field.chunks = .ok bytes := by
  rw [readUpload]
  cases checkType config field.mimeType with
  | error e => exact iff_of_false nofun (fun h => nomatch h.1)
  | ok u =>
      cases checkExtension config field.name with
      | error e => exact iff_of_false nofun (fun h => nomatch h.2.1)
      | ok u => exact ⟨fun h => ⟨rfl, rfl, h⟩, fun h => h.2.2⟩

theorem readUpload_eq_ok_iff_accepted (hdisk : disk.mkdir_error = none ∧ disk.write_error = none) :
    readUpload config field = .ok bytes ↔ Accepted config disk field ∧ bytes = field.data := by
  rw [readUpload_eq_ok_iff, checkType_eq_ok_iff, checkExtension_eq_ok_iff,
    readChunks_eq_ok_iff (Nat.zero_le _), List.nil_append]
  constructor
  · rintro ⟨htype, hextension, hread, rfl, hsize⟩
    exact ⟨⟨htype, hextension, hread, hsize, hdisk⟩, rfl⟩
  · rintro ⟨haccepted, rfl⟩
    exact ⟨haccepted.type, haccepted.extension, haccepted.read, rfl, haccepted.size⟩

def savedUpload (uuid : Uuid) (dest_dir : Path) (field : Field) : FileUpload :=
  ⟨field.name, destPath uuid dest_dir field, field.data.length, field.mimeType, none⟩

def written (uuid : Uuid) (dest_dir : Path) (field : Field) (fs : FileSystem) : FileSystem :=
  Function.update fs (components (destPath uuid dest_dir field)) (some field.data)

theorem saveUpload_of_accepted (h : Accepted config disk field) :
    saveUpload config dest_dir uuid disk field fs =
      (.ok (savedUpload uuid dest_dir field), written uuid dest_dir field fs) := by
  have hread : readUpload config field = .ok field.data :=
    (readUpload_eq_ok_iff_accepted h.disk).2 ⟨h, rfl⟩
  rw [saveUpload, hread, h.disk.1, h.disk.2]
  rfl

/-- An upload fails before any write, or at the disk, or is that of an accepted field. -/
theorem saveUpload_cases (config : UploadConfig) (dest_dir : Path) (uuid : Uuid) (disk : Disk)
    (field : Field) (fs : FileSystem) :
    (∃ e, saveUpload config dest_dir uuid disk field fs = (.error e, fs)) ∨
      (∃ message fs', saveUpload config dest_dir uuid disk field fs =
        (.error (.internal message none), fs')) ∨
      Accepted config disk field := by
  rw [saveUpload]
  cases hread : readUpload config field with
  | error e => exact .inl ⟨e, rfl⟩
  | ok data =>
      cases hmkdir : disk.mkdir_error with
      | some e => exact .inl ⟨_, rfl⟩
      | none =>
          cases hwrite : disk.write_error with
          | some failure => exact .inr (.inl ⟨_, _, rfl⟩)
          | none =>
              exact .inr (.inr ((readUpload_eq_ok_iff_accepted ⟨hmkdir, hwrite⟩).1 hread).1)

theorem saveUpload_eq_ok_iff :
    saveUpload config dest_dir uuid disk field fs = (.ok upload, fs') ↔
      Accepted config disk field ∧ upload = savedUpload uuid dest_dir field ∧
        fs' = written uuid dest_dir field fs := by
  constructor
  · intro h
    rcases saveUpload_cases config dest_dir uuid disk field fs with
      ⟨e, he⟩ | ⟨message, fs'', he⟩ | haccepted
    · exact absurd (Prod.mk.inj (h.symm.trans he)).1 nofun
    · exact absurd (Prod.mk.inj (h.symm.trans he)).1 nofun
    · obtain ⟨hupload, hfs⟩ := Prod.mk.inj (h.symm.trans (saveUpload_of_accepted haccepted))
      exact ⟨haccepted, Except.ok.inj hupload, hfs⟩
  · rintro ⟨haccepted, rfl, rfl⟩
    exact saveUpload_of_accepted haccepted

/-- A policy error, which is one of the protocol, comes before any write. -/
theorem unchanged_of_http {code : UInt16} {msg : String}
    (h : saveUpload config dest_dir uuid disk field fs = (.error (.http code msg), fs')) :
    fs' = fs := by
  rcases saveUpload_cases config dest_dir uuid disk field fs with
    ⟨e, he⟩ | ⟨message, fs'', he⟩ | haccepted
  · exact (Prod.mk.inj (h.symm.trans he)).2
  · exact absurd (Prod.mk.inj (h.symm.trans he)).1 nofun
  · exact absurd (Prod.mk.inj (h.symm.trans (saveUpload_of_accepted haccepted))).1 nofun

end Stored

section Policy

variable {config : UploadConfig} {dest_dir : Path} {uuid : Uuid} {disk : Disk} {field : Field}
  {fs fs' : FileSystem} {upload : FileUpload} {name : List Char}

def HasAllowedExtension (allowed_extensions : List String) (name : List Char) : Prop :=
  ∃ ext, nameExtension name = some ext ∧ IsAllowed allowed_extensions ext

/-- An allowed extension stands behind the last dot that the replacements leave. -/
def KeepsAllowed (allowed_extensions : List String) (name : List Char) : Prop :=
  ∃ before pairs tail, LastDot name before pairs tail ∧ IsAllowed allowed_extensions (masked tail)

/-- What is stored has a name, a type and a size as the configuration wants them. -/
structure Stores (config : UploadConfig) (upload : FileUpload) (fs' : FileSystem) : Prop where
  extension : config.allowed_extensions = [] ∨ ∃ name, fileName upload.saved_path = some name ∧
    HasAllowedExtension config.allowed_extensions name
  type : config.allowed_types = [] ∨ upload.content_type ∈ config.allowed_types
  size : upload.size ≤ config.max_size
  content : ∃ data, fs' (components upload.saved_path) = some data ∧ data.length = upload.size

/-- The sanitised name is that of a child of the directory, what is stored is as it should be, and a
policy error has no effect. -/
structure Obeys (config : UploadConfig) (dest_dir : Path) (uuid : Uuid) (disk : Disk)
    (field : Field) (fs : FileSystem) : Prop where
  safe : SafeName (sanitizeFilename uuid field.name.toList)
  child : components (destPath uuid dest_dir field) =
    components dest_dir ++ [.normal (sanitizeFilename uuid field.name.toList)]
  stores : ∀ upload fs', saveUpload config dest_dir uuid disk field fs = (.ok upload, fs') →
    Stores config upload fs'
  refuses : ∀ code msg fs',
    saveUpload config dest_dir uuid disk field fs = (.error (.http code msg), fs') → fs' = fs

theorem hasAllowedExtension_masked_iff {allowed_extensions : List String} :
    HasAllowedExtension allowed_extensions (masked name) ↔
      KeepsAllowed allowed_extensions name := by
  constructor
  · rintro ⟨ext, hext, hallowed⟩
    obtain ⟨before, pairs, tail, hlast, rfl⟩ := nameExtension_masked_iff.1 hext
    exact ⟨before, pairs, tail, hlast, hallowed⟩
  · rintro ⟨before, pairs, tail, hlast, hallowed⟩
    exact ⟨masked tail, nameExtension_masked_iff.2 ⟨before, pairs, tail, hlast, rfl⟩, hallowed⟩

theorem hasAllowedExtension_sanitize_iff (uuid : Uuid) {allowed_extensions : List String} :
    HasAllowedExtension allowed_extensions (sanitizeFilename uuid name) ↔
      KeepsAllowed allowed_extensions name := by
  rw [← hasAllowedExtension_masked_iff, HasAllowedExtension, HasAllowedExtension,
    nameExtension_sanitize]

theorem stores_iff (hsafe : SafeName (sanitizeFilename uuid field.name.toList))
    (haccepted : Accepted config disk field) :
    Stores config (savedUpload uuid dest_dir field) (written uuid dest_dir field fs) ↔
      config.allowed_extensions = [] ∨
        KeepsAllowed config.allowed_extensions field.name.toList := by
  have hname : fileName (savedUpload uuid dest_dir field).saved_path =
      some (sanitizeFilename uuid field.name.toList) :=
    fileName_of_components (components_join hsafe.isFileName)
  rw [← hasAllowedExtension_sanitize_iff uuid]
  constructor
  · intro hstores
    refine hstores.extension.imp_right ?_
    rintro ⟨name, hname', hallowed⟩
    exact Option.some.inj (hname.symm.trans hname') ▸ hallowed
  · intro hallowed
    exact ⟨hallowed.imp_right (fun h => ⟨_, hname, h⟩), haccepted.type, haccepted.size, field.data,
      Function.update_self .., rfl⟩

theorem obeys_iff : Obeys config dest_dir uuid disk field fs ↔
    field.name.toList ≠ ['.'] ∧ (Accepted config disk field → config.allowed_extensions = [] ∨
      KeepsAllowed config.allowed_extensions field.name.toList) := by
  constructor
  · intro hobeys
    refine ⟨(safeName_sanitize_iff uuid _).1 hobeys.safe, fun haccepted => ?_⟩
    exact (stores_iff hobeys.safe haccepted).1
      (hobeys.stores _ _ (saveUpload_of_accepted haccepted))
  · rintro ⟨hname, hextension⟩
    have hsafe := (safeName_sanitize_iff uuid field.name.toList).2 hname
    refine ⟨hsafe, components_join hsafe.isFileName, fun upload fs' h => ?_,
      fun _ _ _ => unchanged_of_http⟩
    obtain ⟨haccepted, rfl, rfl⟩ := saveUpload_eq_ok_iff.1 h
    exact (stores_iff hsafe haccepted).2 (hextension haccepted)

theorem masked_of_plain (hslash : '/' ∉ name) (hbackslash : '\\' ∉ name)
    (hdots : ¬ ['.', '.'] <:+: name) : masked name = name := by
  rw [masked, replaceDots_of_noDots hdots, replaceChar_of_not_mem hslash,
    replaceChar_of_not_mem hbackslash]

theorem extension_of_isFileName (h : IsFileName name) : extension name = nameExtension name := by
  have hname : fileName name = some name := by
    rw [fileName, components_of_isFileName h]
    rfl
  rw [extension, hname]
  rfl

/-- A plain name has the extension that is checked. -/
theorem obeys_of_plain (hslash : '/' ∉ field.name.toList) (hbackslash : '\\' ∉ field.name.toList)
    (hdots : ¬ ['.', '.'] <:+: field.name.toList) (hdot : field.name.toList ≠ ['.'])
    (hnonempty : field.name.toList ≠ []) (hempty : "" ∉ config.allowed_extensions) :
    Obeys config dest_dir uuid disk field fs := by
  have hname : IsFileName field.name.toList :=
    ⟨hnonempty, hslash, hdot, fun heq => hdots (heq ▸ List.infix_rfl)⟩
  refine obeys_iff.2 ⟨hdot, fun haccepted => haccepted.extension.imp_right ?_⟩
  rintro ⟨e, he, heq⟩
  rw [← hasAllowedExtension_masked_iff, masked_of_plain hslash hbackslash hdots]
  rw [clientExtension, extension_of_isFileName hname] at heq
  cases hext : nameExtension field.name.toList with
  | some ext => exact ⟨ext, hext, e, he, by rwa [hext] at heq⟩
  | none =>
      rw [hext, Option.getD_none, eqIgnoreAsciiCase, List.map_nil, List.map_eq_nil_iff,
        String.toList_eq_nil_iff] at heq
      exact absurd (heq ▸ he) hempty

/-- An upload is as it should be exactly when its name is not a dot and, if the field is accepted,
keeps an allowed extension. -/
theorem obeys_exact_iff (config : UploadConfig) (dest_dir : Path) (uuid : Uuid) (disk : Disk)
    (field : Field) (fs : FileSystem) :
    Obeys config dest_dir uuid disk field fs ↔
      field.name ≠ "." ∧ (Accepted config disk field → config.allowed_extensions = [] ∨
        KeepsAllowed config.allowed_extensions field.name.toList) := by
  have hdot : ['.'] = ".".toList := by decide
  rw [obeys_iff, hdot, Ne, String.toList_inj]

theorem not_obeys_of_accepted (haccepted : Accepted config disk field)
    (hne : config.allowed_extensions ≠ [])
    (hext : ∀ ext ∈ nameExtension (masked field.name.toList),
      ¬ IsAllowed config.allowed_extensions ext) :
    ¬ Obeys config dest_dir uuid disk field fs := by
  intro hobeys
  rcases (obeys_iff.1 hobeys).2 haccepted with hnil | hkeeps
  · exact hne hnil
  · obtain ⟨ext, hname, hallowed⟩ := hasAllowedExtension_masked_iff.2 hkeeps
    exact hext ext hname hallowed

end Policy

def photos : UploadConfig := { UploadConfig.default with allowed_extensions := ["jpg"] }

def named (name : String) : Field := ⟨some name, some "image/jpeg", [[255], [216]], none⟩

def zeroUuid : Uuid := ⟨"00000000-0000-4000-8000-000000000000".toList, by decide⟩

/-- A dot stays a dot; the other name is accepted for its extension and stored without one. -/
theorem not_obeys :
    ¬ Obeys .default "/tmp".toList zeroUuid ⟨none, none⟩ (named ".") (fun _ => none) ∧
      ¬ Obeys photos "/tmp".toList zeroUuid ⟨none, none⟩ (named "x.jpg/.") (fun _ => none) ∧
      ¬ Obeys photos "/tmp".toList zeroUuid ⟨none, none⟩ (named "foo..jpg") (fun _ => none) := by
  refine ⟨fun h => (obeys_iff.1 h).1 (by decide), not_obeys_of_accepted ?_ (by decide) (by decide),
    not_obeys_of_accepted ?_ (by decide) (by decide)⟩
  · exact ⟨.inl rfl, .inr (by decide), rfl, by decide, rfl, rfl⟩
  · exact ⟨.inl rfl, .inr (by decide), rfl, by decide, rfl, rfl⟩

end Rszero.Upload
