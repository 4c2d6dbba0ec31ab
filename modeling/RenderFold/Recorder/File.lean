/-
Records kept in files.

A record is written only by an idle recorder that has entries, all of images that fit. Whatever is
refused before the file is created changes nothing, and the entries are dropped only once the whole
record is written.
-/
import RenderFold.NameTable
import RenderFold.Recorder.Bytes

namespace RenderFold

/-! ### Files -/

/-- What holds the files and may fail. A file that is created is empty, whatever its path has named
before. -/
class FileSystem (σ : Type) where
  read : σ → String → Except MergeError Bytes
  create : σ → String → Except MergeError σ
  /-- Add bytes to the end of a file. Where this fails, some of them may have been added. -/
  append : σ → String → Bytes → Except MergeError Unit × σ

/-- Files by their paths, every path a file of its own. There is room for all of them. -/
abbrev FileStore := NameTable Bytes

instance : FileSystem FileStore where
  read fs path :=
    match fs.get? path with
    | some bytes => .ok bytes
    | none => .error (.device "there is no such file")
  create fs path := .ok (fs.put path [])
  append fs path bytes := (.ok (), fs.put path ((fs.get? path).getD [] ++ bytes))

namespace Recorder

/-! ### Dumping -/

/-- What is added to a path to name the file of a record. -/
def fileSuffix : String := ".merge"

def filePath (base : String) : String := base ++ fileSuffix

variable {σ : Type} [FileSystem σ]

/-- Refuse to dump while recording, without entries, and with too large an image. -/
def checkDump (r : Recorder) : Except MergeError Unit := do
  if r.active then throw (.invalid .recording)
  if r.entries.isEmpty then throw (.invalid .emptyRecord)
  checkEntries 0 r.entries

def save (r : Recorder) (path : String) (fs : σ) : Except MergeError Unit × σ :=
  match FileSystem.create fs path with
  | .error e => (.error e, fs)
  | .ok created =>
      let (written, files) := FileSystem.append created path r.emitted
      (do let _ ← r.encode; written, files)

/-- What a dump leaves behind: the path of the file or the refusal, the recorder and the files. -/
structure Dumped (σ : Type) where
  answer : Except MergeError String
  recorder : Recorder
  files : σ

/-- Write the record to a file and drop the entries; a dump that fails keeps them. -/
def dump (r : Recorder) (base : String) (fs : σ) : Dumped σ :=
  match r.checkDump with
  | .error e => ⟨.error e, r, fs⟩
  | .ok () =>
      match r.save (filePath base) fs with
      | (.error e, files) => ⟨.error e, r, files⟩
      | (.ok (), files) => ⟨.ok (filePath base), r.reset, files⟩

def load (base : String) (fs : σ) : Except MergeError Recorder := do
  return (← decode ⟨← FileSystem.read fs (filePath base), false⟩).1

end Recorder

end RenderFold
