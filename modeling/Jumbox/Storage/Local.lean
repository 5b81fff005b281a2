import Jumbox.Domain.Basic
import Jumbox.Platform.Sha256

/-!
# `LocalFileStorage`

The one-shot upload path: the content is written, hashed and counted in one
pass over the blocks that `content.file.read` returns.
-/

namespace Jumbox

/-- An uploaded file as the service sees it: what successive reads return up to
the end of the file, and the error that cuts the upload short, if one does. -/
structure UploadStream where
  blocks : List Bytes
  blocks_ne_nil : ∀ b ∈ blocks, b ≠ []
  failure : Option Str := none

namespace UploadStream

def content (s : UploadStream) : Bytes := s.blocks.flatten

/-- A file read in one block. -/
def ofBytes (data : Bytes) : UploadStream where
  blocks := if data = [] then [] else [data]
  blocks_ne_nil := by
    intro b hb
    split at hb
    · cases hb
    · rename_i h
      rw [List.mem_singleton.mp hb]
      exact h

end UploadStream

structure StoredFile where
  path : Path
  sizeBytes : ℕ
  sha256 : Str
deriving DecidableEq

namespace LocalFileStorage

/-- The variables of the loop in `_write_file`. A hash object is the bytes it
has been fed. -/
structure WriteLoop where
  target : Bytes := []
  sha256 : Bytes := []
  sizeBytes : ℕ := 0
deriving DecidableEq

def writeLoop (v : WriteLoop) : List Bytes → WriteLoop
  | [] => v
  | chunk :: rest =>
      if chunk = [] then v
      else writeLoop ⟨v.target ++ chunk, v.sha256 ++ chunk, v.sizeBytes + chunk.length⟩ rest

/-- The destination is opened with `"wb"`, so a failing upload leaves what it
had written so far. A destination that is a directory (the name ends in `/..`), for
which `open` raises, is not told apart. -/
def saveUpload (d : Deployment) (fs : Files) (now : ℤ) (destinationName : Str)
    (content : UploadStream) : Except Error StoredFile × Files :=
  let destinationPath := d.uploadsDir.join destinationName
  let v := writeLoop {} content.blocks
  let fs := fs.write destinationPath now v.target
  match content.failure with
  | some message => (.error ⟨.osError, message⟩, fs)
  | none => (.ok ⟨destinationPath, v.sizeBytes, hexdigest v.sha256⟩, fs)

/-- What callers hand to `delete`: the contract asks for a `StoredFile`, but two
of them pass a string. -/
inductive DeleteArgument where
  | storedFile (f : StoredFile)
  | text (s : Str)

/-- `unlinkFails` says where the operating system refuses to remove a file. -/
def delete (unlinkFails : Path → Bool) (fs : Files) : DeleteArgument → Except Error Files
  | .text _ => .error ⟨.attributeError, "'str' object has no attribute 'path'".toList⟩
  | .storedFile f =>
      match fs f.path with
      | none => .ok fs
      | some _ =>
          if unlinkFails f.path then .error ⟨.osError, "unlink".toList⟩
          else .ok (fs.unlink f.path)

/-- Hashing and counting while writing agree with the bytes written. -/
theorem writeLoop_eq (v : WriteLoop) {blocks : List Bytes} (h : ∀ b ∈ blocks, b ≠ []) :
    writeLoop v blocks =
      ⟨v.target ++ blocks.flatten, v.sha256 ++ blocks.flatten,
        v.sizeBytes + blocks.flatten.length⟩ := by
  induction blocks generalizing v with
  | nil => simp [writeLoop]
  | cons b rest ih =>
      have hb : b ≠ [] := h b List.mem_cons_self
      rw [writeLoop, if_neg hb, ih _ fun c hc => h c (List.mem_cons_of_mem _ hc)]
      simp [Nat.add_assoc]

/-- What `saveUpload` leaves and returns. -/
theorem saveUpload_eq (d : Deployment) (fs : Files) (now : ℤ) (name : Str)
    (content : UploadStream) :
    saveUpload d fs now name content =
      (match content.failure with
        | some message => .error ⟨.osError, message⟩
        | none => .ok ⟨d.uploadsDir.join name, content.content.length, hexdigest content.content⟩,
       fs.write (d.uploadsDir.join name) now content.content) := by
  simp only [saveUpload, writeLoop_eq {} content.blocks_ne_nil, List.nil_append, Nat.zero_add]
  cases content.failure <;> rfl

end LocalFileStorage

end Jumbox
