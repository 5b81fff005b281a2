import Jumbox.Uploads.Methods
import Jumbox.Uploads.Run

/-!
# An upload that is not registered

`upload_file` writes the file in place, and only then looks for a code, computes
the expiry and inserts the row. When one of these fails the transaction is rolled
back and the file is not: it stays, in the place of an earlier file of the same
owner and name if there was one.
-/

namespace Jumbox

namespace TransferService

variable {d : Deployment} {w w' : World} {now : ℤ} {filename : Option Str}
  {content : UploadStream} {r : Registration} {e : Error}

/-- The contents of the file at `p`, if there is one. -/
def contents (w : World) (p : Path) : Option Bytes := (w.files p).map File.data

/-- The transfers and the contents of the upload directory are as before. -/
structure NothingLeft (d : Deployment) (w w' : World) : Prop where
  rows : w'.db.transfers.rows = w.db.transfers.rows
  files : ∀ p, d.uploadsDir <+: p → contents w' p = contents w p

/-- What a call leaves that raises: the database as it was, and the file. -/
theorem uploadFile_error (h : uploadFile d w now filename content r = (.error e, w')) :
    w' = w.withFiles
      (w.files.write (uploadPath d r.owner.userId filename) now content.content) := by
  rcases uploadFile_cases d w now filename content r with ⟨e', -, heq⟩ | ⟨_, _, -, -, heq⟩
  · rw [h] at heq
    exact congrArg Prod.snd heq
  · rw [h] at heq
    cases heq

theorem contents_write_self (w : World) (p : Path) (now : ℤ) (data : Bytes) :
    contents (w.withFiles (w.files.write p now data)) p = some data := by
  show ((w.files.write p now data) p).map File.data = some data
  rw [Files.write_self]
  rfl

theorem contents_write_ne (w : World) {p q : Path} (now : ℤ) (data : Bytes) (h : q ≠ p) :
    contents (w.withFiles (w.files.write p now data)) q = contents w q := by
  show ((w.files.write p now data) q).map File.data = (w.files q).map File.data
  rw [Files.write_ne h]

/-- A call that raises leaves nothing behind exactly if the path it writes is outside
of the upload directory, or held what it has written already. -/
theorem unregistered_leaves_nothing_iff
    (h : uploadFile d w now filename content r = (.error e, w')) :
    NothingLeft d w w' ↔
      (d.uploadsDir <+: uploadPath d r.owner.userId filename →
        contents w (uploadPath d r.owner.userId filename) = some content.content) := by
  obtain rfl := uploadFile_error h
  constructor
  · intro hnothing hinside
    rw [← hnothing.files _ hinside]
    exact contents_write_self ..
  · intro hsame
    constructor
    · rfl
    · intro p hp
      by_cases hpath : p = uploadPath d r.owner.userId filename
      · subst hpath
        rw [contents_write_self, hsame hp]
      · exact contents_write_ne w now _ hpath

/-! ## An expiry that is no date -/

namespace Sample

open Uploads.Sample (owner name codes upload run)

theorem runs_first : (run [upload 11 [1]]).isSome = true := by decide +kernel

/-- The owner's `a.txt` holds one byte. -/
def first : World := ((run [upload 11 [1]]).get runs_first).world

/-- The second upload should live longer than dates go. -/
def endless : Registration :=
  ⟨owner, some 1000000000000, none, Uuid.ofNat 12, codes 12, none⟩

def second (data : Bytes) : Outcome UploadTransferResult :=
  uploadFile .default first 2 (some name) (.ofBytes data) endless

theorem second_raises (data : Bytes) (h : (second data).1.isOk = false) :
    ∃ e, second data = (.error e, (second data).2) := by
  cases hfst : (second data).1 with
  | error e => exact ⟨e, Prod.ext hfst rfl⟩
  | ok result =>
      rw [hfst] at h
      cases h

end Sample

/-- The same byte again: the file is rewritten as it was. -/
theorem unregistered_leaves_nothing_iff_same :
    NothingLeft .default Sample.first (Sample.second [1]).2 := by
  obtain ⟨e, he⟩ := Sample.second_raises [1] (by decide +kernel)
  exact (unregistered_leaves_nothing_iff he).mpr fun _ => by decide +kernel

/-- Another content: the file of the first transfer has gone. -/
theorem unregistered_overwrites :
    ¬ ∀ (d : Deployment) (w w' : World) (now : ℤ) (filename : Option Str) (content : UploadStream)
      (r : Registration) (e : Error), content.failure = none →
        uploadFile d w now filename content r = (.error e, w') → NothingLeft d w w' := by
  intro h
  obtain ⟨e, he⟩ := Sample.second_raises [2, 3] (by decide +kernel)
  have hnothing := h .default Sample.first _ 2 _ (.ofBytes [2, 3]) Sample.endless e (by decide) he
  have hpath : contents (Sample.second [2, 3]).2
      (uploadPath .default Uploads.Sample.owner.userId (some Uploads.Sample.name)) =
        some [2, 3] := by decide +kernel
  have hsame := hnothing.files (uploadPath .default Uploads.Sample.owner.userId
    (some Uploads.Sample.name)) (by decide +kernel)
  rw [hpath] at hsame
  have hfirst : contents Sample.first (uploadPath .default Uploads.Sample.owner.userId
      (some Uploads.Sample.name)) = some [1] := by decide +kernel
  rw [hfirst] at hsame
  exact absurd hsame (by decide)

end TransferService

end Jumbox
