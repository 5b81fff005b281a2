import Jumbox.Uploads.Methods

/-!
# `_append_to_temp_file`, read by read

`write_chunks` runs twice, over one stream and one counter. Here the stream is
anything that is read in blocks, and how much a read returns is up to it. The first
run leaves the stream at its end, so the second one reads nothing; that is what
`ChunkedUploadService.appendToTempFile` takes for granted (`appendToTempFile_iff`).
-/

namespace Jumbox

/-- An open file that is read from: `rest` is what is left of it. A read returns the
next bytes, at most as many as it is asked for, and none only at the end. -/
structure ReadStream where
  State : Type
  read : ℕ → State → Bytes × State
  rest : State → Bytes
  read_append : ∀ n s, (read n s).1 ++ rest (read n s).2 = rest s
  length_read : ∀ n s, (read n s).1.length ≤ n
  read_ne_nil : ∀ n s, 0 < n → rest s ≠ [] → (read n s).1 ≠ []

namespace ReadStream

/-- A file in memory, which returns as much as it can. -/
def memoryFile : ReadStream where
  State := Bytes
  read n s := (s.take n, s.drop n)
  rest s := s
  read_append n s := List.take_append_drop n s
  length_read n s := List.length_take_le n s
  read_ne_nil n s hn hs := by
    rw [Ne, List.take_eq_nil_iff]
    exact fun h => h.elim (by omega) hs

variable (stream : ReadStream)

/-- At the end nothing is read, and the end is not left. -/
theorem read_of_end {n : ℕ} {s : stream.State} (h : stream.rest s = []) :
    (stream.read n s).1 = [] ∧ stream.rest (stream.read n s).2 = [] := by
  have happend := stream.read_append n s
  rw [h] at happend
  exact List.append_eq_nil_iff.mp happend

theorem length_rest (n : ℕ) (s : stream.State) :
    (stream.read n s).1.length + (stream.rest (stream.read n s).2).length =
      (stream.rest s).length := by
  rw [← List.length_append, stream.read_append]

end ReadStream

namespace TempFile

/-- What the two runs of `write_chunks` share: the files, the position in the stream,
and `size_written`. -/
structure Shared (stream : ReadStream) where
  files : Files
  chunk : stream.State
  sizeWritten : ℕ

variable (stream : ReadStream) (block : ℕ) (now : ℤ) (tempPath : Path)

/-- The loop of `write_chunks`, where `block` is 4 MiB; `none` if the fuel does not
last. -/
def readLoop : ℕ → Shared stream → Option (Shared stream)
  | 0, _ => none
  | fuel + 1, v =>
      let (data, chunk) := stream.read block v.chunk
      if data = [] then some { v with chunk }
      else readLoop fuel
        ⟨v.files.append tempPath now data, chunk, v.sizeWritten + data.length⟩

/-- `temp_path.open("ab")` makes the file if it is not there. -/
def writeChunks (fuel : ℕ) (v : Shared stream) : Option (Shared stream) :=
  readLoop stream block now tempPath fuel { v with files := v.files.append tempPath now [] }

/-- `_append_to_temp_file`: what it returns, and the files it leaves. -/
def appendToTempFile (fuel : ℕ) (fs : Files) (chunk : stream.State) : Option (ℕ × Files) :=
  (writeChunks stream block now tempPath fuel ⟨fs, chunk, 0⟩).bind fun v =>
    (writeChunks stream block now tempPath fuel v).map fun v => (v.sizeWritten, v.files)

variable {stream block}

/-- The variables after a read that has returned something. -/
def Shared.step (v : Shared stream) (block : ℕ) (now : ℤ) (tempPath : Path) : Shared stream :=
  ⟨v.files.append tempPath now (stream.read block v.chunk).1, (stream.read block v.chunk).2,
    v.sizeWritten + (stream.read block v.chunk).1.length⟩

theorem readLoop_of_nil {fuel : ℕ} {v : Shared stream} (h : (stream.read block v.chunk).1 = []) :
    readLoop stream block now tempPath (fuel + 1) v =
      some { v with chunk := (stream.read block v.chunk).2 } := if_pos h

theorem readLoop_of_ne_nil {fuel : ℕ} {v : Shared stream}
    (h : (stream.read block v.chunk).1 ≠ []) :
    readLoop stream block now tempPath (fuel + 1) v =
      readLoop stream block now tempPath fuel (v.step block now tempPath) := if_neg h

/-- A run takes what is left of the stream. The fuel is for the reads, each of which
leaves less, and for the one that finds the end. -/
theorem readLoop_eq (hblock : 0 < block) {fuel : ℕ} {v : Shared stream}
    (hfuel : (stream.rest v.chunk).length < fuel) (hfile : (v.files tempPath).isSome = true) :
    ∃ chunk, stream.rest chunk = [] ∧ readLoop stream block now tempPath fuel v =
      some ⟨v.files.append tempPath now (stream.rest v.chunk), chunk,
        v.sizeWritten + (stream.rest v.chunk).length⟩ := by
  induction fuel generalizing v with
  | zero => exact absurd hfuel (Nat.not_lt_zero _)
  | succ fuel ih =>
      by_cases hend : stream.rest v.chunk = []
      · obtain ⟨hnone, hrest⟩ := stream.read_of_end (n := block) hend
        obtain ⟨f, hf⟩ := Option.isSome_iff_exists.mp hfile
        refine ⟨_, hrest, ?_⟩
        rw [readLoop_of_nil now tempPath hnone, hend, Files.append_nil hf]
        rfl
      · have hdata := stream.read_ne_nil block v.chunk hblock hend
        have hlength := stream.length_rest block v.chunk
        have hpos := List.length_pos_iff.mpr hdata
        have hless : (stream.rest (v.step block now tempPath).chunk).length < fuel := by
          show (stream.rest (stream.read block v.chunk).2).length < fuel
          omega
        have hfile' : ((v.step block now tempPath).files tempPath).isSome = true := by
          obtain ⟨t, ht⟩ :=
            Files.append_self v.files tempPath now (stream.read block v.chunk).1
          exact Option.isSome_of_eq_some ht
        obtain ⟨chunk, hrest, hloop⟩ := ih hless hfile'
        refine ⟨chunk, hrest, ?_⟩
        rw [readLoop_of_ne_nil now tempPath hdata, hloop]
        dsimp only [Shared.step]
        rw [Files.append_append, stream.read_append, Nat.add_assoc, hlength]

theorem writeChunks_eq (hblock : 0 < block) {fuel : ℕ} {v : Shared stream}
    (hfuel : (stream.rest v.chunk).length < fuel) :
    ∃ chunk, stream.rest chunk = [] ∧ writeChunks stream block now tempPath fuel v =
      some ⟨v.files.append tempPath now (stream.rest v.chunk), chunk,
        v.sizeWritten + (stream.rest v.chunk).length⟩ := by
  obtain ⟨t, ht⟩ := Files.append_self v.files tempPath now []
  obtain ⟨chunk, hrest, hloop⟩ := readLoop_eq now tempPath hblock
    (v := { v with files := v.files.append tempPath now [] }) hfuel
    (Option.isSome_of_eq_some ht)
  refine ⟨chunk, hrest, ?_⟩
  rw [writeChunks, hloop, Files.append_append]
  rfl

/-- Both runs: the second finds the stream at its end. -/
theorem appendToTempFile_eq (hblock : 0 < block) {fuel : ℕ} (fs : Files) {chunk : stream.State}
    (hfuel : (stream.rest chunk).length < fuel) :
    appendToTempFile stream block now tempPath fuel fs chunk =
      some ((stream.rest chunk).length, fs.append tempPath now (stream.rest chunk)) := by
  obtain ⟨chunk', hrest, hfirst⟩ := writeChunks_eq now tempPath hblock (v := ⟨fs, chunk, 0⟩) hfuel
  have hnone : (stream.rest chunk').length < fuel := by
    rw [hrest]
    exact Nat.zero_lt_of_lt hfuel
  rw [appendToTempFile, hfirst, Option.bind_some]
  obtain ⟨_, -, hsecond⟩ := writeChunks_eq now tempPath hblock
    (v := ⟨fs.append tempPath now (stream.rest chunk), chunk', 0 + (stream.rest chunk).length⟩)
    hnone
  rw [hsecond, Option.map_some, hrest, Files.append_append, List.append_nil]
  simp

/-- With an unbroken stream of the same content, the service's own model of the call
returns the same and leaves the same files. -/
theorem appendToTempFile_iff (hblock : 0 < block) {fuel : ℕ} (fs : Files) {chunk : stream.State}
    (hfuel : (stream.rest chunk).length < fuel) {upload : UploadStream}
    (hread : upload.failure = none) (hcontent : upload.content = stream.rest chunk) (n : ℕ)
    (fs' : Files) :
    appendToTempFile stream block now tempPath fuel fs chunk = some (n, fs') ↔
      ChunkedUploadService.appendToTempFile fs now tempPath upload = (.ok n, fs') := by
  rw [appendToTempFile_eq now tempPath hblock fs hfuel, ChunkedUploadService.appendToTempFile_eq,
    hread, hcontent]
  simp

/-- However the stream hands out its bytes, both runs end, the chunk is in the file
once, behind what was there, and its length is returned. -/
theorem temp_file_written_once (stream : ReadStream) {block : ℕ} (hblock : 0 < block) (now : ℤ)
    (tempPath : Path) (fs : Files) (chunk : stream.State) :
    ∃ fs', (∀ fuel, (stream.rest chunk).length < fuel →
        appendToTempFile stream block now tempPath fuel fs chunk =
          some ((stream.rest chunk).length, fs')) ∧
      (fs' tempPath).map File.data = some (fs.bytes tempPath ++ stream.rest chunk) ∧
      ∀ p ≠ tempPath, fs' p = fs p := by
  refine ⟨fs.append tempPath now (stream.rest chunk), ?_, ?_, ?_⟩
  · intro fuel hfuel
    exact appendToTempFile_eq now tempPath hblock fs hfuel
  · obtain ⟨t, ht⟩ := Files.append_self fs tempPath now (stream.rest chunk)
    rw [ht]
    rfl
  · intro p hp
    exact Files.append_ne hp

namespace Sample

def path : Path := ["data".toList, "tmp".toList, "a.part".toList]

/-- The file holds one byte. -/
def oneByte : Files := Files.write (fun _ => none) path 0 [9]

end Sample

/-- Five bytes in blocks of two: three reads, and one that finds the end; the second
run reads once. -/
theorem temp_file_written_once_five :
    ∃ fs', appendToTempFile .memoryFile 2 1 Sample.path 6 Sample.oneByte [1, 2, 3, 4, 5] =
        some (5, fs') ∧ (fs' Sample.path).map File.data = some [9, 1, 2, 3, 4, 5] := by
  have htwo : 0 < 2 := by decide
  obtain ⟨fs', hreturned, hdata, -⟩ := temp_file_written_once .memoryFile htwo 1 Sample.path
    Sample.oneByte [1, 2, 3, 4, 5]
  refine ⟨fs', hreturned 6 (by decide), hdata.trans ?_⟩
  decide

end TempFile

end Jumbox
