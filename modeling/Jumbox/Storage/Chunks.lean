import Jumbox.Domain.Basic
import Jumbox.Platform.Sha256

/-!
# `ChunkStorage`

The resumable upload path keeps one part file an item. The two functions that
await in the middle are split where they do: `appendChunk` is the size check
followed by the write, `finalizeChunkUpload` is hashing, comparing and moving.
The interleaving models run these same pieces.
-/

namespace Jumbox

namespace ChunkStorage

variable (d : Deployment)

/-- `_part_path` -/
def partPath (sessionId itemId : Uuid) : Path :=
  (d.tempDir.join sessionId.str).join (itemId.str ++ ".part".toList)

/-- Where a finished item goes: `uploads/<session_id>/<item_id>_<safe_filename>`. -/
def destPath (sessionId itemId : Uuid) (safeFilename : Str) : Path :=
  (d.uploadsDir.join sessionId.str).join (itemId.str ++ '_' :: safeFilename)

def getOffset (fs : Files) (sessionId itemId : Uuid) : ℕ := fs.size (partPath d sessionId itemId)

/-- The size check of `append_chunk`. -/
def checkOffset (fs : Files) (sessionId itemId : Uuid) (offset : ℤ) : Except Error ℕ :=
  let currentSize := fs.size (partPath d sessionId itemId)
  if (currentSize : ℤ) ≠ offset then .error (.offsetMismatch currentSize offset)
  else .ok currentSize

/-- The write of `append_chunk`, in the worker thread. -/
def writeChunk (fs : Files) (now : ℤ) (sessionId itemId : Uuid) (data : Bytes) : Files :=
  fs.append (partPath d sessionId itemId) now data

def appendChunk (fs : Files) (now : ℤ) (sessionId itemId : Uuid) (data : Bytes) (offset : ℤ) :
    Except Error ℕ × Files :=
  match checkOffset d fs sessionId itemId offset with
  | .error e => (.error e, fs)
  | .ok currentSize =>
      (.ok (currentSize + data.length), writeChunk d fs now sessionId itemId data)

/-- The read loop of `_calc_hash`; the fuel is the length of the file. -/
def hashLoop (block : ℕ) : ℕ → Bytes → Bytes → Bytes
  | 0, _, fed => fed
  | fuel + 1, rest, fed =>
      let chunk := rest.take block
      if chunk = [] then fed else hashLoop block fuel (rest.drop block) (fed ++ chunk)

/-- `_calc_hash`, behind the check that the part file exists. -/
def calcHash (fs : Files) (sessionId itemId : Uuid) : Except Error (Str × ℕ) :=
  match fs (partPath d sessionId itemId) with
  | none => .error .partFileNotFound
  | some f => .ok (hexdigest (hashLoop 1048576 f.data.length f.data []), f.data.length)

def checkHash (expectedSha256 : Option Str) (computedHash : Str) : Except Error Unit :=
  match expectedSha256 with
  | none => .ok ()
  | some expected =>
      -- an empty digest is falsy, so it is not compared
      if expected ≠ [] ∧ computedHash.lower ≠ expected.lower then
        .error (.checksumMismatch expected computedHash)
      else .ok ()

/-- The `shutil.move` of `finalize_chunk_upload`. -/
def publish (fs : Files) (sessionId itemId : Uuid) (safeFilename : Str) :
    Except Error Path × Files :=
  let destPath := destPath d sessionId itemId safeFilename
  match fs.move (partPath d sessionId itemId) destPath with
  | none => (.error ⟨.fileNotFoundError, "No such file or directory".toList⟩, fs)
  | some fs => (.ok destPath, fs)

def finalizeChunkUpload (fs : Files) (sessionId itemId : Uuid) (safeFilename : Str)
    (expectedSha256 : Option Str) : Except Error (Str × Path × ℕ) × Files :=
  match calcHash d fs sessionId itemId with
  | .error e => (.error e, fs)
  | .ok (computedHash, sizeBytes) =>
      match checkHash expectedSha256 computedHash with
      | .error e => (.error e, fs)
      | .ok () =>
          match publish d fs sessionId itemId safeFilename with
          | (.error e, fs) => (.error e, fs)
          | (.ok destPath, fs) => (.ok (computedHash, destPath, sizeBytes), fs)

def deletePart (unlinkFails : Path → Bool) (fs : Files) (sessionId itemId : Uuid) :
    Except Error Files :=
  let partPath := partPath d sessionId itemId
  match fs partPath with
  | none => .ok fs
  | some _ =>
      if unlinkFails partPath then .error ⟨.osError, "unlink".toList⟩
      else .ok (fs.unlink partPath)

/-! ## The paths -/

theorem plain_str (u : Uuid) : Path.Plain u.str :=
  Path.plain_of_length u.slash_notMem_str (by simp)

theorem plain_str_append (u : Uuid) {t : Str} (ht : '/' ∉ t) : Path.Plain (u.str ++ t) :=
  Path.plain_of_length (by simp [u.slash_notMem_str, ht]) (by simp; omega)

theorem partPath_eq (sessionId itemId : Uuid) :
    partPath d sessionId itemId =
      d.tempDir ++ [sessionId.str, itemId.str ++ ".part".toList] := by
  rw [partPath, Path.join_of_plain (plain_str _),
    Path.join_of_plain (plain_str_append _ (by decide))]
  simp

theorem destPath_eq (sessionId itemId : Uuid) {safe : Str} (h : '/' ∉ safe) :
    destPath d sessionId itemId safe =
      d.uploadsDir ++ [sessionId.str, itemId.str ++ '_' :: safe] := by
  have hname : '/' ∉ '_' :: safe := by simp [h]
  rw [destPath, Path.join_of_plain (plain_str _),
    Path.join_of_plain (plain_str_append _ hname)]
  simp

/-- The one-shot path writes to the very path a finished resumable upload is
moved to. -/
theorem join_eq_destPath (sessionId itemId : Uuid) {safe : Str} (h : '/' ∉ safe) :
    d.uploadsDir.join (sessionId.str ++ '/' :: (itemId.str ++ '_' :: safe)) =
      destPath d sessionId itemId safe := by
  have hname : '/' ∉ '_' :: safe := by simp [h]
  rw [Path.join_slash_of_plain (plain_str _) (plain_str_append _ hname), destPath_eq d _ _ h]

theorem partPath_ne_destPath (sid iid sid' iid' : Uuid) {safe : Str} (h : '/' ∉ safe) :
    partPath d sid iid ≠ destPath d sid' iid' safe := by
  rw [partPath_eq, destPath_eq d _ _ h]
  exact d.temp_ne_uploads _ _

theorem partPath_inj {sid iid sid' iid' : Uuid}
    (h : partPath d sid iid = partPath d sid' iid') : sid = sid' ∧ iid = iid' := by
  rw [partPath_eq, partPath_eq] at h
  have htail := List.append_cancel_left h
  simp only [List.cons.injEq, and_true] at htail
  exact ⟨Uuid.str_injective htail.1, Uuid.str_injective (List.append_cancel_right htail.2)⟩

theorem destPath_inj {sid iid sid' iid' : Uuid} {safe safe' : Str}
    (hs : '/' ∉ safe) (hs' : '/' ∉ safe')
    (h : destPath d sid iid safe = destPath d sid' iid' safe') :
    sid = sid' ∧ iid = iid' ∧ safe = safe' := by
  rw [destPath_eq d _ _ hs, destPath_eq d _ _ hs'] at h
  have htail := List.append_cancel_left h
  simp only [List.cons.injEq, and_true] at htail
  obtain ⟨hiid, hsafe⟩ := List.append_inj htail.2 (by simp)
  exact ⟨Uuid.str_injective htail.1, Uuid.str_injective hiid, (List.cons.inj hsafe).2⟩

/-! ## What the operations do -/

variable {d}

theorem hashLoop_eq {block : ℕ} (hblock : 0 < block) (fuel : ℕ) (rest fed : Bytes)
    (hfuel : rest.length ≤ fuel) : hashLoop block fuel rest fed = fed ++ rest := by
  induction fuel generalizing rest fed with
  | zero =>
      have : rest = [] := List.length_eq_zero_iff.mp (Nat.le_zero.mp hfuel)
      simp [hashLoop, this]
  | succ fuel ih =>
      rw [hashLoop]
      by_cases h : rest = []
      · simp [h]
      · have htake : rest.take block ≠ [] := by
          simp [h, Nat.pos_iff_ne_zero.mp hblock]
        have hpos : 0 < rest.length := List.length_pos_of_ne_nil h
        rw [if_neg htake, ih _ _ (by rw [List.length_drop]; omega), List.append_assoc,
          List.take_append_drop]

/-- Reading the part file in blocks hashes all of it. -/
theorem calcHash_eq (fs : Files) (sid iid : Uuid) :
    calcHash d fs sid iid =
      match fs (partPath d sid iid) with
      | none => .error .partFileNotFound
      | some f => .ok (hexdigest f.data, f.data.length) := by
  unfold calcHash
  cases fs (partPath d sid iid) with
  | none => rfl
  | some f =>
      have hread := hashLoop_eq (show 0 < 1048576 by decide) f.data.length f.data [] (le_refl _)
      simp only [hread, List.nil_append]

theorem checkOffset_eq_ok {fs : Files} {sid iid : Uuid} {offset : ℤ} {n : ℕ} :
    checkOffset d fs sid iid offset = .ok n ↔
      n = fs.size (partPath d sid iid) ∧ offset = fs.size (partPath d sid iid) := by
  simp only [checkOffset]
  split
  · rename_i h
    simp only [reduceCtorEq, false_iff, not_and]
    intro _ heq
    exact h heq.symm
  · rename_i h
    simp only [Except.ok.injEq]
    omega

theorem checkOffset_eq_error {fs : Files} {sid iid : Uuid} {offset : ℤ}
    (h : offset ≠ fs.size (partPath d sid iid)) :
    checkOffset d fs sid iid offset =
      .error (.offsetMismatch (fs.size (partPath d sid iid)) offset) := by
  simp only [checkOffset, if_pos (Ne.symm h)]

/-- Digests accepted for an expected one agree with it up to case. -/
theorem checkHash_eq_ok {expected : Option Str} {computed : Str} :
    checkHash expected computed = .ok () ↔
      ∀ e, expected = some e → e ≠ [] → computed.lower = e.lower := by
  cases expected with
  | none => simp [checkHash]
  | some e =>
      simp only [checkHash]
      split
      · rename_i h
        simp only [reduceCtorEq, Option.some.injEq, forall_eq', false_iff]
        exact fun hall => h.2 (hall h.1)
      · rename_i h
        simp only [Option.some.injEq, forall_eq', true_iff]
        exact fun hne => by_contra fun hl => h ⟨hne, hl⟩

theorem publish_eq_ok {fs fs' : Files} {sid iid : Uuid} {safe : Str} {p : Path}
    (h : publish d fs sid iid safe = (.ok p, fs')) :
    p = destPath d sid iid safe ∧
      fs.move (partPath d sid iid) (destPath d sid iid safe) = some fs' := by
  simp only [publish] at h
  split at h
  · cases h
  · rename_i fs'' hmove
    cases h
    exact ⟨rfl, hmove⟩

theorem publish_eq_error {fs fs' : Files} {sid iid : Uuid} {safe : Str} {e : Error}
    (h : publish d fs sid iid safe = (.error e, fs')) : fs' = fs := by
  simp only [publish] at h
  split at h
  · cases h
    rfl
  · cases h

/-- Hashing, comparing and moving a part file that is there. -/
theorem finalizeChunkUpload_eq {fs : Files} {sid iid : Uuid} {f : File} (safe : Str)
    (expected : Option Str) (hf : fs (partPath d sid iid) = some f) :
    finalizeChunkUpload d fs sid iid safe expected =
      match checkHash expected (hexdigest f.data) with
      | .error e => (.error e, fs)
      | .ok () => (.ok (hexdigest f.data, destPath d sid iid safe, f.data.length),
          Function.update (fs.unlink (partPath d sid iid)) (destPath d sid iid safe) (some f)) := by
  have hmove : fs.move (partPath d sid iid) (destPath d sid iid safe) =
      some (Function.update (fs.unlink (partPath d sid iid)) (destPath d sid iid safe)
        (some f)) := Files.move_eq_some.mpr ⟨f, hf, rfl⟩
  have hcalc := calcHash_eq (d := d) fs sid iid
  rw [hf] at hcalc
  simp only [finalizeChunkUpload, hcalc, publish, hmove]

end ChunkStorage

end Jumbox
