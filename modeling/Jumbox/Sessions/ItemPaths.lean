import Jumbox.Sessions.Methods
import Jumbox.Sessions.Run

/-!
# Where items are stored

`_sanitize_filename` leaves one component of a path, whatever the name was, and
the two places that build the path of an item build the same one.
-/

namespace Jumbox

/-! ## Sanitised names -/

namespace Path

/-- A name is never a dot. -/
theorem nameOf_ne_dot (text : Str) : nameOf text ≠ ['.'] := by
  intro heq
  unfold nameOf at heq
  generalize hparts : (text.splitOn '/').filter (fun c => c ≠ [] ∧ c ≠ ['.']) = parts at heq
  cases parts using List.reverseRecOn with
  | nil => cases heq
  | append_singleton parts last =>
      rw [List.getLastD_concat] at heq
      have hmem : last ∈ (text.splitOn '/').filter fun c => c ≠ [] ∧ c ≠ ['.'] := by
        rw [hparts]
        exact List.mem_append_right _ List.mem_cons_self
      have hkept := of_decide_eq_true (List.mem_filter.mp hmem).2
      exact hkept.2 heq

/-- A text that is one component, other than a dot, is its own name. -/
theorem nameOf_of_notMem {text : Str} (hslash : '/' ∉ text) (hnil : text ≠ [])
    (hdot : text ≠ ['.']) : nameOf text = text := by
  have hkeep : decide (text ≠ [] ∧ text ≠ ['.']) = true := decide_eq_true ⟨hnil, hdot⟩
  rw [nameOf, splitOn_of_notMem hslash, List.filter_cons, if_pos hkeep]
  rfl

end Path

section Sanitize

variable (d : Deployment)

/-- What the substitution makes of one character. -/
def sanitizeChar (c : Char) : Char := if d.isWord c || c = '-' || c = '.' then c else '_'

theorem sanitizeFilename_eq (name : Str) :
    sanitizeFilename d name = if (Path.nameOf name).map (sanitizeChar d) = [] then "file".toList
      else (Path.nameOf name).map (sanitizeChar d) := rfl

theorem isWord_underscore : d.isWord '_' = true := by
  rw [d.isWord_ascii '_' (by decide)]
  decide

theorem sanitizeChar_idem (c : Char) : sanitizeChar d (sanitizeChar d c) = sanitizeChar d c := by
  unfold sanitizeChar
  by_cases hkeep : (d.isWord c || c = '-' || c = '.') = true
  · rw [if_pos hkeep, if_pos hkeep]
  · rw [if_neg hkeep, isWord_underscore]
    rfl

theorem sanitizeChar_eq_dot {c : Char} (h : sanitizeChar d c = '.') : c = '.' := by
  unfold sanitizeChar at h
  by_cases hkeep : (d.isWord c || c = '-' || c = '.') = true
  · rw [if_pos hkeep] at h
    exact h
  · rw [if_neg hkeep] at h
    exact absurd h (by decide)

theorem sanitizeFilename_ne_nil (name : Str) : sanitizeFilename d name ≠ [] := by
  rw [sanitizeFilename_eq]
  split
  · decide
  · assumption

theorem sanitizeFilename_ne_dot (name : Str) : sanitizeFilename d name ≠ ['.'] := by
  rw [sanitizeFilename_eq]
  split
  · decide
  · intro heq
    obtain ⟨c, hname, hc⟩ := List.map_eq_singleton_iff.mp heq
    rw [sanitizeChar_eq_dot d hc] at hname
    exact Path.nameOf_ne_dot name hname

/-- Every character of a sanitised name is one that is kept. -/
theorem map_sanitizeFilename (name : Str) :
    (sanitizeFilename d name).map (sanitizeChar d) = sanitizeFilename d name := by
  rw [sanitizeFilename_eq]
  split
  · have hascii : "file".toList.all (fun c => c.toNat < 128 && c.isAlphanum) = true := by decide
    have hword : ∀ c ∈ "file".toList, sanitizeChar d c = c := by
      intro c hc
      have hboth := List.all_eq_true.mp hascii c hc
      rw [Bool.and_eq_true, decide_eq_true_eq] at hboth
      have hkeep : d.isWord c = true := by
        rw [d.isWord_ascii c hboth.1, hboth.2]
        rfl
      rw [sanitizeChar, hkeep]
      rfl
    rw [List.map_congr_left hword]
    exact List.map_id' _
  · rw [List.map_map]
    refine List.map_congr_left ?_
    intro c _
    exact sanitizeChar_idem d c

theorem sanitizeFilename_idem (name : Str) :
    sanitizeFilename d (sanitizeFilename d name) = sanitizeFilename d name := by
  have hname := Path.nameOf_of_notMem (slash_notMem_sanitizeFilename d name)
    (sanitizeFilename_ne_nil d name) (sanitizeFilename_ne_dot d name)
  rw [sanitizeFilename_eq d (sanitizeFilename d name), hname, map_sanitizeFilename,
    if_neg (sanitizeFilename_ne_nil d name)]

end Sanitize

/-! ## Paths of items -/

namespace SessionService

open ChunkStorage (destPath destPath_eq finalizeChunkUpload)

section Paths

variable {d : Deployment} {sid iid : Uuid} {name : Str}

/-- The path `upload_item` has its storage write to. -/
def uploadDest (d : Deployment) (sid iid : Uuid) (name : Str) : Path :=
  d.uploadsDir.join (sid.str ++ '/' :: storedNameOf iid (sanitizeFilename d name))

/-- A complete item lies at `p`, under its stored name. -/
structure StoredAt (item : TransferItem) (p : Path) : Prop where
  path : item.storagePath = some p
  name : item.storedName = p.getLast?

theorem plain_storedNameOf : Path.Plain (storedNameOf iid (sanitizeFilename d name)) := by
  refine ChunkStorage.plain_str_append iid ?_
  simp only [List.mem_cons, not_or]
  exact ⟨by decide, slash_notMem_sanitizeFilename d name⟩

/-- The name a completion sets is not empty, so it is taken over. -/
theorem completed_storedName (item : TransferItem) (sha : Str) (p : Path) (size : ℕ) :
    (completed item sha p (storedNameOf iid (sanitizeFilename d name)) size).storedName =
      some (storedNameOf iid (sanitizeFilename d name)) := if_neg plain_storedNameOf.2.1

theorem uploadDest_eq_destPath :
    uploadDest d sid iid name = destPath d sid iid (sanitizeFilename d name) :=
  ChunkStorage.join_eq_destPath d sid iid (slash_notMem_sanitizeFilename d name)

theorem destPath_eq_append : destPath d sid iid (sanitizeFilename d name) =
    d.uploadsDir.join sid.str ++ [storedNameOf iid (sanitizeFilename d name)] := by
  rw [destPath_eq d sid iid (slash_notMem_sanitizeFilename d name),
    Path.join_of_plain (ChunkStorage.plain_str sid), List.append_assoc]
  rfl

theorem getLast?_destPath : (destPath d sid iid (sanitizeFilename d name)).getLast? =
    some (storedNameOf iid (sanitizeFilename d name)) := by
  rw [destPath_eq_append, List.getLast?_concat]

theorem destPath_eq_iff {sid' iid' : Uuid} {name' : Str} :
    destPath d sid iid (sanitizeFilename d name) = destPath d sid' iid' (sanitizeFilename d name') ↔
      sid = sid' ∧ iid = iid' ∧ sanitizeFilename d name = sanitizeFilename d name' := by
  constructor
  · exact ChunkStorage.destPath_inj d (slash_notMem_sanitizeFilename d name)
      (slash_notMem_sanitizeFilename d name')
  · rintro ⟨rfl, rfl, hname⟩
    rw [hname]

variable {w w' : World} {now : ℤ} {owner : AuthenticatedUser} {item : TransferItem}

/-- `upload_item` touches one file at most. -/
theorem uploadItem_files (content : UploadStream) (size : ℤ) {p : Path}
    (hp : p ≠ uploadDest d sid iid name) :
    (uploadItem d w now sid owner name content size iid).2.files p = w.files p := by
  rw [uploadDest_eq_destPath] at hp
  rcases uploadItem_cases d w now sid owner name content size iid with haway | ⟨m, hm⟩
  · generalize uploadItem d w now sid owner name content size iid = o at haway
    cases haway with
    | error e => rfl
    | expired => rfl
  · rw [uploadItem_of_open hm]
    cases content.failure with
    | some message => exact Files.write_ne hp
    | none => exact Files.write_ne hp

theorem uploadItem_storedAt {content : UploadStream} {size : ℤ}
    (h : uploadItem d w now sid owner name content size iid = (.ok item, w')) :
    StoredAt item (uploadDest d sid iid name) := by
  rw [uploadDest_eq_destPath]
  rcases uploadItem_cases d w now sid owner name content size iid with haway | ⟨m, hm⟩
  · rw [h] at haway
    cases haway
  · rw [uploadItem_of_open hm] at h
    cases hfail : content.failure with
    | some message =>
        rw [hfail] at h
        cases h
    | none =>
        rw [hfail] at h
        cases h
        refine ⟨rfl, ?_⟩
        rw [getLast?_destPath]
        exact completed_storedName _ _ _ _

theorem appendItemChunk_storedAt {c : ChunkRequest} {n : ℕ}
    (h : appendItemChunk d w now c = (.ok (some item, n, true), w')) :
    StoredAt item (destPath d c.sessionId c.itemId (sanitizeFilename d item.originalName)) := by
  rcases appendItemChunk_cases d w now c with haway | ⟨m, i, hacc⟩
  · rw [h] at haway
    cases haway
  · rcases appendItemChunk_accepted hacc with ⟨-, heq⟩ | ⟨-, e, -, heq⟩ | ⟨-, -, t, heq⟩
    · rw [h] at heq
      cases heq
    · rw [h] at heq
      cases heq
    · rw [h] at heq
      cases heq
      rw [← hacc.sessionId, ← hacc.id]
      refine ⟨rfl, ?_⟩
      exact (completed_storedName i _ _ _).trans getLast?_destPath.symm

theorem finalizeChunkUpload_dest {fs fs' : Files} {safe sha : Str} {expected : Option Str}
    {p : Path} {n : ℕ}
    (h : finalizeChunkUpload d fs sid iid safe expected = (.ok (sha, p, n), fs')) :
    p = destPath d sid iid safe := by
  unfold finalizeChunkUpload at h
  split at h
  · cases h
  · split at h
    · cases h
    · split at h
      · cases h
      · rename_i hpublish
        cases h
        exact (ChunkStorage.publish_eq_ok hpublish).1

end Paths

/-- Both uploads put an item at one path, a function of the three, directly in the
directory of its session and under its stored name; no two identifiers share a
path; and a sanitised name is one component that sanitising leaves as it is. -/
theorem item_paths_confined (d : Deployment) (sid iid : Uuid) (name : Str) :
    uploadDest d sid iid name = destPath d sid iid (sanitizeFilename d name) ∧
    (destPath d sid iid (sanitizeFilename d name) =
        (d.uploadsDir ++ [sid.str]) ++ [storedNameOf iid (sanitizeFilename d name)] ∧
      Path.Plain (storedNameOf iid (sanitizeFilename d name))) ∧
    (∀ sid' iid' name', destPath d sid iid (sanitizeFilename d name) =
        destPath d sid' iid' (sanitizeFilename d name') → iid = iid') ∧
    (sanitizeFilename d (sanitizeFilename d name) = sanitizeFilename d name ∧
      sanitizeFilename d name ≠ [] ∧ '/' ∉ sanitizeFilename d name) ∧
    (∀ w now owner content size,
      (∀ p ≠ uploadDest d sid iid name,
        (uploadItem d w now sid owner name content size iid).2.files p = w.files p) ∧
      ∀ item w', uploadItem d w now sid owner name content size iid = (.ok item, w') →
        StoredAt item (uploadDest d sid iid name)) ∧
    (∀ fs expected sha p n fs',
      finalizeChunkUpload d fs sid iid (sanitizeFilename d name) expected =
        (.ok (sha, p, n), fs') → p = destPath d sid iid (sanitizeFilename d name)) ∧
    ∀ w now owner data offset item n w',
      appendItemChunk d w now ⟨sid, iid, owner, data, offset⟩ = (.ok (some item, n, true), w') →
        item.originalName = name → StoredAt item (destPath d sid iid (sanitizeFilename d name)) := by
  refine ⟨uploadDest_eq_destPath, ⟨?_, plain_storedNameOf⟩, ?_, ⟨?_, ?_, ?_⟩, ?_, ?_, ?_⟩
  · rw [destPath_eq_append, Path.join_of_plain (ChunkStorage.plain_str sid)]
  · intro sid' iid' name' heq
    exact (destPath_eq_iff.mp heq).2.1
  · exact sanitizeFilename_idem d name
  · exact sanitizeFilename_ne_nil d name
  · exact slash_notMem_sanitizeFilename d name
  · intro w now owner content size
    refine ⟨fun p hp => uploadItem_files content size hp, ?_⟩
    intro item w' h
    exact uploadItem_storedAt h
  · intro fs expected sha p n fs' h
    exact finalizeChunkUpload_dest h
  · rintro w now owner data offset item n w' h rfl
    exact appendItemChunk_storedAt h

namespace Sample

/-- The state of a session without items. -/
def bare : Option State := run [create false]

theorem runs_bare : bare.isSome = true := by decide +kernel

end Sample

/-- An upload under the name of the directory above. -/
theorem item_paths_confined_dots :
    ∃ item w', uploadItem .default (Sample.bare.get Sample.runs_bare).world 1 Sample.sessionId
        Sample.owner "../..".toList (.ofBytes [1]) 0 Sample.itemId = (.ok item, w') ∧
      StoredAt item (uploadDest .default Sample.sessionId Sample.itemId "../..".toList) := by
  have hok : (uploadItem .default (Sample.bare.get Sample.runs_bare).world 1 Sample.sessionId
      Sample.owner "../..".toList (.ofBytes [1]) 0 Sample.itemId).1.isOk = true := by decide +kernel
  generalize heq : uploadItem .default (Sample.bare.get Sample.runs_bare).world 1
    Sample.sessionId Sample.owner "../..".toList (.ofBytes [1]) 0 Sample.itemId = o at hok
  obtain ⟨e | item, w'⟩ := o
  · cases hok
  · obtain ⟨-, -, -, -, hupload, -, -⟩ :=
      item_paths_confined .default Sample.sessionId Sample.itemId "../..".toList
    exact ⟨item, w', rfl, (hupload _ _ _ _ _).2 item w' heq⟩

end SessionService

end Jumbox
