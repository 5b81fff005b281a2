import Jumbox.Sessions.Invariant
import Mathlib.Data.Fintype.Basic

/-!
# Concurrent chunks that finish an item

`append_item_chunk` requests on one item, cut where the method awaits: the
opening transaction, the size check, the write, and then, for a request that
reaches the end, hashing, comparing, moving and recording. Every step is the
piece the serial method is made of.
-/

namespace Jumbox

namespace FinalizeRace

open SessionService ChunkStorage

/-- What a request sends for the item. -/
structure Request where
  owner : AuthenticatedUser
  chunkData : Bytes
  offset : ℤ

/-- The arguments of the request as a chunk of the item. -/
def Request.chunk (r : Request) (sessionId itemId : Uuid) : ChunkRequest :=
  ⟨sessionId, itemId, r.owner, r.chunkData, r.offset⟩

/-- Where a request has got to, with its local variables. -/
inductive Phase where
  | waiting
  | opened (item : TransferItem)
  | checked (item : TransferItem) (currentSize : ℕ)
  | appended (item : TransferItem) (newOffset : ℕ)
  /-- `touched` records whether another request has written to the part file
  since it was hashed. -/
  | hashed (item : TransferItem) (newOffset : ℕ) (computedHash : Str) (sizeBytes : ℕ)
      (touched : Bool)
  | compared (item : TransferItem) (newOffset : ℕ) (computedHash : Str) (sizeBytes : ℕ)
      (touched : Bool)
  /-- `finalize_chunk_upload` has returned; `left` is what was at `destPath` then. -/
  | moved (item : TransferItem) (newOffset : ℕ) (computedHash : Str) (destPath : Path)
      (sizeBytes : ℕ) (left : Option File)
  | finished (result : Except Error (Option TransferItem × ℕ × Bool))

/-- The next step of a request. -/
def next (d : Deployment) (c : ChunkRequest) (w : World) (now : ℤ) : Phase → Option (World × Phase)
  | .waiting =>
      match openChunk w now c with
      | (.error e, w) => some (w, .finished (.error e))
      | (.ok item, w) => some (w, .opened item)
  | .opened item =>
      match checkOffset d w.files c.sessionId c.itemId c.offset with
      | .error e => some (w, .finished (.error e))
      | .ok currentSize => some (w, .checked item currentSize)
  | .checked item currentSize =>
      some (w.withFiles (writeChunk d w.files now c.sessionId c.itemId c.chunkData),
        .appended item (currentSize + c.chunkData.length))
  | .appended item newOffset =>
      if reachesEnd item newOffset then
        match calcHash d w.files c.sessionId c.itemId with
        | .error e => some (w, .finished (.error e))
        | .ok (computedHash, sizeBytes) =>
            some (w, .hashed item newOffset computedHash sizeBytes false)
      else
        let (item, db) := continueChunk w.db c.itemId
        some (w.withDb db, .finished (.ok (item, newOffset, false)))
  | .hashed item newOffset computedHash sizeBytes touched =>
      match checkHash item.checksumSha256 computedHash with
      | .error e => some (w, .finished (.error e))
      | .ok () => some (w, .compared item newOffset computedHash sizeBytes touched)
  | .compared item newOffset computedHash sizeBytes _ =>
      match publish d w.files c.sessionId c.itemId (sanitizeFilename d item.originalName) with
      | (.error e, fs) => some (w.withFiles fs, .finished (.error e))
      | (.ok destPath, fs) =>
          some (w.withFiles fs,
            .moved item newOffset computedHash destPath sizeBytes (fs destPath))
  | .moved item newOffset computedHash destPath sizeBytes _ =>
      let (item, db) := closeChunk w.db c.sessionId c.itemId computedHash destPath
        (storedNameOf c.itemId (sanitizeFilename d item.originalName)) sizeBytes
      some (w.withDb db, .finished (.ok (item, newOffset, true)))
  | .finished _ => none

/-- The step is an append that changes the part file. -/
def writes (d : Deployment) (c : ChunkRequest) (w : World) : Phase → Bool
  | .checked _ _ => c.chunkData ≠ [] ∨ w.files (partPath d c.sessionId c.itemId) = none
  | _ => false

/-- What a write to the part file is to the other requests. -/
def touch : Phase → Phase
  | .hashed item newOffset computedHash sizeBytes _ =>
      .hashed item newOffset computedHash sizeBytes true
  | .compared item newOffset computedHash sizeBytes _ =>
      .compared item newOffset computedHash sizeBytes true
  | phase => phase

structure State (ι : Type) where
  world : World
  phase : ι → Phase

/-- The next step of `request`, at `now`. -/
structure Step (ι : Type) where
  request : ι
  now : ℤ

variable {ι : Type} [DecidableEq ι]

/-- The requests on the item `itemId` of `sessionId`. -/
def system (d : Deployment) (sessionId itemId : Uuid) (requests : ι → Request) :
    System (State ι) (Step ι) where
  step s l :=
    let c := (requests l.request).chunk sessionId itemId
    let others := if writes d c s.world (s.phase l.request) then touch ∘ s.phase else s.phase
    (next d c s.world l.now (s.phase l.request)).map fun (world, phase) =>
      { world, phase := Function.update others l.request phase }

/-- No request has started. -/
def start (w : World) : State ι := ⟨w, fun _ => .waiting⟩

/-- Every `finalize_chunk_upload` that has returned left the file it reports at
the path it reports, and a completed row has the digest of its file. -/
structure AsHashed (itemId : Uuid) (s : State ι) : Prop where
  returned : ∀ i item newOffset computedHash destPath sizeBytes left,
    s.phase i = .moved item newOffset computedHash destPath sizeBytes left →
      ∃ f, left = some f ∧ hexdigest f.data = computedHash ∧ f.data.length = sizeBytes
  completed : ∀ r ∈ s.world.db.items.rows, r.id = itemId → r.status = .completed →
    ∃ p f, r.storagePath = some p ∧ s.world.files p = some f ∧
      r.checksumSha256 = some (hexdigest f.data)

/-- Two digests that are given and name the same content, up to case. -/
def SameDigest : Option Str → Option Str → Prop
  | some x, some y => x ≠ [] ∧ x.lower = y.lower
  | _, _ => False

instance : (a b : Option Str) → Decidable (SameDigest a b)
  | some x, some y => inferInstanceAs (Decidable (x ≠ [] ∧ x.lower = y.lower))
  | none, _ => .isFalse id
  | some _, none => .isFalse id

/-- The item of a request about to move, and whether its part file was touched. -/
def Phase.moving : Phase → Option (TransferItem × Bool)
  | .compared item _ _ _ touched => some (item, touched)
  | _ => none

/-- The item of a request that has moved and not recorded. -/
def Phase.unrecorded : Phase → Option TransferItem
  | .moved item _ _ _ _ _ => some item
  | _ => none

/-- The step is no move of a part file that another request has written to since
it was hashed, and no move, by a request that was not given the same digest to
compare with, over a file that a completed row has, or that another request has
yet to record. -/
def Undisturbed (itemId : Uuid) (s : State ι) (l : Step ι) : Prop :=
  ∀ m ∈ (s.phase l.request).moving,
    m.2 = false ∧
    (∀ r ∈ s.world.db.items.rows, r.id = itemId → r.status = .completed →
      SameDigest m.1.checksumSha256 r.checksumSha256) ∧
    ∀ j, ∀ other ∈ (s.phase j).unrecorded,
      SameDigest m.1.checksumSha256 other.checksumSha256

instance [Fintype ι] (itemId : Uuid) (s : State ι) (l : Step ι) :
    Decidable (Undisturbed itemId s l) :=
  inferInstanceAs (Decidable (∀ _ ∈ _, _ ∧ _ ∧ _))

/-! ## One request alone -/

/-- What is left of the method once the file is moved. -/
def afterMove (d : Deployment) (c : ChunkRequest) (w : World) (item : TransferItem) (newOffset : ℕ)
    (computedHash : Str) (destPath : Path) (sizeBytes : ℕ) :
    Outcome (Option TransferItem × ℕ × Bool) :=
  let (item, db) := closeChunk w.db c.sessionId c.itemId computedHash destPath
    (storedNameOf c.itemId (sanitizeFilename d item.originalName)) sizeBytes
  (.ok (item, newOffset, true), w.withDb db)

def afterCompare (d : Deployment) (c : ChunkRequest) (w : World) (item : TransferItem)
    (newOffset : ℕ) (computedHash : Str) (sizeBytes : ℕ) :
    Outcome (Option TransferItem × ℕ × Bool) :=
  match publish d w.files c.sessionId c.itemId (sanitizeFilename d item.originalName) with
  | (.error e, fs) => (.error e, w.withFiles fs)
  | (.ok destPath, fs) =>
      afterMove d c (w.withFiles fs) item newOffset computedHash destPath sizeBytes

def afterHash (d : Deployment) (c : ChunkRequest) (w : World) (item : TransferItem)
    (newOffset : ℕ) (computedHash : Str) (sizeBytes : ℕ) :
    Outcome (Option TransferItem × ℕ × Bool) :=
  match checkHash item.checksumSha256 computedHash with
  | .error e => (.error e, w)
  | .ok () => afterCompare d c w item newOffset computedHash sizeBytes

def afterOpen (d : Deployment) (c : ChunkRequest) (w : World) (now : ℤ) (item : TransferItem) :
    Outcome (Option TransferItem × ℕ × Bool) :=
  match appendChunk d w.files now c.sessionId c.itemId c.chunkData c.offset with
  | (.error e, fs) => (.error e, w.withFiles fs)
  | (.ok newOffset, fs) => afterAppend d (w.withFiles fs) c item newOffset

/-- What is left of the method at a phase. -/
def rest (d : Deployment) (c : ChunkRequest) (w : World) (now : ℤ) :
    Phase → Outcome (Option TransferItem × ℕ × Bool)
  | .waiting => appendItemChunk d w now c
  | .opened item => afterOpen d c w now item
  | .checked item currentSize =>
      afterAppend d (w.withFiles (writeChunk d w.files now c.sessionId c.itemId c.chunkData)) c item
        (currentSize + c.chunkData.length)
  | .appended item newOffset => afterAppend d w c item newOffset
  | .hashed item newOffset computedHash sizeBytes _ =>
      afterHash d c w item newOffset computedHash sizeBytes
  | .compared item newOffset computedHash sizeBytes _ =>
      afterCompare d c w item newOffset computedHash sizeBytes
  | .moved item newOffset computedHash destPath sizeBytes _ =>
      afterMove d c w item newOffset computedHash destPath sizeBytes
  | .finished result => (result, w)

theorem afterAppend_of_hash {d : Deployment} {c : ChunkRequest} {w : World} {item : TransferItem}
    {n : ℕ} (hend : reachesEnd item n = true) :
    afterAppend d w c item n =
      match calcHash d w.files c.sessionId c.itemId with
      | .error e => (.error e, w)
      | .ok (digest, size) => afterHash d c w item n digest size := by
  unfold afterAppend finalizeChunkUpload
  simp only [hend, if_true]
  cases calcHash d w.files c.sessionId c.itemId with
  | error e => rfl
  | ok r =>
      simp only [afterHash]
      cases checkHash item.checksumSha256 r.1 with
      | error e => rfl
      | ok u =>
          simp only [afterCompare]
          rcases publish d w.files c.sessionId c.itemId (sanitizeFilename d item.originalName) with
            ⟨e | path, fs⟩
          · rfl
          · rfl

/-- A step does the first piece of what is left. -/
theorem rest_next {d : Deployment} {c : ChunkRequest} {w w' : World} {now : ℤ}
    {phase phase' : Phase} (h : next d c w now phase = some (w', phase')) :
    rest d c w' now phase' = rest d c w now phase := by
  cases phase with
  | waiting =>
      show _ = appendItemChunk d w now c
      simp only [next] at h
      split at h
      · rename_i heq
        cases h
        rw [appendItemChunk, heq]
        rfl
      · rename_i heq
        cases h
        rw [appendItemChunk, heq]
        rfl
  | opened item =>
      show _ = afterOpen d c w now item
      simp only [next] at h
      split at h
      · rename_i heq
        cases h
        rw [afterOpen, appendChunk, heq]
        rfl
      · rename_i heq
        cases h
        rw [afterOpen, appendChunk, heq]
        rfl
  | checked item n =>
      cases h
      rfl
  | appended item n =>
      show _ = afterAppend d w c item n
      simp only [next] at h
      cases hend : reachesEnd item n with
      | false =>
          rw [hend] at h
          cases h
          rw [afterAppend, hend]
          rfl
      | true =>
          rw [hend, if_pos rfl] at h
          rw [afterAppend_of_hash hend]
          split at h
          · cases h
            rfl
          · cases h
            rfl
  | hashed item n digest size touched =>
      show _ = afterHash d c w item n digest size
      simp only [next] at h
      split at h
      · rename_i heq
        cases h
        rw [afterHash, heq]
        rfl
      · rename_i heq
        cases h
        rw [afterHash, heq]
        rfl
  | compared item n digest size touched =>
      show _ = afterCompare d c w item n digest size
      simp only [next] at h
      split at h
      · rename_i heq
        cases h
        rw [afterCompare, heq]
        rfl
      · rename_i heq
        cases h
        rw [afterCompare, heq]
        rfl
  | moved item n digest path size left =>
      cases h
      rfl
  | finished r => cases h

theorem system_step {d : Deployment} {sid iid : Uuid} {requests : ι → Request} {s s' : State ι}
    {l : Step ι} (h : (system d sid iid requests).step s l = some s') :
    ∃ w phase, next d ((requests l.request).chunk sid iid) s.world l.now (s.phase l.request) =
        some (w, phase) ∧ s'.world = w ∧ s'.phase l.request = phase ∧
      ∀ j, j ≠ l.request → s'.phase j =
        if writes d ((requests l.request).chunk sid iid) s.world (s.phase l.request) then
          touch (s.phase j) else s.phase j := by
  obtain ⟨⟨w, phase⟩, hnext, rfl⟩ := Option.map_eq_some_iff.mp h
  refine ⟨w, phase, hnext, rfl, Function.update_self .., ?_⟩
  intro j hj
  show Function.update _ _ _ j = _
  rw [Function.update_of_ne hj]
  split
  · rfl
  · rfl

/-- The steps of one request taken back to back, up to the last, are
`append_item_chunk`. -/
theorem run_alone {d : Deployment} {sid iid : Uuid} {requests : ι → Request} {i : ι} {now : ℤ}
    {s s' : State ι} {k : ℕ} {result : Except Error (Option TransferItem × ℕ × Bool)}
    (hwaiting : s.phase i = .waiting) (hfinished : s'.phase i = .finished result)
    (hrun : (system d sid iid requests).run s (List.replicate k ⟨i, now⟩) = some s') :
    appendItemChunk d s.world now ((requests i).chunk sid iid) = (result, s'.world) := by
  have hrest : rest d ((requests i).chunk sid iid) s'.world now (s'.phase i) =
      rest d ((requests i).chunk sid iid) s.world now (s.phase i) := by
    refine System.holds_of_run
      (P := fun t => rest d ((requests i).chunk sid iid) t.world now (t.phase i) = _)
      ?_ rfl (fun l hl => List.eq_of_mem_replicate hl) hrun
    rintro t l t' hkeeps rfl hstep
    obtain ⟨w, phase, hnext, rfl, rfl, -⟩ := system_step hstep
    rw [rest_next hnext]
    exact hkeeps
  rw [hwaiting, hfinished] at hrest
  exact hrest.symm

/-! ## What holds in every undisturbed interleaving -/

section Invariant

variable {d : Deployment} {k : TransferItem}

/-- A row of the item `k` as a request has loaded it. -/
structure Loaded (k item : TransferItem) : Prop where
  id : item.id = k.id
  name : item.originalName = k.originalName

/-- A hash taken of the part file is still its hash, unless the file has been
written to. A file that has been moved away in the meantime is no concern: then
the move fails. -/
def HashedFrom (d : Deployment) (k : TransferItem) (fs : Files) (computedHash : Str)
    (sizeBytes : ℕ) (touched : Bool) : Prop :=
  touched = false → ∀ f, fs (partPath d k.sessionId k.id) = some f →
    hexdigest f.data = computedHash ∧ f.data.length = sizeBytes

/-- What a request knows at a phase. -/
def Knows (d : Deployment) (k : TransferItem) (fs : Files) : Phase → Prop
  | .waiting => True
  | .opened item => Loaded k item
  | .checked item _ => Loaded k item
  | .appended item _ => Loaded k item
  | .hashed item _ computedHash sizeBytes touched =>
      Loaded k item ∧ HashedFrom d k fs computedHash sizeBytes touched
  | .compared item _ computedHash sizeBytes touched =>
      Loaded k item ∧ HashedFrom d k fs computedHash sizeBytes touched ∧
        checkHash item.checksumSha256 computedHash = .ok ()
  | .moved item _ computedHash destPath sizeBytes left =>
      Loaded k item ∧ checkHash item.checksumSha256 computedHash = .ok () ∧
        (∃ f, left = some f ∧ hexdigest f.data = computedHash ∧ f.data.length = sizeBytes) ∧
        destPath = itemPath d k ∧ ∃ f, fs (itemPath d k) = some f ∧ hexdigest f.data = computedHash
  | .finished _ => True

/-- What holds of the row of the item. -/
structure RowKept (d : Deployment) (k : TransferItem) (fs : Files) (r : TransferItem) : Prop where
  loaded : Loaded k r
  session : r.sessionId = k.sessionId
  completed : r.status = .completed → r.storagePath = some (itemPath d k) ∧
    ∃ f, fs (itemPath d k) = some f ∧ r.checksumSha256 = some (hexdigest f.data)

structure Inv (d : Deployment) (k : TransferItem) (s : State ι) : Prop where
  knows : ∀ i, Knows d k s.world.files (s.phase i)
  row : ∀ r ∈ s.world.db.items.rows, r.id = k.id → RowKept d k s.world.files r

omit [DecidableEq ι] in
theorem Inv.asHashed {s : State ι} (h : Inv d k s) : AsHashed k.id s := by
  constructor
  · intro i item n digest path size left hphase
    have hknows := h.knows i
    rw [hphase] at hknows
    exact hknows.2.2.1
  · intro r hr hid hdone
    obtain ⟨hpath, f, hf, hsha⟩ := (h.row r hr hid).completed hdone
    exact ⟨_, f, hpath, hf, hsha⟩

/-! ### What the steps do to the other requests -/

/-- A write to the part file. -/
theorem Knows.touch {fs fs' : Files} {phase : Phase} (h : Knows d k fs phase)
    (hdest : fs' (itemPath d k) = fs (itemPath d k)) : Knows d k fs' (touch phase) := by
  cases phase with
  | waiting => exact h
  | opened item => exact h
  | checked item n => exact h
  | appended item n => exact h
  | hashed item n digest size touched => exact ⟨h.1, nofun⟩
  | compared item n digest size touched => exact ⟨h.1, nofun, h.2.2⟩
  | moved item n digest path size left =>
      obtain ⟨hload, hsha, hleft, hpath, f, hf, hdigest⟩ := h
      exact ⟨hload, hsha, hleft, hpath, f, hdest.trans hf, hdigest⟩
  | finished r => exact h

/-- The part file is moved to its place: hashes that are not compared or moved
yet are void, and those that are moved are of the same digest. -/
theorem Knows.published {fs fs' : Files} {phase : Phase} {f : File} (h : Knows d k fs phase)
    (hpart : fs' (partPath d k.sessionId k.id) = none) (hdest : fs' (itemPath d k) = some f)
    (hsame : ∀ item n digest path size left, phase = .moved item n digest path size left →
      hexdigest f.data = digest) : Knows d k fs' phase := by
  have hvoid : ∀ digest size touched, HashedFrom d k fs' digest size touched := by
    intro digest size touched _ g hg
    rw [hpart] at hg
    cases hg
  cases phase with
  | waiting => exact h
  | opened item => exact h
  | checked item n => exact h
  | appended item n => exact h
  | hashed item n digest size touched => exact ⟨h.1, hvoid _ _ _⟩
  | compared item n digest size touched => exact ⟨h.1, hvoid _ _ _, h.2.2⟩
  | moved item n digest path size left =>
      obtain ⟨hload, hsha, hleft, hpath, -⟩ := h
      exact ⟨hload, hsha, hleft, hpath, f, hdest, hsame _ _ _ _ _ _ rfl⟩
  | finished r => exact h

/-- Two accepted hashes of requests that compare with the same digest. -/
theorem SameDigest.eq {a b : Option Str} {x y : Bytes} (h : SameDigest a b)
    (ha : checkHash a (hexdigest x) = .ok ()) (hb : checkHash b (hexdigest y) = .ok ()) :
    hexdigest x = hexdigest y := by
  obtain ⟨p, rfl⟩ : ∃ p, a = some p := by
    cases a with
    | none => exact h.elim
    | some p => exact ⟨p, rfl⟩
  obtain ⟨q, rfl⟩ : ∃ q, b = some q := by
    cases b with
    | none => exact h.elim
    | some q => exact ⟨q, rfl⟩
  obtain ⟨hne, hpq⟩ := h
  have hq : q ≠ [] := by
    rintro rfl
    exact hne (List.map_eq_nil_iff.mp hpq)
  have hx := checkHash_eq_ok.mp ha p rfl hne
  have hy := checkHash_eq_ok.mp hb q rfl hq
  rw [lower_hexdigest] at hx hy
  rw [hx, hy, hpq]

/-! ### The steps -/

theorem openChunk_cases (w : World) (now : ℤ) (c : ChunkRequest) :
    (∃ e w', openChunk w now c = (.error e, w') ∧ w'.files = w.files ∧
      w'.db.items = w.db.items) ∨
    ∃ item, openChunk w now c = (.ok item, w) ∧ item ∈ w.db.items.rows ∧ item.id = c.itemId := by
  rcases openForUpload_cases w now c.sessionId c.owner with haway | ⟨m, hm⟩
  · refine Or.inl ?_
    unfold openChunk
    generalize openForUpload w now c.sessionId c.owner = o at haway
    cases haway with
    | error e => exact ⟨e, w, rfl, rfl, rfl⟩
    | expired hm => exact ⟨_, _, rfl, rfl, rfl⟩
  · rw [openChunk, openForUpload_of_open hm]
    cases hfind : findItem w c.sessionId c.itemId with
    | error e => exact Or.inl ⟨e, w, by simp only [hfind], rfl, rfl⟩
    | ok item =>
        obtain ⟨hi, hid, -⟩ := findItem_eq_ok.mp hfind
        exact Or.inr ⟨item, by simp only [hfind], hi, hid⟩

/-- A step of request `i` that changes no file. -/
theorem Inv.of_files {s s' : State ι} {i : ι} (h : Inv d k s)
    (hfiles : s'.world.files = s.world.files) (hother : ∀ j, j ≠ i → s'.phase j = s.phase j)
    (hself : Knows d k s.world.files (s'.phase i))
    (hrow : ∀ r ∈ s'.world.db.items.rows, r.id = k.id → RowKept d k s.world.files r) :
    Inv d k s' := by
  refine ⟨?_, ?_⟩
  · intro j
    rw [hfiles]
    by_cases hj : j = i
    · rw [hj]
      exact hself
    · rw [hother j hj]
      exact h.knows j
  · rw [hfiles]
    exact hrow

/-- A step of request `i` that changes nothing but its own phase. -/
theorem Inv.of_world {s s' : State ι} {i : ι} (h : Inv d k s) (hworld : s'.world = s.world)
    (hother : ∀ j, j ≠ i → s'.phase j = s.phase j)
    (hself : Knows d k s.world.files (s'.phase i)) : Inv d k s' := by
  refine h.of_files (by rw [hworld]) hother hself ?_
  rw [hworld]
  exact h.row

/-- Marking the row as uploading takes its promise back. -/
theorem RowKept.continued {db : Db} {fs : Files}
    (h : ∀ r ∈ db.items.rows, r.id = k.id → RowKept d k fs r) :
    ∀ r ∈ (continueChunk db k.id).2.items.rows, r.id = k.id → RowKept d k fs r := by
  intro r hr hid
  unfold continueChunk at hr
  cases hget : db.getItemById k.id with
  | none =>
      rw [hget] at hr
      exact h r hr hid
  | some item =>
      obtain ⟨hi, hiid⟩ := Db.getItemById_eq_some.mp hget
      rw [hget] at hr
      rcases Db.mem_saveItem.mp hr with rfl | ⟨hr, -⟩
      · obtain ⟨hload, hsid, -⟩ := h item hi hiid
        exact ⟨⟨hload.id, hload.name⟩, hsid, nofun⟩
      · exact h r hr hid

/-- Recording the digest of the file that is at the item's path. -/
theorem RowKept.recorded {db : Db} {fs : Files} {f : File} {storedName : Str} {size : ℕ}
    (h : ∀ r ∈ db.items.rows, r.id = k.id → RowKept d k fs r)
    (hf : fs (itemPath d k) = some f) :
    ∀ r ∈ (closeChunk db k.sessionId k.id (hexdigest f.data) (itemPath d k) storedName
      size).2.items.rows, r.id = k.id → RowKept d k fs r := by
  intro r hr hid
  have hsaved : ∀ db', (saveSessionStatus db' k.sessionId).items = db'.items := by
    intro db'
    unfold saveSessionStatus
    cases db'.getById k.sessionId with
    | none => rfl
    | some session => rfl
  unfold closeChunk at hr
  cases hget : db.getItemById k.id with
  | none =>
      rw [hget] at hr
      simp only [hsaved] at hr
      exact h r hr hid
  | some item =>
      obtain ⟨hi, hiid⟩ := Db.getItemById_eq_some.mp hget
      rw [hget] at hr
      simp only [hsaved] at hr
      rcases Db.mem_saveItem.mp hr with rfl | ⟨hr, -⟩
      · obtain ⟨hload, hsid, -⟩ := h item hi hiid
        exact ⟨⟨hload.id, hload.name⟩, hsid, fun _ => ⟨rfl, f, hf, rfl⟩⟩
      · exact h r hr hid

/-- What the write of one request leaves the others with. -/
theorem Knows.written {w : World} {c : ChunkRequest} {item : TransferItem} {n : ℕ} {now : ℤ}
    {phase : Phase} (h : Knows d k w.files phase) :
    Knows d k (writeChunk d w.files now c.sessionId c.itemId c.chunkData)
      (if writes d c w (.checked item n) then FinalizeRace.touch phase else phase) := by
  have hdest : itemPath d k ≠ partPath d c.sessionId c.itemId := (partPath_ne_itemPath d _ _ k).symm
  by_cases hwrites : writes d c w (.checked item n) = true
  · rw [if_pos hwrites]
    exact h.touch (Files.append_ne hdest)
  · -- nothing is written, so the file is the one that has been hashed
    rw [if_neg hwrites]
    simp only [writes, decide_eq_true_eq, not_or, not_not] at hwrites
    obtain ⟨hnil, hsome⟩ := hwrites
    obtain ⟨f, hf⟩ := Option.ne_none_iff_exists'.mp hsome
    rw [writeChunk, hnil, Files.append_nil hf]
    exact h

/-- The file a request moves to its place is the one it has hashed, and no other
digest is advertised for it. -/
theorem Inv.published {s s' : State ι} {i : ι} {item : TransferItem} {n size : ℕ} {digest : Str}
    {touched : Bool} {fs : Files} (h : Inv d k s)
    {now : ℤ} (hphase : s.phase i = .compared item n digest size touched)
    (hg : Undisturbed k.id s ⟨i, now⟩)
    (hmove : s.world.files.move (partPath d k.sessionId k.id) (itemPath d k) = some fs)
    (hw : s'.world = s.world.withFiles fs)
    (hself : s'.phase i = .moved item n digest (itemPath d k) size (fs (itemPath d k)))
    (hother : ∀ j, j ≠ i → s'.phase j = s.phase j) : Inv d k s' := by
  obtain ⟨huntouched, hrows, hmoved⟩ := hg (item, touched) (by rw [hphase]; rfl)
  have hknows := h.knows i
  rw [hphase] at hknows
  obtain ⟨hload, hhashed, hsha⟩ := hknows
  obtain ⟨f, hf, -⟩ := Files.move_eq_some.mp hmove
  obtain ⟨rfl, hsize⟩ := hhashed huntouched f hf
  have hdest : fs (itemPath d k) = some f := (Files.move_dst hmove).trans hf
  have hpart : fs (partPath d k.sessionId k.id) = none :=
    Files.move_src hmove (partPath_ne_itemPath d _ _ k)
  have hfiles : s'.world.files = fs := by rw [hw, World.withFiles_files]
  constructor
  · intro j
    rw [hfiles]
    by_cases hj : j = i
    · subst hj
      rw [hself]
      exact ⟨hload, hsha, ⟨f, hdest, rfl, hsize⟩, rfl, f, hdest, rfl⟩
    · rw [hother j hj]
      refine (h.knows j).published hpart hdest ?_
      intro other m digest' path size' left hj'
      have hknows' := h.knows j
      rw [hj'] at hknows'
      obtain ⟨-, hsha', -, -, g, -, rfl⟩ := hknows'
      exact (hmoved j other (by rw [hj']; rfl)).eq hsha hsha'
  · intro r hr hid
    rw [hw, World.withFiles_db] at hr
    obtain ⟨hrload, hsid, hdone⟩ := h.row r hr hid
    refine ⟨hrload, hsid, fun hcompleted => ?_⟩
    obtain ⟨hpath, g, -, hchecksum⟩ := hdone hcompleted
    -- the row's digest is a hash, so comparing with it is comparing hashes
    have hsame := hrows r hr hid hcompleted
    have hrow : checkHash r.checksumSha256 (hexdigest g.data) = .ok () := by
      rw [hchecksum]
      refine checkHash_eq_ok.mpr ?_
      rintro e ⟨⟩ -
      rfl
    rw [hfiles]
    exact ⟨hpath, f, hdest, by rw [hchecksum, hsame.eq hsha hrow]⟩

theorem Inv.step {requests : ι → Request} {s s' : State ι} {l : Step ι} (h : Inv d k s)
    (hg : Undisturbed k.id s l)
    (hstep : (system d k.sessionId k.id requests).step s l = some s') : Inv d k s' := by
  obtain ⟨w, phase, hnext, hw, hself, hother⟩ := system_step hstep
  have hknows := h.knows l.request
  cases hphase : s.phase l.request with
  | waiting =>
      rw [hphase] at hnext hother
      simp only [next] at hnext
      rcases openChunk_cases s.world l.now ((requests l.request).chunk k.sessionId k.id) with
        ⟨e, w', heq, hfiles, hitems⟩ | ⟨item, heq, hi, hid⟩
      · rw [heq] at hnext
        cases hnext
        refine h.of_files (by rw [hw, hfiles]) hother (by rw [hself]; trivial) ?_
        rw [hw, hitems]
        exact h.row
      · rw [heq] at hnext
        cases hnext
        refine h.of_world hw hother ?_
        rw [hself]
        exact (h.row item hi hid).loaded
  | opened item =>
      rw [hphase] at hnext hother hknows
      simp only [next] at hnext
      split at hnext
      · cases hnext
        exact h.of_world hw hother (by rw [hself]; trivial)
      · cases hnext
        exact h.of_world hw hother (by rw [hself]; exact hknows)
  | checked item n =>
      rw [hphase] at hnext hother hknows
      cases hnext
      have hfiles : s'.world.files = writeChunk d s.world.files l.now k.sessionId k.id
          (requests l.request).chunkData := by
        rw [hw]
        rfl
      constructor
      · intro j
        rw [hfiles]
        by_cases hj : j = l.request
        · rw [hj, hself]
          exact hknows
        · rw [hother j hj]
          exact Knows.written (c := (requests l.request).chunk k.sessionId k.id) (h.knows j)
      · intro r hr hid
        rw [hw] at hr
        obtain ⟨hload, hsid, hdone⟩ := h.row r hr hid
        have hdest : s'.world.files (itemPath d k) = s.world.files (itemPath d k) := by
          rw [hfiles]
          exact Files.append_ne (partPath_ne_itemPath d _ _ k).symm
        refine ⟨hload, hsid, fun hcompleted => ?_⟩
        rw [hdest]
        exact hdone hcompleted
  | appended item n =>
      rw [hphase] at hnext hother hknows
      simp only [next, Request.chunk, calcHash_eq] at hnext
      split at hnext
      · cases hpart : s.world.files (partPath d k.sessionId k.id) with
        | none =>
            rw [hpart] at hnext
            cases hnext
            exact h.of_world hw hother (by rw [hself]; trivial)
        | some f =>
            rw [hpart] at hnext
            cases hnext
            refine h.of_world hw hother ?_
            rw [hself]
            refine ⟨hknows, fun _ g hg' => ?_⟩
            rw [hpart] at hg'
            cases hg'
            exact ⟨rfl, rfl⟩
      · cases hnext
        refine h.of_files (by rw [hw]; rfl) hother (by rw [hself]; trivial) ?_
        rw [hw]
        exact RowKept.continued h.row
  | hashed item n digest size touched =>
      rw [hphase] at hnext hother hknows
      simp only [next] at hnext
      split at hnext
      · cases hnext
        exact h.of_world hw hother (by rw [hself]; trivial)
      · rename_i hsha
        cases hnext
        refine h.of_world hw hother ?_
        rw [hself]
        exact ⟨hknows.1, hknows.2, hsha⟩
  | compared item n digest size touched =>
      rw [hphase] at hnext hother hknows
      simp only [next] at hnext
      have hdest : destPath d k.sessionId k.id (sanitizeFilename d item.originalName) =
          itemPath d k := by rw [itemPath, hknows.1.name]
      split at hnext
      · rename_i hpublish
        obtain rfl := publish_eq_error hpublish
        cases hnext
        exact h.of_world hw hother (by rw [hself]; trivial)
      · rename_i hpublish
        obtain ⟨rfl, hmove⟩ := publish_eq_ok hpublish
        cases hnext
        refine h.published hphase hg (hdest ▸ hmove) hw ?_ hother
        rw [hself, ← hdest]
        rfl
  | moved item n digest path size left =>
      rw [hphase] at hnext hother hknows
      obtain ⟨-, -, -, rfl, f, hf, rfl⟩ := hknows
      cases hnext
      refine h.of_files (by rw [hw]; rfl) hother (by rw [hself]; trivial) ?_
      rw [hw]
      exact RowKept.recorded h.row hf
  | finished r =>
      rw [hphase] at hnext
      cases hnext

end Invariant

/-- Any number of requests on an item, in any order of their steps, from any
state serial calls lead to: a run whose moves are all undisturbed publishes what
was hashed. -/
theorem published_as_hashed {d : Deployment} {t : SessionService.State}
    (ht : SessionService.Reachable d t) {k : TransferItem} (hk : k ∈ t.world.db.items.rows)
    {m : TransferSessionModel} (hm : m ∈ t.world.db.sessions.rows) (hid : m.id = k.sessionId)
    (requests : ι → Request) {ls : List (Step ι)}
    (hg : (system d k.sessionId k.id requests).Guarded (Undisturbed k.id)
      (start t.world : State ι) ls) :
    (system d k.sessionId k.id requests).Always (AsHashed k.id) (start t.world : State ι) ls := by
  have hconsistent := (inv_of_reachable ht).consistent
  have hstart : Inv d k (start t.world : State ι) := by
    refine ⟨fun _ => trivial, ?_⟩
    intro r hr hrid
    obtain rfl := Table.eq_of_mem hr hk hrid
    refine ⟨⟨rfl, rfl⟩, rfl, fun hdone => ?_⟩
    obtain ⟨p, hp⟩ := Option.isSome_iff_exists.mp (hconsistent.stored r hr hdone)
    obtain ⟨f, hf, hsha, -⟩ := hconsistent.intact r hr m hm hid p hp
    obtain rfl := hconsistent.paths r hr p hp
    exact ⟨hp, f, hf, hsha⟩
  have hinv := System.always_of_guarded (fun _ _ _ h hl hstep => Inv.step h hl hstep) hstart hg
  exact hinv.mono fun _ h => h.asHashed

/-! ## A chunk between hashing and moving -/

namespace Sample

open SessionService.Sample (owner)

def sessionId : Uuid := SessionService.Sample.sessionId

def itemId : Uuid := SessionService.Sample.itemId

/-- An item of one byte. -/
def item : List Event := [SessionService.Sample.create false, SessionService.Sample.init 1]

theorem runs_item : (SessionService.Sample.run item).isSome = true := by decide +kernel

def world : World := ((SessionService.Sample.run item).get runs_item).world

/-- The byte, and one byte more. -/
def requests : Bool → Request
  | false => ⟨owner, [1], 0⟩
  | true => ⟨owner, [2], 1⟩

def run (ls : List (Step Bool)) : Option (State Bool) :=
  (system .default sessionId itemId requests).run
    (start world) ls

/-- The order of the requests that take the next step. -/
def steps (order : List Bool) : List (Step Bool) := order.map (⟨·, 2⟩)

/-- Both bytes are there when the first request hashes. -/
def inOrder : List Bool := [false, true, false, false, true, true, false, false, false, false]

theorem item_mem : ∃ k ∈ world.db.items.rows, k.id = itemId ∧
    k.sessionId = sessionId ∧
    ∃ m ∈ world.db.sessions.rows, m.id = k.sessionId := by
  decide +kernel

theorem undisturbed_inOrder :
    (system .default sessionId itemId
      requests).Guarded (Undisturbed itemId) (start world)
      (steps inOrder) := by
  decide +kernel

/-- The second byte is written between the first request's hash and its move. -/
def late : List Bool := [false, true, false, false, true, false, false, true, false]

theorem runs_late : (run (steps late)).isSome = true := by decide +kernel

/-- What a request that has moved reports, and what it left. -/
def lengths : Phase → Option (ℕ × Option ℕ)
  | .moved _ _ _ _ sizeBytes left => some (sizeBytes, left.map (·.data.length))
  | _ => none

end Sample

/-- Both requests overlap and the item of two bytes is published. -/
theorem published_as_hashed_inOrder :
    (system .default Sample.sessionId Sample.itemId Sample.requests).Always
      (AsHashed Sample.itemId) (start Sample.world) (Sample.steps Sample.inOrder) := by
  obtain ⟨k, hk, hid, hsid, m, hm, hmid⟩ := Sample.item_mem
  rw [← hid, ← hsid]
  refine published_as_hashed (SessionService.Sample.reachable_run Sample.runs_item) hk hm hmid
    Sample.requests ?_
  rw [hid, hsid]
  exact Sample.undisturbed_inOrder

theorem appended_after_hash :
    ¬ ∀ (d : Deployment) (t : SessionService.State), SessionService.Reachable d t →
        ∀ k ∈ t.world.db.items.rows, ∀ m ∈ t.world.db.sessions.rows, m.id = k.sessionId →
        ∀ (ι : Type) [DecidableEq ι] (requests : ι → Request) (ls : List (Step ι)),
          (system d k.sessionId k.id requests).Always (AsHashed k.id) (start t.world) ls := by
  intro h
  obtain ⟨k, hk, hid, hsid, m, hm, hmid⟩ := Sample.item_mem
  have hall := h .default _ (SessionService.Sample.reachable_run Sample.runs_item) k hk m hm hmid
    Bool Sample.requests (Sample.steps Sample.late)
  rw [hid, hsid] at hall
  have hlast := hall.last (Option.some_get Sample.runs_late).symm
  have hlengths : Sample.lengths (((Sample.run (Sample.steps Sample.late)).get
      Sample.runs_late).phase false) = some (1, some 2) := by
    decide +kernel
  cases hphase : ((Sample.run (Sample.steps Sample.late)).get Sample.runs_late).phase false with
  | moved item n digest path size left =>
      obtain ⟨f, rfl, -, hsize⟩ := hlast.returned _ _ _ _ _ _ _ hphase
      rw [hphase] at hlengths
      simp only [Sample.lengths, Option.map_some, Option.some.injEq, Prod.mk.injEq] at hlengths
      omega
  | _ =>
      rw [hphase] at hlengths
      cases hlengths

end FinalizeRace

end Jumbox
