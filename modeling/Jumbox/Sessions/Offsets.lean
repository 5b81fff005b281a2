import Jumbox.Sessions.Restart

/-!
# The byte counts a client is told

One item, its chunks and its probes, in any order and from anyone. A probe is
answered with the size of the part file and an accepted chunk with the size it
brings it to. Completion moves the part file away, so the count falls back to
nothing while the item is complete.
-/

namespace Jumbox

namespace SessionService

open ChunkStorage (partPath)

/-! ## Turns -/

/-- A call for one item. -/
inductive Turn where
  | append (now : ℤ) (owner : AuthenticatedUser) (chunkData : Bytes) (offset : ℤ)
  | probe (now : ℤ) (owner : AuthenticatedUser)

def Turn.request (sid iid : Uuid) (owner : AuthenticatedUser) (chunkData : Bytes) (offset : ℤ) :
    ChunkRequest :=
  ⟨sid, iid, owner, chunkData, offset⟩

def Turn.event (sid iid : Uuid) : Turn → Event
  | .append now owner chunkData offset =>
      ⟨now, .appendItemChunk (request sid iid owner chunkData offset)⟩
  | .probe now owner => ⟨now, .getItemOffset sid iid owner⟩

/-- The byte count a response reports. -/
def Response.byteCount : Response → Option ℕ
  | .offset _ n => some n
  | .chunk _ n _ => some n
  | _ => none

/-- The byte count the caller is told, if the call raises nothing. -/
def reported (o : Except Error Response × World) : Option ℕ :=
  match o.1 with
  | .error _ => none
  | .ok r => r.byteCount

/-- The call passes all checks. -/
def Turn.accepted (d : Deployment) (sid iid : Uuid) (w : World) : Turn → Bool
  | .append now owner chunkData offset =>
      decide (∃ m ∈ w.db.sessions.rows, ∃ i ∈ w.db.items.rows,
        Accepts d w now (request sid iid owner chunkData offset) m i)
  | .probe _ owner => (getItemOffset d w sid iid owner).1.isOk

def Turn.now : Turn → ℤ
  | .append now _ _ _ => now
  | .probe now _ => now

def Turn.length : Turn → ℕ
  | .append _ _ chunkData _ => chunkData.length
  | .probe _ _ => 0

/-- The bytes it adds to the part file. -/
def Turn.added (d : Deployment) (sid iid : Uuid) (w : World) (t : Turn) : ℕ :=
  if t.accepted d sid iid w then t.length else 0

/-- The part file of an item. -/
def received (d : Deployment) (sid iid : Uuid) (w : World) : Bytes :=
  w.files.bytes (partPath d sid iid)

/-- What a turn makes of the item's row and of its part file, and what it tells. -/
inductive Turned (d : Deployment) (sid iid : Uuid) (w : World) (i : TransferItem) (t : Turn) :
    Except Error Response × World → Prop where
  | refused (e : Error) (w' : World) (items : w'.db.items = w.db.items) (files : w'.files = w.files)
      (turnedAway : t.accepted d sid iid w = false) : Turned d sid iid w i t (.error e, w')
  | probed (now : ℤ) (owner : AuthenticatedUser) (turn : t = .probe now owner)
      (accepted : t.accepted d sid iid w = true) :
      Turned d sid iid w i t (.ok (.offset i (received d sid iid w).length), w)
  | continued (now : ℤ) (owner : AuthenticatedUser) (data : Bytes) (offset : ℤ) (w' : World)
      (turn : t = .append now owner data offset) (accepted : t.accepted d sid iid w = true)
      (row : i.markUploading ∈ w'.db.items.rows)
      (part : received d sid iid w' = received d sid iid w ++ data)
      (stored : w'.files (itemPath d i) = w.files (itemPath d i))
      (more : reachesEnd i (received d sid iid w ++ data).length = false) :
      Turned d sid iid w i t
        (.ok (.chunk (some i.markUploading) (received d sid iid w ++ data).length false), w')
  | rejected (e : Error) (now : ℤ) (owner : AuthenticatedUser) (data : Bytes) (offset : ℤ)
      (w' : World) (turn : t = .append now owner data offset)
      (accepted : t.accepted d sid iid w = true) (items : w'.db.items = w.db.items)
      (part : received d sid iid w' = received d sid iid w ++ data)
      (stored : w'.files (itemPath d i) = w.files (itemPath d i))
      (last : reachesEnd i (received d sid iid w ++ data).length = true) :
      Turned d sid iid w i t (.error e, w')
  | finished (now : ℤ) (owner : AuthenticatedUser) (data : Bytes) (offset : ℤ) (w' : World)
      (turn : t = .append now owner data offset) (accepted : t.accepted d sid iid w = true)
      (row : finishedItem d i (received d sid iid w ++ data) ∈ w'.db.items.rows)
      (part : received d sid iid w' = [])
      (stored : ∃ mtime, w'.files (itemPath d i) = some ⟨received d sid iid w ++ data, mtime⟩)
      (last : reachesEnd i (received d sid iid w ++ data).length = true) :
      Turned d sid iid w i t
        (.ok (.chunk (some (finishedItem d i (received d sid iid w ++ data)))
          (received d sid iid w ++ data).length true), w')

theorem turned_append (d : Deployment) {w : World} {i : TransferItem} (hi : i ∈ w.db.items.rows)
    (now : ℤ) (owner : AuthenticatedUser) (data : Bytes) (offset : ℤ) :
    Turned d i.sessionId i.id w i (.append now owner data offset)
      (exec d w (Turn.event i.sessionId i.id (.append now owner data offset))) := by
  let c : ChunkRequest := Turn.request i.sessionId i.id owner data offset
  show Turned d i.sessionId i.id w i (.append now owner data offset)
    (respond (fun r => .chunk r.1 r.2.1 r.2.2) (appendItemChunk d w now c))
  by_cases hacc : ∃ m ∈ w.db.sessions.rows, ∃ j ∈ w.db.items.rows, Accepts d w now c m j
  · have haccepted : (Turn.append now owner data offset).accepted d i.sessionId i.id w = true :=
      decide_eq_true hacc
    obtain ⟨m, -, j, hj, hacc⟩ := hacc
    obtain rfl : j = i := Table.eq_of_mem hj hi hacc.id
    have hpart : (appended d w now c).bytes (partPath d j.sessionId j.id) =
        received d j.sessionId j.id w ++ data := Files.bytes_append_self _ _ _ _
    have hstored : appended d w now c (itemPath d j) = w.files (itemPath d j) :=
      appended_ne (partPath_ne_itemPath d _ _ j).symm
    rcases appendItemChunk_accepted hacc with ⟨hmore, heq⟩ | ⟨hlast, err, -, heq⟩ |
      ⟨hlast, -, t, heq⟩
    · rw [heq]
      exact .continued now owner data offset _ rfl haccepted (Table.mem_put.mpr (Or.inl rfl)) hpart
        hstored hmore
    · rw [heq]
      exact .rejected err now owner data offset _ rfl haccepted rfl hpart hstored hlast
    · rw [heq]
      refine .finished now owner data offset _ rfl haccepted (mem_closed_items.mpr (Or.inl rfl))
        ?_ ?_ hlast
      · apply Files.bytes_of_none
        show published d _ j _ (partPath d j.sessionId j.id) = none
        rw [published, Function.update_of_ne (partPath_ne_itemPath d _ _ j), Files.unlink_self]
      · exact ⟨t, published_self d _ j _⟩
  · have hnot : (Turn.append now owner data offset).accepted d i.sessionId i.id w = false :=
      decide_eq_false hacc
    rcases appendItemChunk_cases d w now c with haway | ⟨m, j, h⟩
    · generalize appendItemChunk d w now c = o at haway
      cases haway with
      | error err => exact .refused err _ rfl rfl hnot
      | expired => exact .refused _ _ rfl rfl hnot
    · exact absurd ⟨m, h.session.mem, j, h.mem, h⟩ hacc

theorem turned_probe (d : Deployment) {w : World} {i : TransferItem} (hi : i ∈ w.db.items.rows)
    (now : ℤ) (owner : AuthenticatedUser) :
    Turned d i.sessionId i.id w i (.probe now owner)
      (exec d w (Turn.event i.sessionId i.id (.probe now owner))) := by
  show Turned d i.sessionId i.id w i (.probe now owner)
    (respond (fun r => .offset r.1 r.2) (getItemOffset d w i.sessionId i.id owner))
  rcases getItemOffset_cases d w i.sessionId i.id owner with ⟨e, heq⟩ |
    ⟨m, j, -, -, -, hj, hid, -, heq⟩
  · rw [heq]
    refine .refused e w rfl rfl ?_
    rw [Turn.accepted, heq]
    rfl
  · obtain rfl := Table.eq_of_mem hj hi hid
    rw [heq, Files.size_eq_length]
    refine .probed now owner rfl ?_
    rw [Turn.accepted, heq]
    rfl

/-- Every turn on an item that has a row does one of the five things. -/
theorem turned (d : Deployment) {w : World} {i : TransferItem} (hi : i ∈ w.db.items.rows)
    (t : Turn) : Turned d i.sessionId i.id w i t (exec d w (t.event i.sessionId i.id)) := by
  cases t with
  | append now owner data offset => exact turned_append d hi now owner data offset
  | probe now owner => exact turned_probe d hi now owner

theorem Turn.offset_of_accepted {d : Deployment} {sid iid : Uuid} {w : World} {now : ℤ}
    {owner : AuthenticatedUser} {data : Bytes} {offset : ℤ}
    (h : (Turn.append now owner data offset).accepted d sid iid w = true) :
    offset = (received d sid iid w).length := by
  obtain ⟨m, -, i, -, hacc⟩ := of_decide_eq_true h
  rw [received, ← Files.size_eq_length]
  exact hacc.offset

/-! ## A run, watched -/

/-- What a statement about the next answer looks back to: the last count that was
told, whether the item has been complete, and the bytes of the chunks accepted
since it last became so. -/
structure Watch where
  world : World
  last : Option ℕ
  seen : Bool
  sent : ℕ

/-- The item's row says `COMPLETED`. -/
def isCompleted (w : World) (iid : Uuid) : Bool :=
  (w.db.getItemById iid).any (·.status = .completed)

/-- The answer says that the chunk has completed the item. -/
def completes (o : Except Error Response × World) : Bool :=
  match o.1 with
  | .ok (.chunk _ _ completed) => completed
  | _ => false

/-- The watch after a turn that adds `n` bytes and is answered with `o`. -/
def Watch.next (iid : Uuid) (v : Watch) (n : ℕ) (o : Except Error Response × World) : Watch where
  world := o.2
  last := (reported o).or v.last
  seen := v.seen || isCompleted o.2 iid
  sent := if completes o then 0 else v.sent + n

def watch (d : Deployment) (sid iid : Uuid) : System Watch Turn where
  step v t :=
    some (v.next iid (t.added d sid iid v.world) (exec d v.world (t.event sid iid)))

/-- At the beginning of a run nothing has been told yet. -/
def Watch.start (d : Deployment) (sid iid : Uuid) (w : World) : Watch where
  world := w
  last := none
  seen := isCompleted w iid
  sent := w.files.size (partPath d sid iid)

/-- The count that is told is not below the last one, and a probe of an item that
has been complete tells its size. -/
def Steady (d : Deployment) (sid iid : Uuid) (v : Watch) (t : Turn) : Prop :=
  ∀ n ∈ reported (exec d v.world (t.event sid iid)),
    (∀ l ∈ v.last, l ≤ n) ∧
    ∀ now owner, t = .probe now owner → v.seen = true →
      ∀ i ∈ v.world.db.getItemById iid, (n : ℤ) = i.sizeBytes

/-- A probe of an item that has been complete comes when the chunks accepted since
then add up to its size again. A chunk for a complete item, after a count has
been told, brings it to its size at once. -/
def InTime (d : Deployment) (sid iid : Uuid) (v : Watch) (t : Turn) : Prop :=
  t.accepted d sid iid v.world = true → ∀ i ∈ v.world.db.getItemById iid,
    match t with
    | .probe _ _ => v.seen = true → (v.sent : ℤ) = i.sizeBytes
    | .append _ _ chunkData _ =>
        v.last.isSome = true → i.status = .completed → i.sizeBytes ≤ v.sent + chunkData.length

instance (d : Deployment) (sid iid : Uuid) (v : Watch) (t : Turn) :
    Decidable (InTime d sid iid v t) :=
  match t with
  | .probe now owner =>
      inferInstanceAs (Decidable ((Turn.probe now owner).accepted d sid iid v.world = true →
        ∀ i ∈ v.world.db.getItemById iid, v.seen = true → (v.sent : ℤ) = i.sizeBytes))
  | .append now owner chunkData offset =>
      inferInstanceAs (Decidable
        ((Turn.append now owner chunkData offset).accepted d sid iid v.world = true →
          ∀ i ∈ v.world.db.getItemById iid, v.last.isSome = true → i.status = .completed →
            i.sizeBytes ≤ v.sent + chunkData.length))

/-- What the watch knows of the item, as long as the answers have been steady. -/
structure Told (d : Deployment) (sid iid : Uuid) (v : Watch) (i : TransferItem) : Prop where
  mem : i ∈ v.world.db.items.rows
  id : i.id = iid
  sessionId : i.sessionId = sid
  sent : v.sent = (received d sid iid v.world).length
  seen : i.status = .completed → v.seen = true
  below : i.status ≠ .completed → ∀ l ∈ v.last, l ≤ v.sent
  exact_size : i.status = .completed → ∀ l ∈ v.last, (l : ℤ) = i.sizeBytes

theorem Told.start (d : Deployment) {w : World} {i : TransferItem} (hi : i ∈ w.db.items.rows) :
    Told d i.sessionId i.id (.start d i.sessionId i.id w) i where
  mem := hi
  id := rfl
  sessionId := rfl
  sent := Files.size_eq_length _ _
  seen := by
    intro hdone
    show isCompleted w i.id = true
    rw [isCompleted, Db.getItemById_eq_some.mpr ⟨hi, rfl⟩]
    exact decide_eq_true hdone
  below := by
    rintro _ l ⟨⟩
  exact_size := by
    rintro _ l ⟨⟩

section Turns

variable {d : Deployment} {sid iid : Uuid} {v : Watch} {i : TransferItem} {t : Turn}

theorem Told.row (h : Told d sid iid v i) : v.world.db.getItemById iid = some i :=
  Db.getItemById_eq_some.mpr ⟨h.mem, h.id⟩

/-- The count of a chunk is steady exactly if the chunk is in time. -/
theorem Told.chunk_le_iff (h : Told d sid iid v i) {n : ℕ} :
    (∀ l ∈ v.last, l ≤ v.sent + n) ↔
      (v.last.isSome = true → i.status = .completed → i.sizeBytes ≤ v.sent + n) := by
  constructor
  · intro hle hsome hdone
    obtain ⟨l, hl⟩ := Option.isSome_iff_exists.mp hsome
    rw [← h.exact_size hdone l hl]
    exact_mod_cast hle l hl
  · intro hle l hl
    by_cases hdone : i.status = .completed
    · have hsize := hle (Option.isSome_iff_exists.mpr ⟨l, hl⟩) hdone
      rw [← h.exact_size hdone l hl] at hsize
      exact_mod_cast hsize
    · exact (h.below hdone l hl).trans (Nat.le_add_right _ _)

theorem Told.steady_iff_inTime (h : Told d sid iid v i) (t : Turn) :
    Steady d sid iid v t ↔ InTime d sid iid v t := by
  have hrow := h.row
  have hturned := turned d h.mem t
  have hsent := h.sent
  obtain rfl := h.id
  obtain rfl := h.sessionId
  unfold Steady InTime
  generalize exec d v.world (t.event i.sessionId i.id) = o at hturned
  have hlength : ∀ data : Bytes, (received d i.sessionId i.id v.world ++ data).length =
      v.sent + data.length := by
    intro data
    rw [List.length_append, hsent]
  cases hturned with
  | refused e w' _ _ haway =>
      constructor
      · intro _ hacc
        rw [haway] at hacc
        cases hacc
      · rintro _ n ⟨⟩
  | probed now owner hturn hacc =>
      subst hturn
      simp only [reported, Response.byteCount, hrow, hacc, Option.mem_def, Option.some.injEq,
        forall_eq', ← hsent, true_implies]
      constructor
      · rintro ⟨-, hsize⟩ hseen
        exact hsize now owner rfl hseen
      · intro hsize
        refine ⟨?_, fun _ _ _ hseen => hsize hseen⟩
        intro l hl
        by_cases hdone : i.status = .completed
        · have heq := h.exact_size hdone l hl
          rw [← hsize (h.seen hdone)] at heq
          exact_mod_cast heq.le
        · exact h.below hdone l hl
  | continued now owner data offset w' hturn hacc =>
      subst hturn
      simp only [reported, Response.byteCount, hrow, hacc, Option.mem_def, Option.some.injEq,
        forall_eq', hlength, true_implies, reduceCtorEq, false_implies, implies_true, and_true]
      exact h.chunk_le_iff
  | rejected e now owner data offset w' hturn hacc _ _ _ hlast =>
      subst hturn
      constructor
      · intro _ _ j hj _ _
        rw [hrow] at hj
        cases hj
        have hend := (reachesEnd_iff.mp hlast).1
        rw [hlength] at hend
        exact_mod_cast hend
      · rintro _ n ⟨⟩
  | finished now owner data offset w' hturn hacc =>
      subst hturn
      simp only [reported, Response.byteCount, hrow, hacc, Option.mem_def, Option.some.injEq,
        forall_eq', hlength, true_implies, reduceCtorEq, false_implies, implies_true, and_true]
      exact h.chunk_le_iff

theorem isCompleted_of_mem {w : World} {j : TransferItem} (hj : j ∈ w.db.items.rows) :
    isCompleted w j.id = decide (j.status = .completed) := by
  rw [isCompleted, Db.getItemById_eq_some.mpr ⟨hj, rfl⟩]
  rfl

theorem watch_step {v' : Watch} :
    (watch d sid iid).step v t = some v' ↔
      v' = v.next iid (t.added d sid iid v.world) (exec d v.world (t.event sid iid)) := by
  rw [watch, Option.some.injEq, eq_comm]

/-- A steady turn leaves the watch knowing as much. -/
theorem Told.step (h : Told d sid iid v i) (hsteady : Steady d sid iid v t) {v' : Watch}
    (hstep : (watch d sid iid).step v t = some v') : ∃ j, Told d sid iid v' j := by
  have hrow := h.row
  have hturned := turned d h.mem t
  have hsent := h.sent
  obtain rfl := watch_step.mp hstep
  obtain rfl := h.id
  obtain rfl := h.sessionId
  unfold Steady at hsteady
  unfold Turn.added
  generalize exec d v.world (t.event i.sessionId i.id) = o at hturned hsteady
  have hseen : ∀ {n}, i.status = .completed → (v.next i.id n o).seen = true := by
    intro n hdone
    show (v.seen || isCompleted o.2 i.id) = true
    rw [h.seen hdone, Bool.true_or]
  have hcount : ∀ data : Bytes, (received d i.sessionId i.id v.world ++ data).length =
      v.sent + data.length := by
    intro data
    rw [List.length_append, hsent]
  cases hturned with
  | refused e w' hitems hfiles haway =>
      rw [haway]
      refine ⟨i, hitems ▸ h.mem, rfl, rfl, ?_, hseen, h.below, h.exact_size⟩
      show v.sent = (w'.files.bytes _).length
      rw [hfiles]
      exact hsent
  | probed now owner hturn hacc =>
      subst hturn
      rw [hacc]
      obtain ⟨hle, hsize⟩ := hsteady _ rfl
      refine ⟨i, h.mem, rfl, rfl, hsent, hseen, ?_, ?_⟩
      · rintro - l ⟨⟩
        exact hsent.ge
      · rintro hdone l ⟨⟩
        exact hsize now owner rfl (h.seen hdone) i hrow
  | continued now owner data offset w' hturn hacc hmem hpart =>
      subst hturn
      rw [hacc]
      refine ⟨i.markUploading, hmem, rfl, rfl, ?_, by rintro ⟨⟩, ?_, by rintro ⟨⟩⟩
      · show v.sent + data.length = (received d i.sessionId i.id w').length
        rw [hpart, hcount]
      · rintro - l ⟨⟩
        exact (hcount data).le
  | rejected e now owner data offset w' hturn hacc hitems hpart hstored hlast =>
      subst hturn
      rw [hacc]
      refine ⟨i, hitems ▸ h.mem, rfl, rfl, ?_, hseen, ?_, h.exact_size⟩
      · show v.sent + data.length = (received d i.sessionId i.id w').length
        rw [hpart, hcount]
      · intro hdone l hl
        exact (h.below hdone l hl).trans (Nat.le_add_right _ _)
  | finished now owner data offset w' hturn hacc hmem hpart hstored hlast =>
      subst hturn
      rw [hacc]
      refine ⟨finishedItem d i (received d i.sessionId i.id v.world ++ data), hmem, rfl, rfl, ?_,
        ?_, ?_, ?_⟩
      · show 0 = (received d i.sessionId i.id w').length
        rw [hpart]
        rfl
      · intro _
        show (v.seen || isCompleted w' _) = true
        have hcompleted := isCompleted_of_mem hmem
        exact (congrArg (v.seen || ·) hcompleted).trans (Bool.or_true _)
      · intro hnot
        exact absurd rfl hnot
      · rintro - l ⟨⟩
        rfl

end Turns

/-- The counts that a run on one item is told never fall, and a probe of an item
that has been complete tells its size, exactly if every turn is in time. -/
theorem offsets_steady_iff_inTime (d : Deployment) {w : World} {i : TransferItem}
    (hi : i ∈ w.db.items.rows) (ts : List Turn) :
    (watch d i.sessionId i.id).Guarded (Steady d i.sessionId i.id)
        (.start d i.sessionId i.id w) ts ↔
      (watch d i.sessionId i.id).Guarded (InTime d i.sessionId i.id)
        (.start d i.sessionId i.id w) ts := by
  apply System.guarded_congr (I := fun v => ∃ j, Told d i.sessionId i.id v j)
  · rintro v t v' ⟨j, hj⟩ -
    exact hj.steady_iff_inTime t
  · rintro v t v' ⟨j, hj⟩ hsteady hstep
    exact hj.step hsteady hstep
  · exact ⟨i, .start d hi⟩

namespace Sample

/-- An item of two bytes, before its first chunk. -/
def announced : List Event := [create false, init 2]

theorem runs_announced : (run announced).isSome = true := by decide +kernel

end Sample

/-- The file is sent in two chunks, with a probe between them. -/
theorem offsets_steady_iff_inTime_two_chunks :
    ∃ i ∈ ((Sample.run Sample.announced).get Sample.runs_announced).world.db.items.rows,
      (watch .default i.sessionId i.id).Guarded (Steady .default i.sessionId i.id)
        (.start .default i.sessionId i.id
          ((Sample.run Sample.announced).get Sample.runs_announced).world)
        [.append 2 Sample.owner [1] 0, .probe 3 Sample.owner, .append 4 Sample.owner [2] 1] := by
  have hrow : ∃ i ∈ ((Sample.run Sample.announced).get Sample.runs_announced).world.db.items.rows,
      (watch .default i.sessionId i.id).Guarded (InTime .default i.sessionId i.id)
        (.start .default i.sessionId i.id
          ((Sample.run Sample.announced).get Sample.runs_announced).world)
        [.append 2 Sample.owner [1] 0, .probe 3 Sample.owner, .append 4 Sample.owner [2] 1] := by
    decide +kernel
  obtain ⟨i, hi, hguarded⟩ := hrow
  exact ⟨i, hi, (offsets_steady_iff_inTime .default hi _).mpr hguarded⟩

/-- The answer to the last chunk is lost, and the probe after it says that nothing
has been received. -/
theorem offset_falls_back :
    ¬ ∀ (d : Deployment) (s : State), Reachable d s → ∀ i ∈ s.world.db.items.rows,
      ∀ ts : List Turn, (∀ t ∈ ts, ∃ m ∈ s.world.db.sessions.rows, m.id = i.sessionId ∧
        m.expiresAt.any (· < t.now) = false) →
      (watch d i.sessionId i.id).Guarded (Steady d i.sessionId i.id)
        (.start d i.sessionId i.id s.world) ts := by
  intro h
  have hrow : ∃ i ∈ ((Sample.run Sample.announced).get Sample.runs_announced).world.db.items.rows,
      i.id = Sample.itemId ∧ i.sessionId = Sample.sessionId := by
    decide +kernel
  obtain ⟨i, hi, hid, hsid⟩ := hrow
  have hguarded := h .default _ (Sample.reachable_run Sample.runs_announced) i hi
    [.append 2 Sample.owner [1, 2] 0, .probe 3 Sample.owner]
  rw [hid, hsid] at hguarded
  have hlive : ∀ t ∈ [Turn.append 2 Sample.owner [1, 2] 0, .probe 3 Sample.owner],
      ∃ m ∈ ((Sample.run Sample.announced).get Sample.runs_announced).world.db.sessions.rows,
        m.id = Sample.sessionId ∧ m.expiresAt.any (· < t.now) = false := by
    intro t ht
    simp only [List.mem_cons, List.not_mem_nil, or_false] at ht
    rcases ht with rfl | rfl
    · decide +kernel
    · decide +kernel
  have hprobe := ((hguarded hlive _ rfl).2 _ rfl).1
  have hfalls := (hprobe 0 (by decide +kernel)).1 2 (by decide +kernel)
  exact absurd hfalls (by decide)

end SessionService

end Jumbox
