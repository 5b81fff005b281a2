import Jumbox.Sessions.Resumable

/-!
# Can every upload be finished?

Chunks only ever extend the part file, and only a chunk that brings it to the
recorded size takes it away. So an upload that is not complete can be finished
exactly if what it has got so far is the start of some content of the announced
length and digest, and if that length is not zero: an item of no bytes never
reaches the end.
-/

namespace Jumbox

namespace SessionService

open ChunkStorage (partPath)

/-! ## One chunk -/

/-- A chunk for the item `iid`, from anyone and at any offset. -/
def IsChunkFor (iid : Uuid) (e : Event) : Prop :=
  ∃ c, e.call = .appendItemChunk c ∧ c.itemId = iid

/-- What a chunk makes of the row `i` and of the bytes `got` in its part file. -/
inductive Moved (d : Deployment) (i : TransferItem) (got : Bytes) : TransferItem → Bytes → Prop where
  | refused : Moved d i got i got
  | continued (data : Bytes) (more : reachesEnd i (got ++ data).length = false) :
      Moved d i got i.markUploading (got ++ data)
  | rejected (data : Bytes) (last : reachesEnd i (got ++ data).length = true) :
      Moved d i got i (got ++ data)
  | finished (data : Bytes) (last : reachesEnd i (got ++ data).length = true)
      (checked : ChunkStorage.checkHash i.checksumSha256 (hexdigest (got ++ data)) = .ok ()) :
      Moved d i got (finishedItem d i (got ++ data)) []

/-- The part file of an item row. -/
def partBytes (d : Deployment) (w : World) (i : TransferItem) : Bytes :=
  w.files.bytes (partPath d i.sessionId i.id)

theorem moved_of_step {d : Deployment} {s t : State} {e : Event} {i : TransferItem}
    (he : IsChunkFor i.id e) (hi : i ∈ s.world.db.items.rows)
    (hstep : (system d).step s e = some t) :
    ∃ j ∈ t.world.db.items.rows, Moved d i (partBytes d s.world i) j (partBytes d t.world j) := by
  obtain ⟨-, rfl⟩ := system_step.mp hstep
  obtain ⟨now, call⟩ := e
  obtain ⟨c, rfl, hid⟩ := he
  show ∃ j ∈ (appendItemChunk d s.world now c).2.db.items.rows,
    Moved d i _ j (partBytes d (appendItemChunk d s.world now c).2 j)
  rcases appendItemChunk_cases d s.world now c with haway | ⟨m, k, hacc⟩
  · generalize appendItemChunk d s.world now c = o at haway
    cases haway with
    | error err => exact ⟨i, hi, .refused⟩
    | expired => exact ⟨i, hi, .refused⟩
  · obtain rfl : k = i := Table.eq_of_mem hacc.mem hi (hacc.id.trans hid)
    have hgot : appendedBytes d s.world c = partBytes d s.world k ++ c.chunkData := by
      rw [appendedBytes, partBytes, hacc.sessionId, hacc.id]
    have hpart : (appended d s.world now c).bytes (partPath d k.sessionId k.id) =
        partBytes d s.world k ++ c.chunkData := by
      rw [← hgot, hacc.sessionId, hacc.id]
      exact Files.bytes_append_self _ _ _ _
    rcases appendItemChunk_accepted hacc with ⟨hmore, heq⟩ | ⟨hlast, err, -, heq⟩ |
      ⟨hlast, hchecked, t, heq⟩
    · rw [heq]
      refine ⟨k.markUploading, Table.mem_put.mpr (Or.inl rfl), ?_⟩
      rw [hgot] at hmore
      show Moved d k _ _ ((appended d s.world now c).bytes (partPath d k.sessionId k.id))
      rw [hpart]
      exact .continued c.chunkData hmore
    · rw [heq]
      refine ⟨k, hi, ?_⟩
      rw [hgot] at hlast
      show Moved d k _ _ ((appended d s.world now c).bytes (partPath d k.sessionId k.id))
      rw [hpart]
      exact .rejected c.chunkData hlast
    · rw [heq]
      refine ⟨finishedItem d k (appendedBytes d s.world c),
        mem_closed_items.mpr (Or.inl rfl), ?_⟩
      have hgone : partBytes d ((s.world.withFiles (published d (appended d s.world now c) k
          ⟨appendedBytes d s.world c, t⟩)).withDb (closed s.world.db m
            (finishedItem d k (appendedBytes d s.world c))))
          (finishedItem d k (appendedBytes d s.world c)) = [] := by
        apply Files.bytes_of_none
        show published d _ k _ (partPath d k.sessionId k.id) = none
        rw [published, Function.update_of_ne (partPath_ne_itemPath d _ _ k), Files.unlink_self]
      rw [hgone, hgot]
      rw [hgot] at hlast hchecked
      exact .finished c.chunkData hlast hchecked

/-- A chunk takes no session away. -/
theorem session_of_step {d : Deployment} {s t : State} {e : Event} {iid : Uuid}
    (he : IsChunkFor iid e) (hstep : (system d).step s e = some t) {m : TransferSessionModel}
    (hm : m ∈ s.world.db.sessions.rows) : ∃ r ∈ t.world.db.sessions.rows, r.id = m.id := by
  obtain ⟨-, rfl⟩ := system_step.mp hstep
  obtain ⟨now, call⟩ := e
  obtain ⟨c, rfl, -⟩ := he
  obtain ⟨status, hrow⟩ := appendItemChunk_keeps_session hm d now c
  exact ⟨_, hrow, rfl⟩

theorem session_of_run {d : Deployment} {s t : State} {ls : List Event} {iid : Uuid}
    (hls : ∀ e ∈ ls, IsChunkFor iid e) (hrun : (system d).run s ls = some t)
    {m : TransferSessionModel} (hm : m ∈ s.world.db.sessions.rows) :
    ∃ r ∈ t.world.db.sessions.rows, r.id = m.id := by
  refine System.holds_of_run (P := fun u => ∃ r ∈ u.world.db.sessions.rows, r.id = m.id)
    ?_ ⟨m, hm, rfl⟩ hls hrun
  rintro u e u' ⟨k, hk, hkid⟩ he hstep
  obtain ⟨r, hr, hrid⟩ := session_of_step he hstep hk
  exact ⟨r, hr, hrid.trans hkid⟩

/-! ## What the row keeps of its announcement -/

/-- A row that was announced with size `n` and the digest `expected`, after any
number of chunks: it never shrinks, and its digest stays the expected one. -/
structure Announced (sid iid : Uuid) (n : ℕ) (expected : Option Str) (i : TransferItem) : Prop where
  id : i.id = iid
  sessionId : i.sessionId = sid
  size : (n : ℤ) ≤ i.sizeBytes
  digest : ∀ e, i.checksumSha256 = some e → e ≠ []
  expected : ∀ e₀, expected = some e₀ → ∃ e, i.checksumSha256 = some e ∧ e.lower = e₀.lower

theorem Announced.moved {d : Deployment} {sid iid : Uuid} {n : ℕ} {expected : Option Str}
    {i j : TransferItem} {got got' : Bytes} (h : Announced sid iid n expected i)
    (hmoved : Moved d i got j got') : Announced sid iid n expected j := by
  cases hmoved with
  | refused => exact h
  | continued => exact ⟨h.id, h.sessionId, h.size, h.digest, h.expected⟩
  | rejected => exact h
  | finished data hlast hchecked =>
      refine ⟨h.id, h.sessionId, h.size.trans (reachesEnd_iff.mp hlast).1, ?_, ?_⟩
      · rintro e ⟨rfl⟩
        exact hexdigest_ne_nil _
      · intro e₀ he₀
        obtain ⟨e, he, hlower⟩ := h.expected e₀ he₀
        refine ⟨_, rfl, ?_⟩
        exact (ChunkStorage.checkHash_eq_ok.mp hchecked e he (h.digest e he)).trans hlower

theorem announced_of_run {d : Deployment} {s t : State} {ls : List Event} {sid iid : Uuid} {n : ℕ}
    {expected : Option Str} (hrow : ∃ i ∈ s.world.db.items.rows, Announced sid iid n expected i)
    (hls : ∀ e ∈ ls, IsChunkFor iid e) (hrun : (system d).run s ls = some t) :
    ∃ i ∈ t.world.db.items.rows, Announced sid iid n expected i := by
  refine System.holds_of_run
    (P := fun u => ∃ i ∈ u.world.db.items.rows, Announced sid iid n expected i) ?_ hrow hls hrun
  rintro u e u' ⟨i, hi, hann⟩ he hstep
  obtain ⟨j, hj, hmoved⟩ := moved_of_step (hann.id ▸ he) hi hstep
  exact ⟨j, hj, hann.moved hmoved⟩

/-! ## Finishing -/

/-- Chunks for the item can complete it with a file of the announced length, and
with the expected digest where one was given. -/
def Finishable (d : Deployment) (s : State) (iid : Uuid) (n : ℕ) (expected : Option Str) : Prop :=
  ∃ ls t, (∀ e ∈ ls, IsChunkFor iid e) ∧ (system d).run s ls = some t ∧
    ∃ j ∈ t.world.db.items.rows, j.id = iid ∧ j.status = .completed ∧
      ∃ p f, j.storagePath = some p ∧ t.world.files p = some f ∧ f.data.length = n ∧
        ∀ e, expected = some e → e.lower = hexdigest f.data

/-- What is there is the start of a content with the recorded length and digest. -/
def Completable (n : ℕ) (i : TransferItem) (got : Bytes) : Prop :=
  0 < n ∧ i.sizeBytes = n ∧ ∃ content : Bytes, content.length = n ∧ got <+: content ∧
    ∀ e, i.checksumSha256 = some e → e.lower = hexdigest content

/-- Complete at the announced length, or on the way to it. -/
def WellOn (n : ℕ) (i : TransferItem) (got : Bytes) : Prop :=
  (i.status = .completed ∧ i.sizeBytes = n) ∨ Completable n i got

/-- Where an upload is well on after a chunk, it was before it. -/
theorem WellOn.of_moved {d : Deployment} {sid iid : Uuid} {n : ℕ} {expected : Option Str}
    {i j : TransferItem} {got got' : Bytes} (hann : Announced sid iid n expected i)
    (hmoved : Moved d i got j got') (h : WellOn n j got') : WellOn n i got := by
  cases hmoved with
  | refused => exact h
  | continued data =>
      rcases h with ⟨hstatus, -⟩ | ⟨hpos, hsize, content, hlen, hprefix, hdigest⟩
      · cases hstatus
      · exact .inr ⟨hpos, hsize, content, hlen, (List.prefix_append _ _).trans hprefix, hdigest⟩
  | rejected data =>
      rcases h with hdone | ⟨hpos, hsize, content, hlen, hprefix, hdigest⟩
      · exact .inl hdone
      · exact .inr ⟨hpos, hsize, content, hlen, (List.prefix_append _ _).trans hprefix, hdigest⟩
  | finished data hlast hchecked =>
      have hlength : ((got ++ data).length : ℤ) = n := by
        rcases h with ⟨-, hsize⟩ | ⟨-, hsize, -⟩
        · exact hsize
        · exact hsize
      obtain ⟨hle, hpos⟩ := reachesEnd_iff.mp hlast
      -- the row has not grown past the announced size, nor was it ever below
      have hsize : i.sizeBytes = n := le_antisymm (hle.trans hlength.le) hann.size
      refine .inr ⟨by omega, hsize, got ++ data, by omega, List.prefix_append _ _, ?_⟩
      intro e he
      rw [← ChunkStorage.checkHash_eq_ok.mp hchecked e he (hann.digest e he), lower_hexdigest]

theorem wellOn_of_run {d : Deployment} {s t : State} {ls : List Event} {sid iid : Uuid} {n : ℕ}
    {expected : Option Str} {i j : TransferItem} (hi : i ∈ s.world.db.items.rows)
    (hann : Announced sid iid n expected i) (hls : ∀ e ∈ ls, IsChunkFor iid e)
    (hrun : (system d).run s ls = some t) (hj : j ∈ t.world.db.items.rows) (hjid : j.id = iid)
    (h : WellOn n j (partBytes d t.world j)) : WellOn n i (partBytes d s.world i) := by
  -- from each row of the run the first one is reached back
  have hback : ∃ k ∈ t.world.db.items.rows, Announced sid iid n expected k ∧
      (WellOn n k (partBytes d t.world k) → WellOn n i (partBytes d s.world i)) := by
    refine System.holds_of_run
      (P := fun u => ∃ k ∈ u.world.db.items.rows, Announced sid iid n expected k ∧
        (WellOn n k (partBytes d u.world k) → WellOn n i (partBytes d s.world i)))
      ?_ ⟨i, hi, hann, id⟩ hls hrun
    rintro u e u' ⟨k, hk, hkann, hback⟩ he hstep
    obtain ⟨r, hr, hmoved⟩ := moved_of_step (hkann.id ▸ he) hk hstep
    exact ⟨r, hr, hkann.moved hmoved, fun hr => hback (WellOn.of_moved hkann hmoved hr)⟩
  obtain ⟨k, hk, hkann, hback⟩ := hback
  obtain rfl : k = j := Table.eq_of_mem hk hj (hkann.id.trans hjid.symm)
  exact hback h

/-- An upload that can be finished is on the way to its announced content. -/
theorem Finishable.completable {d : Deployment} {s : State} {sid iid : Uuid} {n : ℕ}
    {expected : Option Str} (h : Finishable d s iid n expected) (hs : Reachable d s)
    {i : TransferItem} (hi : i ∈ s.world.db.items.rows) (hann : Announced sid iid n expected i)
    {m : TransferSessionModel} (hm : m ∈ s.world.db.sessions.rows) (hsid : m.id = sid)
    (hnot : i.status ≠ .completed) : Completable n i (partBytes d s.world i) := by
  obtain ⟨ls, t, hls, hrun, j, hj, hjid, hstatus, p, f, hp, hf, hlen, -⟩ := h
  have hcons := (inv_of_reachable (System.Reachable.run hs hrun)).consistent
  obtain ⟨r, hr, hrid⟩ := session_of_run hls hrun hm
  obtain ⟨k, hk, hkann⟩ := announced_of_run ⟨i, hi, hann⟩ hls hrun
  obtain rfl : k = j := Table.eq_of_mem hk hj (hkann.id.trans hjid.symm)
  have hrsid : r.id = k.sessionId := (hrid.trans hsid).trans hkann.sessionId.symm
  -- the stored file has the recorded size
  obtain ⟨g, hg, -, hsize⟩ := hcons.intact k hk r hr hrsid p hp
  obtain rfl := Option.some.inj (hg.symm.trans hf)
  rw [hlen] at hsize
  rcases wellOn_of_run hi hann hls hrun hj hjid (.inl ⟨hstatus, hsize⟩) with ⟨hdone, -⟩ | hcomp
  · exact absurd hdone hnot
  · exact hcomp

/-- The missing bytes, sent as one chunk, finish the upload. -/
theorem Completable.finishable {d : Deployment} {s : State} {sid iid : Uuid} {n : ℕ}
    {expected : Option Str} {i : TransferItem} (hi : i ∈ s.world.db.items.rows)
    (hann : Announced sid iid n expected i) {now : ℤ} {m : TransferSessionModel}
    (hm : m ∈ s.world.db.sessions.rows) (hsid : m.id = sid)
    (hlive : m.expiresAt.any (· < now) = false)
    (h : Completable n i (partBytes d s.world i)) : Finishable d s iid n expected := by
  obtain ⟨hpos, hsize, content, hlen, ⟨rest, rfl⟩, hdigest⟩ := h
  let u : Upload := ⟨sid, iid, ⟨m.ownerId, [], false⟩⟩
  have hopen : OpenFor s.world now u.sessionId u.owner m := ⟨hm, hsid, .inl rfl, hlive⟩
  have hprog : Progress d s.world i (partBytes d s.world i) := ⟨⟨i, hi, rfl⟩, rfl⟩
  have hne : partBytes d s.world i ++ rest ≠ [] := by
    apply List.ne_nil_of_length_pos
    omega
  have hsize' : i.sizeBytes = (partBytes d s.world i ++ rest).length := by
    rw [hsize, hlen]
  obtain ⟨w', t, hexec, hrow, hfile⟩ := hprog.last (u := u) hann.id hann.sessionId hopen hne hsize' hdigest
  refine ⟨[⟨now, u.chunk rest (partBytes d s.world i).length⟩], _, ?_,
    System.run_cons_eq_some.mpr ⟨_, system_step.mpr ⟨⟨nofun, nofun⟩, rfl⟩, rfl⟩, ?_⟩
  · rintro e he
    rw [List.mem_singleton.mp he]
    exact ⟨_, rfl, rfl⟩
  · rw [hexec]
    refine ⟨_, hrow, hann.id, rfl, _, _, rfl, hfile, hlen, ?_⟩
    intro e₀ he₀
    obtain ⟨e, he, hlower⟩ := hann.expected e₀ he₀
    exact hlower.symm.trans (hdigest e he)

/-- A call of `init_resumable_item` that returns has announced the upload. -/
theorem announced_of_init {d : Deployment} {s t : State} (hs : Reachable d s) {u : Upload}
    {now : ℤ} {name : Str} {n : ℕ} {expected : Option Str}
    (hinit : (exec d s.world ⟨now, u.init name n expected⟩).1.isOk = true)
    (hstep : (system d).step s ⟨now, u.init name n expected⟩ = some t)
    (hexpected : ∀ e, expected = some e → ∃ c : Bytes, c.length = n ∧ e.lower = hexdigest c) :
    ∃ i ∈ t.world.db.items.rows, Announced u.sessionId u.itemId n expected i := by
  obtain ⟨-, -, hprog⟩ := progress_of_init (inv_of_reachable hs) hinit hstep
  obtain ⟨i, hi, hbase⟩ := hprog.item
  obtain ⟨hid, hsid, hsize, hdigest, -⟩ := markUploading_congr d hbase
  refine ⟨i, hi, hid, hsid, hsize.ge, ?_, ?_⟩
  · rintro e he rfl
    obtain ⟨c, -, hc⟩ := hexpected [] (hdigest.symm.trans he)
    exact hexdigest_ne_nil c hc.symm
  · intro e he
    exact ⟨e, hdigest.trans he, rfl⟩

/-- After any chunks, an upload that is not complete and whose session is live
can be finished exactly if it is not empty, the item has not grown past its
announced size, and its part file is the start of a content that has this size
and the recorded digest. -/
theorem upload_finishable_iff {d : Deployment} {s s₁ s₂ : State} (hs : Reachable d s) {u : Upload}
    {t₀ : ℤ} {name : Str} {n : ℕ} {expected : Option Str}
    (hinit : (exec d s.world ⟨t₀, u.init name n expected⟩).1.isOk = true)
    (hstep : (system d).step s ⟨t₀, u.init name n expected⟩ = some s₁)
    (hexpected : ∀ e, expected = some e → ∃ c : Bytes, c.length = n ∧ e.lower = hexdigest c)
    {ls : List Event} (hls : ∀ e ∈ ls, IsChunkFor u.itemId e)
    (hrun : (system d).run s₁ ls = some s₂) {now : ℤ} {m : TransferSessionModel}
    (hm : m ∈ s₂.world.db.sessions.rows) (hsid : m.id = u.sessionId)
    (hlive : m.expiresAt.any (· < now) = false) {i : TransferItem}
    (hi : i ∈ s₂.world.db.items.rows) (hid : i.id = u.itemId) (hnot : i.status ≠ .completed) :
    Finishable d s₂ u.itemId n expected ↔
      0 < n ∧ i.sizeBytes = n ∧ ∃ content : Bytes, content.length = n ∧
        s₂.world.files.bytes (partPath d u.sessionId u.itemId) <+: content ∧
        ∀ e, i.checksumSha256 = some e → e.lower = hexdigest content := by
  have hreach : Reachable d s₂ := System.Reachable.run (System.Reachable.step _ hs hstep) hrun
  obtain ⟨k, hk, hann⟩ := announced_of_run (announced_of_init hs hinit hstep hexpected) hls hrun
  obtain rfl : k = i := Table.eq_of_mem hk hi (hann.id.trans hid.symm)
  have hpart : s₂.world.files.bytes (partPath d u.sessionId u.itemId) =
      partBytes d s₂.world k := by
    rw [partBytes, hann.sessionId, hann.id]
  rw [hpart]
  constructor
  · intro h
    exact h.completable hreach hk hann hm hsid hnot
  · intro h
    exact Completable.finishable hk hann hm hsid hlive h

namespace Sample

def announce (n : ℕ) : Event := ⟨1, client.init "notes.txt".toList n none⟩

theorem steps_announce_two : ((system .default).step created (announce 2)).isSome = true := by
  decide +kernel

/-- Two bytes are announced. -/
def announcedTwo : State := ((system .default).step created (announce 2)).get steps_announce_two

theorem runs_half : ((system .default).run announcedTwo [append [1] 0]).isSome = true := by
  decide +kernel

/-- One of the two bytes has been sent. -/
def half : State := ((system .default).run announcedTwo [append [1] 0]).get runs_half

theorem steps_announce_none : ((system .default).step created (announce 0)).isSome = true := by
  decide +kernel

/-- An empty file is announced. -/
def announcedNone : State := ((system .default).step created (announce 0)).get steps_announce_none

theorem rows_half : ∃ m ∈ half.world.db.sessions.rows, m.id = sessionId ∧
    m.expiresAt.any (· < 3) = false ∧ ∃ i ∈ half.world.db.items.rows, i.id = itemId ∧
      i.status ≠ .completed ∧ i.sizeBytes = 2 ∧ i.checksumSha256 = none ∧
      half.world.files.bytes (partPath .default sessionId itemId) = [1] := by
  decide +kernel

theorem rows_announcedNone : ∃ m ∈ announcedNone.world.db.sessions.rows, m.id = sessionId ∧
    m.expiresAt.any (· < 2) = false ∧ ∃ i ∈ announcedNone.world.db.items.rows, i.id = itemId ∧
      i.status ≠ .completed := by
  decide +kernel

end Sample

theorem upload_finishable_half : Finishable .default Sample.half Sample.itemId 2 none := by
  obtain ⟨m, hm, hmid, hlive, i, hi, hid, hnot, hsize, hdigest, hpart⟩ := Sample.rows_half
  have hchunk : ∀ e ∈ [Sample.append [1] 0], IsChunkFor Sample.client.itemId e := by
    intro e he
    rw [List.mem_singleton.mp he]
    exact ⟨_, rfl, rfl⟩
  refine (upload_finishable_iff (Sample.reachable_run Sample.runs_created) (u := Sample.client)
    (by decide +kernel) (Option.some_get Sample.steps_announce_two).symm nofun hchunk
    (Option.some_get Sample.runs_half).symm hm hmid hlive hi hid hnot).mpr ?_
  refine ⟨by decide, hsize, [1, 2], rfl, ?_, ?_⟩
  · show Sample.half.world.files.bytes (partPath .default Sample.sessionId Sample.itemId) <+: [1, 2]
    rw [hpart]
    exact ⟨[2], rfl⟩
  · rw [hdigest]
    exact nofun

/-- No chunk completes an empty file. -/
theorem empty_upload_not_finishable :
    ¬ ∀ (d : Deployment) (s s₁ s₂ : State), Reachable d s →
      ∀ (u : Upload) (t₀ : ℤ) (name : Str) (n : ℕ) (expected : Option Str),
      (exec d s.world ⟨t₀, u.init name n expected⟩).1.isOk = true →
      (system d).step s ⟨t₀, u.init name n expected⟩ = some s₁ →
      (∀ e, expected = some e → ∃ c : Bytes, c.length = n ∧ e.lower = hexdigest c) →
      ∀ ls, (∀ e ∈ ls, IsChunkFor u.itemId e) → (system d).run s₁ ls = some s₂ →
      ∀ (now : ℤ), ∀ m ∈ s₂.world.db.sessions.rows, m.id = u.sessionId →
      m.expiresAt.any (· < now) = false → ∀ i ∈ s₂.world.db.items.rows, i.id = u.itemId →
      i.status ≠ .completed → Finishable d s₂ u.itemId n expected := by
  intro h
  obtain ⟨m, hm, hmid, hlive, i, hi, hid, hnot⟩ := Sample.rows_announcedNone
  have hcreated := Sample.reachable_run Sample.runs_created
  have hinit : (exec .default Sample.created.world (Sample.announce 0)).1.isOk = true := by
    decide +kernel
  have hstep : (system .default).step Sample.created (Sample.announce 0) =
      some Sample.announcedNone := (Option.some_get Sample.steps_announce_none).symm
  have hfinish := h .default _ _ _ hcreated Sample.client 1 "notes.txt".toList 0 none hinit hstep nofun
    [] (fun _ he => absurd he List.not_mem_nil) rfl 2 m hm hmid hlive i hi hid hnot
  obtain ⟨k, hk, hann⟩ := announced_of_init hcreated (u := Sample.client) hinit hstep nofun
  obtain rfl : k = i := Table.eq_of_mem hk hi (hann.id.trans hid.symm)
  have hreach : Reachable .default Sample.announcedNone := System.Reachable.step _ hcreated hstep
  exact absurd (hfinish.completable hreach hk hann hm hmid hnot).1 (lt_irrefl 0)

end SessionService

end Jumbox
