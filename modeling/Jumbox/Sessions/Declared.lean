import Jumbox.Sessions.Offsets

/-!
# The announced size

A resumable item is complete once its part file has reached the announced size,
and is then recorded with the size the part file has. Nothing keeps a chunk from
reaching past the announced size; a run in which none does stores exactly as
many bytes as were announced.
-/

namespace Jumbox

namespace SessionService

/-- The calls for one item, as steps of the world. -/
def turns (d : Deployment) (sid iid : Uuid) : System World Turn where
  step w t := some (exec d w (t.event sid iid)).2

/-- The row of a complete item names a file of the size it records. -/
def StoredWhole (w : World) (i : TransferItem) : Prop :=
  ∃ p f, i.storagePath = some p ∧ w.files p = some f ∧ (f.data.length : ℤ) = i.sizeBytes

/-- A complete item is stored whole, and holds what was announced or more. -/
def AtLeast (iid : Uuid) (n : ℕ) (w : World) : Prop :=
  ∀ i ∈ w.db.getItemById iid, i.status = .completed → StoredWhole w i ∧ (n : ℤ) ≤ i.sizeBytes

/-- The part file holds no more than was announced, and a complete item is stored
with exactly that many bytes. -/
def Honoured (d : Deployment) (sid iid : Uuid) (n : ℕ) (w : World) : Prop :=
  (received d sid iid w).length ≤ n ∧
    ∀ i ∈ w.db.getItemById iid, i.status = .completed → StoredWhole w i ∧ i.sizeBytes = n

/-- A chunk that passes its checks ends within the announced size. -/
def WithinSize (d : Deployment) (sid iid : Uuid) (n : ℕ) (w : World) : Turn → Prop
  | .append now owner chunkData offset =>
      (Turn.append now owner chunkData offset).accepted d sid iid w = true →
        offset + chunkData.length ≤ n
  | .probe _ _ => True

instance (d : Deployment) (sid iid : Uuid) (n : ℕ) (w : World) (t : Turn) :
    Decidable (WithinSize d sid iid n w t) :=
  match t with
  | .append now owner chunkData offset =>
      inferInstanceAs (Decidable
        ((Turn.append now owner chunkData offset).accepted d sid iid w = true →
          offset + chunkData.length ≤ n))
  | .probe _ _ => .isTrue trivial

/-- What every run keeps of an item announced with `n` bytes. -/
structure Declared (d : Deployment) (sid iid : Uuid) (n : ℕ) (w : World) (i : TransferItem) :
    Prop where
  mem : i ∈ w.db.items.rows
  id : i.id = iid
  sessionId : i.sessionId = sid
  size : (n : ℤ) ≤ i.sizeBytes
  stored : i.status = .completed → i.storagePath = some (itemPath d i) ∧
    ∃ f, w.files (itemPath d i) = some f ∧ (f.data.length : ℤ) = i.sizeBytes

/-- And a run whose chunks end within that size. -/
structure Exact (d : Deployment) (sid iid : Uuid) (n : ℕ) (w : World) (i : TransferItem) : Prop
    extends Declared d sid iid n w i where
  exact_size : i.sizeBytes = n
  part : (received d sid iid w).length ≤ n

section Turns

variable {d : Deployment} {sid iid : Uuid} {n : ℕ} {w : World} {i : TransferItem} {t : Turn}

theorem Declared.row (h : Declared d sid iid n w i) : w.db.getItemById iid = some i :=
  Db.getItemById_eq_some.mpr ⟨h.mem, h.id⟩

theorem Declared.storedWhole (h : Declared d sid iid n w i) (hdone : i.status = .completed) :
    StoredWhole w i := by
  obtain ⟨hpath, f, hf, hsize⟩ := h.stored hdone
  exact ⟨itemPath d i, f, hpath, hf, hsize⟩

theorem Declared.atLeast (h : Declared d sid iid n w i) : AtLeast iid n w := by
  intro j hj hdone
  rw [h.row] at hj
  cases hj
  exact ⟨h.storedWhole hdone, h.size⟩

theorem Exact.honoured (h : Exact d sid iid n w i) : Honoured d sid iid n w := by
  refine ⟨h.part, ?_⟩
  intro j hj hdone
  rw [h.row] at hj
  cases hj
  exact ⟨h.storedWhole hdone, h.exact_size⟩

theorem Declared.step (h : Declared d sid iid n w i) {w' : World}
    (hstep : (turns d sid iid).step w t = some w') : ∃ j, Declared d sid iid n w' j := by
  have hturned := turned d h.mem t
  obtain rfl := h.id
  obtain rfl := h.sessionId
  have hw' := Option.some.inj hstep
  generalize exec d w (t.event i.sessionId i.id) = o at hturned hw'
  subst hw'
  cases hturned with
  | refused e w' hitems hfiles =>
      refine ⟨i, hitems ▸ h.mem, rfl, rfl, h.size, ?_⟩
      show _ → _ ∧ ∃ f, w'.files (itemPath d i) = _ ∧ _
      rw [hfiles]
      exact h.stored
  | probed => exact ⟨i, h⟩
  | continued now owner data offset w' hturn hacc hmem =>
      exact ⟨i.markUploading, hmem, rfl, rfl, h.size, by rintro ⟨⟩⟩
  | rejected e now owner data offset w' hturn hacc hitems hpart hstored =>
      refine ⟨i, hitems ▸ h.mem, rfl, rfl, h.size, ?_⟩
      show _ → _ ∧ ∃ f, w'.files (itemPath d i) = _ ∧ _
      rw [hstored]
      exact h.stored
  | finished now owner data offset w' hturn hacc hmem hpart hstored hlast =>
      obtain ⟨mtime, hfile⟩ := hstored
      refine ⟨_, hmem, rfl, rfl, ?_, ?_⟩
      · exact h.size.trans (reachesEnd_iff.mp hlast).1
      · intro _
        exact ⟨rfl, _, hfile, rfl⟩

/-- If the promise holds after a turn, its chunk has ended within the size. -/
theorem Exact.withinSize (h : Exact d sid iid n w i) {w' : World}
    (hstep : (turns d sid iid).step w t = some w') (hw : Honoured d sid iid n w') :
    WithinSize d sid iid n w t := by
  cases t with
  | probe => trivial
  | append now owner data offset =>
      intro hacc
      have hturned := turned d h.mem (.append now owner data offset)
      have hoffset := Turn.offset_of_accepted hacc
      obtain rfl := h.id
      obtain rfl := h.sessionId
      have hw' := Option.some.inj hstep
      generalize exec d w _ = o at hturned hw'
      subst hw'
      obtain ⟨hpart', hdone'⟩ := hw
      cases hturned with
      | refused e w' _ _ haway =>
          rw [hacc] at haway
          cases haway
      | probed _ _ hturn => cases hturn
      | continued _ _ _ _ w' hturn _ _ hpart =>
          cases hturn
          have hle : (received d i.sessionId i.id w').length ≤ n := hpart'
          rw [hpart, List.length_append] at hle
          rw [hoffset]
          exact_mod_cast hle
      | rejected _ _ _ _ _ w' hturn _ _ hpart =>
          cases hturn
          have hle : (received d i.sessionId i.id w').length ≤ n := hpart'
          rw [hpart, List.length_append] at hle
          rw [hoffset]
          exact_mod_cast hle
      | finished _ _ _ _ w' hturn _ hmem =>
          cases hturn
          have hrow := Db.getItemById_eq_some.mpr ⟨hmem, rfl⟩
          have hsize := (hdone' _ hrow rfl).2
          have hlength : ((received d i.sessionId i.id w ++ data).length : ℤ) = n := hsize
          rw [List.length_append] at hlength
          rw [hoffset]
          exact_mod_cast hlength.le

theorem Exact.step (h : Exact d sid iid n w i) (hwithin : WithinSize d sid iid n w t) {w' : World}
    (hstep : (turns d sid iid).step w t = some w') : ∃ j, Exact d sid iid n w' j := by
  have hturned := turned d h.mem t
  obtain ⟨j, hj⟩ := h.toDeclared.step hstep
  obtain rfl := h.id
  obtain rfl := h.sessionId
  have hw' := Option.some.inj hstep
  generalize exec d w (t.event i.sessionId i.id) = o at hturned hw'
  subst hw'
  -- the row after the turn is the one the turn is known to leave
  have hrow : ∀ r ∈ o.2.db.items.rows, r.id = i.id → j = r :=
    fun r hr hid => Table.eq_of_mem hj.mem hr (hj.id.trans hid.symm)
  have hend : ∀ {now owner data offset}, t = .append now owner data offset →
      t.accepted d i.sessionId i.id w = true →
      (received d i.sessionId i.id w ++ data).length ≤ n := by
    rintro now owner data offset rfl hacc
    have hle : offset + (data.length : ℤ) ≤ n := hwithin hacc
    rw [Turn.offset_of_accepted hacc] at hle
    rw [List.length_append]
    exact_mod_cast hle
  cases hturned with
  | refused e w' hitems hfiles =>
      obtain rfl := hrow i (hitems ▸ h.mem) rfl
      refine ⟨j, hj, h.exact_size, ?_⟩
      show (w'.files.bytes _).length ≤ n
      rw [hfiles]
      exact h.part
  | probed =>
      obtain rfl := hrow i h.mem rfl
      exact ⟨j, h⟩
  | continued now owner data offset w' hturn hacc hmem hpart =>
      obtain rfl := hrow _ hmem rfl
      refine ⟨_, hj, h.exact_size, ?_⟩
      show (received d i.sessionId i.id w').length ≤ n
      rw [hpart]
      exact hend hturn hacc
  | rejected e now owner data offset w' hturn hacc hitems hpart =>
      obtain rfl := hrow i (hitems ▸ h.mem) rfl
      refine ⟨j, hj, h.exact_size, ?_⟩
      show (received d j.sessionId j.id w').length ≤ n
      rw [hpart]
      exact hend hturn hacc
  | finished now owner data offset w' hturn hacc hmem hpart hstored hlast =>
      obtain rfl := hrow _ hmem rfl
      refine ⟨_, hj, ?_, ?_⟩
      · -- not less than announced, and not more
        have hreached := h.size.trans (reachesEnd_iff.mp hlast).1
        have hle := hend hturn hacc
        show ((received d i.sessionId i.id w ++ data).length : ℤ) = n
        exact_mod_cast le_antisymm (by exact_mod_cast hle) hreached
      · show (received d i.sessionId i.id w').length ≤ n
        rw [hpart]
        exact Nat.zero_le _

end Turns

/-- The item that a taken call of `init_resumable_item` adds. -/
theorem exact_of_init {d : Deployment} {s t : State} (hs : Reachable d s) {now : ℤ} {sid iid : Uuid}
    {owner : AuthenticatedUser} {name : Str} {n : ℕ} {expected : Option Str}
    (hstep : (system d).step s
      ⟨now, .initResumableItem sid owner name n expected iid⟩ = some t)
    (hok : (initResumableItem d s.world now sid owner name n expected iid).1.isOk = true) :
    ∃ i, Exact d sid iid n t.world i := by
  obtain ⟨htaken, rfl⟩ := system_step.mp hstep
  have hfresh : iid ∉ s.uuids := htaken.1 iid rfl
  rcases initResumableItem_cases d s.world now sid owner name n expected iid with haway | ⟨m, hm⟩
  · generalize initResumableItem d s.world now sid owner name n expected iid = o at haway hok
    cases haway <;> cases hok
  · have hworld : (exec d s.world ⟨now, .initResumableItem sid owner name n expected iid⟩).2 =
        s.world.withDb (s.world.db.addItem (queuedItem d now sid iid name n expected)) := by
      show (initResumableItem d s.world now sid owner name n expected iid).2 = _
      rw [initResumableItem_of_open hm]
    have hnone := (inv_of_reachable hs).issued.parts sid iid hfresh
    refine ⟨queuedItem d now sid iid name n expected, ⟨?_, rfl, rfl, le_refl _, by rintro ⟨⟩⟩, rfl,
      ?_⟩
    · rw [hworld]
      exact Table.mem_put.mpr (Or.inl rfl)
    · rw [hworld]
      show (s.world.files.bytes (ChunkStorage.partPath d sid iid)).length ≤ n
      rw [Files.bytes_of_none hnone]
      exact Nat.zero_le _

/-- However the chunks of an item are cut, a complete item is stored whole and
holds at least the `n` bytes announced; and the part file never holds more, and
the stored file never other than `n` bytes, exactly if no chunk reaches past `n`. -/
theorem declared_size_honoured_iff {d : Deployment} {s t : State} (hs : Reachable d s) {now : ℤ}
    {sid iid : Uuid} {owner : AuthenticatedUser} {name : Str} {n : ℕ} {expected : Option Str}
    (hstep : (system d).step s
      ⟨now, .initResumableItem sid owner name n expected iid⟩ = some t)
    (hok : (initResumableItem d s.world now sid owner name n expected iid).1.isOk = true)
    (ts : List Turn) :
    (turns d sid iid).Always (AtLeast iid n) t.world ts ∧
    ((turns d sid iid).Always (Honoured d sid iid n) t.world ts ↔
      (turns d sid iid).Guarded (WithinSize d sid iid n) t.world ts) := by
  obtain ⟨i, hi⟩ := exact_of_init hs hstep hok
  constructor
  · have hdeclared : (turns d sid iid).Always (fun w => ∃ j, Declared d sid iid n w j) t.world ts := by
      refine System.always_of_invariant ?_ ⟨i, hi.toDeclared⟩ ts
      rintro w t w' ⟨j, hj⟩ hstep
      exact hj.step hstep
    apply hdeclared.mono
    rintro w ⟨j, hj⟩
    exact hj.atLeast
  · apply System.always_iff_guarded_of_invariant (I := fun w => ∃ j, Exact d sid iid n w j)
    · rintro w ⟨j, hj⟩
      exact hj.honoured
    · rintro w t w' ⟨j, hj⟩ hstep hw'
      exact hj.withinSize hstep hw'
    · rintro w t w' ⟨j, hj⟩ hwithin hstep
      exact hj.step hwithin hstep
    · exact ⟨i, hi⟩

namespace Sample

theorem steps_announced : ((system .default).step created (init 2)).isSome = true := by
  decide +kernel

/-- The state after an announcement of two bytes. -/
def firstAnnounced : State := ((system .default).step created (init 2)).get steps_announced

theorem init_isOk :
    (initResumableItem .default created.world 1 sessionId owner "notes.txt".toList 2 none
      itemId).1.isOk = true := by
  decide +kernel

end Sample

theorem declared_size_honoured_iff_two_chunks :
    (turns .default Sample.sessionId Sample.itemId).Always
      (Honoured .default Sample.sessionId Sample.itemId 2) Sample.firstAnnounced.world
      [.append 2 Sample.owner [1] 0, .append 3 Sample.owner [2] 1] := by
  have hhonoured := (declared_size_honoured_iff (n := 2) (Sample.reachable_run Sample.runs_created)
    (Option.some_get Sample.steps_announced).symm Sample.init_isOk
    [.append 2 Sample.owner [1] 0, .append 3 Sample.owner [2] 1]).2
  exact hhonoured.mpr (by decide +kernel)

/-- Three bytes in one chunk for an item announced with two. -/
theorem declared_size_exceeded :
    ¬ ∀ (d : Deployment) (s t : State), Reachable d s → ∀ (now : ℤ) (sid iid : Uuid)
      (owner : AuthenticatedUser) (name : Str) (n : ℕ) (expected : Option Str), 1 ≤ n →
      (system d).step s ⟨now, .initResumableItem sid owner name n expected iid⟩ = some t →
      (initResumableItem d s.world now sid owner name n expected iid).1.isOk = true →
      ∀ ts, (turns d sid iid).Always (Honoured d sid iid n) t.world ts := by
  intro h
  have halways := h .default Sample.created _ (Sample.reachable_run Sample.runs_created) 1
    Sample.sessionId Sample.itemId Sample.owner "notes.txt".toList 2 none (by decide)
    (Option.some_get Sample.steps_announced).symm Sample.init_isOk
    [.append 2 Sample.owner [1, 2, 3] 0]
  obtain ⟨-, hdone⟩ := halways.2 _ rfl
  have hrow : ∃ i ∈ (exec .default Sample.firstAnnounced.world (Turn.event Sample.sessionId
      Sample.itemId (.append 2 Sample.owner [1, 2, 3] 0))).2.db.getItemById Sample.itemId,
      i.status = .completed ∧ i.sizeBytes = 3 := by
    decide +kernel
  obtain ⟨i, hi, hstatus, hsize⟩ := hrow
  have htwo := (hdone i hi hstatus).2
  rw [hsize] at htwo
  exact absurd htwo (by decide)

end SessionService

end Jumbox
