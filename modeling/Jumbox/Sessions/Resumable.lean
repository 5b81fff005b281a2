import Jumbox.Sessions.Invariant

/-!
# Resumable upload

One client's upload of one item, from `init_resumable_item` to the chunk that
completes it. Between its calls anything else may happen to the service; the
session must stay there and unexpired at each of them.
-/

namespace Jumbox

namespace SessionService

open ChunkStorage (partPath)

/-- The item a client uploads in chunks, and the session it is part of. -/
structure Upload where
  sessionId : Uuid
  itemId : Uuid
  owner : AuthenticatedUser

namespace Upload

def init (u : Upload) (originalName : Str) (totalSizeBytes : ℤ) (expectedSha256 : Option Str) :
    Call :=
  .initResumableItem u.sessionId u.owner originalName totalSizeBytes expectedSha256 u.itemId

def chunk (u : Upload) (chunkData : Bytes) (offset : ℤ) : Call :=
  .appendItemChunk ⟨u.sessionId, u.itemId, u.owner, chunkData, offset⟩

/-- The calls send `chunks` in order, the first at offset `n` and each at the
number of bytes accepted before it; the last chunk ends the run. -/
inductive Sends (u : Upload) : ℕ → List Bytes → List Event → Prop where
  | last {n : ℕ} {data : Bytes} {e : Event} (call : e.call = u.chunk data n) :
      Sends u n [data] [e]
  | next {n : ℕ} {data : Bytes} {chunks : List Bytes} {e : Event} {es : List Event}
      (call : e.call = u.chunk data n) (rest : Sends u (n + data.length) chunks es) :
      Sends u n (data :: chunks) (e :: es)
  | wrong {n : ℕ} {data : Bytes} {offset : ℤ} {chunks : List Bytes} {e : Event} {es : List Event}
      (call : e.call = u.chunk data offset) (ne : offset ≠ n) (rest : Sends u n chunks es) :
      Sends u n chunks (e :: es)
  | other {n : ℕ} {chunks : List Bytes} {e : Event} {es : List Event}
      (call : ∀ c, e.call = .appendItemChunk c → c.itemId ≠ u.itemId)
      (rest : Sends u n chunks es) : Sends u n chunks (e :: es)

/-- The bytes accepted once the calls are made, of which `n` were before. -/
def accepted (u : Upload) : ℕ → List Event → ℕ
  | n, [] => n
  | n, e :: es =>
      match e.call with
      | .appendItemChunk c =>
          if c.itemId = u.itemId ∧ c.offset = n then accepted u (n + c.chunkData.length) es
          else accepted u n es
      | _ => accepted u n es

/-- How a chunk is answered when `n` of `total` bytes have been accepted. -/
def Answers (d : Deployment) (u : Upload) (total n : ℕ) (w : World) (e : Event) : Prop :=
  ∀ data offset, e.call = u.chunk data offset →
    (offset ≠ n → exec d w e = (.error (.offsetMismatch n offset), w)) ∧
    (offset = n → ∃ i w',
      exec d w e =
        (.ok (.chunk (some i) (n + data.length) (decide (n + data.length = total))), w') ∧
      (n + data.length ≠ total → ∃ j,
        getItemOffset d w' u.sessionId u.itemId u.owner = (.ok (j, n + data.length), w')))

/-- Every chunk of the run is answered so. -/
def Answered (d : Deployment) (u : Upload) (total n : ℕ) (s : State) (ls : List Event) : Prop :=
  ∀ pre e post s', ls = pre ++ e :: post → (system d).run s pre = some s' →
    u.Answers d total (u.accepted n pre) s'.world e

theorem accepted_chunk (u : Upload) {n : ℕ} {data : Bytes} {e : Event}
    (h : e.call = u.chunk data n) (es : List Event) :
    u.accepted n (e :: es) = u.accepted (n + data.length) es := by
  simp [accepted, h, chunk]

theorem accepted_wrong (u : Upload) {n : ℕ} {data : Bytes} {offset : ℤ} {e : Event}
    (h : e.call = u.chunk data offset) (hne : offset ≠ n) (es : List Event) :
    u.accepted n (e :: es) = u.accepted n es := by
  simp [accepted, h, chunk, hne]

theorem accepted_other (u : Upload) {n : ℕ} {e : Event}
    (h : ∀ c, e.call = .appendItemChunk c → c.itemId ≠ u.itemId) (es : List Event) :
    u.accepted n (e :: es) = u.accepted n es := by
  rw [accepted]
  split
  · rename_i c hc
    rw [if_neg fun hboth => h c hc hboth.1]
  · rfl

theorem exec_chunk (u : Upload) {d : Deployment} {w w' : World} {now : ℤ} {data : Bytes}
    {offset : ℤ} {i : Option TransferItem} {n : ℕ} {b : Bool}
    (h : appendItemChunk d w now ⟨u.sessionId, u.itemId, u.owner, data, offset⟩ =
      (.ok (i, n, b), w')) :
    exec d w ⟨now, u.chunk data offset⟩ = (.ok (.chunk i n b), w') := by
  simp only [exec, chunk, respond, h]
  rfl

theorem exec_chunk_error (u : Upload) {d : Deployment} {w w' : World} {now : ℤ} {data : Bytes}
    {offset : ℤ} {err : Error}
    (h : appendItemChunk d w now ⟨u.sessionId, u.itemId, u.owner, data, offset⟩ =
      (.error err, w')) :
    exec d w ⟨now, u.chunk data offset⟩ = (.error err, w') := by
  simp only [exec, chunk, respond, h]
  rfl

theorem chunk_inj {u : Upload} {data data' : Bytes} {offset offset' : ℤ}
    (h : u.chunk data offset = u.chunk data' offset') : data = data' ∧ offset = offset' := by
  simpa [chunk] using h

section Answers

variable {d : Deployment} {u : Upload} {total n : ℕ} {w w' : World} {e : Event} {data : Bytes}

theorem Answers.of_accepted {i : TransferItem} (hcall : e.call = u.chunk data n)
    (hexec : exec d w e =
      (.ok (.chunk (some i) (n + data.length) (decide (n + data.length = total))), w'))
    (hoffset : n + data.length ≠ total → ∃ j,
      getItemOffset d w' u.sessionId u.itemId u.owner = (.ok (j, n + data.length), w')) :
    u.Answers d total n w e := by
  intro data' offset hcall'
  obtain ⟨rfl, rfl⟩ := chunk_inj (hcall.symm.trans hcall')
  exact ⟨fun hne => absurd rfl hne, fun _ => ⟨i, w', hexec, hoffset⟩⟩

theorem Answers.of_wrong {offset : ℤ} (hcall : e.call = u.chunk data offset) (hne : offset ≠ n)
    (hexec : exec d w e = (.error (.offsetMismatch n offset), w)) : u.Answers d total n w e := by
  intro data' offset' hcall'
  obtain ⟨rfl, rfl⟩ := chunk_inj (hcall.symm.trans hcall')
  exact ⟨fun _ => hexec, fun heq => absurd heq hne⟩

theorem Answers.of_other (h : ∀ c, e.call = .appendItemChunk c → c.itemId ≠ u.itemId) :
    u.Answers d total n w e := by
  intro data' offset' hcall'
  exact absurd rfl (h _ hcall')

theorem Answered.nil {s : State} : u.Answered d total n s [] := by
  intro pre e post s' hsplit
  simp at hsplit

end Answers

/-- The first call is answered as it should be, and the rest from where it leads. -/
theorem Answered.cons {d : Deployment} {u : Upload} {total n n' : ℕ} {s : State} {e : Event}
    {es : List Event} (hn : ∀ es, u.accepted n (e :: es) = u.accepted n' es)
    (hhead : u.Answers d total n s.world e)
    (htail : ∀ s', (system d).step s e = some s' → u.Answered d total n' s' es) :
    u.Answered d total n s (e :: es) := by
  intro pre e' post s' hsplit hrun
  cases pre with
  | nil =>
      obtain ⟨rfl, rfl⟩ := List.cons.inj hsplit
      cases hrun
      exact hhead
  | cons e₀ pre =>
      obtain ⟨rfl, htl⟩ := List.cons.inj hsplit
      obtain ⟨t, ht, hrun⟩ := System.run_cons_eq_some.mp hrun
      rw [hn]
      exact htail t ht pre e' post s' htl hrun

end Upload

/-! ## The part file and the row move together -/

/-- The upload of `base` has got as far as `got`: the row is `base`, possibly
marked as uploading, and the part file holds `got`. -/
structure Progress (d : Deployment) (w : World) (base : TransferItem) (got : Bytes) : Prop where
  item : ∃ i ∈ w.db.items.rows, i.markUploading = base.markUploading
  part : w.files.bytes (partPath d base.sessionId base.id) = got

/-- Rows that differ in the uploading mark only are completed alike. -/
theorem markUploading_congr (d : Deployment) {i base : TransferItem}
    (h : i.markUploading = base.markUploading) :
    i.id = base.id ∧ i.sessionId = base.sessionId ∧ i.sizeBytes = base.sizeBytes ∧
      i.checksumSha256 = base.checksumSha256 ∧ itemPath d i = itemPath d base ∧
      ∀ data, finishedItem d i data = finishedItem d base data := by
  have hfield : ∀ {α : Type} (f : TransferItem → α), f i.markUploading = f base.markUploading :=
    fun f => congrArg f h
  refine ⟨?_, ?_, ?_, ?_, ?_, ?_⟩
  · exact hfield TransferItem.id
  · exact hfield TransferItem.sessionId
  · exact hfield TransferItem.sizeBytes
  · exact hfield TransferItem.checksumSha256
  · exact hfield (itemPath d)
  · intro data
    exact hfield (finishedItem d · data)

section Steps

variable {d : Deployment} {w : World} {base : TransferItem} {got : Bytes} {u : Upload}
  {now : ℤ} {m : TransferSessionModel}

theorem Progress.size (h : Progress d w base got) (hid : base.id = u.itemId)
    (hsid : base.sessionId = u.sessionId) :
    w.files.size (partPath d u.sessionId u.itemId) = got.length := by
  rw [Files.size_eq_length, ← hid, ← hsid, h.part]

/-- The rows a chunk of the upload is checked against. -/
theorem Progress.accepts (h : Progress d w base got) (hid : base.id = u.itemId)
    (hsid : base.sessionId = u.sessionId) (hm : OpenFor w now u.sessionId u.owner m)
    (data : Bytes) :
    ∃ i, i.markUploading = base.markUploading ∧
      Accepts d w now ⟨u.sessionId, u.itemId, u.owner, data, got.length⟩ m i := by
  obtain ⟨i, hi, hbase⟩ := h.item
  obtain ⟨hiid, hisid, -⟩ := markUploading_congr d hbase
  refine ⟨i, hbase, hm, hi, hiid.trans hid, hisid.trans hsid, ?_⟩
  exact congrArg Nat.cast (h.size hid hsid).symm

theorem Progress.appendedBytes_eq (h : Progress d w base got) (hid : base.id = u.itemId)
    (hsid : base.sessionId = u.sessionId) (data : Bytes) (offset : ℤ) :
    appendedBytes d w ⟨u.sessionId, u.itemId, u.owner, data, offset⟩ = got ++ data := by
  have hpart := h.part
  rw [hid, hsid] at hpart
  rw [appendedBytes, hpart]

/-- A chunk at another offset is refused and changes nothing. -/
theorem Progress.wrong (h : Progress d w base got) (hid : base.id = u.itemId)
    (hsid : base.sessionId = u.sessionId) (hm : OpenFor w now u.sessionId u.owner m)
    (data : Bytes) {offset : ℤ} (hne : offset ≠ got.length) :
    exec d w ⟨now, u.chunk data offset⟩ = (.error (.offsetMismatch got.length offset), w) := by
  obtain ⟨i, -, hacc⟩ := h.accepts hid hsid hm data
  have hcheck : ChunkStorage.checkOffset d w.files u.sessionId u.itemId offset =
      .error (.offsetMismatch got.length offset) := by
    rw [← h.size hid hsid] at hne ⊢
    exact ChunkStorage.checkOffset_eq_error hne
  have happend := appendItemChunk_of_open (d := d)
    (c := ⟨u.sessionId, u.itemId, u.owner, data, offset⟩) hm hacc.mem hacc.id hacc.sessionId
  rw [hcheck] at happend
  exact u.exec_chunk_error happend

/-- A chunk that leaves bytes to send is appended. -/
theorem Progress.next (h : Progress d w base got) (hid : base.id = u.itemId)
    (hsid : base.sessionId = u.sessionId) (hm : OpenFor w now u.sessionId u.owner m)
    {data : Bytes} (hmore : ((got ++ data).length : ℤ) < base.sizeBytes) :
    ∃ i w', exec d w ⟨now, u.chunk data got.length⟩ =
        (.ok (.chunk (some i) (got ++ data).length false), w') ∧
      w'.db.sessions = w.db.sessions ∧ Progress d w' base (got ++ data) := by
  obtain ⟨i, hbase, hacc⟩ := h.accepts hid hsid hm data
  have hbytes := h.appendedBytes_eq (u := u) hid hsid data got.length
  have hend : reachesEnd i (got ++ data).length = false := by
    obtain ⟨-, -, hsize, -⟩ := markUploading_congr d hbase
    simp only [reachesEnd, hsize, decide_eq_false_iff_not]
    omega
  rcases appendItemChunk_accepted hacc with ⟨-, heq⟩ | ⟨hlast, -⟩ | ⟨hlast, -⟩
  · rw [hbytes] at heq
    refine ⟨i.markUploading, _, u.exec_chunk heq, ?_, ?_⟩
    · rfl
    · refine ⟨⟨i.markUploading, Table.mem_put.mpr (Or.inl rfl), hbase⟩, ?_⟩
      rw [hid, hsid, ← hbytes]
      exact Files.bytes_append_self _ _ _ _
  · rw [hbytes, hend] at hlast
    cases hlast
  · rw [hbytes, hend] at hlast
    cases hlast

/-- The chunk that completes the content publishes it. -/
theorem Progress.last (h : Progress d w base got) (hid : base.id = u.itemId)
    (hsid : base.sessionId = u.sessionId) (hm : OpenFor w now u.sessionId u.owner m)
    {data : Bytes} (hne : got ++ data ≠ []) (hsize : base.sizeBytes = (got ++ data).length)
    (hsha : ∀ e, base.checksumSha256 = some e → e.lower = hexdigest (got ++ data)) :
    ∃ w' t, exec d w ⟨now, u.chunk data got.length⟩ =
        (.ok (.chunk (some (finishedItem d base (got ++ data))) (got ++ data).length true), w') ∧
      finishedItem d base (got ++ data) ∈ w'.db.items.rows ∧
      w'.files (itemPath d base) = some ⟨got ++ data, t⟩ := by
  obtain ⟨i, hbase, hacc⟩ := h.accepts hid hsid hm data
  have hbytes := h.appendedBytes_eq (u := u) hid hsid data got.length
  obtain ⟨-, -, hsize', hchecksum, hpath, hfinished⟩ := markUploading_congr d hbase
  have hend : reachesEnd i (got ++ data).length = true := by
    have hpos := List.length_pos_of_ne_nil hne
    simp only [reachesEnd, hsize', hsize, decide_eq_true_eq]
    omega
  have hcheck : ChunkStorage.checkHash i.checksumSha256 (hexdigest (got ++ data)) = .ok () := by
    refine ChunkStorage.checkHash_eq_ok.mpr ?_
    intro e he _
    rw [hchecksum] at he
    rw [hsha e he, lower_hexdigest]
  rcases appendItemChunk_accepted hacc with ⟨hmore, -⟩ | ⟨-, e, he, -⟩ | ⟨-, -, t, heq⟩
  · rw [hbytes, hend] at hmore
    cases hmore
  · rw [hbytes, hcheck] at he
    cases he
  · rw [hbytes] at heq
    rw [← hfinished]
    refine ⟨_, t, u.exec_chunk heq, ?_, ?_⟩
    · exact mem_closed_items.mpr (Or.inl rfl)
    · rw [← hpath]
      exact published_self _ _ _ _

end Steps

/-- Nothing but a chunk for the item moves the upload, while its session is
there. -/
theorem Progress.other {d : Deployment} {s s' : State} {e : Event} {base : TransferItem}
    {got : Bytes} (hinv : Inv d s) (hstep : (system d).step s e = some s')
    (h : Progress d s.world base got)
    (hother : ∀ c, e.call = .appendItemChunk c → c.itemId ≠ base.id)
    (hsession : ∃ m ∈ s'.world.db.sessions.rows, m.id = base.sessionId) :
    Progress d s'.world base got := by
  obtain ⟨htaken, rfl⟩ := system_step.mp hstep
  have heff := exec_effect htaken
  obtain ⟨i, hi, hbase⟩ := h.item
  obtain ⟨hid, hsid, -⟩ := markUploading_congr d hbase
  constructor
  · refine ⟨i, ?_, hbase⟩
    refine heff.item_kept hinv.issued htaken.1 hi ?_ ?_
    · rw [hid]
      exact hother
    · rw [hsid]
      exact hsession
  · have hpart := heff.part_kept hinv.consistent hother hsession
    rw [← h.part, Files.bytes, Files.bytes, hpart]

/-! ## Whole uploads -/

namespace Upload

/-- The upload is over: the row is `base` completed with `content`, and the file
is where it says. -/
def Done (d : Deployment) (base : TransferItem) (content : Bytes) (w : World) : Prop :=
  finishedItem d base content ∈ w.db.items.rows ∧
    ∃ t, w.files (itemPath d base) = some ⟨content, t⟩

theorem Sends.flatten_ne_nil {u : Upload} {n : ℕ} {chunks : List Bytes} {ls : List Event}
    (h : u.Sends n chunks ls) (hne : ∀ c ∈ chunks, c ≠ []) : chunks.flatten ≠ [] := by
  induction h with
  | last => simpa using hne
  | next _ _ _ =>
      intro hnil
      rw [List.flatten_cons, List.append_eq_nil_iff] at hnil
      exact hne _ List.mem_cons_self hnil.1
  | wrong _ _ _ ih => exact ih hne
  | other _ _ ih => exact ih hne

/-- While calls of the upload are left, its session is there. -/
theorem Sends.session_there {u : Upload} {d : Deployment} {n : ℕ} {chunks : List Bytes}
    {ls : List Event} (h : u.Sends n chunks ls) {s s₂ : State}
    (hrun : (system d).run s ls = some s₂)
    (hlive : (system d).Guarded (fun s e => IsOpen s.world e.now u.sessionId u.owner) s ls) :
    ∃ m ∈ s.world.db.sessions.rows, m.id = u.sessionId := by
  cases ls with
  | nil => cases h
  | cons e es =>
      obtain ⟨s', hstep, -⟩ := System.run_cons_eq_some.mp hrun
      obtain ⟨⟨m, hm⟩, -⟩ := hlive s' hstep
      exact ⟨m, hm.mem, hm.id⟩

/-- From any point of an upload, sending the rest completes it. The induction is
on the calls; `Progress` carries what has been accepted so far. -/
theorem Sends.completes {d : Deployment} {u : Upload} {base : TransferItem} {content : Bytes}
    (hid : base.id = u.itemId) (hsid : base.sessionId = u.sessionId)
    (hsize : base.sizeBytes = content.length)
    (hsha : ∀ e, base.checksumSha256 = some e → e.lower = hexdigest content)
    {n : ℕ} {chunks : List Bytes} {ls : List Event} (h : u.Sends n chunks ls) :
    ∀ {s s₂ : State} {got : Bytes}, Inv d s → Progress d s.world base got → n = got.length →
      got ++ chunks.flatten = content → (∀ c ∈ chunks, c ≠ []) →
      (system d).run s ls = some s₂ →
      (system d).Guarded (fun s e => IsOpen s.world e.now u.sessionId u.owner) s ls →
      u.Answered d content.length n s ls ∧ Done d base content s₂.world := by
  induction h with
  | @last n data e hcall =>
      rintro s s₂ got hinv hprog rfl hcontent hne hrun hlive
      obtain ⟨s', hstep, hnil⟩ := System.run_cons_eq_some.mp hrun
      cases hnil
      obtain ⟨⟨m, hm⟩, -⟩ := hlive _ hstep
      obtain ⟨now, call⟩ := e
      obtain rfl : call = u.chunk data got.length := hcall
      obtain rfl : got ++ data = content := by simpa using hcontent
      have hnonempty : got ++ data ≠ [] := by simp [hne data List.mem_cons_self]
      obtain ⟨w', t, hexec, hrow, hfile⟩ := hprog.last hid hsid hm hnonempty hsize hsha
      obtain ⟨-, rfl⟩ := system_step.mp hstep
      constructor
      · refine Answered.cons (u.accepted_chunk rfl) ?_ fun _ _ => Answered.nil
        refine Answers.of_accepted rfl (by simpa using hexec) ?_
        intro hshort
        exact absurd (List.length_append).symm hshort
      · rw [hexec]
        exact ⟨hrow, t, hfile⟩
  | @next n data chunks e es hcall hrest ih =>
      rintro s s₂ got hinv hprog rfl hcontent hne hrun hlive
      obtain ⟨s', hstep, hrun⟩ := System.run_cons_eq_some.mp hrun
      obtain ⟨⟨m, hm⟩, hlive⟩ := hlive _ hstep
      have hinv' := hinv.step hstep
      obtain ⟨now, call⟩ := e
      obtain rfl : call = u.chunk data got.length := hcall
      have hcontent' : (got ++ data) ++ chunks.flatten = content := by simpa using hcontent
      have hne' : ∀ c ∈ chunks, c ≠ [] := fun c hc => hne c (List.mem_cons_of_mem _ hc)
      -- bytes are left to send, so this chunk does not reach the end
      have hrestpos := List.length_pos_of_ne_nil (hrest.flatten_ne_nil hne')
      have hlen : (got ++ data).length + chunks.flatten.length = content.length := by
        rw [← List.length_append, hcontent']
      have hmore : ((got ++ data).length : ℤ) < base.sizeBytes := by
        rw [hsize]
        omega
      obtain ⟨i, w', hexec, hsessions, hprog'⟩ := hprog.next hid hsid hm hmore
      obtain ⟨-, rfl⟩ := system_step.mp hstep
      rw [hexec] at hinv' hrun hlive
      have hn : got.length + data.length = (got ++ data).length := (List.length_append).symm
      obtain ⟨hans, hdone⟩ := ih hinv' hprog' hn hcontent' hne' hrun hlive
      refine ⟨Answered.cons (u.accepted_chunk rfl) ?_ ?_, hdone⟩
      · have hshort : got.length + data.length ≠ content.length := by omega
        have hexec' : exec d s.world ⟨now, u.chunk data got.length⟩ =
            (.ok (.chunk (some i) (got.length + data.length)
              (decide (got.length + data.length = content.length))), w') := by
          rw [hexec, decide_eq_false hshort, hn]
        refine Answers.of_accepted rfl hexec' ?_
        intro _
        obtain ⟨j, hj, hbase⟩ := hprog'.item
        obtain ⟨hjid, hjsid, -⟩ := markUploading_congr d hbase
        have hoffset := getItemOffset_of_mem (d := d) (hsessions ▸ hm.mem) hm.id hm.allowed hj
          (hjid.trans hid) (hjsid.trans hsid)
        rw [hprog'.size hid hsid, ← hn] at hoffset
        exact ⟨j, hoffset⟩
      · intro s' hs'
        obtain ⟨-, rfl⟩ := system_step.mp hs'
        rw [hexec]
        exact hans
  | @wrong n data offset chunks e es hcall hoffset hrest ih =>
      rintro s s₂ got hinv hprog rfl hcontent hne hrun hlive
      obtain ⟨s', hstep, hrun⟩ := System.run_cons_eq_some.mp hrun
      obtain ⟨⟨m, hm⟩, hlive⟩ := hlive _ hstep
      have hinv' := hinv.step hstep
      obtain ⟨now, call⟩ := e
      obtain rfl : call = u.chunk data offset := hcall
      have hexec := hprog.wrong hid hsid hm data hoffset
      obtain ⟨-, rfl⟩ := system_step.mp hstep
      rw [hexec] at hinv' hrun hlive
      obtain ⟨hans, hdone⟩ := ih hinv' hprog rfl hcontent hne hrun hlive
      refine ⟨Answered.cons (u.accepted_wrong rfl hoffset) (.of_wrong rfl hoffset hexec) ?_, hdone⟩
      intro s' hs'
      obtain ⟨-, rfl⟩ := system_step.mp hs'
      rw [hexec]
      exact hans
  | @other n chunks e es hcall hrest ih =>
      rintro s s₂ got hinv hprog rfl hcontent hne hrun hlive
      obtain ⟨s', hstep, hrun⟩ := System.run_cons_eq_some.mp hrun
      obtain ⟨-, hlive⟩ := hlive _ hstep
      have hsession := hrest.session_there hrun hlive
      have hprog' := Progress.other hinv hstep hprog (hid ▸ hcall) (hsid ▸ hsession)
      obtain ⟨hans, hdone⟩ := ih (hinv.step hstep) hprog' rfl hcontent hne hrun hlive
      refine ⟨Answered.cons (u.accepted_other hcall) (.of_other hcall) ?_, hdone⟩
      intro t ht
      obtain rfl := Option.some.inj (hstep.symm.trans ht)
      exact hans

end Upload

/-- A call that returns a queued item has added it, and its part file is empty. -/
theorem progress_of_init {d : Deployment} {s s₁ : State} (hinv : Inv d s) {u : Upload} {now : ℤ}
    {name : Str} {total : ℤ} {expected : Option Str}
    (hinit : (exec d s.world ⟨now, u.init name total expected⟩).1.isOk = true)
    (hstep : (system d).step s ⟨now, u.init name total expected⟩ = some s₁) :
    ∃ m, OpenFor s.world now u.sessionId u.owner m ∧
      Progress d s₁.world (queuedItem d now u.sessionId u.itemId name total expected) [] := by
  obtain ⟨htaken, rfl⟩ := system_step.mp hstep
  have hfresh : u.itemId ∉ s.uuids := htaken.1 u.itemId rfl
  rcases initResumableItem_cases d s.world now u.sessionId u.owner name total expected u.itemId with
    haway | ⟨m, hm⟩
  · simp only [exec, Upload.init, respond] at hinit
    generalize initResumableItem d s.world now u.sessionId u.owner name total expected u.itemId = o
      at haway hinit
    cases haway with
    | error err => cases hinit
    | expired => cases hinit
  · refine ⟨m, hm, ?_⟩
    simp only [exec, Upload.init, respond, initResumableItem_of_open hm]
    refine ⟨⟨_, Table.mem_put.mpr (Or.inl rfl), rfl⟩, ?_⟩
    exact Files.bytes_of_none (hinv.issued.parts u.sessionId u.itemId hfresh)

/-- A resumable upload reassembles the file, however it is cut, and leaves the
row that `upload_item` would have left for the same content. -/
theorem resumable_upload_reassembles {d : Deployment} {s s₁ s₂ : State} (hs : Reachable d s)
    {u : Upload} {now : ℤ} {name : Str} {content : Bytes} {expected : Option Str}
    (hinit : (exec d s.world ⟨now, u.init name content.length expected⟩).1.isOk = true)
    (hstep : (system d).step s ⟨now, u.init name content.length expected⟩ = some s₁)
    (hexpected : ∀ e, expected = some e → e.lower = hexdigest content)
    {chunks : List Bytes} (hcontent : chunks.flatten = content) (hchunks : ∀ c ∈ chunks, c ≠ [])
    {ls : List Event} (hsends : u.Sends 0 chunks ls) (hrun : (system d).run s₁ ls = some s₂)
    (hlive : (system d).Guarded (fun s e => IsOpen s.world e.now u.sessionId u.owner) s₁ ls) :
    u.Answered d content.length 0 s₁ ls ∧
    ∃ i ∈ s₂.world.db.items.rows, i.id = u.itemId ∧ i.status = .completed ∧
      i.sizeBytes = content.length ∧ i.checksumSha256 = some (hexdigest content) ∧
      ∃ p f, i.storagePath = some p ∧ s₂.world.files p = some f ∧ f.data = content ∧
        ∀ (stream : UploadStream) (size : ℤ), stream.content = content → stream.failure = none →
          ∃ w', uploadItem d s.world now u.sessionId u.owner name stream size u.itemId =
              (.ok i, w') ∧
            i ∈ w'.db.items.rows ∧ ∃ g, w'.files p = some g ∧ g.data = content := by
  have hinv := inv_of_reachable hs
  obtain ⟨m, hm, hprog⟩ := progress_of_init hinv hinit hstep
  obtain ⟨hans, hrow, t, hfile⟩ := hsends.completes rfl rfl rfl hexpected (hinv.step hstep) hprog
    rfl hcontent hchunks hrun hlive
  refine ⟨hans, _, hrow, rfl, rfl, rfl, rfl, _, _, rfl, hfile, rfl, ?_⟩
  rintro stream size rfl hfailure
  have hupload := uploadItem_of_open (d := d) hm name stream size u.itemId
  rw [hfailure] at hupload
  refine ⟨_, hupload, ?_, ?_⟩
  · exact mem_closed_items.mpr (Or.inl rfl)
  · exact ⟨_, Files.write_self _ _ _ _, rfl⟩

namespace Sample

def client : Upload := ⟨sessionId, itemId, owner⟩

def content : Bytes := [1, 2, 3]

/-- The digest may be sent in upper case. -/
def initChecked : Event :=
  ⟨1, client.init "notes.txt".toList content.length (some (Str.upper (hexdigest content)))⟩

/-- Two chunks, a retry of the first, and a look at the session in between. -/
def sends : List Event :=
  [append [1, 2] 0, append [1, 2] 0, ⟨2, .getSessionById sessionId⟩, append [3] 2]

theorem sends_chunks : client.Sends 0 [[1, 2], [3]] sends := by
  refine .next rfl (.wrong rfl (by decide) (.other ?_ (.last rfl)))
  intro c hc
  cases hc

theorem runs_created : (run [create false]).isSome = true := by decide +kernel

def created : State := (run [create false]).get runs_created

theorem steps_initChecked : ((system .default).step created initChecked).isSome = true := by
  decide +kernel

def initiated : State := ((system .default).step created initChecked).get steps_initChecked

theorem runs_sends : ((system .default).run initiated sends).isSome = true := by decide +kernel

end Sample

theorem resumable_upload_reassembles_sample :
    Sample.client.Answered .default 3 0 Sample.initiated Sample.sends ∧
    ∃ i ∈ (((system .default).run Sample.initiated Sample.sends).get
        Sample.runs_sends).world.db.items.rows,
      i.status = .completed ∧ i.sizeBytes = 3 ∧
        i.checksumSha256 = some (hexdigest Sample.content) := by
  obtain ⟨hans, i, hi, -, hstatus, hsize, hsha, -⟩ :=
    resumable_upload_reassembles (Sample.reachable_run Sample.runs_created)
      (u := Sample.client) (s := Sample.created) (by decide +kernel)
      (Option.some_get Sample.steps_initChecked).symm
      (by rintro e ⟨rfl⟩; decide +kernel) rfl (by decide) Sample.sends_chunks
      (Option.some_get Sample.runs_sends).symm (by decide +kernel)
  exact ⟨hans, i, hi, hstatus, hsize, hsha⟩

end SessionService

end Jumbox
