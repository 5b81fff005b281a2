import Jumbox.Library.Layout
import Jumbox.Library.Transition
import Jumbox.Storage.Chunks

/-!
# Concurrent `append_chunk` calls

Calls on one item, each in two steps: the size check, and the write in the
worker thread. Between the two another call may write. A write whose call has
been overtaken so lands behind its claimed offset.
-/

namespace Jumbox

namespace ChunkRace

/-- The arguments of one `append_chunk` call on the item. -/
structure Request where
  data : Bytes
  offset : ℤ

inductive Phase where
  | waiting
  /-- The check has passed; `overtaken` records whether another call has written
  bytes since. -/
  | checked (currentSize : ℕ) (overtaken : Bool)
  | returned (newOffset : ℕ)
  | raised (e : Error)
deriving DecidableEq

structure State (ι : Type) where
  files : Files
  phase : ι → Phase

inductive Step (ι : Type) where
  | check (i : ι)
  | write (i : ι) (now : ℤ)

variable {ι : Type} [DecidableEq ι]

/-- What a write of another call does to a call: it overtakes the ones between
their two steps. -/
def overtake (data : Bytes) : Phase → Phase
  | .checked n overtaken => .checked n (overtaken || data ≠ [])
  | phase => phase

/-- The calls `requests` on the item `itemId` of `sessionId`. -/
def system (d : Deployment) (sessionId itemId : Uuid) (requests : ι → Request) :
    System (State ι) (Step ι) where
  step s
    | .check i =>
        match s.phase i with
        | .waiting =>
            let phase :=
              match ChunkStorage.checkOffset d s.files sessionId itemId (requests i).offset with
              | .error e => .raised e
              | .ok currentSize => .checked currentSize false
            some { s with phase := Function.update s.phase i phase }
        | _ => none
    | .write i now =>
        match s.phase i with
        | .checked currentSize _ =>
            let data := (requests i).data
            some {
              files := ChunkStorage.writeChunk d s.files now sessionId itemId data
              phase := Function.update (fun j => overtake data (s.phase j)) i
                (.returned (currentSize + data.length)) }
        | _ => none

/-- No call has started. -/
def start (files : Files) : State ι := ⟨files, fun _ => .waiting⟩

/-- What the part file holds. -/
def part (d : Deployment) (sessionId itemId : Uuid) (s : State ι) : Bytes :=
  s.files.bytes (ChunkStorage.partPath d sessionId itemId)

/-- Where the calls that have returned claim that their chunks are. -/
def placed (requests : ι → Request) (s : State ι) (i : ι) : Option (ℕ × Bytes) :=
  match s.phase i with
  | .returned _ => some ((requests i).offset.toNat, (requests i).data)
  | _ => none

/-- The part file is what was there before and the accepted chunks, each exactly
at its claimed offset. -/
def ExactLayout (d : Deployment) (sessionId itemId : Uuid) (requests : ι → Request)
    (base : Bytes) (s : State ι) : Prop :=
  Layout base (placed requests s) (part d sessionId itemId s) ∧
    ∀ i n, s.phase i = .returned n → 0 ≤ (requests i).offset

/-- The step is no write of bytes by a call that has been overtaken. -/
def InTime (requests : ι → Request) (s : State ι) : Step ι → Prop
  | .check _ => True
  | .write i _ => (requests i).data = [] ∨ ∀ n, s.phase i ≠ .checked n true

/-! ## One call alone -/

/-- The two steps of a call taken back to back are `append_chunk`. -/
theorem check_write_eq_appendChunk {d : Deployment} {sid iid : Uuid} {requests : ι → Request}
    {s s' : State ι} {i : ι} {now : ℤ}
    (hrun : (system d sid iid requests).run s [.check i, .write i now] = some s') :
    ∃ n, s'.phase i = .returned n ∧
      ChunkStorage.appendChunk d s.files now sid iid (requests i).data (requests i).offset =
        (.ok n, s'.files) := by
  obtain ⟨t, ht, hrun⟩ := System.run_cons_eq_some.mp hrun
  obtain ⟨t', ht', hnil⟩ := System.run_cons_eq_some.mp hrun
  cases hnil
  simp only [system] at ht ht'
  cases hphase : s.phase i with
  | waiting =>
      simp only [hphase, Option.some.injEq] at ht
      subst ht
      simp only [Function.update_self] at ht'
      unfold ChunkStorage.appendChunk
      cases hcheck : ChunkStorage.checkOffset d s.files sid iid (requests i).offset with
      | error e =>
          rw [hcheck] at ht'
          cases ht'
      | ok n =>
          rw [hcheck] at ht'
          cases ht'
          exact ⟨_, by simp, rfl⟩
  | _ =>
      rw [hphase] at ht
      cases ht

/-! ## What holds in every interleaving -/

/-- A call that has been checked claims the size it saw; it has been overtaken
exactly if the part file has grown since. -/
def Checked (d : Deployment) (sessionId itemId : Uuid) (requests : ι → Request) (base : Bytes)
    (s : State ι) : Prop :=
  base.length ≤ (part d sessionId itemId s).length ∧
    ∀ i n overtaken, s.phase i = .checked n overtaken →
      (requests i).offset = n ∧ base.length ≤ n ∧ n ≤ (part d sessionId itemId s).length ∧
        (overtaken = true ↔ n < (part d sessionId itemId s).length)

section Steps

variable {d : Deployment} {sid iid : Uuid} {requests : ι → Request} {base : Bytes}
  {s s' : State ι}

/-- What a check does: the files stay, and the call moves on. -/
theorem check_cases {i : ι} (h : (system d sid iid requests).step s (.check i) = some s') :
    s'.files = s.files ∧ (∀ j, j ≠ i → s'.phase j = s.phase j) ∧ s.phase i = .waiting ∧
      ((∃ e, s'.phase i = .raised e) ∨
        s'.phase i = .checked (part d sid iid s).length false ∧
          (requests i).offset = (part d sid iid s).length) := by
  simp only [system] at h
  cases hphase : s.phase i with
  | waiting =>
      simp only [hphase, Option.some.injEq] at h
      subst h
      refine ⟨rfl, fun j hj => Function.update_of_ne hj _ _, rfl, ?_⟩
      simp only [Function.update_self]
      cases hcheck : ChunkStorage.checkOffset d s.files sid iid (requests i).offset with
      | error e => exact Or.inl ⟨e, rfl⟩
      | ok n =>
          obtain ⟨rfl, hoffset⟩ := ChunkStorage.checkOffset_eq_ok.mp hcheck
          rw [Files.size_eq_length] at hoffset ⊢
          exact Or.inr ⟨rfl, hoffset⟩
  | _ =>
      rw [hphase] at h
      cases h

/-- What a write does: the data goes to the end of the part file, the call
returns, and the calls between their steps are overtaken. -/
theorem write_cases {i : ι} {now : ℤ}
    (h : (system d sid iid requests).step s (.write i now) = some s') :
    ∃ n overtaken, s.phase i = .checked n overtaken ∧
      part d sid iid s' = part d sid iid s ++ (requests i).data ∧
      s'.phase i = .returned (n + (requests i).data.length) ∧
      ∀ j, j ≠ i → s'.phase j = overtake (requests i).data (s.phase j) := by
  simp only [system] at h
  cases hphase : s.phase i with
  | checked n overtaken =>
      simp only [hphase, Option.some.injEq] at h
      subst h
      refine ⟨n, overtaken, rfl, ?_, by simp, ?_⟩
      · exact Files.bytes_append_self _ _ _ _
      · intro j hj
        simp [hj]
  | _ =>
      rw [hphase] at h
      cases h

theorem Checked.step {l : Step ι} (h : Checked d sid iid requests base s)
    (hstep : (system d sid iid requests).step s l = some s') :
    Checked d sid iid requests base s' := by
  obtain ⟨hbase, hchecked⟩ := h
  cases l with
  | check i =>
      obtain ⟨hfiles, hother, -, hself⟩ := check_cases hstep
      have hpart : part d sid iid s' = part d sid iid s := by rw [part, part, hfiles]
      refine ⟨hpart ▸ hbase, ?_⟩
      intro j n overtaken hj
      rw [hpart]
      by_cases hji : j = i
      · subst hji
        rcases hself with ⟨e, he⟩ | ⟨hnew, hoffset⟩
        · rw [he] at hj
          cases hj
        · rw [hnew] at hj
          cases hj
          exact ⟨hoffset, hbase, le_refl _, by simp⟩
      · rw [hother j hji] at hj
        exact hchecked j n overtaken hj
  | write i now =>
      obtain ⟨n, overtaken, hphase, hpart, hself, hother⟩ := write_cases hstep
      have hlen : (part d sid iid s').length =
          (part d sid iid s).length + (requests i).data.length := by
        rw [hpart, List.length_append]
      refine ⟨by omega, ?_⟩
      intro j m o hj
      by_cases hji : j = i
      · subst hji
        rw [hself] at hj
        cases hj
      · rw [hother j hji] at hj
        cases hold : s.phase j with
        | checked k p =>
            rw [hold] at hj
            cases hj
            obtain ⟨hoffset, hk, hle, hp⟩ := hchecked j _ _ hold
            refine ⟨hoffset, hk, by omega, ?_⟩
            -- an overtaken call is one that had been, or this write has bytes
            rw [Bool.or_eq_true, hp, decide_eq_true_eq, hlen]
            have hnil : (requests i).data ≠ [] ↔ 0 < (requests i).data.length :=
              List.length_pos_iff.symm
            rw [hnil]
            omega
        | _ =>
            rw [hold] at hj
            cases hj

/-! ## The layout -/

omit [DecidableEq ι] in
theorem placed_eq_none {i : ι} (h : ∀ n, s.phase i ≠ .returned n) : placed requests s i = none := by
  unfold placed
  cases hphase : s.phase i with
  | returned n => exact absurd hphase (h n)
  | waiting => rfl
  | checked n o => rfl
  | raised e => rfl

omit [DecidableEq ι] in
theorem placed_congr {i : ι} (h : ∀ n, s'.phase i = .returned n ↔ s.phase i = .returned n) :
    placed requests s' i = placed requests s i := by
  by_cases hret : ∃ n, s.phase i = .returned n
  · obtain ⟨n, hn⟩ := hret
    rw [placed, placed, hn, (h n).mpr hn]
  · have hno : ∀ n, s.phase i ≠ .returned n := fun n hn => hret ⟨n, hn⟩
    rw [placed_eq_none hno, placed_eq_none fun n hn => hno n ((h n).mp hn)]

theorem overtake_returned (data : Bytes) (phase : Phase) (n : ℕ) :
    overtake data phase = .returned n ↔ phase = .returned n := by
  cases phase with
  | waiting => simp [overtake]
  | checked m o => simp [overtake]
  | returned m => simp [overtake]
  | raised e => simp [overtake]

/-- After a write the calls placed are the ones before and the one that wrote. -/
theorem placed_write (requests : ι → Request) {i : ι} {n : ℕ}
    (hself : s'.phase i = .returned n)
    (hother : ∀ j, j ≠ i → s'.phase j = overtake (requests i).data (s.phase j)) (j : ι) :
    placed requests s' j = Function.update (placed requests s) i
      (some ((requests i).offset.toNat, (requests i).data)) j := by
  by_cases hji : j = i
  · subst hji
    rw [Function.update_self, placed, hself]
  · rw [Function.update_of_ne hji]
    refine placed_congr fun n => ?_
    rw [hother j hji]
    exact overtake_returned _ _ n

/-- Where the layout is exact, a step keeps it so exactly when it is in time. -/
theorem exactLayout_step {l : Step ι} (hchecked : Checked d sid iid requests base s)
    (h : ExactLayout d sid iid requests base s)
    (hstep : (system d sid iid requests).step s l = some s') :
    ExactLayout d sid iid requests base s' ↔ InTime requests s l := by
  cases l with
  | check i =>
      obtain ⟨hfiles, hother, hwaiting, hself⟩ := check_cases hstep
      have hreturned : ∀ j n, s'.phase j = .returned n ↔ s.phase j = .returned n := by
        intro j n
        by_cases hji : j = i
        · subst hji
          rw [hwaiting]
          rcases hself with ⟨e, he⟩ | ⟨he, -⟩
          · simp [he]
          · simp [he]
        · rw [hother j hji]
      refine ⟨fun _ => trivial, fun _ => ⟨?_, ?_⟩⟩
      · rw [part, hfiles]
        exact h.1.congr fun j => placed_congr (hreturned j)
      · intro j n hj
        exact h.2 j n ((hreturned j n).mp hj)
  | write i now =>
      obtain ⟨n, overtaken, hphase, hpart, hself, hother⟩ := write_cases hstep
      obtain ⟨hoffset, hbase, hle, hgrown⟩ := hchecked.2 i n overtaken hphase
      have hnone : placed requests s i = none := by
        refine placed_eq_none fun m hm => ?_
        rw [hphase] at hm
        cases hm
      have htoNat : (requests i).offset.toNat = n := by omega
      have hplaced := placed_write requests hself hother
      rw [htoNat] at hplaced
      have hnonneg : ∀ j m, s'.phase j = .returned m → 0 ≤ (requests j).offset := by
        intro j m hj
        by_cases hji : j = i
        · subst hji
          omega
        · rw [hother j hji, overtake_returned] at hj
          exact h.2 j m hj
      have hiff : ExactLayout d sid iid requests base s' ↔
          Layout base (Function.update (placed requests s) i (some (n, (requests i).data)))
            (part d sid iid s ++ (requests i).data) := by
        rw [ExactLayout, hpart]
        refine ⟨fun hl => hl.1.congr fun j => (hplaced j).symm, fun hl => ⟨?_, hnonneg⟩⟩
        exact hl.congr hplaced
      rw [hiff]
      constructor
      · intro hlayout
        by_cases hnil : (requests i).data = []
        · exact Or.inl hnil
        · refine Or.inr fun m hm => ?_
          rw [hphase] at hm
          cases hm
          -- overtaken: the claimed offset is already taken
          refine h.1.not_overlap hnone hbase (hgrown.mp rfl) hnil ?_ hlayout
          rw [List.length_append]
          omega
      · rintro (hnil | hintime)
        · rw [hnil, List.append_nil]
          exact h.1.place_nil hnone hle
        · have hsame : n = (part d sid iid s).length := by
            cases overtaken with
            | true => exact absurd hphase (hintime n)
            | false =>
                have hnot : ¬ n < (part d sid iid s).length := fun hlt => by
                  have := hgrown.mpr hlt
                  cases this
                omega
          rw [hsame]
          exact h.1.append hnone _

end Steps

/-- Any number of calls in any order of their steps: the part file is the
accepted chunks at their claimed offsets all along exactly when no call that has
been overtaken writes bytes. -/
theorem exact_layout_iff_in_time (d : Deployment) (sid iid : Uuid) (requests : ι → Request)
    (files : Files) (ls : List (Step ι)) :
    (system d sid iid requests).Always
        (ExactLayout d sid iid requests (part d sid iid (start files : State ι)))
        (start files) ls ↔
      (system d sid iid requests).Guarded (InTime requests) (start files) ls := by
  have hchecked : Checked d sid iid requests (part d sid iid (start files : State ι))
      (start files) := by
    refine ⟨le_refl _, ?_⟩
    intro i n overtaken h
    cases h
  have hlayout : ExactLayout d sid iid requests (part d sid iid (start files : State ι))
      (start files) := by
    refine ⟨Layout.initial _, ?_⟩
    intro i n h
    cases h
  exact System.always_iff_guarded (fun _ _ _ h hstep => Checked.step h hstep)
    (fun _ _ _ hJ hP hstep => exactLayout_step hJ hP hstep) hchecked hlayout

/-- A chunk and its retry, both checked before either is written. -/
def retry : Bool → Request := fun _ => ⟨[7], 0⟩

def retryRun : List (Step Bool) := [.check false, .check true, .write false 0, .write true 0]

theorem runs_retry : ((system .default (Uuid.ofNat 1) (Uuid.ofNat 2) retry).run
    (start fun _ => none) retryRun).isSome = true := by
  decide +kernel

/-- The retry is stored a second time. -/
theorem retry_stored_twice :
    ¬ ∀ (d : Deployment) (sid iid : Uuid) (ι : Type) [DecidableEq ι] (requests : ι → Request)
        (files : Files) (ls : List (Step ι)),
      (system d sid iid requests).Always
        (ExactLayout d sid iid requests (part d sid iid (start files : State ι)))
        (start files) ls := by
  intro h
  have hlast := (h .default (Uuid.ofNat 1) (Uuid.ofNat 2) Bool retry (fun _ => none) retryRun).last
    (Option.some_get runs_retry).symm
  obtain ⟨i, -, hunique⟩ := hlast.1.once 0 (by decide +kernel) (by decide +kernel)
  have hfirst := hunique false ⟨0, [7], by decide +kernel, by decide, by decide⟩
  have hsecond := hunique true ⟨0, [7], by decide +kernel, by decide, by decide⟩
  exact absurd (hfirst.trans hsecond.symm) (by decide)

end ChunkRace

end Jumbox
