import Mathlib.Logic.Basic

/-!
# Labelled transition systems and their runs

A system is a partial step function: `step s l = none` says that the step
labelled `l` cannot be taken in `s`. A run is a list of labels taken one after
the other. The three predicates below are the ones a verification states about
runs: a state property that holds all along (`Always`), a guard every step
taken meets (`Guarded`), and the states that can be reached at all
(`Reachable`).
-/

namespace Jumbox

universe u v

structure System (σ : Type u) (ℓ : Type v) where
  step : σ → ℓ → Option σ

namespace System

variable {σ : Type u} {ℓ : Type v} (S : System σ ℓ)

/-- The state a list of steps leads to, if each of them can be taken. -/
def run : σ → List ℓ → Option σ
  | s, [] => some s
  | s, l :: ls => (S.step s l).bind fun s' => run s' ls

/-- `P` holds in the first state and after every step of the run. -/
def Always (P : σ → Prop) : σ → List ℓ → Prop
  | s, [] => P s
  | s, l :: ls => P s ∧ ∀ s', S.step s l = some s' → Always P s' ls

/-- Every step the run takes meets `G` in the state it is taken in. -/
def Guarded (G : σ → ℓ → Prop) : σ → List ℓ → Prop
  | _, [] => True
  | s, l :: ls => ∀ s', S.step s l = some s' → G s l ∧ Guarded G s' ls

instance decidableAlways {P : σ → Prop} [DecidablePred P] :
    (s : σ) → (ls : List ℓ) → Decidable (S.Always P s ls)
  | s, [] => inferInstanceAs (Decidable (P s))
  | s, l :: ls =>
      match h : S.step s l with
      | none => decidable_of_iff (P s) ⟨fun hp => ⟨hp, by simp [h]⟩, And.left⟩
      | some s' =>
          haveI := decidableAlways (P := P) s' ls
          decidable_of_iff (P s ∧ S.Always P s' ls) (by simp [Always, h])

instance decidableGuarded {G : σ → ℓ → Prop} [∀ s l, Decidable (G s l)] :
    (s : σ) → (ls : List ℓ) → Decidable (S.Guarded G s ls)
  | _, [] => .isTrue trivial
  | s, l :: ls =>
      match h : S.step s l with
      | none => .isTrue (by simp [Guarded, h])
      | some s' =>
          haveI := decidableGuarded (G := G) s' ls
          decidable_of_iff (G s l ∧ S.Guarded G s' ls) (by simp [Guarded, h])

/-- The states some run from `init` leads to. -/
inductive Reachable (init : σ → Prop) : σ → Prop where
  | start {s : σ} : init s → Reachable init s
  | step {s s' : σ} (l : ℓ) : Reachable init s → S.step s l = some s' → Reachable init s'

variable {S}

@[simp] theorem run_nil (s : σ) : S.run s [] = some s := rfl

theorem run_cons_eq_some {s s'' : σ} {l : ℓ} {ls : List ℓ} :
    S.run s (l :: ls) = some s'' ↔ ∃ s', S.step s l = some s' ∧ S.run s' ls = some s'' := by
  simp [run, Option.bind_eq_some_iff]

theorem run_append {s s'' : σ} {ls ms : List ℓ} :
    S.run s (ls ++ ms) = some s'' ↔ ∃ s', S.run s ls = some s' ∧ S.run s' ms = some s'' := by
  induction ls generalizing s with
  | nil => simp
  | cons l ls ih =>
      simp only [List.cons_append, run_cons_eq_some, ih]
      constructor
      · rintro ⟨a, ha, b, hb, hc⟩
        exact ⟨b, ⟨a, ha, hb⟩, hc⟩
      · rintro ⟨b, ⟨a, ha, hb⟩, hc⟩
        exact ⟨a, ha, b, hb, hc⟩

/-- The last step of a run. -/
theorem run_snoc_eq_some {s s'' : σ} {ls : List ℓ} {l : ℓ} :
    S.run s (ls ++ [l]) = some s'' ↔ ∃ s', S.run s ls = some s' ∧ S.step s' l = some s'' := by
  simp only [run_append, run_cons_eq_some, run_nil, Option.some.injEq, exists_eq_right]

/-- The first `n` labels of an endless script. -/
def firsts (f : Nat → ℓ) (n : Nat) : List ℓ := (List.range n).map f

theorem run_firsts_succ {f : Nat → ℓ} {n : Nat} {s s'' : σ} :
    S.run s (firsts f (n + 1)) = some s'' ↔
      ∃ s', S.run s (firsts f n) = some s' ∧ S.step s' (f n) = some s'' := by
  rw [firsts, List.range_succ, List.map_append]
  exact run_snoc_eq_some

/-- A script that can be followed can be followed part of the way. -/
theorem run_firsts_of_le {f : Nat → ℓ} {s s'' : σ} {n k : Nat} (hle : k ≤ n)
    (hrun : S.run s (firsts f n) = some s'') : ∃ s', S.run s (firsts f k) = some s' := by
  induction hle generalizing s'' with
  | refl => exact ⟨s'', hrun⟩
  | step _ ih =>
      obtain ⟨s', hs', -⟩ := run_firsts_succ.mp hrun
      exact ih hs'

/-- A measure that every step of the script makes smaller, as long as the goal is
not reached and the script can go on, leads to the goal. -/
theorem reaches_of_decreasing {f : Nat → ℓ} {s₀ : σ} {I P : σ → Prop} (rank : σ → Nat)
    (hstart : I s₀)
    (hstep : ∀ n s, S.run s₀ (firsts f n) = some s → I s → ¬ P s →
      ∃ t, S.step s (f n) = some t ∧ I t ∧ rank t < rank s) :
    ∃ n t, S.run s₀ (firsts f n) = some t ∧ I t ∧ P t := by
  have key : ∀ k n s, rank s = k → S.run s₀ (firsts f n) = some s → I s →
      ∃ n t, S.run s₀ (firsts f n) = some t ∧ I t ∧ P t := by
    intro k
    induction k using Nat.strongRecOn with
    | ind k ih =>
        rintro n s rfl hrun hI
        by_cases hP : P s
        · exact ⟨n, s, hrun, hI, hP⟩
        · obtain ⟨t, ht, hIt, hless⟩ := hstep n s hrun hI hP
          exact ih (rank t) hless (n + 1) t rfl (run_firsts_succ.mpr ⟨s, hrun, ht⟩) hIt
  exact key (rank s₀) 0 s₀ rfl rfl hstart

theorem Always.head {P : σ → Prop} {s : σ} {ls : List ℓ} (h : S.Always P s ls) : P s := by
  cases ls with
  | nil => exact h
  | cons l ls => exact h.1

/-- A property that holds all along holds after every prefix of the run. -/
theorem always_iff {P : σ → Prop} {s : σ} {ls : List ℓ} :
    S.Always P s ls ↔
      ∀ pre post s', ls = pre ++ post → S.run s pre = some s' → P s' := by
  induction ls generalizing s with
  | nil =>
      constructor
      · rintro h pre post s' hsplit hrun
        obtain ⟨rfl, rfl⟩ := List.append_eq_nil_iff.mp hsplit.symm
        cases hrun
        exact h
      · intro h
        exact h [] [] s rfl rfl
  | cons l ls ih =>
      constructor
      · rintro ⟨hp, htail⟩ pre post s' hsplit hrun
        cases pre with
        | nil => cases hrun; exact hp
        | cons m pre =>
            obtain ⟨rfl, rfl⟩ := List.cons.inj hsplit
            obtain ⟨t, ht, hrun⟩ := run_cons_eq_some.mp hrun
            exact ih.mp (htail t ht) pre post s' rfl hrun
      · intro h
        refine ⟨h [] (l :: ls) s rfl rfl, ?_⟩
        intro t ht
        refine ih.mpr ?_
        rintro pre post s' rfl hrun
        exact h (l :: pre) post s' rfl (run_cons_eq_some.mpr ⟨t, ht, hrun⟩)

theorem Always.last {P : σ → Prop} {s s' : σ} {ls : List ℓ}
    (h : S.Always P s ls) (hrun : S.run s ls = some s') : P s' :=
  always_iff.mp h ls [] s' (by simp) hrun

theorem Always.mono {P Q : σ → Prop} (hpq : ∀ s, P s → Q s) {s : σ} {ls : List ℓ}
    (h : S.Always P s ls) : S.Always Q s ls := by
  rw [always_iff] at h ⊢
  exact fun pre post s' hsplit hrun => hpq s' (h pre post s' hsplit hrun)

/-- A run that meets its guard keeps every invariant the guarded steps keep. -/
theorem always_of_guarded {I : σ → Prop} {G : σ → ℓ → Prop}
    (hstep : ∀ s l s', I s → G s l → S.step s l = some s' → I s')
    {s : σ} {ls : List ℓ} (hs : I s) (hg : S.Guarded G s ls) : S.Always I s ls := by
  induction ls generalizing s with
  | nil => exact hs
  | cons l ls ih =>
      refine ⟨hs, ?_⟩
      intro s' h
      obtain ⟨hl, htail⟩ := hg s' h
      exact ih (hstep s l s' hs hl h) htail

/-- What every step keeps holds all along. -/
theorem always_of_invariant {I : σ → Prop} (hstep : ∀ s l s', I s → S.step s l = some s' → I s')
    {s : σ} (hs : I s) (ls : List ℓ) : S.Always I s ls := by
  induction ls generalizing s with
  | nil => exact hs
  | cons l ls ih => exact ⟨hs, fun s' h => ih (hstep s l s' hs h)⟩

/-- What every step of a kind keeps holds after a run of such steps. -/
theorem holds_of_run {P : σ → Prop} {K : ℓ → Prop}
    (hstep : ∀ s l s', P s → K l → S.step s l = some s' → P s')
    {s s' : σ} {ls : List ℓ} (hs : P s) (hls : ∀ l ∈ ls, K l) (hrun : S.run s ls = some s') :
    P s' := by
  induction ls generalizing s with
  | nil =>
      cases hrun
      exact hs
  | cons l ls ih =>
      obtain ⟨t, ht, hrun⟩ := run_cons_eq_some.mp hrun
      have htail : ∀ m ∈ ls, K m := fun m hm => hls m (List.mem_cons_of_mem l hm)
      exact ih (hstep s l t hs (hls l List.mem_cons_self) ht) htail hrun

/-- What guarded steps between states with `P` keep holds after a run of such steps. -/
theorem holds_of_guarded {I P : σ → Prop} {G : σ → ℓ → Prop}
    (hstep : ∀ s l s', I s → P s → P s' → G s l → S.step s l = some s' → I s')
    {s s' : σ} {ls : List ℓ} (hs : I s) (hP : S.Always P s ls) (hG : S.Guarded G s ls)
    (hrun : S.run s ls = some s') : I s' := by
  induction ls generalizing s with
  | nil =>
      cases hrun
      exact hs
  | cons l ls ih =>
      obtain ⟨t, ht, hrun⟩ := run_cons_eq_some.mp hrun
      obtain ⟨hl, hrest⟩ := hG t ht
      have hPt : S.Always P t ls := hP.2 t ht
      exact ih (hstep s l t hs hP.1 hPt.head hl ht) hPt hrest hrun

/-- If, wherever the invariant `I` holds, a step that keeps the property meets the
guard and a step that meets the guard keeps the invariant, then a run keeps the
property exactly when all its steps meet the guard. -/
theorem always_iff_guarded_of_invariant {I P : σ → Prop} {G : σ → ℓ → Prop}
    (hP : ∀ s, I s → P s)
    (hguard : ∀ s l s', I s → S.step s l = some s' → P s' → G s l)
    (hkeep : ∀ s l s', I s → G s l → S.step s l = some s' → I s')
    {s : σ} {ls : List ℓ} (hs : I s) : S.Always P s ls ↔ S.Guarded G s ls := by
  induction ls generalizing s with
  | nil => exact ⟨fun _ => trivial, fun _ => hP s hs⟩
  | cons l ls ih =>
      constructor
      · rintro ⟨-, htail⟩ s' h
        have hl : G s l := hguard s l s' hs h (htail s' h).head
        exact ⟨hl, (ih (hkeep s l s' hs hl h)).mp (htail s' h)⟩
      · intro hg
        refine ⟨hP s hs, ?_⟩
        intro s' h
        obtain ⟨hl, htail⟩ := hg s' h
        exact (ih (hkeep s l s' hs hl h)).mpr htail

/-- If, wherever the property holds, a step keeps it exactly when the step
meets the guard, then a run keeps it exactly when all its steps do. `J` is what
holds along every run, guarded or not. -/
theorem always_iff_guarded {J P : σ → Prop} {G : σ → ℓ → Prop}
    (hJ : ∀ s l s', J s → S.step s l = some s' → J s')
    (hexact : ∀ s l s', J s → P s → S.step s l = some s' → (P s' ↔ G s l))
    {s : σ} {ls : List ℓ} (hs : J s) (hp : P s) :
    S.Always P s ls ↔ S.Guarded G s ls := by
  apply always_iff_guarded_of_invariant (I := fun s => J s ∧ P s) (fun s h => h.2)
  · intro s l s' h hstep
    exact (hexact s l s' h.1 h.2 hstep).mp
  · intro s l s' h hl hstep
    exact ⟨hJ s l s' h.1 hstep, (hexact s l s' h.1 h.2 hstep).mpr hl⟩
  · exact ⟨hs, hp⟩

/-- Two guards that agree wherever the invariant holds, and keep it, are met by
the same runs. -/
theorem guarded_congr {I : σ → Prop} {G H : σ → ℓ → Prop}
    (hiff : ∀ s l s', I s → S.step s l = some s' → (G s l ↔ H s l))
    (hkeep : ∀ s l s', I s → G s l → S.step s l = some s' → I s')
    {s : σ} {ls : List ℓ} (hs : I s) : S.Guarded G s ls ↔ S.Guarded H s ls := by
  induction ls generalizing s with
  | nil => exact Iff.rfl
  | cons l ls ih =>
      constructor
      · intro hg s' h
        obtain ⟨hl, htail⟩ := hg s' h
        exact ⟨(hiff s l s' hs h).mp hl, (ih (hkeep s l s' hs hl h)).mp htail⟩
      · intro hg s' h
        obtain ⟨hl, htail⟩ := hg s' h
        have hl' : G s l := (hiff s l s' hs h).mpr hl
        exact ⟨hl', (ih (hkeep s l s' hs hl' h)).mpr htail⟩

/-- The guard is met at every step of the run. -/
theorem guarded_iff {G : σ → ℓ → Prop} {s : σ} {ls : List ℓ} :
    S.Guarded G s ls ↔
      ∀ pre l post t t', ls = pre ++ l :: post → S.run s pre = some t → S.step t l = some t' →
        G t l := by
  induction ls generalizing s with
  | nil =>
      constructor
      · intro _ pre l post t t' hsplit
        simp at hsplit
      · exact fun _ => trivial
  | cons l ls ih =>
      constructor
      · rintro hg pre m post t t' hsplit hrun hstep
        cases pre with
        | nil =>
            obtain ⟨rfl, rfl⟩ := List.cons.inj hsplit
            cases hrun
            exact (hg t' hstep).1
        | cons m' pre =>
            obtain ⟨rfl, htl⟩ := List.cons.inj hsplit
            obtain ⟨u, hu, hrun⟩ := run_cons_eq_some.mp hrun
            exact ih.mp (hg u hu).2 pre m post t t' htl hrun hstep
      · intro h s' hstep
        refine ⟨h [] l ls s s' rfl rfl hstep, ih.mpr ?_⟩
        rintro pre m post t t' rfl hrun hstep'
        exact h (l :: pre) m post t t' rfl (run_cons_eq_some.mpr ⟨s', hstep, hrun⟩) hstep'

/-- What comes after a prefix of a guarded run is guarded. -/
theorem Guarded.after {G : σ → ℓ → Prop} {s t : σ} {pre post : List ℓ}
    (h : S.Guarded G s (pre ++ post)) (hrun : S.run s pre = some t) : S.Guarded G t post := by
  rw [guarded_iff] at h ⊢
  rintro pre' l post' u u' rfl hrun' hstep
  exact h (pre ++ pre') l post' u u' (by simp) (run_append.mpr ⟨t, hrun, hrun'⟩) hstep

/-- A relation between the ends of a guarded run, from what it is at one step:
the induction adds steps at the front. -/
theorem related_of_guarded {J : σ → Prop} {G : σ → ℓ → Prop} {R : σ → σ → Prop}
    (hJ : ∀ s l s', J s → S.step s l = some s' → J s')
    (hrefl : ∀ s, J s → R s s)
    (hcons : ∀ s l t u, J s → J t → J u → G s l → S.step s l = some t → R t u → R s u)
    {s u : σ} {ls : List ℓ} (hs : J s) (hg : S.Guarded G s ls) (hrun : S.run s ls = some u) :
    J u ∧ R s u := by
  induction ls generalizing s with
  | nil =>
      cases hrun
      exact ⟨hs, hrefl _ hs⟩
  | cons l ls ih =>
      obtain ⟨t, ht, hrun⟩ := run_cons_eq_some.mp hrun
      obtain ⟨hl, htail⟩ := hg t ht
      obtain ⟨hu, hR⟩ := ih (hJ s l t hs ht) htail hrun
      exact ⟨hu, hcons s l t u hs (hJ s l t hs ht) hu hl ht hR⟩

/-- An invariant of the initial states that every step keeps holds in every
reachable state. -/
theorem Reachable.invariant {init I : σ → Prop}
    (hinit : ∀ s, init s → I s) (hstep : ∀ s l s', I s → S.step s l = some s' → I s')
    {s : σ} (h : S.Reachable init s) : I s := by
  induction h with
  | start h => exact hinit _ h
  | step l _ hs ih => exact hstep _ l _ ih hs

theorem Reachable.run {init : σ → Prop} {s s' : σ} {ls : List ℓ}
    (h : S.Reachable init s) (hrun : S.run s ls = some s') : S.Reachable init s' := by
  induction ls generalizing s with
  | nil => cases hrun; exact h
  | cons l ls ih =>
      obtain ⟨t, ht, hrun⟩ := run_cons_eq_some.mp hrun
      exact ih (h.step l ht) hrun

/-- The state a run that can be taken leads to. -/
theorem Reachable.of_run {init : σ → Prop} {s : σ} {ls : List ℓ} (hs : init s)
    (h : (S.run s ls).isSome) : S.Reachable init ((S.run s ls).get h) :=
  Reachable.run (.start hs) (Option.some_get h).symm

end System

end Jumbox
