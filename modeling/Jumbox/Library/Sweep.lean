import Mathlib.Logic.Function.Basic
import Mathlib.Data.List.Basic

/-!
# Removals that stop at the first refusal

A sweep goes through a list of places and empties one after the other. A place
that holds something may refuse to give it up; the sweep ends there, and what it
has taken before stays taken. The two outcomes are told apart by `run_cases`, and
`kept_iff` says when a sweep that was stopped has taken nothing.
-/

namespace Jumbox

universe u v w

namespace Sweep

variable {κ : Type u} {β : Type v} [DecidableEq κ] (refuses : κ → Bool)

/-- The sweep has gone through, or it has been stopped. -/
def run (store : κ → Option β) : List (Option κ) → Bool × (κ → Option β)
  | [] => (true, store)
  | none :: rest => run store rest
  | some k :: rest =>
      if (store k).isSome ∧ refuses k = true then (false, store)
      else run (Function.update store k none) rest

/-- There is something at the place, and it is not given up. -/
def Blocked (store : κ → Option β) (place : Option κ) : Prop :=
  ∃ k, place = some k ∧ (store k).isSome = true ∧ refuses k = true

/-- The store without what is at the places. -/
def without (store : κ → Option β) (places : List (Option κ)) (k : κ) : Option β :=
  if some k ∈ places then none else store k

variable {refuses} {store : κ → Option β}

@[simp] theorem without_nil : without store [] = store := by
  ext1 k
  exact if_neg List.not_mem_nil

@[simp] theorem without_cons_none (places : List (Option κ)) :
    without store (none :: places) = without store places := by
  ext1 k
  simp [without]

theorem without_cons_some (k : κ) (places : List (Option κ)) :
    without store (some k :: places) = without (Function.update store k none) places := by
  ext1 q
  unfold without
  by_cases hq : q = k
  · subst hq
    simp
  · simp [hq]

omit [DecidableEq κ] in
@[simp] theorem not_blocked_none : ¬ Blocked refuses store none := by
  rintro ⟨k, hk, -⟩
  cases hk

theorem without_without_singleton (place : Option κ) (places : List (Option κ)) :
    without (without store [place]) places = without store (place :: places) := by
  cases place with
  | none => rw [without_cons_none, without_nil, without_cons_none]
  | some k => rw [without_cons_some, without_nil, without_cons_some]

/-- A place that is given up does not block another. -/
theorem blocked_without_iff {place : Option κ} (h : ¬ Blocked refuses store place)
    (q : Option κ) : Blocked refuses (without store [place]) q ↔ Blocked refuses store q := by
  constructor
  · rintro ⟨k, rfl, hsome, hrefused⟩
    by_cases hk : some k ∈ [place]
    · rw [without, if_pos hk] at hsome
      cases hsome
    · rw [without, if_neg hk] at hsome
      exact ⟨k, rfl, hsome, hrefused⟩
  · rintro ⟨k, rfl, hsome, hrefused⟩
    have hk : some k ∉ [place] := by
      rw [List.mem_singleton]
      rintro rfl
      exact h ⟨k, rfl, hsome, hrefused⟩
    exact ⟨k, rfl, by rwa [without, if_neg hk], hrefused⟩

theorem run_cons_of_blocked {place : Option κ} (h : Blocked refuses store place)
    (rest : List (Option κ)) : run refuses store (place :: rest) = (false, store) := by
  obtain ⟨k, rfl, hblocked⟩ := h
  exact if_pos hblocked

theorem run_cons_of_free {place : Option κ} (h : ¬ Blocked refuses store place)
    (rest : List (Option κ)) :
    run refuses store (place :: rest) = run refuses (without store [place]) rest := by
  cases place with
  | none => rw [run, without_cons_none, without_nil]
  | some k =>
      have hpass : ¬ ((store k).isSome = true ∧ refuses k = true) := fun hboth => h ⟨k, rfl, hboth⟩
      rw [run, if_neg hpass, without_cons_some, without_nil]

/-- A sweep empties all its places, or those before the first that blocks it. -/
theorem run_cases (refuses : κ → Bool) (store : κ → Option β) (places : List (Option κ)) :
    ((∀ q ∈ places, ¬ Blocked refuses store q) ∧
      run refuses store places = (true, without store places)) ∨
    ∃ pre q post, places = pre ++ q :: post ∧ (∀ q ∈ pre, ¬ Blocked refuses store q) ∧
      Blocked refuses store q ∧ run refuses store places = (false, without store pre) := by
  induction places generalizing store with
  | nil =>
      apply Or.inl
      simp [run]
  | cons place rest ih =>
      by_cases hplace : Blocked refuses store place
      · exact Or.inr ⟨[], place, rest, rfl, by simp, hplace,
          by rw [run_cons_of_blocked hplace, without_nil]⟩
      · -- what is not blocked after the first place was not blocked before it
        have hcons : ∀ {ps : List (Option κ)},
            (∀ q ∈ ps, ¬ Blocked refuses (without store [place]) q) →
              ∀ q ∈ place :: ps, ¬ Blocked refuses store q := by
          intro ps hfree q hq
          rcases List.mem_cons.mp hq with rfl | hq
          · exact hplace
          · exact fun hblocked => hfree q hq ((blocked_without_iff hplace q).mpr hblocked)
        rw [run_cons_of_free hplace]
        rcases ih (without store [place]) with
          ⟨hfree, hrun⟩ | ⟨pre, q, post, rfl, hfree, hblocked, hrun⟩
        · exact Or.inl ⟨hcons hfree, by rw [hrun, without_without_singleton]⟩
        · exact Or.inr ⟨place :: pre, q, post, rfl, hcons hfree,
            (blocked_without_iff hplace q).mp hblocked,
            by rw [hrun, without_without_singleton]⟩

/-- The first place that holds anything blocks the sweep. -/
def HeadBlocked (refuses : κ → Bool) (store : κ → Option β) (places : List (Option κ)) : Prop :=
  ∃ pre q post, places = pre ++ q :: post ∧ (∀ k, some k ∈ pre → store k = none) ∧
    Blocked refuses store q

/-- A sweep that is stopped has taken nothing exactly if it has been stopped at the
first place that holds anything. -/
theorem kept_iff {places : List (Option κ)} (h : (run refuses store places).1 = false) :
    (∀ k, some k ∈ places → (run refuses store places).2 k = store k) ↔
      HeadBlocked refuses store places := by
  rcases run_cases refuses store places with
    ⟨-, hrun⟩ | ⟨pre, q, post, rfl, hfree, hblocked, hrun⟩
  · rw [hrun] at h
    cases h
  · rw [hrun]
    constructor
    · intro hkept
      refine ⟨pre, q, post, rfl, ?_, hblocked⟩
      intro k hk
      rw [← hkept k (List.mem_append_left _ hk)]
      exact if_pos hk
    · rintro ⟨pre', q', post', hsplit, hempty, hblocked'⟩ k -
      show (if some k ∈ pre then none else store k) = store k
      split
      · rename_i hk
        -- the sweep has not come further than the first place that blocks it
        rcases List.append_eq_append_iff.mp hsplit with ⟨as, rfl, -⟩ | ⟨as, rfl, hrest⟩
        · exact (hempty k (List.mem_append_left _ hk)).symm
        · cases as with
          | nil => exact (hempty k (by simpa using hk)).symm
          | cons a as =>
              obtain ⟨rfl, -⟩ := List.cons.inj hrest
              exact absurd hblocked' (hfree _ (by simp))
      · rfl

/-- A sweep goes through exactly if nothing blocks it. -/
theorem run_fst_iff {places : List (Option κ)} :
    (run refuses store places).1 = true ↔ ∀ q ∈ places, ¬ Blocked refuses store q := by
  rcases run_cases refuses store places with ⟨hfree, hrun⟩ | ⟨pre, q, post, rfl, -, hblocked, hrun⟩
  · exact iff_of_true (by rw [hrun]) hfree
  · refine iff_of_false (by rw [hrun]; exact Bool.false_ne_true) ?_
    intro hfree
    exact hfree q (by simp) hblocked

theorem run_snd_of_free {places : List (Option κ)} (h : ∀ q ∈ places, ¬ Blocked refuses store q) :
    (run refuses store places).2 = without store places := by
  rcases run_cases refuses store places with ⟨-, hrun⟩ | ⟨pre, q, post, rfl, -, hblocked, -⟩
  · rw [hrun]
  · exact absurd hblocked (h q (by simp))

/-- A place is as it was, or it has been listed and is empty. -/
theorem run_snd_cases (refuses : κ → Bool) (store : κ → Option β) (places : List (Option κ))
    (k : κ) : (run refuses store places).2 k = store k ∨
      ((run refuses store places).2 k = none ∧ some k ∈ places) := by
  have hwithout : ∀ pre ⊆ places, without store pre k = store k ∨
      (without store pre k = none ∧ some k ∈ places) := by
    intro pre hpre
    by_cases hk : some k ∈ pre
    · exact Or.inr ⟨if_pos hk, hpre hk⟩
    · exact Or.inl (if_neg hk)
  rcases run_cases refuses store places with
    ⟨-, hrun⟩ | ⟨pre, q, post, rfl, -, -, hrun⟩
  · rw [hrun]
    exact hwithout places (List.Subset.refl _)
  · rw [hrun]
    exact hwithout pre (List.subset_append_left _ _)

/-- A sweep does not touch what it does not list, nor bring anything back. -/
theorem run_snd_of_none {places : List (Option κ)} {k : κ}
    (h : some k ∉ places ∨ store k = none) : (run refuses store places).2 k = store k := by
  rcases run_snd_cases refuses store places k with hsame | ⟨hnone, hlisted⟩
  · exact hsame
  · rcases h with hnot | hempty
    · exact absurd hlisted hnot
    · exact hnone.trans hempty.symm

/-- One sweep after another, unless the first is stopped. -/
theorem run_append (refuses : κ → Bool) (store : κ → Option β) (xs ys : List (Option κ)) :
    run refuses store (xs ++ ys) =
      if (run refuses store xs).1 = true then run refuses (run refuses store xs).2 ys
      else run refuses store xs := by
  induction xs generalizing store with
  | nil => rfl
  | cons place rest ih =>
      cases place with
      | none => exact ih store
      | some k =>
          rw [List.cons_append, run, run]
          split
          · rfl
          · exact ih _

/-! ## Names

Records name places. A record that outlives a sweep should find what it names as
it was. -/

/-- What is there and has a name in `names` is there as before. -/
def Keeps (names : κ → Prop) (store store' : κ → Option β) : Prop :=
  ∀ k, names k → (store k).isSome = true → store' k = store k

/-- A sweep that goes through keeps what is named exactly if it lists none of it. -/
theorem keeps_iff_of_free {names : κ → Prop} {places : List (Option κ)}
    (h : ∀ q ∈ places, ¬ Blocked refuses store q) :
    Keeps names store (run refuses store places).2 ↔
      ∀ k, names k → (store k).isSome = true → some k ∉ places := by
  rw [run_snd_of_free h]
  refine forall₃_congr fun k _ hsome => ?_
  unfold without
  by_cases hk : some k ∈ places
  · rw [if_pos hk]
    refine iff_of_false ?_ (not_not.mpr hk)
    intro hnone
    rw [← hnone] at hsome
    cases hsome
  · exact iff_of_true (if_neg hk) hk

/-- A sweep that is stopped, and lists named places only, keeps them exactly if it
has taken nothing. -/
theorem keeps_iff_of_blocked {names : κ → Prop} {places : List (Option κ)}
    (h : (run refuses store places).1 = false) (hnames : ∀ k, some k ∈ places → names k) :
    Keeps names store (run refuses store places).2 ↔ HeadBlocked refuses store places := by
  rw [← kept_iff h]
  constructor
  · intro hkeeps k hk
    cases hsome : (store k).isSome with
    | true => exact hkeeps k (hnames k hk) hsome
    | false =>
        have hnone : store k = none := by simpa using hsome
        exact run_snd_of_none (Or.inr hnone)
  · intro hkept k _ _
    by_cases hk : some k ∈ places
    · exact hkept k hk
    · exact run_snd_of_none (Or.inl hk)

omit [DecidableEq κ] in
/-- Where everything blocks the first place does. -/
theorem headBlocked_of_forall {places : List (Option κ)} (hne : places ≠ [])
    (h : ∀ q ∈ places, Blocked refuses store q) : HeadBlocked refuses store places := by
  obtain ⟨q, rest, rfl⟩ := List.exists_cons_of_ne_nil hne
  refine ⟨[], q, rest, rfl, ?_, h q List.mem_cons_self⟩
  intro k hk
  cases hk

/-! ## Owners

The places a sweep lists are those of the owners that are due. An owner goes when
the sweep goes through; its records are `before` until then, and `after` are those
that are left. -/

variable {ρ : Type w} (due : ρ → Prop) (owns : ρ → Option κ → Prop) {before : κ → Prop}
  (after : κ → Prop) {places : List (Option κ)}

/-- A sweep keeps what is still named, and takes every owner that does not block it,
exactly if nothing blocks and nothing listed has a name left, or every owner that is
due blocks, the first thing that is there with it. -/
theorem handled_iff (hplaces : ∀ q, q ∈ places ↔ ∃ r, due r ∧ owns r q)
    (hbefore : ∀ k, some k ∈ places → before k) :
    (Keeps (if (run refuses store places).1 = true then after else before) store
        (run refuses store places).2 ∧
      ∀ r, due r → (∀ q, owns r q → ¬ Blocked refuses store q) →
        (run refuses store places).1 = true) ↔
    (∀ r, due r → ∀ q, owns r q → ¬ Blocked refuses store q ∧
      ∀ k, q = some k → (store k).isSome = true → ¬ after k) ∨
    ((∀ r, due r → ∃ q, owns r q ∧ Blocked refuses store q) ∧
      HeadBlocked refuses store places) := by
  cases hrun : (run refuses store places).1 with
  | true =>
      have hfree := run_fst_iff.mp hrun
      rw [if_pos rfl, keeps_iff_of_free hfree]
      constructor
      · rintro ⟨hkept, -⟩
        refine Or.inl fun r hr q hq => ?_
        have hlisted := (hplaces q).mpr ⟨r, hr, hq⟩
        refine ⟨hfree q hlisted, ?_⟩
        rintro k rfl hsome hnamed
        exact hkept k hnamed hsome hlisted
      · -- a sweep that has gone through was blocked nowhere, at its first place neither
        intro hsafe
        refine ⟨?_, fun _ _ _ => rfl⟩
        intro k hnamed hsome hlisted
        rcases hsafe with hunnamed | ⟨-, pre, q, post, rfl, -, hblocked⟩
        · obtain ⟨r, hr, hq⟩ := (hplaces _).mp hlisted
          exact (hunnamed r hr _ hq).2 k rfl hsome hnamed
        · exact hfree q (by simp) hblocked
  | false =>
      -- every record stays, and no owner that is due has gone
      rw [if_neg Bool.false_ne_true, keeps_iff_of_blocked hrun hbefore]
      constructor
      · rintro ⟨hhead, hremoved⟩
        refine Or.inr ⟨fun r hr => ?_, hhead⟩
        by_contra hnone
        have hgoes := hremoved r hr fun q hq hblocked => hnone ⟨q, hq, hblocked⟩
        cases hgoes
      · rintro (hunnamed | ⟨hblocked, hhead⟩)
        · have hgoes : (run refuses store places).1 = true := by
            apply run_fst_iff.mpr
            intro q hlisted
            obtain ⟨r, hr, hq⟩ := (hplaces q).mp hlisted
            exact (hunnamed r hr q hq).1
          rw [hrun] at hgoes
          cases hgoes
        · refine ⟨hhead, fun r hr hfree => ?_⟩
          obtain ⟨q, hq, hrefused⟩ := hblocked r hr
          exact absurd hrefused (hfree q hq)

end Sweep

end Jumbox
