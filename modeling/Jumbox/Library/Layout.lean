import Mathlib.Logic.Function.Basic
import Mathlib.Data.List.Basic

/-!
# Pieces laid out in a log

A log grows by appending. `Layout base placed log` says that the log starts with
`base`, that every placed piece stands where its offset says, and that each
position after `base` belongs to exactly one piece: no piece is missing, out of
place, or there twice.
-/

namespace Jumbox

universe u v

variable {ι : Type u} {α : Type v}

/-- Piece `i` is placed over position `p`. -/
def Covers (placed : ι → Option (ℕ × List α)) (i : ι) (p : ℕ) : Prop :=
  ∃ k xs, placed i = some (k, xs) ∧ k ≤ p ∧ p < k + xs.length

structure Layout (base : List α) (placed : ι → Option (ℕ × List α)) (log : List α) : Prop where
  starts : base <+: log
  stands : ∀ i k xs, placed i = some (k, xs) →
    k + xs.length ≤ log.length ∧ (log.drop k).take xs.length = xs
  once : ∀ p, base.length ≤ p → p < log.length → ∃! i, Covers placed i p

namespace Layout

variable {base log : List α} {placed : ι → Option (ℕ × List α)}

theorem initial (log : List α) : Layout log (fun _ : ι => none) log where
  starts := List.prefix_rfl
  stands _ _ _ h := by cases h
  once p hp hlt := absurd hlt (by omega)

/-- Which pieces are placed matters, not how the map is written. -/
theorem congr {placed' : ι → Option (ℕ × List α)} (h : Layout base placed log)
    (heq : ∀ i, placed' i = placed i) : Layout base placed' log := by
  obtain rfl : placed' = placed := funext heq
  exact h

/-- A placed piece lies inside the log. -/
theorem covers_lt (h : Layout base placed log) {i : ι} {p : ℕ} (hi : Covers placed i p) :
    p < log.length := by
  obtain ⟨k, xs, hk, -, hlt⟩ := hi
  have hlen := (h.stands i k xs hk).1
  omega

variable [DecidableEq ι]

theorem covers_update_self {i : ι} {k p : ℕ} {xs : List α} :
    Covers (Function.update placed i (some (k, xs))) i p ↔ k ≤ p ∧ p < k + xs.length := by
  constructor
  · rintro ⟨k', xs', heq, hle, hlt⟩
    rw [Function.update_self] at heq
    cases heq
    exact ⟨hle, hlt⟩
  · rintro ⟨hle, hlt⟩
    exact ⟨k, xs, Function.update_self .., hle, hlt⟩

theorem covers_update_ne {i j : ι} {p : ℕ} {piece : Option (ℕ × List α)} (h : j ≠ i) :
    Covers (Function.update placed i piece) j p ↔ Covers placed j p := by
  unfold Covers
  rw [Function.update_of_ne h]

/-- A piece appended at the end of the log is laid out. -/
theorem append (h : Layout base placed log) {i : ι} (hi : placed i = none) (xs : List α) :
    Layout base (Function.update placed i (some (log.length, xs))) (log ++ xs) where
  starts := h.starts.trans (List.prefix_append _ _)
  stands := by
    intro j k ys hj
    by_cases hji : j = i
    · subst hji
      rw [Function.update_self] at hj
      cases hj
      simp
    · rw [Function.update_of_ne hji] at hj
      obtain ⟨hlen, hstands⟩ := h.stands j k ys hj
      refine ⟨by simp; omega, ?_⟩
      rw [List.drop_append_of_le_length (by omega), List.take_append_of_le_length, hstands]
      rw [List.length_drop]
      omega
  once := by
    intro p hp hlt
    by_cases hold : p < log.length
    · -- an old position keeps its piece
      obtain ⟨j, hj, hunique⟩ := h.once p hp hold
      have hji : j ≠ i := by
        rintro rfl
        obtain ⟨k, ys, hk, -⟩ := hj
        rw [hi] at hk
        cases hk
      refine ⟨j, (covers_update_ne hji).mpr hj, ?_⟩
      intro j' hj'
      by_cases hj'i : j' = i
      · subst hj'i
        have hin := covers_update_self.mp hj'
        omega
      · exact hunique j' ((covers_update_ne hj'i).mp hj')
    · -- a new one belongs to the new piece
      rw [List.length_append] at hlt
      refine ⟨i, covers_update_self.mpr ⟨by omega, hlt⟩, ?_⟩
      intro j hj
      by_contra hji
      exact hold (h.covers_lt ((covers_update_ne hji).mp hj))

/-- A piece without content can be placed anywhere in the log. -/
theorem place_nil (h : Layout base placed log) {i : ι} (hi : placed i = none) {k : ℕ}
    (hk : k ≤ log.length) : Layout base (Function.update placed i (some (k, []))) log where
  starts := h.starts
  stands := by
    intro j k' ys hj
    by_cases hji : j = i
    · subst hji
      rw [Function.update_self] at hj
      cases hj
      simpa using hk
    · rw [Function.update_of_ne hji] at hj
      exact h.stands j k' ys hj
  once := by
    intro p hp hlt
    obtain ⟨j, hj, hunique⟩ := h.once p hp hlt
    have hji : j ≠ i := by
      rintro rfl
      obtain ⟨k', ys, hk', -⟩ := hj
      rw [hi] at hk'
      cases hk'
    refine ⟨j, (covers_update_ne hji).mpr hj, ?_⟩
    intro j' hj'
    by_cases hj'i : j' = i
    · subst hj'i
      have hin := covers_update_self.mp hj'
      simp at hin
      omega
    · exact hunique j' ((covers_update_ne hj'i).mp hj')

/-- A piece placed over what is already taken spoils the layout, wherever its
bytes went. -/
theorem not_overlap (h : Layout base placed log) {i : ι} (hi : placed i = none) {k : ℕ}
    (hbase : base.length ≤ k) (hk : k < log.length) {xs : List α} (hxs : xs ≠ [])
    {log' : List α} (hlog' : log.length ≤ log'.length) :
    ¬ Layout base (Function.update placed i (some (k, xs))) log' := by
  intro h'
  obtain ⟨j, hj, -⟩ := h.once k hbase hk
  have hji : j ≠ i := by
    rintro rfl
    obtain ⟨k', ys, hk', -⟩ := hj
    rw [hi] at hk'
    cases hk'
  have hpos := List.length_pos_of_ne_nil hxs
  obtain ⟨l, -, hunique⟩ := h'.once k hbase (by omega)
  have hjl := hunique j ((covers_update_ne hji).mpr hj)
  have hil := hunique i (covers_update_self.mpr ⟨Nat.le_refl k, by omega⟩)
  exact hji (hjl.trans hil.symm)

end Layout

end Jumbox
