import Mathlib.Data.Nat.Init
import Mathlib.Data.Option.Basic
import Mathlib.Order.Basic

/-!
# Drawing again

A bounded search draws until a drawn value is accepted, and fails after its last
draw. `search_forall_iff` says when everything it can return has a property that
is stronger than being accepted.
-/

namespace Jumbox

universe u

namespace Redraw

variable {α : Type u} (accept : α → Bool) (draws : ℕ → α)

/-- `n` draws at most, the first of them being draw `k`. -/
def search : ℕ → ℕ → Option α
  | 0, _ => none
  | n + 1, k => if accept (draws k) then some (draws k) else search n (k + 1)

variable {accept draws}

theorem search_succ_of_accept {n k : ℕ} (h : accept (draws k) = true) :
    search accept draws (n + 1) k = some (draws k) := if_pos h

theorem search_succ_of_not_accept {n k : ℕ} (h : accept (draws k) = false) :
    search accept draws (n + 1) k = search accept draws n (k + 1) := if_neg (by simp [h])

/-- What is returned has the property exactly if no value without it is accepted
before one that has it. -/
theorem search_forall_iff {p : α → Prop} (hp : ∀ a, p a → accept a = true) (n k : ℕ) :
    (∀ a, search accept draws n k = some a → p a) ↔
      ∀ j < n, accept (draws (k + j)) = true → ¬ p (draws (k + j)) →
        ∃ i < j, p (draws (k + i)) := by
  induction n generalizing k with
  | zero => simp [search]
  | succ n ih =>
      rw [Nat.forall_lt_succ_left]
      cases hk : accept (draws k) with
      | true =>
          -- the first draw is returned, and the others are not drawn
          rw [search_succ_of_accept hk]
          constructor
          · intro h
            have hpk : p (draws k) := h _ rfl
            exact ⟨fun _ hnot => absurd hpk hnot, fun j _ _ _ => ⟨0, Nat.succ_pos j, hpk⟩⟩
          · rintro ⟨hfirst, -⟩ a ha
            cases ha
            by_contra hnot
            obtain ⟨i, hi, -⟩ := hfirst rfl hnot
            exact Nat.not_lt_zero i hi
      | false =>
          -- what is not accepted has not the property either
          have hpk : ¬ p (draws k) := by
            intro h
            rw [hp _ h] at hk
            cases hk
          rw [search_succ_of_not_accept hk, ih (k + 1)]
          constructor
          · intro h
            refine ⟨?_, ?_⟩
            · intro haccept
              cases haccept
            · intro j hj haccept hnot
              rw [← Nat.add_assoc, Nat.add_right_comm] at haccept hnot
              obtain ⟨i, hi, hpi⟩ := h j hj haccept hnot
              refine ⟨i + 1, Nat.succ_lt_succ hi, ?_⟩
              rwa [← Nat.add_assoc, Nat.add_right_comm]
          · rintro ⟨-, h⟩ j hj haccept hnot
            rw [Nat.add_right_comm] at haccept hnot
            obtain ⟨i, hi, hpi⟩ := h j hj haccept hnot
            cases i with
            | zero => exact absurd hpi hpk
            | succ i =>
                refine ⟨i, Nat.lt_of_succ_lt_succ hi, ?_⟩
                rwa [Nat.add_right_comm]

/-- Nothing is returned that was not drawn. -/
theorem exists_getD_search_eq (n k last : ℕ) :
    ∃ j, (search accept draws n k).getD (draws last) = draws j := by
  induction n generalizing k with
  | zero => exact ⟨last, rfl⟩
  | succ n ih =>
      rw [search]
      split
      · exact ⟨k, rfl⟩
      · exact ih (k + 1)

/-- A search that keeps the last draw, whatever it is. -/
theorem accept_getD_search_iff (n k : ℕ) :
    accept ((search accept draws n k).getD (draws (k + n))) = true ↔
      ∃ j < n + 1, accept (draws (k + j)) = true := by
  induction n generalizing k with
  | zero => simp [search]
  | succ n ih =>
      rw [Nat.exists_lt_succ_left]
      cases hk : accept (draws k) with
      | true =>
          rw [search_succ_of_accept hk]
          exact iff_of_true hk (Or.inl rfl)
      | false =>
          have hlast : k + (n + 1) = k + 1 + n := by omega
          rw [search_succ_of_not_accept hk, hlast, ih (k + 1)]
          constructor
          · rintro ⟨j, hj, haccept⟩
            refine Or.inr ⟨j, hj, ?_⟩
            rwa [← Nat.add_assoc, Nat.add_right_comm]
          · rintro (hfirst | ⟨j, hj, haccept⟩)
            · cases hfirst
            · refine ⟨j, hj, ?_⟩
              rwa [Nat.add_right_comm]

end Redraw

end Jumbox
