import Jumbox.Library.Table

/-!
# Records backed by a store

A record names a place of a store and describes what is kept there. Nothing
keeps two records from naming one place, so a write or a removal for one record
can take the content of another from under it. The three rules say exactly when
it does: for an overwritten place, for removed places, and for a new record.
-/

namespace Jumbox

universe u v w

/-- Where a record is kept, and which contents it is true of. -/
structure Backing (ρ : Type u) (κ : Type v) (β : Type w) where
  place : ρ → Option κ
  describes : ρ → β → Prop

namespace Backing

variable {ρ : Type u} {κ : Type v} {β : Type w} (B : Backing ρ κ β)

/-- The record names a place, and describes what is there. -/
def Holds (store : κ → Option β) (r : ρ) : Prop :=
  ∃ k b, B.place r = some k ∧ store k = some b ∧ B.describes r b

def Intact (store : κ → Option β) (rows : List ρ) : Prop := ∀ r ∈ rows, B.Holds store r

variable {B} {store store' : κ → Option β} {rows : List ρ}

/-- Nothing has changed where the records are kept. -/
theorem Intact.congr (h : B.Intact store rows)
    (hsame : ∀ r ∈ rows, ∀ k, B.place r = some k → store' k = store k) : B.Intact store' rows := by
  intro r hr
  obtain ⟨k, b, hk, hb, hd⟩ := h r hr
  exact ⟨k, b, hk, (hsame r hr k hk).trans hb, hd⟩

/-- Overwriting a place is harmless exactly if the records kept there describe
the new content as well. -/
theorem Intact.overwrite_iff (h : B.Intact store rows) {k : κ} {b : β} (hk : store' k = some b)
    (hsame : ∀ r ∈ rows, ∀ q, B.place r = some q → q ≠ k → store' q = store q) :
    B.Intact store' rows ↔ ∀ r ∈ rows, B.place r = some k → B.describes r b := by
  constructor
  · intro h' r hr hplace
    obtain ⟨q, c, hq, hc, hd⟩ := h' r hr
    rw [hplace] at hq
    cases hq
    rw [hk] at hc
    cases hc
    exact hd
  · intro hnew r hr
    obtain ⟨q, c, hq, hc, hd⟩ := h r hr
    by_cases hqk : q = k
    · subst hqk
      exact ⟨q, b, hq, hk, hnew r hr hq⟩
    · exact ⟨q, c, hq, (hsame r hr q hq hqk).trans hc, hd⟩

/-- Removing places is harmless exactly if no record is kept there. -/
theorem Intact.remove_iff (h : B.Intact store rows) {gone : κ → Prop}
    (hgone : ∀ k, gone k → store' k = none) (hsame : ∀ k, ¬ gone k → store' k = store k) :
    B.Intact store' rows ↔ ∀ r ∈ rows, ∀ k, B.place r = some k → ¬ gone k := by
  constructor
  · intro h' r hr k hplace hk
    obtain ⟨q, c, hq, hc, -⟩ := h' r hr
    rw [hplace] at hq
    cases hq
    rw [hgone k hk] at hc
    cases hc
  · intro hfree
    exact h.congr fun r hr k hk => hsame k (hfree r hr k hk)

section Tables

variable {ι : Type*} [DecidableEq ι] {key : ρ → ι} {t : Table key}

/-- A record under a key of its own. -/
theorem intact_put_of_new (B : Backing ρ κ β) (store : κ → Option β) {r : ρ}
    (hnew : ∀ x ∈ t.rows, key x ≠ key r) :
    B.Intact store (t.put r).rows ↔ B.Intact store t.rows ∧ B.Holds store r := by
  constructor
  · intro h
    refine ⟨?_, h r (Table.mem_put.mpr (Or.inl rfl))⟩
    intro x hx
    exact h x (Table.mem_put.mpr (Or.inr ⟨hx, hnew x hx⟩))
  · rintro ⟨h, hr⟩ x hx
    rcases Table.mem_put.mp hx with rfl | ⟨hx, -⟩
    · exact hr
    · exact h x hx

/-- A record rewritten in place. -/
theorem Intact.put (h : B.Intact store t.rows) {r : ρ} (hr : B.Holds store r) :
    B.Intact store (t.put r).rows := by
  intro x hx
  rcases Table.mem_put.mp hx with rfl | ⟨hx, -⟩
  · exact hr
  · exact h x hx

end Tables

end Backing

end Jumbox
