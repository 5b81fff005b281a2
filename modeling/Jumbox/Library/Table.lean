import Mathlib.Data.List.Nodup
import Mathlib.Data.List.Basic

/-!
# Tables with a primary key

A table is a list of rows no two of which share a key, so that the primary key
constraint is part of the type. `put` is an upsert: it replaces the row with the
same key in place, or appends. Everything later proofs need is in `mem_put`,
`get?_put` and the two facts about `eraseWhere`.
-/

namespace Jumbox

universe u v

@[ext]
structure Table {ρ : Type u} {κ : Type v} (key : ρ → κ) where
  rows : List ρ
  nodup : (rows.map key).Nodup

namespace Table

variable {ρ : Type u} {κ : Type v} {key : ρ → κ}

def empty : Table key := ⟨[], by simp⟩

theorem eq_of_mem {t : Table key} {x y : ρ} (hx : x ∈ t.rows) (hy : y ∈ t.rows)
    (h : key x = key y) : x = y :=
  List.inj_on_of_nodup_map t.nodup hx hy h

/-- The rows that fail `p`. -/
def eraseWhere (t : Table key) (p : ρ → Bool) : Table key :=
  ⟨t.rows.filter (!p ·), (List.filter_sublist.map key).nodup t.nodup⟩

@[simp] theorem mem_eraseWhere {t : Table key} {p : ρ → Bool} {x : ρ} :
    x ∈ (t.eraseWhere p).rows ↔ x ∈ t.rows ∧ p x = false := by
  simp [eraseWhere]

variable [DecidableEq κ]

def get? (t : Table key) (k : κ) : Option ρ :=
  t.rows.find? (key · = k)

theorem get?_eq_some {t : Table key} {k : κ} {x : ρ} :
    t.get? k = some x ↔ x ∈ t.rows ∧ key x = k := by
  constructor
  · intro h
    exact ⟨List.mem_of_find?_eq_some h, by simpa using List.find?_some h⟩
  · rintro ⟨hx, rfl⟩
    have hsome : (t.get? (key x)).isSome := by
      rw [get?, List.find?_isSome]
      exact ⟨x, hx, by simp⟩
    obtain ⟨y, hy⟩ := Option.isSome_iff_exists.mp hsome
    have hkey : key y = key x := by simpa using List.find?_some hy
    rw [hy, eq_of_mem (List.mem_of_find?_eq_some hy) hx hkey]

theorem get?_mem {t : Table key} {k : κ} {x : ρ} (h : t.get? k = some x) : x ∈ t.rows :=
  (get?_eq_some.mp h).1

theorem get?_key {t : Table key} {k : κ} {x : ρ} (h : t.get? k = some x) : key x = k :=
  (get?_eq_some.mp h).2

theorem get?_of_mem {t : Table key} {x : ρ} (h : x ∈ t.rows) : t.get? (key x) = some x :=
  get?_eq_some.mpr ⟨h, rfl⟩

/-- Replace the row that has `r`'s key, or append `r`. -/
def put (t : Table key) (r : ρ) : Table key where
  rows :=
    if key r ∈ t.rows.map key then t.rows.map fun x => if key x = key r then r else x
    else t.rows ++ [r]
  nodup := by
    split
    · rename_i h
      have hkeys : (t.rows.map fun x => if key x = key r then r else x).map key =
          t.rows.map key := by
        rw [List.map_map]
        refine List.map_congr_left fun x _ => ?_
        simp only [Function.comp]
        split
        · rename_i heq
          exact heq.symm
        · rfl
      rw [hkeys]
      exact t.nodup
    · rename_i h
      rw [List.map_append, List.map_singleton]
      exact List.nodup_append.mpr ⟨t.nodup, by simp, by
        intro a ha b hb
        simp only [List.mem_singleton] at hb
        subst hb
        exact fun heq => h (heq ▸ ha)⟩

@[simp] theorem mem_put {t : Table key} {r x : ρ} :
    x ∈ (t.put r).rows ↔ x = r ∨ (x ∈ t.rows ∧ key x ≠ key r) := by
  unfold put
  by_cases h : key r ∈ t.rows.map key
  · simp only [h, if_true, List.mem_map]
    constructor
    · rintro ⟨y, hy, rfl⟩
      by_cases heq : key y = key r
      · simp [heq]
      · simp [heq, hy]
    · rintro (rfl | ⟨hx, hne⟩)
      · obtain ⟨y, hy, heq⟩ := List.mem_map.mp h
        exact ⟨y, hy, by simp [heq]⟩
      · exact ⟨x, hx, by simp [hne]⟩
  · simp only [h, if_false, List.mem_append, List.mem_singleton]
    constructor
    · rintro (hx | rfl)
      · exact Or.inr ⟨hx, fun heq => h (List.mem_map.mpr ⟨x, hx, heq⟩)⟩
      · exact Or.inl rfl
    · rintro (rfl | ⟨hx, -⟩)
      · exact Or.inr rfl
      · exact Or.inl hx

theorem eq_of_mem_put {t : Table key} {r x : ρ} (hx : x ∈ (t.put r).rows) (h : key x = key r) :
    x = r :=
  eq_of_mem hx (mem_put.mpr (Or.inl rfl)) h

/-- Writing changes nothing exactly if the row is there as it is written. -/
theorem rows_put_eq_iff {t : Table key} {r : ρ} : (t.put r).rows = t.rows ↔ r ∈ t.rows := by
  constructor
  · intro h
    rw [← h]
    exact mem_put.mpr (Or.inl rfl)
  · intro hr
    show (if key r ∈ t.rows.map key then t.rows.map fun x => if key x = key r then r else x
      else t.rows ++ [r]) = t.rows
    rw [if_pos (List.mem_map_of_mem hr)]
    conv => rhs; rw [← List.map_id t.rows]
    apply List.map_congr_left
    intro x hx
    split
    · rename_i hkey
      exact eq_of_mem hr hx hkey.symm
    · rfl

/-- A write is seen under its own key only. -/
theorem mem_put_of_ne {t : Table key} {r x : ρ} (h : key x ≠ key r) :
    x ∈ (t.put r).rows ↔ x ∈ t.rows := by
  rw [mem_put]
  constructor
  · rintro (rfl | ⟨hx, -⟩)
    · exact absurd rfl h
    · exact hx
  · intro hx
    exact Or.inr ⟨hx, h⟩

theorem get?_put (t : Table key) (r : ρ) (k : κ) :
    (t.put r).get? k = if k = key r then some r else t.get? k := by
  split
  · rename_i h
    exact get?_eq_some.mpr ⟨mem_put.mpr (Or.inl rfl), h.symm⟩
  · rename_i h
    ext x
    simp only [get?_eq_some, mem_put]
    constructor
    · rintro ⟨rfl | ⟨hx, -⟩, hk⟩
      · exact absurd hk.symm h
      · exact ⟨hx, hk⟩
    · rintro ⟨hx, rfl⟩
      exact ⟨Or.inr ⟨hx, h⟩, rfl⟩

@[simp] theorem get?_put_self (t : Table key) (r : ρ) : (t.put r).get? (key r) = some r := by
  simp [get?_put]

/-- The second of two writes under one key is the one that counts. -/
theorem put_put {t : Table key} {a b : ρ} (h : key a = key b) : (t.put a).put b = t.put b := by
  apply Table.ext
  have hmem : key b ∈ (t.put a).rows.map key :=
    List.mem_map.mpr ⟨a, mem_put.mpr (Or.inl rfl), h⟩
  show (if key b ∈ (t.put a).rows.map key then _ else _) =
    if key b ∈ t.rows.map key then _ else _
  rw [if_pos hmem]
  unfold put
  by_cases hb : key b ∈ t.rows.map key
  · simp only [h, hb, if_true, List.map_map]
    refine List.map_congr_left fun x _ => ?_
    by_cases hx : key x = key b
    · simp [hx, h]
    · simp [hx]
  · simp only [h, hb, if_false, List.map_append, List.map_singleton, if_true]
    congr 1
    conv => rhs; rw [← List.map_id t.rows]
    refine List.map_congr_left fun x hx => ?_
    rw [if_neg fun heq => hb (List.mem_map.mpr ⟨x, hx, heq⟩), id]

/-- Writing back the row a table already holds changes nothing. -/
theorem put_of_mem {t : Table key} {r : ρ} (h : r ∈ t.rows) : t.put r = t := by
  apply Table.ext
  show (if key r ∈ t.rows.map key then _ else _) = t.rows
  rw [if_pos (List.mem_map.mpr ⟨r, h, rfl⟩)]
  conv => rhs; rw [← List.map_id t.rows]
  refine List.map_congr_left fun x hx => ?_
  split
  · rename_i heq
    exact (eq_of_mem hx h heq).symm
  · rfl

end Table

end Jumbox
