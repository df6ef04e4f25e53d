import Mathlib.Data.List.Nodup
import Mathlib.Data.List.Pairwise

/-!
# Unique indexes

A table is a list of rows, and an index sends a row to its entry. A row with a null in an indexed
column has no entry: nulls are distinct from each other, so such a row conflicts with no other one.

An index over a scope that may be null and a name is weaker than its columns suggest. Uniqueness of
the pairs is uniqueness of the entries and, on top of it, uniqueness of the names among the rows
whose scope is null (`unique_scoped_iff`).
-/

namespace Tables

variable {ρ κ σ ν : Type}

/-- No two rows have the same entry in the index. -/
def UniqueIn (entry : ρ → Option κ) (rows : List ρ) : Prop := (rows.filterMap entry).Nodup

instance (entry : ρ → Option κ) (rows : List ρ) [DecidableEq κ] : Decidable (UniqueIn entry rows) :=
  inferInstanceAs (Decidable (rows.filterMap entry).Nodup)

section Unique

variable {entry : ρ → Option κ} {rows rows' : List ρ}

theorem unique_iff_pairwise :
    UniqueIn entry rows ↔ rows.Pairwise fun r r' ↦ ∀ k, entry r = some k → entry r' ≠ some k := by
  rw [UniqueIn, List.Nodup, List.pairwise_filterMap]
  refine List.Pairwise.iff fun r r' ↦ ⟨fun h k hr hr' ↦ h k hr k hr' rfl, ?_⟩
  rintro h k hr k' hr' rfl
  exact h k hr hr'

@[simp] theorem unique_nil : UniqueIn entry [] := List.nodup_nil

theorem UniqueIn.sublist (h : UniqueIn entry rows) (hrows : rows'.Sublist rows) :
    UniqueIn entry rows' :=
  List.Nodup.sublist (hrows.filterMap entry) h

theorem UniqueIn.filter (h : UniqueIn entry rows) (p : ρ → Bool) : UniqueIn entry (rows.filter p) :=
  h.sublist List.filter_sublist

theorem unique_concat {r : ρ} :
    UniqueIn entry (rows ++ [r]) ↔
      UniqueIn entry rows ∧ ∀ k, entry r = some k → ∀ r' ∈ rows, entry r' ≠ some k := by
  rw [unique_iff_pairwise, List.pairwise_append, ← unique_iff_pairwise]
  refine and_congr_right fun _ ↦ ⟨fun h k hr r' hr' hk ↦ ?_, fun h ↦ ⟨?_, fun r' hr' q hq ↦ ?_⟩⟩
  · exact h.2 r' hr' r List.mem_cons_self k hk hr
  · exact List.pairwise_singleton _ r
  · rw [List.mem_singleton.mp hq]
    exact fun k hk hr ↦ h k hr r' hr' hk

theorem unique_map {f : ρ → ρ} (h : ∀ r ∈ rows, entry (f r) = entry r) :
    UniqueIn entry (rows.map f) ↔ UniqueIn entry rows := by
  have hentries : rows.filterMap (entry ∘ f) = rows.filterMap entry :=
    List.filterMap_congr fun r hr ↦ h r hr
  rw [UniqueIn, List.filterMap_map, hentries, UniqueIn]

theorem UniqueIn.map {f : ρ → ρ} (h : UniqueIn entry rows)
    (hf : ∀ r ∈ rows, entry (f r) = none ∨ entry (f r) = entry r) :
    UniqueIn entry (rows.map f) := by
  rw [unique_iff_pairwise] at h ⊢
  refine List.pairwise_map.mpr (h.imp_of_mem fun {r r'} hr hr' hne k hk hk' ↦ ?_)
  rcases hf r hr with hnone | heq
  · simp [hnone] at hk
  · rcases hf r' hr' with hnone' | heq'
    · simp [hnone'] at hk'
    · exact hne k (heq ▸ hk) (heq' ▸ hk')

/-- **A lookup in a unique index has at most one answer**, and the index is unique if that is so. -/
theorem unique_iff_length_le_one [DecidableEq κ] :
    UniqueIn entry rows ↔ ∀ k, (rows.filter (entry · = some k)).length ≤ 1 := by
  rw [UniqueIn, List.nodup_iff_count_le_one]
  refine forall_congr' fun k ↦ ?_
  rw [List.count, List.countP_filterMap, ← List.countP_eq_length_filter]
  have hcount : rows.countP (fun r ↦ ((entry r).map (· == k)).getD false) =
      rows.countP (entry · = some k) := by
    refine List.countP_congr fun r _ ↦ ?_
    rcases entry r with _ | k' <;> simp
  rw [hcount]

end Unique

/-! ## A scope that may be null -/

section Scoped

variable (scope : ρ → Option σ) (name : ρ → ν)

/-- The entry in an index over scope and name. -/
def scopedEntry (r : ρ) : Option (σ × ν) := (scope r).map (·, name r)

/-- The name of a row whose scope is null. -/
def globalName (r : ρ) : Option ν :=
  match scope r with
  | none => some (name r)
  | some _ => none

theorem unique_scoped_iff {rows : List ρ} :
    (rows.map fun r ↦ (scope r, name r)).Nodup ↔
      UniqueIn (scopedEntry scope name) rows ∧ UniqueIn (globalName scope name) rows := by
  rw [unique_iff_pairwise, unique_iff_pairwise, ← List.pairwise_and_iff, List.Nodup,
    List.pairwise_map]
  refine List.Pairwise.iff fun r r' ↦ ?_
  rcases hr : scope r with _ | s <;> rcases hr' : scope r' with _ | s' <;>
    simp [scopedEntry, globalName, hr, hr', eq_comm]

end Scoped

end Tables
