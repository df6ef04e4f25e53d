import Mathlib.Algebra.BigOperators.Group.Finset.Sigma
import Mathlib.Algebra.Order.BigOperators.Group.Finset
import Mathlib.Data.Fintype.BigOperators
import Mathlib.Data.Finset.Density
import Mathlib.Data.Finset.Powerset
import Mathlib.Tactic.FieldSimp
import Mathlib.Tactic.Ring

/-!
# Collisions by counting

How many ways there are to draw some values whose images under a map are not all different, if no
image has more than so many preimages: at most a pair's worth for each pair. What share of the draws
that is (`dens_collisions_le`) is a probability where all draws are equally likely.
-/

namespace Counting

open Finset

variable {α β ι : Type*} [Fintype α] [DecidableEq α] [DecidableEq β] [Fintype ι] [DecidableEq ι]

/-- The draws in which two given draws have the same image: all draws but the first are free, and
the first is a preimage. -/
theorem card_pair_le (g : α → β) {m : ℕ} (hg : ∀ b, #{a | g a = b} ≤ m) {i j : ι} (hij : i ≠ j) :
    #{f : ι → α | g (f i) = g (f j)} ≤ m * Fintype.card α ^ (Fintype.card ι - 1) := by
  -- a draw, but for the first value
  let rest : (ι → α) → {l // l ≠ i} → α := fun f l ↦ f l
  have hfibre : ∀ h ∈ ({f : ι → α | g (f i) = g (f j)} : Finset (ι → α)).image rest,
      #{f ∈ ({f : ι → α | g (f i) = g (f j)} : Finset (ι → α)) | rest f = h} ≤ m := by
    intro h _
    refine (card_le_card_of_injOn (fun f ↦ f i) (t := {a | g a = g (h ⟨j, hij.symm⟩)}) ?_ ?_).trans
      (hg _)
    · intro f hf
      obtain ⟨hpair, rfl⟩ := mem_filter.mp (mem_coe.mp hf)
      exact mem_filter.mpr ⟨mem_univ _, (mem_filter.mp hpair).2⟩
    · intro f hf f' hf' heq
      funext l
      by_cases hl : l = i
      · exact hl ▸ heq
      · have hrest :=
          (mem_filter.mp (mem_coe.mp hf)).2.trans (mem_filter.mp (mem_coe.mp hf')).2.symm
        exact congrFun hrest ⟨l, hl⟩
  have himage : #(({f : ι → α | g (f i) = g (f j)} : Finset (ι → α)).image rest) ≤
      Fintype.card α ^ (Fintype.card ι - 1) := by
    refine (card_le_univ _).trans (le_of_eq ?_)
    rw [Fintype.card_fun]
    congr 1
    exact Set.card_ne_eq i
  exact (card_le_mul_card_image _ m hfibre).trans (Nat.mul_le_mul_left _ himage)

/-- **The collision bound.** For each pair of draws there are so many ways for them to collide. -/
theorem card_collisions_le (g : α → β) {m : ℕ} (hg : ∀ b, #{a | g a = b} ≤ m) :
    #{f : ι → α | ¬Function.Injective (g ∘ f)} ≤
      (Fintype.card ι).choose 2 * (m * Fintype.card α ^ (Fintype.card ι - 1)) := by
  have hsub : ({f : ι → α | ¬Function.Injective (g ∘ f)} : Finset (ι → α)) ⊆
      (univ.powersetCard 2).biUnion fun p : Finset ι ↦
        {f | ∃ i ∈ p, ∃ j ∈ p, i ≠ j ∧ g (f i) = g (f j)} := by
    intro f hf
    obtain ⟨i, j, heq, hne⟩ := Function.not_injective_iff.mp (mem_filter.mp hf).2
    refine mem_biUnion.mpr ⟨{i, j}, mem_powersetCard.mpr ⟨subset_univ _, card_pair hne⟩, ?_⟩
    exact mem_filter.mpr ⟨mem_univ _, i, by simp, j, by simp, hne, heq⟩
  refine (card_le_card hsub).trans ?_
  rw [← card_univ, ← card_powersetCard]
  refine card_biUnion_le_card_mul _ _ _ fun p hp ↦ ?_
  obtain ⟨i, j, hij, rfl⟩ := card_eq_two.mp (mem_powersetCard.mp hp).2
  refine (card_le_card fun f hf ↦ ?_).trans (card_pair_le g hg hij)
  refine mem_filter.mpr ⟨mem_univ _, ?_⟩
  obtain ⟨i', hi', j', hj', hne, heq⟩ := (mem_filter.mp hf).2
  rw [mem_insert, mem_singleton] at hi' hj'
  rcases hi' with rfl | rfl <;> rcases hj' with rfl | rfl
  · exact absurd rfl hne
  · exact heq
  · exact heq.symm
  · exact absurd rfl hne

/-- **The collision bound, as a share of the draws.** -/
theorem dens_collisions_le (g : α → β) {m : ℕ} (hg : ∀ b, #{a | g a = b} ≤ m) :
    dens {f : ι → α | ¬Function.Injective (g ∘ f)} ≤
      (Fintype.card ι).choose 2 * (m / Fintype.card α) := by
  rcases isEmpty_or_nonempty α with hα | hα
  · have hempty : ({f : ι → α | ¬Function.Injective (g ∘ f)} : Finset (ι → α)) = ∅ :=
      filter_eq_empty_iff.mpr fun f _ ↦ not_not.mpr fun i ↦ (hα.false (f i)).elim
    simp [hempty]
  rcases Nat.lt_or_ge (Fintype.card ι) 2 with hι | hι
  · have hempty : #{f : ι → α | ¬Function.Injective (g ∘ f)} ≤ 0 := by
      simpa [Nat.choose_eq_zero_of_lt hι] using card_collisions_le (ι := ι) g hg
    simp [dens_eq_card_div_card, Nat.le_zero.mp hempty]
  · obtain ⟨j, hj⟩ := Nat.exists_eq_add_of_le' hι
    have hpos : (0 : ℚ≥0) < Fintype.card α := Nat.cast_pos.mpr Fintype.card_pos
    have hcard : (Fintype.card (ι → α) : ℚ≥0) = Fintype.card α * Fintype.card α ^ (j + 1) := by
      rw [Fintype.card_fun, hj, Nat.cast_pow]
      ring
    rw [dens_eq_card_div_card, hcard, div_le_iff₀ (mul_pos hpos (pow_pos hpos _))]
    calc (#{f : ι → α | ¬Function.Injective (g ∘ f)} : ℚ≥0)
        ≤ (Fintype.card ι).choose 2 * (m * Fintype.card α ^ (Fintype.card ι - 1)) :=
          mod_cast card_collisions_le g hg
      _ = _ := by
        rw [hj, show j + 2 - 1 = j + 1 from rfl]
        field_simp

/-- The share of the pairs where one of two things happens, each of which depends on one component
only. -/
theorem dens_fst_or_snd_le {γ : Type*} [Fintype γ] (p : α → Prop) (q : γ → Prop) [DecidablePred p]
    [DecidablePred q] :
    dens {f : α × γ | p f.1 ∨ q f.2} ≤ dens {a | p a} + dens {c | q c} := by
  have hfst : dens {f : α × γ | p f.1} ≤ dens {a | p a} := by
    have hprod : ({f : α × γ | p f.1} : Finset (α × γ)) = ({a | p a} : Finset α) ×ˢ univ := by
      ext f
      simp
    rw [hprod, dens_eq_card_div_card, dens_eq_card_div_card, card_product, Fintype.card_prod,
      card_univ, Nat.cast_mul, Nat.cast_mul]
    exact mul_div_mul_right_le zero_le
  have hsnd : dens {f : α × γ | q f.2} ≤ dens {c | q c} := by
    have hprod : ({f : α × γ | q f.2} : Finset (α × γ)) = univ ×ˢ ({c | q c} : Finset γ) := by
      ext f
      simp
    rw [hprod, dens_eq_card_div_card, dens_eq_card_div_card, card_product, Fintype.card_prod,
      card_univ, Nat.cast_mul, Nat.cast_mul, mul_comm, mul_comm (Fintype.card α : ℚ≥0)]
    exact mul_div_mul_right_le zero_le
  classical
  rw [filter_or]
  exact (dens_union_le _ _).trans (add_le_add hfst hsnd)

end Counting
