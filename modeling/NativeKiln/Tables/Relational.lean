import Mathlib.Data.List.Perm.Basic
import Mathlib.Data.Prod.Lex
import Mathlib.Logic.Function.Basic
import NativeKiln.Tables.UniqueIndex

/-!
# Tables that refer to each other

A schema gives each table a key, the columns that may not be null, unique indexes, and foreign keys
with what becomes of a row when the row it refers to is deleted. A database is a list of rows, each
of which knows its table.

A `DELETE` takes out rows and leaves a trigger behind for every foreign key that may refer to one of
them. A trigger that fires takes out rows in turn, or clears a column, or refuses the statement, and
nothing is said about the order in which the triggers fire. What makes the outcome the same in every
order is that a trigger carries the key of the deleted row, and that no column serves two foreign
keys: clearing one reference leaves every other one, and every key, as it is.

## The outcome

`Goes` is the least set of rows that has the deleted ones and everything that refers to a row of it
by a cascading key. An accepted `DELETE` leaves exactly the other rows, without the references that
were to be cleared (`outcome_iff`); it is refused in every order when a row that stays refers to one
that goes by a restricting key, and accepted in some order when none does.
-/

namespace Tables

variable {T C V : Type}

/-! ## Schemas -/

/-- What becomes of a row when the row it refers to is deleted. -/
inductive ReferentialAction
  | cascade
  | setNull
  | restrict
  deriving DecidableEq, Repr

/-- The column of the table refers to the key of the target. -/
structure ForeignKey (T C : Type) where
  table : T
  column : C
  target : T
  onDelete : ReferentialAction
  deriving DecidableEq

structure Schema (T C : Type) where
  /-- The primary key of a table. -/
  key : T → C
  notNull : T → List C
  unique : List (T × List C)
  foreignKeys : List (ForeignKey T C)

/-- A row of one of the tables; a column may be null. -/
@[ext] structure Row (T C V : Type) where
  table : T
  value : C → Option V

/-- The row is in the table and has the value. -/
def Row.Has (r : Row T C V) (t : T) (c : C) (v : V) : Prop := r.table = t ∧ r.value c = some v

instance [DecidableEq T] [DecidableEq V] (r : Row T C V) (t : T) (c : C) (v : V) :
    Decidable (r.Has t c v) := inferInstanceAs (Decidable (_ ∧ _))

section Clear

variable [DecidableEq C]

/-- `SET c = NULL`. -/
def Row.clear (r : Row T C V) (c : C) : Row T C V :=
  { r with value := Function.update r.value c none }

@[simp] theorem Row.clear_self (r : Row T C V) (c : C) :
    (r.clear c).value c = none := Function.update_self ..

theorem Row.clear_of_ne (r : Row T C V) {c c' : C} (h : c' ≠ c) :
    (r.clear c).value c' = r.value c' := Function.update_of_ne h ..

end Clear

/-- The entry of a row in an index; there is none for rows of other tables and for nulls. -/
def entry [DecidableEq T] (u : T × List C) (r : Row T C V) : Option (List (Option V)) :=
  if r.table = u.1 ∧ ∀ c ∈ u.2, (r.value c).isSome then some (u.2.map r.value) else none

/-- By the foreign key, `r` refers to `q`. -/
def Schema.Refers (S : Schema T C) (f : ForeignKey T C) (r q : Row T C V) : Prop :=
  ∃ v, r.Has f.table f.column v ∧ q.Has f.target (S.key f.target) v

/-- The constraints of the schema. -/
structure Schema.Consistent [DecidableEq T] (S : Schema T C) (rows : List (Row T C V)) : Prop where
  notNull : ∀ r ∈ rows, ∀ c ∈ S.notNull r.table, r.value c ≠ none
  unique : ∀ u ∈ S.unique, UniqueIn (entry u) rows
  foreign : ∀ f ∈ S.foreignKeys, ∀ r ∈ rows, ∀ v, r.Has f.table f.column v →
    ∃ q ∈ rows, q.Has f.target (S.key f.target) v

/-- Keys are never null and unique; no column serves two foreign keys, or a foreign key and the
primary one; a table does not refer to itself; and what may be cleared may be null. -/
structure Schema.WellFormed (S : Schema T C) : Prop where
  key_notNull : ∀ t, S.key t ∈ S.notNull t
  key_unique : ∀ t, (t, [S.key t]) ∈ S.unique
  column_injective : ∀ f ∈ S.foreignKeys, ∀ f' ∈ S.foreignKeys,
    f.table = f'.table → f.column = f'.column → f = f'
  column_ne_key : ∀ f ∈ S.foreignKeys, f.column ≠ S.key f.table
  table_ne_target : ∀ f ∈ S.foreignKeys, f.table ≠ f.target
  clears_nullable : ∀ f ∈ S.foreignKeys, f.onDelete = .setNull → f.column ∉ S.notNull f.table

/-! ## Statements -/

section Statements

variable [DecidableEq T] [DecidableEq V]

/-- What is still to be done for a row that has been deleted, by one foreign key. -/
structure Trigger (T C V : Type) where
  foreignKey : ForeignKey T C
  /-- The key that the row had. -/
  key : V

/-- The row refers to the deleted one. -/
def Trigger.Hits (g : Trigger T C V) (r : Row T C V) : Prop :=
  r.Has g.foreignKey.table g.foreignKey.column g.key

instance (g : Trigger T C V) (r : Row T C V) : Decidable (g.Hits r) :=
  inferInstanceAs (Decidable (r.Has _ _ _))

/-- The triggers that the deletion of a row sets off. -/
def Schema.triggers (S : Schema T C) (r : Row T C V) : List (Trigger T C V) :=
  match r.value (S.key r.table) with
  | none => []
  | some v => (S.foreignKeys.filter (·.target = r.table)).map fun f ↦ ⟨f, v⟩

/-- The rows, and the triggers that have not fired yet. -/
structure Deletion (T C V : Type) where
  rows : List (Row T C V)
  pending : List (Trigger T C V)

/-- Take rows out. -/
def Schema.remove (S : Schema T C) (p : Row T C V → Bool) (d : Deletion T C V) :
    Deletion T C V where
  rows := d.rows.filter fun r ↦ !p r
  pending := d.pending ++ (d.rows.filter p).flatMap S.triggers

/-- One trigger fires; there is no result when it refuses. -/
def Schema.fire [DecidableEq C] (S : Schema T C) (g : Trigger T C V) (d : Deletion T C V) :
    Option (Deletion T C V) :=
  match g.foreignKey.onDelete with
  | .cascade => some (S.remove (g.Hits ·) d)
  | .setNull => some { d with
      rows := d.rows.map fun r ↦ if g.Hits r then r.clear g.foreignKey.column else r }
  | .restrict => if ∃ r ∈ d.rows, g.Hits r then none else some d

/-- Some pending trigger fires. -/
def Schema.Fires [DecidableEq C] (S : Schema T C) (d d' : Deletion T C V) : Prop :=
  ∃ i g, d.pending[i]? = some g ∧ S.fire g ⟨d.rows, d.pending.eraseIdx i⟩ = some d'

/-- What a deletion may come to, in some order of its triggers: the rows it leaves, or a refusal. -/
inductive Schema.Outcome [DecidableEq C] (S : Schema T C) :
    Deletion T C V → Option (List (Row T C V)) → Prop
  | done (rows) : Outcome S ⟨rows, []⟩ (some rows)
  | fire {d d' out} (h : S.Fires d d') (hout : Outcome S d' out) : Outcome S d out
  | refuse {d} (i : ℕ) (g) (hi : d.pending[i]? = some g)
    (h : S.fire g ⟨d.rows, d.pending.eraseIdx i⟩ = none) : Outcome S d none

/-- `DELETE FROM .. WHERE p`. -/
def Schema.delete (S : Schema T C) (p : Row T C V → Bool) (rows : List (Row T C V)) :
    Deletion T C V := S.remove p ⟨rows, []⟩

/-- What an `INSERT` checks of a row, given the other rows: no column is null that may not be, and
no unique index has its entry already. -/
def Schema.Fits (S : Schema T C) (r : Row T C V) (others : List (Row T C V)) : Prop :=
  (∀ c ∈ S.notNull r.table, r.value c ≠ none) ∧
    ∀ u ∈ S.unique, ∀ k ∈ entry u r, ∀ r' ∈ others, entry u r' ≠ some k

instance [DecidableEq C] (S : Schema T C) (r : Row T C V) (others : List (Row T C V)) :
    Decidable (S.Fits r others) := inferInstanceAs (Decidable (_ ∧ ∀ u ∈ S.unique, _))

/-- Everything the row refers to is there. -/
def Schema.Anchored (S : Schema T C) (r : Row T C V) (rows : List (Row T C V)) : Prop :=
  ∀ f ∈ S.foreignKeys, ∀ v, r.Has f.table f.column v → ∃ q ∈ rows, q.Has f.target (S.key f.target) v

instance (S : Schema T C) (r : Row T C V) (rows : List (Row T C V)) :
    Decidable (S.Anchored r rows) :=
  decidable_of_iff (∀ f ∈ S.foreignKeys, r.table = f.table → ∀ v ∈ r.value f.column,
      ∃ q ∈ rows, q.Has f.target (S.key f.target) v)
    ⟨fun h f hf v hv ↦ h f hf hv.1 v hv.2, fun h f hf ht v hv ↦ h f hf v ⟨ht, hv⟩⟩

instance (S : Schema T C) (rows : List (Row T C V)) : Decidable (S.Consistent rows) :=
  decidable_of_iff ((∀ r ∈ rows, ∀ c ∈ S.notNull r.table, r.value c ≠ none) ∧
      (∀ u ∈ S.unique, UniqueIn (entry u) rows) ∧ ∀ r ∈ rows, S.Anchored r rows)
    ⟨fun h ↦ ⟨h.1, h.2.1, fun f hf r hr ↦ h.2.2 r hr f hf⟩,
      fun h ↦ ⟨h.notNull, h.unique, fun r hr f hf ↦ h.foreign f hf r hr⟩⟩

/-- `ON UPDATE CASCADE`: a reference to a row of `t` follows its key from `old` to `new`. -/
def Schema.follow [DecidableEq C] (S : Schema T C) (t : T) (old new : V) (r : Row T C V) :
    Row T C V :=
  { r with value := fun c ↦
      if (∃ f ∈ S.foreignKeys, f.table = r.table ∧ f.column = c ∧ f.target = t) ∧
        r.value c = some old then some new else r.value c }

/-- The rows without the one of `t` with the key. -/
def Schema.without (S : Schema T C) (t : T) (key : V) (rows : List (Row T C V)) :
    List (Row T C V) := rows.filter fun r ↦ !decide (r.Has t (S.key t) key)

/-- A statement, with a condition on rows for a `DELETE` and the key of a row for an `UPDATE`. -/
inductive Statement (T C V : Type)
  | insert (row : Row T C V)
  | update (key : V) (row : Row T C V)
  | delete (p : Row T C V → Bool)

/-- What the schema lets a statement do to the rows. -/
inductive Schema.Executes [DecidableEq C] (S : Schema T C) (rows : List (Row T C V)) :
    Statement T C V → List (Row T C V) → Prop
  | insert {row} (hfits : S.Fits row rows) (hanchored : S.Anchored row (rows ++ [row])) :
    Executes S rows (.insert row) (rows ++ [row])
  /-- The new version of a row takes the place of the old one. -/
  | update {old new : V} {row} (hfound : ∃ r ∈ rows, r.Has row.table (S.key row.table) old)
    (hkey : row.value (S.key row.table) = some new)
    (hfits : S.Fits row (S.without row.table old rows))
    (hanchored : S.Anchored row
      ((S.without row.table old rows).map (S.follow row.table old new) ++ [row])) :
    Executes S rows (.update old row)
      ((S.without row.table old rows).map (S.follow row.table old new) ++ [row])
  | delete {p rows'} (h : S.Outcome (S.delete p rows) (some rows')) :
    Executes S rows (.delete p) rows'

end Statements

/-! ## What a deletion comes to -/

section Deleting

variable {S : Schema T C} {p : Row T C V → Bool} {rows : List (Row T C V)}

/-- **The rows that go.** They are deleted, or refer by a cascading key to a row that goes. -/
inductive Schema.Goes (S : Schema T C) (p : Row T C V → Bool) (rows : List (Row T C V)) :
    Row T C V → Prop
  | deleted {r} (hr : r ∈ rows) (hp : p r) : Goes S p rows r
  | cascaded {r q f} (hr : r ∈ rows) (hf : f ∈ S.foreignKeys) (hcascade : f.onDelete = .cascade)
    (hq : Goes S p rows q) (href : S.Refers f r q) : Goes S p rows r

/-- A row that stays refers by a restricting key to a row that goes. -/
def Schema.Blocked (S : Schema T C) (p : Row T C V → Bool) (rows : List (Row T C V)) : Prop :=
  ∃ r ∈ rows, ¬S.Goes p rows r ∧
    ∃ f ∈ S.foreignKeys, f.onDelete = .restrict ∧ ∃ q, S.Goes p rows q ∧ S.Refers f r q

open scoped Classical in
/-- The row without the references that triggers in `N` clear. -/
noncomputable def Row.cleared (N : Trigger T C V → Prop) (r : Row T C V) : Row T C V :=
  { r with value := fun c ↦
      if ∃ g, N g ∧ g.foreignKey.onDelete = .setNull ∧ g.foreignKey.column = c ∧ g.Hits r then none
      else r.value c }

/-- The triggers of the rows that go. -/
def Schema.SetOff [DecidableEq T] (S : Schema T C) (p : Row T C V → Bool) (rows : List (Row T C V))
    (g : Trigger T C V) : Prop := ∃ q, S.Goes p rows q ∧ g ∈ S.triggers q

open scoped Classical in
/-- What an accepted deletion leaves. -/
noncomputable def Schema.remaining [DecidableEq T] (S : Schema T C) (p : Row T C V → Bool)
    (rows : List (Row T C V)) : List (Row T C V) :=
  (rows.filter fun r ↦ ¬S.Goes p rows r).map (Row.cleared (S.SetOff p rows))

/-! ### Clearing a reference -/

section Cleared

variable {N : Trigger T C V → Prop} {r : Row T C V} {g : Trigger T C V}

@[simp] theorem cleared_table : (r.cleared N).table = r.table := rfl

theorem cleared_congr {N' : Trigger T C V → Prop}
    (h : ∀ g, g.foreignKey.onDelete = .setNull → (N g ↔ N' g)) : r.cleared N = r.cleared N' := by
  classical
  refine Row.ext rfl (funext fun c ↦ if_congr (exists_congr fun g ↦ ?_) rfl rfl)
  exact and_congr_left fun hrest ↦ h g hrest.1

theorem cleared_value (c : C) (h : ∀ g, N g → g.foreignKey.onDelete = .setNull →
    g.foreignKey.column = c → ¬g.Hits r) : (r.cleared N).value c = r.value c :=
  if_neg fun ⟨g, hg, hnull, hcol, hits⟩ ↦ h g hg hnull hcol hits

theorem cleared_value_or (c : C) :
    (r.cleared N).value c = none ∨ (r.cleared N).value c = r.value c := by
  by_cases h : ∃ g, N g ∧ g.foreignKey.onDelete = .setNull ∧ g.foreignKey.column = c ∧ g.Hits r
  · exact Or.inl (if_pos h)
  · exact Or.inr (if_neg h)

theorem Row.Has.of_cleared {t : T} {c : C} {v : V} (h : (r.cleared N).Has t c v) : r.Has t c v := by
  obtain ⟨ht, hv⟩ := h
  refine ⟨ht, ?_⟩
  rcases cleared_value_or (r := r) (N := N) c with hc | hc
  · simp [hc] at hv
  · rw [← hc, hv]

@[simp] theorem cleared_false : r.cleared (fun _ : Trigger T C V ↦ False) = r := by
  simp [Row.cleared]

theorem cleared_key (hS : S.WellFormed) (hN : ∀ g, N g → g.foreignKey ∈ S.foreignKeys) :
    (r.cleared N).value (S.key r.table) = r.value (S.key r.table) :=
  cleared_value _ fun g hg _ hcol hits ↦ hS.column_ne_key _ (hN g hg) (by rw [hcol, ← hits.1])

theorem has_key_cleared (hS : S.WellFormed) (hN : ∀ g, N g → g.foreignKey ∈ S.foreignKeys) {t : T}
    {v : V} : (r.cleared N).Has t (S.key t) v ↔ r.Has t (S.key t) v := by
  refine and_congr_right fun ht ↦ ?_
  obtain rfl : r.table = t := ht
  rw [cleared_key hS hN]

theorem hits_cleared (hS : S.WellFormed) (hN : ∀ g, N g → g.foreignKey ∈ S.foreignKeys)
    (hg : g.foreignKey ∈ S.foreignKeys) (haction : g.foreignKey.onDelete ≠ .setNull) :
    g.Hits (r.cleared N) ↔ g.Hits r := by
  refine ⟨Row.Has.of_cleared, fun h ↦ ⟨h.1, ?_⟩⟩
  rw [cleared_value, h.2]
  intro g' hg' hnull hcol hits
  have hkey : g'.foreignKey = g.foreignKey :=
    hS.column_injective _ (hN g' hg') _ hg (by rw [← hits.1, h.1]) hcol
  exact haction (hkey ▸ hnull)

theorem clear_cleared [DecidableEq T] [DecidableEq C] [DecidableEq V]
    (hnull : g.foreignKey.onDelete = .setNull) :
    (if g.Hits (r.cleared N) then (r.cleared N).clear g.foreignKey.column else r.cleared N) =
      r.cleared fun g' ↦ N g' ∨ g' = g := by
  classical
  by_cases hg : g.Hits (r.cleared N)
  · rw [if_pos hg]
    refine Row.ext rfl (funext fun c ↦ ?_)
    by_cases hc : c = g.foreignKey.column
    · rw [hc, Row.clear_self]
      exact (if_pos ⟨g, Or.inr rfl, hnull, rfl, hg.of_cleared⟩).symm
    · rw [Row.clear_of_ne _ hc]
      refine if_congr (exists_congr fun g' ↦ ⟨fun h ↦ ⟨Or.inl h.1, h.2⟩, ?_⟩) rfl rfl
      rintro ⟨h | rfl, hrest⟩
      · exact ⟨h, hrest⟩
      · exact absurd hrest.2.1.symm hc
  · rw [if_neg hg]
    refine Row.ext rfl (funext fun c ↦ ?_)
    by_cases hN : ∃ g', N g' ∧ g'.foreignKey.onDelete = .setNull ∧ g'.foreignKey.column = c ∧
        g'.Hits r
    · obtain ⟨g', hg', hrest⟩ := hN
      exact (if_pos ⟨g', hg', hrest⟩).trans (if_pos ⟨g', Or.inl hg', hrest⟩).symm
    · refine (if_neg hN).trans (if_neg ?_).symm
      rintro ⟨g', hg' | rfl, hnull', hcol, hits⟩
      · exact hN ⟨g', hg', hnull', hcol, hits⟩
      · exact hg ⟨hits.1, by rw [hcol, ← hits.2, ← hcol]; exact (if_neg (hcol ▸ hN))⟩

end Cleared

/-! ### Triggers -/

section Triggers

variable [DecidableEq T]

theorem mem_triggers {g : Trigger T C V} {q : Row T C V} :
    g ∈ S.triggers q ↔ g.foreignKey ∈ S.foreignKeys ∧
      q.Has g.foreignKey.target (S.key g.foreignKey.target) g.key := by
  obtain ⟨f, v⟩ := g
  rw [Schema.triggers]
  split
  · next hnone =>
    simp only [List.not_mem_nil, false_iff, Row.Has]
    rintro ⟨-, htarget, hv⟩
    simp [← htarget, hnone] at hv
  · next w hw =>
    simp only [List.mem_map, List.mem_filter, decide_eq_true_eq, Trigger.mk.injEq, Row.Has]
    constructor
    · rintro ⟨f', ⟨hf, htarget⟩, rfl, rfl⟩
      exact ⟨hf, htarget.symm, by rw [htarget, hw]⟩
    · rintro ⟨hf, htarget, hv⟩
      exact ⟨f, ⟨hf, htarget.symm⟩, rfl, Option.some_inj.mp (by rw [← hw, htarget, hv])⟩

theorem refers_iff {f : ForeignKey T C} (hf : f ∈ S.foreignKeys) {r q : Row T C V} :
    S.Refers f r q ↔ ∃ g ∈ S.triggers q, g.foreignKey = f ∧ g.Hits r := by
  constructor
  · rintro ⟨v, hr, hq⟩
    exact ⟨⟨f, v⟩, mem_triggers.mpr ⟨hf, hq⟩, rfl, hr⟩
  · rintro ⟨g, hg, rfl, hr⟩
    exact ⟨g.key, hr, (mem_triggers.mp hg).2⟩

theorem triggers_cleared (hS : S.WellFormed) {N : Trigger T C V → Prop}
    (hN : ∀ g, N g → g.foreignKey ∈ S.foreignKeys) (r : Row T C V) :
    S.triggers (r.cleared N) = S.triggers r := by
  rw [Schema.triggers, Schema.triggers, cleared_table, cleared_key hS hN]

theorem Schema.SetOff.mem {g : Trigger T C V} (h : S.SetOff p rows g) :
    g.foreignKey ∈ S.foreignKeys := h.elim fun _ hq ↦ (mem_triggers.mp hq.2).1

end Triggers

/-! ### One order of the triggers -/

open scoped Classical in
/-- How far a deletion has come: the rows in `R` are out, and the triggers in `N` have fired. -/
structure Progress [DecidableEq T] (S : Schema T C) (p : Row T C V → Bool)
    (rows : List (Row T C V)) (R : Row T C V → Prop) (N : Trigger T C V → Prop)
    (d : Deletion T C V) : Prop where
  rows_eq : d.rows = (rows.filter fun r ↦ ¬R r).map (Row.cleared N)
  deleted : ∀ r ∈ rows, p r → R r
  goes : ∀ r, R r → S.Goes p rows r
  set_off : ∀ q, R q → ∀ g ∈ S.triggers q, g ∈ d.pending ∨ N g
  of_gone : ∀ g, g ∈ d.pending ∨ N g → ∃ q, R q ∧ g ∈ S.triggers q
  settled : ∀ g, N g → g.foreignKey.onDelete ≠ .setNull → ∀ r ∈ rows, g.Hits r → R r

theorem mem_iff_mem_eraseIdx_or {α : Type} {l : List α} {i : ℕ} {a : α} (hi : l[i]? = some a)
    (b : α) : b ∈ l ↔ b ∈ l.eraseIdx i ∨ b = a := by
  obtain ⟨hlt, rfl⟩ := List.getElem?_eq_some_iff.mp hi
  have hperm := (List.getElem_cons_eraseIdx_perm hlt).mem_iff (a := b)
  rw [← hperm, List.mem_cons, or_comm]

theorem moved_iff {d : Deletion T C V} {N : Trigger T C V → Prop} {i : ℕ} {g : Trigger T C V}
    (hi : d.pending[i]? = some g) (g' : Trigger T C V) :
    g' ∈ d.pending.eraseIdx i ∨ N g' ∨ g' = g ↔ g' ∈ d.pending ∨ N g' := by
  rw [mem_iff_mem_eraseIdx_or hi g', or_assoc, or_comm (a := N g')]

section Start

variable [DecidableEq T]

theorem progress_delete : Progress S p rows (fun r ↦ r ∈ rows ∧ p r) (fun _ ↦ False)
    (S.delete p rows) where
  rows_eq := by
    have hid : (Row.cleared fun _ : Trigger T C V ↦ False) = id := funext fun r ↦ cleared_false
    rw [hid, List.map_id]
    refine List.filter_congr fun r hr ↦ ?_
    simp [hr]
  deleted r hr hp := ⟨hr, hp⟩
  goes r hr := .deleted hr.1 hr.2
  set_off q hq g hg := Or.inl (List.mem_flatMap.mpr ⟨q, List.mem_filter.mpr ⟨hq.1, hq.2⟩, hg⟩)
  of_gone g hg := by
    obtain ⟨q, hq, hg⟩ := List.mem_flatMap.mp (hg.resolve_right id)
    exact ⟨q, ⟨(List.mem_filter.mp hq).1, (List.mem_filter.mp hq).2⟩, hg⟩
  settled g hg := hg.elim

variable {R : Row T C V → Prop} {N : Trigger T C V → Prop} {d : Deletion T C V}

theorem Progress.mem (h : Progress S p rows R N d) {g : Trigger T C V} (hg : g ∈ d.pending ∨ N g) :
    g.foreignKey ∈ S.foreignKeys := by
  obtain ⟨q, -, hq⟩ := h.of_gone g hg
  exact (mem_triggers.mp hq).1

theorem Progress.hits (hS : S.WellFormed) (h : Progress S p rows R N d) {g : Trigger T C V}
    (hg : g ∈ d.pending) (haction : g.foreignKey.onDelete ≠ .setNull) (r : Row T C V) :
    g.Hits (r.cleared N) ↔ g.Hits r :=
  hits_cleared hS (fun _ h' ↦ h.mem (Or.inr h')) (h.mem (Or.inl hg)) haction

/-- The rows that are out are all that go, once nothing cascades any more. -/
theorem Progress.goes_iff (h : Progress S p rows R N d)
    (hpending : ∀ g ∈ d.pending, g.foreignKey.onDelete ≠ .cascade) (r : Row T C V) :
    R r ↔ S.Goes p rows r := by
  refine ⟨h.goes r, fun hr ↦ ?_⟩
  induction hr with
  | deleted hr hp => exact h.deleted _ hr hp
  | cascaded hr hf hcascade _ href ih =>
    obtain ⟨g, hg, rfl, hits⟩ := (refers_iff hf).mp href
    have hN : N g := (h.set_off _ ih g hg).resolve_left fun hp ↦ hpending g hp hcascade
    exact h.settled g hN (by simp [hcascade]) _ hr hits

open scoped Classical in
theorem Progress.quiet {i : ℕ} {g : Trigger T C V} (h : Progress S p rows R N d)
    (hi : d.pending[i]? = some g) {rows' : List (Row T C V)}
    (hrows : rows' = (rows.filter fun r ↦ ¬R r).map (Row.cleared fun g' ↦ N g' ∨ g' = g))
    (hfree : g.foreignKey.onDelete ≠ .setNull → ∀ r ∈ rows, g.Hits r → R r) :
    Progress S p rows R (fun g' ↦ N g' ∨ g' = g) ⟨rows', d.pending.eraseIdx i⟩ where
  rows_eq := hrows
  deleted := h.deleted
  goes := h.goes
  set_off q hq g' hg' := (moved_iff hi g').mpr (h.set_off q hq g' hg')
  of_gone g' hg' := h.of_gone g' ((moved_iff hi g').mp hg')
  settled g' hg' haction := by
    rcases hg' with hg' | rfl
    · exact h.settled g' hg' haction
    · exact hfree haction

section Fire

variable [DecidableEq V] {i : ℕ} {g : Trigger T C V}

theorem Progress.cascade (hS : S.WellFormed) (h : Progress S p rows R N d)
    (hi : d.pending[i]? = some g) (haction : g.foreignKey.onDelete = .cascade) :
    Progress S p rows (fun r ↦ R r ∨ r ∈ rows ∧ g.Hits r) (fun g' ↦ N g' ∨ g' = g)
      (S.remove (g.Hits ·) ⟨d.rows, d.pending.eraseIdx i⟩) := by
  have hnull : g.foreignKey.onDelete ≠ .setNull := by simp [haction]
  have hits := h.hits hS (List.mem_of_getElem? hi) hnull
  obtain ⟨q, hq, hg⟩ := h.of_gone g (Or.inl (List.mem_of_getElem? hi))
  have hf := (mem_triggers.mp hg).1
  -- the rows that are hit now are original ones, with the references that have been cleared
  have hmem : ∀ g', g' ∈ (d.rows.filter (g.Hits ·)).flatMap S.triggers ↔
      ∃ r ∈ rows, ¬R r ∧ g.Hits r ∧ g' ∈ S.triggers r := by
    intro g'
    simp only [List.mem_flatMap, List.mem_filter, h.rows_eq, List.mem_map, decide_eq_true_eq]
    constructor
    · rintro ⟨_, ⟨⟨r, ⟨hr, hR⟩, rfl⟩, hhits⟩, hg'⟩
      rw [triggers_cleared hS fun _ h' ↦ h.mem (Or.inr h')] at hg'
      exact ⟨r, hr, hR, (hits r).mp hhits, hg'⟩
    · rintro ⟨r, hr, hR, hhits, hg'⟩
      refine ⟨r.cleared N, ⟨⟨r, ⟨hr, hR⟩, rfl⟩, (hits r).mpr hhits⟩, ?_⟩
      rwa [triggers_cleared hS fun _ h' ↦ h.mem (Or.inr h')]
  refine ⟨?_, fun r hr hp ↦ Or.inl (h.deleted r hr hp), ?_, ?_, ?_, ?_⟩
  · rw [Schema.remove, h.rows_eq, List.filter_map, List.filter_filter]
    refine congrArg₂ _ (funext fun r ↦ cleared_congr fun g' hg' ↦ ?_) (List.filter_congr ?_)
    · refine ⟨Or.inl, fun hor ↦ hor.resolve_right ?_⟩
      rintro rfl
      exact hnull hg'
    · intro r hr
      rw [Bool.eq_iff_iff]
      simp [hits r, hr, and_comm]
  · rintro r (hr | ⟨hr, hhits⟩)
    · exact h.goes r hr
    · exact .cascaded hr hf haction (h.goes q hq) ((refers_iff hf).mpr ⟨g, hg, rfl, hhits⟩)
  · rintro r hr g' hg'
    rw [Schema.remove, List.mem_append, hmem]
    by_cases hR : R r
    · rcases (moved_iff hi g').mpr (h.set_off r hR g' hg') with hrest | hfired
      · exact Or.inl (Or.inl hrest)
      · exact Or.inr hfired
    · obtain ⟨hr, hhits⟩ := hr.resolve_left hR
      exact Or.inl (Or.inr ⟨r, hr, hR, hhits, hg'⟩)
  · rintro g' hg'
    rw [Schema.remove, List.mem_append, hmem] at hg'
    rcases hg' with (hrest | ⟨r, hr, hR, hhits, hg'⟩) | hfired
    · exact (h.of_gone g' ((moved_iff hi g').mp (Or.inl hrest))).imp fun _ h ↦ ⟨Or.inl h.1, h.2⟩
    · exact ⟨r, Or.inr ⟨hr, hhits⟩, hg'⟩
    · exact (h.of_gone g' ((moved_iff hi g').mp (Or.inr hfired))).imp fun _ h ↦ ⟨Or.inl h.1, h.2⟩
  · rintro g' (hg' | rfl) haction' r hr hhits
    · exact Or.inl (h.settled g' hg' haction' r hr hhits)
    · exact Or.inr ⟨hr, hhits⟩

/-- **The step of a deletion.** -/
theorem Progress.fire [DecidableEq C] (hS : S.WellFormed) (h : Progress S p rows R N d)
    (hi : d.pending[i]? = some g) {d' : Deletion T C V}
    (hfire : S.fire g ⟨d.rows, d.pending.eraseIdx i⟩ = some d') :
    ∃ R', Progress S p rows R' (fun g' ↦ N g' ∨ g' = g) d' := by
  rw [Schema.fire] at hfire
  split at hfire
  · next haction =>
    obtain rfl := Option.some_inj.mp hfire
    exact ⟨_, h.cascade hS hi haction⟩
  · next haction =>
    obtain rfl := Option.some_inj.mp hfire
    refine ⟨R, h.quiet hi ?_ fun hnull ↦ absurd haction hnull⟩
    rw [h.rows_eq, List.map_map]
    exact List.map_congr_left fun r _ ↦ clear_cleared haction
  · next haction =>
    have hnull : g.foreignKey.onDelete ≠ .setNull := by simp [haction]
    split at hfire
    · simp at hfire
    · next hfree =>
      obtain rfl := Option.some_inj.mp hfire
      refine ⟨R, h.quiet hi ?_ fun _ r hr hhits ↦ ?_⟩
      · rw [h.rows_eq]
        refine List.map_congr_left fun r _ ↦ cleared_congr fun g' hg' ↦ ⟨Or.inl, fun hor ↦
          hor.resolve_right ?_⟩
        rintro rfl
        exact hnull hg'
      · by_contra hR
        refine hfree ⟨r.cleared N, ?_, (h.hits hS (List.mem_of_getElem? hi) hnull r).mpr hhits⟩
        rw [h.rows_eq]
        exact List.mem_map_of_mem (List.mem_filter.mpr ⟨hr, by simpa using hR⟩)

/-- **The run of a deletion.** When all triggers have fired, what is left is what should be, and no
restricting trigger has found anything. -/
theorem Progress.outcome [DecidableEq C] (hS : S.WellFormed) {out : Option (List (Row T C V))}
    (hout : S.Outcome d out) (h : Progress S p rows R N d) {rows' : List (Row T C V)}
    (hsome : out = some rows') : rows' = S.remaining p rows ∧ ¬S.Blocked p rows := by
  induction hout generalizing R N with
  | done rs =>
    obtain rfl := Option.some_inj.mp hsome
    have hR : R = S.Goes p rows := funext fun r ↦ propext (h.goes_iff (by simp) r)
    have hN : N = S.SetOff p rows := by
      refine funext fun g ↦ propext ⟨fun hg ↦ ?_, fun ⟨q, hq, hg⟩ ↦ ?_⟩
      · rw [Schema.SetOff, ← hR]
        exact h.of_gone g (Or.inr hg)
      · exact (h.set_off q (hR ▸ hq) g hg).resolve_left (by simp)
    subst hR hN
    refine ⟨h.rows_eq, ?_⟩
    rintro ⟨r, hr, hstays, f, hf, haction, q, hq, href⟩
    obtain ⟨g, hg, rfl, hhits⟩ := (refers_iff hf).mp href
    exact hstays (h.settled g ⟨q, hq, hg⟩ (by simp [haction]) r hr hhits)
  | fire hfires _ ih =>
    obtain ⟨i, g, hi, hfire⟩ := hfires
    obtain ⟨R', h'⟩ := h.fire hS hi hfire
    exact ih h' hsome
  | refuse => simp at hsome

end Fire

end Start

/-! ### Every order comes to an end -/

section Ends

variable [DecidableEq T] [DecidableEq C] [DecidableEq V]

/-- A trigger that fires takes a row out, or is one trigger less. -/
theorem fire_lt {g : Trigger T C V} {d d' : Deletion T C V} (h : S.fire g d = some d') :
    d'.rows.length < d.rows.length ∨
      d'.rows.length = d.rows.length ∧ d'.pending = d.pending := by
  rw [Schema.fire] at h
  split at h
  · obtain rfl := Option.some_inj.mp h
    by_cases hhits : ∃ r ∈ d.rows, g.Hits r
    · obtain ⟨r, hr, hhits⟩ := hhits
      exact Or.inl (List.length_filter_lt_length_iff_exists.mpr ⟨r, hr, by simp [hhits]⟩)
    · have hfree : ∀ r ∈ d.rows, ¬g.Hits r := fun r hr h ↦ hhits ⟨r, hr, h⟩
      have hnone : d.rows.filter (g.Hits ·) = [] := by simpa using hfree
      have hall : d.rows.filter (fun r ↦ !decide (g.Hits r)) = d.rows := by simpa using hfree
      refine Or.inr ⟨?_, ?_⟩
      · rw [Schema.remove, hall]
      · rw [Schema.remove, hnone, List.flatMap_nil, List.append_nil]
  · obtain rfl := Option.some_inj.mp h
    exact Or.inr ⟨List.length_map .., rfl⟩
  · split at h
    · simp at h
    · obtain rfl := Option.some_inj.mp h
      exact Or.inr ⟨rfl, rfl⟩

/-- **There is no endless order.** -/
theorem fires_wellFounded (S : Schema T C) :
    WellFounded fun d' d : Deletion T C V ↦ S.Fires d d' := by
  refine Subrelation.wf (r := InvImage (Prod.Lex (· < ·) (· < ·)) fun d : Deletion T C V ↦
    (d.rows.length, d.pending.length)) ?_ (InvImage.wf _ (WellFounded.prod_lex
      Nat.lt_wfRel.wf Nat.lt_wfRel.wf))
  rintro d' d ⟨i, g, hi, hfire⟩
  obtain ⟨hlt, -⟩ := List.getElem?_eq_some_iff.mp hi
  rcases fire_lt hfire with hrows | ⟨hrows, hpending⟩
  · exact Prod.Lex.left _ _ hrows
  · refine Prod.lex_def.mpr (Or.inr ⟨hrows, ?_⟩)
    change d'.pending.length < d.pending.length
    rw [hpending, List.length_eraseIdx_of_lt hlt]
    omega

theorem exists_outcome (S : Schema T C) (d : Deletion T C V) : ∃ out, S.Outcome d out := by
  have hwf : WellFounded fun d' d : Deletion T C V ↦ S.Fires d d' := fires_wellFounded S
  induction d using hwf.induction with
  | _ d ih =>
    obtain ⟨rs, pending⟩ := d
    rcases pending with _ | ⟨g, pending⟩
    · exact ⟨_, .done rs⟩
    · cases hfire : S.fire g ⟨rs, pending⟩ with
      | none => exact ⟨none, .refuse 0 g rfl hfire⟩
      | some d' =>
        have hfires : S.Fires ⟨rs, g :: pending⟩ d' := ⟨0, g, rfl, hfire⟩
        exact (ih d' hfires).imp fun _ hout ↦ .fire hfires hout

/-- A deletion that nothing blocks is accepted in the order that leaves the restricting triggers to
the end. -/
theorem Progress.accepted (hS : S.WellFormed) (hblocked : ¬S.Blocked p rows) (d : Deletion T C V)
    {R : Row T C V → Prop} {N : Trigger T C V → Prop} (h : Progress S p rows R N d) :
    ∃ rows', S.Outcome d (some rows') := by
  have hwf : WellFounded fun d' d : Deletion T C V ↦ S.Fires d d' := fires_wellFounded S
  induction d using hwf.induction generalizing R N with
  | _ d ih =>
    have hstep : ∀ (i : ℕ) (g : Trigger T C V), d.pending[i]? = some g →
        (∃ d', S.fire g ⟨d.rows, d.pending.eraseIdx i⟩ = some d') →
          ∃ rows', S.Outcome d (some rows') := by
      rintro i g hi ⟨d', hfire⟩
      obtain ⟨R', h'⟩ := h.fire hS hi hfire
      exact (ih d' ⟨i, g, hi, hfire⟩ h').imp fun _ hout ↦ .fire ⟨i, g, hi, hfire⟩ hout
    by_cases hall : ∃ g ∈ d.pending, g.foreignKey.onDelete ≠ .restrict
    · obtain ⟨g, hg, haction⟩ := hall
      obtain ⟨i, hi⟩ := List.mem_iff_getElem?.mp hg
      refine hstep i g hi ?_
      rw [Schema.fire]
      split
      · exact ⟨_, rfl⟩
      · exact ⟨_, rfl⟩
      · next hrestrict => exact absurd hrestrict haction
    · have hrestrict : ∀ g ∈ d.pending, g.foreignKey.onDelete = .restrict :=
        fun g hg ↦ not_not.mp fun haction ↦ hall ⟨g, hg, haction⟩
      rcases hpending : d.pending with _ | ⟨g, pending⟩
      · obtain ⟨rs, ps⟩ := d
        obtain rfl : ps = [] := hpending
        exact ⟨rs, .done rs⟩
      · have hg : g ∈ d.pending := by simp [hpending]
        refine hstep 0 g (by simp [hpending]) ⟨⟨d.rows, d.pending.eraseIdx 0⟩, ?_⟩
        rw [Schema.fire, hrestrict g hg]
        refine if_neg ?_
        rintro ⟨r', hr', hhits⟩
        rw [h.rows_eq] at hr'
        obtain ⟨r, hr, rfl⟩ := List.mem_map.mp hr'
        obtain ⟨hr, hR⟩ := List.mem_filter.mp hr
        have hgoes := h.goes_iff (fun g hg ↦ by simp [hrestrict g hg])
        obtain ⟨q, hq, hgq⟩ := h.of_gone g (Or.inl hg)
        refine hblocked ⟨r, hr, fun hr' ↦ ?_, g.foreignKey, h.mem (Or.inl hg), hrestrict g hg, q,
          h.goes q hq, (refers_iff (h.mem (Or.inl hg))).mpr ⟨g, hgq, rfl, ?_⟩⟩
        · exact (by simpa using hR : ¬R r) ((hgoes r).mpr hr')
        · exact (h.hits hS hg (by simp [hrestrict g hg]) r).mp hhits

end Ends

theorem outcome_of_no_triggers [DecidableEq T] [DecidableEq C] [DecidableEq V]
    (h : ∀ r ∈ rows, p r → S.triggers r = []) :
    S.Outcome (S.delete p rows) (some (rows.filter fun r ↦ !p r)) := by
  have hnone : (rows.filter p).flatMap S.triggers = [] :=
    List.flatMap_eq_nil_iff.mpr fun r hr ↦
      h r (List.mem_filter.mp hr).1 (List.mem_filter.mp hr).2
  rw [Schema.delete, Schema.remove, hnone]
  exact .done _

/-- What is left, when the rows that go and the references that are cleared are known. -/
theorem remaining_eq [DecidableEq T] {P : Row T C V → Prop} [DecidablePred P]
    {f : Row T C V → Row T C V} (hgoes : ∀ r ∈ rows, S.Goes p rows r ↔ P r)
    (hclear : ∀ r ∈ rows, r.cleared (S.SetOff p rows) = f r) :
    S.remaining p rows = (rows.filter fun r ↦ ¬P r).map f := by
  classical
  rw [Schema.remaining, List.filter_congr fun r hr ↦ decide_eq_decide.mpr (not_congr (hgoes r hr))]
  exact List.map_congr_left fun r hr ↦ hclear r (List.mem_filter.mp hr).1

section Spec

variable [DecidableEq T] [DecidableEq C] [DecidableEq V]

/-- **What a deletion comes to.** Whatever the order of its triggers, it is accepted with one result
only, and not at all when a row that stays refers to one that goes by a restricting key; when none
does, some order accepts it. -/
theorem outcome_iff (hS : S.WellFormed) {rows' : List (Row T C V)} :
    S.Outcome (S.delete p rows) (some rows') ↔
      ¬S.Blocked p rows ∧ rows' = S.remaining p rows := by
  constructor
  · intro hout
    exact (progress_delete.outcome hS hout rfl).symm
  · rintro ⟨hblocked, rfl⟩
    obtain ⟨rows', hout⟩ := progress_delete.accepted hS hblocked
    obtain ⟨rfl, -⟩ := progress_delete.outcome hS hout rfl
    exact hout

theorem Progress.isSome (hS : S.WellFormed)
    (hfree : ∀ q, S.Goes p rows q → ∀ f ∈ S.foreignKeys, f.target = q.table →
      f.onDelete ≠ .restrict) {R : Row T C V → Prop} {N : Trigger T C V → Prop}
    {d : Deletion T C V} {out : Option (List (Row T C V))} (hout : S.Outcome d out)
    (h : Progress S p rows R N d) : out.isSome := by
  induction hout generalizing R N with
  | done rs => rfl
  | fire hfires _ ih =>
    obtain ⟨i, g, hi, hfire⟩ := hfires
    obtain ⟨R', h'⟩ := h.fire hS hi hfire
    exact ih h'
  | refuse i g hi hfire =>
    obtain ⟨q, hq, hg⟩ := h.of_gone g (Or.inl (List.mem_of_getElem? hi))
    obtain ⟨hf, htarget, -⟩ := mem_triggers.mp hg
    rw [Schema.fire] at hfire
    split at hfire
    · simp at hfire
    · simp at hfire
    · next haction => exact absurd haction (hfree q (h.goes q hq) _ hf htarget.symm)

/-- **A deletion is never refused** when no restricting key refers to a table that rows go from. -/
theorem outcome_isSome (hS : S.WellFormed)
    (hfree : ∀ q, S.Goes p rows q → ∀ f ∈ S.foreignKeys, f.target = q.table →
      f.onDelete ≠ .restrict) {out : Option (List (Row T C V))}
    (hout : S.Outcome (S.delete p rows) out) : out.isSome :=
  progress_delete.isSome hS hfree hout

end Spec

end Deleting

/-! ## The constraints along a run -/

section Integrity

variable [DecidableEq T] {S : Schema T C} {rows rows' : List (Row T C V)}

/-! ### The order of the rows -/

theorem fits_congr (h : ∀ r, r ∈ rows ↔ r ∈ rows') {r : Row T C V} :
    S.Fits r rows ↔ S.Fits r rows' := by
  simp only [Schema.Fits, h]

omit [DecidableEq T] in
theorem anchored_congr (h : ∀ r, r ∈ rows ↔ r ∈ rows') {r : Row T C V} :
    S.Anchored r rows ↔ S.Anchored r rows' := by
  simp only [Schema.Anchored, h]

theorem Schema.Consistent.perm (h : S.Consistent rows) (hperm : rows.Perm rows') :
    S.Consistent rows' where
  notNull r hr := h.notNull r (hperm.mem_iff.mpr hr)
  unique u hu := (hperm.filterMap _).nodup_iff.mp (h.unique u hu)
  foreign f hf r hr v hv :=
    (h.foreign f hf r (hperm.mem_iff.mpr hr) v hv).imp fun _ hq ↦ ⟨hperm.mem_iff.mp hq.1, hq.2⟩

/-! ### Deletions -/

theorem entry_cleared (u : T × List C) (N : Trigger T C V → Prop) (r : Row T C V) :
    entry u (r.cleared N) = none ∨ entry u (r.cleared N) = entry u r := by
  by_cases h : ∀ c ∈ u.2, (r.cleared N).value c = r.value c
  · refine Or.inr (if_congr (and_congr_right fun _ ↦ ?_) ?_ rfl)
    · exact forall₂_congr fun c hc ↦ by rw [h c hc]
    · exact congrArg some (List.map_congr_left h)
  · push Not at h
    obtain ⟨c, hc, hne⟩ := h
    have hnone := (cleared_value_or (r := r) (N := N) c).resolve_right hne
    exact Or.inl (if_neg fun h ↦ by simpa [hnone] using h.2 c hc)

/-- **An accepted deletion keeps the constraints.** A reference that is left is one that was not
cleared, and the row it is to has not gone: else the referring row had gone with it, or blocked the
deletion. -/
theorem consistent_remaining (hS : S.WellFormed) (h : S.Consistent rows) {p : Row T C V → Bool}
    (hblocked : ¬S.Blocked p rows) : S.Consistent (S.remaining p rows) := by
  have hN : ∀ g, S.SetOff p rows g → g.foreignKey ∈ S.foreignKeys := fun _ hg ↦ hg.mem
  have hmem : ∀ r', r' ∈ S.remaining p rows ↔
      ∃ r ∈ rows, ¬S.Goes p rows r ∧ r.cleared (S.SetOff p rows) = r' := by
    intro r'
    simp [Schema.remaining, and_assoc]
  refine ⟨fun r' hr' c hc ↦ ?_, fun u hu ↦ ?_, fun f hf r' hr' v hv ↦ ?_⟩
  · obtain ⟨r, hr, -, rfl⟩ := (hmem r').mp hr'
    rw [cleared_value]
    · exact h.notNull r hr c hc
    · rintro g hg hnull rfl hhits
      exact hS.clears_nullable _ (hN g hg) hnull (hhits.1 ▸ hc)
  · exact ((h.unique u hu).filter _).map fun r _ ↦ entry_cleared u _ r
  · obtain ⟨r, hr, hstays, rfl⟩ := (hmem r').mp hr'
    obtain ⟨q, hq, hkey⟩ := h.foreign f hf r hr v hv.of_cleared
    have href : S.Refers f r q := ⟨v, hv.of_cleared, hkey⟩
    refine ⟨q.cleared (S.SetOff p rows), (hmem _).mpr ⟨q, hq, fun hgoes ↦ ?_, rfl⟩,
      (has_key_cleared hS hN).mpr hkey⟩
    cases haction : f.onDelete with
    | cascade => exact hstays (.cascaded hr hf haction hgoes href)
    | setNull =>
      have hset : S.SetOff p rows ⟨f, v⟩ := ⟨q, hgoes, mem_triggers.mpr ⟨hf, hkey⟩⟩
      have hclear : (r.cleared (S.SetOff p rows)).value f.column = none :=
        if_pos ⟨⟨f, v⟩, hset, haction, rfl, hv.of_cleared⟩
      simp [hv.2] at hclear
    | restrict => exact hblocked ⟨r, hr, hstays, f, hf, haction, q, hgoes, href⟩

/-! ### Inserts -/

/-- A row has no entry yet that another row of its table has, if one of the columns tells them
apart. -/
theorem fits_iff {r : Row T C V} {others : List (Row T C V)} : S.Fits r others ↔
    (∀ c ∈ S.notNull r.table, r.value c ≠ none) ∧ ∀ u ∈ S.unique, u.1 = r.table →
      (∀ c ∈ u.2, (r.value c).isSome) → ∀ r' ∈ others, r'.table = r.table →
        ∃ c ∈ u.2, r'.value c ≠ r.value c := by
  refine and_congr_right fun _ ↦ forall₂_congr fun u _ ↦ ⟨fun h ht hsome r' hr' ht' ↦ ?_,
    fun h k hk r' hr' hk' ↦ ?_⟩
  · by_contra hsame
    push Not at hsame
    have hentry : entry u r = some (u.2.map r.value) := if_pos ⟨ht.symm, hsome⟩
    refine h _ hentry r' hr' ((if_pos ⟨ht'.trans ht.symm, fun c hc ↦ ?_⟩).trans
      (congrArg some (List.map_congr_left hsame)))
    rw [hsame c hc, hsome c hc]
  · obtain ⟨⟨ht, hsome⟩, heq⟩ := Option.ite_none_right_eq_some.mp hk
    obtain ⟨⟨ht', -⟩, heq'⟩ := Option.ite_none_right_eq_some.mp hk'
    obtain ⟨c, hc, hne⟩ := h ht.symm hsome r' hr' (ht'.trans ht.symm)
    exact hne (List.map_inj_left.mp (Option.some_inj.mp (heq'.trans heq.symm)) c hc)

/-- **What an insert checks of the new row is all there is to check.** -/
theorem consistent_concat_iff (h : S.Consistent rows) {row : Row T C V} :
    S.Consistent (rows ++ [row]) ↔ S.Fits row rows ∧ S.Anchored row (rows ++ [row]) := by
  have hrow : row ∈ rows ++ [row] := by simp
  constructor
  · intro h'
    exact ⟨⟨h'.notNull row hrow, fun u hu ↦ (unique_concat.mp (h'.unique u hu)).2⟩,
      fun f hf v hv ↦ h'.foreign f hf row hrow v hv⟩
  · rintro ⟨hfits, hanchored⟩
    refine ⟨fun r hr ↦ ?_, fun u hu ↦ unique_concat.mpr ⟨h.unique u hu, hfits.2 u hu⟩,
      fun f hf r hr v hv ↦ ?_⟩
    · rcases List.mem_append.mp hr with hr | hr
      · exact h.notNull r hr
      · exact List.mem_singleton.mp hr ▸ hfits.1
    · rcases List.mem_append.mp hr with hr | hr
      · exact (h.foreign f hf r hr v hv).imp fun _ hq ↦ ⟨List.mem_append_left _ hq.1, hq.2⟩
      · obtain rfl := List.mem_singleton.mp hr
        exact hanchored f hf v hv

/-! ### Updates -/

section Follow

variable [DecidableEq C] [DecidableEq V] {t : T} {old new : V} {r r' : Row T C V}

@[simp] theorem follow_table : (S.follow t old new r).table = r.table := rfl

variable (S t old new r) in
theorem follow_value_or (c : C) :
    ((∃ f ∈ S.foreignKeys, f.table = r.table ∧ f.column = c ∧ f.target = t) ∧
        r.value c = some old ∧ (S.follow t old new r).value c = some new) ∨
      (¬((∃ f ∈ S.foreignKeys, f.table = r.table ∧ f.column = c ∧ f.target = t) ∧
        r.value c = some old) ∧ (S.follow t old new r).value c = r.value c) := by
  by_cases h : (∃ f ∈ S.foreignKeys, f.table = r.table ∧ f.column = c ∧ f.target = t) ∧
      r.value c = some old
  · exact Or.inl ⟨h.1, h.2, if_pos h⟩
  · exact Or.inr ⟨h, if_neg h⟩

theorem follow_isSome (c : C) :
    ((S.follow t old new r).value c).isSome = (r.value c).isSome := by
  rcases follow_value_or S t old new r c with
    ⟨-, hold, hnew⟩ | ⟨-, hsame⟩
  · rw [hold, hnew, Option.isSome_some, Option.isSome_some]
  · rw [hsame]

theorem follow_of_table (hS : S.WellFormed) (h : r.table = t) : S.follow t old new r = r := by
  refine Row.ext rfl (funext fun c ↦ if_neg ?_)
  rintro ⟨⟨f, hf, htable, -, htarget⟩, -⟩
  exact hS.table_ne_target f hf (by rw [htable, h, htarget])

theorem has_key_follow (hS : S.WellFormed) {t' : T} {v : V} :
    (S.follow t old new r).Has t' (S.key t') v ↔ r.Has t' (S.key t') v := by
  refine and_congr_right fun ht ↦ ?_
  obtain rfl : r.table = t' := ht
  rcases follow_value_or S t old new r (S.key r.table) with
    ⟨⟨f, hf, htable, hcol, -⟩, -⟩ | ⟨-, hsame⟩
  · exact absurd (by rw [hcol, htable]) (hS.column_ne_key f hf)
  · rw [hsame]

/-- No reference of the row is to the new key, unless that is the old one. -/
def Schema.Unreferred (S : Schema T C) (t : T) (old new : V) (r : Row T C V) : Prop :=
  ∀ f ∈ S.foreignKeys, f.table = r.table → f.target = t → r.value f.column = some new → new = old

theorem value_eq_of_follow (hr : S.Unreferred t old new r) (hr' : S.Unreferred t old new r')
    (htable : r.table = r'.table) {c : C}
    (h : (S.follow t old new r).value c = (S.follow t old new r').value c) :
    r.value c = r'.value c := by
  rcases follow_value_or S t old new r c with
    ⟨⟨f, hf, hft, hcol, htarget⟩, hold, hnew⟩ | ⟨-, hsame⟩ <;>
  rcases follow_value_or S t old new r' c with
    ⟨⟨f', hf', hft', hcol', htarget'⟩, hold', hnew'⟩ | ⟨-, hsame'⟩
  · rw [hold, hold']
  · subst hcol
    rw [hnew, hsame'] at h
    obtain rfl := hr' f hf (hft.trans htable) htarget h.symm
    rw [hold, h]
  · subst hcol'
    rw [hsame, hnew'] at h
    obtain rfl := hr f' hf' (hft'.trans htable.symm) htarget' h
    rw [hold', h]
  · rw [← hsame, h, hsame']

theorem entry_of_follow (hr : S.Unreferred t old new r) (hr' : S.Unreferred t old new r')
    (u : T × List C) {k : List (Option V)} (h : entry u (S.follow t old new r) = some k)
    (h' : entry u (S.follow t old new r') = some k) :
    ∃ k', entry u r = some k' ∧ entry u r' = some k' := by
  obtain ⟨⟨htable, hsome⟩, hk⟩ := Option.ite_none_right_eq_some.mp h
  obtain ⟨⟨htable', hsome'⟩, hk'⟩ := Option.ite_none_right_eq_some.mp h'
  have hvalues : ∀ c ∈ u.2, r.value c = r'.value c := fun c hc ↦
    value_eq_of_follow hr hr' (by rw [← follow_table, htable, ← htable', follow_table])
      (List.map_inj_left.mp ((Option.some_inj.mp hk).trans (Option.some_inj.mp hk').symm) c hc)
  refine ⟨u.2.map r.value, if_pos ⟨htable, fun c hc ↦ ?_⟩,
    (if_pos ⟨htable', fun c hc ↦ ?_⟩).trans (congrArg some (List.map_congr_left hvalues).symm)⟩
  · exact follow_isSome (r := r) c ▸ hsome c hc
  · exact follow_isSome (r := r') c ▸ hsome' c hc

end Follow

theorem mem_without [DecidableEq V] {t : T} {key : V} {r : Row T C V} :
    r ∈ S.without t key rows ↔ r ∈ rows ∧ ¬r.Has t (S.key t) key := by
  simp [Schema.without]

/-- A key that is new is one that nothing refers to. -/
theorem unreferred_of_fits [DecidableEq V] (hS : S.WellFormed) (h : S.Consistent rows) {old new : V}
    {row : Row T C V} (hkey : row.value (S.key row.table) = some new)
    (hfits : S.Fits row (S.without row.table old rows)) :
    ∀ r ∈ rows, S.Unreferred row.table old new r := by
  rintro r hr f hf htable htarget hvalue
  obtain ⟨q, hq, hqtable, hqkey⟩ := h.foreign f hf r hr new ⟨htable.symm, hvalue⟩
  rw [htarget] at hqtable hqkey
  by_contra hne
  have hentry : ∀ r' : Row T C V, r'.Has row.table (S.key row.table) new →
      entry (row.table, [S.key row.table]) r' = some [some new] := by
    rintro r' ⟨ht, hv⟩
    simp [entry, ht, hv]
  refine hfits.2 _ (hS.key_unique row.table) [some new] (hentry row ⟨rfl, hkey⟩) q
    (mem_without.mpr ⟨hq, ?_⟩) (hentry q ⟨hqtable, hqkey⟩)
  rintro ⟨-, hold⟩
  exact hne (Option.some_inj.mp (hqkey.symm.trans hold))

section Update

variable [DecidableEq C] [DecidableEq V]

/-- **An accepted update keeps the constraints.** References to the row follow it to its new key,
which nothing referred to before, so that what was unique stays unique. -/
theorem consistent_update (hS : S.WellFormed) (h : S.Consistent rows) {old new : V}
    {row : Row T C V} (hkey : row.value (S.key row.table) = some new)
    (hfits : S.Fits row (S.without row.table old rows))
    (hanchored : S.Anchored row
      ((S.without row.table old rows).map (S.follow row.table old new) ++ [row])) :
    S.Consistent ((S.without row.table old rows).map (S.follow row.table old new) ++ [row]) := by
  have hfresh := unreferred_of_fits hS h hkey hfits
  have hrows : ∀ r ∈ S.without row.table old rows, r ∈ rows := fun r hr ↦ (mem_without.mp hr).1
  refine ⟨fun r' hr' ↦ ?_, fun u hu ↦ unique_concat.mpr ⟨?_, fun k hk r' hr' ↦ ?_⟩,
    fun f hf r' hr' v hv ↦ ?_⟩
  · rcases List.mem_append.mp hr' with hr' | hr'
    · obtain ⟨r, hr, rfl⟩ := List.mem_map.mp hr'
      intro c hc
      rw [Option.ne_none_iff_isSome, follow_isSome, ← Option.ne_none_iff_isSome]
      exact h.notNull r (hrows r hr) c hc
    · exact List.mem_singleton.mp hr' ▸ hfits.1
  · have hunique := (h.unique u hu).filter fun r ↦ !decide (r.Has row.table (S.key row.table) old)
    rw [unique_iff_pairwise] at hunique ⊢
    refine List.pairwise_map.mpr (hunique.imp_of_mem fun {r r'} hr hr' hne k hk hk' ↦ ?_)
    obtain ⟨k', hk, hk'⟩ := entry_of_follow (hfresh r (hrows r hr)) (hfresh r' (hrows r' hr')) u hk
      hk'
    exact hne k' hk hk'
  · obtain ⟨r, hr, rfl⟩ := List.mem_map.mp hr'
    intro hk'
    -- a row with an entry in the same index is in the same table, and that is left as it is
    have htable : r.table = row.table :=
      (Option.ite_none_right_eq_some.mp hk').1.1.trans
        (Option.ite_none_right_eq_some.mp hk).1.1.symm
    rw [follow_of_table hS htable] at hk'
    exact hfits.2 u hu k hk r hr hk'
  · rcases List.mem_append.mp hr' with hr' | hr'
    · obtain ⟨r, hr, rfl⟩ := List.mem_map.mp hr'
      have hkept : ∀ q ∈ rows, ∀ w, q.Has f.target (S.key f.target) w →
          (f.target = row.table → w ≠ old) → ∃ q' ∈
            (S.without row.table old rows).map (S.follow row.table old new) ++ [row],
            q'.Has f.target (S.key f.target) w := by
        intro q hq w hw hne
        refine ⟨S.follow row.table old new q, List.mem_append_left _ (List.mem_map_of_mem
          (mem_without.mpr ⟨hq, ?_⟩)), (has_key_follow hS).mpr hw⟩
        rintro ⟨hqtable, hqkey⟩
        have htarget : f.target = row.table := hw.1.symm.trans hqtable
        exact hne htarget (Option.some_inj.mp (by rw [← hw.2, htarget, hqkey]))
      rcases follow_value_or S row.table old new r f.column with
        ⟨⟨f', hf', htable, hcol, htarget⟩, hold, hnew⟩ | ⟨hnot, hsame⟩
      · obtain rfl := hS.column_injective f' hf' f hf (by rw [htable, ← hv.1, follow_table]) hcol
        obtain rfl := Option.some_inj.mp (hnew.symm.trans hv.2)
        exact ⟨row, by simp, htarget.symm, by rw [htarget, hkey]⟩
      · have hv' : r.Has f.table f.column v := ⟨hv.1, hsame ▸ hv.2⟩
        obtain ⟨q, hq, hqkey⟩ := h.foreign f hf r (hrows r hr) v hv'
        refine hkept q hq v hqkey fun htarget heq ↦ hnot ⟨⟨f, hf, hv'.1.symm, rfl, htarget⟩, ?_⟩
        rw [hv'.2, heq]
    · obtain rfl := List.mem_singleton.mp hr'
      exact hanchored f hf v hv

/-- **The step of a database.** Whatever a statement is let do, in whatever order its triggers fire,
the constraints hold after it. -/
theorem Schema.Executes.consistent (hS : S.WellFormed) (h : S.Consistent rows)
    {a : Statement T C V} (ha : S.Executes rows a rows') : S.Consistent rows' := by
  cases ha with
  | insert hfits hanchored => exact (consistent_concat_iff h).mpr ⟨hfits, hanchored⟩
  | update _ hkey hfits hanchored => exact consistent_update hS h hkey hfits hanchored
  | delete hout =>
    obtain ⟨hblocked, rfl⟩ := (outcome_iff hS).mp hout
    exact consistent_remaining hS h hblocked

end Update

end Integrity

end Tables
