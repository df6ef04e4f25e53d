import NativeKiln.Shared.Errors
import Mathlib.Data.List.Basic

/-!
# Paths into JSON values

A path is the sequence of keys that leads from a value to a value in it; the elements of an array
are under the numerals `0`, `1`, …. Replacing what is found at some paths (`Json.redact`) is
described by the paths alone: which of them are left (`at_redact`), which values are told apart
afterwards (`redact_congr_of_covered`, `exists_leak`).
-/

namespace NativeKiln

namespace Json

/-! ## Induction -/

@[elab_as_elim] theorem induct {motive : Json → Prop} (null : motive null)
    (bool : ∀ b, motive (bool b)) (num : ∀ n, motive (num n)) (str : ∀ s, motive (str s))
    (arr : ∀ items, (∀ v ∈ items, motive v) → motive (arr items))
    (obj : ∀ fields, (∀ f ∈ fields, motive f.2) → motive (obj fields)) (v : Json) : motive v :=
  @Json.rec motive (fun items ↦ ∀ v ∈ items, motive v) (fun fields ↦ ∀ f ∈ fields, motive f.2)
    (fun f ↦ motive f.2) null bool num str arr obj (List.forall_mem_nil _)
    (fun _ _ hv hitems ↦ List.forall_mem_cons.mpr ⟨hv, hitems⟩) (List.forall_mem_nil _)
    (fun _ _ hf hfields ↦ List.forall_mem_cons.mpr ⟨hf, hfields⟩) (fun _ _ hv ↦ hv) v

/-! ## Paths -/

/-- The value is stored under the key. -/
inductive Child : Json → JsString → Json → Prop
  | item {items : List Json} {i : ℕ} {v : Json} (h : items[i]? = some v) :
    Child (arr items) (JsString.ofInt i) v
  | field {fields : List (JsString × Json)} {k : JsString} {v : Json} (h : (k, v) ∈ fields) :
    Child (obj fields) k v

/-- The value is at the path. -/
inductive At : Json → List JsString → Json → Prop
  | here {v : Json} : At v [] v
  | child {u v w : Json} {k : JsString} {p : List JsString} (hchild : u.Child k v) (h : v.At p w) :
    At u (k :: p) w

/-- Nothing is stored in the value. -/
def Leaf (v : Json) : Prop := ∀ k w, ¬v.Child k w

theorem leaf_null : null.Leaf := by
  rintro k w ⟨⟩

theorem leaf_str (s : JsString) : (str s).Leaf := by
  rintro k w ⟨⟩

/-! ## Replacement -/

mutual

/-- Put `censor` in the place of every value whose path is hit, from the outside in. -/
def redact (censor : Json) (hit : List JsString → Bool) : Json → Json
  | null => null
  | bool b => bool b
  | num n => num n
  | str s => str s
  | arr items => arr (redactItems censor hit 0 items)
  | obj fields => obj (redactFields censor hit fields)

def redactItems (censor : Json) (hit : List JsString → Bool) (i : ℕ) : List Json → List Json
  | [] => []
  | v :: items =>
    (if hit [JsString.ofInt i] then censor else redact censor (hit <| JsString.ofInt i :: ·) v) ::
      redactItems censor hit (i + 1) items

def redactFields (censor : Json) (hit : List JsString → Bool) :
    List (JsString × Json) → List (JsString × Json)
  | [] => []
  | (k, v) :: fields =>
    (k, if hit [k] then censor else redact censor (hit <| k :: ·) v) ::
      redactFields censor hit fields

end

/-- What becomes of a value under a key. -/
def redactAt (censor : Json) (hit : List JsString → Bool) (k : JsString) (v : Json) : Json :=
  if hit [k] then censor else redact censor (hit <| k :: ·) v

section Redact

variable {censor mask u v w : Json} {hit secret : List JsString → Bool} {k : JsString}
  {p : List JsString}

theorem redactFields_eq (fields : List (JsString × Json)) :
    redactFields censor hit fields = fields.map fun f ↦ (f.1, redactAt censor hit f.1 f.2) := by
  induction fields with
  | nil => rfl
  | cons f fields ih => rw [redactFields, ih, List.map_cons, redactAt]

theorem redactItems_eq (items : List Json) (i : ℕ) : redactItems censor hit i items =
    items.mapIdx fun j v ↦ redactAt censor hit (JsString.ofInt (i + j : ℕ)) v := by
  induction items generalizing i with
  | nil => rfl
  | cons v items ih =>
    rw [redactItems, ih, List.mapIdx_cons, redactAt]
    simp only [Nat.add_zero, Nat.add_right_comm i 1, Nat.add_assoc i]

theorem redact_obj (fields : List (JsString × Json)) : redact censor hit (obj fields) =
    obj (fields.map fun f ↦ (f.1, redactAt censor hit f.1 f.2)) := by
  rw [redact, redactFields_eq]

theorem redact_arr (items : List Json) : redact censor hit (arr items) =
    arr (items.mapIdx fun i v ↦ redactAt censor hit (JsString.ofInt i) v) := by
  rw [redact, redactItems_eq]
  simp only [Nat.zero_add]

theorem child_redact : (redact censor hit u).Child k w ↔
    ∃ v, u.Child k v ∧ w = redactAt censor hit k v := by
  constructor
  · intro h
    rcases u with _ | b | n | s | items | fields
    · rcases h
    · rcases h
    · rcases h
    · rcases h
    · rw [redact_arr] at h
      rcases h with ⟨h⟩ | _
      rw [List.getElem?_mapIdx, Option.map_eq_some_iff] at h
      obtain ⟨v, hv, rfl⟩ := h
      exact ⟨v, .item hv, rfl⟩
    · rw [redact_obj] at h
      rcases h with _ | ⟨h⟩
      obtain ⟨⟨k', v⟩, hmem, hf⟩ := List.mem_map.mp h
      obtain ⟨rfl, rfl⟩ := Prod.mk.inj hf
      exact ⟨v, .field hmem, rfl⟩
  · rintro ⟨v, hchild, rfl⟩
    rcases hchild with ⟨hv⟩ | ⟨hmem⟩
    · rw [redact_arr]
      exact .item (by rw [List.getElem?_mapIdx, hv, Option.map_some])
    · rw [redact_obj]
      exact .field (List.mem_map.mpr ⟨_, hmem, rfl⟩)

/-- One value can be exchanged for another one; what is left of the whole after a replacement tells
them apart when what is left of them does. -/
theorem Child.exchange (h : u.Child k v) (v' : Json) : ∃ u', ∀ censor hit,
    redact censor hit u' = redact censor hit u ↔
      redactAt censor hit k v' = redactAt censor hit k v := by
  rcases h with @⟨items, i, _, h⟩ | @⟨fields, _, _, h⟩
  · refine ⟨arr (items.set i v'), fun censor hit ↦ ?_⟩
    obtain ⟨hi, hv⟩ := List.getElem?_eq_some_iff.mp h
    rw [redact_arr, redact_arr, List.mapIdx_set, Json.arr.injEq, ← hv]
    constructor
    · intro hset
      have hget := congrArg (·[i]?) hset
      simpa [hi] using hget
    · intro hsame
      rw [hsame]
      exact List.ext_getElem? fun j ↦ by
        by_cases hj : i = j
        · subst hj
          simp [hi]
        · rw [List.getElem?_set_ne hj]
  · obtain ⟨before, after, rfl⟩ := List.append_of_mem h
    refine ⟨obj (before ++ (k, v') :: after), fun censor hit ↦ ?_⟩
    simp [redact_obj]

/-! ## What is left -/

theorem redactAt_of_hit (hk : hit [k]) : redactAt censor hit k v = censor := if_pos hk

theorem redactAt_of_not_hit (hk : ¬hit [k]) :
    redactAt censor hit k v = redact censor (hit <| k :: ·) v := if_neg hk

theorem eq_cons_of_prefix {q : List JsString} (hne : q ≠ []) (hq : q <+: k :: p) :
    ∃ t, q = k :: t ∧ t <+: p := (List.prefix_cons_iff.mp hq).resolve_left hne

/-- What is found at a path afterwards is the replacement, or no part of the path has been hit. -/
theorem At.of_redact (hleaf : censor.Leaf) (h : (redact censor hit u).At p w) :
    ∃ v, u.At p v ∧ (w = censor ∨ ∀ q, q ≠ [] → q <+: p → ¬hit q) := by
  induction p generalizing u hit with
  | nil => exact ⟨u, .here, Or.inr fun q hne hq ↦ absurd (List.prefix_nil.mp hq) hne⟩
  | cons k p ih =>
    rcases h with _ | ⟨hentry, h⟩
    obtain ⟨v, hchild, rfl⟩ := child_redact.mp hentry
    by_cases hk : hit [k]
    · rw [redactAt_of_hit hk] at h
      rcases h with _ | ⟨hchild', -⟩
      · exact ⟨v, .child hchild .here, Or.inl rfl⟩
      · exact absurd hchild' (hleaf _ _)
    · rw [redactAt_of_not_hit hk] at h
      obtain ⟨v', hv', hw⟩ := ih h
      refine ⟨v', .child hchild hv', hw.imp_right fun hbare q hne hq ↦ ?_⟩
      obtain ⟨t, rfl, ht⟩ := eq_cons_of_prefix hne hq
      rcases t with _ | ⟨k', t⟩
      · exact hk
      · exact hbare (k' :: t) (List.cons_ne_nil k' t) ht

/-- When some part of a path is hit, the replacement is on the path. -/
theorem At.exists_replaced (censor : Json) (h : u.At p w) {q : List JsString} (hne : q ≠ [])
    (hq : q <+: p) (hhit : hit q) :
    ∃ q', q' ≠ [] ∧ q' <+: p ∧ hit q' ∧ (redact censor hit u).At q' censor := by
  induction h generalizing hit q with
  | here => exact absurd (List.prefix_nil.mp hq) hne
  | @child u v w k p hchild h ih =>
    by_cases hk : hit [k]
    · have hcensor : (redact censor hit u).Child k censor :=
        child_redact.mpr ⟨v, hchild, (redactAt_of_hit hk).symm⟩
      exact ⟨[k], List.cons_ne_nil k [], List.cons_prefix_cons.mpr ⟨rfl, List.nil_prefix⟩, hk,
        .child hcensor .here⟩
    · obtain ⟨t, rfl, ht⟩ := eq_cons_of_prefix hne hq
      have htail : t ≠ [] := by
        rintro rfl
        exact hk hhit
      obtain ⟨t', -, ht', hhit', hat⟩ := @ih (hit <| k :: ·) t htail ht hhit
      have hrest : (redact censor hit u).Child k (redact censor (hit <| k :: ·) v) :=
        child_redact.mpr ⟨v, hchild, (redactAt_of_not_hit hk).symm⟩
      exact ⟨k :: t', List.cons_ne_nil k t', List.cons_prefix_cons.mpr ⟨rfl, ht'⟩, hhit',
        .child hrest hat⟩

/-! ## Covered paths -/

/-- Every secret path in the value has a part that is hit. -/
def Covered (hit secret : List JsString → Bool) (u : Json) : Prop :=
  ∀ p w, u.At p w → p ≠ [] → secret p → ∃ q, q ≠ [] ∧ q <+: p ∧ hit q

theorem Covered.child (h : Covered hit secret u) (hchild : u.Child k v) (hk : ¬hit [k]) :
    Covered (hit <| k :: ·) (secret <| k :: ·) v := by
  intro p w hp _ hsecret
  obtain ⟨q, hne, hq, hhit⟩ := h (k :: p) w (.child hchild hp) (List.cons_ne_nil k p) hsecret
  obtain ⟨t, rfl, ht⟩ := eq_cons_of_prefix hne hq
  refine ⟨t, ?_, ht, hhit⟩
  rintro rfl
  exact hk hhit

theorem Covered.not_secret (h : Covered hit secret u) (hchild : u.Child k v) (hk : ¬hit [k]) :
    ¬secret [k] := by
  intro hsecret
  obtain ⟨q, hne, hq, hhit⟩ := h [k] v (.child hchild .here) (List.cons_ne_nil k []) hsecret
  obtain ⟨t, rfl, ht⟩ := eq_cons_of_prefix hne hq
  rw [List.prefix_nil.mp ht] at hhit
  exact hk hhit

theorem redact_redact_of_covered (h : Covered hit secret u) :
    redact censor hit (redact mask secret u) = redact censor hit u := by
  -- one entry, given the same for the value in it
  have hentry : ∀ {u v k} {hit secret : List JsString → Bool}, u.Child k v → Covered hit secret u →
      (∀ {hit secret}, Covered hit secret v →
        redact censor hit (redact mask secret v) = redact censor hit v) →
      redactAt censor hit k (redactAt mask secret k v) = redactAt censor hit k v := by
    intro u v k hit secret hchild h ih
    by_cases hk : hit [k]
    · rw [redactAt_of_hit hk, redactAt_of_hit hk]
    · rw [redactAt_of_not_hit hk, redactAt_of_not_hit hk,
        redactAt_of_not_hit (h.not_secret hchild hk), ih (h.child hchild hk)]
  induction u using induct generalizing hit secret with
  | null => rfl
  | bool b => rfl
  | num n => rfl
  | str s => rfl
  | arr items ih =>
    rw [redact_arr, redact_arr, redact_arr, List.mapIdx_mapIdx, Json.arr.injEq,
      List.mapIdx_eq_mapIdx_iff]
    intro i hi
    exact hentry (.item (List.getElem?_eq_getElem hi)) h (ih _ (List.getElem_mem hi))
  | obj fields ih =>
    rw [redact_obj, redact_obj, redact_obj, List.map_map, Json.obj.injEq]
    refine List.map_congr_left fun f hf ↦ Prod.ext rfl ?_
    exact hentry (.field hf) h (ih f hf)

theorem covered_redact (hleaf : mask.Leaf) :
    Covered hit secret (redact mask secret u) ↔ Covered hit secret u := by
  constructor
  · intro h p w hp hne hsecret
    obtain ⟨q, hqne, hq, hsecret', hat⟩ := hp.exists_replaced mask hne
      (List.prefix_refl p) hsecret
    obtain ⟨t, htne, ht, hhit⟩ := h q mask hat hqne hsecret'
    exact ⟨t, htne, ht.trans hq, hhit⟩
  · intro h p w hp hne hsecret
    obtain ⟨v, hv, -⟩ := hp.of_redact hleaf
    exact h p v hv hne hsecret

/-- **Values that differ in what is covered only** are the same after the replacement. -/
theorem redact_congr_of_covered (censor : Json) (hleaf : mask.Leaf) (h : Covered hit secret u)
    (hsame : redact mask secret v = redact mask secret u) :
    redact censor hit v = redact censor hit u := by
  have hcovered : Covered hit secret v := by
    rw [← covered_redact hleaf, hsame, covered_redact hleaf]
    exact h
  calc redact censor hit v
      = redact censor hit (redact mask secret v) := (redact_redact_of_covered hcovered).symm
    _ = redact censor hit (redact mask secret u) := by rw [hsame]
    _ = redact censor hit u := redact_redact_of_covered h

/-- A secret path with no part that is hit: the value at it can be exchanged for another one, and
this is seen after the replacement. -/
theorem At.exists_leak (censor mask : Json) (h : u.At p w) (hne : p ≠ []) (hsecret : secret p)
    (hbare : ∀ q, q ≠ [] → q <+: p → ¬hit q) : ∃ v, redact mask secret v = redact mask secret u ∧
      redact censor hit v ≠ redact censor hit u := by
  induction h generalizing hit secret with
  | here => exact absurd rfl hne
  | @child u v w k p hchild h ih =>
    have hk : ¬hit [k] := hbare [k] (List.cons_ne_nil k [])
      (List.cons_prefix_cons.mpr ⟨rfl, List.nil_prefix⟩)
    -- another value for the key, which is masked like the first and not replaced like it
    obtain ⟨v', hmask, hdiffers⟩ : ∃ v', redactAt mask secret k v' = redactAt mask secret k v ∧
        redact censor (hit <| k :: ·) v' ≠ redact censor (hit <| k :: ·) v := by
      by_cases hk' : secret [k]
      · simp only [redactAt_of_hit hk', true_and]
        by_cases hnull : redact censor (hit <| k :: ·) v = null
        · exact ⟨bool true, by rw [hnull, redact]; simp⟩
        · exact ⟨null, by rw [redact]; exact Ne.symm hnull⟩
      · have hp : p ≠ [] := by
          rintro rfl
          exact hk' hsecret
        simp only [redactAt_of_not_hit hk']
        exact ih hp hsecret fun q _ hq ↦
          hbare (k :: q) (List.cons_ne_nil k q) (List.cons_prefix_cons.mpr ⟨rfl, hq⟩)
    obtain ⟨u', hu'⟩ := hchild.exchange v'
    refine ⟨u', (hu' mask secret).mpr hmask, fun hsame ↦ hdiffers ?_⟩
    have hat := (hu' censor hit).mp hsame
    rwa [redactAt_of_not_hit hk, redactAt_of_not_hit hk] at hat

end Redact

end Json

end NativeKiln
