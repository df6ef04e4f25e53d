import Mathlib.Data.List.Basic
import Mathlib.Data.List.Infix
import Mathlib.Data.List.Nodup
import Mathlib.Data.List.Flatten

/-!
# Cutting a word at the occurrences of another

Global replacement of a literal by a marker does two things at once: it decides *where* to cut the
text, and it writes the marker there. The two are separated here. A `Cut` is the text in pieces,
first a kept piece, then removed pieces each followed by a kept one; `Cut.word` glues the pieces
back into the text they came from, and `Cut.mark` writes a marker for every removed piece. The
leftmost non-overlapping occurrences of a word are found by `cut`, and replacing is
`(cut …).mark`.

The letters of the text carry more than the letter that is matched: `key` says what of a letter the
pattern sees. With `key = id` this is replacement in a plain word; with letters that remember the
position they came from it is the same replacement with its provenance.

Every pattern here is non-empty. An empty literal, which matches between any two letters, is not
covered by these definitions.
-/

namespace Words

variable {α β γ : Type*}

/-! ## Cuts -/

/-- A word in pieces: a kept piece, then removed pieces each followed by a kept one. -/
structure Cut (β : Type*) where
  /-- The piece kept before the first removed one. -/
  head : List β
  /-- Each removed piece with the kept piece after it. -/
  tail : List (List β × List β)

namespace Cut

/-- The word that was cut. -/
def word (c : Cut β) : List β := c.head ++ c.tail.flatMap fun p ↦ p.1 ++ p.2

/-- The kept pieces, with `ins` written for each removed one. -/
def mark (ins : List β) (c : Cut β) : List β := c.head ++ c.tail.flatMap fun p ↦ ins ++ p.2

/-- The pieces that stay. -/
def kept (c : Cut β) : List (List β) := c.head :: c.tail.map Prod.snd

/-- The pieces that go. -/
def removed (c : Cut β) : List (List β) := c.tail.map Prod.fst

/-- The cut that removes nothing. -/
def whole (s : List β) : Cut β := ⟨s, []⟩

/-- Put a letter in front of the first kept piece. -/
def cons (b : β) (c : Cut β) : Cut β := ⟨b :: c.head, c.tail⟩

/-- Put a removed piece in front of the first kept piece. -/
def consRemoved (r : List β) (c : Cut β) : Cut β := ⟨[], (r, c.head) :: c.tail⟩

@[simp] theorem word_whole (s : List β) : (whole s).word = s := by simp [word, whole]

@[simp] theorem kept_whole (s : List β) : (whole s).kept = [s] := rfl

@[simp] theorem removed_whole (s : List β) : (whole s).removed = [] := rfl

@[simp] theorem word_cons (b : β) (c : Cut β) : (cons b c).word = b :: c.word := rfl

@[simp] theorem mark_cons (ins : List β) (b : β) (c : Cut β) :
    (cons b c).mark ins = b :: c.mark ins := rfl

@[simp] theorem removed_cons (b : β) (c : Cut β) : (cons b c).removed = c.removed := rfl

@[simp] theorem word_consRemoved (r : List β) (c : Cut β) :
    (consRemoved r c).word = r ++ c.word := by simp [word, consRemoved]

@[simp] theorem mark_consRemoved (ins r : List β) (c : Cut β) :
    (consRemoved r c).mark ins = ins ++ c.mark ins := by simp [mark, consRemoved]

@[simp] theorem kept_consRemoved (r : List β) (c : Cut β) :
    (consRemoved r c).kept = [] :: c.kept := rfl

@[simp] theorem removed_consRemoved (r : List β) (c : Cut β) :
    (consRemoved r c).removed = r :: c.removed := rfl

theorem head_prefix_word (c : Cut β) : c.head <+: c.word := List.prefix_append _ _

/-- The same cut of a word whose letters are read through `f`. -/
def map (f : β → γ) (c : Cut β) : Cut γ :=
  ⟨c.head.map f, c.tail.map fun p ↦ (p.1.map f, p.2.map f)⟩

@[simp] theorem word_map (f : β → γ) (c : Cut β) : (c.map f).word = c.word.map f := by
  simp [word, map, List.flatMap_map, List.map_flatMap]

@[simp] theorem mark_map (f : β → γ) (ins : List β) (c : Cut β) :
    (c.map f).mark (ins.map f) = (c.mark ins).map f := by
  simp [mark, map, List.flatMap_map, List.map_flatMap]

@[simp] theorem removed_map (f : β → γ) (c : Cut β) :
    (c.map f).removed = c.removed.map (List.map f) := by
  simp [removed, map]

theorem word_perm (c : Cut β) : c.word.Perm (c.kept.flatten ++ c.removed.flatten) := by
  obtain ⟨h, t⟩ := c
  induction t generalizing h with
  | nil => simp [word, kept, removed]
  | cons p t ih =>
    have ih' := ih p.2
    simp only [word, kept, removed, List.flatMap_cons, List.map_cons, List.flatten_cons,
      List.append_assoc] at ih' ⊢
    refine List.Perm.append_left h ((ih'.append_left p.1).trans ?_)
    -- the removed piece moves behind the kept ones
    have hmove := List.perm_append_comm_assoc p.1 (p.2 ++ (t.map Prod.snd).flatten)
      (t.map Prod.fst).flatten
    simpa using hmove

theorem kept_infix_word {c : Cut β} {k : List β} (hk : k ∈ c.kept) : k <:+: c.word := by
  obtain ⟨h, t⟩ := c
  rw [kept, List.mem_cons] at hk
  rcases hk with rfl | hk
  · exact List.infix_append_left
  · obtain ⟨p, hp, rfl⟩ := List.mem_map.mp hk
    have hpiece : p.2 <:+: t.flatMap fun p ↦ p.1 ++ p.2 := by
      rw [List.flatMap]
      exact List.infix_append_right.trans
        (List.infix_of_mem_flatten (List.mem_map_of_mem (f := fun p ↦ p.1 ++ p.2) hp))
    exact hpiece.trans List.infix_append_right

theorem removed_infix_word {c : Cut β} {r : List β} (hr : r ∈ c.removed) : r <:+: c.word := by
  obtain ⟨h, t⟩ := c
  obtain ⟨p, hp, rfl⟩ := List.mem_map.mp hr
  have hpiece : p.1 <:+: t.flatMap fun p ↦ p.1 ++ p.2 := by
    rw [List.flatMap]
    exact List.infix_append_left.trans
      (List.infix_of_mem_flatten (List.mem_map_of_mem (f := fun p ↦ p.1 ++ p.2) hp))
  exact hpiece.trans List.infix_append_right

end Cut

/-! ## The leftmost occurrences of a word -/

section Cut

variable [DecidableEq α] (key : β → α) (v : List α)

/-- Cut a text at the leftmost non-overlapping occurrences of `v`, the letters of the occurrence
still to be passed over being counted in the first argument. -/
def cutFrom : ℕ → List β → Cut β
  | _, [] => .whole []
  | n + 1, _ :: t => cutFrom n t
  | 0, b :: t =>
    if v <+: (b :: t).map key then
      .consRemoved ((b :: t).take v.length) (cutFrom (v.length - 1) t)
    else .cons b (cutFrom 0 t)

/-- Cut a text at the leftmost non-overlapping occurrences of the non-empty word `v`. -/
def cut (s : List β) : Cut β := cutFrom key v 0 s

/-- Global replacement of the literal `v` by `ins`. -/
def replaceAll (ins s : List β) : List β := (cut key v s).mark ins

@[simp] theorem cut_nil : cut key v [] = .whole [] := rfl

theorem cutFrom_eq_cut_drop (n : ℕ) (s : List β) : cutFrom key v n s = cut key v (s.drop n) := by
  induction n generalizing s with
  | zero => rfl
  | succ n ih =>
    cases s with
    | nil => rfl
    | cons b t => rw [cutFrom, ih, List.drop_succ_cons]

variable {key v}

theorem cut_of_isPrefix (hv : v ≠ []) {s : List β} (h : v <+: s.map key) :
    cut key v s = .consRemoved (s.take v.length) (cut key v (s.drop v.length)) := by
  cases s with
  | nil => exact absurd (List.prefix_nil.mp h) hv
  | cons b t =>
    obtain ⟨n, hn⟩ := Nat.exists_eq_succ_of_ne_zero (mt List.length_eq_zero_iff.mp hv)
    rw [cut, cutFrom, if_pos h, cutFrom_eq_cut_drop, hn, Nat.succ_sub_one, List.drop_succ_cons]

theorem cut_of_not_isPrefix {b : β} {t : List β} (h : ¬v <+: (b :: t).map key) :
    cut key v (b :: t) = .cons b (cut key v t) := by
  rw [cut, cutFrom, if_neg h, cut]

@[simp] theorem replaceAll_nil (ins : List β) : replaceAll key v ins [] = [] := rfl

theorem replaceAll_of_isPrefix (hv : v ≠ []) {ins s : List β} (h : v <+: s.map key) :
    replaceAll key v ins s = ins ++ replaceAll key v ins (s.drop v.length) := by
  rw [replaceAll, cut_of_isPrefix hv h, Cut.mark_consRemoved, replaceAll]

theorem replaceAll_of_not_isPrefix {ins : List β} {b : β} {t : List β}
    (h : ¬v <+: (b :: t).map key) :
    replaceAll key v ins (b :: t) = b :: replaceAll key v ins t := by
  rw [replaceAll, cut_of_not_isPrefix h, Cut.mark_cons, replaceAll]

/-- Reasoning about `cut` follows its scan: at each letter either the pattern starts there and is
passed over, or the letter is kept. -/
theorem cut_induction (key : β → α) {motive : List β → Prop} (hv : v ≠ []) (nil : motive [])
    (hit : ∀ s, v <+: s.map key → motive (s.drop v.length) → motive s)
    (miss : ∀ b t, ¬v <+: (b :: t).map key → motive t → motive (b :: t)) (s : List β) :
    motive s := by
  induction hn : s.length using Nat.strong_induction_on generalizing s with
  | _ n ih =>
    subst hn
    cases s with
    | nil => exact nil
    | cons b t =>
      by_cases h : v <+: (b :: t).map key
      · have hpos : 0 < v.length := List.length_pos_iff.mpr hv
        exact hit _ h (ih _ (by rw [List.length_drop, List.length_cons]; omega) _ rfl)
      · exact miss b t h (ih _ (by simp) _ rfl)

omit [DecidableEq α] in
theorem take_map_of_isPrefix {s : List β} (h : v <+: s.map key) :
    (s.take v.length).map key = v := by
  rw [List.map_take]
  exact (List.prefix_iff_eq_take.mp h).symm

/-- A pass works on the two sides of a place by themselves, when no occurrence of its pattern spans
it. -/
theorem replaceAll_append (hv : v ≠ []) {ins a b : List β}
    (h : ∀ p q, p ≠ [] → q ≠ [] → p <:+ a → q <+: b → (p ++ q).map key ≠ v) :
    replaceAll key v ins (a ++ b) = replaceAll key v ins a ++ replaceAll key v ins b := by
  induction a using cut_induction key hv with
  | nil => rfl
  | hit s hs ih =>
    have hle : v.length ≤ s.length := by simpa using hs.length_le
    have hpre : v <+: (s ++ b).map key := by
      rw [List.map_append]
      exact hs.trans (List.prefix_append _ _)
    rw [replaceAll_of_isPrefix hv hpre, List.drop_append_of_le_length hle,
      ih fun p q hp hq hps ↦ h p q hp hq (hps.trans (List.drop_suffix _ _)),
      replaceAll_of_isPrefix hv hs, List.append_assoc]
  | miss x t hx ih =>
    have hno : ¬v <+: (x :: (t ++ b)).map key := by
      intro hpre
      rw [← List.cons_append] at hpre
      rcases le_or_gt v.length (x :: t).length with hle | hlt
      · rw [List.map_append] at hpre
        exact hx (List.prefix_of_prefix_length_le hpre (List.prefix_append _ _)
          (by simpa using hle))
      · -- what is found here reaches beyond the place
        have htake := take_map_of_isPrefix hpre
        rw [List.take_append, List.take_of_length_le hlt.le] at htake
        refine h _ _ (List.cons_ne_nil x t) (fun hnil ↦ ?_) List.suffix_rfl
          (List.take_prefix _ _) htake
        rw [hnil, List.append_nil] at htake
        exact hlt.ne (by rw [← htake, List.length_map])
    rw [List.cons_append, replaceAll_of_not_isPrefix hno,
      ih fun p q hp hq hpt ↦ h p q hp hq (hpt.trans (List.suffix_cons x t)),
      replaceAll_of_not_isPrefix hx, List.cons_append]

theorem mem_or_mem_of_mem_replaceAll (hv : v ≠ []) {ins s : List β} {x : β}
    (hx : x ∈ replaceAll key v ins s) : x ∈ ins ∨ x ∈ s := by
  induction s using cut_induction key hv with
  | nil => simp at hx
  | hit s hs ih =>
    rw [replaceAll_of_isPrefix hv hs, List.mem_append] at hx
    rcases hx with hx | hx
    · exact Or.inl hx
    · exact (ih hx).imp_right (List.drop_subset _ _ ·)
  | miss b t hb ih =>
    rw [replaceAll_of_not_isPrefix hb, List.mem_cons] at hx
    rcases hx with rfl | hx
    · exact Or.inr List.mem_cons_self
    · exact (ih hx).imp_right (List.mem_cons_of_mem b)

theorem replaceAll_eq_self {ins s : List β} (h : ¬v <:+: s.map key) :
    replaceAll key v ins s = s := by
  induction s with
  | nil => rfl
  | cons b t ih =>
    rw [List.map_cons, List.infix_cons_iff, not_or] at h
    rw [replaceAll_of_not_isPrefix (by simpa using h.1), ih h.2]

theorem replaceAll_ne_nil (hv : v ≠ []) {ins s : List β} (hins : ins ≠ []) (hs : s ≠ []) :
    replaceAll key v ins s ≠ [] := by
  obtain ⟨b, t, rfl⟩ := List.exists_cons_of_ne_nil hs
  by_cases h : v <+: (b :: t).map key
  · rw [replaceAll_of_isPrefix hv h]
    exact List.append_ne_nil_of_left_ne_nil hins _
  · rw [replaceAll_of_not_isPrefix h]
    exact List.cons_ne_nil _ _

@[simp] theorem word_cut (hv : v ≠ []) (s : List β) : (cut key v s).word = s := by
  induction s using cut_induction key hv with
  | nil => rfl
  | hit s h ih => rw [cut_of_isPrefix hv h, Cut.word_consRemoved, ih, List.take_append_drop]
  | miss b t h ih => rw [cut_of_not_isPrefix h, Cut.word_cons, ih]

theorem map_key_of_mem_removed (hv : v ≠ []) {s r : List β} (hr : r ∈ (cut key v s).removed) :
    r.map key = v := by
  induction s using cut_induction key hv with
  | nil => simp at hr
  | hit s h ih =>
    rw [cut_of_isPrefix hv h, Cut.removed_consRemoved, List.mem_cons] at hr
    rcases hr with rfl | hr
    · exact take_map_of_isPrefix h
    · exact ih hr
  | miss b t h ih =>
    rw [cut_of_not_isPrefix h, Cut.removed_cons] at hr
    exact ih hr

/-- The pattern occurs in no kept piece. -/
theorem not_infix_of_mem_kept (hv : v ≠ []) {s k : List β} (hk : k ∈ (cut key v s).kept) :
    ¬v <:+: k.map key := by
  induction s using cut_induction key hv generalizing k with
  | nil =>
    rw [cut_nil, Cut.kept_whole, List.mem_singleton] at hk
    subst hk
    simpa using hv
  | hit s h ih =>
    rw [cut_of_isPrefix hv h, Cut.kept_consRemoved, List.mem_cons] at hk
    rcases hk with rfl | hk
    · simpa using hv
    · exact ih hk
  | miss b t h ih =>
    rw [cut_of_not_isPrefix h, Cut.kept, Cut.cons, List.mem_cons] at hk
    rcases hk with rfl | hk
    · rw [List.map_cons, List.infix_cons_iff]
      rintro (hpre | hin)
      · -- an occurrence at the front of the piece is one at the front of the text
        have hhead : (cut key v t).head <+: t := by
          simpa [word_cut hv] using (cut key v t).head_prefix_word
        exact h (hpre.trans ((List.prefix_cons_inj b).mpr hhead |>.map key))
      · exact ih List.mem_cons_self hin
    · exact ih (List.mem_cons_of_mem _ hk)

/-- **Leftmost.** The first letter of every occurrence of the pattern is removed, be it by cutting
that occurrence or by cutting one that starts before it and reaches into it. -/
theorem mem_removed_of_occurrence (hv : v ≠ []) {s u : List β} {x : β} (hu : x :: u <:+ s)
    (h : v <+: (x :: u).map key) : ∃ r ∈ (cut key v s).removed, x ∈ r := by
  induction s using cut_induction key hv with
  | nil => simp at hu
  | hit s hs ih =>
    rw [cut_of_isPrefix hv hs, Cut.removed_consRemoved]
    obtain ⟨a, ha⟩ := hu
    by_cases hlt : a.length < v.length
    · -- the occurrence starts inside the piece cut here
      refine ⟨_, List.mem_cons_self, ?_⟩
      rw [← ha, List.take_append, List.mem_append]
      right
      obtain ⟨n, hn⟩ := Nat.exists_eq_succ_of_ne_zero (Nat.sub_ne_zero_of_lt hlt)
      rw [hn, List.take_succ_cons]
      exact List.mem_cons_self
    · have hsuf : x :: u <:+ s.drop v.length := by
        rw [← ha, List.drop_append_of_le_length (by omega)]
        exact List.suffix_append _ _
      obtain ⟨r, hr, hx⟩ := ih hsuf
      exact ⟨r, List.mem_cons_of_mem _ hr, hx⟩
  | miss b t hb ih =>
    rw [cut_of_not_isPrefix hb, Cut.removed_cons]
    rcases List.suffix_cons_iff.mp hu with heq | hsuf
    · exact absurd (heq ▸ h) hb
    · exact ih hsuf

end Cut

/-! ## Words that keep clear of the marker

A later pass sees the markers written by the earlier ones. A word is `Clear` of the marker when no
occurrence of it can meet one: neither lies inside the other, and neither runs into the other from
the left or from the right. -/

/-- No occurrence of `v` can meet an occurrence of `m`. -/
structure Clear (m v : List α) : Prop where
  /-- `v` is not contained in `m`. -/
  not_infix : ¬v <:+: m
  /-- `v` does not contain `m`. -/
  not_contains : ¬m <:+: v
  /-- No non-empty proper suffix of `v` is a prefix of `m`. -/
  drop_not_prefix : ∀ i < v.length, 0 < i → ¬v.drop i <+: m
  /-- No non-empty proper prefix of `v` is a suffix of `m`. -/
  take_not_suffix : ∀ i < v.length, 0 < i → ¬v.take i <:+ m

namespace Clear

variable {m v : List α}

instance [DecidableEq α] : Decidable (Clear m v) :=
  decidable_of_iff (¬v <:+: m ∧ ¬m <:+: v ∧ (∀ i < v.length, 0 < i → ¬v.drop i <+: m) ∧
      ∀ i < v.length, 0 < i → ¬v.take i <:+ m)
    ⟨fun ⟨h₁, h₂, h₃, h₄⟩ ↦ ⟨h₁, h₂, h₃, h₄⟩, fun ⟨h₁, h₂, h₃, h₄⟩ ↦ ⟨h₁, h₂, h₃, h₄⟩⟩

theorem ne_nil (h : Clear m v) : v ≠ [] := by
  rintro rfl
  exact h.not_infix (List.nil_infix)

theorem not_suffix_prefix (h : Clear m v) {p q : List α} (hpq : v = p ++ q) (hp : p ≠ [])
    (hq : q ≠ []) : ¬q <+: m := by
  have := h.drop_not_prefix p.length
    (by rw [hpq, List.length_append]; have := List.length_pos_iff.mpr hq; omega)
    (List.length_pos_iff.mpr hp)
  rwa [hpq, List.drop_left] at this

theorem not_prefix_suffix (h : Clear m v) {p q : List α} (hpq : v = p ++ q) (hp : p ≠ [])
    (hq : q ≠ []) : ¬p <:+ m := by
  have := h.take_not_suffix p.length
    (by rw [hpq, List.length_append]; have := List.length_pos_iff.mpr hq; omega)
    (List.length_pos_iff.mpr hp)
  rwa [hpq, List.take_left] at this

theorem infix_or_infix_of_infix_append_mark {key : β → α} {m : List β} (h : Clear (m.map key) v)
    {a b r : List β} (hr : r.map key = v) (hin : r <:+: a ++ (m ++ b)) : r <:+: a ∨ r <:+: b := by
  subst hr
  rcases List.infix_append_iff_ne_nil.mp hin with hra | hmb | ⟨p, q, hp, hq, rfl, -, hqm⟩
  · exact Or.inl hra
  · rcases List.infix_append_iff_ne_nil.mp hmb with hrm | hrb | ⟨p, q, hp, hq, rfl, hpm, -⟩
    · exact absurd (hrm.map key) h.not_infix
    · exact Or.inr hrb
    · exact absurd (hpm.map key)
        (h.not_prefix_suffix (List.map_append ..) (by simpa using hp) (by simpa using hq))
  · rcases List.prefix_or_prefix_of_prefix hqm (List.prefix_append m b) with hqm | ⟨q', rfl⟩
    · exact absurd (hqm.map key)
        (h.not_suffix_prefix (List.map_append ..) (by simpa using hp) (by simpa using hq))
    · exact absurd ((List.infix_append' p m q').map key) (by simpa using h.not_contains)

end Clear

theorem Clear.exists_kept_of_infix_mark {key : β → α} {m : List β} {v : List α}
    (h : Clear (m.map key) v) {c : Cut β} {r : List β} (hr : r.map key = v)
    (hin : r <:+: c.mark m) : ∃ k ∈ c.kept, r <:+: k := by
  obtain ⟨hd, t⟩ := c
  induction t generalizing hd with
  | nil => exact ⟨hd, List.mem_cons_self, by simpa [Cut.mark] using hin⟩
  | cons p t ih =>
    have hcons : (Cut.mk hd (p :: t)).mark m = hd ++ (m ++ (Cut.mk p.2 t).mark m) := by
      simp [Cut.mark]
    rw [hcons] at hin
    rcases h.infix_or_infix_of_infix_append_mark hr hin with hl | hl
    · exact ⟨hd, List.mem_cons_self, hl⟩
    · obtain ⟨k, hk, hrk⟩ := ih p.2 hl
      exact ⟨k, List.mem_cons_of_mem _ hk, hrk⟩

theorem Clear.exists_kept_infix {m v : List α} (h : Clear m v) {c : Cut α}
    (hin : v <:+: c.mark m) : ∃ k ∈ c.kept, v <:+: k := by
  have h' : Clear (m.map id) v := by rwa [List.map_id]
  exact h'.exists_kept_of_infix_mark (List.map_id v) hin

section Replace

variable [DecidableEq α] {m v w : List α}

/-- **A pass removes its pattern**: no occurrence is left in the text, and writing the markers
makes none. -/
theorem not_infix_replaceAll (hv : Clear m v) (s : List α) : ¬v <:+: replaceAll id v m s := by
  intro h
  obtain ⟨k, hk, hin⟩ := hv.exists_kept_infix h
  exact not_infix_of_mem_kept hv.ne_nil hk (by simpa using hin)

/-- **A pass brings nothing back**: what is clear of the marker and occurs afterwards occurred
before. -/
theorem infix_of_infix_replaceAll (hv : v ≠ []) (hw : Clear m w) {s : List α}
    (h : w <:+: replaceAll id v m s) : w <:+: s := by
  obtain ⟨k, hk, hin⟩ := hw.exists_kept_infix h
  have hks := Cut.kept_infix_word hk
  rw [word_cut hv] at hks
  exact hin.trans hks

end Replace

end Words
