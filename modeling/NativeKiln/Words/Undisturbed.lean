import NativeKiln.Words.Passes
import Mathlib.Data.List.Chain

/-!
# Passes that are not disturbed

Two conditions on the words alone under which no text disturbs the passes. A word that avoids the
two ends of the marker is found inside markers or in the text, but not across: where the text meets
what the passes wrote, it meets the first or the last letter of a marker, since that is so of the
marker itself and every pass keeps it so (`isChain_replaceEach`). A word that is clear of the marker
is found in the text only.
-/

namespace Words

variable {α β : Type*}

section Undisturbed

variable [DecidableEq α] {key : β → α} {ins s : List β} {vs : List (List α)} {v : List α}

/-! ## Neighbours -/

theorem mem_head?_replaceAll (hv : v ≠ []) (hins : ins ≠ []) {y : β}
    (hy : y ∈ (replaceAll key v ins s).head?) : y ∈ ins.head? ∨ y ∈ s.head? := by
  cases s with
  | nil => simp at hy
  | cons b t =>
    by_cases h : v <+: (b :: t).map key
    · left
      rwa [replaceAll_of_isPrefix hv h, List.head?_append_of_ne_nil _ hins] at hy
    · right
      rwa [replaceAll_of_not_isPrefix h] at hy

/-- A relation between neighbours that the marker fits into everywhere survives a pass. -/
theorem isChain_replaceAll (hv : v ≠ []) (hins : ins ≠ []) {R : β → β → Prop}
    (hmark : ins.IsChain R) (hhead : ∀ y ∈ ins.head?, ∀ x, R x y)
    (hlast : ∀ x ∈ ins.getLast?, ∀ y, R x y) (hs : s.IsChain R) :
    (replaceAll key v ins s).IsChain R := by
  induction s using cut_induction key hv with
  | nil => exact List.isChain_nil
  | hit s h ih =>
    rw [replaceAll_of_isPrefix hv h]
    exact hmark.append (ih (hs.drop _)) fun x hx y _ ↦ hlast x hx y
  | miss b t h ih =>
    rw [List.isChain_cons] at hs
    rw [replaceAll_of_not_isPrefix h, List.isChain_cons]
    refine ⟨fun y hy ↦ ?_, ih hs.2⟩
    rcases mem_head?_replaceAll hv hins hy with hy | hy
    · exact hhead y hy b
    · exact hs.1 y hy

theorem isChain_replaceEach (hvs : ∀ v ∈ vs, v ≠ []) (hins : ins ≠ []) {R : β → β → Prop}
    (hmark : ins.IsChain R) (hhead : ∀ y ∈ ins.head?, ∀ x, R x y)
    (hlast : ∀ x ∈ ins.getLast?, ∀ y, R x y) (hs : s.IsChain R) :
    (replaceEach key vs ins s).IsChain R := by
  induction vs using List.reverseRecOn with
  | nil => exact hs
  | append_singleton vs v ih =>
    rw [replaceEach_concat]
    exact isChain_replaceAll (hvs v (by simp)) hins hmark hhead hlast
      (ih fun w hw ↦ hvs w (List.mem_append_left _ hw))

/-- Two neighbours in a text with markers: where the text meets a marker, it meets its first or its
last letter. -/
structure Neighbours (ins s : List β) (x y : β) : Prop where
  /-- Letters of the text that stand side by side did so before. -/
  text : x ∉ ins → y ∉ ins → [x, y] <:+: s
  /-- A marker begins behind a letter of the text. -/
  opens : x ∉ ins → y ∈ ins → y ∈ ins.head?
  /-- A marker ends in front of a letter of the text. -/
  closes : x ∈ ins → y ∉ ins → x ∈ ins.getLast?

theorem isChain_neighbours (hvs : ∀ v ∈ vs, v ≠ []) (hins : ins ≠ []) (hs : ∀ x ∈ s, x ∉ ins) :
    (replaceEach key vs ins s).IsChain (Neighbours ins s) := by
  refine isChain_replaceEach hvs hins ?_ (fun y hy x ↦ ?_) (fun x hx y ↦ ?_) ?_
  · refine (List.pairwise_of_forall_mem_list fun x hx y hy ↦ ?_).isChain
    exact ⟨fun hx' ↦ absurd hx hx', fun hx' ↦ absurd hx hx', fun _ hy' ↦ absurd hy hy'⟩
  · have hmem := List.mem_of_head? hy
    exact ⟨fun _ hy' ↦ absurd hmem hy', fun _ _ ↦ hy, fun _ hy' ↦ absurd hmem hy'⟩
  · have hmem := List.mem_of_getLast? hx
    exact ⟨fun hx' ↦ absurd hmem hx', fun hx' ↦ absurd hmem hx', fun _ _ ↦ hx⟩
  · refine List.isChain_iff_forall_rel_of_append_cons_cons.mpr fun x y a b hab ↦ ?_
    have hx : x ∉ ins := hs x (by simp [hab])
    have hy : y ∉ ins := hs y (by simp [hab])
    exact ⟨fun _ _ ↦ ⟨a, b, by simp [hab]⟩, fun _ hy' ↦ absurd hy' hy, fun hx' ↦ absurd hx' hx⟩

omit [DecidableEq α] in
theorem infix_of_overlap (hs : s.Nodup) {x y : β} {r : List β} (hxy : [x, y] <:+: s)
    (hr : y :: r <:+: s) : x :: y :: r <:+: s := by
  obtain ⟨a, b, rfl⟩ := hxy
  obtain ⟨c, d, hcd⟩ := hr
  have hcut : (a ++ [x]) ++ y :: b = c ++ y :: (r ++ d) := by simpa using hcd.symm
  have hnd : (c ++ y :: (r ++ d)).Nodup := by simpa [← hcut] using hs
  rw [List.nodup_middle, List.nodup_cons, List.mem_append, not_or] at hnd
  obtain ⟨rfl, -, rfl⟩ := (List.append_cons_inj_of_notMem hnd.1.1 hnd.1.2).mp hcut.symm
  exact ⟨a, d, by simp⟩

/-- Neighbours that avoid the two ends of the marker are all of them letters of a marker, or they
stand in the text. -/
theorem forall_mem_or_infix_of_isChain (hs : s.Nodup) {r : List β}
    (hr : r.IsChain (Neighbours ins s)) (hmem : ∀ x ∈ r, x ∈ ins ∨ x ∈ s)
    (hhead : ∀ x ∈ r, x ∉ ins.head?) (hlast : ∀ x ∈ r, x ∉ ins.getLast?) :
    (∀ x ∈ r, x ∈ ins) ∨ (∀ x ∈ r, x ∉ ins) ∧ r <:+: s := by
  induction r with
  | nil => exact Or.inl (by simp)
  | cons x r ih =>
    cases r with
    | nil =>
      by_cases hx : x ∈ ins
      · exact Or.inl (by simpa using hx)
      · refine Or.inr ⟨by simpa using hx, ?_⟩
        exact List.singleton_infix_iff _ _ |>.mpr ((hmem x (by simp)).resolve_left hx)
    | cons y r =>
      obtain ⟨hxy, hrest⟩ := List.isChain_cons_cons.mp hr
      rcases ih hrest (fun z hz ↦ hmem z (List.mem_cons_of_mem x hz))
        (fun z hz ↦ hhead z (List.mem_cons_of_mem x hz))
        (fun z hz ↦ hlast z (List.mem_cons_of_mem x hz)) with hall | ⟨hall, hin⟩
      · -- a marker does not begin here
        left
        have hy := hall y List.mem_cons_self
        have hx : x ∈ ins := by
          by_contra hx
          exact hhead y (by simp) (hxy.opens hx hy)
        exact List.forall_mem_cons.mpr ⟨hx, hall⟩
      · -- nor does one end
        right
        have hy := hall y List.mem_cons_self
        have hx : x ∉ ins := fun hx ↦ hlast x (by simp) (hxy.closes hx hy)
        exact ⟨List.forall_mem_cons.mpr ⟨hx, hall⟩, infix_of_overlap hs (hxy.text hx hy) hin⟩

/-! ## The two conditions -/

variable {live : β → Prop} [DecidablePred live]

/-- It is enough to look at the texts that the passes themselves leave. -/
theorem undisturbed_of_unmixed (hvs : ∀ v ∈ vs, v ≠ []) (hnd : vs.Nodup) (hins : ins ≠ [])
    (hdead : ∀ x ∈ ins, ¬live x)
    (hlive : ∀ v ∈ vs, ∀ r, r <:+: s → r.map key = v → ∀ x ∈ r, live x)
    (h : ∀ pre v, pre ++ [v] <+: vs → Unmixed key live v (replaceEach key pre ins s)) :
    Undisturbed key live vs ins s := by
  induction vs using List.reverseRecOn with
  | nil => exact fun pre v hpre ↦ absurd hpre (by simp)
  | append_singleton vs v ih =>
    have hvs' : ∀ w ∈ vs, w ≠ [] := fun w hw ↦ hvs w (List.mem_append_left _ hw)
    have hlive' : ∀ w ∈ vs, ∀ r, r <:+: s → r.map key = w → ∀ x ∈ r, live x :=
      fun w hw ↦ hlive w (List.mem_append_left _ hw)
    have hnd' : vs.Nodup := hnd.sublist (List.sublist_append_left _ _)
    have hold := ih hvs' hnd' hlive' fun pre w hpre ↦
      h pre w (hpre.trans (List.prefix_append vs [v]))
    intro pre w hpre
    rcases List.prefix_concat_iff.mp hpre with heq | hpre'
    · obtain ⟨rfl, hw⟩ := List.append_inj' heq rfl
      rw [← replaceEach_eq_fill hvs' hnd' hins hdead hlive' hold]
      exact h pre w hpre
    · exact hold pre w hpre'

/-- **Words that avoid the two ends of the marker** are found in markers or in the text, whatever
the text is. -/
theorem undisturbed_of_notMem (hvs : ∀ v ∈ vs, v ≠ []) (hnd : vs.Nodup) (hins : ins ≠ [])
    (hs : s.Nodup) (hsins : ∀ x ∈ s, x ∉ ins) (hdead : ∀ x ∈ ins, ¬live x)
    (hlive : ∀ v ∈ vs, ∀ r, r <:+: s → r.map key = v → ∀ x ∈ r, live x)
    (hhead : ∀ v ∈ vs, ∀ y ∈ ins.head?, key y ∉ v)
    (hlast : ∀ v ∈ vs, ∀ y ∈ ins.getLast?, key y ∉ v) : Undisturbed key live vs ins s := by
  refine undisturbed_of_unmixed hvs hnd hins hdead hlive fun pre v hpre r hin hr ↦ ?_
  have hmem : ∀ w ∈ pre ++ [v], w ∈ vs := fun w hw ↦ hpre.subset hw
  have hpre' : ∀ w ∈ pre, w ≠ [] := fun w hw ↦ hvs w (hmem w (by simp [hw]))
  have hv : v ∈ vs := hmem v (by simp)
  have hread : ∀ x ∈ r, key x ∈ v := fun x hx ↦ hr ▸ List.mem_map_of_mem hx
  have hchain : r.IsChain (Neighbours ins s) := by
    have hout : (replaceEach key pre ins s).IsChain _ := isChain_neighbours hpre' hins hsins
    obtain ⟨a, b, hab⟩ := hin
    rw [← hab] at hout
    exact hout.left_of_append.right_of_append
  rcases forall_mem_or_infix_of_isChain hs hchain
    (fun x hx ↦ mem_or_mem_of_mem_replaceEach hpre' (hin.subset hx))
    (fun x hx hx' ↦ hhead v hv x hx' (hread x hx))
    (fun x hx hx' ↦ hlast v hv x hx' (hread x hx)) with hall | ⟨-, hrs⟩
  · exact Or.inr fun x hx ↦ hdead x (hall x hx)
  · exact Or.inl (hlive v hv r hrs hr)

/-- **Words that are clear of the marker** are found in the text that is left alone. -/
theorem undisturbed_of_clear (hvs : ∀ v ∈ vs, Clear (ins.map key) v) (hnd : vs.Nodup)
    (hins : ins ≠ []) (hdead : ∀ x ∈ ins, ¬live x)
    (hlive : ∀ v ∈ vs, ∀ r, r <:+: s → r.map key = v → ∀ x ∈ r, live x) :
    Undisturbed key live vs ins s := by
  refine undisturbed_of_unmixed (fun v hv ↦ (hvs v hv).ne_nil) hnd hins hdead hlive
    fun pre v hpre r hin hr ↦ ?_
  have hmem : ∀ w ∈ pre ++ [v], w ∈ vs := fun w hw ↦ hpre.subset hw
  have hpre' : ∀ w ∈ pre, Clear (ins.map key) w := fun w hw ↦ hvs w (hmem w (by simp [hw]))
  have hv : v ∈ vs := hmem v (by simp)
  rw [replaceEach_eq_mark hpre'] at hin
  obtain ⟨k, hk, hrk⟩ := (hvs v hv).exists_kept_of_infix_mark hr hin
  have hks := Cut.kept_infix_word hk
  rw [word_cutEach fun w hw ↦ (hpre' w hw).ne_nil] at hks
  exact Or.inl (hlive v hv r (hrk.trans hks) hr)

end Undisturbed

end Words
