import NativeKiln.Words.Undisturbed
import Mathlib.Data.List.Perm.Basic
import Mathlib.Data.List.Pairwise
import Mathlib.Data.Prod.Lex
import Mathlib.Order.WellFounded
import Mathlib.Data.Set.Basic

/-!
# Which occurrences go

What a run of replacements removes is described without running it. An occurrence *ranks before*
another when its word is listed earlier, or the word is the same and it starts further left. A
`Selection` is a set of pairwise disjoint occurrences such that every occurrence meets a selected
one that ranks no later. There is exactly one, and it is what the passes remove
(`selection_removedBy`, `Selection.unique`).

With the selections of the initial parts of the list the texts in between are described as well: the
selected occurrences are cut out, the letters of the other occurrences stay as they are, and
something stands in for what is between these. So that no word is found on letters of an occurrence
together with others is a property of the words, the marker and the text (`EdgesApart`), and where
it holds the selection says which letters of the occurrences are left
(`mem_replaceEach_tagged_iff`).
-/

namespace Words

variable {α β : Type*}

/-! ## The pieces of a cut -/

namespace Cut

theorem infix_kept_of_infix_word {c : Cut β} (hne : ∀ r ∈ c.removed, r ≠ []) {o : List β}
    (ho : o <:+: c.word) (hdis : ∀ x ∈ o, x ∉ c.removed.flatten) : ∃ k ∈ c.kept, o <:+: k := by
  obtain ⟨h, t⟩ := c
  induction t generalizing h with
  | nil => exact ⟨h, List.mem_cons_self, by simpa [word] using ho⟩
  | cons p t ih =>
    have hp : p.1 ≠ [] := hne p.1 (by simp [removed])
    have hnot : ∀ x ∈ o, x ∉ p.1 := fun x hx hxp ↦
      hdis x hx (by simp only [removed, List.map_cons, List.flatten_cons, List.mem_append]
                    exact Or.inl hxp)
    have hword : (Cut.mk h (p :: t)).word = h ++ (p.1 ++ (Cut.mk p.2 t).word) := by
      simp [word]
    rw [hword] at ho
    rcases List.infix_append_iff_ne_nil.mp ho with hh | hrest | ⟨u, w, -, hw, rfl, -, hpre⟩
    · exact ⟨h, List.mem_cons_self, hh⟩
    · rcases List.infix_append_iff_ne_nil.mp hrest with hr | hk | ⟨u, w, hu, -, rfl, hsuf, -⟩
      · cases o with
        | nil => exact ⟨h, List.mem_cons_self, List.nil_infix⟩
        | cons x o => exact absurd (hr.subset List.mem_cons_self) (hnot x List.mem_cons_self)
      · obtain ⟨k, hk, hok⟩ := ih p.2 (fun r hr ↦ hne r (by simp [removed] at hr ⊢; tauto)) hk
          (fun x hx hxt ↦ hdis x hx (by
            simp only [removed, List.map_cons, List.flatten_cons, List.mem_append] at hxt ⊢
            exact Or.inr hxt))
        exact ⟨k, List.mem_cons_of_mem _ hk, hok⟩
      · obtain ⟨x, hx⟩ := List.exists_mem_of_ne_nil u hu
        exact absurd (hsuf.subset hx) (hnot x (List.mem_append_left _ hx))
    · -- the part behind `h` starts with a letter of the removed piece
      obtain ⟨x, p', hxp⟩ := List.exists_cons_of_ne_nil hp
      obtain ⟨y, w', rfl⟩ := List.exists_cons_of_ne_nil hw
      rw [hxp, List.cons_append, List.cons_prefix_cons] at hpre
      refine absurd ?_ (hnot y (by simp))
      rw [hxp, hpre.1]
      exact List.mem_cons_self

theorem removed_eq_of_mem {c : Cut β} (hc : c.word.Nodup) {r r' : List β} {x : β}
    (hr : r ∈ c.removed) (hr' : r' ∈ c.removed) (hx : x ∈ r) (hx' : x ∈ r') : r = r' := by
  have hnd : c.removed.flatten.Nodup := (List.nodup_append.mp (c.word_perm.nodup_iff.mp hc)).2.1
  by_contra hne
  have : Std.Symm (@List.Disjoint β) := ⟨fun _ _ h _ hx hx' ↦ h hx' hx⟩
  exact (List.nodup_flatten.mp hnd).2.forall hr hr' hne hx hx'

theorem mem_kept_iff {c : Cut β} (hc : c.word.Nodup) {x : β} :
    x ∈ c.kept.flatten ↔ x ∈ c.word ∧ x ∉ c.removed.flatten := by
  have hnd := List.nodup_append.mp (c.word_perm.nodup_iff.mp hc)
  rw [c.word_perm.mem_iff, List.mem_append]
  constructor
  · exact fun hx ↦ ⟨Or.inl hx, fun hr ↦ hnd.2.2 x hx x hr rfl⟩
  · rintro ⟨hx | hx, hr⟩
    · exact hx
    · exact absurd hx hr

theorem mem_removed_tail {h : List β} {p : List β × List β} {t : List (List β × List β)}
    (hnd : (Cut.mk h (p :: t)).word.Nodup) (hne : p.1 ≠ []) {r : List β} :
    r ∈ (Cut.mk p.2 t).removed ↔ r ∈ (Cut.mk h (p :: t)).removed ∧ r ≠ p.1 := by
  have hflat := (List.nodup_append.mp ((word_perm _).nodup_iff.mp hnd)).2.1
  rw [removed, List.map_cons, List.flatten_cons] at hflat
  rw [removed, removed, List.map_cons, List.mem_cons]
  constructor
  · intro hr
    refine ⟨Or.inr hr, ?_⟩
    rintro rfl
    obtain ⟨x, hx⟩ := List.exists_mem_of_ne_nil _ hne
    exact (List.nodup_append.mp hflat).2.2 x hx x (List.mem_flatten_of_mem hr hx) rfl
  · rintro ⟨rfl | hr, hrp⟩
    · exact absurd rfl hrp
    · exact hr

/-- What stands before the first removed piece is at most as long in one of two cuts of a word as
in the other, when the first piece the one removes is also removed by the other. -/
theorem head_length_le {h h' : List β} {p : List β × List β} {t t' : List (List β × List β)}
    (hw : (Cut.mk h (p :: t)).word = (Cut.mk h' t').word) (hnd : (Cut.mk h (p :: t)).word.Nodup)
    (hne : p.1 ≠ []) (hp : p.1 ∈ (Cut.mk h' t').removed) : h'.length ≤ h.length := by
  obtain ⟨x, r, hx⟩ := List.exists_cons_of_ne_nil hne
  by_contra! hlt
  have hword : (Cut.mk h (p :: t)).word = h ++ x :: (r ++ (Cut.mk p.2 t).word) := by
    simp [word, hx]
  -- the letter at that place is kept on one side and removed on the other
  have hkept : x ∈ h' := by
    have hget : (Cut.mk h' t').word[h.length]? = some x := by
      rw [← hw, hword, List.getElem?_append_right le_rfl, Nat.sub_self, List.getElem?_cons_zero]
    rw [word, List.getElem?_append_left hlt] at hget
    exact List.mem_of_getElem? hget
  rw [hw] at hnd
  refine ((mem_kept_iff hnd).mp ?_).2 (List.mem_flatten_of_mem hp (hx ▸ List.mem_cons_self))
  exact List.mem_flatten_of_mem List.mem_cons_self hkept

/-- **A cut is known by what it removes.** Two cuts of a word without repeated letters that remove
the same non-empty pieces are equal. -/
theorem eq_of_removed {c c' : Cut β} (hw : c.word = c'.word) (hnd : c.word.Nodup)
    (hne : ∀ r ∈ c.removed, r ≠ []) (hr : ∀ r, r ∈ c.removed ↔ r ∈ c'.removed) : c = c' := by
  obtain ⟨h, t⟩ := c
  obtain ⟨h', t'⟩ := c'
  induction t generalizing h h' t' with
  | nil =>
    cases t' with
    | nil => simpa [word] using hw
    | cons p' t' => exact absurd ((hr p'.1).mpr (by simp [removed])) (by simp [removed])
  | cons p t ih =>
    cases t' with
    | nil => exact absurd ((hr p.1).mp (by simp [removed])) (by simp [removed])
    | cons p' t' =>
      have hp : p.1 ∈ (Cut.mk h (p :: t)).removed := List.mem_cons_self
      have hp' : p'.1 ∈ (Cut.mk h' (p' :: t')).removed := List.mem_cons_self
      have hlen : h.length = h'.length := le_antisymm
        (head_length_le hw.symm (hw ▸ hnd) (hne _ ((hr _).mpr hp')) ((hr _).mpr hp'))
        (head_length_le hw hnd (hne _ hp) ((hr _).mp hp))
      obtain ⟨rfl, hrest⟩ := List.append_inj hw hlen
      -- the first removed pieces start with the same letter
      have hpiece : p.1 = p'.1 := by
        obtain ⟨x, r, hx⟩ := List.exists_cons_of_ne_nil (hne _ hp)
        obtain ⟨y, r', hy⟩ := List.exists_cons_of_ne_nil (hne _ ((hr _).mpr hp'))
        have hxy : x = y := by
          simp only [List.flatMap_cons, hx, hy, List.cons_append, List.cons.injEq] at hrest
          exact hrest.1
        exact removed_eq_of_mem hnd hp ((hr _).mpr hp') (hx ▸ List.mem_cons_self)
          (hxy ▸ hy ▸ List.mem_cons_self)
      obtain ⟨r, k⟩ := p
      obtain ⟨r', k'⟩ := p'
      obtain rfl : r = r' := hpiece
      have hword : (Cut.mk k t).word = (Cut.mk k' t').word := by
        simpa [word] using hrest
      have htail : (Cut.mk k t).word.Nodup := by
        refine hnd.sublist ?_
        simp only [word, List.flatMap_cons, List.append_assoc]
        exact (List.sublist_append_right r _).trans (List.sublist_append_right h _)
      have hnil : r ≠ [] := hne _ hp
      have heq := ih k htail (fun s hs ↦ hne s (List.mem_cons_of_mem _ hs)) k' t' hword fun s ↦ by
        rw [mem_removed_tail (h := h) (p := (r, k)) hnd hnil,
          mem_removed_tail (h := h) (p := (r, k')) (hw ▸ hnd) hnil, hr]
      rw [Cut.mk.injEq] at heq
      rw [heq.1, heq.2]

end Cut

/-! ## Occurrences and selections -/

/-- A word at a position of a text. -/
@[ext] structure Occurrence (α : Type*) where
  /-- The word. -/
  word : List α
  /-- The position of its first letter. -/
  start : ℕ

namespace Occurrence

/-- The word stands in `s` at that position. -/
def In (s : List α) (o : Occurrence α) : Prop := o.word <+: s.drop o.start

/-- Position `i` lies inside the occurrence. -/
def Covers (o : Occurrence α) (i : ℕ) : Prop := o.start ≤ i ∧ i < o.start + o.word.length

/-- The two occurrences have a position in common. -/
def Meets (o o' : Occurrence α) : Prop := ∃ i, o.Covers i ∧ o'.Covers i

theorem Meets.symm {o o' : Occurrence α} (h : o.Meets o') : o'.Meets o :=
  h.imp fun _ hi ↦ hi.symm

/-- The order in which the occurrences of the listed words are tried: by the place of the word in
the list, then from left to right. -/
def rank [DecidableEq α] (vs : List (List α)) (o : Occurrence α) : ℕ ×ₗ ℕ :=
  toLex (vs.idxOf o.word, o.start)

theorem eq_of_rank_eq [DecidableEq α] {vs : List (List α)} {o o' : Occurrence α}
    (ho : o.word ∈ vs) (h : o.rank vs = o'.rank vs) : o = o' := by
  rw [rank, rank, toLex_inj, Prod.mk.injEq] at h
  exact Occurrence.ext (List.idxOf_inj ho |>.mp h.1) h.2

end Occurrence

/-- A choice among the occurrences of the listed words: no two chosen ones meet, and every
occurrence meets a chosen one that ranks no later. -/
structure Selection [DecidableEq α] (vs : List (List α)) (s : List α)
    (W : Set (Occurrence α)) : Prop where
  /-- Only occurrences of the listed words are chosen. -/
  occurs : ∀ o ∈ W, o.word ∈ vs ∧ o.In s
  /-- Chosen occurrences keep apart. -/
  apart : ∀ o ∈ W, ∀ o' ∈ W, o.Meets o' → o = o'
  /-- What is not chosen gave way to a chosen one that ranks no later. -/
  dominates : ∀ o : Occurrence α, o.word ∈ vs → o.In s →
    ∃ o' ∈ W, o'.rank vs ≤ o.rank vs ∧ o'.Meets o

/-- There is at most one selection: by induction on the rank, both choose the same occurrences. -/
theorem Selection.unique [DecidableEq α] {vs : List (List α)} {s : List α}
    {W W' : Set (Occurrence α)} (h : Selection vs s W) (h' : Selection vs s W') : W = W' := by
  have key : ∀ r : ℕ ×ₗ ℕ, ∀ o : Occurrence α, o.rank vs = r → (o ∈ W ↔ o ∈ W') := by
    intro r
    induction r using WellFoundedLT.induction with
    | _ r ih =>
      -- one inclusion, for either side
      have step : ∀ {V V' : Set (Occurrence α)}, Selection vs s V → Selection vs s V' →
          (∀ o : Occurrence α, o.rank vs < r → o ∈ V' → o ∈ V) →
          ∀ o : Occurrence α, o.rank vs = r → o ∈ V → o ∈ V' := by
        intro V V' hV hV' hlt o ho hoV
        obtain ⟨hw, hin⟩ := hV.occurs o hoV
        obtain ⟨o', ho', hle, hm⟩ := hV'.dominates o hw hin
        rcases hle.lt_or_eq with hlt' | heq
        · rw [← hV.apart o' (hlt o' (ho ▸ hlt') ho') o hoV hm]
          exact ho'
        · rwa [← Occurrence.eq_of_rank_eq (hV'.occurs o' ho').1 heq]
      intro o ho
      exact ⟨step h h' (fun p hp hp' ↦ (ih _ hp p rfl).mpr hp') o ho,
        step h' h (fun p hp hp' ↦ (ih _ hp p rfl).mp hp') o ho⟩
  ext o
  exact key _ o rfl

/-! ## Letters that remember where they stood -/

/-- A text whose letters remember their position. -/
def tagged (s : List α) : List (α × Option ℕ) := s.zipIdx.map fun p ↦ (p.1, some p.2)

/-- A word whose letters come from no position. -/
def untagged (m : List α) : List (α × Option ℕ) := m.map fun a ↦ (a, none)

@[simp] theorem map_fst_tagged (s : List α) : (tagged s).map Prod.fst = s := by
  rw [tagged, List.map_map]
  exact List.zipIdx_map_fst 0 s

@[simp] theorem map_fst_untagged (m : List α) : (untagged m).map Prod.fst = m := by
  simp [untagged, Function.comp_def]

theorem snd_of_mem_untagged {m : List α} {x : α × Option ℕ} (hx : x ∈ untagged m) :
    x.2 = none := by
  obtain ⟨a, -, rfl⟩ := List.mem_map.mp hx
  rfl

theorem getElem?_tagged (s : List α) (i : ℕ) :
    (tagged s)[i]? = s[i]?.map fun a ↦ (a, some i) := by
  simp [tagged, List.getElem?_zipIdx, Function.comp_def]

theorem mem_tagged {s : List α} {x : α × Option ℕ} :
    x ∈ tagged s ↔ ∃ i a, s[i]? = some a ∧ x = (a, some i) := by
  simp only [List.mem_iff_getElem?, getElem?_tagged, Option.map_eq_some_iff]
  exact ⟨fun ⟨i, a, ha, hx⟩ ↦ ⟨i, a, ha, hx.symm⟩, fun ⟨i, a, ha, hx⟩ ↦ ⟨i, a, ha, hx.symm⟩⟩

theorem notMem_untagged_of_mem_tagged {m s : List α} {x : α × Option ℕ} (hx : x ∈ tagged s) :
    x ∉ untagged m := by
  intro hm
  obtain ⟨i, a, -, rfl⟩ := mem_tagged.mp hx
  simpa using snd_of_mem_untagged hm

theorem nodup_tagged (s : List α) : (tagged s).Nodup := by
  refine List.Nodup.of_map Prod.snd ?_
  rw [tagged, List.map_map,
    show (Prod.snd ∘ fun p : α × ℕ ↦ (p.1, some p.2)) = some ∘ Prod.snd from rfl, ← List.map_map,
    List.zipIdx_map_snd]
  exact (List.nodup_range' ..).map (Option.some_injective ℕ)

namespace Occurrence

/-- The letters of an occurrence, with the positions they come from. -/
def piece (s : List α) (o : Occurrence α) : List (α × Option ℕ) :=
  ((tagged s).drop o.start).take o.word.length

variable {s : List α} {o : Occurrence α}

theorem map_fst_piece (h : o.In s) : (o.piece s).map Prod.fst = o.word := by
  rw [piece, List.map_take, List.map_drop, map_fst_tagged]
  exact (List.prefix_iff_eq_take.mp h).symm

theorem piece_infix : o.piece s <:+: tagged s :=
  (List.take_prefix _ _).isInfix.trans (List.drop_suffix _ _).isInfix

theorem mem_piece {x : α × Option ℕ} :
    x ∈ o.piece s ↔ ∃ i a, o.Covers i ∧ s[i]? = some a ∧ x = (a, some i) := by
  simp only [piece, List.mem_iff_getElem?, List.getElem?_take, List.getElem?_drop,
    getElem?_tagged]
  constructor
  · rintro ⟨n, hn⟩
    split at hn
    case isFalse => simp at hn
    case isTrue hlt =>
      obtain ⟨a, ha, rfl⟩ := Option.map_eq_some_iff.mp hn
      exact ⟨o.start + n, a, ⟨by omega, by omega⟩, ha, rfl⟩
  · rintro ⟨i, a, ⟨hle, hlt⟩, ha, rfl⟩
    refine ⟨i - o.start, ?_⟩
    rw [if_pos (by omega), show o.start + (i - o.start) = i by omega, ha, Option.map_some]

theorem Covers.lt_length (hc : o.Covers i) (h : o.In s) : i < s.length := by
  have hlen : o.word.length ≤ s.length - o.start := by simpa using h.length_le
  obtain ⟨hle, hlt⟩ := hc
  omega

theorem covers_start (hne : o.word ≠ []) : o.Covers o.start :=
  ⟨le_rfl, Nat.lt_add_of_pos_right (List.length_pos_iff.mpr hne)⟩

theorem exists_piece_cons (h : o.In s) (hne : o.word ≠ []) :
    ∃ a u, o.piece s = (a, some o.start) :: u := by
  obtain ⟨a, ha⟩ : ∃ a, s[o.start]? = some a :=
    ⟨_, List.getElem?_eq_some_iff.mpr ⟨(covers_start hne).lt_length h, rfl⟩⟩
  have hhead : (o.piece s).head? = some (a, some o.start) := by
    rw [List.head?_eq_getElem?, piece, List.getElem?_take,
      if_pos (List.length_pos_iff.mpr hne), List.getElem?_drop, Nat.add_zero, getElem?_tagged, ha,
      Option.map_some]
  exact ⟨a, List.head?_eq_some_iff.mp hhead⟩

/-- Every factor of the tagged text is the piece of an occurrence. -/
theorem exists_piece_eq {r : List (α × Option ℕ)} (hr : r <:+: tagged s) :
    ∃ o : Occurrence α, o.In s ∧ o.piece s = r ∧ o.word = r.map Prod.fst := by
  obtain ⟨a, b, hab⟩ := hr
  have hs : s = a.map Prod.fst ++ (r.map Prod.fst ++ b.map Prod.fst) := by
    rw [← map_fst_tagged s, ← hab]
    simp
  refine ⟨⟨r.map Prod.fst, a.length⟩, ?_, ?_, rfl⟩
  · rw [In, hs, List.drop_left' (by simp)]
    exact List.prefix_append _ _
  · rw [piece, ← hab, List.append_assoc, List.drop_left, List.length_map, List.take_left]

theorem eq_of_mem_pieces {o' : Occurrence α} (ho : o.In s) (ho' : o'.In s) (hne : o.word ≠ [])
    (h : o.piece s = o'.piece s) : o = o' := by
  have hword : o.word = o'.word := by rw [← map_fst_piece ho, h, map_fst_piece ho']
  -- the first position covered is the same
  have hstart : ∀ {p q : Occurrence α}, p.In s → p.word ≠ [] → p.piece s = q.piece s →
      q.start ≤ p.start := by
    intro p q hp hpn hpq
    obtain ⟨a, u, hau⟩ := exists_piece_cons hp hpn
    have hmem : (a, some p.start) ∈ p.piece s := hau ▸ List.mem_cons_self
    rw [hpq, mem_piece] at hmem
    obtain ⟨i, b, hqc, -, hx⟩ := hmem
    rw [Prod.mk.injEq, Option.some_inj] at hx
    exact hx.2 ▸ hqc.1
  exact Occurrence.ext hword
    (le_antisymm (hstart ho' (hword ▸ hne) h.symm) (hstart ho hne h))

end Occurrence

/-! ## What the passes remove -/

section Removed

variable [DecidableEq α] {vs : List (List α)}

/-- The occurrences cut out by one pass per word. -/
def removedBy (vs : List (List α)) (s : List α) : Set (Occurrence α) :=
  {o | o.word ∈ vs ∧ o.In s ∧ o.piece s ∈ (cutEach Prod.fst vs (tagged s)).removed}

theorem exists_removedBy (hvs : ∀ v ∈ vs, v ≠ []) {s : List α} {r : List (α × Option ℕ)}
    (hr : r ∈ (cutEach Prod.fst vs (tagged s)).removed) :
    ∃ o ∈ removedBy vs s, o.piece s = r ∧ o.word = r.map Prod.fst := by
  have hin := Cut.removed_infix_word hr
  rw [word_cutEach hvs] at hin
  obtain ⟨o, ho, hpiece, hword⟩ := Occurrence.exists_piece_eq hin
  exact ⟨o, ⟨hword ▸ map_key_mem_of_mem_removed hvs hr, ho, hpiece ▸ hr⟩, hpiece, hword⟩

/-- An occurrence that the passes before its own have left alone is met by a piece that its own pass
removes: all its letters are still there, side by side. -/
theorem exists_removed_of_untouched {pre : List (List α)} (hpre : ∀ v ∈ pre, v ≠ []) {s : List α}
    {o : Occurrence α} (hoin : o.In s) (hne : o.word ≠ []) (post : List (List α))
    (h : ∀ x ∈ o.piece s, x ∉ (cutEach Prod.fst pre (tagged s)).removed.flatten) :
    ∃ r ∈ (cutEach Prod.fst (pre ++ o.word :: post) (tagged s)).removed,
      r.map Prod.fst = o.word ∧ ∃ a, (a, some o.start) ∈ r := by
  obtain ⟨k, hk, a, b, hab⟩ := Cut.infix_kept_of_infix_word
    (c := cutEach Prod.fst pre (tagged s))
    (fun r hr hnil ↦ hpre _ (map_key_mem_of_mem_removed hpre hr) (by simp [hnil]))
    (by rw [word_cutEach hpre]; exact Occurrence.piece_infix) h
  obtain ⟨x, u, hxu⟩ := Occurrence.exists_piece_cons hoin hne
  have hsuffix : (x, some o.start) :: (u ++ b) <:+ k := ⟨a, by rw [← hab, hxu]; simp⟩
  have hoccurs : o.word <+: ((x, some o.start) :: (u ++ b)).map Prod.fst := by
    rw [← List.cons_append, ← hxu, List.map_append, Occurrence.map_fst_piece hoin]
    exact List.prefix_append _ _
  obtain ⟨r, hr, hxr⟩ := mem_removed_of_occurrence hne hsuffix hoccurs
  refine ⟨r, ?_, map_key_of_mem_removed hne hr, x, hxr⟩
  rw [List.append_cons]
  refine mem_removed_cutEach_append ?_ _
  rw [cutEach_concat]
  exact Cut.mem_removed_refine.mpr (Or.inr ⟨k, hk, hr⟩)

/-- **The passes make the selection.** Cutting out the words one after another removes pairwise
disjoint occurrences, and every occurrence meets a removed one that ranks no later. -/
theorem selection_removedBy (hvs : ∀ v ∈ vs, v ≠ []) (s : List α) :
    Selection vs s (removedBy vs s) where
  occurs o ho := ⟨ho.1, ho.2.1⟩
  apart := by
    rintro o ⟨how, hoin, hor⟩ o' ⟨-, ho'in, ho'r⟩ ⟨i, hi, hi'⟩
    obtain ⟨a, ha⟩ : ∃ a, s[i]? = some a :=
      ⟨_, List.getElem?_eq_some_iff.mpr ⟨hi.lt_length hoin, rfl⟩⟩
    refine Occurrence.eq_of_mem_pieces hoin ho'in (hvs _ how) ?_
    refine Cut.removed_eq_of_mem (x := (a, some i)) ?_ hor ho'r
      (Occurrence.mem_piece.mpr ⟨i, a, hi, ha, rfl⟩) (Occurrence.mem_piece.mpr ⟨i, a, hi', ha, rfl⟩)
    rw [word_cutEach hvs]
    exact nodup_tagged s
  dominates := by
    intro o how hoin
    -- the passes before the one that looks for this word
    obtain ⟨pre, post, hsplit, hnot⟩ := List.eq_append_cons_of_mem how
    have hpre : ∀ v ∈ pre, v ≠ [] := fun v hv ↦ hvs v (by simp [hsplit, hv])
    have hidx : vs.idxOf o.word = pre.length := by
      rw [hsplit, List.idxOf_append_of_notMem hnot, List.idxOf_cons_self, Nat.add_zero]
    by_cases hmet : ∃ x ∈ o.piece s, x ∈ (cutEach Prod.fst pre (tagged s)).removed.flatten
    · -- a letter was taken by a word listed earlier
      obtain ⟨x, hxo, hx⟩ := hmet
      obtain ⟨r, hr, hxr⟩ := List.mem_flatten.mp hx
      have hrall : r ∈ (cutEach Prod.fst vs (tagged s)).removed := by
        rw [hsplit]
        exact mem_removed_cutEach_append hr _
      obtain ⟨o', ho', hpiece, hword'⟩ := exists_removedBy hvs hrall
      refine ⟨o', ho', ?_, ?_⟩
      · have hmem : o'.word ∈ pre := hword' ▸ map_key_mem_of_mem_removed hpre hr
        refine (Prod.Lex.toLex_lt_toLex.mpr (Or.inl ?_)).le
        rw [hidx, hsplit, List.idxOf_append_of_mem hmem]
        exact List.idxOf_lt_length_of_mem hmem
      · obtain ⟨i, a, hi, -, rfl⟩ := Occurrence.mem_piece.mp hxo
        obtain ⟨j, b, hj, -, hab⟩ := Occurrence.mem_piece.mp (hpiece.symm ▸ hxr)
        rw [Prod.mk.injEq, Option.some_inj] at hab
        exact ⟨i, hab.2.symm ▸ hj, hi⟩
    · -- all letters are still there when the pass for this word comes
      push Not at hmet
      obtain ⟨r, hr, hrword, a, har⟩ := exists_removed_of_untouched hpre hoin (hvs _ how) post hmet
      obtain ⟨o', ho', hpiece, hword'⟩ := exists_removedBy hvs (hsplit ▸ hr)
      obtain ⟨i, b, hi, -, hib⟩ := Occurrence.mem_piece.mp (hpiece.symm ▸ har)
      rw [Prod.mk.injEq, Option.some_inj] at hib
      obtain ⟨-, rfl⟩ := hib
      exact ⟨o', ho', Prod.Lex.toLex_le_toLex.mpr (Or.inr ⟨by rw [hword', hrword], hi.1⟩), _, hi,
        Occurrence.covers_start (hvs _ how)⟩

/-! ## What the passes leave -/

theorem mem_removed_iff (hne : ∀ v ∈ vs, v ≠ []) {s : List α} {r : List (α × Option ℕ)} :
    r ∈ (cutEach Prod.fst vs (tagged s)).removed ↔ ∃ o ∈ removedBy vs s, o.piece s = r := by
  constructor
  · intro hr
    obtain ⟨o, ho, hpiece, -⟩ := exists_removedBy hne hr
    exact ⟨o, ho, hpiece⟩
  · rintro ⟨o, ho, rfl⟩
    exact ho.2.2

/-- The cut of a text that removes the occurrences of a set. -/
def IsCutAt (s : List α) (W : Set (Occurrence α)) (c : Cut (α × Option ℕ)) : Prop :=
  c.word = tagged s ∧ ∀ r, r ∈ c.removed ↔ ∃ o ∈ W, o.piece s = r

/-- The letter of the text lies inside an occurrence of a listed word. -/
def AtStake (vs : List (List α)) (s : List α) (x : α × Option ℕ) : Prop :=
  ∃ o : Occurrence α, o.word ∈ vs ∧ o.In s ∧ x ∈ o.piece s

instance (vs : List (List α)) (s : List α) (x : α × Option ℕ) : Decidable (AtStake vs s x) :=
  decidable_of_iff (∃ v ∈ vs, ∃ n < s.length, v <+: s.drop n ∧ x ∈ Occurrence.piece s ⟨v, n⟩) <| by
    constructor
    · rintro ⟨v, hv, n, -, hin, hx⟩
      exact ⟨⟨v, n⟩, hv, hin, hx⟩
    · rintro ⟨o, hv, hin, hx⟩
      obtain ⟨i, a, hi, ha, -⟩ := Occurrence.mem_piece.mp hx
      have hlt := (List.getElem?_eq_some_iff.mp ha).1
      exact ⟨o.word, hv, o.start, hi.1.trans_lt hlt, hin, hx⟩

omit [DecidableEq α] in
theorem not_atStake_of_mem_untagged {m s : List α} {x : α × Option ℕ} (hx : x ∈ untagged m) :
    ¬AtStake vs s x := by
  rintro ⟨o, -, -, hxo⟩
  obtain ⟨i, a, -, -, rfl⟩ := Occurrence.mem_piece.mp hxo
  simpa using snd_of_mem_untagged hx

omit [DecidableEq α] in
theorem atStake_of_mem {s : List α} {v : List α} (hv : v ∈ vs) {r : List (α × Option ℕ)}
    (hr : r <:+: tagged s) (hrv : r.map Prod.fst = v) {x : α × Option ℕ} (hx : x ∈ r) :
    AtStake vs s x := by
  obtain ⟨o, hin, rfl, hword⟩ := Occurrence.exists_piece_eq hr
  exact ⟨o, (hword.trans hrv).symm ▸ hv, hin, hx⟩

/-- When the occurrences selected for an initial part of the list are cut out of the text, and
something stands in for what is between the letters of the other occurrences, the word listed next
is found on no such letters together with others. -/
def EdgesApart (vs : List (List α)) (m s : List α) : Prop :=
  ∀ pre v, pre ++ [v] <+: vs → ∀ W c, Selection pre s W → IsCutAt s W c →
    Unmixed Prod.fst (AtStake vs s) v (c.fill (AtStake vs s) (standIn Prod.fst (untagged m) pre))

theorem isCutAt_cutEach (hne : ∀ v ∈ vs, v ≠ []) (s : List α) :
    IsCutAt s (removedBy vs s) (cutEach Prod.fst vs (tagged s)) :=
  ⟨word_cutEach hne _, fun _ ↦ mem_removed_iff hne⟩

omit [DecidableEq α] in
theorem IsCutAt.unique {s : List α} {W : Set (Occurrence α)} {c c' : Cut (α × Option ℕ)}
    (hne : ∀ r ∈ c.removed, r ≠ []) (h : IsCutAt s W c) (h' : IsCutAt s W c') : c = c' := by
  refine Cut.eq_of_removed (h.1.trans h'.1.symm) ?_ hne fun r ↦ by rw [h.2, h'.2]
  rw [h.1]
  exact nodup_tagged s

/-- **The texts in between.** The condition on words, marker and text says of the run that it finds
no word across an edge. -/
theorem edgesApart_iff (hne : ∀ v ∈ vs, v ≠ []) {m s : List α} :
    EdgesApart vs m s ↔ Undisturbed Prod.fst (AtStake vs s) vs (untagged m) (tagged s) := by
  have hpre : ∀ {pre v}, pre ++ [v] <+: vs → ∀ w ∈ pre, w ≠ [] := fun h w hw ↦
    hne w (h.subset (List.mem_append_left _ hw))
  constructor
  · intro h pre v hv
    exact h pre v hv _ _ (selection_removedBy (hpre hv) s) (isCutAt_cutEach (hpre hv) s)
  · intro h pre v hv W c hW hc
    obtain rfl := (selection_removedBy (hpre hv) s).unique hW
    have hrem : ∀ r ∈ (cutEach Prod.fst pre (tagged s)).removed, r ≠ [] := by
      rintro r hr rfl
      exact hpre hv _ (map_key_mem_of_mem_removed (hpre hv) hr) rfl
    obtain rfl := (isCutAt_cutEach (hpre hv) s).unique hrem hc
    exact h pre v hv

theorem edgesApart_of_clear {m : List α} (hvs : ∀ v ∈ vs, Clear m v) (hnd : vs.Nodup)
    (hm : m ≠ []) (s : List α) : EdgesApart vs m s := by
  rw [edgesApart_iff fun v hv ↦ (hvs v hv).ne_nil]
  refine undisturbed_of_clear (fun v hv ↦ ?_) hnd (by simpa [untagged] using hm)
    (fun x hx ↦ not_atStake_of_mem_untagged hx) fun v hv r hr hrv x hx ↦ atStake_of_mem hv hr hrv hx
  rw [map_fst_untagged]
  exact hvs v hv

theorem edgesApart_of_notMem {m : List α} (hne : ∀ v ∈ vs, v ≠ []) (hnd : vs.Nodup) (hm : m ≠ [])
    (hhead : ∀ v ∈ vs, ∀ a ∈ m.head?, a ∉ v) (hlast : ∀ v ∈ vs, ∀ a ∈ m.getLast?, a ∉ v)
    (s : List α) : EdgesApart vs m s := by
  rw [edgesApart_iff hne]
  refine undisturbed_of_notMem hne hnd (by simpa [untagged] using hm) (nodup_tagged s)
    (fun x hx ↦ notMem_untagged_of_mem_tagged hx) (fun x hx ↦ not_atStake_of_mem_untagged hx)
    (fun v hv r hr hrv x hx ↦ atStake_of_mem hv hr hrv hx) (fun v hv y hy ↦ ?_) fun v hv y hy ↦ ?_
  · rw [untagged, List.head?_map] at hy
    obtain ⟨a, ha, rfl⟩ := Option.mem_map.mp hy
    exact hhead v hv a ha
  · rw [untagged, List.getLast?_map] at hy
    obtain ⟨a, ha, rfl⟩ := Option.mem_map.mp hy
    exact hlast v hv a ha

/-- **What is left of the occurrences.** A position inside an occurrence shows in the rewritten text
exactly when no selected occurrence covers it. -/
theorem mem_replaceEach_tagged_iff (hne : ∀ v ∈ vs, v ≠ []) (hnd : vs.Nodup) {m : List α}
    (hm : m ≠ []) {s : List α} (h : EdgesApart vs m s) {o : Occurrence α} (ho : o.word ∈ vs)
    (hin : o.In s) {i : ℕ} (hi : o.Covers i) :
    (∃ x ∈ replaceEach Prod.fst vs (untagged m) (tagged s), x.2 = some i)
      ↔ ∀ o' ∈ removedBy vs s, ¬o'.Covers i := by
  obtain ⟨a, ha⟩ : ∃ a, s[i]? = some a :=
    ⟨_, List.getElem?_eq_some_iff.mpr ⟨hi.lt_length hin, rfl⟩⟩
  have hword : (cutEach Prod.fst vs (tagged s)).word = tagged s := word_cutEach hne _
  have hndw : (cutEach Prod.fst vs (tagged s)).word.Nodup := by
    rw [hword]
    exact nodup_tagged s
  have hstake : AtStake vs s (a, some i) :=
    ⟨o, ho, hin, Occurrence.mem_piece.mpr ⟨i, a, hi, ha, rfl⟩⟩
  have hmem : (a, some i) ∈ tagged s := mem_tagged.mpr ⟨i, a, ha, rfl⟩
  -- the letter stays exactly when the cut keeps it
  have hshows : (a, some i) ∈ replaceEach Prod.fst vs (untagged m) (tagged s)
      ↔ (a, some i) ∉ (cutEach Prod.fst vs (tagged s)).removed.flatten := by
    rw [replaceEach_eq_fill hne hnd (by simpa [untagged] using hm)
        (fun x hx ↦ not_atStake_of_mem_untagged hx)
        (fun v hv r hr hrv x hx ↦ atStake_of_mem hv hr hrv hx) ((edgesApart_iff hne).mp h),
      mem_fill_of_live hstake fun run hidle hx ↦ not_live_of_mem_standIn hne
        (fun x hx ↦ not_atStake_of_mem_untagged hx) hidle hx hstake,
      Cut.mem_kept_iff hndw, hword, and_iff_right hmem]
  constructor
  · rintro ⟨x, hx, hxi⟩ o' ho' hi'
    have hxs : x = (a, some i) := by
      rcases mem_or_mem_of_mem_replaceEach hne hx with hx | hx
      · exact absurd (snd_of_mem_untagged hx) (by simp [hxi])
      · obtain ⟨j, b, hb, rfl⟩ := mem_tagged.mp hx
        obtain rfl : j = i := Option.some_inj.mp hxi
        rw [Option.some_inj.mp (ha.symm.trans hb)]
    exact hshows.mp (hxs ▸ hx)
      (List.mem_flatten_of_mem ho'.2.2 (Occurrence.mem_piece.mpr ⟨i, a, hi', ha, rfl⟩))
  · intro hno
    refine ⟨(a, some i), hshows.mpr fun hx ↦ ?_, rfl⟩
    obtain ⟨r, hr, hxr⟩ := List.mem_flatten.mp hx
    obtain ⟨o', ho', rfl, -⟩ := exists_removedBy hne hr
    obtain ⟨j, b, hj, -, hxj⟩ := Occurrence.mem_piece.mp hxr
    rw [Prod.mk.injEq, Option.some_inj] at hxj
    exact hno o' ho' (hxj.2 ▸ hj)

/-! ## What the passes write -/

theorem replaceEach_eq_mark_map {m : List α} (hvs : ∀ v ∈ vs, Clear m v) (s : List α) :
    replaceEach id vs m s = ((cutEach Prod.fst vs (tagged s)).map Prod.fst).mark m := by
  have hne : ∀ v ∈ vs, v ≠ [] := fun v hv ↦ (hvs v hv).ne_nil
  have hvs' : ∀ v ∈ vs, Clear ((untagged m).map Prod.fst) v := by rwa [map_fst_untagged]
  have hmap := map_replaceEach id (Prod.fst : α × Option ℕ → α) hne (untagged m) (tagged s)
  rw [map_fst_untagged, map_fst_tagged] at hmap
  have hmark := Cut.mark_map (Prod.fst : α × Option ℕ → α) (untagged m)
    (cutEach Prod.fst vs (tagged s))
  rw [map_fst_untagged] at hmark
  rw [← hmap, hmark, ← replaceEach_eq_mark hvs', Function.id_comp]

/-- **The text in pieces.** Passes with words that are clear of the marker cut the text once: what
they remove are words of the list, and everything else stays as it was, in order. -/
theorem exists_cut_replaceEach {m : List α} (hvs : ∀ v ∈ vs, Clear m v) (s : List α) :
    ∃ c : Cut α, c.word = s ∧ c.mark m = replaceEach id vs m s ∧ ∀ r ∈ c.removed, r ∈ vs := by
  have hne : ∀ v ∈ vs, v ≠ [] := fun v hv ↦ (hvs v hv).ne_nil
  refine ⟨(cutEach Prod.fst vs (tagged s)).map Prod.fst, ?_,
    (replaceEach_eq_mark_map hvs s).symm, fun r hr ↦ ?_⟩
  · rw [Cut.word_map, word_cutEach hne, map_fst_tagged]
  · rw [Cut.removed_map] at hr
    obtain ⟨r', hr', rfl⟩ := List.mem_map.mp hr
    exact map_key_mem_of_mem_removed hne hr'

/-! ## The order of the words -/

/-- Passes that remove the same occurrences cut the text in the same way. -/
theorem cutEach_eq_of_removedBy_eq {vs' : List (List α)} (hne : ∀ v ∈ vs, v ≠ [])
    (hne' : ∀ v ∈ vs', v ≠ []) {s : List α} (h : removedBy vs s = removedBy vs' s) :
    cutEach Prod.fst vs (tagged s) = cutEach Prod.fst vs' (tagged s) := by
  refine Cut.eq_of_removed ?_ ?_ (fun r hr ↦ ?_) fun r ↦ ?_
  · rw [word_cutEach hne, word_cutEach hne']
  · rw [word_cutEach hne]
    exact nodup_tagged s
  · rintro rfl
    exact hne _ (map_key_mem_of_mem_removed hne hr) rfl
  · rw [mem_removed_iff hne, mem_removed_iff hne', h]

/-- **The order matters only between words that meet.** Two lists of the same words remove the same
occurrences of a text in which occurrences that meet are ranked by both in the same way. -/
theorem removedBy_congr {vs' : List (List α)} (hne : ∀ v ∈ vs, v ≠ []) (hne' : ∀ v ∈ vs', v ≠ [])
    (hmem : ∀ v, v ∈ vs ↔ v ∈ vs') {s : List α}
    (hrank : ∀ o o' : Occurrence α, o.word ∈ vs → o'.word ∈ vs → o.In s → o'.In s → o.Meets o' →
      o.rank vs' ≤ o'.rank vs' → o.rank vs ≤ o'.rank vs) :
    removedBy vs s = removedBy vs' s := by
  have h' := selection_removedBy hne' s
  refine (selection_removedBy hne s).unique ⟨fun o ho ↦ ?_, h'.apart, fun o hw hin ↦ ?_⟩
  · obtain ⟨hw, hin⟩ := h'.occurs o ho
    exact ⟨(hmem _).mpr hw, hin⟩
  · obtain ⟨o', ho', hle, hm⟩ := h'.dominates o ((hmem _).mp hw) hin
    obtain ⟨hw', hin'⟩ := h'.occurs o' ho'
    exact ⟨o', ho', hrank o' o ((hmem _).mpr hw') hw hin' hin hm hle, hm⟩

end Removed

theorem Occurrence.Meets.drop_prefix {s : List α} {o o' : Occurrence α} (hm : o.Meets o')
    (ho : o.In s) (ho' : o'.In s) (hlt : o.start < o'.start)
    (hlen : o.word.length ≤ o'.word.length) :
    o'.start - o.start < o.word.length ∧ o.word.drop (o'.start - o.start) <+: o'.word := by
  obtain ⟨i, hi, hi'⟩ := hm
  have hin := hi.2
  have hin' := hi'.1
  refine ⟨by omega, List.prefix_of_prefix_length_le ?_ ho' (by rw [List.length_drop]; omega)⟩
  have hdrop := List.IsPrefix.drop ho (o'.start - o.start)
  rwa [List.drop_drop, Nat.add_sub_cancel' hlt.le] at hdrop

end Words
