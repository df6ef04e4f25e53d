import NativeKiln.Words.Cut

/-!
# Replacing several words one after another

`replaceEach` runs one global replacement per word, each over the text the earlier ones have
rewritten. What a pass finds in the text alone is a matter of the text: it refines a cut of the
original, pass by pass (`cutEach`). But a pass also finds its word on what earlier passes wrote, and
on that together with text next to it.

Of the letters of the text some may be *live*: all those that a word of the list can be found on
before anything is written. As long as no pass finds its word on live letters and others at once
(`Undisturbed`), live letters divide the work. What stands between two of them is other letters and
removed pieces, and what becomes of these depends on nothing else (`standIn`): a marker is written
for each piece when the turn of its word comes, and the passes go over markers and letters in
between. So the run is the cut, with everything between its live letters filled in
(`replaceEach_eq_fill`).
-/

namespace Words

variable {α β : Type*}

namespace Cut

/-! ## Refining a cut -/

/-- Cut every kept piece again. -/
def refine (f : List β → Cut β) (c : Cut β) : Cut β :=
  ⟨(f c.head).head,
    (f c.head).tail ++ c.tail.flatMap fun p ↦ (p.1, (f p.2).head) :: (f p.2).tail⟩

variable {f : List β → Cut β}

theorem refine_mk_cons (h : List β) (p : List β × List β) (t : List (List β × List β)) :
    (Cut.mk h (p :: t)).refine f
      = ⟨(f h).head, (f h).tail ++ (p.1, ((Cut.mk p.2 t).refine f).head)
          :: ((Cut.mk p.2 t).refine f).tail⟩ := by
  simp [refine]

theorem word_mk_append (h : List β) (t u : List (List β × List β)) :
    (Cut.mk h (t ++ u)).word = (Cut.mk h t).word ++ u.flatMap fun p ↦ p.1 ++ p.2 := by
  simp [word]

theorem mark_mk_append (ins h : List β) (t u : List (List β × List β)) :
    (Cut.mk h (t ++ u)).mark ins = (Cut.mk h t).mark ins ++ u.flatMap fun p ↦ ins ++ p.2 := by
  simp [mark]

theorem word_refine (hf : ∀ s, (f s).word = s) (c : Cut β) : (c.refine f).word = c.word := by
  obtain ⟨h, t⟩ := c
  induction t generalizing h with
  | nil => simpa [refine, word] using hf h
  | cons p t ih =>
    have ih' := ih p.2
    rw [refine_mk_cons, word_mk_append, show Cut.mk (f h).head (f h).tail = f h from rfl, hf]
    simp only [word, List.flatMap_cons, List.append_assoc] at ih' ⊢
    rw [ih']

/-- Writing markers commutes with cutting again, when the rewriting `g` that the cuts `f` describe
works on the two sides of a marker by themselves. -/
theorem mark_refine {ins : List β} {g : List β → List β} (hg : ∀ s, g s = (f s).mark ins)
    (happ : ∀ a b, g (a ++ (ins ++ b)) = g a ++ (ins ++ g b)) (c : Cut β) :
    g (c.mark ins) = (c.refine f).mark ins := by
  obtain ⟨h, t⟩ := c
  induction t generalizing h with
  | nil => simpa [refine, mark] using hg h
  | cons p t ih =>
    have hcons : (Cut.mk h (p :: t)).mark ins = h ++ (ins ++ (Cut.mk p.2 t).mark ins) := by
      simp [mark]
    rw [hcons, happ, ih p.2, hg, refine_mk_cons, mark_mk_append]
    simp [mark]

theorem mem_removed_refine {c : Cut β} {r : List β} :
    r ∈ (c.refine f).removed ↔ r ∈ c.removed ∨ ∃ k ∈ c.kept, r ∈ (f k).removed := by
  obtain ⟨h, t⟩ := c
  induction t generalizing h with
  | nil => simp [refine, removed, kept]
  | cons p t ih =>
    have ih' := ih p.2
    rw [refine_mk_cons]
    simp only [removed, kept, List.map_append, List.map_cons, List.mem_append,
      List.mem_cons, exists_eq_or_imp] at ih' ⊢
    rw [ih']
    tauto

/-! ## A cut token by token -/

/-- A letter that is kept, or a piece that is removed. -/
inductive Token (β : Type*)
  | letter (b : β)
  | removed (r : List β)

/-- The letters and the removed pieces, in the order of the word. -/
def tokens (c : Cut β) : List (Token β) :=
  c.head.map .letter ++ c.tail.flatMap fun p ↦ .removed p.1 :: p.2.map .letter

@[simp] theorem tokens_whole (s : List β) : (whole s).tokens = s.map .letter := by
  simp [tokens, whole]

@[simp] theorem tokens_cons (b : β) (c : Cut β) : (cons b c).tokens = .letter b :: c.tokens := rfl

@[simp] theorem tokens_consRemoved (r : List β) (c : Cut β) :
    (consRemoved r c).tokens = .removed r :: c.tokens := by simp [tokens, consRemoved]

theorem tokens_mk_nil (h : List β) : (Cut.mk h []).tokens = h.map .letter := by simp [tokens]

theorem tokens_mk_cons (h : List β) (p : List β × List β) (t : List (List β × List β)) :
    (Cut.mk h (p :: t)).tokens = h.map .letter ++ .removed p.1 :: (Cut.mk p.2 t).tokens := by
  simp [tokens]

theorem tokens_refine_mk_nil (h : List β) : ((Cut.mk h []).refine f).tokens = (f h).tokens := by
  simp [refine, tokens]

theorem tokens_refine_mk_cons (h : List β) (p : List β × List β) (t : List (List β × List β)) :
    ((Cut.mk h (p :: t)).refine f).tokens
      = (f h).tokens ++ .removed p.1 :: ((Cut.mk p.2 t).refine f).tokens := by
  rw [refine_mk_cons]
  simp [tokens]

theorem letter_mem_tokens {c : Cut β} {b : β} : .letter b ∈ c.tokens ↔ b ∈ c.kept.flatten := by
  obtain ⟨h, t⟩ := c
  induction t generalizing h with
  | nil => simp [tokens, kept]
  | cons p t ih =>
    rw [tokens_mk_cons, List.mem_append, List.mem_cons, ih]
    simp [kept]

theorem removed_mem_tokens {c : Cut β} {r : List β} : .removed r ∈ c.tokens ↔ r ∈ c.removed := by
  simp [tokens, removed]

end Cut

open Cut (Token)

/-! ## Filling in between letters -/

section Fill

variable {live : β → Prop}

/-- A run of tokens without a live letter. -/
def Idle (live : β → Prop) (run : List (Token β)) : Prop := ∀ b, .letter b ∈ run → ¬live b

theorem idle_nil : Idle live ([] : List (Token β)) := fun _ h ↦ absurd h (by simp)

theorem Idle.concat_letter {run : List (Token β)} (h : Idle live run) {b : β} (hb : ¬live b) :
    Idle live (run ++ [.letter b]) := by
  intro c hc
  rcases List.mem_append.mp hc with hc | hc
  · exact h c hc
  · obtain rfl := Token.letter.inj (List.mem_singleton.mp hc)
    exact hb

theorem Idle.concat_removed {run : List (Token β)} (h : Idle live run) (r : List β) :
    Idle live (run ++ [.removed r]) := by
  intro c hc
  rcases List.mem_append.mp hc with hc | hc
  · exact h c hc
  · simp at hc

variable (live) [DecidablePred live] (g : List (Token β) → List β)

/-- What tokens come to behind a run of tokens that has no live letter: live letters stay as they
are, and each run between two of them is replaced as `g` says. -/
def fillFrom : List (Token β) → List (Token β) → List β
  | run, [] => g run
  | run, .letter b :: u =>
    if live b then g run ++ b :: fillFrom [] u else fillFrom (run ++ [.letter b]) u
  | run, .removed r :: u => fillFrom (run ++ [.removed r]) u

/-- The live letters that are kept, with what is in between replaced as `g` says. -/
def Cut.fill (c : Cut β) : List β := fillFrom live g [] c.tokens

variable {live g}

theorem fillFrom_letter_of_live {run u : List (Token β)} {b : β} (hb : live b) :
    fillFrom live g run (.letter b :: u) = g run ++ b :: fillFrom live g [] u := by
  rw [fillFrom, if_pos hb]

theorem fillFrom_letter_of_not {run u : List (Token β)} {b : β} (hb : ¬live b) :
    fillFrom live g run (.letter b :: u) = fillFrom live g (run ++ [.letter b]) u := by
  rw [fillFrom, if_neg hb]

theorem fillFrom_removed (run u : List (Token β)) (r : List β) :
    fillFrom live g run (.removed r :: u) = fillFrom live g (run ++ [.removed r]) u := by
  rw [fillFrom]

theorem fillFrom_live_append (hg : g [] = []) {run u : List (Token β)} {a : List β} (hne : a ≠ [])
    (ha : ∀ b ∈ a, live b) :
    fillFrom live g run (a.map .letter ++ u) = g run ++ (a ++ fillFrom live g [] u) := by
  induction a generalizing run with
  | nil => exact absurd rfl hne
  | cons b a ih =>
    rw [List.map_cons, List.cons_append, fillFrom_letter_of_live (ha b List.mem_cons_self)]
    cases a with
    | nil => rfl
    | cons c a =>
      rw [ih (List.cons_ne_nil c a) fun x hx ↦ ha x (List.mem_cons_of_mem b hx), hg]
      rfl

/-- A run that is replaced without looking at the tokens behind it can be written out at once. -/
theorem fillFrom_eq_append {a : List (Token β)} {p : List β} (ha : ∀ b, g (a ++ b) = p ++ g b)
    (u : List (Token β)) : fillFrom live g a u = p ++ fillFrom live g [] u := by
  have key : ∀ run u, fillFrom live g (a ++ run) u = p ++ fillFrom live g run u := by
    intro run u
    induction u generalizing run with
    | nil => rw [fillFrom, fillFrom, ha]
    | cons x u ih =>
      cases x with
      | letter b =>
        by_cases hb : live b
        · rw [fillFrom_letter_of_live hb, fillFrom_letter_of_live hb, ha, List.append_assoc]
        · rw [fillFrom_letter_of_not hb, fillFrom_letter_of_not hb, List.append_assoc, ih]
      | removed r => rw [fillFrom_removed, fillFrom_removed, List.append_assoc, ih]
  simpa using key [] u

/-- What is filled in behind a run begins with what stands in for it and for the tokens that follow
up to the next live letter. -/
theorem exists_prefix_fillFrom (g : List (Token β) → List β) {run : List (Token β)}
    (hrun : Idle live run) (u : List (Token β)) :
    ∃ more, more <+: u ∧ Idle live (run ++ more) ∧ g (run ++ more) <+: fillFrom live g run u := by
  induction u generalizing run with
  | nil => exact ⟨[], List.prefix_rfl, by simpa using hrun, by simp [fillFrom]⟩
  | cons x u ih =>
    have hquiet : Idle live (run ++ [x]) →
        fillFrom live g run (x :: u) = fillFrom live g (run ++ [x]) u →
        ∃ more, more <+: x :: u ∧ Idle live (run ++ more) ∧
          g (run ++ more) <+: fillFrom live g run (x :: u) := by
      intro hidle hfill
      obtain ⟨more, hmore, hidle', hpre⟩ := ih hidle
      refine ⟨x :: more, (List.prefix_cons_inj x).mpr hmore, by simpa using hidle', ?_⟩
      rw [hfill]
      simpa using hpre
    cases x with
    | letter b =>
      by_cases hb : live b
      · exact ⟨[], List.nil_prefix, by simpa using hrun, by simp [fillFrom_letter_of_live hb]⟩
      · exact hquiet (hrun.concat_letter hb) (fillFrom_letter_of_not hb)
    | removed r => exact hquiet (hrun.concat_removed r) (fillFrom_removed run u r)

theorem mem_fill_of_live {c : Cut β} {x : β} (hx : live x) (hg : ∀ run, Idle live run → x ∉ g run) :
    x ∈ c.fill live g ↔ x ∈ c.kept.flatten := by
  rw [Cut.fill, ← Cut.letter_mem_tokens]
  have key : ∀ run u, Idle live run → (x ∈ fillFrom live g run u ↔ .letter x ∈ u) := by
    intro run u hrun
    induction u generalizing run with
    | nil => simpa [fillFrom] using hg run hrun
    | cons y u ih =>
      cases y with
      | letter b =>
        by_cases hb : live b
        · rw [fillFrom_letter_of_live hb, List.mem_append, List.mem_cons, ih [] idle_nil]
          simp [hg run hrun]
        · rw [fillFrom_letter_of_not hb, ih _ (hrun.concat_letter hb), List.mem_cons]
          have hne : x ≠ b := fun h ↦ hb (h ▸ hx)
          simp [hne]
      | removed r => simp [fillFrom_removed, ih _ (hrun.concat_removed r)]
  exact key [] c.tokens idle_nil

end Fill

section Reads

variable {key : β → α} {vs : List (List α)}

/-- The removed pieces among tokens read as words of the list. -/
def Reads (key : β → α) (vs : List (List α)) (u : List (Token β)) : Prop :=
  ∀ r, .removed r ∈ u → r.map key ∈ vs

theorem reads_nil : Reads key vs ([] : List (Token β)) :=
  fun _ h ↦ absurd h (by simp)

theorem Reads.concat_letter {run : List (Token β)} (h : Reads key vs run) (b : β) :
    Reads key vs (run ++ [.letter b]) := by
  intro r hr
  rcases List.mem_append.mp hr with hr | hr
  · exact h r hr
  · simp at hr

theorem Reads.concat_removed {run : List (Token β)} (h : Reads key vs run) {r : List β}
    (hr : r.map key ∈ vs) : Reads key vs (run ++ [.removed r]) := by
  intro p hp
  rcases List.mem_append.mp hp with hp | hp
  · exact h p hp
  · obtain rfl := Token.removed.inj (List.mem_singleton.mp hp)
    exact hr

theorem Reads.letters_append {u : List (Token β)} (h : Reads key vs u) (a : List β) :
    Reads key vs (a.map .letter ++ u) := by
  intro r hr
  exact h r ((List.mem_append.mp hr).resolve_left (by simp))

end Reads

/-! ## One pass per word -/

section Passes

variable [DecidableEq α] (key : β → α) (live : β → Prop) [DecidablePred live]

/-- Replace the words of a list one after another, each in the text the earlier ones left. -/
def replaceEach (vs : List (List α)) (ins s : List β) : List β :=
  vs.foldl (fun out v ↦ replaceAll key v ins out) s

/-- Cut at the words of a list one after another, each in the pieces the earlier ones kept. -/
def cutEach (vs : List (List α)) (s : List β) : Cut β :=
  vs.foldl (fun c v ↦ c.refine (cut key v)) (.whole s)

/-- The letter of a token. -/
def Cut.Token.letters : Token β → List β
  | .letter b => [b]
  | .removed _ => []

/-- The token is a removed piece that reads as `v`. -/
def Cut.Token.reads (v : List α) : Token β → Bool
  | .letter _ => false
  | .removed r => r.map key = v

/-- What stands in for a run of tokens, whose removed pieces each read as one of the words. A word
writes a marker for each piece that reads as it, and is replaced in what stands in for the tokens
between these. -/
def standIn (ins : List β) (vs : List (List α)) : List (Token β) → List β :=
  vs.foldl (fun g v run ↦ ins.intercalate
      ((run.splitOnP (Token.reads key v)).map fun part ↦ replaceAll key v ins (g part)))
    fun run ↦ run.flatMap Token.letters

/-- Letters that read as `v` are all of them live, or none of them is. -/
def Unmixed (v : List α) (out : List β) : Prop :=
  ∀ r, r <:+: out → r.map key = v → (∀ x ∈ r, live x) ∨ ∀ x ∈ r, ¬live x

instance (v : List α) (out : List β) : Decidable (Unmixed key live v out) :=
  decidable_of_iff (∀ t ∈ out.tails, (t.take v.length).map key = v →
      (∀ x ∈ t.take v.length, live x) ∨ ∀ x ∈ t.take v.length, ¬live x) <| by
    simp only [List.mem_tails]
    refine ⟨fun h r hr hv ↦ ?_, fun h t ht ↦ h _ ((List.take_prefix _ t).isInfix.trans ht.isInfix)⟩
    obtain ⟨t, hrt, ht⟩ := List.infix_iff_prefix_suffix.mp hr
    have htake : t.take v.length = r := by
      rw [← hv, List.length_map]
      exact (List.prefix_iff_eq_take.mp hrt).symm
    exact htake ▸ h t ht (htake ▸ hv)

/-- No word of the list is found on live letters and others at once, in what the words before it
make of the text. -/
def Undisturbed (vs : List (List α)) (ins s : List β) : Prop :=
  ∀ pre v, pre ++ [v] <+: vs →
    Unmixed key live v ((cutEach key pre s).fill live (standIn key ins pre))

instance (vs : List (List α)) (ins s : List β) : Decidable (Undisturbed key live vs ins s) :=
  decidable_of_iff (∀ n, ∀ hn : n < vs.length, Unmixed key live (vs.get ⟨n, hn⟩)
      ((cutEach key (vs.take n) s).fill live (standIn key ins (vs.take n)))) <| by
    refine ⟨fun h pre v hpre ↦ ?_, fun h n hn ↦ h _ _ ?_⟩
    · obtain ⟨post, rfl⟩ := hpre
      simpa using h pre.length (by simp)
    · rw [List.get_eq_getElem, List.take_append_getElem hn]
      exact List.take_prefix _ _

variable {key live}

theorem replaceEach_concat (vs : List (List α)) (v : List α) (ins s : List β) :
    replaceEach key (vs ++ [v]) ins s = replaceAll key v ins (replaceEach key vs ins s) :=
  List.foldl_append ..

theorem cutEach_append (vs ws : List (List α)) (s : List β) :
    cutEach key (vs ++ ws) s = ws.foldl (fun c v ↦ c.refine (cut key v)) (cutEach key vs s) :=
  List.foldl_append ..

@[simp] theorem cutEach_concat (vs : List (List α)) (v : List α) (s : List β) :
    cutEach key (vs ++ [v]) s = (cutEach key vs s).refine (cut key v) := cutEach_append ..

theorem word_cutEach {vs : List (List α)} (hvs : ∀ v ∈ vs, v ≠ []) (s : List β) :
    (cutEach key vs s).word = s := by
  induction vs using List.reverseRecOn with
  | nil => simp [cutEach]
  | append_singleton vs v ih =>
    rw [cutEach_concat, Cut.word_refine (word_cut (hvs v (by simp))),
      ih fun w hw ↦ hvs w (List.mem_append_left _ hw)]

theorem map_key_mem_of_mem_removed {vs : List (List α)} (hvs : ∀ v ∈ vs, v ≠ []) {s r : List β}
    (hr : r ∈ (cutEach key vs s).removed) : r.map key ∈ vs := by
  induction vs using List.reverseRecOn with
  | nil => simp [cutEach] at hr
  | append_singleton vs v ih =>
    rw [cutEach_concat, Cut.mem_removed_refine] at hr
    rcases hr with hr | ⟨k, -, hr⟩
    · exact List.mem_append_left _ (ih (fun w hw ↦ hvs w (List.mem_append_left _ hw)) hr)
    · rw [map_key_of_mem_removed (hvs v (by simp)) hr]
      simp

theorem mem_removed_cutEach_append {vs : List (List α)} {s r : List β}
    (hr : r ∈ (cutEach key vs s).removed) (ws : List (List α)) :
    r ∈ (cutEach key (vs ++ ws) s).removed := by
  induction ws using List.reverseRecOn with
  | nil => simpa using hr
  | append_singleton ws w ih =>
    rw [← List.append_assoc, cutEach_concat]
    exact Cut.mem_removed_refine.mpr (Or.inl ih)

theorem map_replaceAll {γ : Type*} (key : γ → α) (f : β → γ) {v : List α} (hv : v ≠ [])
    (ins s : List β) :
    (replaceAll (key ∘ f) v ins s).map f = replaceAll key v (ins.map f) (s.map f) := by
  induction s using cut_induction (key ∘ f) hv with
  | nil => rfl
  | hit s h ih =>
    have hpre : v <+: (s.map f).map key := by rwa [List.map_map]
    rw [replaceAll_of_isPrefix hv h, List.map_append, ih, replaceAll_of_isPrefix hv hpre,
      List.map_drop]
  | miss b t h ih =>
    have hno : ¬v <+: (f b :: t.map f).map key := by rwa [← List.map_cons, List.map_map]
    rw [replaceAll_of_not_isPrefix h, List.map_cons, ih, List.map_cons,
      replaceAll_of_not_isPrefix hno]

theorem map_replaceEach {γ : Type*} (key : γ → α) (f : β → γ) {vs : List (List α)}
    (hvs : ∀ v ∈ vs, v ≠ []) (ins s : List β) :
    (replaceEach (key ∘ f) vs ins s).map f = replaceEach key vs (ins.map f) (s.map f) := by
  induction vs using List.reverseRecOn with
  | nil => rfl
  | append_singleton vs v ih =>
    rw [replaceEach_concat, replaceEach_concat, map_replaceAll key f (hvs v (by simp)),
      ih fun w hw ↦ hvs w (List.mem_append_left _ hw)]

theorem mem_or_mem_of_mem_replaceEach {vs : List (List α)} (hvs : ∀ v ∈ vs, v ≠ [])
    {ins s : List β} {x : β} (hx : x ∈ replaceEach key vs ins s) : x ∈ ins ∨ x ∈ s := by
  induction vs using List.reverseRecOn with
  | nil => exact Or.inr hx
  | append_singleton vs v ih =>
    rw [replaceEach_concat] at hx
    rcases mem_or_mem_of_mem_replaceAll (hvs v (by simp)) hx with hx | hx
    · exact Or.inl hx
    · exact ih (fun w hw ↦ hvs w (List.mem_append_left _ hw)) hx

/-! ## What stands in for a run of tokens -/

section StandIn

variable {ins : List β} {vs : List (List α)} {v : List α} {run : List (Token β)}

theorem standIn_concat (ins : List β) (vs : List (List α)) (v : List α) (run : List (Token β)) :
    standIn key ins (vs ++ [v]) run
      = ins.intercalate ((run.splitOnP (Token.reads key v)).map fun part ↦
          replaceAll key v ins (standIn key ins vs part)) := by
  rw [standIn, List.foldl_append]
  rfl

theorem standIn_concat_of_not_reads (hrun : ∀ x ∈ run, x.reads key v = false) :
    standIn key ins (vs ++ [v]) run = replaceAll key v ins (standIn key ins vs run) := by
  rw [standIn_concat, List.splitOnP_eq_singleton hrun, List.map_singleton,
    List.intercalate_singleton]

/-- A word writes a marker for a piece that reads as it, and works on the two sides by itself. -/
theorem standIn_concat_append {a b : List (Token β)} {x : Token β}
    (ha : ∀ x ∈ a, x.reads key v = false) (hx : x.reads key v) :
    standIn key ins (vs ++ [v]) (a ++ x :: b)
      = replaceAll key v ins (standIn key ins vs a) ++ (ins ++ standIn key ins (vs ++ [v]) b) := by
  rw [standIn_concat, standIn_concat, List.splitOnP_append_cons_of_forall_mem ha x hx,
    List.map_cons, List.intercalate_cons_of_ne_nil (by simp), List.append_assoc]

@[simp] theorem standIn_nil (ins : List β) (vs : List (List α)) : standIn key ins vs [] = [] := by
  induction vs using List.reverseRecOn with
  | nil => rfl
  | append_singleton vs v ih => rw [standIn_concat_of_not_reads (by simp), ih, replaceAll_nil]

theorem forall_not_reads_or_exists_first (v : List α) (run : List (Token β)) :
    (∀ x ∈ run, x.reads key v = false)
      ∨ ∃ a x b, run = a ++ x :: b ∧ x.reads key v ∧ ∀ x ∈ a, x.reads key v = false := by
  cases hf : run.find? (Token.reads key v) with
  | none => exact Or.inl fun x hx ↦ by simpa using List.find?_eq_none.mp hf x hx
  | some x =>
    obtain ⟨hx, a, b, rfl, ha⟩ := List.find?_eq_some_iff_append.mp hf
    exact Or.inr ⟨a, x, b, rfl, hx, fun x hx ↦ by simpa using ha x hx⟩

theorem mem_or_mem_of_mem_standIn (hvs : ∀ v ∈ vs, v ≠ []) {y : β}
    (hy : y ∈ standIn key ins vs run) : y ∈ ins ∨ .letter y ∈ run := by
  induction vs using List.reverseRecOn generalizing run with
  | nil =>
    obtain ⟨x, hx, hyx⟩ := List.mem_flatMap.mp hy
    cases x with
    | letter b => exact Or.inr (List.mem_singleton.mp hyx ▸ hx)
    | removed r => simp [Token.letters] at hyx
  | append_singleton vs v ih =>
    have hpart : ∀ part, y ∈ replaceAll key v ins (standIn key ins vs part) →
        y ∈ ins ∨ .letter y ∈ part := by
      intro part hy
      rcases mem_or_mem_of_mem_replaceAll (hvs v (by simp)) hy with hy | hy
      · exact Or.inl hy
      · exact ih (fun w hw ↦ hvs w (List.mem_append_left _ hw)) hy
    -- piece by piece, at those that read as the last word
    induction hn : run.length using Nat.strong_induction_on generalizing run with
    | _ n ihn =>
      rcases forall_not_reads_or_exists_first v run with
        hne | ⟨a, x, b, rfl, hx, ha⟩
      · rw [standIn_concat_of_not_reads hne] at hy
        exact hpart _ hy
      · rw [standIn_concat_append ha hx, List.mem_append, List.mem_append] at hy
        rcases hy with hy | hy | hy
        · exact (hpart _ hy).imp_right (List.mem_append_left _)
        · exact Or.inl hy
        · exact (ihn b.length (by simp at hn; omega) hy rfl).imp_right fun hy ↦ by simp [hy]

theorem standIn_ne_nil (hvs : ∀ v ∈ vs, v ≠ []) (hins : ins ≠ []) (hrun : run ≠ [])
    (hmem : ∀ r, .removed r ∈ run → r.map key ∈ vs) : standIn key ins vs run ≠ [] := by
  induction vs using List.reverseRecOn generalizing run with
  | nil =>
    obtain ⟨x, run, rfl⟩ := List.exists_cons_of_ne_nil hrun
    cases x with
    | letter b => simp [standIn, Token.letters]
    | removed r => exact absurd (hmem r List.mem_cons_self) (by simp)
  | append_singleton vs v ih =>
    rcases forall_not_reads_or_exists_first v run with hne | ⟨a, x, b, rfl, hx, ha⟩
    · rw [standIn_concat_of_not_reads hne]
      refine replaceAll_ne_nil (hvs v (by simp)) hins
        (ih (fun w hw ↦ hvs w (List.mem_append_left _ hw)) hrun fun r hr ↦ ?_)
      refine (List.mem_append.mp (hmem r hr)).resolve_right fun hrv ↦ ?_
      have hreads := hne _ hr
      simp [Token.reads, List.mem_singleton.mp hrv] at hreads
    · rw [standIn_concat_append ha hx]
      exact List.append_ne_nil_of_right_ne_nil _ (List.append_ne_nil_of_left_ne_nil hins _)

end StandIn

/-! ## The run is one cut -/

section Run

variable {ins s : List β} {vs : List (List α)} {v : List α}

theorem replaceAll_take_append (hv : v ≠ []) {a b : List β} (ha : a.map key = v) :
    replaceAll key v ins (a ++ b) = ins ++ replaceAll key v ins b := by
  have hpre : v <+: (a ++ b).map key := by
    rw [List.map_append, ha]
    exact List.prefix_append _ _
  have hlen : v.length = a.length := by rw [← ha, List.length_map]
  rw [replaceAll_of_isPrefix hv hpre, hlen, List.drop_left]

theorem Clear.replaceAll_append_mark (h : Clear (ins.map key) v) (a b : List β) :
    replaceAll key v ins (a ++ (ins ++ b))
      = replaceAll key v ins a ++ (ins ++ replaceAll key v ins b) := by
  rw [replaceAll_append h.ne_nil, replaceAll_append h.ne_nil, replaceAll_eq_self h.not_infix]
  · rintro p q hp hq hpm - rfl
    exact h.not_prefix_suffix (List.map_append ..) (by simpa using hp) (by simpa using hq)
      (hpm.map key)
  · rintro p q hp hq - hqm rfl
    rcases List.prefix_or_prefix_of_prefix hqm (List.prefix_append ins b) with hqm | ⟨q', rfl⟩
    · exact h.not_suffix_prefix (List.map_append ..) (by simpa using hp) (by simpa using hq)
        (hqm.map key)
    · exact h.not_contains ((List.infix_append' p ins q').map key)

omit [DecidableEq α] [DecidablePred live] in
theorem Unmixed.of_infix {out out' : List β} (h : Unmixed key live v out) (hin : out' <:+: out) :
    Unmixed key live v out' := fun r hr ↦ h r (hr.trans hin)

omit [DecidablePred live] in
/-- A place between a letter that is not live and one that is splits the work of a pass. -/
theorem Unmixed.replaceAll_append (hv : v ≠ []) {w t : List β} {b : β} (hw : ∀ x ∈ w, ¬live x)
    (hb : live b) (h : Unmixed key live v (w ++ b :: t)) :
    replaceAll key v ins (w ++ b :: t)
      = replaceAll key v ins w ++ replaceAll key v ins (b :: t) := by
  refine Words.replaceAll_append hv fun p q hp hq hpw hqb hpq ↦ ?_
  obtain ⟨x, hx⟩ := List.exists_mem_of_ne_nil p hp
  obtain ⟨c, q', rfl⟩ := List.exists_cons_of_ne_nil hq
  obtain rfl := (List.cons_prefix_cons.mp hqb).1
  have hin : p ++ c :: q' <:+: w ++ c :: t := by
    obtain ⟨w', rfl⟩ := hpw
    obtain ⟨t', ht'⟩ := hqb
    exact ⟨w', t', by rw [List.append_assoc, List.append_assoc, List.append_assoc, ht']⟩
  rcases h _ hin hpq with hall | hall
  · exact hw x (hpw.subset hx) (hall x (List.mem_append_left _ hx))
  · exact hall c (by simp) hb

section Step

variable (hvs : ∀ w ∈ vs, w ≠ []) (hv : v ≠ []) (hnot : v ∉ vs) (hins : ins ≠ [])
  (hdead : ∀ x ∈ ins, ¬live x)

omit [DecidablePred live] in
include hvs hdead in
theorem not_live_of_mem_standIn {run : List (Token β)} (hrun : Idle live run) {x : β}
    (hx : x ∈ standIn key ins vs run) : ¬live x :=
  (mem_or_mem_of_mem_standIn hvs hx).elim (hdead x) (hrun x)

include hnot in
theorem reads_eq_false {run : List (Token β)} (hrun : Reads key vs run) :
    ∀ x ∈ run, x.reads key v = false := by
  intro x hx
  cases x with
  | letter b => rfl
  | removed r =>
    refine decide_eq_false ?_
    rintro rfl
    exact hnot (hrun r hx)

include hvs hins hdead in
/-- What is filled in behind a run begins with a letter that is not live. -/
theorem not_live_of_fillFrom_eq_cons {run u : List (Token β)} (hne : run ≠ [])
    (hrun : Idle live run) (hreads : Reads key vs (run ++ u)) {y : β} {l : List β}
    (hl : fillFrom live (standIn key ins vs) run u = y :: l) : ¬live y := by
  obtain ⟨more, hmore, hidle, hpre⟩ := exists_prefix_fillFrom (standIn key ins vs) hrun u
  have hsome : standIn key ins vs (run ++ more) ≠ [] :=
    standIn_ne_nil hvs hins (List.append_ne_nil_of_left_ne_nil hne _) fun r hr ↦
      hreads r (((List.prefix_append_right_inj run).mpr hmore).subset hr)
  obtain ⟨x, t, hx⟩ := List.exists_cons_of_ne_nil hsome
  rw [hx, hl, List.cons_prefix_cons] at hpre
  rw [← hpre.1]
  exact not_live_of_mem_standIn hvs hdead hidle (hx ▸ List.mem_cons_self)

include hvs hins hdead in
theorem prefix_of_prefix_fillFrom {h r : List β} {u : List (Token β)} (hreads : Reads key vs u)
    (hu : ∀ b u', u ≠ .letter b :: u') (hr : ∀ x ∈ r, live x)
    (hpre : r <+: fillFrom live (standIn key ins vs) [] (h.map .letter ++ u)) : r <+: h := by
  -- behind tokens that are not live there is no live letter at the front
  have hnone : ∀ {r run u'}, (∀ x ∈ r, live x) → run ≠ [] → Idle live run →
      Reads key vs (run ++ u') → r <+: fillFrom live (standIn key ins vs) run u' → r = [] := by
    intro r run u' hr hne hrun hreads' hpre'
    cases r with
    | nil => rfl
    | cons x r =>
      obtain ⟨l, hl⟩ := hpre'
      exact absurd (hr x List.mem_cons_self)
        (not_live_of_fillFrom_eq_cons hvs hins hdead hne hrun hreads' hl.symm)
  induction h generalizing r with
  | nil =>
    rw [List.map_nil, List.nil_append] at hpre
    rw [List.prefix_nil]
    cases u with
    | nil => simpa [fillFrom] using hpre
    | cons x u' =>
      cases x with
      | letter b => exact absurd rfl (hu b u')
      | removed p =>
        rw [fillFrom_removed] at hpre
        exact hnone hr (by simp) (idle_nil.concat_removed p) hreads hpre
  | cons b h ih =>
    rw [List.map_cons, List.cons_append] at hpre
    by_cases hb : live b
    · rw [fillFrom_letter_of_live hb, standIn_nil, List.nil_append] at hpre
      cases r with
      | nil => exact List.nil_prefix
      | cons x r =>
        obtain ⟨rfl, htail⟩ := List.cons_prefix_cons.mp hpre
        exact (List.prefix_cons_inj x).mpr
          (ih (fun y hy ↦ hr y (List.mem_cons_of_mem x hy)) htail)
    · rw [fillFrom_letter_of_not hb] at hpre
      rw [hnone hr (by simp) (idle_nil.concat_letter hb) (hreads.letters_append (b :: h)) hpre]
      exact List.nil_prefix

include hvs hv hnot hins hdead in
/-- A kept piece is cut again where its word is found in it, whatever stands on its two sides. -/
theorem replaceAll_fillFrom_letters {h : List β} {u u' : List (Token β)}
    (hh : ∀ r, r <:+: h → r.map key = v → ∀ x ∈ r, live x) (hreads : Reads key vs u)
    (hu : ∀ b t, u ≠ .letter b :: t)
    (hu' : ∀ run, Idle live run → Reads key vs run →
      Unmixed key live v (fillFrom live (standIn key ins vs) run u) →
      replaceAll key v ins (fillFrom live (standIn key ins vs) run u)
        = fillFrom live (standIn key ins (vs ++ [v])) run u')
    {run : List (Token β)} (hidle : Idle live run) (hrun : Reads key vs run)
    (hmix : Unmixed key live v (fillFrom live (standIn key ins vs) run (h.map .letter ++ u))) :
    replaceAll key v ins (fillFrom live (standIn key ins vs) run (h.map .letter ++ u))
      = fillFrom live (standIn key ins (vs ++ [v])) run ((cut key v h).tokens ++ u') := by
  induction h using cut_induction key hv generalizing run with
  | nil => exact hu' run hidle hrun hmix
  | hit h hpre ih =>
    have htake := take_map_of_isPrefix hpre
    have hlive := hh _ (List.take_prefix _ _).isInfix htake
    obtain ⟨b, p, hbp⟩ : ∃ b p, h.take v.length = b :: p :=
      List.exists_cons_of_ne_nil fun hnil ↦ hv (by rw [← htake, hnil, List.map_nil])
    have hsplit : h.map Token.letter ++ u
        = (h.take v.length).map .letter ++ ((h.drop v.length).map .letter ++ u) := by
      rw [← List.append_assoc, ← List.map_append, List.take_append_drop]
    -- the first removed piece closes the run
    have hclosed : ∀ x, standIn key ins (vs ++ [v]) (run ++ [.removed (h.take v.length)] ++ x)
        = (replaceAll key v ins (standIn key ins vs run) ++ ins)
          ++ standIn key ins (vs ++ [v]) x := by
      intro x
      rw [List.append_assoc, List.singleton_append, standIn_concat_append
        (reads_eq_false hnot hrun) (by simp [Token.reads, htake]), List.append_assoc]
    rw [cut_of_isPrefix hv hpre, Cut.tokens_consRemoved, List.cons_append, fillFrom_removed,
      fillFrom_eq_append hclosed]
    rw [hsplit, fillFrom_live_append (standIn_nil ..) (by simp [hbp]) hlive] at hmix ⊢
    have hrest := hmix.of_infix
      ((List.suffix_append _ _).trans (List.suffix_append _ _)).isInfix
    rw [hbp, List.cons_append] at hmix ⊢
    rw [hmix.replaceAll_append hv (fun x ↦ not_live_of_mem_standIn hvs hdead hidle)
        (hlive b (hbp ▸ List.mem_cons_self)), ← List.cons_append, ← hbp,
      replaceAll_take_append hv htake,
      ih (fun r hr ↦ hh r (hr.trans (List.drop_suffix _ _).isInfix)) idle_nil reads_nil hrest]
    simp only [List.append_assoc]
  | miss b h hpre ih =>
    have hh' : ∀ r, r <:+: h → r.map key = v → ∀ x ∈ r, live x :=
      fun r hr ↦ hh r (List.infix_cons hr)
    rw [List.map_cons, List.cons_append] at hmix ⊢
    rw [cut_of_not_isPrefix hpre, Cut.tokens_cons, List.cons_append]
    by_cases hb : live b
    · rw [fillFrom_letter_of_live hb] at hmix ⊢
      have hrest := hmix.of_infix ((List.suffix_cons _ _).trans (List.suffix_append _ _)).isInfix
      -- what is found here would be live, so it would lie in the kept piece
      have hno : ¬v <+: (b :: fillFrom live (standIn key ins vs) []
          (h.map .letter ++ u)).map key := by
        intro hfound
        have htake := take_map_of_isPrefix hfound
        obtain ⟨n, hn⟩ := Nat.exists_eq_succ_of_ne_zero (mt List.length_eq_zero_iff.mp hv)
        rw [hn, List.take_succ_cons] at htake
        have hin := List.take_prefix n (fillFrom live (standIn key ins vs) []
          (h.map .letter ++ u))
        rcases hmix _ (((List.prefix_cons_inj b).mpr hin).isInfix.trans
          (List.suffix_append _ _).isInfix) htake with hall | hall
        · have hh := prefix_of_prefix_fillFrom hvs hins hdead hreads hu
            (fun x hx ↦ hall x (List.mem_cons_of_mem b hx)) hin
          refine hpre ?_
          rw [← htake]
          exact ((List.prefix_cons_inj b).mpr hh).map key
        · exact hall b List.mem_cons_self hb
      rw [hmix.replaceAll_append hv (fun x ↦ not_live_of_mem_standIn hvs hdead hidle) hb,
        replaceAll_of_not_isPrefix hno, ih hh' idle_nil reads_nil hrest,
        fillFrom_letter_of_live hb,
        standIn_concat_of_not_reads (reads_eq_false hnot hrun)]
    · rw [fillFrom_letter_of_not hb] at hmix ⊢
      rw [fillFrom_letter_of_not hb]
      exact ih hh' (hidle.concat_letter hb) (hrun.concat_letter b) hmix

include hvs hv hnot hins hdead in
/-- **One pass.** A word that is found on no live letters together with others is replaced in what
stands in for the runs between live letters, and cuts the kept pieces again. -/
theorem replaceAll_fillFrom {h : List β} {t : List (List β × List β)}
    (hkept : ∀ k ∈ (Cut.mk h t).kept, ∀ r, r <:+: k → r.map key = v → ∀ x ∈ r, live x)
    (hreads : Reads key vs (Cut.mk h t).tokens) {run : List (Token β)} (hidle : Idle live run)
    (hrun : Reads key vs run)
    (hmix : Unmixed key live v (fillFrom live (standIn key ins vs) run (Cut.mk h t).tokens)) :
    replaceAll key v ins (fillFrom live (standIn key ins vs) run (Cut.mk h t).tokens)
      = fillFrom live (standIn key ins (vs ++ [v])) run
          ((Cut.mk h t).refine (cut key v)).tokens := by
  induction t generalizing run h with
  | nil =>
    rw [Cut.tokens_mk_nil, ← List.append_nil (h.map _)] at hmix ⊢
    rw [Cut.tokens_refine_mk_nil, ← List.append_nil (cut key v h).tokens]
    refine replaceAll_fillFrom_letters hvs hv hnot hins hdead (hkept h List.mem_cons_self)
      reads_nil (by simp) (fun run hidle hrun hmix ↦ ?_) hidle hrun hmix
    rw [fillFrom, fillFrom, standIn_concat_of_not_reads (reads_eq_false hnot hrun)]
  | cons p t ih =>
    rw [Cut.tokens_mk_cons] at hreads hmix ⊢
    rw [Cut.tokens_refine_mk_cons]
    have hp : p.1.map key ∈ vs := hreads p.1 (by simp)
    have hreads' : Reads key vs (Cut.mk p.2 t).tokens := fun r hr ↦ hreads r (by simp [hr])
    refine replaceAll_fillFrom_letters hvs hv hnot hins hdead (hkept h List.mem_cons_self)
      (fun r hr ↦ hreads r (List.mem_append_right _ hr)) (by simp)
      (fun run hidle hrun hmix ↦ ?_) hidle hrun hmix
    rw [fillFrom_removed] at hmix ⊢
    rw [fillFrom_removed]
    exact ih (fun k hk ↦ hkept k (List.mem_cons_of_mem h hk)) hreads' (hidle.concat_removed p.1)
      (hrun.concat_removed hp) hmix

end Step

theorem Undisturbed.of_append {ws : List (List α)} (h : Undisturbed key live (vs ++ ws) ins s) :
    Undisturbed key live vs ins s :=
  fun pre v hpre ↦ h pre v (hpre.trans (List.prefix_append vs ws))

theorem fillFrom_letters (ins : List β) (run : List (Token β)) (s : List β) :
    fillFrom live (standIn key ins []) run (s.map .letter) = run.flatMap Token.letters ++ s := by
  induction s generalizing run with
  | nil => rw [List.map_nil, fillFrom, List.append_nil]; rfl
  | cons b s ih =>
    rw [List.map_cons]
    by_cases hb : live b
    · rw [fillFrom_letter_of_live hb, ih]
      rfl
    · rw [fillFrom_letter_of_not hb, ih]
      simp [Token.letters]

/-- **The run is one cut.** Passes that find no word on live letters together with others refine a
cut of the original text, in which something stands in for what is between live letters. -/
theorem replaceEach_eq_fill (hvs : ∀ v ∈ vs, v ≠ []) (hnd : vs.Nodup) (hins : ins ≠ [])
    (hdead : ∀ x ∈ ins, ¬live x)
    (hlive : ∀ v ∈ vs, ∀ r, r <:+: s → r.map key = v → ∀ x ∈ r, live x)
    (h : Undisturbed key live vs ins s) :
    replaceEach key vs ins s = (cutEach key vs s).fill live (standIn key ins vs) := by
  induction vs using List.reverseRecOn with
  | nil =>
    rw [Cut.fill, cutEach, List.foldl_nil, Cut.tokens_whole, fillFrom_letters]
    rfl
  | append_singleton vs v ih =>
    have hvs' : ∀ w ∈ vs, w ≠ [] := fun w hw ↦ hvs w (List.mem_append_left _ hw)
    rw [List.nodup_append_comm, List.singleton_append, List.nodup_cons] at hnd
    rw [replaceEach_concat,
      ih hvs' hnd.2 (fun w hw ↦ hlive w (List.mem_append_left _ hw)) h.of_append, cutEach_concat]
    refine replaceAll_fillFrom hvs' (hvs v (by simp)) hnd.1 hins hdead (fun k hk r hr ↦ ?_)
      (fun r hr ↦ map_key_mem_of_mem_removed hvs' (Cut.removed_mem_tokens.mp hr)) idle_nil
      reads_nil (h vs v List.prefix_rfl)
    have hks : k <:+: (cutEach key vs s).word := Cut.kept_infix_word hk
    rw [word_cutEach hvs'] at hks
    exact hlive v (by simp) r (hr.trans hks)

theorem replaceEach_eq_mark (hvs : ∀ v ∈ vs, Clear (ins.map key) v) (s : List β) :
    replaceEach key vs ins s = (cutEach key vs s).mark ins := by
  induction vs using List.reverseRecOn with
  | nil => simp [replaceEach, cutEach, Cut.mark, Cut.whole]
  | append_singleton vs v ih =>
    rw [replaceEach_concat, ih fun w hw ↦ hvs w (List.mem_append_left _ hw), cutEach_concat]
    exact Cut.mark_refine (fun _ ↦ rfl) (hvs v (by simp)).replaceAll_append_mark _

end Run

end Passes

end Words
