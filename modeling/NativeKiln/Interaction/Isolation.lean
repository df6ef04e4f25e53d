import NativeKiln.Interaction.System

/-!
# Threads that do not meet

Suppose that the operations of some threads depend on a part of the store only, and that the
operations of all the others leave that part alone. Then what the former are answered is the same in
any two runs whose schedules agree on the entries about them (`Separates.isolated`): the others may
as well not be there.

The two halves are asked of single operations. Replies need not be equal to count as the same, as
long as the code of the threads ignores the difference; and an operation may find something in its
way that the others have left there, as long as this does not happen in the runs that are compared.
-/

namespace Interaction

variable {Op : Type} {Val : Op → Type} {ε α β γ δ ι ρ χ σ τ : Type}

/-! ## Results that correspond -/

section Rel

variable {R : α → β → Prop} {S : γ → δ → Prop} {a a' : Option α} {b b' : Option β}

theorem rel_map (h : Option.Rel R a b) {f : α → γ} {g : β → δ} (hS : ∀ p q, R p q → S (f p) (g q)) :
    Option.Rel S (a.map f) (b.map g) := by
  cases h with
  | some h => exact .some (hS _ _ h)
  | none => exact .none

theorem rel_ite {c : Prop} [Decidable c] (h : Option.Rel R a b) (h' : Option.Rel R a' b') :
    Option.Rel R (if c then a else a') (if c then b else b') := by
  split
  · exact h
  · exact h'

end Rel

namespace Program

/-! ## Replies that make no difference -/

/-- The program goes on in the same way after replies that are alike. -/
def Ignores (R : (o : Op) → Except ε (Val o) → Except ε (Val o) → Prop) :
    Program Op Val ε α → Prop
  | .pure _ => True
  | .throw _ => True
  | .perform o k => (∀ r r', R o r r' → k r = k r') ∧ ∀ r, Ignores R (k r)
  | .detach _ k => Ignores R k

section Ignores

variable {R : (o : Op) → Except ε (Val o) → Except ε (Val o) → Prop} {o : Op}

theorem ignores_pure {a : α} : Ignores R (Pure.pure a : Program Op Val ε α) := trivial

theorem ignores_throw {e : ε} : Ignores R (MonadExcept.throw e : Program Op Val ε α) := trivial

theorem ignores_ofReply {r : Except ε α} : Ignores R (ofReply r : Program Op Val ε α) := by
  cases r <;> trivial

theorem ignores_call (h : ∀ r r', R o r r' → r = r') :
    Ignores R (call o : Program Op Val ε (Val o)) :=
  ⟨fun r r' hr ↦ congrArg ofReply (h r r' hr), fun _ ↦ ignores_ofReply⟩

theorem Ignores.bind {p : Program Op Val ε α} {f : α → Program Op Val ε β} (hp : Ignores R p)
    (hf : ∀ a, Ignores R (f a)) : Ignores R (p >>= f) := by
  change Ignores R (p.bind f)
  induction p with
  | pure a => exact hf a
  | throw e => trivial
  | perform o k ih =>
    exact ⟨fun r r' hr ↦ congrArg (Program.bind · f) (hp.1 r r' hr), fun r ↦ ih r (hp.2 r)⟩
  | detach o k ih => exact ih hp

theorem Ignores.tryCatch {p : Program Op Val ε α} {g : ε → Program Op Val ε α} (hp : Ignores R p)
    (hg : ∀ e, Ignores R (g e)) : Ignores R (MonadExcept.tryCatch p g) := by
  change Ignores R (p.tryCatch g)
  induction p with
  | pure a => trivial
  | throw e => exact hg e
  | perform o k ih =>
    exact ⟨fun r r' hr ↦ congrArg (Program.tryCatch · g) (hp.1 r r' hr), fun r ↦ ih r (hp.2 r)⟩
  | detach o k ih => exact ih hp

theorem ignores_call_bind {f : Val o → Program Op Val ε β}
    (h : ∀ r r', R o r r' → (ofReply r : Program Op Val ε (Val o)) >>= f = ofReply r' >>= f)
    (hf : ∀ a, Ignores R (f a)) : Ignores R (call o >>= f) :=
  ⟨fun r r' hr ↦ h r r' hr, fun _ ↦ ignores_ofReply.bind hf⟩

theorem ignores_composable : Composable (fun o ↦ ∀ r r', R o r r' → r = r') (fun _ ↦ True)
    fun {α} (p : Program Op Val ε α) ↦ Ignores R p where
  pure _ := ignores_pure
  throw _ := ignores_throw
  call := ignores_call
  spawn _ := trivial
  bind := Ignores.bind
  recover hp hq := hp.tryCatch fun _ ↦ hq

end Ignores

end Program

namespace System

/-! ## Parts of a schedule -/

/-- The entry is about one of the threads, or lets time pass. -/
def Label.concerns (mine : ℕ → Bool) : Label ε ι χ → Bool
  | .tick _ => true
  | .start i _ => mine i
  | .next i _ _ => mine i
  | .background _ _ _ => false
  | .stop i => mine i

/-- The schedule without what the other threads do. -/
def part (mine : ℕ → Bool) (ls : List (Label ε ι χ)) : List (Label ε ι χ) :=
  ls.filter (Label.concerns mine)

/-! ## Operations that see a part of the store -/

/-- The operations in `N` see the store through `view` only: where it is the same, and unless there
is something in their way (`C`), they do the same to it and give replies that are alike. Those in
`M` leave what it shows alone. -/
structure Separates (S : System Op Val ε ι ρ χ σ) (view : σ → τ) (N M : Op → Prop)
    (C : σ → Op → Prop) (R : (o : Op) → Except ε (Val o) → Except ε (Val o) → Prop) : Prop where
  tick : ∀ d s s', view s = view s' → view (S.tick d s) = view (S.tick d s')
  error : ∀ o e, R o (.error e) (.error e)
  sees : ∀ y s s' o, N o → view s = view s' →
    Option.Rel (fun p p' ↦ C s o → C s' o → view p.1 = view p'.1 ∧ R o p.2 p'.2) (S.exec y s o)
      (S.exec y s' o)
  leaves : ∀ y s o p, M o → S.exec y s o = some p → view p.1 = view s

section Answers

variable {S : System Op Val ε ι ρ χ σ} {view : σ → τ} {N M : Op → Prop} {C : σ → Op → Prop}
  {R : (o : Op) → Except ε (Val o) → Except ε (Val o) → Prop}

theorem Separates.answer? (h : S.Separates view N M C R) {s s' : σ} {o : Op} (ho : N o)
    (hs : view s = view s') (y : χ) (f : Fault ε) :
    Option.Rel (fun p p' ↦ C s o → C s' o → view p.1 = view p'.1 ∧ R o p.2.seen p'.2.seen)
      (S.answer? y f s o) (S.answer? y f s' o) := by
  have hexec := h.sees y s s' o ho hs
  cases f with
  | none => exact rel_map hexec fun p p' hp ↦ hp
  | reject e => exact rel_ite (.some fun _ _ ↦ ⟨hs, h.error o e⟩) .none
  | lose e => exact rel_ite (rel_map hexec fun p p' hp hC hC' ↦ ⟨(hp hC hC').1, h.error o e⟩) .none

theorem Separates.answer?_eq (h : S.Separates view N M C R) {s : σ} {o : Op} (ho : M o) {y : χ}
    {f : Fault ε} {p : σ × Reply ε (Val o)} (hp : S.answer? y f s o = some p) :
    view p.1 = view s := by
  have hr := answers_of_answer? hp
  have heffect := hr.of_effect
  split at heffect
  · next a _ =>
    obtain ⟨y', hy'⟩ := heffect
    exact h.leaves y' s o _ ho hy'
  · rw [heffect]

end Answers

/-! ## Configurations that look alike -/

variable {S : System Op Val ε ι ρ χ σ} {mine : ℕ → Bool} {view : σ → τ} {N M : Op → Prop}
  {C : σ → Op → Prop} {R : (o : Op) → Except ε (Val o) → Except ε (Val o) → Prop}
  {O : Answer Op Val ε → γ}

/-- The code of a thread: of one of ours, it asks for operations that see the view and ignores the
rest of the replies; of another, it leaves the view alone. -/
def Fits (N M : Op → Prop) (R : (o : Op) → Except ε (Val o) → Except ε (Val o) → Prop)
    (ours : Bool) (p : Program Op Val ε ρ) : Prop :=
  if ours then p.Asks N (fun _ ↦ False) ∧ p.Ignores R else p.Asks M M

/-- All threads have code that fits, and what is pending leaves the view alone. -/
structure Confined (mine : ℕ → Bool) (N M : Op → Prop)
    (R : (o : Op) → Except ε (Val o) → Except ε (Val o) → Prop) (c : Config Op Val ε ι ρ σ) :
    Prop where
  code : ∀ i x p, c.threads i = some ⟨x, some p⟩ → Fits N M R (mine i) p
  pending : ∀ q ∈ c.pending, M q.op

theorem Confined.emit {c : Config Op Val ε ι ρ σ} (h : Confined mine N M R c) {i : ℕ} {x : ι}
    {a : Action Op Val ε ρ} {s : σ} {code : Option (Program Op Val ε ρ)}
    (hcode : ∀ p, code = some p → Fits N M R (mine i) p) :
    Confined mine N M R (c.emit i x a s code) := by
  refine ⟨fun j y p hj ↦ ?_, h.pending⟩
  rw [Config.emit_threads] at hj
  split at hj
  · next hji => exact hji ▸ hcode p (Thread.mk.inj (Option.some_inj.mp hj)).2
  · exact h.code j y p hj

/-- Our threads are the same in both, and have observed the same. -/
structure Agree (mine : ℕ → Bool) (view : σ → τ) (N M : Op → Prop)
    (R : (o : Op) → Except ε (Val o) → Except ε (Val o) → Prop) (O : Answer Op Val ε → γ)
    (c d : Config Op Val ε ι ρ σ) : Prop where
  store : view c.store = view d.store
  threads : ∀ i, mine i → c.threads i = d.threads i
  history : ∀ i, mine i → (own i c.trace).map O = (own i d.trace).map O
  left : Confined mine N M R c
  right : Confined mine N M R d

theorem Agree.symm {c d : Config Op Val ε ι ρ σ} (h : Agree mine view N M R O c d) :
    Agree mine view N M R O d c :=
  ⟨h.store.symm, fun i hi ↦ (h.threads i hi).symm, fun i hi ↦ (h.history i hi).symm, h.right,
    h.left⟩

section Agree

variable {c d : Config Op Val ε ι ρ σ} {i : ℕ} {x : ι} {a a' : Action Op Val ε ρ} {s s' : σ}
  {code : Option (Program Op Val ε ρ)}

theorem Agree.emit_mine (h : Agree mine view N M R O c d) (hi : mine i)
    (hs : view s = view s') (hcode : ∀ p, code = some p → Fits N M R true p)
    (hown : (own i (c.emit i x a s code).trace).map O =
      (own i (d.emit i x a' s' code).trace).map O) :
    Agree mine view N M R O (c.emit i x a s code) (d.emit i x a' s' code) where
  store := hs
  threads j hj := by
    rw [Config.emit_threads, Config.emit_threads]
    split
    · rfl
    · exact h.threads j hj
  history j hj := by
    by_cases hji : i = j
    · exact hji ▸ hown
    · rw [Config.emit_trace, Config.emit_trace, own_concat_of_ne hji, own_concat_of_ne hji]
      exact h.history j hj
  left := h.left.emit fun p hp ↦ by
    rw [hi]
    exact hcode p hp
  right := h.right.emit fun p hp ↦ by
    rw [hi]
    exact hcode p hp

theorem Agree.emit_mine_quiet (h : Agree mine view N M R O c d) (hi : mine i)
    (hcode : ∀ p, code = some p → Fits N M R true p) (ha : ∀ o r, a ≠ .perform o r)
    (ha' : ∀ o r, a' ≠ .perform o r) :
    Agree mine view N M R O (c.emit i x a c.store code) (d.emit i x a' d.store code) := by
  refine h.emit_mine hi h.store hcode ?_
  rw [Config.emit_trace, Config.emit_trace, own_concat_of_not_perform ha,
    own_concat_of_not_perform ha']
  exact h.history i hi

theorem Agree.emit_other (h : Agree mine view N M R O c d) (hi : mine i = false)
    (hs : view s = view c.store) (hcode : ∀ p, code = some p → Fits N M R false p) :
    Agree mine view N M R O (c.emit i x a s code) d where
  store := hs.trans h.store
  threads j hj := by
    have hji : j ≠ i := fun hji ↦ by simp [hji, hi] at hj
    rw [Config.emit_threads, if_neg hji]
    exact h.threads j hj
  history j hj := by
    have hji : i ≠ j := fun hji ↦ by simp [← hji, hi] at hj
    rw [Config.emit_trace, own_concat_of_ne hji]
    exact h.history j hj
  left := h.left.emit fun p hp ↦ by
    rw [hi]
    exact hcode p hp
  right := h.right

end Agree

/-! ## Runs that look alike -/

variable (S mine N M R) in
/-- The thread that an entry starts has code that fits. -/
def Starts (l : Label ε ι χ) : Prop :=
  ∀ i x, l = .start i x → Fits N M R (mine i) (S.body x)

/-- Nothing was in the way of an operation of our threads. -/
def Unhindered (mine : ℕ → Bool) (C : σ → Op → Prop) (tr : List (Event Op Val ε ι ρ σ)) : Prop :=
  ∀ e ∈ tr, mine e.thread → ∀ o r, e.action = .perform o r → C e.before o

section Step

variable {c d : Config Op Val ε ι ρ σ}

theorem Agree.next_mine (hS : S.Separates view N M C R)
    (hobs : ∀ o r r', R o r r' → O ⟨o, r⟩ = O ⟨o, r'⟩) (h : Agree mine view N M R O c d)
    {i : ℕ} (hi : mine i) (y : χ) (f : Fault ε)
    (hc : Unhindered mine C ((S.next? (.next i y f) c).getD c).trace)
    (hd : Unhindered mine C ((S.next? (.next i y f) d).getD d).trace) :
    Agree mine view N M R O ((S.next? (.next i y f) c).getD c)
      ((S.next? (.next i y f) d).getD d) := by
  rw [next?] at hc hd ⊢
  rw [next?, ← h.threads i hi]
  rw [← h.threads i hi] at hd
  rcases hthread : c.threads i with _ | ⟨x, _ | p⟩
  · exact h
  · exact h
  have hfits := h.left.code i x _ hthread
  rw [Fits, if_pos hi] at hfits
  rw [hthread] at hc hd
  rcases p with a | e | ⟨o, k⟩ | ⟨o, k⟩
  · exact h.emit_mine_quiet hi (by simp) (by simp) (by simp)
  · exact h.emit_mine_quiet hi (by simp) (by simp) (by simp)
  · obtain ⟨ho, hk⟩ := Program.asks_perform.mp hfits.1
    have hanswer := hS.answer? ho h.store y f
    dsimp only at hc hd ⊢
    generalize S.answer? y f c.store o = done, S.answer? y f d.store o = done' at hanswer hc hd ⊢
    rcases hanswer with hanswer | _
    · next p p' =>
      rw [Option.map_some, Option.getD_some] at hc hd
      rw [Option.map_some, Option.map_some, Option.getD_some, Option.getD_some]
      -- the events say that there was nothing in the way
      obtain ⟨hview, hreply⟩ := hanswer
        (hc ⟨i, x, c.store, .perform o p.2, p.1⟩ (by simp) hi o p.2 rfl)
        (hd ⟨i, x, d.store, .perform o p'.2, p'.1⟩ (by simp) hi o p'.2 rfl)
      rw [← hfits.2.1 _ _ hreply]
      refine h.emit_mine hi hview (fun q hq ↦ ?_) ?_
      · obtain rfl := Option.some_inj.mp hq
        exact (if_pos rfl).mpr ⟨hk _, hfits.2.2 _⟩
      · have hown := own_concat_perform (e := ⟨i, x, c.store, .perform o p.2, p.1⟩) rfl c.trace
        have hown' := own_concat_perform (e := ⟨i, x, d.store, .perform o p'.2, p'.1⟩) rfl d.trace
        change own i _ = _ at hown hown'
        rw [Config.emit_trace, Config.emit_trace, hown, hown', List.map_append, List.map_append]
        exact congrArg₂ (· ++ ·) (h.history i hi) (congrArg ([·]) (hobs o _ _ hreply))
    · exact h
  · exact (Program.asks_detach.mp hfits.1).1.elim

/-- Another thread takes a step, which cannot be seen. -/
theorem Agree.next_other (hS : S.Separates view N M C R) (h : Agree mine view N M R O c d)
    {i : ℕ} (hi : mine i = false) (y : χ) (f : Fault ε) :
    Agree mine view N M R O ((S.next? (.next i y f) c).getD c) d := by
  rw [next?]
  rcases hthread : c.threads i with _ | ⟨x, _ | p⟩
  · exact h
  · exact h
  have hfits := h.left.code i x _ hthread
  rw [Fits, hi, if_neg Bool.false_ne_true] at hfits
  rcases p with a | e | ⟨o, k⟩ | ⟨o, k⟩
  · exact h.emit_other hi rfl (by simp)
  · exact h.emit_other hi rfl (by simp)
  · obtain ⟨ho, hk⟩ := Program.asks_perform.mp hfits
    dsimp only
    rcases hanswer : S.answer? y f c.store o with _ | p
    · exact h
    · refine h.emit_other hi (hS.answer?_eq ho hanswer) fun q hq ↦ ?_
      obtain rfl := Option.some_inj.mp hq
      exact (if_neg Bool.false_ne_true).mpr (hk _)
  · obtain ⟨ho, hk⟩ := Program.asks_detach.mp hfits
    have hemit : Agree mine view N M R O (c.emit i x (.detach o) c.store (some k)) d :=
      h.emit_other hi rfl fun p hp ↦ by
        obtain rfl := Option.some_inj.mp hp
        exact (if_neg Bool.false_ne_true).mpr hk
    refine ⟨hemit.store, hemit.threads, hemit.history, ⟨hemit.left.code, fun q hq ↦ ?_⟩, h.right⟩
    rcases List.mem_append.mp hq with hq | hq
    · exact hemit.left.pending q hq
    · obtain rfl := List.mem_singleton.mp hq
      exact ho

theorem Agree.background (hS : S.Separates view N M C R) (h : Agree mine view N M R O c d)
    (j : ℕ) (y : χ) (f : Fault ε) :
    Agree mine view N M R O ((S.next? (.background j y f) c).getD c) d := by
  rw [next?]
  rcases hj : c.pending[j]? with _ | q
  · exact h
  dsimp only
  rcases hanswer : S.answer? y f c.store q.op with _ | p
  · exact h
  have hq := h.left.pending q (List.mem_of_getElem? hj)
  refine ⟨(hS.answer?_eq hq hanswer).trans h.store, h.threads, fun i hi ↦ ?_, ⟨h.left.code,
    fun q' hq' ↦ h.left.pending q' (List.mem_of_mem_eraseIdx hq')⟩, h.right⟩
  change (own i (c.trace ++ [_])).map O = _
  rw [own_concat_of_not_perform (by simp)]
  exact h.history i hi

/-- **The step of the others.** An entry that is not about our threads has no effect on them. -/
theorem Agree.skip (hS : S.Separates view N M C R) (h : Agree mine view N M R O c d)
    {l : Label ε ι χ} (hl : Starts S mine N M R l) (hother : l.concerns mine = false) :
    Agree mine view N M R O ((S.next? l c).getD c) d := by
  cases l with
  | tick t => simp [Label.concerns] at hother
  | start i x =>
    have hi : mine i = false := hother
    have hfits := hl i x rfl
    rw [next?]
    rcases c.threads i with _ | t
    · refine h.emit_other hi rfl fun p hp ↦ ?_
      obtain rfl := Option.some_inj.mp hp
      exact hi ▸ hfits
    · exact h
  | next i y f => exact h.next_other hS hother y f
  | background j y f => exact h.background hS j y f
  | stop i =>
    rw [next?]
    rcases c.threads i with _ | ⟨x, _ | p⟩
    · exact h
    · exact h
    · exact h.emit_other hother rfl (by simp)

/-- **Our step.** An entry that is about our threads has the same effect on them in both. -/
theorem Agree.next (hS : S.Separates view N M C R)
    (hobs : ∀ o r r', R o r r' → O ⟨o, r⟩ = O ⟨o, r'⟩) (h : Agree mine view N M R O c d)
    {l : Label ε ι χ} (hl : Starts S mine N M R l) (hours : l.concerns mine = true)
    (hc : Unhindered mine C ((S.next? l c).getD c).trace)
    (hd : Unhindered mine C ((S.next? l d).getD d).trace) :
    Agree mine view N M R O ((S.next? l c).getD c) ((S.next? l d).getD d) := by
  cases l with
  | tick t =>
    exact ⟨hS.tick t _ _ h.store, h.threads, h.history, ⟨h.left.code, h.left.pending⟩,
      ⟨h.right.code, h.right.pending⟩⟩
  | start i x =>
    have hi : mine i = true := hours
    have hfits := hl i x rfl
    rw [next?, next?, ← h.threads i hi]
    rcases c.threads i with _ | t
    · refine h.emit_mine_quiet hi (fun p hp ↦ ?_) (by simp) (by simp)
      obtain rfl := Option.some_inj.mp hp
      exact hi ▸ hfits
    · exact h
  | next i y f => exact h.next_mine hS hobs hours y f hc hd
  | background j y f => simp [Label.concerns] at hours
  | stop i =>
    have hi : mine i = true := hours
    rw [next?, next?, ← h.threads i hi]
    rcases c.threads i with _ | ⟨x, _ | p⟩
    · exact h
    · exact h
    · exact h.emit_mine_quiet hi (by simp) (by simp) (by simp)

end Step

theorem trace_run_concat (ls : List (Label ε ι χ)) (l : Label ε ι χ) (s : σ) :
    (S.run ls s).trace <+: (S.run (ls ++ [l]) s).trace := by
  rw [run_concat]
  cases h : S.next? l (S.run ls s) with
  | none => exact List.prefix_rfl
  | some c =>
    rw [Option.getD_some]
    rcases trace_of_next? h with htr | ⟨e, htr, -⟩
    · rw [htr]
    · rw [htr]
      exact List.prefix_append ..

theorem Unhindered.of_run_concat {ls : List (Label ε ι χ)} {l : Label ε ι χ} {s : σ}
    (h : Unhindered mine C (S.run (ls ++ [l]) s).trace) :
    Unhindered mine C (S.run ls s).trace := by
  have hbefore := trace_run_concat (S := S) ls l s
  exact fun e he ↦ h e (hbefore.subset he)

theorem part_concat (ls : List (Label ε ι χ)) (l : Label ε ι χ) :
    part mine (ls ++ [l]) = if l.concerns mine then part mine ls ++ [l] else part mine ls := by
  rw [part, part, List.filter_append, List.filter_singleton]
  cases l.concerns mine <;> simp

/-- **The run.** Two runs of schedules that agree on the entries about our threads agree, as long as
there is nothing in the way of our operations. -/
theorem Separates.run (hS : S.Separates view N M C R)
    (hobs : ∀ o r r', R o r r' → O ⟨o, r⟩ = O ⟨o, r'⟩) (s : σ) {ls ls' : List (Label ε ι χ)}
    (hls : ∀ l ∈ ls, Starts S mine N M R l) (hls' : ∀ l ∈ ls', Starts S mine N M R l)
    (hpart : part mine ls = part mine ls') (hc : Unhindered mine C (S.run ls s).trace)
    (hd : Unhindered mine C (S.run ls' s).trace) :
    Agree mine view N M R O (S.run ls s) (S.run ls' s) := by
  induction ls using List.reverseRecOn generalizing ls' with
  | nil =>
    induction ls' using List.reverseRecOn with
    | nil =>
      have hinit : Confined mine N M R (S.run [] s) :=
        ⟨fun _ _ _ h ↦ (nomatch h), fun q hq ↦ absurd hq List.not_mem_nil⟩
      exact ⟨rfl, fun _ _ ↦ rfl, fun _ _ ↦ rfl, hinit, hinit⟩
    | append_singleton ls' l' ih' =>
      rw [part_concat] at hpart
      split at hpart
      · simp [part] at hpart
      · next hother =>
        have hrun := ih' (fun l hl ↦ hls' l (List.mem_append_left _ hl)) hpart hd.of_run_concat
        rw [S.run_concat ls' l']
        exact (hrun.symm.skip hS (hls' l' (by simp)) (Bool.not_eq_true _ ▸ hother)).symm
  | append_singleton ls l ih =>
    have hlsl : ∀ l ∈ ls, Starts S mine N M R l := fun l hl ↦ hls l (List.mem_append_left _ hl)
    rw [part_concat] at hpart
    split at hpart
    swap
    · next hother =>
      have hrun := ih hlsl hls' hpart hc.of_run_concat hd
      rw [S.run_concat ls l]
      exact hrun.skip hS (hls l (by simp)) (Bool.not_eq_true _ ▸ hother)
    next hours =>
    -- the entry of the other schedule comes behind some that are not about our threads
    induction ls' using List.reverseRecOn with
    | nil => simp [part] at hpart
    | append_singleton ls' l' ih' =>
      have hlsl' : ∀ l ∈ ls', Starts S mine N M R l :=
        fun l hl ↦ hls' l (List.mem_append_left _ hl)
      rw [part_concat] at hpart
      split at hpart
      · obtain ⟨hsame, hl⟩ := List.append_inj' hpart rfl
        obtain rfl := List.singleton_inj.mp hl
        have hrun := ih hlsl hlsl' hsame hc.of_run_concat hd.of_run_concat
        rw [run_concat] at hc hd
        rw [run_concat, run_concat]
        exact hrun.next hS hobs (hls l (by simp)) hours hc hd
      · next hother =>
        have hrun := ih' hlsl' hd.of_run_concat hpart
        rw [S.run_concat ls' l']
        exact (hrun.symm.skip hS (hls' l' (by simp)) (Bool.not_eq_true _ ▸ hother)).symm

/-- **Isolation.** Two runs that agree on the entries about our threads, and on how time passes,
show them the same, whatever the others do, as long as they put nothing in the way. -/
theorem Separates.isolated (hS : S.Separates view N M C R)
    (hobs : ∀ o r r', R o r r' → O ⟨o, r⟩ = O ⟨o, r'⟩) (s : σ) {ls ls' : List (Label ε ι χ)}
    (hls : ∀ l ∈ ls, Starts S mine N M R l) (hls' : ∀ l ∈ ls', Starts S mine N M R l)
    (hpart : part mine ls = part mine ls') (hc : Unhindered mine C (S.run ls s).trace)
    (hd : Unhindered mine C (S.run ls' s).trace) {i : ℕ} (hi : mine i) :
    (own i (S.run ls s).trace).map O = (own i (S.run ls' s).trace).map O :=
  (hS.run hobs s hls hls' hpart hc hd).history i hi

end System

end Interaction
