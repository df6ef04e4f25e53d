import NativeKiln.Interaction.Program
import Mathlib.Data.List.Chain
import Mathlib.Data.List.Infix
import Mathlib.Logic.Function.Basic
import Mathlib.Logic.Relation

/-!
# Programs that share a store

A `System` runs any number of threads, each the body of a call, against one store. In every step
one thread performs the operation it is waiting for, or finishes, or is stopped; or an operation
that was detached earlier is performed; or time passes. An operation that is performed may be
answered, or refused without having happened, or happen with its answer lost.

What happens is recorded in a trace, each event with the store before and after it, so that safety
properties are statements about reachable traces. Two rules carry them. A discipline that every body
`Obeys` on its own holds of every event, with the thread's own history cut out of the trace
(`Reachable.orderly`); and an invariant of store and trace follows from what one event does
(`Reachable.invariant`).
-/

namespace Interaction

variable {Op : Type} {Val : Op → Type} {ε ι ρ χ σ : Type}

/-! ## Systems -/

/-- What becomes of an operation: it is answered, or refused, or it happens and the answer is
lost. -/
inductive Reply (ε V : Type)
  | answered (r : Except ε V)
  | rejected (e : ε)
  | lost (r : Except ε V) (e : ε)

/-- What the thread is told. -/
def Reply.seen {V : Type} : Reply ε V → Except ε V
  | answered r => r
  | rejected e => .error e
  | lost _ e => .error e

theorem Reply.eq_answered {V : Type} {r : Reply ε V} {v : V} (h : r.seen = .ok v) :
    r = .answered (.ok v) := by
  cases r with
  | answered r => exact congrArg _ h
  | rejected e => simp [Reply.seen] at h
  | lost r e => simp [Reply.seen] at h

/-- What the store did, if it was asked. -/
def Reply.effect {V : Type} : Reply ε V → Option (Except ε V)
  | answered r => some r
  | rejected _ => none
  | lost r _ => some r

variable (Op Val ε ι ρ χ σ) in
/-- Threads that run the bodies of calls against a store. -/
structure System where
  /-- The code of a call. -/
  body : ι → Program Op Val ε ρ
  /-- What an operation does to the store, for some choice that the outside makes. -/
  exec : χ → σ → (o : Op) → Option (σ × Except ε (Val o))
  /-- The exceptions an operation may be refused with. -/
  mayReject : Op → ε → Bool
  /-- The passing of time. -/
  tick : ℕ → σ → σ

/-- A call with the code that is left of it; a thread that is over has none. -/
structure Thread (Op : Type) (Val : Op → Type) (ε ι ρ : Type) where
  call : ι
  code : Option (Program Op Val ε ρ)

/-- What a thread did. -/
inductive Action (Op : Type) (Val : Op → Type) (ε ρ : Type)
  | start
  | perform (o : Op) (r : Reply ε (Val o))
  | detach (o : Op)
  | background (o : Op) (r : Reply ε (Val o))
  | finish (r : Except ε ρ)
  | stop

/-- What a thread did, with the store before and after it. -/
structure Event (Op : Type) (Val : Op → Type) (ε ι ρ σ : Type) where
  thread : ℕ
  call : ι
  before : σ
  action : Action Op Val ε ρ
  after : σ

/-- An operation that nobody waits for. -/
structure Pending (Op ι : Type) where
  thread : ℕ
  call : ι
  op : Op

variable (Op Val ε ι ρ σ) in
/-- The store, the threads by number, the detached operations, and what has happened. -/
structure Config where
  store : σ
  threads : ℕ → Option (Thread Op Val ε ι ρ)
  pending : List (Pending Op ι)
  trace : List (Event Op Val ε ι ρ σ)

namespace Config

/-- Nothing has happened. -/
def initial (s : σ) : Config Op Val ε ι ρ σ := ⟨s, fun _ ↦ none, [], []⟩

/-- Record what thread `i` did, and what is left of it. -/
def emit (c : Config Op Val ε ι ρ σ) (i : ℕ) (x : ι) (a : Action Op Val ε ρ) (s : σ)
    (code : Option (Program Op Val ε ρ)) : Config Op Val ε ι ρ σ :=
  { c with
    store := s
    threads := Function.update c.threads i (some ⟨x, code⟩)
    trace := c.trace ++ [⟨i, x, c.store, a, s⟩] }

variable {c : Config Op Val ε ι ρ σ} {i : ℕ} {x : ι} {a : Action Op Val ε ρ} {s : σ}
  {code : Option (Program Op Val ε ρ)}

@[simp] theorem emit_store : (c.emit i x a s code).store = s := rfl

@[simp] theorem emit_pending : (c.emit i x a s code).pending = c.pending := rfl

@[simp] theorem emit_trace :
    (c.emit i x a s code).trace = c.trace ++ [⟨i, x, c.store, a, s⟩] := rfl

theorem emit_threads {j : ℕ} :
    (c.emit i x a s code).threads j = if j = i then some ⟨x, code⟩ else c.threads j :=
  Function.update_apply ..

end Config

/-- What a program has ended in. -/
def Program.result? : Program Op Val ε ρ → Option (Except ε ρ)
  | .pure a => some (.ok a)
  | .throw e => some (.error e)
  | _ => none

namespace System

variable (S : System Op Val ε ι ρ χ σ)

/-- The store may deal with an operation like this. -/
def Answers (s : σ) (o : Op) (r : Reply ε (Val o)) (s' : σ) : Prop :=
  match r with
  | .answered r => ∃ x, S.exec x s o = some (s', r)
  | .rejected e => S.mayReject o e ∧ s' = s
  | .lost r e => S.mayReject o e ∧ ∃ x, S.exec x s o = some (s', r)

/-- One step of the system. -/
inductive Step : Config Op Val ε ι ρ σ → Config Op Val ε ι ρ σ → Prop
  /-- Time passes. -/
  | tick (c) (d : ℕ) : Step c { c with store := S.tick d c.store }
  /-- A call comes in. -/
  | start (c) (i : ℕ) (x : ι) (hi : c.threads i = none) :
    Step c (c.emit i x .start c.store (some (S.body x)))
  /-- A thread performs the operation it has come to. -/
  | perform (c) (i : ℕ) (x : ι) (o : Op) (k) (r : Reply ε (Val o)) (s : σ)
    (hi : c.threads i = some ⟨x, some (.perform o k)⟩) (hr : S.Answers c.store o r s) :
    Step c (c.emit i x (.perform o r) s (some (k r.seen)))
  /-- A thread leaves an operation to be performed. -/
  | detach (c) (i : ℕ) (x : ι) (o : Op) (k) (hi : c.threads i = some ⟨x, some (.detach o k)⟩) :
    Step c { c.emit i x (.detach o) c.store (some k) with pending := c.pending ++ [⟨i, x, o⟩] }
  /-- A detached operation is performed. -/
  | background (c) (j : ℕ) (q : Pending Op ι) (r : Reply ε (Val q.op)) (s : σ)
    (hj : c.pending[j]? = some q) (hr : S.Answers c.store q.op r s) :
    Step c ⟨s, c.threads, c.pending.eraseIdx j,
      c.trace ++ [⟨q.thread, q.call, c.store, .background q.op r, s⟩]⟩
  /-- A thread comes to its end. -/
  | finish (c) (i : ℕ) (x : ι) (p) (r : Except ε ρ) (hi : c.threads i = some ⟨x, some p⟩)
    (hr : p.result? = some r) : Step c (c.emit i x (.finish r) c.store none)
  /-- A thread is stopped. -/
  | stop (c) (i : ℕ) (x : ι) (p) (hi : c.threads i = some ⟨x, some p⟩) :
    Step c (c.emit i x .stop c.store none)

/-- What can come about from store `s`. -/
def Reachable (s : σ) (c : Config Op Val ε ι ρ σ) : Prop :=
  Relation.ReflTransGen S.Step (.initial s) c

/-- What an event does to the store. -/
def Effect (e : Event Op Val ε ι ρ σ) : Prop :=
  match e.action with
  | .perform o r => S.Answers e.before o r e.after
  | .background o r => S.Answers e.before o r e.after
  | _ => e.after = e.before

/-- Only time passes between two stores. -/
def Passes (s s' : σ) : Prop := Relation.ReflTransGen (fun s s' ↦ ∃ d, s' = S.tick d s) s s'

end System

/-- The operation the store carried out in an event, with its answer. -/
def Event.done (e : Event Op Val ε ι ρ σ) : Option (Answer Op Val ε) :=
  match e.action with
  | .perform o r => r.effect.map fun a ↦ ⟨o, a⟩
  | .background o r => r.effect.map fun a ↦ ⟨o, a⟩
  | _ => none

theorem Event.done_of_answered {e : Event Op Val ε ι ρ σ} {o : Op} {a : Except ε (Val o)}
    (h : e.action = .perform o (.answered a)) : e.done = some ⟨o, a⟩ := by
  rw [done, h]
  rfl

/-- The result a thread returned in an event. -/
def Event.returned (e : Event Op Val ε ι ρ σ) : Option ρ :=
  match e.action with
  | .finish (.ok a) => some a
  | _ => none

theorem Event.action_of_returned {e : Event Op Val ε ι ρ σ} {a : ρ} (h : e.returned = some a) :
    e.action = .finish (.ok a) := by
  rw [Event.returned] at h
  split at h
  · next heq => rw [heq, Option.some_inj.mp h]
  · simp at h

namespace System

variable {S : System Op Val ε ι ρ χ σ} {e : Event Op Val ε ι ρ σ}

theorem Answers.of_effect {s s' : σ} {o : Op} {r : Reply ε (Val o)} (h : S.Answers s o r s') :
    match r.effect with
    | some a => ∃ y, S.exec y s o = some (s', a)
    | none => s' = s := by
  cases r with
  | answered a => exact h
  | rejected x => exact h.2
  | lost a x => exact h.2

theorem Effect.exec (h : S.Effect e) {o : Op} {a : Except ε (Val o)} (hd : e.done = some ⟨o, a⟩) :
    ∃ y, S.exec y e.before o = some (e.after, a) := by
  have key : ∀ {o' : Op} {r : Reply ε (Val o')}, S.Answers e.before o' r e.after →
      (r.effect.map fun a ↦ (⟨o', a⟩ : Answer Op Val ε)) = some ⟨o, a⟩ →
        ∃ y, S.exec y e.before o = some (e.after, a) := by
    intro o' r hr hmap
    obtain ⟨a', ha', hpair⟩ := Option.map_eq_some_iff.mp hmap
    obtain ⟨rfl, rfl⟩ := Sigma.mk.inj hpair
    have hexec := hr.of_effect
    rwa [ha'] at hexec
  rw [Event.done] at hd
  rw [Effect] at h
  split at hd
  · next o' r heq =>
    rw [heq] at h
    exact key h hd
  · next o' r heq =>
    rw [heq] at h
    exact key h hd
  · simp at hd

theorem Effect.unchanged (h : S.Effect e) (hd : e.done = none) : e.after = e.before := by
  rw [Event.done] at hd
  rw [Effect] at h
  split at hd
  · next o r heq =>
    rw [heq] at h
    have hexec := h.of_effect
    rwa [Option.map_eq_none_iff.mp hd] at hexec
  · next o r heq =>
    rw [heq] at h
    have hexec := h.of_effect
    rwa [Option.map_eq_none_iff.mp hd] at hexec
  · next h₁ h₂ =>
    split at h
    · next o r heq => exact absurd heq (h₁ o r)
    · next o r heq => exact absurd heq (h₂ o r)
    · exact h

end System

/-! ## Histories -/

/-- The operations thread `i` has performed itself, with the replies it was given. -/
def own (i : ℕ) (tr : List (Event Op Val ε ι ρ σ)) : List (Answer Op Val ε) :=
  tr.filterMap fun e ↦
    if e.thread = i then
      match e.action with
      | .perform o r => some ⟨o, r.seen⟩
      | _ => none
    else none

theorem own_append (i : ℕ) (tr tr' : List (Event Op Val ε ι ρ σ)) :
    own i (tr ++ tr') = own i tr ++ own i tr' := List.filterMap_append

theorem own_concat_of_ne {i : ℕ} {e : Event Op Val ε ι ρ σ} (h : e.thread ≠ i)
    (tr : List (Event Op Val ε ι ρ σ)) : own i (tr ++ [e]) = own i tr := by
  simp [own, h]

theorem own_concat_perform {e : Event Op Val ε ι ρ σ} {o : Op} {r : Reply ε (Val o)}
    (h : e.action = .perform o r) (tr : List (Event Op Val ε ι ρ σ)) :
    own e.thread (tr ++ [e]) = own e.thread tr ++ [⟨o, r.seen⟩] := by
  simp [own, h]

theorem own_concat_of_not_perform {e : Event Op Val ε ι ρ σ}
    (h : ∀ o r, e.action ≠ .perform o r) (i : ℕ) (tr : List (Event Op Val ε ι ρ σ)) :
    own i (tr ++ [e]) = own i tr := by
  rw [own_append]
  match ha : e.action with
  | .perform o r => exact absurd ha (h o r)
  | .start | .detach _ | .background _ _ | .finish _ | .stop => simp [own, ha]

theorem own_eq_nil {i : ℕ} {tr : List (Event Op Val ε ι ρ σ)} (h : ∀ e ∈ tr, e.thread ≠ i) :
    own i tr = [] := List.filterMap_eq_nil_iff.mpr fun e he ↦ if_neg (h e he)

theorem mem_own {i : ℕ} {tr : List (Event Op Val ε ι ρ σ)} {o : Op} {r : Except ε (Val o)} :
    ⟨o, r⟩ ∈ own i tr ↔
      ∃ e ∈ tr, e.thread = i ∧ ∃ r' : Reply ε (Val o), e.action = .perform o r' ∧ r'.seen = r := by
  rw [own, List.mem_filterMap]
  refine exists_congr fun e ↦ and_congr_right fun _ ↦ ?_
  by_cases hi : e.thread = i
  · rw [if_pos hi]
    match ha : e.action with
    | .perform o' r' =>
      simp only [Option.some_inj, Sigma.mk.injEq, hi, Action.perform.injEq, true_and]
      constructor
      · rintro ⟨rfl, h⟩
        exact ⟨r', ⟨rfl, HEq.rfl⟩, eq_of_heq h⟩
      · rintro ⟨r'', ⟨rfl, h⟩, rfl⟩
        exact ⟨rfl, by rw [eq_of_heq h]⟩
    | .start | .detach _ | .background _ _ | .finish _ | .stop => simp
  · simp [hi]

theorem mem_own_ok {i : ℕ} {tr : List (Event Op Val ε ι ρ σ)} {o : Op} {v : Val o} :
    ⟨o, .ok v⟩ ∈ own i tr ↔
      ∃ e ∈ tr, e.thread = i ∧ e.action = .perform o (.answered (.ok v)) := by
  rw [mem_own]
  refine exists_congr fun e ↦ and_congr_right fun _ ↦ and_congr_right fun _ ↦ ?_
  constructor
  · rintro ⟨r, hr, hseen⟩
    rw [hr, Reply.eq_answered hseen]
  · exact fun h ↦ ⟨_, h, rfl⟩

theorem own_prefix {tr tr' : List (Event Op Val ε ι ρ σ)} (h : tr <+: tr') (i : ℕ) :
    own i tr <+: own i tr' := h.filterMap _

theorem own_subset {tr pre post : List (Event Op Val ε ι ρ σ)} {e : Event Op Val ε ι ρ σ}
    (h : tr = pre ++ e :: post) (i : ℕ) : own i pre ⊆ own i tr := by
  have hbefore := own_prefix ⟨_, h.symm⟩ i
  exact hbefore.subset

theorem split_of_own {i : ℕ} {tr : List (Event Op Val ε ι ρ σ)} {l l' : List (Answer Op Val ε)}
    (h : l ++ l' <+: own i tr) : ∃ p q, tr = p ++ q ∧ own i p = l ∧ l' <+: own i q := by
  obtain ⟨l'', hl⟩ := h
  rw [List.append_assoc] at hl
  obtain ⟨p, q, htr, hp, hq⟩ := List.filterMap_eq_append_iff.mp hl.symm
  exact ⟨p, q, htr, hp, l'', hq.symm⟩

/-- What a thread has put out, where `f` says what an operation puts out, is nothing, or the last of
it came with some event. -/
theorem filterMap_own {β : Type} (f : Answer Op Val ε → Option β) (i : ℕ)
    (tr : List (Event Op Val ε ι ρ σ)) : (own i tr).filterMap f = [] ∨
      ∃ pre e post o r b, tr = pre ++ e :: post ∧ e.thread = i ∧
        e.action = .perform o r ∧ f ⟨o, r.seen⟩ = some b ∧
          (own i tr).filterMap f = (own i pre).filterMap f ++ [b] := by
  induction tr using List.reverseRecOn with
  | nil => exact Or.inl rfl
  | append_singleton tr e ih =>
    by_cases hlast : own i (tr ++ [e]) = own i tr
    · -- the event is another thread's, or no operation
      rw [hlast]
      refine ih.imp_right ?_
      rintro ⟨pre, e', post, o, r, b, rfl, h⟩
      exact ⟨pre, e', post ++ [e], o, r, b, by simp, h⟩
    · obtain rfl : e.thread = i := by_contra fun hne ↦ hlast (own_concat_of_ne hne tr)
      obtain ⟨o, r, ha⟩ : ∃ o r, e.action = .perform o r := by
        by_contra hnone
        exact hlast (own_concat_of_not_perform (fun o r ha ↦ hnone ⟨o, r, ha⟩) _ tr)
      rw [own_concat_perform ha, List.filterMap_append]
      rcases hf : f ⟨o, r.seen⟩ with _ | b
      · rw [List.filterMap_cons_none hf, List.filterMap_nil, List.append_nil]
        refine ih.imp_right ?_
        rintro ⟨pre, e', post, o, r, b, rfl, h⟩
        exact ⟨pre, e', post ++ [e], o, r, b, by simp, h⟩
      · refine Or.inr ⟨tr, e, [], o, r, b, rfl, rfl, ha, hf, ?_⟩
        rw [List.filterMap_cons_some hf, List.filterMap_nil]

theorem mem_or_prefix {tr pre pre' post post' : List (Event Op Val ε ι ρ σ)}
    {e e' : Event Op Val ε ι ρ σ} (h : tr = pre ++ e :: post) (h' : tr = pre' ++ e' :: post') :
    e' ∈ pre ∨ pre <+: pre' := by
  rcases le_or_gt pre.length pre'.length with hle | hlt
  · have htr : pre <+: tr := h ▸ List.prefix_append _ _
    have htr' : pre' <+: tr := h' ▸ List.prefix_append _ _
    exact Or.inr (List.prefix_of_prefix_length_le htr htr' hle)
  · have hpre : pre' ++ [e'] <+: pre := by
      have htr : pre' ++ [e'] <+: tr := ⟨post', by simp [h']⟩
      exact List.prefix_of_prefix_length_le htr (h ▸ List.prefix_append pre (e :: post)) (by simpa)
    exact Or.inl (hpre.subset (by simp))

theorem mem_or_mem_or_eq {tr pre pre' post post' : List (Event Op Val ε ι ρ σ)}
    {e e' : Event Op Val ε ι ρ σ} (h : tr = pre ++ e :: post) (h' : tr = pre' ++ e' :: post') :
    e' ∈ pre ∨ e ∈ pre' ∨ e = e' := by
  rcases mem_or_prefix h h' with hmem | ⟨mid, rfl⟩
  · exact Or.inl hmem
  rw [h', List.append_assoc] at h
  cases mid with
  | nil => exact Or.inr (Or.inr (List.cons.inj (List.append_cancel_left h)).1.symm)
  | cons e'' mid =>
    obtain rfl := (List.cons.inj (List.append_cancel_left h)).1
    exact Or.inr (Or.inl (by simp))

/-- Each event of a trace has the property, given the events before it. -/
def Throughout (P : List (Event Op Val ε ι ρ σ) → Event Op Val ε ι ρ σ → Prop)
    (tr : List (Event Op Val ε ι ρ σ)) : Prop :=
  ∀ pre e post, tr = pre ++ e :: post → P pre e

section Throughout

variable {P P' : List (Event Op Val ε ι ρ σ) → Event Op Val ε ι ρ σ → Prop}
  {tr tr' : List (Event Op Val ε ι ρ σ)} {e : Event Op Val ε ι ρ σ}

@[simp] theorem throughout_nil : Throughout P [] := by
  intro pre e post h
  simp at h

@[simp] theorem throughout_concat :
    Throughout P (tr ++ [e]) ↔ Throughout P tr ∧ P tr e := by
  constructor
  · refine fun h ↦ ⟨fun pre e' post heq ↦ h pre e' (post ++ [e]) (by simp [heq]), h tr e [] rfl⟩
  · rintro ⟨h, he⟩ pre e' post heq
    rcases List.eq_nil_or_concat' post with rfl | ⟨post', e'', rfl⟩
    · obtain ⟨rfl, h'⟩ := List.append_inj' heq rfl
      rw [List.cons.injEq] at h'
      exact h'.1 ▸ he
    · rw [← List.cons_append, ← List.append_assoc] at heq
      exact h pre e' post' (List.append_inj' heq rfl).1

theorem Throughout.imp (h : Throughout P tr) (hP : ∀ pre e, P pre e → P' pre e) :
    Throughout P' tr := fun pre e post heq ↦ hP pre e (h pre e post heq)

theorem Throughout.and (h : Throughout P tr) (h' : Throughout P' tr) :
    Throughout (fun pre e ↦ P pre e ∧ P' pre e) tr :=
  fun pre e post heq ↦ ⟨h pre e post heq, h' pre e post heq⟩

/-- A property of events can be checked along a trace. -/
instance [∀ pre e, Decidable (P pre e)] : Decidable (Throughout P tr) :=
  decidable_of_iff (∀ i : Fin tr.length, P (tr.take i) (tr.get i)) <| by
    constructor
    · rintro h pre e post rfl
      have hi := h ⟨pre.length, by simp⟩
      simpa using hi
    · intro h i
      refine h _ _ (tr.drop (i + 1)) ?_
      rw [List.get_eq_getElem, ← List.drop_eq_getElem_cons, List.take_append_drop]

theorem Throughout.of_append (h : Throughout P (tr ++ tr')) : Throughout P tr :=
  fun pre e post heq ↦ h pre e (post ++ tr') (by simp [heq])

end Throughout

namespace System

variable {S : System Op Val ε ι ρ χ σ} {s₀ : σ} {c c' : Config Op Val ε ι ρ σ}

/-! ## Invariants of store and trace -/

/-- A step lets time pass, or it adds one event, which leads from the old store to the new one. -/
theorem Step.event (h : S.Step c c') :
    (c'.trace = c.trace ∧ ∃ d, c'.store = S.tick d c.store) ∨
      ∃ e, c'.trace = c.trace ++ [e] ∧ e.before = c.store ∧ e.after = c'.store ∧ S.Effect e := by
  cases h with
  | tick d => exact Or.inl ⟨rfl, d, rfl⟩
  | perform i x o k r s hi hr => exact Or.inr ⟨_, rfl, rfl, rfl, hr⟩
  | background j q r s hj hr => exact Or.inr ⟨_, rfl, rfl, rfl, hr⟩
  | start i x hi => exact Or.inr ⟨_, rfl, rfl, rfl, rfl⟩
  | detach i x o k hi => exact Or.inr ⟨_, rfl, rfl, rfl, rfl⟩
  | finish i x p r hi hr => exact Or.inr ⟨_, rfl, rfl, rfl, rfl⟩
  | stop i x p hi => exact Or.inr ⟨_, rfl, rfl, rfl, rfl⟩

theorem Step.thread_of_perform (h : S.Step c c') {e : Event Op Val ε ι ρ σ}
    (htr : c'.trace = c.trace ++ [e]) {o : Op} {r : Reply ε (Val o)}
    (ha : e.action = .perform o r) :
    ∃ k, c.threads e.thread = some ⟨e.call, some (.perform o k)⟩ := by
  cases h with
  | tick d => simp at htr
  | perform i x o' k r' s hi hr =>
    obtain rfl := List.singleton_inj.mp (List.append_cancel_left htr)
    obtain ⟨rfl, -⟩ := Action.perform.inj ha
    exact ⟨k, hi⟩
  | start i x hi =>
    obtain rfl := List.singleton_inj.mp (List.append_cancel_left htr)
    simp at ha
  | detach i x o' k hi =>
    obtain rfl := List.singleton_inj.mp (List.append_cancel_left htr)
    simp at ha
  | background j q r' s hj hr =>
    obtain rfl := List.singleton_inj.mp (List.append_cancel_left htr)
    simp at ha
  | finish i x p r' hi hr =>
    obtain rfl := List.singleton_inj.mp (List.append_cancel_left htr)
    simp at ha
  | stop i x p hi =>
    obtain rfl := List.singleton_inj.mp (List.append_cancel_left htr)
    simp at ha

theorem Step.over (h : S.Step c c') {i : ℕ} {x : ι} (hi : c.threads i = some ⟨x, none⟩) :
    c'.threads i = some ⟨x, none⟩ := by
  have hemit : ∀ {j : ℕ} {y : ι} {code : Option (Program Op Val ε ρ)}, j ≠ i →
      Function.update c.threads j (some ⟨y, code⟩) i = some ⟨x, none⟩ :=
    fun hj ↦ (Function.update_of_ne hj.symm ..).trans hi
  cases h with
  | tick d => exact hi
  | background j q r s hj hr => exact hi
  | start j y hj => exact hemit (by rintro rfl; simp [hi] at hj)
  | perform j y o k r s hj hr => exact hemit (by rintro rfl; simp [hi] at hj)
  | detach j y o k hj => exact hemit (by rintro rfl; simp [hi] at hj)
  | finish j y p r hj hr => exact hemit (by rintro rfl; simp [hi] at hj)
  | stop j y p hj => exact hemit (by rintro rfl; simp [hi] at hj)

theorem over_of_steps (h : Relation.ReflTransGen S.Step c c') {i : ℕ} {x : ι}
    (hi : c.threads i = some ⟨x, none⟩) : c'.threads i = some ⟨x, none⟩ := by
  induction h with
  | refl => exact hi
  | tail _ hstep ih => exact hstep.over ih

/-- **The invariant rule.** What holds at the start and is kept by the passing of time and by every
event that satisfies `D` holds of every reachable store whose trace satisfies `D`. -/
theorem Reachable.invariant {D : List (Event Op Val ε ι ρ σ) → Event Op Val ε ι ρ σ → Prop}
    {I : σ → List (Event Op Val ε ι ρ σ) → Prop} (h : S.Reachable s₀ c) (hD : Throughout D c.trace)
    (init : I s₀ []) (tick : ∀ s tr d, I s tr → I (S.tick d s) tr)
    (event : ∀ tr e, I e.before tr → S.Effect e → D tr e → I e.after (tr ++ [e])) :
    I c.store c.trace := by
  induction h with
  | refl => exact init
  | tail _ hstep ih =>
    rcases hstep.event with ⟨htr, d, hs⟩ | ⟨e, htr, hbefore, hafter, heff⟩
    · rw [htr] at hD
      rw [htr, hs]
      exact tick _ _ d (ih hD)
    · rw [htr, throughout_concat] at hD
      rw [htr, ← hafter]
      exact event _ e (hbefore ▸ ih hD.1) heff hD.2

/-- What every event does to the store, the events before it included. -/
theorem Reachable.effects (h : S.Reachable s₀ c) : Throughout (fun _ e ↦ S.Effect e) c.trace := by
  induction h with
  | refl => exact throughout_nil
  | tail _ hstep ih =>
    rcases hstep.event with ⟨htr, -⟩ | ⟨e, htr, -, -, heff⟩
    · rwa [htr]
    · rw [htr]
      exact throughout_concat.mpr ⟨ih, heff⟩

theorem Reachable.effect (h : S.Reachable s₀ c) {e : Event Op Val ε ι ρ σ} (he : e ∈ c.trace) :
    S.Effect e := by
  obtain ⟨pre, post, htr⟩ := List.append_of_mem he
  exact h.effects pre e post htr

theorem Reachable.exec_of_mem_own (h : S.Reachable s₀ c) {i : ℕ} {o : Op} {v : Val o}
    (hmem : ⟨o, .ok v⟩ ∈ own i c.trace) :
    ∃ e ∈ c.trace, e.thread = i ∧ ∃ y, S.exec y e.before o = some (e.after, .ok v) := by
  obtain ⟨e, he, hthread, haction⟩ := mem_own_ok.mp hmem
  exact ⟨e, he, hthread, (h.effect he).exec (Event.done_of_answered haction)⟩

/-- An invariant of store and trace holds before every event of a trace. -/
theorem Reachable.throughout {D : List (Event Op Val ε ι ρ σ) → Event Op Val ε ι ρ σ → Prop}
    {I : σ → List (Event Op Val ε ι ρ σ) → Prop} (h : S.Reachable s₀ c) (hD : Throughout D c.trace)
    (init : I s₀ []) (tick : ∀ s tr d, I s tr → I (S.tick d s) tr)
    (event : ∀ tr e, I e.before tr → S.Effect e → D tr e → I e.after (tr ++ [e])) :
    Throughout (fun pre e ↦ I e.before pre) c.trace := by
  induction h with
  | refl => exact throughout_nil
  | tail hr hstep ih =>
    rcases hstep.event with ⟨htr, -⟩ | ⟨e, htr, hbefore, -, -⟩
    · rw [htr] at hD ⊢
      exact ih hD
    · rw [htr, throughout_concat] at hD
      rw [htr]
      refine throughout_concat.mpr ⟨ih hD.1, ?_⟩
      rw [hbefore]
      exact Reachable.invariant hr hD.1 init tick event

/-- The store only ever moves along a preorder that the passing of time and every event respect. -/
theorem Reachable.evolves {R : σ → σ → Prop} (refl : ∀ s, R s s)
    (trans : ∀ s t u, R s t → R t u → R s u) (h : S.Reachable s₀ c)
    (tick : ∀ s d, R s (S.tick d s)) (event : ∀ e, S.Effect e → R e.before e.after) :
    (∀ e ∈ c.trace, R e.after c.store) ∧
      Throughout (fun pre e ↦ ∀ e' ∈ pre, R e'.after e.before) c.trace := by
  have htrue : Throughout (fun _ _ ↦ True) c.trace := fun _ _ _ _ ↦ trivial
  have htick : ∀ (s : σ) (tr : List (Event Op Val ε ι ρ σ)) (d : ℕ),
      (∀ e ∈ tr, R e.after s) → ∀ e ∈ tr, R e.after (S.tick d s) :=
    fun s _ d h e he ↦ trans _ _ _ (h e he) (tick s d)
  have hevent : ∀ (tr : List (Event Op Val ε ι ρ σ)) (e : Event Op Val ε ι ρ σ),
      (∀ e' ∈ tr, R e'.after e.before) → S.Effect e → True →
        ∀ e' ∈ tr ++ [e], R e'.after e.after := by
    intro tr e h heff _ e' he'
    rcases List.mem_append.mp he' with he' | he'
    · exact trans _ _ _ (h e' he') (event e heff)
    · rw [List.mem_singleton.mp he']
      exact refl _
  exact ⟨h.invariant (I := fun s tr ↦ ∀ e ∈ tr, R e.after s) htrue (by simp) htick hevent,
    h.throughout (I := fun s tr ↦ ∀ e ∈ tr, R e.after s) htrue (by simp) htick hevent⟩

/-- Between an event and the next one only time passes. -/
theorem Reachable.chain (h : S.Reachable s₀ c) :
    List.IsChain (fun e e' ↦ S.Passes e.after e'.before) c.trace ∧
      ∀ e, c.trace.getLast? = some e → S.Passes e.after c.store := by
  induction h with
  | refl => exact ⟨.nil, by simp [Config.initial]⟩
  | tail _ hstep ih =>
    rcases hstep.event with ⟨htr, d, hs⟩ | ⟨e, htr, hbefore, hafter, -⟩
    · rw [htr, hs]
      exact ⟨ih.1, fun e he ↦ (ih.2 e he).tail ⟨d, rfl⟩⟩
    · rw [htr]
      refine ⟨List.isChain_append.mpr ⟨ih.1, .singleton _, ?_⟩, ?_⟩
      · intro e₁ he₁ e₂ he₂
        obtain rfl : e = e₂ := by simpa using he₂
        rw [hbefore]
        exact ih.2 e₁ he₁
      · intro e₁ he₁
        rw [List.getLast?_concat, Option.some_inj] at he₁
        rw [← he₁, hafter]
        exact .refl

/-! ## Disciplines -/

variable {G D : ι → List (Answer Op Val ε) → Op → Prop}
  {Q : ι → List (Answer Op Val ε) → Except ε ρ → Prop}

/-- What an event of a system says whose bodies obey `G`, `D` and `Q`. -/
def Disciplined (G D : ι → List (Answer Op Val ε) → Op → Prop)
    (Q : ι → List (Answer Op Val ε) → Except ε ρ → Prop) (pre : List (Event Op Val ε ι ρ σ))
    (e : Event Op Val ε ι ρ σ) : Prop :=
  match e.action with
  | .start => ∀ e' ∈ pre, e'.thread ≠ e.thread
  | .perform o _ => G e.call (own e.thread pre) o
  | .detach o => D e.call (own e.thread pre) o
  | .background o _ => ∃ e' ∈ pre, e'.thread = e.thread ∧ e'.call = e.call ∧ e'.action = .detach o
  | .finish r => Q e.call (own e.thread pre) r
  | .stop => True

/-- The part of a configuration that only the programs are responsible for. -/
structure Orderly (G D : ι → List (Answer Op Val ε) → Op → Prop)
    (Q : ι → List (Answer Op Val ε) → Except ε ρ → Prop) (c : Config Op Val ε ι ρ σ) : Prop where
  /-- What is left of a thread obeys the discipline, given the thread's history. -/
  code : ∀ i x p, c.threads i = some ⟨x, some p⟩ → (p.Obeys (G x) (D x) (Q x) (own i c.trace))
  /-- The events belong to the threads. -/
  thread : ∀ e ∈ c.trace, ∃ code, c.threads e.thread = some ⟨e.call, code⟩
  /-- Every thread has a first event. -/
  started : ∀ i t, c.threads i = some t →
    ∃ e ∈ c.trace, e.thread = i ∧ e.call = t.call ∧ e.action = .start
  /-- What is pending was detached. -/
  pending : ∀ q ∈ c.pending,
    ∃ e ∈ c.trace, e.thread = q.thread ∧ e.call = q.call ∧ e.action = .detach q.op
  /-- The events keep the discipline. -/
  trace : Throughout (Disciplined G D Q) c.trace

theorem Orderly.thread_ne (h : Orderly G D Q c) {i : ℕ} (hi : c.threads i = none) :
    ∀ e ∈ c.trace, e.thread ≠ i := by
  intro e he hei
  obtain ⟨code, hcode⟩ := h.thread e he
  simp [hei, hi] at hcode

theorem Orderly.ends (h : Orderly G D Q c) {i : ℕ} {x : ι} {p : Program Op Val ε ρ}
    {r : Except ε ρ} (hi : c.threads i = some ⟨x, some p⟩) (hr : p.result? = some r) :
    Q x (own i c.trace) r := by
  have hp := h.code i x p hi
  cases p with
  | pure a => exact Option.some_inj.mp hr ▸ hp
  | throw e => exact Option.some_inj.mp hr ▸ hp
  | perform o k => simp [Program.result?] at hr
  | detach o k => simp [Program.result?] at hr

theorem Orderly.detached (h : Orderly G D Q c) {q : Pending Op ι} (hq : q ∈ c.pending) :
    ∃ past, past <+: own q.thread c.trace ∧ D q.call past q.op := by
  obtain ⟨e, he, hthread, hcall, hdet⟩ := h.pending q hq
  obtain ⟨pre, post, htr⟩ := List.append_of_mem he
  have hdisc := h.trace pre e post htr
  rw [Disciplined, hdet, hthread, hcall] at hdisc
  exact ⟨_, own_prefix ⟨_, htr.symm⟩ _, hdisc⟩

/-- A thread whose event keeps the discipline, and the rest of whose code obeys it, leaves the
configuration in order. -/
theorem Orderly.emit (h : Orderly G D Q c) {i : ℕ} {x : ι} {a : Action Op Val ε ρ} {s : σ}
    {code : Option (Program Op Val ε ρ)}
    (hi : (c.threads i = none ∧ a = .start) ∨ ∃ p, c.threads i = some ⟨x, some p⟩)
    (ha : Disciplined G D Q c.trace ⟨i, x, c.store, a, s⟩)
    (hcode : ∀ p, code = some p →
      p.Obeys (G x) (D x) (Q x) (own i (c.trace ++ [⟨i, x, c.store, a, s⟩]))) :
    Orderly G D Q (c.emit i x a s code) where
  code := by
    intro j y p hj
    rw [Config.emit_threads] at hj
    rw [Config.emit_trace]
    split at hj
    · next hji =>
      subst hji
      rw [Option.some_inj, Thread.mk.injEq] at hj
      obtain ⟨rfl, rfl⟩ := hj
      exact hcode p rfl
    · next hji =>
      rw [own_concat_of_ne (Ne.symm hji)]
      exact h.code j y p hj
  thread := by
    intro e he
    rw [Config.emit_trace, List.mem_append, List.mem_singleton] at he
    rw [Config.emit_threads]
    rcases he with he | rfl
    · obtain ⟨code', hcode'⟩ := h.thread e he
      split
      · next hei =>
        -- the thread has an event already, so it is not a new one and its call is `x`
        rw [hei] at hcode'
        rcases hi with ⟨hnone, -⟩ | ⟨p, hp⟩
        · simp [hnone] at hcode'
        · rw [hp, Option.some_inj, Thread.mk.injEq] at hcode'
          exact ⟨code, by rw [hcode'.1]⟩
      · exact ⟨code', hcode'⟩
    · exact ⟨code, if_pos rfl⟩
  started := by
    intro j t hj
    rw [Config.emit_threads] at hj
    rw [Config.emit_trace]
    split at hj
    · next hji =>
      subst hji
      obtain rfl := Option.some_inj.mp hj
      rcases hi with ⟨-, rfl⟩ | ⟨p, hp⟩
      · exact ⟨_, List.mem_append_right _ List.mem_cons_self, rfl, rfl, rfl⟩
      · obtain ⟨e, he, hrest⟩ := h.started j _ hp
        exact ⟨e, List.mem_append_left _ he, hrest⟩
    · obtain ⟨e, he, hrest⟩ := h.started j t hj
      exact ⟨e, List.mem_append_left _ he, hrest⟩
  pending := by
    intro q hq
    obtain ⟨e, he, hrest⟩ := h.pending q hq
    exact ⟨e, List.mem_append_left _ he, hrest⟩
  trace := throughout_concat.mpr ⟨h.trace, ha⟩

/-- **The discipline rule.** When the body of every call obeys a discipline on its own, every
reachable configuration is in order. -/
theorem Reachable.orderly (hbody : ∀ x, (S.body x).Obeys (G x) (D x) (Q x) [])
    (h : S.Reachable s₀ c) : Orderly G D Q c := by
  induction h with
  | refl =>
    exact ⟨by simp [Config.initial], by simp [Config.initial], by simp [Config.initial],
      by simp [Config.initial], throughout_nil⟩
  | @tail b _ _ hstep ih =>
    cases hstep with
    | tick d => exact ⟨ih.code, ih.thread, ih.started, ih.pending, ih.trace⟩
    | start i x hi =>
      refine ih.emit (Or.inl ⟨hi, rfl⟩) (ih.thread_ne hi) fun p hp ↦ ?_
      obtain rfl := Option.some_inj.mp hp
      rw [own_concat_of_not_perform (by simp), own_eq_nil (ih.thread_ne hi)]
      exact hbody x
    | perform i x o k r s hi hr =>
      have hp := ih.code i x _ hi
      refine ih.emit (Or.inr ⟨_, hi⟩) hp.1 fun p hp' ↦ ?_
      obtain rfl := Option.some_inj.mp hp'
      rw [own_concat_perform (e := ⟨i, x, b.store, .perform o r, s⟩) rfl]
      exact hp.2 r.seen
    | detach i x o k hi =>
      have hp := ih.code i x _ hi
      have hemit : Orderly G D Q (b.emit i x (.detach o) b.store (some k)) := by
        refine ih.emit (Or.inr ⟨_, hi⟩) hp.1 fun p hp' ↦ ?_
        obtain rfl := Option.some_inj.mp hp'
        rw [own_concat_of_not_perform (by simp)]
        exact hp.2
      refine ⟨hemit.code, hemit.thread, hemit.started, fun q hq ↦ ?_, hemit.trace⟩
      rcases List.mem_append.mp hq with hq | hq
      · exact hemit.pending q hq
      · obtain rfl := List.mem_singleton.mp hq
        exact ⟨_, List.mem_append_right _ List.mem_cons_self, rfl, rfl, rfl⟩
    | background j q r s hj hr =>
      have hdet := ih.pending q (List.mem_of_getElem? hj)
      refine ⟨fun i x p hi ↦ ?_, fun e he ↦ ?_, fun i t hi ↦ ?_, fun q' hq' ↦ ?_, ?_⟩
      · rw [own_concat_of_not_perform (by simp)]
        exact ih.code i x p hi
      · rcases List.mem_append.mp he with he | he
        · exact ih.thread e he
        · obtain rfl := List.mem_singleton.mp he
          obtain ⟨e, he, hthread, hcall, -⟩ := hdet
          rw [← hthread, ← hcall]
          exact ih.thread e he
      · obtain ⟨e, he, hrest⟩ := ih.started i t hi
        exact ⟨e, List.mem_append_left _ he, hrest⟩
      · obtain ⟨e, he, hrest⟩ := ih.pending q' (List.mem_of_mem_eraseIdx hq')
        exact ⟨e, List.mem_append_left _ he, hrest⟩
      · exact throughout_concat.mpr ⟨ih.trace, hdet⟩
    | finish i x p r hi hr => exact ih.emit (Or.inr ⟨p, hi⟩) (ih.ends hi hr) (by simp)
    | stop i x p hi => exact ih.emit (Or.inr ⟨p, hi⟩) trivial (by simp)

theorem Orderly.call_eq (h : Orderly G D Q c) {e e' : Event Op Val ε ι ρ σ} (he : e ∈ c.trace)
    (he' : e' ∈ c.trace) (hthread : e.thread = e'.thread) : e.call = e'.call := by
  obtain ⟨code, hcode⟩ := h.thread e he
  obtain ⟨code', hcode'⟩ := h.thread e' he'
  rw [hthread, hcode', Option.some_inj, Thread.mk.injEq] at hcode
  exact hcode.1.symm

/-- What the store carries out is performed by the thread itself, with its whole history, or was
left behind at some point of it. -/
theorem Orderly.performed_or (h : Orderly G D Q c) {pre post : List (Event Op Val ε ι ρ σ)}
    {e : Event Op Val ε ι ρ σ} (htr : c.trace = pre ++ e :: post) {o : Op} {a : Except ε (Val o)}
    (hd : e.done = some ⟨o, a⟩) :
    (G e.call (own e.thread pre) o ∧ ∃ r, e.action = .perform o r) ∨
      ∃ past, past <+: own e.thread pre ∧ D e.call past o := by
  have hdisc := h.trace pre e post htr
  rw [Event.done] at hd
  rw [Disciplined] at hdisc
  split at hd
  · next o' r heq =>
    obtain ⟨a', -, hpair⟩ := Option.map_eq_some_iff.mp hd
    obtain ⟨rfl, -⟩ := Sigma.mk.inj hpair
    rw [heq] at hdisc
    exact Or.inl ⟨hdisc, r, heq⟩
  · next o' r heq =>
    obtain ⟨a', -, hpair⟩ := Option.map_eq_some_iff.mp hd
    obtain ⟨rfl, -⟩ := Sigma.mk.inj hpair
    rw [heq] at hdisc
    obtain ⟨e', he', hthread, hcall, hdet⟩ := hdisc
    obtain ⟨pre', post', rfl⟩ := List.append_of_mem he'
    have hdisc' := h.trace pre' e' (post' ++ e :: post) (by simp [htr])
    rw [Disciplined, hdet, hthread, hcall] at hdisc'
    exact Or.inr ⟨_, own_prefix (List.prefix_append _ _) _, hdisc'⟩
  · simp at hd

theorem Orderly.performed (h : Orderly G D Q c) {pre post : List (Event Op Val ε ι ρ σ)}
    {e : Event Op Val ε ι ρ σ} (htr : c.trace = pre ++ e :: post) {o : Op} {a : Except ε (Val o)}
    (hd : e.done = some ⟨o, a⟩) (hD : ∀ past, ¬D e.call past o) :
    G e.call (own e.thread pre) o ∧ ∃ r, e.action = .perform o r := by
  rcases h.performed_or htr hd with hperformed | ⟨past, -, hdetached⟩
  · exact hperformed
  · exact absurd hdetached (hD past)

/-- Whatever the store carries out, the discipline allowed it at some point of the thread. -/
theorem Orderly.allowed_at (h : Orderly G D Q c) {pre post : List (Event Op Val ε ι ρ σ)}
    {e : Event Op Val ε ι ρ σ} (htr : c.trace = pre ++ e :: post) {o : Op} {a : Except ε (Val o)}
    (hd : e.done = some ⟨o, a⟩) :
    ∃ past, past <+: own e.thread pre ∧ (G e.call past o ∨ D e.call past o) := by
  rcases h.performed_or htr hd with ⟨hG, -⟩ | ⟨past, hprefix, hD⟩
  · exact ⟨_, List.prefix_rfl, Or.inl hG⟩
  · exact ⟨past, hprefix, Or.inr hD⟩

theorem Orderly.allowed (h : Orderly G D Q c) {e : Event Op Val ε ι ρ σ} (he : e ∈ c.trace) {o : Op}
    {a : Except ε (Val o)} (hd : e.done = some ⟨o, a⟩) :
    ∃ past, G e.call past o ∨ D e.call past o := by
  obtain ⟨pre, post, htr⟩ := List.append_of_mem he
  obtain ⟨past, -, hpast⟩ := h.allowed_at htr hd
  exact ⟨past, hpast⟩

/-! ## Running a system

A schedule says which step comes next. Entries that are not possible are passed over, so that every
schedule runs to a reachable configuration. -/

/-- What is to go wrong with an operation. -/
inductive Fault (ε : Type)
  | none
  | reject (e : ε)
  | lose (e : ε)

/-- An entry of a schedule. -/
inductive Label (ε ι χ : Type)
  | tick (d : ℕ)
  | start (i : ℕ) (x : ι)
  | next (i : ℕ) (y : χ) (f : Fault ε)
  | background (j : ℕ) (y : χ) (f : Fault ε)
  | stop (i : ℕ)

variable (S) in
/-- How the store deals with an operation, for a choice and a fault. -/
def answer? (y : χ) (f : Fault ε) (s : σ) (o : Op) : Option (σ × Reply ε (Val o)) :=
  match f with
  | .none => (S.exec y s o).map fun p ↦ (p.1, .answered p.2)
  | .reject e => if S.mayReject o e then some (s, .rejected e) else none
  | .lose e =>
    if S.mayReject o e then (S.exec y s o).map fun p ↦ (p.1, .lost p.2 e) else none

theorem answers_of_answer? {y : χ} {f : Fault ε} {s s' : σ} {o : Op} {r : Reply ε (Val o)}
    (h : S.answer? y f s o = some (s', r)) : S.Answers s o r s' := by
  cases f with
  | none =>
    obtain ⟨p, hp, heq⟩ := Option.map_eq_some_iff.mp h
    obtain ⟨rfl, rfl⟩ := Prod.mk.inj heq
    exact ⟨y, hp⟩
  | reject e =>
    rw [answer?] at h
    split at h
    · next he =>
      obtain ⟨rfl, rfl⟩ := Prod.mk.inj (Option.some_inj.mp h)
      exact ⟨he, rfl⟩
    · simp at h
  | lose e =>
    rw [answer?] at h
    split at h
    · next he =>
      obtain ⟨p, hp, heq⟩ := Option.map_eq_some_iff.mp h
      obtain ⟨rfl, rfl⟩ := Prod.mk.inj heq
      exact ⟨he, y, hp⟩
    · simp at h

variable (S) in
/-- Take the step a schedule asks for, if it is possible. -/
def next? (l : Label ε ι χ) (c : Config Op Val ε ι ρ σ) : Option (Config Op Val ε ι ρ σ) :=
  match l with
  | .tick d => some { c with store := S.tick d c.store }
  | .start i x =>
    match c.threads i with
    | none => some (c.emit i x .start c.store (some (S.body x)))
    | some _ => none
  | .next i y f =>
    match c.threads i with
    | some ⟨x, some (.perform o k)⟩ =>
      (S.answer? y f c.store o).map fun p ↦
        c.emit i x (.perform o p.2) p.1 (some (k p.2.seen))
    | some ⟨x, some (.detach o k)⟩ =>
      some { c.emit i x (.detach o) c.store (some k) with pending := c.pending ++ [⟨i, x, o⟩] }
    | some ⟨x, some (.pure a)⟩ => some (c.emit i x (.finish (.ok a)) c.store none)
    | some ⟨x, some (.throw e)⟩ => some (c.emit i x (.finish (.error e)) c.store none)
    | _ => none
  | .background j y f =>
    match c.pending[j]? with
    | some q =>
      (S.answer? y f c.store q.op).map fun p ↦
        ⟨p.1, c.threads, c.pending.eraseIdx j,
          c.trace ++ [⟨q.thread, q.call, c.store, .background q.op p.2, p.1⟩]⟩
    | none => none
  | .stop i =>
    match c.threads i with
    | some ⟨x, some _⟩ => some (c.emit i x .stop c.store none)
    | _ => none

theorem step_of_next? {l : Label ε ι χ} (h : S.next? l c = some c') : S.Step c c' := by
  cases l with
  | tick d => exact Option.some_inj.mp h ▸ .tick c d
  | start i x =>
    rw [next?] at h
    split at h
    · next hi => exact Option.some_inj.mp h ▸ .start c i x hi
    · simp at h
  | next i y f =>
    rw [next?] at h
    split at h
    · next x o k hi =>
      obtain ⟨p, hp, rfl⟩ := Option.map_eq_some_iff.mp h
      exact .perform c i x o k p.2 p.1 hi (answers_of_answer? hp)
    · next x o k hi => exact Option.some_inj.mp h ▸ .detach c i x o k hi
    · next x a hi => exact Option.some_inj.mp h ▸ .finish c i x _ _ hi rfl
    · next x e hi => exact Option.some_inj.mp h ▸ .finish c i x _ _ hi rfl
    · simp at h
  | background j y f =>
    rw [next?] at h
    split at h
    · next q hj =>
      obtain ⟨p, hp, rfl⟩ := Option.map_eq_some_iff.mp h
      exact .background c j q p.2 p.1 hj (answers_of_answer? hp)
    · simp at h
  | stop i =>
    rw [next?] at h
    split at h
    · next x p hi => exact Option.some_inj.mp h ▸ .stop c i x p hi
    · simp at h

variable (S) in
/-- Run a schedule from a store. -/
def run (ls : List (Label ε ι χ)) (s : σ) : Config Op Val ε ι ρ σ :=
  ls.foldl (fun c l ↦ (S.next? l c).getD c) (.initial s)

variable (S) in
theorem run_concat (ls : List (Label ε ι χ)) (l : Label ε ι χ) (s : σ) :
    S.run (ls ++ [l]) s = (S.next? l (S.run ls s)).getD (S.run ls s) := by
  rw [run, List.foldl_append, List.foldl_cons, List.foldl_nil, ← run]

theorem reachable_run (ls : List (Label ε ι χ)) (s : σ) : S.Reachable s (S.run ls s) := by
  induction ls using List.reverseRecOn with
  | nil => exact .refl
  | append_singleton ls l ih =>
    rw [run_concat]
    cases h : S.next? l (S.run ls s) with
    | none => exact ih
    | some c => exact ih.tail (step_of_next? h)

theorem trace_of_next? {l : Label ε ι χ} (h : S.next? l c = some c') :
    c'.trace = c.trace ∨ ∃ e, c'.trace = c.trace ++ [e] ∧ ∀ o r, e.action = .perform o r →
      ∃ y f, l = .next e.thread y f ∧ S.answer? y f e.before o = some (e.after, r) := by
  cases l with
  | tick d =>
    obtain rfl := Option.some_inj.mp h
    exact Or.inl rfl
  | start i x =>
    rw [next?] at h
    split at h
    · obtain rfl := Option.some_inj.mp h
      exact Or.inr ⟨_, rfl, by simp⟩
    · simp at h
  | next i y f =>
    rw [next?] at h
    split at h
    · obtain ⟨p, hp, rfl⟩ := Option.map_eq_some_iff.mp h
      refine Or.inr ⟨_, rfl, fun o r ha ↦ ?_⟩
      obtain ⟨rfl, hr⟩ := Action.perform.inj ha
      obtain rfl := eq_of_heq hr
      exact ⟨y, f, rfl, hp⟩
    · obtain rfl := Option.some_inj.mp h
      exact Or.inr ⟨_, rfl, by simp⟩
    · obtain rfl := Option.some_inj.mp h
      exact Or.inr ⟨_, rfl, by simp⟩
    · obtain rfl := Option.some_inj.mp h
      exact Or.inr ⟨_, rfl, by simp⟩
    · simp at h
  | background j y f =>
    rw [next?] at h
    split at h
    · obtain ⟨p, hp, rfl⟩ := Option.map_eq_some_iff.mp h
      exact Or.inr ⟨_, rfl, by simp⟩
    · simp at h
  | stop i =>
    rw [next?] at h
    split at h
    · obtain rfl := Option.some_inj.mp h
      exact Or.inr ⟨_, rfl, by simp⟩
    · simp at h

theorem steps_run (ls ls' : List (Label ε ι χ)) (s : σ) :
    Relation.ReflTransGen S.Step (S.run ls s) (S.run (ls ++ ls') s) := by
  induction ls' using List.reverseRecOn with
  | nil => rw [List.append_nil]
  | append_singleton ls' l ih =>
    rw [← List.append_assoc, run_concat]
    cases h : S.next? l (S.run (ls ++ ls') s) with
    | none => exact ih
    | some c => exact ih.tail (step_of_next? h)

/-! ## One thread at a time -/

section Solo

variable {h : σ → (o : Op) → σ × Except ε (Val o)}

/-- A thread can run to its end while the others wait, and does to the store what its code does when
it is run on its own. -/
theorem exists_steps_interp (hexec : ∀ s o, ∃ y, S.exec y s o = some (h s o)) {i : ℕ} {x : ι}
    {p : Program Op Val ε ρ} {c : Config Op Val ε ι ρ σ} (hi : c.threads i = some ⟨x, some p⟩) :
    ∃ c' tr, Relation.ReflTransGen S.Step c c' ∧ c'.store = (p.interp h c.store).1 ∧
      c'.trace = c.trace ++ tr ∧ (∀ e ∈ tr, e.call = x) ∧
      ∀ j, j ≠ i → c'.threads j = c.threads j := by
  induction p generalizing c with
  | pure a => exact ⟨c, [], .refl, rfl, (List.append_nil _).symm, by simp, fun _ _ ↦ rfl⟩
  | throw e => exact ⟨c, [], .refl, rfl, (List.append_nil _).symm, by simp, fun _ _ ↦ rfl⟩
  | perform o k ih =>
    obtain ⟨y, hy⟩ := hexec c.store o
    have hstep := Step.perform c i x o k (.answered (h c.store o).2) (h c.store o).1 hi ⟨y, hy⟩
    obtain ⟨c', tr, hsteps, hstore, htrace, hcall, hthreads⟩ := ih (h c.store o).2
      (c := c.emit i x (.perform o (.answered (h c.store o).2)) (h c.store o).1
        (some (k (h c.store o).2))) (Function.update_self ..)
    refine ⟨c', ⟨i, x, c.store, .perform o (.answered (h c.store o).2), (h c.store o).1⟩ :: tr,
      .head hstep hsteps, hstore, ?_, ?_, fun j hj ↦ ?_⟩
    · rw [htrace, Config.emit_trace, List.append_assoc, List.singleton_append]
    · exact List.forall_mem_cons.mpr ⟨rfl, hcall⟩
    · rw [hthreads j hj, Config.emit_threads, if_neg hj]
  | detach o k ih =>
    obtain ⟨y, hy⟩ := hexec c.store o
    have hdetach := Step.detach (S := S) c i x o k hi
    -- what is left behind is performed at once
    have hbackground := Step.background (S := S)
      { c.emit i x (.detach o) c.store (some k) with pending := c.pending ++ [⟨i, x, o⟩] }
      c.pending.length ⟨i, x, o⟩ (.answered (h c.store o).2) (h c.store o).1 (by simp) ⟨y, hy⟩
    obtain ⟨c', tr, hsteps, hstore, htrace, hcall, hthreads⟩ := ih
      (c := ⟨(h c.store o).1, (c.emit i x (.detach o) c.store (some k)).threads,
        List.eraseIdx (c.pending ++ [⟨i, x, o⟩]) c.pending.length,
        (c.emit i x (.detach o) c.store (some k)).trace ++
          [⟨i, x, c.store, .background o (.answered (h c.store o).2), (h c.store o).1⟩]⟩)
      (Function.update_self ..)
    refine ⟨c', ⟨i, x, c.store, .detach o, c.store⟩ ::
      ⟨i, x, c.store, .background o (.answered (h c.store o).2), (h c.store o).1⟩ :: tr,
      .head hdetach (.head hbackground hsteps), hstore, ?_, ?_, fun j hj ↦ ?_⟩
    · rw [htrace, Config.emit_trace, List.append_assoc, List.append_assoc]
      rfl
    · exact List.forall_mem_cons.mpr ⟨rfl, List.forall_mem_cons.mpr ⟨rfl, hcall⟩⟩
    · rw [hthreads j hj, Config.emit_threads, if_neg hj]

/-- A call can come in and be run to its end while the others wait. -/
theorem Reachable.exists_interp (hc : S.Reachable s₀ c)
    (hexec : ∀ s o, ∃ y, S.exec y s o = some (h s o)) {i : ℕ} (hi : c.threads i = none) (x : ι) :
    ∃ c' tr, S.Reachable s₀ c' ∧ c'.store = ((S.body x).interp h c.store).1 ∧
      c'.trace = c.trace ++ tr ∧ (∀ e ∈ tr, e.call = x) ∧
      ∀ j, j ≠ i → c'.threads j = c.threads j := by
  have hstart := Step.start (S := S) c i x hi
  obtain ⟨c', tr, hsteps, hstore, htrace, hcall, hthreads⟩ := exists_steps_interp hexec
    (c := c.emit i x .start c.store (some (S.body x))) (Function.update_self ..)
  refine ⟨c', ⟨i, x, c.store, .start, c.store⟩ :: tr, (hc.tail hstart).trans hsteps, hstore, ?_, ?_,
    fun j hj ↦ ?_⟩
  · rw [htrace, Config.emit_trace, List.append_assoc, List.singleton_append]
  · exact List.forall_mem_cons.mpr ⟨rfl, hcall⟩
  · rw [hthreads j hj, Config.emit_threads, if_neg hj]

end Solo

end System

end Interaction
