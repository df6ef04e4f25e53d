import NativeKiln.Interaction.System
import Mathlib.Algebra.BigOperators.Fin
import Mathlib.Algebra.BigOperators.Group.Finset.Piecewise
import Mathlib.Algebra.Order.BigOperators.Group.Finset

/-!
# Programs that are started together

`Promise.all`: tasks are started together, their operations are answered in any order, and what they
come to is a list of values in the order of the tasks, or the exception that was thrown first. Cut
out of such a run, the answers to one task take it where they would take it on its own (`Run.goes`).

Where every task is a single operation whose failure it deals with itself, nothing is left of the
order: the values are those of the answers, and they are there when all tasks have been answered
(`Run.outcome_calls`). One after another the same answers give the same values.
-/

namespace Interaction

variable {Op : Type} {Val : Op → Type} {ε ι ρ χ σ α β : Type}

/-! ## What answers do to a program -/

namespace Program

/-- With these answers `p` comes to `q`. -/
inductive Goes : Program Op Val ε α → List (Answer Op Val ε) → Program Op Val ε α → Prop
  | refl (p : Program Op Val ε α) : Goes p [] p
  | perform {o : Op} {k : Except ε (Val o) → Program Op Val ε α} {r : Except ε (Val o)}
    {past : List (Answer Op Val ε)} {q : Program Op Val ε α} (h : Goes (k r) past q) :
    Goes (.perform o k) (⟨o, r⟩ :: past) q

section Goes

variable {p q q' : Program Op Val ε α} {past past' : List (Answer Op Val ε)}

theorem goes_call {o : Op} {r : Except ε (Val o)} :
    Goes (call o : Program Op Val ε _) [⟨o, r⟩] (ofReply r) := .perform (.refl _)

theorem Goes.trans (h : Goes p past q) (h' : Goes q past' q') : Goes p (past ++ past') q' := by
  induction h with
  | refl p => exact h'
  | perform _ ih => exact .perform (ih h')

theorem Goes.left (h : Goes p past q) (f : α → Program Op Val ε β) :
    Goes (p >>= f) past (q >>= f) := by
  induction h with
  | refl p => exact .refl _
  | perform _ ih => exact .perform ih

theorem Goes.caught (h : Goes p past q) (g : ε → Program Op Val ε α) :
    Goes (MonadExcept.tryCatch p g) past (MonadExcept.tryCatch q g) := by
  induction h with
  | refl p => exact .refl _
  | perform _ ih => exact .perform ih

theorem Goes.bind {a : α} (h : Goes p past (Pure.pure a)) {f : α → Program Op Val ε β}
    {q : Program Op Val ε β} (h' : Goes (f a) past' q) : Goes (p >>= f) (past ++ past') q :=
  (h.left f).trans h'

theorem Goes.of_perform {o : Op} {k : Except ε (Val o) → α}
    (h : Goes (.perform o fun r ↦ .pure (k r)) past q) :
    past = [] ∧ q = .perform o (fun r ↦ .pure (k r)) ∨
      ∃ r, past = [⟨o, r⟩] ∧ q = .pure (k r) := by
  cases h with
  | refl => exact Or.inl ⟨rfl, rfl⟩
  | @perform o k' r past q h =>
    cases h with
    | refl => exact Or.inr ⟨r, rfl, rfl⟩

end Goes

end Program

namespace System

variable {S : System Op Val ε ι ρ χ σ} {c : Config Op Val ε ι ρ σ} {i : ℕ} {x : ι}

variable (S) in
/-- In every state of the store the operation may be answered like this, and leaves it as it is. -/
def Neutral (o : Op) (r : Except ε (Val o)) : Prop :=
  ∀ s, ∃ reply, reply.seen = r ∧ S.Answers s o reply s

/-- With answers that are always possible a thread goes where its code goes. -/
theorem exists_steps_of_goes {p q : Program Op Val ε ρ} {past : List (Answer Op Val ε)}
    (h : p.Goes past q) (hneutral : ∀ a ∈ past, S.Neutral a.1 a.2)
    (hi : c.threads i = some ⟨x, some p⟩) :
    ∃ c', Relation.ReflTransGen S.Step c c' ∧ c'.store = c.store ∧
      c'.threads i = some ⟨x, some q⟩ := by
  induction h generalizing c with
  | refl p => exact ⟨c, .refl, rfl, hi⟩
  | @perform o k r past q _ ih =>
    obtain ⟨reply, hseen, hreply⟩ := hneutral _ List.mem_cons_self c.store
    obtain ⟨c', hsteps, hstore, hthread⟩ := ih
      (c := c.emit i x (.perform o reply) c.store (some (k reply.seen)))
      (fun a ha ↦ hneutral a (List.mem_cons_of_mem _ ha))
      (by rw [Config.emit_threads, if_pos rfl, hseen])
    exact ⟨c', hsteps.head (.perform c i x o k reply c.store hi hreply), hstore, hthread⟩

end System

/-! ## Tasks side by side -/

variable (Op Val ε ι α) in
/-- The code that is left of each task, and the exception that was thrown first. -/
structure Together where
  tasks : ι → Program Op Val ε α
  rejected : Option ε

/-- The exception a program has ended in. -/
def Program.thrown? : Program Op Val ε α → Option ε
  | .throw e => some e
  | _ => none

/-- The value a program has ended in. -/
def Program.value? : Program Op Val ε α → Option α
  | .pure a => some a
  | _ => none

/-- The answers to one task. -/
def answersOf [DecidableEq ι] (i : ι) (tr : List (ι × Answer Op Val ε)) : List (Answer Op Val ε) :=
  tr.filterMap fun x ↦ if x.1 = i then some x.2 else none

theorem mem_answersOf [DecidableEq ι] {i : ι} {tr : List (ι × Answer Op Val ε)}
    {a : Answer Op Val ε} (h : a ∈ answersOf i tr) : (i, a) ∈ tr := by
  obtain ⟨⟨j, b⟩, hmem, hb⟩ := List.mem_filterMap.mp h
  split at hb
  · next hj =>
    obtain rfl : j = i := hj
    exact Option.some_inj.mp hb ▸ hmem
  · simp at hb

namespace Together

section Run

variable [DecidableEq ι]

/-- One task performs the operation it has come to. -/
inductive Step : Together Op Val ε ι α → ι × Answer Op Val ε → Together Op Val ε ι α → Prop
  | perform (s : Together Op Val ε ι α) (i : ι) (o : Op) (k) (r : Except ε (Val o))
    (hi : s.tasks i = .perform o k) :
    Step s (i, ⟨o, r⟩) ⟨Function.update s.tasks i (k r), s.rejected <|> (k r).thrown?⟩

/-- Any number of steps, with the answers in their order. -/
inductive Run : Together Op Val ε ι α → List (ι × Answer Op Val ε) → Together Op Val ε ι α → Prop
  | refl (s) : Run s [] s
  | tail {s s' s'' tr l} (h : Run s tr s') (hstep : Step s' l s'') : Run s (tr ++ [l]) s''

variable {s s' : Together Op Val ε ι α} {tr : List (ι × Answer Op Val ε)}

theorem answersOf_concat (i : ι) (l : ι × Answer Op Val ε) :
    answersOf i (tr ++ [l]) = answersOf i tr ++ if l.1 = i then [l.2] else [] := by
  rw [answersOf, List.filterMap_append, answersOf]
  congr 1
  split <;> simp [*]

/-- **Every task goes its own way.** -/
theorem Run.goes (h : Run s tr s') (i : ι) : (s.tasks i).Goes (answersOf i tr) (s'.tasks i) := by
  induction h with
  | refl => exact .refl _
  | tail _ hstep ih =>
    obtain ⟨j, o, k, r, hj⟩ := hstep
    rw [answersOf_concat]
    dsimp only
    by_cases hij : j = i
    · subst hij
      rw [Function.update_self, if_pos rfl]
      rw [hj] at ih
      exact ih.trans (.perform (.refl _))
    · rw [Function.update_of_ne (Ne.symm hij), if_neg hij, List.append_nil]
      exact ih

theorem sum_length_answersOf [Fintype ι] (tr : List (ι × Answer Op Val ε)) :
    ∑ i, (answersOf i tr).length = tr.length := by
  induction tr using List.reverseRecOn with
  | nil => simp [answersOf]
  | append_singleton tr l ih =>
    have hone : ∀ i, (if l.1 = i then [l.2] else []).length = if l.1 = i then 1 else 0 := fun i ↦ by
      split <;> rfl
    simp only [answersOf_concat, List.length_append, hone, Finset.sum_add_distrib, ih]
    rw [Finset.sum_ite_eq, if_pos (Finset.mem_univ _), List.length_singleton]

end Run

/-! ## What they come to -/

section Outcome

variable {n : ℕ} {s : Together Op Val ε (Fin n) α} {tr : List (Fin n × Answer Op Val ε)}

/-- `Promise.all(tasks)`. -/
def start (tasks : Fin n → Program Op Val ε α) : Together Op Val ε (Fin n) α :=
  ⟨tasks, (List.ofFn tasks).findSome? Program.thrown?⟩

/-- What it has been settled with. -/
def outcome? (s : Together Op Val ε (Fin n) α) : Option (Except ε (List α)) :=
  match s.rejected with
  | some e => some (.error e)
  | none =>
    if ∀ i, (s.tasks i).value?.isSome then some (.ok ((List.ofFn s.tasks).filterMap Program.value?))
    else none

/-- A task that is one operation, whose failure it deals with. -/
def operation (o : Op) (k : Except ε (Val o) → α) : Program Op Val ε α :=
  .perform o fun r ↦ .pure (k r)

variable {o : Fin n → Op} {k : ∀ i, Except ε (Val (o i)) → α}

theorem Run.rejected (h : Run (start fun i ↦ operation (o i) (k i)) tr s) : s.rejected = none := by
  induction h with
  | refl =>
    rw [start, List.findSome?_eq_none_iff]
    intro p hp
    obtain ⟨i, rfl⟩ := List.mem_ofFn.mp hp
    rfl
  | tail h hstep ih =>
    obtain ⟨i, o', k', r, hi⟩ := hstep
    rcases (h.goes i).of_perform with ⟨-, hq⟩ | ⟨r', -, hq⟩
    · rw [hi] at hq
      obtain ⟨rfl, hk⟩ := Program.perform.inj hq
      rw [eq_of_heq hk]
      simp [ih, Program.thrown?]
    · rw [hi] at hq
      cases hq

/-- **Nothing is left of the order.** Tasks that are one operation each are through when all of them
have been answered, and come to what they make of their answers. -/
theorem Run.outcome_calls (h : Run (start fun i ↦ operation (o i) (k i)) tr s) :
    (s.outcome? = none ↔ tr.length < n) ∧ ∀ result, s.outcome? = some result →
      ∃ replies : ∀ i, Except ε (Val (o i)), (∀ i, answersOf i tr = [⟨o i, replies i⟩]) ∧
        result = .ok (List.ofFn fun i ↦ k i (replies i)) := by
  have hlength : ∑ i, (answersOf i tr).length = tr.length := sum_length_answersOf tr
  have hcases := fun i ↦ (h.goes i).of_perform
  rw [outcome?, h.rejected]
  dsimp only
  by_cases hall : ∀ i, (s.tasks i).value?.isSome
  · rw [if_pos hall]
    have hanswered : ∀ i, ∃ r, answersOf i tr = [⟨o i, r⟩] ∧ s.tasks i = .pure (k i r) := by
      intro i
      rcases hcases i with ⟨-, hq⟩ | hr
      · have hi := hall i
        simp [hq, Program.value?] at hi
      · exact hr
    choose replies hanswers htasks using hanswered
    have hn : tr.length = n := by
      simp [← hlength, hanswers]
    refine ⟨by simp [hn], fun result hresult ↦ ⟨replies, hanswers, ?_⟩⟩
    have hvalues : List.ofFn s.tasks = (List.ofFn fun i ↦ k i (replies i)).map .pure := by
      rw [List.map_ofFn]
      exact congrArg List.ofFn (funext htasks)
    rw [hvalues, List.filterMap_map] at hresult
    exact (Option.some_inj.mp hresult).symm.trans (congrArg _ (List.filterMap_some ..))
  · rw [if_neg hall]
    refine ⟨iff_of_true rfl ?_, fun result hresult ↦ by simp at hresult⟩
    obtain ⟨i, hi⟩ := not_forall.mp hall
    rw [← hlength]
    calc ∑ i, (answersOf i tr).length < ∑ _i : Fin n, 1 := by
          refine Finset.sum_lt_sum (fun j _ ↦ ?_) ⟨i, Finset.mem_univ i, ?_⟩
          · rcases hcases j with ⟨ha, -⟩ | ⟨r, ha, -⟩ <;> simp [ha]
          · rcases hcases i with ⟨ha, -⟩ | ⟨r, -, hq⟩
            · simp [ha]
            · simp [hq, Program.value?] at hi
      _ = n := by simp

end Outcome

end Together

end Interaction
