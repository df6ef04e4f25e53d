import Mathlib.Data.List.Basic

/-!
# Programs that wait for replies

A `Program` is sequential code that performs operations, one at a time, and goes on with the reply
to each; an operation may also be detached, in which case the code does not wait for it. What an
operation does is not said here: the same program is run against a store on its own (`interp`), or
interleaved with others.

Two kinds of things are said about a program alone. `Obeys G D Q p past`: whatever the replies are,
`p` performs an operation only when its own history allows it (`G`), detaches one only when its
history allows that (`D`), and ends in a result its history supports (`Q`). `Similar`: two programs
perform the same operations and end alike as long as they are given related replies. Both are proved
along the code, one rule for each way to build it; `Composable` is what such rules have in common,
so that a piece of code can be gone through once for all of them. `EndsIn` says what a program can
come to when nothing it asks for fails.
-/

namespace Interaction

/-- Code that performs operations `o : Op`, waits for a `Val o`, and may throw. -/
inductive Program (Op : Type) (Val : Op → Type) (ε α : Type)
  /-- End with a value. -/
  | pure (a : α)
  /-- End with an exception. -/
  | throw (e : ε)
  /-- Perform an operation and go on with the reply. -/
  | perform (o : Op) (k : Except ε (Val o) → Program Op Val ε α)
  /-- Have an operation performed and go on at once. -/
  | detach (o : Op) (k : Program Op Val ε α)

/-- An operation with the reply to it. -/
abbrev Answer (Op : Type) (Val : Op → Type) (ε : Type) := (o : Op) × Except ε (Val o)

variable {Op : Type} {Val : Op → Type} {ε α β σ τ : Type}

namespace Program

/-- Go on with `f` when the program ends with a value. -/
def bind : Program Op Val ε α → (α → Program Op Val ε β) → Program Op Val ε β
  | .pure a, f => f a
  | .throw e, _ => .throw e
  | .perform o k, f => .perform o fun r ↦ (k r).bind f
  | .detach o k, f => .detach o (k.bind f)

/-- Go on with `h` when the program ends with an exception. -/
def tryCatch : Program Op Val ε α → (ε → Program Op Val ε α) → Program Op Val ε α
  | .pure a, _ => .pure a
  | .throw e, h => h e
  | .perform o k, h => .perform o fun r ↦ (k r).tryCatch h
  | .detach o k, h => .detach o (k.tryCatch h)

instance : Monad (Program Op Val ε) where
  pure := .pure
  bind := .bind

instance : MonadExceptOf ε (Program Op Val ε) where
  throw := .throw
  tryCatch := .tryCatch

/-- End as a reply says. -/
def ofReply : Except ε α → Program Op Val ε α
  | .ok a => .pure a
  | .error e => .throw e

/-- Perform an operation; its value, or the exception it was answered with. -/
abbrev call (o : Op) : Program Op Val ε (Val o) := .perform o ofReply

/-- Have an operation performed without waiting for it. -/
abbrev spawn (o : Op) : Program Op Val ε Unit := .detach o (.pure ())

theorem bind_assoc {γ : Type} (p : Program Op Val ε α) (f : α → Program Op Val ε β)
    (g : β → Program Op Val ε γ) : p >>= f >>= g = p >>= fun a ↦ f a >>= g := by
  change (p.bind f).bind g = p.bind fun a ↦ (f a).bind g
  induction p with
  | pure a => rfl
  | throw e => rfl
  | perform o k ih => exact congrArg (Program.perform o) (funext ih)
  | detach o k ih => exact congrArg (Program.detach o) ih

/-! ## What a program may do -/

/-- Whatever the replies are, an operation is performed or detached only when the history allows it,
and the program ends in a result that goes with its history. -/
def Obeys (G D : List (Answer Op Val ε) → Op → Prop)
    (Q : List (Answer Op Val ε) → Except ε α → Prop) :
    Program Op Val ε α → List (Answer Op Val ε) → Prop
  | .pure a, past => Q past (.ok a)
  | .throw e, past => Q past (.error e)
  | .perform o k, past => G past o ∧ ∀ r, Obeys G D Q (k r) (past ++ [⟨o, r⟩])
  | .detach o k, past => D past o ∧ Obeys G D Q k past

section Rules

variable {G G' D D' : List (Answer Op Val ε) → Op → Prop}
  {Q Q' : List (Answer Op Val ε) → Except ε α → Prop}
  {R : List (Answer Op Val ε) → Except ε β → Prop} {past : List (Answer Op Val ε)}

@[simp] theorem obeys_pure {a : α} :
    Obeys G D Q (Pure.pure a : Program Op Val ε α) past ↔ Q past (.ok a) := Iff.rfl

@[simp] theorem obeys_pure' {a : α} :
    Obeys G D Q (.pure a : Program Op Val ε α) past ↔ Q past (.ok a) := Iff.rfl

@[simp] theorem obeys_throw {e : ε} :
    Obeys G D Q (MonadExcept.throw e : Program Op Val ε α) past ↔ Q past (.error e) := Iff.rfl

@[simp] theorem obeys_ofReply {r : Except ε α} :
    Obeys G D Q (ofReply r : Program Op Val ε α) past ↔ Q past r := by cases r <;> rfl

@[simp] theorem obeys_perform {o : Op} {k : Except ε (Val o) → Program Op Val ε α} :
    Obeys G D Q (.perform o k) past ↔ G past o ∧
      (∀ v, Obeys G D Q (k (.ok v)) (past ++ [⟨o, .ok v⟩])) ∧
      ∀ e, Obeys G D Q (k (.error e)) (past ++ [⟨o, .error e⟩]) := by
  refine and_congr_right fun _ ↦ ⟨fun h ↦ ⟨fun v ↦ h (.ok v), fun e ↦ h (.error e)⟩, ?_⟩
  rintro ⟨hok, herror⟩ (e | v)
  · exact herror e
  · exact hok v

@[simp] theorem obeys_detach {o : Op} {k : Program Op Val ε α} :
    Obeys G D Q (.detach o k) past ↔ D past o ∧ Obeys G D Q k past := Iff.rfl

@[simp] theorem obeys_bind {p : Program Op Val ε α} {f : α → Program Op Val ε β} :
    Obeys G D R (p >>= f) past ↔
      Obeys G D (fun past r ↦ match r with
        | .ok a => Obeys G D R (f a) past
        | .error e => R past (.error e)) p past := by
  change Obeys G D R (p.bind f) past ↔ _
  induction p generalizing past with
  | pure a => rfl
  | throw e => rfl
  | perform o k ih => exact and_congr_right fun _ ↦ forall_congr' fun r ↦ ih r
  | detach o k ih => exact and_congr_right fun _ ↦ ih

@[simp] theorem obeys_tryCatch {p : Program Op Val ε α} {h : ε → Program Op Val ε α} :
    Obeys G D Q (MonadExcept.tryCatch p h) past ↔
      Obeys G D (fun past r ↦ match r with
        | .ok a => Q past (.ok a)
        | .error e => Obeys G D Q (h e) past) p past := by
  change Obeys G D Q (p.tryCatch h) past ↔ _
  induction p generalizing past with
  | pure a => rfl
  | throw e => rfl
  | perform o k ih => exact and_congr_right fun _ ↦ forall_congr' fun r ↦ ih r
  | detach o k ih => exact and_congr_right fun _ ↦ ih

@[simp] theorem obeys_ite {c : Prop} [Decidable c] {p q : Program Op Val ε α} :
    Obeys G D Q (if c then p else q) past ↔
      (c → Obeys G D Q p past) ∧ (¬c → Obeys G D Q q past) := by
  split <;> simp [*]

theorem obeys_call_bind {o : Op} {f : Val o → Program Op Val ε β} :
    Obeys G D R (call o >>= f) past ↔ G past o ∧
      (∀ v, Obeys G D R (f v) (past ++ [⟨o, .ok v⟩])) ∧
      ∀ e, R (past ++ [⟨o, .error e⟩]) (.error e) := by
  simp only [obeys_bind, obeys_perform, obeys_ofReply]

theorem Obeys.imp {p : Program Op Val ε α} (h : Obeys G D Q p past)
    (hG : ∀ past o, G past o → G' past o)
    (hD : ∀ past o, D past o → D' past o) (hQ : ∀ past r, Q past r → Q' past r) :
    Obeys G' D' Q' p past := by
  induction p generalizing past with
  | pure a => exact hQ _ _ h
  | throw e => exact hQ _ _ h
  | perform o k ih => exact ⟨hG _ _ h.1, fun r ↦ ih r (h.2 r)⟩
  | detach o k ih => exact ⟨hD _ _ h.1, ih h.2⟩

/-- The second part goes on where the first has ended with a value. -/
theorem Obeys.bind {p : Program Op Val ε α} {f : α → Program Op Val ε β} (h : Obeys G D Q p past)
    (hok : ∀ past a, Q past (.ok a) → Obeys G D R (f a) past)
    (herror : ∀ past e, Q past (.error e) → R past (.error e)) : Obeys G D R (p >>= f) past := by
  refine obeys_bind.mpr (h.imp (fun _ _ h ↦ h) (fun _ _ h ↦ h) ?_)
  rintro past' (e | a) hQ
  · exact herror past' e hQ
  · exact hok past' a hQ

theorem Obeys.and {p : Program Op Val ε α} (h : Obeys G D Q p past) (h' : Obeys G' D' Q' p past) :
    Obeys (fun past o ↦ G past o ∧ G' past o) (fun past o ↦ D past o ∧ D' past o)
      (fun past r ↦ Q past r ∧ Q' past r) p past := by
  induction p generalizing past with
  | pure a => exact ⟨h, h'⟩
  | throw e => exact ⟨h, h'⟩
  | perform o k ih => exact ⟨⟨h.1, h'.1⟩, fun r ↦ ih r (h.2 r) (h'.2 r)⟩
  | detach o k ih => exact ⟨⟨h.1, h'.1⟩, ih h.2 h'.2⟩

/-- What is asked for depends on no history: only operations in `N` are performed, and only
operations in `M` are detached. -/
def Asks (N M : Op → Prop) (p : Program Op Val ε α) : Prop :=
  ∀ past, Obeys (fun _ o ↦ N o) (fun _ o ↦ M o) (fun _ _ ↦ True) p past

section Asks

variable {N M : Op → Prop}

theorem Asks.mono {N' M' : Op → Prop} {p : Program Op Val ε α} (h : Asks N M p)
    (hN : ∀ o, N o → N' o) (hM : ∀ o, M o → M' o) : Asks N' M' p :=
  fun past ↦ (h past).imp (fun _ o ↦ hN o) (fun _ o ↦ hM o) fun _ _ h ↦ h

theorem asks_pure {a : α} : Asks N M (Pure.pure a : Program Op Val ε α) := fun _ ↦ trivial

theorem asks_throw {e : ε} : Asks N M (MonadExcept.throw e : Program Op Val ε α) := fun _ ↦ trivial

theorem asks_ofReply {r : Except ε α} : Asks N M (ofReply r : Program Op Val ε α) :=
  fun _ ↦ obeys_ofReply.mpr trivial

theorem asks_call {o : Op} (h : N o) : Asks N M (call o : Program Op Val ε _) :=
  fun _ ↦ ⟨h, fun _ ↦ obeys_ofReply.mpr trivial⟩

theorem asks_spawn {o : Op} (h : M o) : Asks N M (spawn o : Program Op Val ε _) :=
  fun _ ↦ ⟨h, trivial⟩

theorem Asks.bind {p : Program Op Val ε α} {f : α → Program Op Val ε β} (hp : Asks N M p)
    (hf : ∀ a, Asks N M (f a)) : Asks N M (p >>= f) :=
  fun past ↦ (hp past).bind (fun past a _ ↦ hf a past) fun _ _ _ ↦ trivial

theorem Asks.tryCatch {p : Program Op Val ε α} {g : ε → Program Op Val ε α} (hp : Asks N M p)
    (hg : ∀ e, Asks N M (g e)) : Asks N M (MonadExcept.tryCatch p g) := by
  refine fun past ↦ obeys_tryCatch.mpr ((hp past).imp (fun _ _ h ↦ h) (fun _ _ h ↦ h) ?_)
  rintro past (e | a) -
  · exact hg e past
  · trivial

theorem asks_of_obeys {p : Program Op Val ε α}
    (h : Obeys (fun _ o ↦ N o) (fun _ o ↦ M o) (fun _ _ ↦ True) p past) : Asks N M p := by
  induction p generalizing past with
  | pure a => exact fun _ ↦ trivial
  | throw e => exact fun _ ↦ trivial
  | perform o k ih => exact fun past' ↦ ⟨h.1, fun r ↦ ih r (h.2 r) _⟩
  | detach o k ih => exact fun past' ↦ ⟨h.1, ih h.2 _⟩

theorem asks_perform {o : Op} {k : Except ε (Val o) → Program Op Val ε α} :
    Asks N M (.perform o k) ↔ N o ∧ ∀ r, Asks N M (k r) :=
  ⟨fun h ↦ ⟨(h []).1, fun r ↦ asks_of_obeys ((h []).2 r)⟩, fun h _ ↦ ⟨h.1, fun r ↦ h.2 r _⟩⟩

theorem asks_detach {o : Op} {k : Program Op Val ε α} :
    Asks N M (.detach o k) ↔ M o ∧ Asks N M k :=
  ⟨fun h ↦ ⟨(h []).1, asks_of_obeys (h []).2⟩, fun h past ↦ ⟨h.1, h.2 past⟩⟩

/-- What the operations in `N` keep true of the history stays true. -/
theorem Asks.obeys {p : Program Op Val ε α} (h : Asks N M p) {I : List (Answer Op Val ε) → Prop}
    (hI : I past) (step : ∀ past o r, I past → N o → I (past ++ [⟨o, r⟩])) :
    Obeys (fun past o ↦ I past ∧ N o) (fun past o ↦ I past ∧ M o) (fun past _ ↦ I past) p past := by
  have hp := h past
  clear h
  induction p generalizing past with
  | pure a => exact hI
  | throw e => exact hI
  | perform o k ih =>
    exact ⟨⟨hI, hp.1⟩, fun r ↦ ih r (step past o r hI hp.1) (hp.2 r)⟩
  | detach o k ih => exact ⟨⟨hI, hp.1⟩, ih hI hp.2⟩

end Asks

end Rules

/-! ## What a program can end in -/

/-- The program ends in the result for some replies that are values: nothing it asks for fails. -/
def EndsIn : Program Op Val ε α → Except ε α → Prop
  | .pure a, r => r = .ok a
  | .throw e, r => r = .error e
  | .perform _ k, r => ∃ v, EndsIn (k (.ok v)) r
  | .detach _ k, r => EndsIn k r

section EndsIn

variable {r : Except ε α}

@[simp] theorem endsIn_pure {a : α} :
    EndsIn (Pure.pure a : Program Op Val ε α) r ↔ r = .ok a := Iff.rfl

@[simp] theorem endsIn_throw {e : ε} :
    EndsIn (MonadExcept.throw e : Program Op Val ε α) r ↔ r = .error e := Iff.rfl

@[simp] theorem endsIn_ofReply {s : Except ε α} :
    EndsIn (ofReply s : Program Op Val ε α) r ↔ r = s := by cases s <;> rfl

@[simp] theorem endsIn_call {o : Op} {s : Except ε (Val o)} :
    EndsIn (call o : Program Op Val ε _) s ↔ ∃ v, s = .ok v := Iff.rfl

@[simp] theorem endsIn_spawn {o : Op} {s : Except ε Unit} :
    EndsIn (spawn o : Program Op Val ε Unit) s ↔ s = .ok () := Iff.rfl

@[simp] theorem endsIn_bind {p : Program Op Val ε α} {f : α → Program Op Val ε β} {s : Except ε β} :
    EndsIn (p >>= f) s ↔ (∃ a, EndsIn p (.ok a) ∧ EndsIn (f a) s) ∨
      ∃ e, EndsIn p (.error e) ∧ s = .error e := by
  change EndsIn (p.bind f) s ↔ _
  induction p with
  | pure a => simp [bind, EndsIn]
  | throw e => simp [bind, EndsIn]
  | perform o k ih =>
    simp only [bind, EndsIn, ih]
    constructor
    · rintro ⟨v, ⟨a, hp, hf⟩ | ⟨e, hp, rfl⟩⟩
      · exact Or.inl ⟨a, ⟨v, hp⟩, hf⟩
      · exact Or.inr ⟨e, ⟨v, hp⟩, rfl⟩
    · rintro (⟨a, ⟨v, hp⟩, hf⟩ | ⟨e, ⟨v, hp⟩, rfl⟩)
      · exact ⟨v, Or.inl ⟨a, hp, hf⟩⟩
      · exact ⟨v, Or.inr ⟨e, hp, rfl⟩⟩
  | detach o k ih => exact ih

@[simp] theorem endsIn_tryCatch {p : Program Op Val ε α} {h : ε → Program Op Val ε α} :
    EndsIn (MonadExcept.tryCatch p h) r ↔ (∃ a, EndsIn p (.ok a) ∧ r = .ok a) ∨
      ∃ e, EndsIn p (.error e) ∧ EndsIn (h e) r := by
  change EndsIn (p.tryCatch h) r ↔ _
  induction p with
  | pure a => simp [Program.tryCatch, EndsIn]
  | throw e => simp [Program.tryCatch, EndsIn]
  | perform o k ih =>
    simp only [Program.tryCatch, EndsIn, ih]
    constructor
    · rintro ⟨v, ⟨a, hp, rfl⟩ | ⟨e, hp, hh⟩⟩
      · exact Or.inl ⟨a, ⟨v, hp⟩, rfl⟩
      · exact Or.inr ⟨e, ⟨v, hp⟩, hh⟩
    · rintro (⟨a, ⟨v, hp⟩, rfl⟩ | ⟨e, ⟨v, hp⟩, hh⟩)
      · exact ⟨v, Or.inl ⟨a, hp, rfl⟩⟩
      · exact ⟨v, Or.inr ⟨e, hp, hh⟩⟩
  | detach o k ih => exact ih

end EndsIn

/-! ## Running a program on its own -/

/-- Run a program against a store; detached operations are performed where they are detached, and
nobody looks at the reply. -/
def interp (h : σ → (o : Op) → σ × Except ε (Val o)) :
    Program Op Val ε α → σ → σ × Except ε α
  | .pure a, s => (s, .ok a)
  | .throw e, s => (s, .error e)
  | .perform o k, s => (k (h s o).2).interp h (h s o).1
  | .detach o k, s => k.interp h (h s o).1

section Interp

variable {h : σ → (o : Op) → σ × Except ε (Val o)} {s : σ}

@[simp] theorem interp_pure {a : α} :
    (Pure.pure a : Program Op Val ε α).interp h s = (s, .ok a) := rfl

@[simp] theorem interp_throw {e : ε} :
    (MonadExcept.throw e : Program Op Val ε α).interp h s = (s, .error e) := rfl

@[simp] theorem interp_ofReply {r : Except ε α} :
    (ofReply r : Program Op Val ε α).interp h s = (s, r) := by cases r <;> rfl

@[simp] theorem interp_perform {o : Op} {k : Except ε (Val o) → Program Op Val ε α} :
    (Program.perform o k).interp h s = (k (h s o).2).interp h (h s o).1 := rfl

@[simp] theorem interp_detach {o : Op} {k : Program Op Val ε α} :
    (Program.detach o k).interp h s = k.interp h (h s o).1 := rfl

theorem interp_bind {p : Program Op Val ε α} {f : α → Program Op Val ε β} :
    (p >>= f).interp h s = match p.interp h s with
      | (s', .ok a) => (f a).interp h s'
      | (s', .error e) => (s', .error e) := by
  change (p.bind f).interp h s = _
  induction p generalizing s with
  | pure a => rfl
  | throw e => rfl
  | perform o k ih => exact ih _
  | detach o k ih => exact ih

theorem interp_tryCatch {p : Program Op Val ε α} {g : ε → Program Op Val ε α} :
    (MonadExcept.tryCatch p g).interp h s = match p.interp h s with
      | (s', .ok a) => (s', .ok a)
      | (s', .error e) => (g e).interp h s' := by
  change (p.tryCatch g).interp h s = _
  induction p generalizing s with
  | pure a => rfl
  | throw e => rfl
  | perform o k ih => exact ih _
  | detach o k ih => exact ih

end Interp

/-! ## Programs that cannot tell replies apart -/

/-- Replies with equal values or related exceptions. -/
inductive SimilarReply (E : ε → ε → Prop) (A : α → β → Prop) : Except ε α → Except ε β → Prop
  | ok {a : α} {b : β} : A a b → SimilarReply E A (.ok a) (.ok b)
  | error {e e' : ε} : E e e' → SimilarReply E A (.error e) (.error e')

/-- The programs perform the same operations and end alike, as long as the exceptions they are
answered with are related and the values equal. -/
inductive Similar (E : ε → ε → Prop) (A : α → β → Prop) :
    Program Op Val ε α → Program Op Val ε β → Prop
  | pure {a : α} {b : β} : A a b → Similar E A (.pure a) (.pure b)
  | throw {e e' : ε} : E e e' → Similar E A (.throw e) (.throw e')
  | perform {o : Op} {k : Except ε (Val o) → Program Op Val ε α}
      {k' : Except ε (Val o) → Program Op Val ε β} :
      (∀ r r', SimilarReply E Eq r r' → Similar E A (k r) (k' r')) →
        Similar E A (.perform o k) (.perform o k')
  | detach {o : Op} {k : Program Op Val ε α} {k' : Program Op Val ε β} :
      Similar E A k k' → Similar E A (.detach o k) (.detach o k')

section Similar

variable {α' β' : Type} {E : ε → ε → Prop} {A : α → α' → Prop} {B : β → β' → Prop}

theorem SimilarReply.imp {E' : ε → ε → Prop} {r : Except ε α} {r' : Except ε α'}
    (h : SimilarReply E A r r') (hE : ∀ e e', E e e' → E' e e') : SimilarReply E' A r r' := by
  cases h with
  | ok h => exact .ok h
  | error h => exact .error (hE _ _ h)

theorem SimilarReply.eq_ok {a : α} {r : Except ε α} (h : SimilarReply E Eq (.ok a) r) :
    r = .ok a := by
  cases h with
  | ok h => rw [h]

theorem similarReply_refl (hE : ∀ e, E e e) (r : Except ε α) : SimilarReply E Eq r r := by
  cases r with
  | ok a => exact .ok rfl
  | error e => exact .error (hE e)

theorem similar_ofReply {r : Except ε α} {r' : Except ε α'} (h : SimilarReply E A r r') :
    Similar E A (ofReply r : Program Op Val ε α) (ofReply r') := by
  cases h with
  | ok h => exact .pure h
  | error h => exact .throw h

theorem similar_call {o : Op} : Similar E Eq (call o : Program Op Val ε _) (call o) :=
  .perform fun _ _ h ↦ similar_ofReply h

theorem similar_spawn {o : Op} : Similar E Eq (spawn o : Program Op Val ε _) (spawn o) :=
  .detach (.pure rfl)

theorem Similar.mono {A' : α → α' → Prop} {p : Program Op Val ε α} {p' : Program Op Val ε α'}
    (h : Similar E A p p') (hA : ∀ a a', A a a' → A' a a') : Similar E A' p p' := by
  induction h with
  | pure h => exact .pure (hA _ _ h)
  | throw h => exact .throw h
  | perform _ ih => exact .perform ih
  | detach _ ih => exact .detach ih

theorem Similar.bind {p : Program Op Val ε α} {p' : Program Op Val ε α'}
    {f : α → Program Op Val ε β} {f' : α' → Program Op Val ε β'} (hp : Similar E A p p')
    (hf : ∀ a a', A a a' → Similar E B (f a) (f' a')) :
    Similar E B (p >>= f) (p' >>= f') := by
  change Similar E B (p.bind f) (p'.bind f')
  induction hp with
  | pure h => exact hf _ _ h
  | throw h => exact .throw h
  | perform _ ih => exact .perform fun r r' h ↦ ih r r' h
  | detach _ ih => exact .detach ih

theorem Similar.tryCatch {p : Program Op Val ε α} {p' : Program Op Val ε α'}
    {f : ε → Program Op Val ε α} {f' : ε → Program Op Val ε α'} (hp : Similar E A p p')
    (hf : ∀ e e', E e e' → Similar E A (f e) (f' e')) :
    Similar E A (MonadExcept.tryCatch p f) (MonadExcept.tryCatch p' f') := by
  change Similar E A (p.tryCatch f) (p'.tryCatch f')
  induction hp with
  | pure h => exact .pure h
  | throw h => exact hf _ _ h
  | perform _ ih => exact .perform fun r r' h ↦ ih r r' h
  | detach _ ih => exact .detach ih

/-- The program does not look at the difference between related exceptions. -/
abbrev Blind (E : ε → ε → Prop) (p : Program Op Val ε α) : Prop := Similar E Eq p p

theorem blind_pure {a : α} : Blind E (Pure.pure a : Program Op Val ε α) := .pure rfl

theorem blind_throw {e : ε} (h : E e e) : Blind E (MonadExcept.throw e : Program Op Val ε α) :=
  .throw h

theorem blind_ofReply {r : Except ε α} (h : ∀ e, E e e) :
    Blind E (ofReply r : Program Op Val ε α) := similar_ofReply (similarReply_refl h r)

theorem blind_call {o : Op} : Blind E (call o : Program Op Val ε _) := similar_call

theorem blind_spawn {o : Op} : Blind E (spawn o : Program Op Val ε _) := similar_spawn

theorem Blind.bind {p : Program Op Val ε α} {f : α → Program Op Val ε β} (hp : Blind E p)
    (hf : ∀ a, Blind E (f a)) : Blind E (p >>= f) :=
  Similar.bind hp fun a _ h ↦ h ▸ hf a

theorem Blind.tryCatch {p : Program Op Val ε α} {f : ε → Program Op Val ε α} (hp : Blind E p)
    (hf : ∀ e e', E e e' → Similar E Eq (f e) (f e')) : Blind E (MonadExcept.tryCatch p f) :=
  Similar.tryCatch hp hf

/-- Run against stores that answer alike, similar programs end alike. -/
theorem Similar.interp {S : σ → τ → Prop} {h : σ → (o : Op) → σ × Except ε (Val o)}
    {h' : τ → (o : Op) → τ × Except ε (Val o)}
    (hh : ∀ s t o, S s t → S (h s o).1 (h' t o).1 ∧ SimilarReply E Eq (h s o).2 (h' t o).2)
    {p : Program Op Val ε α} {p' : Program Op Val ε α'} (hp : Similar E A p p') {s : σ} {t : τ}
    (hs : S s t) :
    S (p.interp h s).1 (p'.interp h' t).1 ∧
      SimilarReply E A (p.interp h s).2 (p'.interp h' t).2 := by
  induction hp generalizing s t with
  | pure h => exact ⟨hs, .ok h⟩
  | throw h => exact ⟨hs, .error h⟩
  | @perform o _ _ _ ih =>
    obtain ⟨hs', hr⟩ := hh s t o hs
    exact ih _ _ hr hs'
  | @detach o _ _ _ ih => exact ih (hh s t o hs).1

end Similar

/-! ## What composition keeps -/

/-- A property that a program has when its parts have it, as long as it performs operations in `N`
only and detaches those in `M`. Of exception handlers only those are covered that do the same
whatever they are given. -/
structure Composable (N M : Op → Prop) (Q : {α : Type} → Program Op Val ε α → Prop) : Prop where
  pure {α : Type} (a : α) : Q (Pure.pure a : Program Op Val ε α)
  throw {α : Type} (e : ε) : Q (MonadExcept.throw e : Program Op Val ε α)
  call {o : Op} : N o → Q (Program.call o)
  spawn {o : Op} : M o → Q (Program.spawn o)
  bind {α β : Type} {p : Program Op Val ε α} {f : α → Program Op Val ε β} :
    Q p → (∀ a, Q (f a)) → Q (p >>= f)
  recover {α : Type} {p q : Program Op Val ε α} :
    Q p → Q q → Q (MonadExcept.tryCatch p fun _ ↦ q)

theorem asks_composable {N M : Op → Prop} :
    Composable N M fun {α} (p : Program Op Val ε α) ↦ Asks N M p where
  pure _ := asks_pure
  throw _ := asks_throw
  call := asks_call
  spawn := asks_spawn
  bind := Asks.bind
  recover hp hq := hp.tryCatch fun _ ↦ hq

theorem blind_composable {E : ε → ε → Prop} (hE : ∀ e, E e e) :
    Composable (fun _ ↦ True) (fun _ ↦ True) fun {α} (p : Program Op Val ε α) ↦ Blind E p where
  pure _ := blind_pure
  throw e := blind_throw (hE e)
  call _ := blind_call
  spawn _ := blind_spawn
  bind := Blind.bind
  recover hp hq := hp.tryCatch fun _ _ _ ↦ hq

end Program

end Interaction
