import Mathlib.Data.List.Destutter

/-!
# Lifecycles

A lifecycle is driven by requested states: a request for the present state changes nothing, a
request along an edge is followed, and any other request is refused and leaves the state as it is.
Requests may be repeated, stale or out of order. Nothing is said here about what the states are.

With adjacent repeats collapsed, the visited states are a path of the edge relation, whatever was
requested; and a list of requests is accepted without a refusal exactly when the list itself
collapses to such a path (`Guard.isChain_collapse_visited`, `Guard.accepted_iff`).

What the paths from the initial state are is described by routes. A route is a complete history; a
history follows a route for a while and then may leave it through an exit, which is a dead end.
Whether the edges are those of a family of routes is a condition on one step at a time
(`Unfolds`); that every path is a history and every history a path follows by induction
(`Unfolds.isChain_iff`).
-/

namespace Interaction

variable {S ε : Type*}

/-! ## Requests -/

/-- The states visited from `s`: a refused request leaves the state as it is. -/
def visited (assert : S → S → Except ε S) : S → List S → List S
  | s, [] => [s]
  | s, r :: rs => s :: visited assert ((assert s r).toOption.getD s) rs

/-- No request is refused. -/
def Accepted (assert : S → S → Except ε S) (s : S) (rs : List S) : Prop :=
  ∃ t, rs.foldlM assert s = .ok t

/-- Adjacent repeats are collapsed. -/
def collapse [DecidableEq S] (l : List S) : List S := l.destutter (· ≠ ·)

/-- The number of changes in a list of visited states. -/
def changes [DecidableEq S] (l : List S) : ℕ := (collapse l).length - 1

/-- A request is followed when it is for the present state or along an edge, and refused
otherwise. -/
structure Guard (assert : S → S → Except ε S) (E : S → S → Prop) : Prop where
  /-- Requests that are followed. -/
  follow : ∀ {s r}, r = s ∨ E s r → assert s r = .ok r
  /-- Requests that are refused. -/
  refuse : ∀ {s r}, ¬(r = s ∨ E s r) → ∃ e, assert s r = .error e
  /-- An edge is a change. -/
  ne : ∀ {s r}, E s r → s ≠ r

/-- An assertion that tests whether a state can follow is a guard, when every state can follow
itself. -/
theorem Guard.of_can {can : S → S → Bool} (refusal : S → S → ε) (hself : ∀ s, can s s) :
    Guard (fun s r ↦ if !can s r then .error (refusal s r) else .ok r)
      fun s r ↦ s ≠ r ∧ can s r where
  follow {s r} h := by
    have hcan : can s r := h.elim (fun h ↦ h ▸ hself s) And.right
    simp [hcan]
  refuse {s r} h := by
    have hcan : can s r = false := by
      by_contra hcan
      refine h (Or.inr ⟨fun heq ↦ h (Or.inl heq.symm), by simpa using hcan⟩)
    exact ⟨refusal s r, by simp [hcan]⟩
  ne h := h.1

section Collapse

variable [DecidableEq S] {E : S → S → Prop} {s t : S} {l : List S}

@[simp] theorem collapse_cons_self : collapse (s :: s :: l) = collapse (s :: l) := by
  rw [collapse, List.destutter_cons_cons, if_neg (not_not.mpr rfl)]
  rfl

theorem collapse_cons_of_ne (h : s ≠ t) : collapse (s :: t :: l) = s :: collapse (t :: l) := by
  rw [collapse, List.destutter_cons_cons, if_pos h]
  rfl

theorem collapse_eq_cons (s : S) (l : List S) : ∃ l', collapse (s :: l) = s :: l' := by
  induction l with
  | nil => exact ⟨[], rfl⟩
  | cons t l ih =>
    by_cases h : s = t
    · rw [← h, collapse_cons_self]
      exact ih
    · exact ⟨_, collapse_cons_of_ne h⟩

@[simp] theorem head?_collapse_cons : (collapse (s :: l)).head? = some s := by
  obtain ⟨l', hl'⟩ := collapse_eq_cons s l
  rw [hl', List.head?_cons]

theorem getLast?_collapse : ∀ l : List S, (collapse l).getLast? = l.getLast?
  | [] => rfl
  | [_] => rfl
  | s :: t :: l => by
    have ih := getLast?_collapse (t :: l)
    by_cases h : s = t
    · rw [← h, collapse_cons_self, h, ih, List.getLast?_cons_cons]
    · obtain ⟨l', hl'⟩ := collapse_eq_cons t l
      rw [collapse_cons_of_ne h, hl', List.getLast?_cons_cons, ← hl', ih, List.getLast?_cons_cons]

theorem mem_collapse : t ∈ collapse l ↔ t ∈ l := by
  induction l with
  | nil => rfl
  | cons s l ih =>
    cases l with
    | nil => rfl
    | cons u l =>
      by_cases h : s = u
      · rw [← h, collapse_cons_self, h, ih]
        simp
      · rw [collapse_cons_of_ne h, List.mem_cons, ih]
        simp

theorem isChain_collapse_cons_cons :
    (collapse (s :: t :: l)).IsChain E ↔
      (t = s ∨ E s t) ∧ (collapse (t :: l)).IsChain E := by
  by_cases h : s = t
  · subst h
    simp
  · obtain ⟨l', hl'⟩ := collapse_eq_cons t l
    rw [collapse_cons_of_ne h, hl', List.isChain_cons_cons]
    simp [Ne.symm h]

end Collapse

section Requests

variable {assert : S → S → Except ε S} {E : S → S → Prop} {s t : S} {l rs : List S}

theorem visited_eq_cons (assert : S → S → Except ε S) (s : S) (rs : List S) :
    ∃ l, visited assert s rs = s :: l := by
  rcases rs with _ | ⟨r, rs⟩
  · exact ⟨[], rfl⟩
  · exact ⟨_, rfl⟩

@[simp] theorem head?_collapse_visited [DecidableEq S] :
    (collapse (visited assert s rs)).head? = some s := by
  obtain ⟨l, hl⟩ := visited_eq_cons assert s rs
  rw [hl, head?_collapse_cons]

theorem accepted_nil : Accepted assert s [] := ⟨s, rfl⟩

theorem exists_visited_of_eq_append {pre post : List S}
    (h : visited assert s rs = pre ++ t :: post) : ∃ rs', visited assert t rs' = t :: post := by
  induction pre generalizing s rs with
  | nil =>
    obtain ⟨l, hl⟩ := visited_eq_cons assert s rs
    obtain ⟨rfl, rfl⟩ := List.cons.inj (hl.symm.trans h)
    exact ⟨rs, hl⟩
  | cons u pre ih =>
    rcases rs with _ | ⟨r, rs⟩
    · simp [visited] at h
    · exact ih (List.cons.inj h).2

theorem visited_take_of_eq_append {pre post : List S} (h : visited assert s rs = pre ++ t :: post) :
    visited assert s (rs.take pre.length) = pre ++ [t] := by
  induction pre generalizing s rs with
  | nil =>
    obtain ⟨l, hl⟩ := visited_eq_cons assert s rs
    obtain ⟨rfl, -⟩ := List.cons.inj (hl.symm.trans h)
    rfl
  | cons u pre ih =>
    rcases rs with _ | ⟨r, rs⟩
    · simp [visited] at h
    · obtain ⟨rfl, htail⟩ := List.cons.inj h
      rw [List.length_cons, List.take_succ_cons, visited, ih htail, List.cons_append]

namespace Guard

variable (g : Guard assert E)
include g

/-- One request: the state stays as it is or moves along an edge. -/
theorem step (s r : S) :
    (assert s r).toOption.getD s = s ∨ E s ((assert s r).toOption.getD s) := by
  by_cases h : r = s ∨ E s r
  · rw [g.follow h]
    exact h
  · obtain ⟨e, he⟩ := g.refuse h
    rw [he]
    exact Or.inl rfl

theorem accepted_cons {r : S} :
    Accepted assert s (r :: rs) ↔ (r = s ∨ E s r) ∧ Accepted assert r rs := by
  rw [Accepted, List.foldlM_cons]
  by_cases h : r = s ∨ E s r
  · rw [g.follow h]
    simp [h, Accepted]
    rfl
  · obtain ⟨e, he⟩ := g.refuse h
    rw [he]
    simp [h]
    rintro t ⟨⟩

theorem visited_deadEnd (hdead : ∀ t, ¬E s t) (rs : List S) :
    ∀ t ∈ visited assert s rs, t = s := by
  induction rs with
  | nil => simp [visited]
  | cons r rs ih =>
    have hstay : (assert s r).toOption.getD s = s := (g.step s r).resolve_right (hdead _)
    intro t ht
    rw [visited, hstay, List.mem_cons] at ht
    exact ht.elim id (ih t)

theorem eq_of_deadEnd {pre post : List S} (hdead : ∀ u, ¬E t u)
    (h : visited assert s rs = pre ++ t :: post) : ∀ u ∈ post, u = t := by
  obtain ⟨rs', hrs'⟩ := exists_visited_of_eq_append h
  intro u hu
  refine g.visited_deadEnd hdead rs' u ?_
  rw [hrs']
  exact List.mem_cons_of_mem t hu

variable [DecidableEq S]

/-- **The visited states form a path**, whatever has been requested. -/
theorem isChain_collapse_visited (s : S) (rs : List S) :
    (collapse (visited assert s rs)).IsChain E := by
  induction rs generalizing s with
  | nil => exact List.isChain_singleton s
  | cons r rs ih =>
    have hrest := ih ((assert s r).toOption.getD s)
    obtain ⟨l, hl⟩ := visited_eq_cons assert ((assert s r).toOption.getD s) rs
    rw [hl] at hrest
    rw [visited, hl]
    exact isChain_collapse_cons_cons.mpr ⟨g.step s r, hrest⟩

/-- **A list of requests is accepted if and only if it collapses to a path.** -/
theorem accepted_iff : Accepted assert s rs ↔ (collapse (s :: rs)).IsChain E := by
  induction rs generalizing s with
  | nil => exact iff_of_true accepted_nil (List.isChain_singleton s)
  | cons r rs ih => rw [g.accepted_cons, isChain_collapse_cons_cons, ih]

end Guard

end Requests

/-! ## Routes -/

/-- A beginning of one of the routes. -/
def OnRoute (routes : List (List S)) (p : List S) : Prop := ∃ ρ ∈ routes, p <+: ρ

instance [DecidableEq S] (routes : List (List S)) (p : List S) : Decidable (OnRoute routes p) :=
  inferInstanceAs (Decidable (∃ ρ ∈ routes, p <+: ρ))

/-- A history: the beginning of a route, and then perhaps one exit, unless a state has been reached
in which the route has ended. -/
def History (routes : List (List S)) (ended exits : S → Prop) (l : List S) : Prop :=
  ∃ p ≠ [], OnRoute routes p ∧
    (l = p ∨ (∀ s ∈ p.getLast?, ¬ended s) ∧ ∃ x, exits x ∧ l = p ++ [x])

/-- The edges are those of the routes and exits: where a beginning of a route has led, the edges go
to the exits, unless the route has ended there, and to the states the beginning can be continued
with. -/
structure Unfolds (E : S → S → Prop) (start : S) (routes : List (List S))
    (ended exits : S → Prop) : Prop where
  /-- Histories start at the initial state. -/
  start : OnRoute routes [start]
  /-- The edges of a state that is reached along a route. -/
  step : ∀ {p s}, OnRoute routes p → p.getLast? = some s →
    ∀ u, E s u ↔ ¬ended s ∧ exits u ∨ OnRoute routes (p ++ [u])
  /-- An exit has no edges. -/
  deadEnd : ∀ {x u}, exits x → ¬E x u

namespace Unfolds

variable {E : S → S → Prop} {start : S} {routes : List (List S)} {ended exits : S → Prop}
  (h : Unfolds E start routes ended exits)
include h

theorem isChain_of_onRoute {p : List S} (hp : OnRoute routes p) : p.IsChain E := by
  induction p using List.reverseRecOn with
  | nil => exact List.isChain_nil
  | append_singleton p u ih =>
    obtain ⟨ρ, hρ, hpre⟩ := hp
    have hp : OnRoute routes p := ⟨ρ, hρ, (List.prefix_append p [u]).trans hpre⟩
    refine List.isChain_append.mpr ⟨ih hp, List.isChain_singleton u, fun s hs v hv ↦ ?_⟩
    obtain rfl : u = v := by simpa using hv
    exact (h.step hp hs u).mpr (Or.inr ⟨ρ, hρ, hpre⟩)

/-- **Paths are histories.** The paths from the initial state are the histories that begin with
it. -/
theorem isChain_iff (l : List S) :
    (start :: l).IsChain E ↔ History routes ended exits (start :: l) := by
  constructor
  · intro hchain
    induction l using List.reverseRecOn with
    | nil => exact ⟨[start], by simp, h.start, Or.inl rfl⟩
    | append_singleton l u ih =>
      rw [← List.cons_append, List.isChain_append] at hchain
      obtain ⟨hl, -, hedge⟩ := hchain
      obtain ⟨p, hne, hp, hlast⟩ := ih hl
      obtain ⟨s, hs⟩ : ∃ s, (start :: l).getLast? = some s :=
        ⟨_, List.getLast?_eq_some_getLast (by simp)⟩
      have hsu : E s u := hedge s hs u rfl
      rcases hlast with heq | ⟨-, x, hx, heq⟩
      · rw [heq] at hs
        rw [← List.cons_append, heq]
        rcases (h.step hp hs u).mp hsu with ⟨hended, hu⟩ | hu
        · refine ⟨p, hne, hp, Or.inr ⟨fun s' hs' ↦ ?_, u, hu, rfl⟩⟩
          rwa [Option.some_inj.mp (hs'.symm.trans hs)]
        · exact ⟨p ++ [u], by simp, hu, Or.inl rfl⟩
      · -- an exit is the last state there is
        rw [heq, List.getLast?_concat, Option.some_inj] at hs
        exact absurd (hs ▸ hsu) (h.deadEnd hx)
  · rintro ⟨p, hne, hp, heq | ⟨hended, x, hx, heq⟩⟩
    · rw [heq]
      exact h.isChain_of_onRoute hp
    · rw [heq]
      refine List.isChain_append.mpr ⟨h.isChain_of_onRoute hp, List.isChain_singleton x, ?_⟩
      intro s hs v hv
      obtain rfl : x = v := by simpa using hv
      exact (h.step hp hs x).mpr (Or.inl ⟨hended s hs, hx⟩)

end Unfolds

end Interaction
