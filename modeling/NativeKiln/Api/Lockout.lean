import NativeKiln.Api.Server

/-!
# Lockout

The attempt that counts a counter up to 1 attaches its expiry in a second command. Between the two
the counter has none; if the second command never comes, it never gets one, and the identifier stays
refused for good once the limit is reached. This module says exactly which mishaps lead there, and
that without them every counter has an expiry no further away than a window whenever no request is
between its two commands.
-/

namespace NativeKiln

open JsString (lit)
open Interaction (Config Event Throughout own)
open Interaction.Program (Asks asks_pure asks_throw asks_ofReply asks_call asks_composable)

/-! ## What a request does to counters -/

/-- The counter a history has just created. -/
def opened? (past : List Answered) : Option JsString :=
  match past.getLast? with
  | some ⟨.incr key, .ok n⟩ => if n = 1 then some key else none
  | _ => none

namespace Opening

/-- After creating a counter a request sends its `EXPIRE`, and nobody else sends one. -/
def Allows (past : List Answered) (o : Op) : Prop :=
  (∀ key, opened? past = some key → o = .expire key WINDOW_SECONDS) ∧
    ∀ key n, o = .expire key n → n = WINDOW_SECONDS ∧ opened? past = some key

/-- Only refreshes are left behind, and no request ends between the two commands. -/
def Detaches (past : List Answered) (o : Op) : Prop :=
  opened? past = none ∧ ∃ id t, o = .sessionUpdate id t

def Ends {α : Type} (past : List Answered) (_ : Except Exn α) : Prop := opened? past = none

/-- The operation neither counts an attempt nor sets an expiry. -/
def Quiet : Op → Prop
  | .incr _ | .expire _ _ => False
  | _ => True

theorem opened?_of_quiet {past : List Answered} {o : Op} {r : Except Exn o.Val} (h : Quiet o) :
    opened? (past ++ [⟨o, r⟩]) = none := by
  rw [opened?, List.getLast?_concat]
  split
  · next heq =>
    obtain ⟨rfl, -⟩ := Sigma.mk.inj (Option.some_inj.mp heq)
    exact h.elim
  · rfl

theorem obeys_of_quiet {α : Type} {p : Api α} (h : Asks Quiet Refresh p) {past : List Answered}
    (hpast : opened? past = none) : p.Obeys Allows Detaches Ends past := by
  refine (h.obeys hpast fun past o r _ ho ↦ opened?_of_quiet ho).imp ?_ ?_ fun _ _ h ↦ h
  · rintro past o ⟨hnone, hquiet⟩
    exact ⟨by simp [hnone], fun key n ho ↦ by simp [ho, Quiet] at hquiet⟩
  · rintro past o ⟨hnone, hrefresh⟩
    cases o with
    | sessionUpdate id t => exact ⟨hnone, id, t, rfl⟩
    | _ => exact hrefresh.elim

/-! ### The quiet parts -/

variable {P : Platform}

theorem quiet_of_ordinary {α : Type} {p : Api α} (h : Asks Ordinary Refresh p) :
    Asks Quiet Refresh p := by
  refine h.mono (fun o ho ↦ ?_) fun _ h ↦ h
  cases o with
  | incr _ | expire _ _ => exact ho.elim
  | _ => trivial

theorem quiet_create (userId : JsString) (info : SessionMeta) :
    Asks Quiet Refresh (SessionService.create P userId info) := by
  refine composed_create asks_composable (fun o ho ↦ ?_) userId info
  cases o with
  | incr _ | expire _ _ => exact ho.elim
  | _ => trivial

theorem quiet_logout (r : Request) : Asks Quiet Refresh (AuthController.logout P r) :=
  composed_logout asks_composable (fun _ ↦ trivial) r

theorem quiet_me (session : Option SessionContext) :
    Asks Quiet Refresh (AuthController.me session) :=
  composed_me asks_composable session

/-! ### The login -/

theorem limiter_obeys {identifier : JsString} {past : List Answered} (hpast : opened? past = none) :
    (RateLimitService.assertLoginAllowed identifier).Obeys Allows Detaches Ends past := by
  have hopened : opened? (past ++ [⟨.incr (RateLimitService.loginKey identifier), .ok 1⟩])
      = some (RateLimitService.loginKey identifier) := by rw [opened?, List.getLast?_concat]; rfl
  have hclosed : ∀ (prior : List Answered) (reply : Except Exn Unit), opened? (prior ++
      [⟨.expire (RateLimitService.loginKey identifier) WINDOW_SECONDS, reply⟩]) = none :=
    fun _ _ ↦ by rw [opened?, List.getLast?_concat]
  refine RateLimitService.assertLoginAllowed_obeys ⟨by simp [hpast], by simp⟩ (fun e ↦ ?_)
    (fun count hne ↦ ?_) ⟨?_, ?_⟩ (fun e ↦ hclosed _ _) (hclosed _ _)
  · rw [Ends, opened?, List.getLast?_concat]
  · rw [Ends, opened?, List.getLast?_concat]
    exact if_neg hne
  · intro key hkey
    rw [Option.some_inj.mp (hkey.symm.trans hopened)]
  · intro key n ho
    obtain ⟨rfl, rfl⟩ := Op.expire.inj ho
    exact ⟨rfl, hopened⟩

/-- Two parts that keep the discipline keep it one after the other. -/
theorem obeys_bind {α β : Type} {p : Api α} {f : α → Api β} {past : List Answered}
    (hp : p.Obeys Allows Detaches Ends past)
    (hf : ∀ a past', opened? past' = none → (f a).Obeys Allows Detaches Ends past') :
    (p >>= f).Obeys Allows Detaches Ends past :=
  hp.bind (fun past' a h ↦ hf a past' h) fun _ _ h ↦ h

theorem login_obeys (body : LoginDto) (r : Request) {past : List Answered}
    (hpast : opened? past = none) :
    (AuthController.login P body r).Obeys Allows Detaches Ends past := by
  refine obeys_bind (limiter_obeys hpast) fun _ past' hpast' ↦ obeys_of_quiet ?_ hpast'
  refine (quiet_of_ordinary (ordinary_verifyCredentials _ _)).bind fun userId ↦
    (asks_call trivial).bind fun _ ↦ (quiet_create _ _).bind fun session ↦ ?_
  exact (quiet_of_ordinary (ordinary_token 24)).bind fun csrfToken ↦ asks_pure

theorem handle_obeys (route : Route) (value : Option Json) (r : Request) :
    (handle P route value r).Obeys Allows Detaches Ends [] := by
  refine obeys_bind (obeys_of_quiet (quiet_of_ordinary (ordinary_authGuard route r)) rfl)
    fun session past h ↦ ?_
  refine obeys_bind (obeys_of_quiet asks_ofReply h) fun _ past h ↦ ?_
  cases route with
  | login =>
    refine obeys_bind (obeys_of_quiet asks_ofReply h) fun body past h ↦ ?_
    have hquiet : Quiet (.handle .login session) := trivial
    exact obeys_bind (obeys_of_quiet (asks_call hquiet) h) fun _ past h ↦ login_obeys body r h
  | logout => exact obeys_of_quiet ((asks_call trivial).bind fun _ ↦ quiet_logout r) h
  | me => exact obeys_of_quiet ((asks_call trivial).bind fun _ ↦ quiet_me session) h
  | liveness => exact obeys_of_quiet ((asks_call trivial).bind fun _ ↦ asks_pure) h
  | readiness => exact obeys_of_quiet ((asks_call trivial).bind fun _ ↦
      quiet_of_ordinary ordinary_readiness) h

/-- **A request keeps the discipline.** -/
theorem serve_obeys (r : Request) : (serve P r).Obeys Allows Detaches Ends [] := by
  have hdispatch : (dispatch P r).Obeys Allows Detaches Ends [] :=
    dispatch_obeys (fun _ ↦ rfl) fun route value _ _ ↦ handle_obeys route value r
  exact serve_obeys_of_dispatch hdispatch rfl (fun _ _ h ↦ h) fun _ _ h ↦ h

end Opening

/-! ## Counters and the requests that look after them -/

/-- Request `i` has created the counter and has yet to send its `EXPIRE`. -/
def BetweenCommands (c : Config Op Op.Val Exn Request Response World) (key : JsString) (i : ℕ) :
    Prop :=
  opened? (own i c.trace) = some key ∧ ∃ x p, c.threads i = some ⟨x, some p⟩

/-- None of the mishaps that leave a counter without its expiry: an answer that is lost after the
counter was created, an `EXPIRE` that is refused, and a request that is stopped between the two
commands. -/
def unharmed (pre : List ApiEvent) (e : ApiEvent) : Bool :=
  match e.action with
  | .perform (.incr _) (.lost (.ok n) _) => n ≠ 1
  | .perform (.expire _ _) (.rejected _) => false
  | .stop => (opened? (own e.thread pre)).isNone
  | _ => true

/-- The counter expires within a window. -/
def ExpiresSoon (w : World) (ctr : Counter) : Prop :=
  ∃ x, ctr.expireAt = some x ∧ w.clock < x ∧ x ≤ w.clock + WINDOW_MS

/-- The counter expires within a window, or some request is about to see to it. -/
def Guarded (key : JsString) (c : Config Op Op.Val Exn Request Response World) : Prop :=
  ∀ ctr, c.store.redis key = some ctr → ExpiresSoon c.store ctr ∨ ∃ i, BetweenCommands c key i

section Guarded

variable {P : Platform} {w₀ : World} {c : Config Op Op.Val Exn Request Response World}
  {key : JsString}

theorem api_orderly (hc : (api P).Reachable w₀ c) :
    Interaction.System.Orderly (fun _ ↦ Opening.Allows) (fun _ ↦ Opening.Detaches)
      (fun _ ↦ Opening.Ends) c :=
  hc.orderly Opening.serve_obeys

theorem BetweenCommands.emit {i j : ℕ} (h : BetweenCommands c key j) (hij : j ≠ i) {x : Request}
    {a : Interaction.Action Op Op.Val Exn Response} {s : World} {code : Option (Api Response)} :
    BetweenCommands (c.emit i x a s code) key j := by
  obtain ⟨hopened, hrunning⟩ := h
  refine ⟨?_, ?_⟩
  · rwa [Config.emit_trace, Interaction.own_concat_of_ne (Ne.symm hij)]
  · rwa [Config.emit_threads, if_neg hij]

theorem Guarded.tick (h : Guarded key c) (d : ℕ) :
    Guarded key { c with store := (api P).tick d c.store } := by
  intro ctr hctr
  change (c.store.tick d).redis key = some ctr at hctr
  rw [World.tick_redis, Option.filter_eq_some_iff] at hctr
  obtain ⟨hold, hlive⟩ := hctr
  refine (h ctr hold).imp_left ?_
  rintro ⟨x, hx, -, hle⟩
  rw [World.live, hx, decide_eq_true_eq] at hlive
  refine ⟨x, hx, hlive, ?_⟩
  change x ≤ c.store.clock + d + WINDOW_MS
  omega

/-- A step of a request that leaves the counter alone, and does not end the request between its two
commands. -/
theorem Guarded.emit_same (h : Guarded key c) {i : ℕ} {x : Request}
    {a : Interaction.Action Op Op.Val Exn Response} {s : World} {code : Option (Api Response)}
    (hnot : opened? (own i c.trace) ≠ some key) (hredis : s.redis key = c.store.redis key)
    (hclock : s.clock = c.store.clock) : Guarded key (c.emit i x a s code) := by
  intro ctr hctr
  rw [Config.emit_store, hredis] at hctr
  rcases h ctr hctr with ⟨x', hx, hlt, hle⟩ | ⟨j, hj⟩
  · exact Or.inl ⟨x', hx, by rwa [Config.emit_store, hclock], by rwa [Config.emit_store, hclock]⟩
  · have hij : j ≠ i := by
      rintro rfl
      exact hnot hj.1
    exact Or.inr ⟨j, hj.emit hij⟩

theorem expireAt_of_expiring {o : Option Counter} {clock : ℕ} {ctr : Counter}
    (h : o.bind (World.expiring clock WINDOW_SECONDS) = some ctr) :
    ctr.expireAt = some (clock + WINDOW_MS) := by
  obtain ⟨c₀, -, hexpiring⟩ := Option.bind_eq_some_iff.mp h
  rw [World.expiring, if_pos (by decide), Option.some_inj] at hexpiring
  rw [← hexpiring]
  rfl

theorem Guarded.perform (h : Guarded key c) {i : ℕ} {x : Request} {o : Op}
    {k : Except Exn o.Val → Api Response} {r : Interaction.Reply Exn o.Val} {s : World}
    (hallows : Opening.Allows (own i c.trace) o) (hr : (api P).Answers c.store o r s)
    (hun : unharmed c.trace ⟨i, x, c.store, .perform o r, s⟩) :
    Guarded key (c.emit i x (.perform o r) s (some (k r.seen))) := by
  have heff : (api P).Effect (⟨i, x, c.store, .perform o r, s⟩ : ApiEvent) := hr
  have hclock : s.clock = c.store.clock := clock_effect heff
  by_cases hopened : opened? (own i c.trace) = some key
  · -- it is the `EXPIRE` that the request owes the counter
    obtain rfl := hallows.1 key hopened
    have hexec : ∃ y a, World.exec P y c.store (.expire key WINDOW_SECONDS) = some (s, a) := by
      cases r with
      | answered a => exact hr.imp fun y hy ↦ ⟨a, hy⟩
      | rejected e => simp [unharmed] at hun
      | lost a e => exact hr.2.imp fun y hy ↦ ⟨a, hy⟩
    obtain ⟨y, a, hy⟩ := hexec
    obtain ⟨hs, -⟩ := Prod.mk.inj (Option.some_inj.mp hy)
    intro ctr hctr
    rw [Config.emit_store, ← hs, World.setCounter_self] at hctr
    refine Or.inl ⟨_, expireAt_of_expiring hctr, ?_, ?_⟩
    · rw [Config.emit_store, hclock]
      exact Nat.lt_add_of_pos_right (by decide)
    · rw [Config.emit_store, hclock]
  · cases counterStep heff key with
    | hit n hn hd hcount hafter =>
      obtain ⟨a, ha, hpair⟩ := Option.map_eq_some_iff.mp hd
      obtain ⟨rfl, ha'⟩ := Sigma.mk.inj hpair
      obtain rfl := eq_of_heq ha'
      intro ctr hctr
      change s.redis key = some (World.incremented (c.store.redis key)) at hafter
      rw [Config.emit_store, hafter, Option.some_inj] at hctr
      cases hold : c.store.redis key with
      | none =>
        -- the counter has just been created, and the request knows it
        rw [hold] at hcount
        obtain rfl : n = 1 := hcount
        cases r with
        | answered a =>
          obtain rfl := Option.some_inj.mp ha
          refine Or.inr ⟨i, ?_, x, _, by rw [Config.emit_threads, if_pos rfl]⟩
          have hown := Interaction.own_concat_perform (e := (⟨i, x, c.store,
            .perform (.incr key) (.answered (.ok 1)), s⟩ : ApiEvent)) rfl c.trace
          change own i _ = _ at hown
          rw [Config.emit_trace, hown]
          simp [opened?, Interaction.Reply.seen]
        | rejected e => simp [Interaction.Reply.effect] at ha
        | lost a e =>
          obtain rfl := Option.some_inj.mp ha
          simp [unharmed] at hun
      | some c₀ =>
        rw [hold] at hctr
        subst hctr
        rcases h c₀ hold with ⟨x', hx, hlt, hle⟩ | ⟨j, hj⟩
        · exact Or.inl ⟨x', hx, by rwa [Config.emit_store, hclock],
            by rwa [Config.emit_store, hclock]⟩
        · have hij : j ≠ i := by
            rintro rfl
            exact hopened hj.1
          exact Or.inr ⟨j, hj.emit hij⟩
    | expire seconds hn hd hafter =>
      obtain ⟨a, -, hpair⟩ := Option.map_eq_some_iff.mp hd
      obtain ⟨rfl, -⟩ := Sigma.mk.inj hpair
      exact absurd (hallows.2 key seconds rfl).2 hopened
    | del hn hd hafter =>
      intro ctr hctr
      change s.redis key = some ctr at hctr
      change s.redis key = none at hafter
      simp [hafter] at hctr
    | other hn hafter => exact h.emit_same hopened hafter hclock

theorem Guarded.background (h : Guarded key c) {q : Interaction.Pending Op Request} {j : ℕ}
    {r : Interaction.Reply Exn q.op.Val} {s : World} (hr : (api P).Answers c.store q.op r s)
    {id : JsString} {t : ℕ} (hop : q.op = .sessionUpdate id t) :
    Guarded key ⟨s, c.threads, c.pending.eraseIdx j,
      c.trace ++ [⟨q.thread, q.call, c.store, .background q.op r, s⟩]⟩ := by
  have heff : (api P).Effect
      (⟨q.thread, q.call, c.store, .background q.op r, s⟩ : ApiEvent) := hr
  have hclock : s.clock = c.store.clock := clock_effect heff
  have hredis : s.redis key = c.store.redis key := by
    have hdone : ∀ {o : Op} {a : Except Exn o.Val}, Interaction.Event.done
        (⟨q.thread, q.call, c.store, .background q.op r, s⟩ : ApiEvent) = some ⟨o, a⟩ →
        o = .sessionUpdate id t := by
      intro o a hd
      obtain ⟨a', -, hpair⟩ := Option.map_eq_some_iff.mp hd
      exact (Sigma.mk.inj hpair).1.symm.trans hop
    cases counterStep heff key with
    | hit n hn hd => exact absurd (hdone hd) (by simp)
    | expire seconds hn hd => exact absurd (hdone hd) (by simp)
    | del hn hd => exact absurd (hdone hd) (by simp)
    | other hn hafter => exact hafter
  intro ctr hctr
  rcases h ctr (hredis ▸ hctr) with ⟨x, hx, hlt, hle⟩ | ⟨i, hopened, hrunning⟩
  · exact Or.inl ⟨x, hx, hclock ▸ hlt, hclock ▸ hle⟩
  · refine Or.inr ⟨i, ?_, hrunning⟩
    rwa [Interaction.own_concat_of_not_perform (by simp)]

/-- **Counters are guarded** in every run without mishaps. -/
theorem guarded (hc : (api P).Reachable w₀ c) (h₀ : w₀.redis key = none)
    (hun : Throughout (fun pre e ↦ unharmed pre e) c.trace) : Guarded key c := by
  induction hc with
  | refl =>
    intro ctr hctr
    simp [Config.initial, h₀] at hctr
  | @tail b _ hb hstep ih =>
    have hord := api_orderly hb
    cases hstep with
    | tick d => exact (ih hun).tick d
    | start i x hi =>
      have hown := Interaction.own_eq_nil (hord.thread_ne hi)
      exact (ih hun.of_append).emit_same (by simp [hown, opened?]) rfl rfl
    | perform i x o k r s hi hr =>
      rw [Config.emit_trace, Interaction.throughout_concat] at hun
      exact (ih hun.1).perform (hord.code i x _ hi).1 hr hun.2
    | detach i x o k hi =>
      have hnone := (hord.code i x _ hi).1.1
      exact (ih hun.of_append).emit_same (by simp [hnone]) rfl rfl
    | background j q r s hj hr =>
      obtain ⟨past, -, -, id, t, hop⟩ := hord.detached (List.mem_of_getElem? hj)
      exact (ih hun.of_append).background hr hop
    | finish i x p r hi hr =>
      have hnone : opened? (own i b.trace) = none := hord.ends hi hr
      exact (ih hun.of_append).emit_same (by simp [hnone]) rfl rfl
    | stop i x p hi =>
      rw [Config.emit_trace, Interaction.throughout_concat] at hun
      have hnone : opened? (own i b.trace) = none := Option.isNone_iff_eq_none.mp hun.2
      exact (ih hun.1).emit_same (by simp [hnone]) rfl rfl

/-! ## The window ends -/

/-- A counter is gone when its time is up. -/
theorem live_of_reachable (hc : (api P).Reachable w₀ c) (h₀ : w₀.redis key = none) :
    ∀ ctr x, c.store.redis key = some ctr → ctr.expireAt = some x → c.store.clock < x := by
  refine hc.invariant (I := fun w _ ↦ ∀ ctr x, w.redis key = some ctr → ctr.expireAt = some x →
    w.clock < x) (fun _ _ _ _ ↦ trivial) (by simp [h₀]) ?_ ?_ (D := fun _ _ ↦ True)
  · intro w _ d _ ctr x hctr hx
    change (w.tick d).redis key = some ctr at hctr
    rw [World.tick_redis, Option.filter_eq_some_iff, World.live, hx, decide_eq_true_eq] at hctr
    exact hctr.2
  · intro _ e hI heff _ ctr x hctr hx
    rw [clock_effect heff]
    cases counterStep heff key with
    | hit n _ _ _ hafter =>
      rw [hafter, Option.some_inj] at hctr
      subst hctr
      cases hold : e.before.redis key with
      | none => simp [hold, World.incremented] at hx
      | some c₀ =>
        rw [hold] at hx
        exact hI c₀ x hold hx
    | expire seconds _ _ hafter =>
      obtain ⟨c₀, -, hexpiring⟩ := Option.bind_eq_some_iff.mp (hafter ▸ hctr)
      rw [World.expiring] at hexpiring
      split at hexpiring
      · rw [Option.some_inj] at hexpiring
        subst hexpiring
        obtain rfl := Option.some_inj.mp hx
        omega
      · simp at hexpiring
    | del _ _ hafter => simp [hafter] at hctr
    | other _ hafter => exact hI ctr x (hafter ▸ hctr) hx

theorem mem_of_opened? {past : List Answered} (h : opened? past = some key) :
    (⟨.incr key, .ok 1⟩ : Answered) ∈ past := by
  rw [opened?] at h
  split at h
  · next heq =>
    split at h
    · next hn =>
      rw [Option.some_inj] at h
      subst hn h
      exact List.mem_of_getLast? heq
    · simp at h
  · simp at h

/-- An `EXPIRE` is sent by a request that has created the counter. -/
theorem expire_owed {c' : Config Op Op.Val Exn Request Response World}
    (hc' : (api P).Reachable w₀ c') (hstep : (api P).Step c c') {e : ApiEvent}
    (htr : c'.trace = c.trace ++ [e]) {seconds : ℕ}
    (hd : e.done = some ⟨.expire key seconds, .ok ()⟩) : BetweenCommands c key e.thread := by
  have hord := api_orderly hc'
  have hdisc := hord.trace c.trace e [] htr
  rw [Interaction.Event.done] at hd
  rw [Interaction.System.Disciplined] at hdisc
  split at hd
  · next o r heq =>
    obtain ⟨a, -, hpair⟩ := Option.map_eq_some_iff.mp hd
    obtain ⟨rfl, -⟩ := Sigma.mk.inj hpair
    obtain ⟨k, hk⟩ := hstep.thread_of_perform htr heq
    rw [heq] at hdisc
    exact ⟨(hdisc.2 key seconds rfl).2, _, _, hk⟩
  · next o r heq =>
    -- an `EXPIRE` is never left behind
    obtain ⟨a, -, hpair⟩ := Option.map_eq_some_iff.mp hd
    obtain ⟨rfl, -⟩ := Sigma.mk.inj hpair
    rw [heq] at hdisc
    obtain ⟨e', he', -, -, hdet⟩ := hdisc
    obtain ⟨pre, post, hpre⟩ := List.append_of_mem he'
    have hdisc' := hord.trace pre e' (post ++ [e]) (by rw [htr, hpre]; simp)
    rw [Interaction.System.Disciplined, hdet] at hdisc'
    obtain ⟨-, id, t, hop⟩ := hdisc'
    simp at hop
  · simp at hd

/-- A request that is between its commands now, and was not before, has created the counter
since. -/
theorem hit_of_between (hc : (api P).Reachable w₀ c) (hidle : ∀ i, ¬BetweenCommands c key i)
    {c' : Config Op Op.Val Exn Request Response World}
    (h : Relation.ReflTransGen (api P).Step c c') {new : List ApiEvent}
    (htr : c'.trace = c.trace ++ new) {i : ℕ} (hi : BetweenCommands c' key i) :
    ∃ e ∈ new, hit? key e = some 1 := by
  obtain ⟨hopened, x, p, hrunning⟩ := hi
  rw [htr, Interaction.own_append] at hopened
  rcases eq_or_ne (own i new) [] with hnil | hne
  · rw [hnil, List.append_nil] at hopened
    -- the request has done nothing since, but it was already there
    obtain ⟨e, he, hthread, -⟩ := Interaction.mem_own_ok.mp (mem_of_opened? hopened)
    obtain ⟨code, hcode⟩ := (api_orderly hc).thread e he
    rw [hthread] at hcode
    cases code with
    | none => simp [Interaction.System.over_of_steps h hcode] at hrunning
    | some p' => exact absurd ⟨hopened, _, p', hcode⟩ (hidle i)
  · rw [opened?, List.getLast?_append_of_ne_nil _ hne, ← opened?] at hopened
    obtain ⟨e, he, -, ha⟩ := Interaction.mem_own_ok.mp (mem_of_opened? hopened)
    exact ⟨e, he, by simp [hit?, Interaction.Event.done, ha, Interaction.Reply.effect]⟩

/-- After a state in which no request is between its commands, a counter keeps its expiry for as
long as it is not created anew. -/
theorem renewed_or_soon (hc : (api P).Reachable w₀ c)
    (hidle : ∀ i, ¬BetweenCommands c key i) {t : ℕ}
    (hsoon : ∀ ctr, c.store.redis key = some ctr → ∃ x ≤ t, ctr.expireAt = some x)
    {c' : Config Op Op.Val Exn Request Response World}
    (h : Relation.ReflTransGen (api P).Step c c') :
    ∃ new, c'.trace = c.trace ++ new ∧ ((∃ e ∈ new, hit? key e = some 1) ∨
      ∀ ctr, c'.store.redis key = some ctr → ∃ x ≤ t, ctr.expireAt = some x) := by
  induction h with
  | refl => exact ⟨[], by simp, Or.inr hsoon⟩
  | @tail b c' hb hstep ih =>
    obtain ⟨new, htr, hnew⟩ := ih
    have hreach : (api P).Reachable w₀ c' := (hc.trans hb).tail hstep
    rcases hstep.event with ⟨htr', d, hstore⟩ | ⟨e, htr', hbefore, hafter, heff⟩
    · refine ⟨new, by rw [htr', htr], hnew.imp_right fun h ctr hctr ↦ h ctr ?_⟩
      rw [hstore] at hctr
      change (b.store.tick d).redis key = some ctr at hctr
      rw [World.tick_redis, Option.filter_eq_some_iff] at hctr
      exact hctr.1
    · refine ⟨new ++ [e], by rw [htr', htr, List.append_assoc], ?_⟩
      rcases hnew with ⟨e', he', hhit⟩ | hnew
      · exact Or.inl ⟨e', List.mem_append_left _ he', hhit⟩
      rw [← hbefore] at hnew
      rw [← hafter]
      cases counterStep heff key with
      | hit n hn _ hcount hredis =>
        cases hold : e.before.redis key with
        | none =>
          rw [hold] at hcount
          exact Or.inl ⟨e, by simp, by rw [hn, hcount]; rfl⟩
        | some c₀ =>
          refine Or.inr fun ctr hctr ↦ ?_
          rw [hredis, hold, Option.some_inj] at hctr
          subst hctr
          exact hnew c₀ hold
      | expire seconds _ hd hredis =>
        obtain ⟨e', he', hhit⟩ := hit_of_between hc hidle hb htr (expire_owed hreach hstep htr' hd)
        exact Or.inl ⟨e', List.mem_append_left _ he', hhit⟩
      | del _ _ hredis => exact Or.inr fun ctr hctr ↦ by simp [hredis] at hctr
      | other _ hredis => exact Or.inr fun ctr hctr ↦ hnew ctr (hredis ▸ hctr)

/-- **No lockout.** In every run without mishaps, in every state in which no request is between its
`INCR` and its `EXPIRE` for an identifier, the counter of the identifier expires within a window;
and however many attempts follow, once a window has gone by the counter has expired, so that one
found later was created anew. -/
theorem no_lockout (P : Platform) (identifier : JsString) (w₀ : World)
    (h₀ : w₀.redis (RateLimitService.loginKey identifier) = none)
    (c : Config Op Op.Val Exn Request Response World) (hc : (api P).Reachable w₀ c)
    (hun : Throughout (fun pre e ↦ unharmed pre e) c.trace)
    (hidle : ∀ i, ¬BetweenCommands c (RateLimitService.loginKey identifier) i) :
    (∀ ctr, c.store.redis (RateLimitService.loginKey identifier) = some ctr →
        ∃ x, ctr.expireAt = some x ∧ c.store.clock < x ∧ x ≤ c.store.clock + WINDOW_MS) ∧
      ∀ c', Relation.ReflTransGen (api P).Step c c' →
        c.store.clock + WINDOW_MS ≤ c'.store.clock →
        ∀ ctr, c'.store.redis (RateLimitService.loginKey identifier) = some ctr →
          ∃ new, c'.trace = c.trace ++ new ∧
            ∃ e ∈ new, hit? (RateLimitService.loginKey identifier) e = some 1 := by
  have hsoon : ∀ ctr, c.store.redis (RateLimitService.loginKey identifier) = some ctr →
      ExpiresSoon c.store ctr := fun ctr hctr ↦
    (guarded hc h₀ hun ctr hctr).resolve_right fun ⟨i, hi⟩ ↦ hidle i hi
  refine ⟨hsoon, fun c' hsteps hclock ctr hctr ↦ ?_⟩
  obtain ⟨new, htr, hnew⟩ := renewed_or_soon hc hidle
    (fun ctr hctr ↦ (hsoon ctr hctr).imp fun x hx ↦ ⟨hx.2.2, hx.1⟩) hsteps
  refine ⟨new, htr, hnew.resolve_right fun hold ↦ ?_⟩
  obtain ⟨x, hle, hx⟩ := hold ctr hctr
  have hlive := live_of_reachable (hc.trans hsteps) h₀ ctr x hctr hx
  omega

end Guarded

/-! A login attempt is cut short after its `INCR`, or after its `EXPIRE`. -/

/-- The key the attempts are counted under. -/
def nobodyKey : JsString := RateLimitService.loginKey (lit "203.0.113.7:nobody@example.com")

/-- An attempt that performs `n` operations and is stopped. -/
def stoppedAfter (n : ℕ) : Config Op Op.Val Exn Request Response World :=
  (api samplePlatform).run
    ([.start 0 (loginRequest (lit "nobody@example.com") (lit "wrong"))] ++
      .replicate n (.next 0 [] .none) ++ [.stop 0]) sampleWorld

theorem stoppedAfter_idle {n : ℕ} (h : (stoppedAfter n).trace.all (·.thread = 0))
    (h₀ : ((stoppedAfter n).threads 0).any (·.code.isNone)) (key : JsString) (i : ℕ) :
    ¬BetweenCommands (stoppedAfter n) key i := by
  rintro ⟨hopened, x, p, hrunning⟩
  rcases eq_or_ne i 0 with rfl | hi
  · simp [hrunning] at h₀
  · rw [Interaction.own_eq_nil] at hopened
    · simp [opened?] at hopened
    · intro e he heq
      have := List.all_eq_true.mp h e he
      simp only [decide_eq_true_eq] at this
      exact hi (heq.symm.trans this)

theorem no_lockout_stoppedAfter :
    (stoppedAfter 3).store.redis nobodyKey = some ⟨1, some 900000⟩ ∧
      900000 ≤ (stoppedAfter 3).store.clock + WINDOW_MS := by
  have hctr : (stoppedAfter 3).store.redis nobodyKey = some ⟨1, some 900000⟩ := by decide +kernel
  have h := no_lockout samplePlatform (lit "203.0.113.7:nobody@example.com") sampleWorld rfl
    (stoppedAfter 3) (Interaction.System.reachable_run ..) (by decide +kernel)
    (stoppedAfter_idle (by decide +kernel) (by decide +kernel) _)
  obtain ⟨x, hx, -, hle⟩ := h.1 _ hctr
  exact ⟨hctr, (Option.some_inj.mp hx).trans_le hle⟩

/-- **A request that stops between its commands locks the identifier out for good**: no request is
between its commands, and the counter has no expiry; it outlasts any stretch of time. -/
theorem stopped_between :
    (api samplePlatform).Reachable sampleWorld (stoppedAfter 2) ∧
      (∀ i, ¬BetweenCommands (stoppedAfter 2) nobodyKey i) ∧
      (¬∀ ctr, (stoppedAfter 2).store.redis nobodyKey = some ctr →
        ∃ x, ctr.expireAt = some x ∧ x ≤ (stoppedAfter 2).store.clock + WINDOW_MS) ∧
      ∀ d, ((stoppedAfter 2).store.tick d).redis nobodyKey = some ⟨1, none⟩ := by
  have hctr : (stoppedAfter 2).store.redis nobodyKey = some ⟨1, none⟩ := by decide +kernel
  refine ⟨Interaction.System.reachable_run .., stoppedAfter_idle (by decide +kernel)
    (by decide +kernel) _, fun h ↦ ?_, fun d ↦ ?_⟩
  · obtain ⟨x, hx, -⟩ := h _ hctr
    simp at hx
  · rw [World.tick_redis, hctr]
    rfl

end NativeKiln
