import NativeKiln.Api.World

/-!
# The login limiter

`rate-limit.service.ts`: one Redis counter for each identifier, counted up by every attempt; the
attempt that saw the count 1 attaches the expiry in a second command.
-/

namespace NativeKiln

open JsString (lit)
open Interaction (Config Event Throughout own)

def MAX_ATTEMPTS : ℕ := 5

/-- 15 minutes. -/
def WINDOW_SECONDS : ℕ := 15 * 60

/-- The window in milliseconds. -/
def WINDOW_MS : ℕ := 1000 * WINDOW_SECONDS

namespace RateLimitService

/-- The Redis key of an identifier. -/
def loginKey (identifier : JsString) : JsString := lit "ratelimit:login:" ++ identifier

/-- The refusal of an attempt. -/
def rateLimited : Exn :=
  .domain ⟨.RATE_LIMITED, lit "Too many login attempts. Try again later.", none⟩

def assertLoginAllowed (identifier : JsString) : Api Unit := do
  let key := loginKey identifier
  let count ← call (.incr key)
  if count = 1 then
    call (.expire key WINDOW_SECONDS)
  if count > MAX_ATTEMPTS then
    throw rateLimited

def clear (identifier : JsString) : Api Unit := call (.del (loginKey identifier))

/-- What an attempt is told that was counted up to `count`. -/
def verdict (count : ℕ) : Except Exn Unit :=
  if count > MAX_ATTEMPTS then .error rateLimited else .ok ()

/-- **The rule of the limiter.** An attempt ends behind its `INCR`, unless it has created the
counter and goes on with the `EXPIRE`. -/
theorem assertLoginAllowed_obeys {identifier : JsString} {G D : List Answered → Op → Prop}
    {Q : List Answered → Except Exn Unit → Prop} {past : List Answered}
    (hincr : G past (.incr (loginKey identifier)))
    (hincrError : ∀ e, Q (past ++ [⟨.incr (loginKey identifier), .error e⟩]) (.error e))
    (hcounted : ∀ count : ℕ, count ≠ 1 →
      Q (past ++ [⟨.incr (loginKey identifier), .ok count⟩]) (verdict count))
    (hexpire : G (past ++ [⟨.incr (loginKey identifier), .ok 1⟩])
      (.expire (loginKey identifier) WINDOW_SECONDS))
    (hexpireError : ∀ e, Q (past ++ [⟨.incr (loginKey identifier), .ok 1⟩] ++
      [⟨.expire (loginKey identifier) WINDOW_SECONDS, .error e⟩]) (.error e))
    (hopened : Q (past ++ [⟨.incr (loginKey identifier), .ok 1⟩] ++
      [⟨.expire (loginKey identifier) WINDOW_SECONDS, .ok ()⟩]) (.ok ())) :
    (assertLoginAllowed identifier).Obeys G D Q past := by
  rw [assertLoginAllowed]
  refine Interaction.Program.obeys_bind.mpr (Interaction.Program.obeys_perform.mpr
    ⟨hincr, fun count ↦ ?_, hincrError⟩)
  refine Interaction.Program.obeys_ite.mpr ⟨?_, fun hne ↦ ?_⟩
  · rintro rfl
    exact Interaction.Program.obeys_bind.mpr (Interaction.Program.obeys_perform.mpr
      ⟨hexpire, fun _ ↦ hopened, hexpireError⟩)
  · have hverdict := hcounted count hne
    rw [verdict] at hverdict
    split at hverdict
    · next hgt => exact Interaction.Program.obeys_ite.mpr ⟨fun _ ↦ hverdict, absurd hgt⟩
    · next hle => exact Interaction.Program.obeys_ite.mpr ⟨fun h ↦ absurd h hle, fun _ ↦ hverdict⟩

end RateLimitService

/-! ## What happens to a counter -/

section Counters

variable {P : Platform} {ι ρ : Type} {body : ι → Api ρ} {key : JsString}

/-- An event, over some calls and results. -/
abbrev WorldEvent (ι ρ : Type) := Event Op Op.Val Exn ι ρ World

/-- The value an event counted `key` up to, if it did. -/
def hit? (key : JsString) (e : WorldEvent ι ρ) : Option ℕ :=
  match e.done with
  | some ⟨.incr k, .ok n⟩ => if k = key then some n else none
  | _ => none

/-- **What an event can do to a counter.** It counts it up, renews its expiry, removes it, or leaves
it alone. -/
inductive CounterStep (key : JsString) (e : WorldEvent ι ρ) : Prop
  | hit (n : ℕ) (hn : hit? key e = some n) (hd : e.done = some ⟨.incr key, .ok n⟩)
    (hcount : n = (World.incremented (e.before.redis key)).count)
    (h : e.after.redis key = some (World.incremented (e.before.redis key)))
  | expire (seconds : ℕ) (hn : hit? key e = none) (hd : e.done = some ⟨.expire key seconds, .ok ()⟩)
    (h : e.after.redis key = (e.before.redis key).bind (World.expiring e.before.clock seconds))
  | del (hn : hit? key e = none) (hd : e.done = some ⟨.del key, .ok ()⟩)
    (h : e.after.redis key = none)
  | other (hn : hit? key e = none) (h : e.after.redis key = e.before.redis key)

/-- What happens in a system happens to each counter in one of these ways. -/
theorem counterStep {e : WorldEvent ι ρ} (h : (system P body).Effect e) (key : JsString) :
    CounterStep key e := by
  match hd : e.done with
  | none => exact .other (by simp [hit?, hd]) (by rw [h.unchanged hd])
  | some ⟨o, r⟩ =>
    obtain ⟨y, hy⟩ := h.exec hd
    change World.exec P y e.before o = some (e.after, r) at hy
    cases o with
    | incr k =>
      simp only [World.exec, Option.some_inj, Prod.mk.injEq] at hy
      obtain ⟨hw, rfl⟩ := hy
      by_cases hk : k = key
      · subst hk
        exact .hit _ (by simp [hit?, hd]) hd rfl (by rw [← hw, World.setCounter_self])
      · exact .other (by simp [hit?, hd, hk]) (by rw [← hw, World.setCounter_of_ne _ (Ne.symm hk)])
    | expire k seconds =>
      simp only [World.exec, Option.some_inj, Prod.mk.injEq] at hy
      obtain ⟨hw, rfl⟩ := hy
      by_cases hk : k = key
      · subst hk
        exact .expire seconds (by simp [hit?, hd]) hd (by rw [← hw, World.setCounter_self])
      · exact .other (by simp [hit?, hd]) (by rw [← hw, World.setCounter_of_ne _ (Ne.symm hk)])
    | del k =>
      simp only [World.exec, Option.some_inj, Prod.mk.injEq] at hy
      obtain ⟨hw, rfl⟩ := hy
      by_cases hk : k = key
      · subst hk
        exact .del (by simp [hit?, hd]) hd (by rw [← hw, World.setCounter_self])
      · exact .other (by simp [hit?, hd]) (by rw [← hw, World.setCounter_of_ne _ (Ne.symm hk)])
    | _ =>
      refine .other (by simp [hit?, hd]) ?_
      rw [World.exec_redis hy (by simp) (by simp) (by simp)]

/-- The event counted the key up to a value that is still admitted. -/
def lightHit (key : JsString) (e : WorldEvent ι ρ) : Bool :=
  match hit? key e with
  | some n => n ≤ MAX_ATTEMPTS
  | none => false

theorem lightHit_of_hit {e : WorldEvent ι ρ} {n : ℕ} (h : hit? key e = some n) :
    lightHit key e = decide (n ≤ MAX_ATTEMPTS) := by rw [lightHit, h]

theorem lightHit_of_not_hit {e : WorldEvent ι ρ} (h : hit? key e = none) :
    lightHit key e = false := by rw [lightHit, h]

/-- The value of a counter; one that does not exist counts as zero. -/
def countOf (c : Option Counter) : ℕ := (c.map Counter.count).getD 0

theorem countOf_incremented (c : Option Counter) :
    (World.incremented c).count = countOf c + 1 := by
  cases c <;> simp [World.incremented, countOf]

/-! ## Between two removals -/

/-- The counter exists. -/
def present (key : JsString) (w : World) : Prop := (w.redis key).isSome

/-- A stretch of events in which the counter is not removed: no event takes it away, nor does it
expire between one event and the next. -/
structure Uninterrupted (key : JsString) (mid : List (WorldEvent ι ρ)) : Prop where
  /-- No event removes the counter. -/
  event : ∀ e ∈ mid, present key e.before → present key e.after
  /-- Between the events the counter does not expire. -/
  between : mid.IsChain fun e e' ↦ present key e.after → present key e'.before

theorem redis_tick {w : World} {d : ℕ} (h : present key (w.tick d)) :
    (w.tick d).redis key = w.redis key := by
  rw [present, World.tick_redis] at h
  rw [World.tick_redis]
  cases hc : w.redis key with
  | none => rfl
  | some c =>
    rw [hc, Option.filter_some] at h
    rw [Option.filter_some]
    split at h
    · next hlive => rw [if_pos hlive]
    · simp at h

theorem redis_passes {w w' : World} (h : (system P body).Passes w w') (hp : present key w') :
    w'.redis key = w.redis key := by
  induction h with
  | refl => rfl
  | tail _ hstep ih =>
    obtain ⟨d, rfl⟩ := hstep
    rw [system_tick] at hp ⊢
    have heq := redis_tick hp
    rw [heq]
    refine ih ?_
    rwa [present, ← heq]

/-- **At most five between two removals.** Along a stretch of events that does not lose the counter,
no more values up to the limit were handed out than the counter shows. -/
theorem countP_lightHit_le {mid : List (WorldEvent ι ρ)}
    (heff : ∀ e ∈ mid, (system P body).Effect e)
    (hpass : mid.IsChain fun e e' ↦ (system P body).Passes e.after e'.before)
    (hun : Uninterrupted key mid) : ∀ e, mid.getLast? = some e →
      mid.countP (lightHit key) ≤ min (countOf (e.after.redis key)) MAX_ATTEMPTS := by
  induction mid using List.reverseRecOn with
  | nil => simp
  | append_singleton mid e ih =>
    intro e' he'
    rw [List.getLast?_concat, Option.some_inj] at he'
    subst he'
    rw [List.isChain_append] at hpass
    have hun' : Uninterrupted key mid :=
      ⟨fun e he ↦ hun.event e (List.mem_append_left _ he), (List.isChain_append.mp hun.between).1⟩
    have hih := ih (fun e he ↦ heff e (List.mem_append_left _ he)) hpass.1 hun'
    -- the count before the event: the last event left it so, or there is none
    have hbefore : mid.countP (lightHit key) ≤ min (countOf (e.before.redis key)) MAX_ATTEMPTS := by
      cases hlast : mid.getLast? with
      | none => simp [List.getLast?_eq_none_iff.mp hlast]
      | some l =>
        have hl := hih l hlast
        have hpasses := hpass.2.2 l (by simpa using hlast) e (by simp)
        by_cases hp : present key e.before
        · rwa [redis_passes hpasses hp]
        · have hnot : ¬present key l.after := fun h ↦
            hp ((List.isChain_append.mp hun.between).2.2 l (by simpa using hlast) e (by simp) h)
          rw [present, Option.not_isSome_iff_eq_none] at hnot
          rw [hnot] at hl
          simp only [countOf, Option.map_none, Option.getD_none] at hl
          omega
    rw [List.countP_append, List.countP_singleton]
    cases counterStep (heff e (by simp)) key with
    | hit n hn hd hcount h =>
      rw [lightHit_of_hit hn, h, hcount]
      simp only [countOf, Option.map_some, Option.getD_some, countOf_incremented] at hbefore ⊢
      split
      · next hle =>
        rw [decide_eq_true_eq] at hle
        omega
      · omega
    | expire seconds hn hd h =>
      have hkeep : countOf (e.after.redis key) = countOf (e.before.redis key) := by
        have hev := hun.event e (by simp)
        rw [present, present, h] at hev
        rw [h]
        cases hc : e.before.redis key with
        | none => rfl
        | some c =>
          rw [hc, Option.bind_some, World.expiring] at hev
          rw [Option.bind_some, World.expiring]
          split
          · rfl
          · next hpos => simp [hpos] at hev
      rw [lightHit_of_not_hit hn, hkeep]
      simpa using hbefore
    | del hn hd h =>
      have hnone : e.before.redis key = none := by
        by_contra hsome
        have := hun.event e (by simp) (Option.isSome_iff_ne_none.mpr hsome)
        simp [present, h] at this
      rw [lightHit_of_not_hit hn, h, ← hnone]
      simpa using hbefore
    | other hn h =>
      rw [lightHit_of_not_hit hn, h]
      simpa using hbefore

/-! ## How long a window lasts

A counter is created by the attempt that counts it up to 1. Whatever `EXPIRE` command reaches it
later, its own or a stray one, sets an expiry a full window after that command, and the command came
no earlier than the creation. -/

/-- Every `EXPIRE` of the key asks for the length of a window. -/
def FullWindows (key : JsString) (tr : List (WorldEvent ι ρ)) : Prop :=
  ∀ e ∈ tr, ∀ seconds, e.done = some ⟨.expire key seconds, .ok ()⟩ → seconds = WINDOW_SECONDS

theorem FullWindows.throughout {tr : List (WorldEvent ι ρ)} (h : FullWindows key tr) :
    Throughout (fun _ e ↦ ∀ seconds, e.done = some ⟨.expire key seconds, .ok ()⟩ →
      seconds = WINDOW_SECONDS) tr :=
  fun pre e post htr ↦ h e (by simp [htr])

/-- The last event that created the counter, and the time since when it exists. -/
def CreatedAt (key : JsString) (tr : List (WorldEvent ι ρ)) (t : ℕ) : Prop :=
  ∃ pre e post, tr = pre ++ e :: post ∧ hit? key e = some 1 ∧
    (∀ e' ∈ post, hit? key e' ≠ some 1) ∧ e.before.clock = t

theorem CreatedAt.concat {tr : List (WorldEvent ι ρ)} {t : ℕ} (h : CreatedAt key tr t)
    {e : WorldEvent ι ρ} (he : hit? key e ≠ some 1) : CreatedAt key (tr ++ [e]) t := by
  obtain ⟨pre, e₀, post, rfl, h₁, hpost, ht⟩ := h
  refine ⟨pre, e₀, post ++ [e], by simp, h₁, fun e' he' ↦ ?_, ht⟩
  rcases List.mem_append.mp he' with he' | he'
  · exact hpost e' he'
  · rwa [List.mem_singleton.mp he']

theorem clock_effect {e : WorldEvent ι ρ} (h : (system P body).Effect e) :
    e.after.clock = e.before.clock := by
  match hd : e.done with
  | none => rw [h.unchanged hd]
  | some ⟨o, r⟩ =>
    obtain ⟨y, hy⟩ := h.exec hd
    exact World.exec_clock hy

theorem clock_le {w₀ : World} {c : Config Op Op.Val Exn ι ρ World}
    (hc : (system P body).Reachable w₀ c) {pre post : List (WorldEvent ι ρ)} {e e' : WorldEvent ι ρ}
    (htr : c.trace = pre ++ e :: post) (he' : e' ∈ pre) : e'.after.clock ≤ e.before.clock :=
  (hc.evolves (R := fun s s' ↦ s.clock ≤ s'.clock) (fun _ ↦ le_rfl) (fun _ _ _ ↦ le_trans)
    (fun s d ↦ by rw [system_tick, World.tick_clock]; omega)
    fun e he ↦ (clock_effect he).ge).2 pre e post htr e' he'

/-- **A window lasts.** A counter that has an expiry keeps it for at least a window from the attempt
that created it. -/
theorem createdAt_of_present {w₀ : World} {c : Config Op Op.Val Exn ι ρ World}
    (hc : (system P body).Reachable w₀ c) (h₀ : w₀.redis key = none)
    (hfull : FullWindows key c.trace) :
    ∀ ctr, c.store.redis key = some ctr → 1 ≤ ctr.count ∧
      ∃ t ≤ c.store.clock, CreatedAt key c.trace t ∧
        ∀ x, ctr.expireAt = some x → t + WINDOW_MS ≤ x := by
  refine hc.invariant (I := fun w tr ↦ ∀ ctr, w.redis key = some ctr → 1 ≤ ctr.count ∧
    ∃ t ≤ w.clock, CreatedAt key tr t ∧ ∀ x, ctr.expireAt = some x → t + WINDOW_MS ≤ x)
    hfull.throughout ?_ ?_ ?_
  · intro ctr hctr
    simp [h₀] at hctr
  · intro w tr d hI ctr hctr
    have hp : present key (w.tick d) := by rw [present, ← system_tick P body, hctr]; rfl
    rw [system_tick, redis_tick hp] at hctr
    obtain ⟨hpos, t, ht, hcreated, hx⟩ := hI ctr hctr
    exact ⟨hpos, t, by rw [system_tick, World.tick_clock]; omega, hcreated, hx⟩
  · intro tr e hI heff hD ctr hctr
    rw [clock_effect heff]
    cases counterStep heff key with
    | hit n hn hd hcount h =>
      rw [h, Option.some_inj] at hctr
      cases hb : e.before.redis key with
      | none =>
        rw [hb] at hctr hcount
        subst hctr
        refine ⟨le_rfl, _, le_rfl, ⟨tr, e, [], by simp, by rw [hn, hcount]; rfl, by simp, rfl⟩, ?_⟩
        simp [World.incremented]
      | some c₀ =>
        rw [hb] at hctr hcount
        subst hctr
        obtain ⟨hpos, t, ht, hcreated, hx⟩ := hI c₀ hb
        refine ⟨by simp [World.incremented], t, ht, hcreated.concat ?_, hx⟩
        rw [hn, hcount]
        simp only [World.incremented, ne_eq, Option.some_inj]
        omega
    | expire seconds hn hd h =>
      obtain ⟨c₀, hb, hexp⟩ := Option.bind_eq_some_iff.mp (h ▸ hctr)
      obtain ⟨hpos, t, ht, hcreated, -⟩ := hI c₀ hb
      rw [World.expiring] at hexp
      split at hexp
      · rw [Option.some_inj] at hexp
        subst hexp
        refine ⟨hpos, t, ht, hcreated.concat (by simp [hn]), fun x hx ↦ ?_⟩
        rw [Option.some_inj] at hx
        rw [← hx, hD seconds hd, WINDOW_MS]
        omega
      · simp at hexp
    | del hn hd h => simp [h] at hctr
    | other hn h =>
      rw [h] at hctr
      obtain ⟨hpos, t, ht, hcreated, hx⟩ := hI ctr hctr
      exact ⟨hpos, t, ht, hcreated.concat (by simp [hn]), hx⟩

/-! ## Any stretch of time as long as a window

A stretch of 900 seconds meets at most two windows. If it meets two, the attempt that opened the
first came before the stretch, so that the stretch has at most four of the first and five of the
second. -/

/-- The event falls into the window's length of time from `t`. -/
def during (t : ℕ) (e : WorldEvent ι ρ) : Bool :=
  t ≤ e.before.clock && e.before.clock < t + WINDOW_MS

/-- The events of a stretch that counted the key up to an admitted value. -/
def lightHits (key : JsString) (t : ℕ) (tr : List (WorldEvent ι ρ)) : ℕ :=
  tr.countP fun e ↦ lightHit key e && during t e

/-- What is known of the events of a stretch while the counter goes through its windows. -/
structure Stretch (key : JsString) (t : ℕ) (w : World) (tr : List (WorldEvent ι ρ)) : Prop where
  /-- There are at most nine. -/
  bound : lightHits key t tr ≤ 9
  /-- There is none before the stretch. -/
  early : w.clock < t → lightHits key t tr = 0
  /-- A counter opened before the stretch leaves out its first attempt; one opened within it found
  at most four. -/
  opened : ∀ ctr, w.redis key = some ctr → 1 ≤ ctr.count ∧ ∃ t₀ ≤ w.clock,
    (∀ x, ctr.expireAt = some x → t₀ + WINDOW_MS ≤ x) ∧
    (t₀ < t → lightHits key t tr ≤ min ctr.count MAX_ATTEMPTS - 1) ∧
    (t₀ < t + WINDOW_MS → lightHits key t tr ≤ 4 + min ctr.count MAX_ATTEMPTS)
  /-- Between two windows there are at most four, as long as the stretch lasts. -/
  closed : w.redis key = none → w.clock < t + WINDOW_MS → lightHits key t tr ≤ 4

theorem lightHits_concat_of_hit {e : WorldEvent ι ρ} {n : ℕ} (hn : hit? key e = some n) (t : ℕ)
    (tr : List (WorldEvent ι ρ)) : lightHits key t (tr ++ [e]) = lightHits key t tr +
      if n ≤ MAX_ATTEMPTS ∧ t ≤ e.before.clock ∧ e.before.clock < t + WINDOW_MS then 1 else 0 := by
  rw [lightHits, lightHits, List.countP_append, List.countP_singleton, lightHit_of_hit hn, during]
  simp only [Bool.and_eq_true, decide_eq_true_eq]

theorem lightHits_concat_of_not_hit {e : WorldEvent ι ρ} (hn : hit? key e = none) (t : ℕ)
    (tr : List (WorldEvent ι ρ)) : lightHits key t (tr ++ [e]) = lightHits key t tr := by
  rw [lightHits, lightHits, List.countP_append, List.countP_singleton, lightHit_of_not_hit hn]
  simp

theorem Stretch.tick {t : ℕ} {w : World} {tr : List (WorldEvent ι ρ)} (h : Stretch key t w tr)
    (d : ℕ) : Stretch key t (w.tick d) tr where
  bound := h.bound
  early := fun hlt ↦ h.early (by rw [World.tick_clock] at hlt; omega)
  opened := by
    intro ctr hctr
    have hp : present key (w.tick d) := by rw [present, hctr]; rfl
    rw [redis_tick hp] at hctr
    obtain ⟨hpos, t₀, ht₀, hrest⟩ := h.opened ctr hctr
    exact ⟨hpos, t₀, by rw [World.tick_clock]; omega, hrest⟩
  closed := by
    intro hnone hlt
    rw [World.tick_clock] at hlt
    rw [World.tick_redis, Option.filter_eq_none_iff] at hnone
    cases hc : w.redis key with
    | none => exact h.closed hc (by omega)
    | some ctr =>
      -- the window that has just closed was opened before the stretch
      obtain ⟨-, t₀, -, hx, hbefore, -⟩ := h.opened ctr hc
      have hdead := hnone ctr hc
      rw [World.live] at hdead
      split at hdead
      · simp at hdead
      · next x hexp =>
        have hlast := hx x hexp
        rw [decide_eq_true_eq] at hdead
        have := hbefore (by omega)
        have : MAX_ATTEMPTS = 5 := rfl
        omega

/-- **The step of the stretch.** An event that does not remove the counter keeps the bounds. -/
theorem Stretch.event {t : ℕ} {e : WorldEvent ι ρ} {tr : List (WorldEvent ι ρ)}
    (h : Stretch key t e.before tr) (heff : (system P body).Effect e)
    (hfull : ∀ seconds, e.done = some ⟨.expire key seconds, .ok ()⟩ → seconds = WINDOW_SECONDS)
    (hdel : e.done ≠ some ⟨.del key, .ok ()⟩) : Stretch key t e.after (tr ++ [e]) := by
  have hclock := clock_effect heff
  have hmax : MAX_ATTEMPTS = 5 := rfl
  have hbound := h.bound
  have hearly := h.early
  cases counterStep heff key with
  | hit n hn hd hcount hafter =>
    have hsum := lightHits_concat_of_hit hn t tr
    cases hb : e.before.redis key with
    | none =>
      -- a new window opens
      have hclosed := h.closed hb
      rw [hb] at hafter hcount
      obtain rfl : n = 1 := hcount
      refine ⟨?_, ?_, fun ctr hctr ↦ ?_, fun hnone ↦ by simp [hafter] at hnone⟩
      · split at hsum <;> omega
      · intro hlt
        split at hsum <;> omega
      · rw [hafter, Option.some_inj] at hctr
        subst hctr
        refine ⟨le_rfl, e.before.clock, hclock.ge, by simp [World.incremented], ?_, ?_⟩
        · intro hlt
          have := hearly hlt
          simp only [World.incremented]
          split at hsum <;> omega
        · intro hlt
          have := hclosed hlt
          simp only [World.incremented]
          split at hsum <;> omega
    | some c₀ =>
      rw [hb] at hafter hcount
      obtain ⟨hpos, t₀, ht₀, hx, hout, hin⟩ := h.opened c₀ hb
      obtain rfl : n = c₀.count + 1 := hcount
      refine ⟨?_, ?_, fun ctr hctr ↦ ?_, fun hnone ↦ by simp [hafter] at hnone⟩
      · split at hsum
        · have := hin (by omega)
          omega
        · omega
      · intro hlt
        split at hsum <;> omega
      · rw [hafter, Option.some_inj] at hctr
        subst hctr
        refine ⟨by simp [World.incremented], t₀, by omega, hx, ?_, ?_⟩
        · intro hlt
          have := hout hlt
          simp only [World.incremented]
          split at hsum <;> omega
        · intro hlt
          have := hin hlt
          simp only [World.incremented]
          split at hsum <;> omega
  | expire seconds hn hd hafter =>
    have hsum := lightHits_concat_of_not_hit hn t tr
    obtain rfl := hfull seconds hd
    refine ⟨by omega, fun hlt ↦ by rw [hsum]; exact hearly (by omega), fun ctr hctr ↦ ?_, ?_⟩
    · obtain ⟨c₀, hb, hexp⟩ := Option.bind_eq_some_iff.mp (hafter ▸ hctr)
      obtain ⟨hpos, t₀, ht₀, -, hout, hin⟩ := h.opened c₀ hb
      rw [World.expiring, if_pos (by decide), Option.some_inj] at hexp
      subst hexp
      refine ⟨hpos, t₀, by omega, fun x hx ↦ ?_, by rwa [hsum], by rwa [hsum]⟩
      rw [Option.some_inj] at hx
      rw [← hx, WINDOW_MS]
      omega
    · intro hnone hlt
      rw [hafter, Option.bind_eq_none_iff] at hnone
      rw [hsum]
      refine h.closed (Option.eq_none_iff_forall_ne_some.mpr fun c₀ hb ↦ ?_) (by omega)
      have := hnone c₀ hb
      simp [World.expiring, WINDOW_SECONDS] at this
  | del hn hd hafter => exact absurd hd hdel
  | other hn hafter =>
    have hsum := lightHits_concat_of_not_hit hn t tr
    refine ⟨by omega, fun hlt ↦ by rw [hsum]; exact hearly (by omega), ?_, ?_⟩
    · intro ctr hctr
      rw [hafter] at hctr
      rw [hsum, hclock]
      exact h.opened ctr hctr
    · intro hnone hlt
      rw [hafter] at hnone
      rw [hsum]
      exact h.closed hnone (by omega)

/-- **At most nine in any stretch of a window's length.** -/
theorem lightHits_le {w₀ : World} {c : Config Op Op.Val Exn ι ρ World}
    (hc : (system P body).Reachable w₀ c) (h₀ : w₀.redis key = none)
    (hfull : FullWindows key c.trace) (hdel : ∀ e ∈ c.trace, e.done ≠ some ⟨.del key, .ok ()⟩)
    (t : ℕ) : lightHits key t c.trace ≤ 9 := by
  have hD : Throughout (fun _ e ↦ (∀ seconds, e.done = some ⟨.expire key seconds, .ok ()⟩ →
      seconds = WINDOW_SECONDS) ∧ e.done ≠ some ⟨.del key, .ok ()⟩) c.trace :=
    hfull.throughout.and fun pre e post htr ↦ hdel e (by simp [htr])
  have hinit : Stretch key t w₀ ([] : List (WorldEvent ι ρ)) :=
    ⟨by simp [lightHits], fun _ ↦ rfl, by simp [h₀], fun _ _ ↦ by simp [lightHits]⟩
  exact (hc.invariant (I := Stretch key t) hD hinit (fun _ _ d h ↦ h.tick d)
    fun _ _ h heff hd ↦ h.event heff hd.1 hd.2).bound

end Counters

/-! ## The limiter under any schedule -/

/-- The calls on one identifier. -/
inductive LimiterCall
  | assertLoginAllowed
  | clear
  deriving DecidableEq

namespace LimiterCall

variable {identifier : JsString}

/-- What a call runs. -/
def body (identifier : JsString) : LimiterCall → Api Unit
  | assertLoginAllowed => RateLimitService.assertLoginAllowed identifier
  | clear => RateLimitService.clear identifier

/-- What a call may do, given what it has done. -/
def Allows (key : JsString) : LimiterCall → List Answered → Op → Prop
  | assertLoginAllowed, past, o =>
    past = [] ∧ o = .incr key ∨ past = [⟨.incr key, .ok 1⟩] ∧ o = .expire key WINDOW_SECONDS
  | clear, past, o => past = [] ∧ o = .del key

/-- A call that admits has counted up to an admitted value. -/
def Ends (key : JsString) : LimiterCall → List Answered → Except Exn Unit → Prop
  | assertLoginAllowed, past, .ok _ =>
    ∃ n ≤ MAX_ATTEMPTS, ∃ rest, past = ⟨.incr key, .ok n⟩ :: rest
  | _, _, _ => True

/-- No call leaves an operation behind. -/
def Detaches : LimiterCall → List Answered → Op → Prop := fun _ _ _ ↦ False

theorem obeys (x : LimiterCall) :
    (body identifier x).Obeys (Allows (RateLimitService.loginKey identifier) x) (Detaches x)
      (Ends (RateLimitService.loginKey identifier) x) [] := by
  cases x with
  | assertLoginAllowed =>
    refine RateLimitService.assertLoginAllowed_obeys (Or.inl ⟨rfl, rfl⟩) (fun _ ↦ trivial)
      (fun count _ ↦ ?_) (Or.inr ⟨rfl, rfl⟩) (fun _ ↦ trivial) ⟨1, by decide, _, rfl⟩
    rw [RateLimitService.verdict]
    split
    · trivial
    · next hle => exact ⟨count, not_lt.mp hle, [], rfl⟩
  | clear => simp [body, RateLimitService.clear, Allows, Ends]

end LimiterCall

/-- The calls on one identifier, in any number and order. -/
def limiter (P : Platform) (identifier : JsString) :
    Interaction.System Op Op.Val Exn LimiterCall Unit Bytes World :=
  system P (LimiterCall.body identifier)

/-- The attempt of thread `i` was admitted. -/
def admits (tr : List (WorldEvent LimiterCall Unit)) (i : ℕ) : Bool :=
  tr.any fun f ↦ f.thread = i && f.call = .assertLoginAllowed && f.returned.isSome

/-- The event is the `INCR` of an attempt that was admitted. -/
def admitted (tr : List (WorldEvent LimiterCall Unit)) (e : WorldEvent LimiterCall Unit) : Bool :=
  match e.action with
  | .perform (.incr _) _ => admits tr e.thread
  | _ => false

theorem admitted_iff {tr : List (WorldEvent LimiterCall Unit)} {e : WorldEvent LimiterCall Unit} :
    admitted tr e ↔ (∃ k r, e.action = .perform (.incr k) r) ∧ admits tr e.thread := by
  rw [admitted]
  split
  · next k r heq => simp [heq]
  · next hne => simpa using fun k r heq ↦ absurd heq (hne k r)

section Limiter

variable {P : Platform} {identifier : JsString} {w₀ : World}
  {c : Config Op Op.Val Exn LimiterCall Unit World}

theorem limiter_orderly (hc : (limiter P identifier).Reachable w₀ c) :
    Interaction.System.Orderly (LimiterCall.Allows (RateLimitService.loginKey identifier))
      LimiterCall.Detaches (LimiterCall.Ends (RateLimitService.loginKey identifier)) c :=
  hc.orderly LimiterCall.obeys

theorem own_eq_nil_of_incr (hc : (limiter P identifier).Reachable w₀ c)
    {pre post : List (WorldEvent LimiterCall Unit)} {e : WorldEvent LimiterCall Unit}
    (htr : c.trace = pre ++ e :: post) {k : JsString} {r : Interaction.Reply Exn (Op.Val (.incr k))}
    (he : e.action = .perform (.incr k) r) : own e.thread pre = [] := by
  have hallows := (limiter_orderly hc).trace pre e post htr
  rw [Interaction.System.Disciplined, he] at hallows
  cases hcall : e.call with
  | assertLoginAllowed =>
    rw [hcall] at hallows
    rcases hallows with ⟨hnil, -⟩ | ⟨-, hkey⟩
    · exact hnil
    · simp at hkey
  | clear =>
    rw [hcall] at hallows
    simp [LimiterCall.Allows] at hallows

/-- An admitted attempt was counted up to an admitted value. -/
theorem incr_of_admits (hc : (limiter P identifier).Reachable w₀ c) {i : ℕ}
    (ha : admits c.trace i) : ∃ e ∈ c.trace, e.thread = i ∧ ∃ n ≤ MAX_ATTEMPTS, e.action =
      .perform (.incr (RateLimitService.loginKey identifier)) (.answered (.ok n)) := by
  rw [admits, List.any_eq_true] at ha
  obtain ⟨f, hf, hfa⟩ := ha
  simp only [Bool.and_eq_true, decide_eq_true_eq, Option.isSome_iff_exists] at hfa
  obtain ⟨⟨hthread, hcall⟩, u, hret⟩ := hfa
  obtain ⟨pre, post, htr⟩ := List.append_of_mem hf
  have hends := (limiter_orderly hc).trace pre f post htr
  rw [Interaction.System.Disciplined, Interaction.Event.action_of_returned hret, hcall,
    hthread] at hends
  obtain ⟨n, hn, rest, hown⟩ := hends
  obtain ⟨e, he, hei, hact⟩ := Interaction.mem_own_ok.mp (hown ▸ List.mem_cons_self)
  exact ⟨e, by simp [htr, he], hei, n, hn, hact⟩

/-- **An admitted attempt has exactly one `INCR`.** -/
theorem countP_admitted (hc : (limiter P identifier).Reachable w₀ c) {i : ℕ}
    (ha : admits c.trace i) :
    c.trace.countP (fun e ↦ e.thread = i && admitted c.trace e) = 1 := by
  obtain ⟨e, he, rfl, n, -, hact⟩ := incr_of_admits hc ha
  obtain ⟨pre, post, htr⟩ := List.append_of_mem he
  -- another `INCR` of the thread would have to be the first thing it does, and so would this one
  have hpre : ∀ e' ∈ pre, ¬(e'.thread = e.thread && admitted c.trace e') := by
    intro e' he' hadm
    rw [Bool.and_eq_true, decide_eq_true_eq] at hadm
    obtain ⟨⟨k, r, heq⟩, -⟩ := admitted_iff.mp hadm.2
    have hseen : (⟨.incr k, r.seen⟩ : Answered) ∈ own e.thread pre :=
      Interaction.mem_own.mpr ⟨e', he', hadm.1, r, heq, rfl⟩
    rw [own_eq_nil_of_incr hc htr hact] at hseen
    exact List.not_mem_nil hseen
  have hpost : ∀ e' ∈ post, ¬(e'.thread = e.thread && admitted c.trace e') := by
    intro e' he' hadm
    rw [Bool.and_eq_true, decide_eq_true_eq] at hadm
    obtain ⟨⟨k, r, heq⟩, -⟩ := admitted_iff.mp hadm.2
    obtain ⟨mid, post', rfl⟩ := List.append_of_mem he'
    have hcut : c.trace = (pre ++ e :: mid) ++ e' :: post' := by simp [htr]
    have hseen : (⟨.incr _, .ok n⟩ : Answered) ∈ own e.thread (pre ++ e :: mid) :=
      Interaction.mem_own_ok.mpr ⟨e, by simp, rfl, hact⟩
    rw [← hadm.1, own_eq_nil_of_incr hc hcut heq] at hseen
    exact List.not_mem_nil hseen
  have hself := admitted_iff.mpr ⟨⟨_, _, hact⟩, ha⟩
  rw [htr] at hpre hpost hself ⊢
  rw [List.countP_append, List.countP_cons_of_pos (by simpa using hself),
    List.countP_eq_zero.mpr hpre, List.countP_eq_zero.mpr hpost]

theorem lightHit_of_admitted (hc : (limiter P identifier).Reachable w₀ c)
    {e : WorldEvent LimiterCall Unit} (he : e ∈ c.trace) (ha : admitted c.trace e) :
    lightHit (RateLimitService.loginKey identifier) e := by
  have hadmits := (admitted_iff.mp ha).2
  obtain ⟨e', he', hthread, n, hn, hact⟩ := incr_of_admits hc hadmits
  -- there is only one
  have hone := countP_admitted hc hadmits
  rw [List.countP_eq_length_filter, List.length_eq_one_iff] at hone
  obtain ⟨e₁, hone⟩ := hone
  have heq : e = e₁ := by
    rw [← List.mem_singleton, ← hone]
    exact List.mem_filter.mpr ⟨he, by simpa using ha⟩
  have heq' : e' = e₁ := by
    rw [← List.mem_singleton, ← hone]
    refine List.mem_filter.mpr ⟨he', ?_⟩
    rw [Bool.and_eq_true, decide_eq_true_eq]
    exact ⟨hthread, admitted_iff.mpr ⟨⟨_, _, hact⟩, hthread ▸ hadmits⟩⟩
  obtain rfl := heq.trans heq'.symm
  have hhit : hit? (RateLimitService.loginKey identifier) e = some n := by
    rw [hit?, Interaction.Event.done_of_answered hact]
    exact if_pos rfl
  rw [lightHit_of_hit hhit]
  exact decide_eq_true hn

/-- Every `EXPIRE` the limiter sends asks for the length of a window. -/
theorem limiter_fullWindows (hc : (limiter P identifier).Reachable w₀ c) (key : JsString) :
    FullWindows key c.trace := by
  intro e he seconds hd
  obtain ⟨past, hallows | hdetaches⟩ := (limiter_orderly hc).allowed he hd
  swap
  · exact hdetaches.elim
  cases hcall : e.call with
  | assertLoginAllowed =>
    rw [hcall] at hallows
    rcases hallows with ⟨-, h⟩ | ⟨-, h⟩
    · simp at h
    · exact (Op.expire.inj h).2
  | clear =>
    rw [hcall] at hallows
    simp [LimiterCall.Allows] at hallows

theorem call_eq_clear_of_del (hc : (limiter P identifier).Reachable w₀ c)
    {e : WorldEvent LimiterCall Unit} (he : e ∈ c.trace) {key : JsString}
    (hd : e.done = some ⟨.del key, .ok ()⟩) : e.call = .clear := by
  obtain ⟨past, hallows | hdetaches⟩ := (limiter_orderly hc).allowed he hd
  swap
  · exact hdetaches.elim
  cases hcall : e.call with
  | assertLoginAllowed =>
    rw [hcall] at hallows
    simp [LimiterCall.Allows] at hallows
  | clear => rfl

theorem expired_of_tick {key : JsString} {w : World} {ctr : Counter} {d : ℕ}
    (h : w.redis key = some ctr) (hgone : (w.tick d).redis key = none) :
    ∃ x, ctr.expireAt = some x ∧ x ≤ w.clock + d := by
  rw [World.tick_redis, h, Option.filter_some] at hgone
  split at hgone
  · simp at hgone
  · next hdead =>
    rw [World.live] at hdead
    split at hdead
    · simp at hdead
    · next x hx => exact ⟨x, hx, by simpa using hdead⟩

/-- **The limiter bounds the attempts.** Under every schedule of calls on one identifier, of their
Redis commands and of their failures: an admitted attempt has exactly one `INCR`, by which it is
counted here; at most five attempts are admitted in a stretch of events that does not lose the
counter; a counter is not lost to its expiry earlier than a window after the attempt that created
it; and without `clear`, in no stretch of time as long as a window more than nine attempts are
admitted. -/
theorem login_bound (P : Platform) (identifier : JsString) (w₀ : World)
    (h₀ : w₀.redis (RateLimitService.loginKey identifier) = none)
    (c : Config Op Op.Val Exn LimiterCall Unit World)
    (hc : (limiter P identifier).Reachable w₀ c) :
    (∀ i, admits c.trace i →
        c.trace.countP (fun e ↦ e.thread = i && admitted c.trace e) = 1) ∧
      (∀ pre mid post, c.trace = pre ++ mid ++ post →
        Uninterrupted (RateLimitService.loginKey identifier) mid →
        mid.countP (admitted c.trace) ≤ MAX_ATTEMPTS) ∧
      (∀ ctr, c.store.redis (RateLimitService.loginKey identifier) = some ctr →
        ∃ t, CreatedAt (RateLimitService.loginKey identifier) c.trace t ∧
          (∀ x, ctr.expireAt = some x → t + WINDOW_MS ≤ x) ∧
          ∀ d, (c.store.tick d).redis (RateLimitService.loginKey identifier) = none →
            t + WINDOW_MS ≤ c.store.clock + d) ∧
      ((∀ e ∈ c.trace, e.call ≠ .clear) →
        ∀ t, c.trace.countP (fun e ↦ admitted c.trace e && during t e) ≤ 9) := by
  refine ⟨fun i hi ↦ countP_admitted hc hi, fun pre mid post htr hun ↦ ?_, fun ctr hctr ↦ ?_,
    fun hclear t ↦ ?_⟩
  · have hsub : ∀ e ∈ mid, e ∈ c.trace := fun e he ↦ by simp [htr, he]
    have hchain := hc.chain.1
    rw [htr, List.append_assoc] at hchain
    have hpass := (List.isChain_append.mp (List.isChain_append.mp hchain).2.1).1
    have heff : ∀ e ∈ mid, (limiter P identifier).Effect e := by
      intro e he
      obtain ⟨pre', post', htr'⟩ := List.append_of_mem (hsub e he)
      exact hc.effects pre' e post' htr'
    refine (List.countP_mono_left fun e he ha ↦ lightHit_of_admitted hc (hsub e he) ha).trans ?_
    cases hlast : mid.getLast? with
    | none => simp [List.getLast?_eq_none_iff.mp hlast]
    | some e => exact (countP_lightHit_le heff hpass hun e hlast).trans (min_le_right _ _)
  · obtain ⟨-, t, -, hcreated, hx⟩ :=
      createdAt_of_present hc h₀ (limiter_fullWindows hc _) ctr hctr
    refine ⟨t, hcreated, hx, fun d hgone ↦ ?_⟩
    obtain ⟨x, hexp, hle⟩ := expired_of_tick hctr hgone
    exact (hx x hexp).trans hle
  · refine (List.countP_mono_left fun e he h ↦ ?_).trans (lightHits_le hc h₀
      (limiter_fullWindows hc _) (fun e he hd ↦ hclear e he (call_eq_clear_of_del hc he hd)) t)
    rw [Bool.and_eq_true] at h ⊢
    exact ⟨lightHit_of_admitted hc he h.1, h.2⟩

theorem login_bound_oneAttempt :
    let c := (limiter samplePlatform (lit "203.0.113.7:admin@example.com")).run
      [.start 0 .assertLoginAllowed, .next 0 [] .none, .tick 500, .next 0 [] .none,
        .next 0 [] .none] sampleWorld
    c.trace.countP (fun e ↦ e.thread = 0 && admitted c.trace e) = 1 ∧
      ∃ t, CreatedAt (RateLimitService.loginKey (lit "203.0.113.7:admin@example.com")) c.trace t ∧
        t + WINDOW_MS ≤ 900500 := by
  intro c
  obtain ⟨hone, -, hwindow, -⟩ := login_bound samplePlatform (lit "203.0.113.7:admin@example.com")
    sampleWorld rfl c (Interaction.System.reachable_run ..)
  obtain ⟨t, ht, hx, -⟩ := hwindow ⟨1, some 900500⟩ (by decide +kernel)
  exact ⟨hone 0 (by decide +kernel), t, ht, hx _ rfl⟩

end Limiter

end NativeKiln
