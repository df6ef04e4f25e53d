import NativeKiln.Api.Seeding

/-!
# What the seed prints

The output of a run is the only place where a generated password can be read, and it is kept by
whatever collects the output. Runs share the user table, may be stopped, and any of their database
operations may fail or lose its answer.

A run creates its user before it prints anything about it, so that what is printed is true, and
stays true: the row is there, and the password that goes with it opens it (`seed_reports`). A
provided password is never printed. The order has a price: when the row is written and the answer is
lost, a generated password is gone.
-/

namespace NativeKiln

open JsString (lit)
open Interaction (Config Event Throughout own own_subset mem_own filterMap_own)
open Interaction.Program (obeys_call_bind obeys_perform)

/-! ## Lines -/

/-- An operation of a run with the reply to it. -/
abbrev SeedAnswer := Interaction.Answer SeedOp SeedOp.Val Exn

/-- The line an operation prints. -/
def SeedOp.line? : SeedAnswer → Option JsString
  | ⟨.log line, _⟩ => some line
  | _ => none

theorem SeedOp.log_of_line? {o : SeedOp} {r : Except Exn o.Val} {line : JsString}
    (h : line? ⟨o, r⟩ = some line) : o = .log line := by
  rcases o with email | n | ⟨options, password⟩ | data | line'
  · simp [line?] at h
  · simp [line?] at h
  · simp [line?] at h
  · simp [line?] at h
  · rw [line?, Option.some_inj] at h
    rw [h]

/-- What has been printed in a history. -/
def printed (past : List SeedAnswer) : List JsString := past.filterMap SeedOp.line?

namespace Seed

/-- The run has found its user. -/
def existsLine (email : JsString) : JsString :=
  lit "[seed] Administrator " ++ email ++ lit " already exists — leaving it unchanged."

/-- The run has created its user. -/
def createdLine (email : JsString) : JsString := lit "[seed] Created administrator: " ++ email

/-- Everything that a run prints about a user it has created. -/
def told (env : SeedEnv) (email password : JsString) : List JsString :=
  createdLine email :: if (trimmed env.ADMIN_PASSWORD).isNone then banner password else []

end Seed

theorem printed_append (past past' : List SeedAnswer) :
    printed (past ++ past') = printed past ++ printed past' := List.filterMap_append

@[simp] theorem printed_log (past : List SeedAnswer) (line : JsString) (r : Except Exn Unit) :
    printed (past ++ [⟨.log line, r⟩]) = printed past ++ [line] := printed_append ..

theorem printed_quiet {o : SeedOp} (h : ∀ line, o ≠ .log line) (past : List SeedAnswer)
    (r : Except Exn o.Val) : printed (past ++ [⟨o, r⟩]) = printed past := by
  rw [printed_append]
  rcases o with email | n | ⟨options, password⟩ | data | line
  · exact List.append_nil _
  · exact List.append_nil _
  · exact List.append_nil _
  · exact List.append_nil _
  · exact absurd rfl (h line)

/-! The eighth letter tells the lines apart. -/

theorem Seed.existsLine_ne (email email' : JsString) : existsLine email ≠ createdLine email' := by
  intro h
  have htake : ∀ rest, (lit "[seed] Administrator " ++ rest).take 8 = lit "[seed] A" := fun _ ↦
    (List.take_append_of_le_length (by decide)).trans (by decide)
  have htake' : (createdLine email').take 8 = lit "[seed] C" :=
    (List.take_append_of_le_length (by decide)).trans (by decide)
  rw [← h, existsLine, List.append_assoc, htake] at htake'
  exact absurd htake' (by decide)

theorem Seed.createdLine_notMem_banner (email password : JsString) :
    createdLine email ∉ banner password := by
  intro h
  have htake : (createdLine email).take 8 = lit "[seed] C" :=
    (List.take_append_of_le_length (by decide)).trans (by decide)
  have hbanner : (banner password).map (·.take 8) =
      [lit "[seed] =", lit "[seed] G", lit "[seed] S", lit "[seed] ="] := by
    have hgenerated : (lit "[seed] Generated admin password (shown once): " ++ password).take 8 =
        lit "[seed] G" := (List.take_append_of_le_length (by decide)).trans (by decide)
    rw [banner, List.map_cons, List.map_cons, hgenerated]
    decide
  have hmem := List.mem_map_of_mem (f := (·.take 8)) h
  rw [htake, hbanner] at hmem
  exact absurd hmem (by decide)

/-! ## What a run prints, by its history -/

/-- The password of the run: the one provided, or the letters of the bytes the run has drawn. -/
def SeedEnv.Chooses (env : SeedEnv) (past : List SeedAnswer) (password : JsString) : Prop :=
  match Seed.trimmed env.ADMIN_PASSWORD with
  | some providedPassword => password = providedPassword
  | none => ∃ bytes, ⟨.randomBytes 18, .ok bytes⟩ ∈ past ∧
    password = Base64.encode .base64url bytes

/-- The run has created an administrator with this address and this password. -/
structure SeedEnv.Created (env : SeedEnv) (past : List SeedAnswer) (email password : JsString) :
    Prop where
  chooses : env.Chooses past password
  row : ∃ data hash, ⟨.argon2Hash ARGON2_OPTIONS password, .ok hash⟩ ∈ past ∧
    ⟨.userCreate data, .ok ()⟩ ∈ past ∧ data.email = email ∧ data.isAdmin = true ∧
      data.passwordHash = hash

/-- The run may print the line now. -/
def SeedEnv.MayPrint (env : SeedEnv) (past : List SeedAnswer) (line : JsString) : Prop :=
  ∃ email, Seed.trimmed env.ADMIN_EMAIL = some email ∧
    ((printed past = [] ∧ line = Seed.existsLine email ∧
        ∃ u, ⟨.userFindUnique email, .ok (some u)⟩ ∈ past) ∨
      ∃ password, env.Created past email password ∧
        printed past ++ [line] <+: Seed.told env email password)

/-- The run has printed what it has to print, or nothing if it has failed. -/
def SeedEnv.Finished (env : SeedEnv) (past : List SeedAnswer) : Except Exn Unit → Prop
  | .ok _ => ∃ email, Seed.trimmed env.ADMIN_EMAIL = some email ∧
    (printed past = [Seed.existsLine email] ∨
      ∃ password, env.Created past email password ∧ printed past = Seed.told env email password)
  | .error _ => printed past = []

/-- Only what may be printed is logged. -/
def SeedEnv.Reports (env : SeedEnv) (past : List SeedAnswer) (o : SeedOp) : Prop :=
  ∀ line, o = .log line → env.MayPrint past line

/-- How a run can end; a line that cannot be printed is not the concern of the run. -/
def SeedEnv.Ends (env : SeedEnv) (past : List SeedAnswer) (result : Except Exn Unit) : Prop :=
  (∃ line e, ⟨.log line, .error e⟩ ∈ past) ∨ env.Finished past result

section History

variable {env : SeedEnv} {past past' : List SeedAnswer} {email password : JsString}

theorem SeedEnv.Chooses.mono (h : env.Chooses past password) (hsub : past ⊆ past') :
    env.Chooses past' password := by
  rw [Chooses] at h ⊢
  split at h
  · exact h
  · obtain ⟨bytes, hbytes, heq⟩ := h
    exact ⟨bytes, hsub hbytes, heq⟩

theorem SeedEnv.Created.mono (h : env.Created past email password) (hsub : past ⊆ past') :
    env.Created past' email password := by
  obtain ⟨data, hash, hhash, hcreate, hdata⟩ := h.row
  exact ⟨h.chooses.mono hsub, data, hash, hsub hhash, hsub hcreate, hdata⟩

theorem reports_quiet {o : SeedOp} (h : ∀ line, o ≠ .log line) : env.Reports past o :=
  fun line hline ↦ absurd hline (h line)

theorem logs_report (lines : List JsString) (hcreated : env.Created past email password)
    (hemail : Seed.trimmed env.ADMIN_EMAIL = some email)
    (hlines : printed past ++ lines = Seed.told env email password) :
    (lines.forM fun line ↦ Seed.call (.log line)).Obeys env.Reports (fun _ _ ↦ False) env.Ends
      past := by
  induction lines generalizing past with
  | nil =>
    rw [List.append_nil] at hlines
    exact Or.inr ⟨email, hemail, Or.inr ⟨password, hcreated, hlines⟩⟩
  | cons line lines ih =>
    refine obeys_call_bind.mpr ⟨?_, fun _ ↦ ?_, fun e ↦ ?_⟩
    · rintro _ ⟨rfl⟩
      refine ⟨email, hemail, Or.inr ⟨password, hcreated, lines, ?_⟩⟩
      rw [List.append_assoc, List.singleton_append, hlines]
    · refine ih (hcreated.mono (List.subset_append_left ..)) ?_
      rw [printed_log, List.append_assoc, List.singleton_append, hlines]
    · exact Or.inl ⟨line, e, by simp⟩

theorem password_reports (hprinted : printed past = []) :
    (Seed.password env).Obeys env.Reports (fun _ _ ↦ False) (fun past' result ↦
      printed past' = [] ∧ ∀ password, result = .ok password → env.Chooses past' password)
      past := by
  rw [Seed.password]
  rcases hprovided : Seed.trimmed env.ADMIN_PASSWORD with _ | providedPassword
  · have hquiet := printed_quiet (o := .randomBytes 18) (by simp) past
    refine obeys_call_bind.mpr ⟨reports_quiet (by simp), fun bytes ↦ ?_, fun e ↦ ?_⟩
    · refine ⟨(hquiet _).trans hprinted, ?_⟩
      rintro _ ⟨rfl⟩
      rw [SeedEnv.Chooses, hprovided]
      exact ⟨bytes, by simp, rfl⟩
    · exact ⟨(hquiet _).trans hprinted, by simp⟩
  · refine ⟨hprinted, ?_⟩
    rintro _ ⟨rfl⟩
    rw [SeedEnv.Chooses, hprovided]

theorem created_reports (hcreated : env.Created past email password)
    (hemail : Seed.trimmed env.ADMIN_EMAIL = some email) (hprinted : printed past = []) :
    (do
      Seed.call (.log (lit "[seed] Created administrator: " ++ email))
      if (Seed.trimmed env.ADMIN_PASSWORD).isNone then
        (Seed.banner password).forM fun line ↦ Seed.call (.log line)).Obeys env.Reports
      (fun _ _ ↦ False) env.Ends past := by
  have hlogs := logs_report (Seed.told env email password) hcreated hemail
    (by rw [hprinted, List.nil_append])
  -- the script prints the banner in a branch of its own, and `told` has all lines in one list
  by_cases hgenerated : (Seed.trimmed env.ADMIN_PASSWORD).isNone
  · rw [Seed.told, if_pos hgenerated] at hlogs
    simp only [if_pos hgenerated]
    exact hlogs
  · rw [Seed.told, if_neg hgenerated] at hlogs
    simp only [if_neg hgenerated]
    exact hlogs

/-- **The discipline of the script**: look, create, and then speak. -/
theorem main_reports (env : SeedEnv) :
    (Seed.main env).Obeys env.Reports (fun _ _ ↦ False) env.Ends [] := by
  rw [Seed.main]
  rcases hemail : Seed.trimmed env.ADMIN_EMAIL with _ | email
  · exact Or.inr rfl
  · refine obeys_call_bind.mpr ⟨reports_quiet (by simp), fun existing ↦ ?_, fun e ↦ Or.inr rfl⟩
    rcases existing with _ | user
    · -- no user: everything up to the creation is quiet
      refine (password_reports rfl).bind (fun past password hchosen ↦ ?_)
        fun past e h ↦ Or.inr h.1
      obtain ⟨hprinted, hchooses⟩ := hchosen
      refine obeys_call_bind.mpr ⟨reports_quiet (by simp), fun hash ↦ ?_,
        fun e ↦ Or.inr ((printed_quiet (by simp) ..).trans hprinted)⟩
      rw [Seed.generateId, Interaction.Program.bind_assoc]
      have hdrawn : ∀ r r', printed
          (past ++ [⟨.argon2Hash ARGON2_OPTIONS password, r⟩] ++ [⟨.randomBytes 22, r'⟩]) = [] := by
        intro r r'
        rw [printed_quiet (by simp), printed_quiet (by simp), hprinted]
      refine obeys_call_bind.mpr ⟨reports_quiet (by simp), fun bytes ↦ ?_,
        fun e ↦ Or.inr (hdrawn ..)⟩
      refine obeys_call_bind.mpr ⟨reports_quiet (by simp), fun _ ↦ ?_,
        fun e ↦ Or.inr ((printed_quiet (by simp) ..).trans (hdrawn ..))⟩
      refine created_reports ⟨(hchooses password rfl).mono (by simp), ?_⟩ hemail
        ((printed_quiet (by simp) ..).trans (hdrawn ..))
      exact ⟨⟨_, email, hash, true, _⟩, hash, by simp, List.mem_append_right _
        (List.mem_singleton_self _), rfl, rfl, rfl⟩
    · refine obeys_perform.mpr ⟨?_, fun _ ↦ ?_, fun e ↦ ?_⟩
      · rintro _ ⟨rfl⟩
        exact ⟨email, hemail, Or.inl ⟨rfl, rfl, user, by simp⟩⟩
      · exact Or.inr ⟨email, hemail, Or.inl rfl⟩
      · exact Or.inl ⟨_, e, List.mem_append_right _ (List.mem_singleton_self _)⟩

end History

/-! ## Runs that share the table -/

/-- What a run has printed is true of the world. -/
inductive Reported (P : Platform) (env : SeedEnv) (past : List SeedAnswer) (w : World) : Prop
  /-- The run has not said anything. -/
  | nothing (hprinted : printed past = [])
  /-- The user was there before. -/
  | found (email : JsString) (hemail : Seed.trimmed env.ADMIN_EMAIL = some email)
    (hprinted : printed past = [Seed.existsLine email]) (hfound : ∃ u ∈ w.users, u.email = email)
  /-- The run has created an administrator, which the address leads to and the password opens. -/
  | created (email password : JsString) (u : User)
    (hemail : Seed.trimmed env.ADMIN_EMAIL = some email) (hpassword : env.Chooses past password)
    (hprinted : printed past <+: Seed.told env email password)
    (hfind : w.users.find? (·.email = email) = some u) (hadmin : u.isAdmin = true)
    (hverifies : P.verifyPassword u.passwordHash password = .ok true)

section Shared

variable {P : Platform} {w w' : World} {i : ℕ}
  {e : Event SeedOp SeedOp.Val Exn SeedEnv Unit World}
  {c : Config SeedOp SeedOp.Val Exn SeedEnv Unit World}

theorem SeedOp.exec_userCreate_ok {y : Bytes} {data : UserData}
    (h : (seedSystem P).exec y w (.userCreate data) = some (w', .ok ())) :
    w'.users = w.users ++ [data.row] ∧ ∀ u ∈ w.users, u.email ≠ data.email := by
  change exec P y w (.userCreate data) = _ at h
  rw [exec] at h
  split at h
  · simp at h
  · next hnew =>
    obtain ⟨rfl, -⟩ := Prod.mk.inj (Option.some_inj.mp h)
    exact ⟨rfl, fun u hu heq ↦ hnew (List.any_eq_true.mpr ⟨u, hu, by simp [heq]⟩)⟩

theorem users_kept (h : (seedSystem P).Reachable w c) :
    (∀ e ∈ c.trace, e.after.users <+: c.store.users) ∧
      Throughout (fun pre e ↦ ∀ e' ∈ pre, e'.after.users <+: e.before.users) c.trace := by
  refine h.evolves (R := fun s s' : World ↦ s.users <+: s'.users) (fun _ ↦ List.prefix_rfl)
    (fun _ _ _ ↦ List.IsPrefix.trans) (fun _ _ ↦ List.prefix_rfl) fun e heff ↦ ?_
  obtain husers | ⟨data, a, -, husers, -⟩ := seed_event heff
  · exact husers ▸ List.prefix_rfl
  · exact husers ▸ List.prefix_append ..

theorem log_ok (h : (seedSystem P).Reachable w c) {line : JsString} {x : Exn} :
    ⟨.log line, .error x⟩ ∉ own i c.trace := by
  intro hmem
  obtain ⟨f, hf, -, r, haction, hseen⟩ := mem_own.mp hmem
  have heff := h.effect hf
  rw [Interaction.System.Effect, haction] at heff
  rcases r with a | x | ⟨a, x⟩
  · obtain ⟨y, hy⟩ := heff
    obtain rfl := (Prod.mk.inj (Option.some_inj.mp hy)).2
    exact absurd hseen (by simp [Interaction.Reply.seen])
  · exact absurd heff.1 Bool.false_ne_true
  · exact absurd heff.1 Bool.false_ne_true

/-- A user that has been created is the one its address leads to, for good. -/
theorem find_of_created (h : (seedSystem P).Reachable w c) {data : UserData}
    (hmem : ⟨.userCreate data, .ok ()⟩ ∈ own i c.trace) :
    c.store.users.find? (·.email = data.email) = some data.row := by
  obtain ⟨f, hf, -, y, hy⟩ := h.exec_of_mem_own hmem
  obtain ⟨husers, hnew⟩ := SeedOp.exec_userCreate_ok hy
  obtain ⟨later, hlater⟩ := (users_kept h).1 f hf
  have hbefore : f.before.users.find? (·.email = data.email) = none :=
    List.find?_eq_none.mpr fun u hu ↦ by simpa using hnew u hu
  have hrow : [data.row].find? (·.email = data.email) = some data.row :=
    List.find?_cons_of_pos (decide_eq_true rfl)
  rw [← hlater, husers, List.find?_append, List.find?_append, hbefore, Option.none_or, hrow,
    Option.some_or]

theorem thread_of_created (h : (seedSystem P).Reachable w c) {j : ℕ} {data data' : UserData}
    (hmem : ⟨.userCreate data, .ok ()⟩ ∈ own i c.trace)
    (hmem' : ⟨.userCreate data', .ok ()⟩ ∈ own j c.trace) (hemail : data.email = data'.email) :
    i = j := by
  obtain ⟨f, hf, rfl, y, hy⟩ := h.exec_of_mem_own hmem
  obtain ⟨f', hf', rfl, y', hy'⟩ := h.exec_of_mem_own hmem'
  obtain ⟨husers, hnew⟩ := SeedOp.exec_userCreate_ok hy
  obtain ⟨husers', hnew'⟩ := SeedOp.exec_userCreate_ok hy'
  obtain ⟨pre, post, htr⟩ := List.append_of_mem hf
  obtain ⟨pre', post', htr'⟩ := List.append_of_mem hf'
  -- the row of the one that comes first is there when the other one comes
  rcases Interaction.mem_or_mem_or_eq htr htr' with hbefore | hbefore | rfl
  · have hsub := ((users_kept h).2 pre f post htr f' hbefore).subset
    exact absurd hemail.symm (hnew data'.row (hsub (by simp [husers'])))
  · have hsub := ((users_kept h).2 pre' f' post' htr' f hbefore).subset
    exact absurd hemail (hnew' data.row (hsub (by simp [husers])))
  · rfl

theorem mayPrint_of_log (h : (seedSystem P).Reachable w c) {line : JsString}
    {r : Interaction.Reply Exn Unit}
    {pre post : List (Event SeedOp SeedOp.Val Exn SeedEnv Unit World)}
    (htr : c.trace = pre ++ e :: post) (ha : e.action = .perform (.log line) r) :
    e.call.MayPrint (own e.thread pre) line := by
  have hdisc := (h.orderly main_reports).trace pre e post htr
  rw [Interaction.System.Disciplined, ha] at hdisc
  exact hdisc line rfl

/-- **What is printed stays true.** -/
theorem reported_of_reachable (h : (seedSystem P).Reachable w c) (he : e ∈ c.trace) :
    Reported P e.call (own e.thread c.trace) c.store := by
  rcases filterMap_own SeedOp.line? e.thread c.trace with
    hnil | ⟨pre, f, post, o, r, line, htr, hthread, haction, hline, hprinted⟩
  · exact .nothing hnil
  obtain rfl := SeedOp.log_of_line? hline
  have hf : f ∈ c.trace := htr ▸ List.mem_append_right pre List.mem_cons_self
  have hpast : own f.thread pre ⊆ own f.thread c.trace := own_subset htr _
  have hcall : f.call = e.call := (h.orderly main_reports).call_eq hf he hthread
  change printed (own e.thread c.trace) = printed (own e.thread pre) ++ [line] at hprinted
  rw [← hthread] at hprinted ⊢
  rw [← hcall]
  -- the answers that allowed the last line were the store's, whose users only grow
  obtain ⟨email, hemail, ⟨hnone, rfl, u, hu⟩ | ⟨password, hcreated, hlines⟩⟩ :=
    mayPrint_of_log h htr haction
  · refine .found email hemail (by rw [hprinted, hnone, List.nil_append]) ?_
    obtain ⟨g, hg, -, y, hy⟩ := h.exec_of_mem_own (hpast hu)
    have hfind : g.before.users.find? (·.email = email) = some u :=
      Except.ok.inj (Prod.mk.inj (Option.some_inj.mp hy)).2
    have hsame : u.email = email := by simpa using List.find?_some hfind
    exact ⟨u, mem_users_of_reachable h hg (List.mem_of_find?_eq_some hfind), hsame⟩
  · obtain ⟨data, hash, hhash, hcreate, rfl, hadmin, rfl⟩ := hcreated.row
    refine .created data.email password data.row hemail (hcreated.chooses.mono hpast)
      (hprinted ▸ hlines) (find_of_created h (hpast hcreate)) hadmin ?_
    obtain ⟨g, -, -, y, hy⟩ := h.exec_of_mem_own (hpast hhash)
    have hdigest : P.hashPassword ARGON2_OPTIONS y password = .ok data.passwordHash :=
      (Prod.mk.inj (Option.some_inj.mp hy)).2
    exact P.verifyPassword_of_hashPassword hdigest

/-- Only a run that has created a user says so. -/
theorem created_of_printed (h : (seedSystem P).Reachable w c) {email : JsString}
    (hline : Seed.createdLine email ∈ printed (own i c.trace)) :
    ∃ data, ⟨.userCreate data, .ok ()⟩ ∈ own i c.trace ∧ data.email = email := by
  obtain ⟨⟨o, r⟩, hmem, hline⟩ := List.mem_filterMap.mp hline
  obtain rfl := SeedOp.log_of_line? hline
  obtain ⟨f, hf, rfl, r', haction, -⟩ := mem_own.mp hmem
  obtain ⟨pre, post, htr⟩ := List.append_of_mem hf
  obtain ⟨email', -, ⟨-, hexists, -⟩ | ⟨password, hcreated, hlines⟩⟩ :=
    mayPrint_of_log h htr haction
  · exact absurd hexists.symm (Seed.existsLine_ne email' email)
  · obtain ⟨data, hash, -, hcreate, rfl, -⟩ := hcreated.row
    refine ⟨data, own_subset htr _ hcreate, ?_⟩
    have htold : Seed.createdLine email ∈ Seed.told f.call data.email password :=
      hlines.subset (List.mem_append_right _ (List.mem_singleton_self _))
    rcases List.mem_cons.mp htold with heq | hbanner
    · exact (List.append_cancel_left heq).symm
    · split at hbanner
      · exact absurd hbanner (Seed.createdLine_notMem_banner email password)
      · simp at hbanner

/-- **What the seed prints.** Take any runs of the seed on one table, whatever fails or is lost.
What a run has printed is true and stays true: the user whose creation it tells is the one that its
address leads to, and has the password of the run. A run that returns has printed all of it, and a
run that fails has printed nothing. No two runs tell the creation of one user. What is printed is
what `main` writes to the standard output; the line that `main().catch` writes to the standard error
when a run fails is not part of it. -/
theorem seed_reports (P : Platform) (w : World)
    (c : Config SeedOp SeedOp.Val Exn SeedEnv Unit World) (h : (seedSystem P).Reachable w c) :
    (∀ e ∈ c.trace, Reported P e.call (own e.thread c.trace) c.store) ∧
      (∀ pre e post result, c.trace = pre ++ e :: post → e.action = .finish result →
        e.call.Finished (own e.thread pre) result) ∧
      ∀ i j email, Seed.createdLine email ∈ printed (own i c.trace) →
        Seed.createdLine email ∈ printed (own j c.trace) → i = j := by
  refine ⟨fun e he ↦ reported_of_reachable h he, fun pre e post result htr ha ↦ ?_,
    fun i j email hi hj ↦ ?_⟩
  · have hdisc := (h.orderly main_reports).trace pre e post htr
    rw [Interaction.System.Disciplined, ha] at hdisc
    rcases hdisc with ⟨line, x, hfailed⟩ | hfinished
    · exact absurd (own_subset htr _ hfailed) (log_ok h)
    · exact hfinished
  · obtain ⟨data, hcreate, rfl⟩ := created_of_printed h hi
    obtain ⟨data', hcreate', hemail⟩ := created_of_printed h hj
    exact thread_of_created h hcreate hcreate' hemail.symm

end Shared

/-- An environment that leaves the password to the run. -/
def generatedEnv : SeedEnv := ⟨some (lit "admin@example.com"), none⟩

/-- Two runs at once: both have looked before either creates its user. -/
def raced : Config SeedOp SeedOp.Val Exn SeedEnv Unit World :=
  (seedSystem samplePlatform).run ([.start 0 generatedEnv, .start 1 generatedEnv,
    .next 0 [] .none, .next 1 [] .none, .next 0 (.replicate 18 0) .none,
    .next 1 (.replicate 18 1) .none, .next 0 (.replicate 16 0) .none,
    .next 1 (.replicate 16 1) .none, .next 0 (.replicate 22 0) .none,
    .next 1 (.replicate 22 1) .none, .next 0 [] .none, .next 1 [] .none, .next 1 [] .none] ++
    .replicate 6 (.next 0 [] .none)) emptyWorld

theorem seed_reports_raced :
    (∀ e ∈ raced.trace, Reported samplePlatform e.call (own e.thread raced.trace) raced.store) ∧
      printed (own 0 raced.trace) = Seed.told generatedEnv (lit "admin@example.com")
        (Base64.encode .base64url (.replicate 18 0)) ∧ printed (own 1 raced.trace) = [] :=
  ⟨(seed_reports samplePlatform emptyWorld raced (Interaction.System.reachable_run ..)).1,
    by decide +kernel, by decide +kernel⟩

/-- The answer to the creation is lost, and the seed is run once more. -/
def untold : Config SeedOp SeedOp.Val Exn SeedEnv Unit World :=
  (seedSystem samplePlatform).run [.start 0 generatedEnv, .next 0 [] .none,
    .next 0 (.replicate 18 0) .none, .next 0 (.replicate 16 0) .none,
    .next 0 (.replicate 22 0) .none,
    .next 0 [] (.lose (World.prismaError "Server has closed the connection")), .next 0 [] .none,
    .start 1 generatedEnv, .next 1 [] .none, .next 1 [] .none, .next 1 [] .none] emptyWorld

/-- There is an administrator, and its password was never printed. -/
example : untold.store.users.map (·.email) = [lit "admin@example.com"] ∧
    printed (own 0 untold.trace) = [] ∧
    printed (own 1 untold.trace) = [Seed.existsLine (lit "admin@example.com")] := by
  decide +kernel

end NativeKiln
