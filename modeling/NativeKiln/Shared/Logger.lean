import NativeKiln.Shared.JsonPath

/-!
# The logger

`createLogger` hands a list of paths to pino, which puts `[REDACTED]` in the place of what it finds
there (`packages/shared/src/logger.ts`). A path without a wildcard is one key of the logged object,
a path that starts with one is a key of the objects directly below; no path goes deeper, except two
for the headers of a request.

A logged object is safe if and only if the list reaches every secret in it, or something that the
secret lies in (`hides_iff`). Deeper down, and one level down for two of the keys, secrets are
written out.
-/

namespace NativeKiln

open JsString (lit)

/-! ## What is handed to pino -/

/-- `REDACT_PATHS`. -/
def REDACT_PATHS : List JsString :=
  [lit "password", lit "*.password", lit "secret", lit "*.secret", lit "token", lit "*.token",
    lit "authorization", lit "*.authorization", lit "req.headers.authorization",
    lit "req.headers.cookie", lit "CREDENTIAL_MASTER_KEY", lit "SESSION_SECRET"]

/-- The options of a logger. The level and the time are written under `level` and `time`. -/
structure LoggerOptions where
  level : JsString
  base : List (JsString × Json)
  paths : List JsString
  censor : JsString

/-- `createLogger` without overrides; `LOG_LEVEL` is the variable of the environment. -/
def createLogger (LOG_LEVEL : Option JsString) (service : JsString) (level : Option JsString) :
    LoggerOptions where
  level := level.getD (LOG_LEVEL.getD (lit "info"))
  base := [(lit "service", .str service)]
  paths := REDACT_PATHS
  censor := lit "[REDACTED]"

/-- A call of a logger, as in `logger.info(object, msg)`. -/
structure LogCall where
  level : JsString
  time : JsString
  object : List (JsString × Json)
  msg : Option JsString

/-- What the logger uses of pino: which calls are written, and the replacement of what is found at
some paths by a text. -/
structure Pino where
  enabled : JsString → JsString → Bool
  redact : List JsString → JsString → List (JsString × Json) → List (JsString × Json)

/-- The record that is written for a call, if there is one. -/
def Pino.write (pino : Pino) (options : LoggerOptions) (call : LogCall) :
    Option (List (JsString × Json)) :=
  if pino.enabled options.level call.level then
    some ([(lit "level", .str call.level), (lit "time", .str call.time)] ++ options.base ++
      pino.redact options.paths options.censor call.object ++
        call.msg.toList.map fun msg ↦ (lit "msg", .str msg))
  else none

/-! ## Paths -/

/-- Keys one by one, where `*` stands for any key. -/
def pathMatches : List JsString → List JsString → Bool
  | [], [] => true
  | s :: path, k :: p => (s = lit "*" || k = s) && pathMatches path p
  | _, _ => false

/-- One of the paths leads to this place. -/
def redacts (paths : List JsString) (p : List JsString) : Bool :=
  paths.any fun path ↦ pathMatches (path.splitOn 46) p

/-- What is documented of pino: a logger writes the calls of its own level, and the paths, as far as
they are written with dots, are looked up from the top of the logged object. -/
structure Pino.Documented (pino : Pino) : Prop where
  enabled : pino.enabled (lit "info") (lit "info")
  redact : ∀ paths censor fields, (∀ path ∈ paths, 91 ∉ path) →
    pino.redact paths censor fields = Json.redactFields (.str censor) (redacts paths) fields

/-- The places that `REDACT_PATHS` leads to. -/
def Reached (p : List JsString) : Prop :=
  (∃ k ∈ [lit "password", lit "secret", lit "token", lit "authorization",
    lit "CREDENTIAL_MASTER_KEY", lit "SESSION_SECRET"], p = [k]) ∨
  (∃ k ∈ [lit "password", lit "secret", lit "token", lit "authorization"], ∃ parent,
    p = [parent, k]) ∨
  ∃ k ∈ [lit "authorization", lit "cookie"], p = [lit "req", lit "headers", k]

theorem redacts_iff {p : List JsString} : redacts REDACT_PATHS p ↔ Reached p := by
  have hpaths : REDACT_PATHS.map (·.splitOn 46) =
      [[lit "password"], [lit "*", lit "password"], [lit "secret"], [lit "*", lit "secret"],
        [lit "token"], [lit "*", lit "token"], [lit "authorization"],
        [lit "*", lit "authorization"], [lit "req", lit "headers", lit "authorization"],
        [lit "req", lit "headers", lit "cookie"], [lit "CREDENTIAL_MASTER_KEY"],
        [lit "SESSION_SECRET"]] := by decide
  have hany : redacts REDACT_PATHS p = (REDACT_PATHS.map (·.splitOn 46)).any (pathMatches · p) := by
    rw [List.any_map]
    rfl
  have hliteral : ∀ s ∈ [lit "password", lit "secret", lit "token", lit "authorization",
      lit "CREDENTIAL_MASTER_KEY", lit "SESSION_SECRET", lit "req", lit "headers", lit "cookie"],
      s ≠ lit "*" := by decide
  simp only [List.forall_mem_cons] at hliteral
  rw [hany, hpaths, Reached]
  rcases p with _ | ⟨a, _ | ⟨b, _ | ⟨c, _ | ⟨d, p⟩⟩⟩⟩
  · simp [pathMatches]
  · simp [pathMatches, hliteral]
  · simp [pathMatches, hliteral]
  · simp [pathMatches, hliteral]
  · simp [pathMatches]

/-! ## Secrets -/

/-- The keys whose values are not to be seen. -/
def SECRET_KEYS : List JsString :=
  [lit "password", lit "secret", lit "token", lit "authorization", lit "CREDENTIAL_MASTER_KEY",
    lit "SESSION_SECRET"]

/-- The path ends in such a key. -/
def isSecret (p : List JsString) : Bool := p.getLast?.any (SECRET_KEYS.contains ·)

theorem ne_nil_of_isSecret {p : List JsString} (h : isSecret p) : p ≠ [] := by
  rintro rfl
  exact absurd h (by decide)

/-- The object without the values under these keys. Objects that differ in such values only have
this in common. -/
def withoutSecrets (o : List (JsString × Json)) : List (JsString × Json) :=
  Json.redactFields .null isSecret o

/-- The record is written for the object, by some logger, in some call. -/
def Pino.Logs (pino : Pino) (o record : List (JsString × Json)) : Prop :=
  ∃ LOG_LEVEL service level call, call.object = o ∧
    pino.write (createLogger LOG_LEVEL service level) call = some record

/-- **What is expected of the loggers**, for one object. -/
structure Pino.Hides (pino : Pino) (o : List (JsString × Json)) : Prop where
  /-- Every secret, or something it lies in, is replaced in the record. -/
  replaced : ∀ record, pino.Logs o record → ∀ p w, (Json.obj o).At p w → isSecret p →
    ∃ q, q ≠ [] ∧ q <+: p ∧ (Json.obj record).At q (.str (lit "[REDACTED]"))
  /-- The record has no other value for a secret key. -/
  shown : ∀ record, pino.Logs o record → ∀ p w, (Json.obj record).At p w → isSecret p →
    w = .str (lit "[REDACTED]")
  /-- An object that differs in secrets only is logged in the same way. -/
  same : ∀ o', withoutSecrets o' = withoutSecrets o → ∀ LOG_LEVEL service level (call : LogCall),
    pino.write (createLogger LOG_LEVEL service level) { call with object := o' } =
      pino.write (createLogger LOG_LEVEL service level) { call with object := o }

section Hides

variable {pino : Pino} {o record : List (JsString × Json)}

theorem bracket_notMem_paths : ∀ path ∈ REDACT_PATHS, 91 ∉ path := by decide

/-- **The record of an object**: what the list leaves of it, and a few texts around it, under keys
that are no secrets. -/
theorem Pino.Documented.logs (h : pino.Documented) (hlogs : pino.Logs o record) :
    ∃ before after, record = before ++
        Json.redactFields (.str (lit "[REDACTED]")) (redacts REDACT_PATHS) o ++ after ∧
      ∀ k v, (k, v) ∈ before ∨ (k, v) ∈ after → ¬isSecret [k] ∧ v.Leaf := by
  obtain ⟨LOG_LEVEL, service, level, call, rfl, hwrite⟩ := hlogs
  rw [Pino.write] at hwrite
  split at hwrite
  · rw [createLogger, h.redact _ _ _ bracket_notMem_paths] at hwrite
    refine ⟨_, _, (Option.some_inj.mp hwrite).symm, fun k v hmem ↦ ?_⟩
    simp only [List.mem_append, List.mem_cons, List.not_mem_nil, or_false, Prod.mk.injEq,
      List.mem_map, Option.mem_toList] at hmem
    obtain ((⟨rfl, rfl⟩ | ⟨rfl, rfl⟩) | ⟨rfl, rfl⟩) | ⟨msg, -, rfl, rfl⟩ := hmem
    · exact ⟨by decide, Json.leaf_str _⟩
    · exact ⟨by decide, Json.leaf_str _⟩
    · exact ⟨by decide, Json.leaf_str _⟩
    · exact ⟨by decide, Json.leaf_str _⟩
  · simp at hwrite

theorem Pino.Hides.covered (hpino : pino.Documented) (h : pino.Hides o) :
    Json.Covered (redacts REDACT_PATHS) isSecret (.obj o) := by
  intro p w hp hne hsecret
  by_contra hbare
  push Not at hbare
  obtain ⟨v, hmask, hdiffers⟩ := hp.exists_leak (.str (lit "[REDACTED]")) .null hne hsecret
    hbare
  -- the other value is an object as well
  rcases v with _ | b | n | s | items | o'
  · simp [Json.redact] at hmask
  · simp [Json.redact] at hmask
  · simp [Json.redact] at hmask
  · simp [Json.redact] at hmask
  · simp [Json.redact] at hmask
  · rw [Json.redact, Json.redact, Json.obj.injEq] at hmask
    have hsame := h.same o' hmask none [] none ⟨lit "info", [], [], none⟩
    refine hdiffers ?_
    rw [Json.redact, Json.redact]
    simpa [Pino.write, createLogger, hpino.enabled, hpino.redact _ _ _ bracket_notMem_paths]
      using hsame

theorem Pino.hides_of_covered (hpino : pino.Documented)
    (h : Json.Covered (redacts REDACT_PATHS) isSecret (.obj o)) : pino.Hides o where
  replaced := by
    intro record hlogs p w hp hsecret
    obtain ⟨before, after, rfl, -⟩ := hpino.logs hlogs
    obtain ⟨q, hqne, hq, hhit⟩ := h p w hp (ne_nil_of_isSecret hsecret) hsecret
    obtain ⟨q', hne', hq', -, hat⟩ := hp.exists_replaced (.str (lit "[REDACTED]")) hqne
      hq hhit
    refine ⟨q', hne', hq', ?_⟩
    rw [Json.redact] at hat
    rcases hat with _ | ⟨hchild, hat⟩
    rcases hchild with _ | ⟨hmem⟩
    exact .child (.field (List.mem_append_left _ (List.mem_append_right _ hmem))) hat
  shown := by
    intro record hlogs p w hp hsecret
    obtain ⟨before, after, rfl, hframe⟩ := hpino.logs hlogs
    rcases hp with _ | @⟨_, v, _, k, p, hchild, hp⟩
    · exact absurd hsecret (by decide)
    · rcases hchild with _ | ⟨hmem⟩
      -- the key is one of the frame, or one of what is left of the object
      have hcases : ((k, v) ∈ before ∨ (k, v) ∈ after) ∨
          (k, v) ∈ Json.redactFields (.str (lit "[REDACTED]")) (redacts REDACT_PATHS) o := by
        simp only [List.mem_append] at hmem
        tauto
      rcases hcases with hmem | hmem
      · obtain ⟨hpublic, hleaf⟩ := hframe k v hmem
        rcases hp with _ | ⟨hchild, -⟩
        · exact absurd hsecret hpublic
        · exact absurd hchild (hleaf _ _)
      · have hat : (Json.redact (.str (lit "[REDACTED]")) (redacts REDACT_PATHS) (.obj o)).At
            (k :: p) w := by
          rw [Json.redact]
          exact .child (.field hmem) hp
        obtain ⟨v', hv', hw | hbare⟩ := hat.of_redact (Json.leaf_str _)
        · exact hw
        · obtain ⟨q, hne, hq, hhit⟩ := h (k :: p) v' hv' (List.cons_ne_nil k p) hsecret
          exact absurd hhit (hbare q hne hq)
  same := by
    intro o' hsame LOG_LEVEL service level call
    have hfields :
        Json.obj (Json.redactFields (.str (lit "[REDACTED]")) (redacts REDACT_PATHS) o') =
          .obj (Json.redactFields (.str (lit "[REDACTED]")) (redacts REDACT_PATHS) o) := by
      have hcongr := Json.redact_congr_of_covered (v := .obj o') (.str (lit "[REDACTED]"))
        Json.leaf_null h (by rw [Json.redact, Json.redact]; exact congrArg Json.obj hsame)
      rwa [Json.redact, Json.redact] at hcongr
    rw [Json.obj.injEq] at hfields
    simp only [Pino.write, createLogger, hpino.redact _ _ _ bracket_notMem_paths, hfields]

/-- **What the loggers hide.** The records of an object show none of its secrets, if and only if
every secret, or something that it lies in, is at a place the list leads to. -/
theorem hides_iff (pino : Pino) (hpino : pino.Documented) (o : List (JsString × Json)) :
    pino.Hides o ↔ ∀ p w, (Json.obj o).At p w → isSecret p → ∃ q, q <+: p ∧ Reached q := by
  constructor
  · intro h p w hp hsecret
    obtain ⟨q, -, hq, hhit⟩ := h.covered hpino p w hp (ne_nil_of_isSecret hsecret) hsecret
    exact ⟨q, hq, redacts_iff.mp hhit⟩
  · intro h
    refine Pino.hides_of_covered hpino fun p w hp _ hsecret ↦ ?_
    obtain ⟨q, hq, hreached⟩ := h p w hp hsecret
    have hhit := redacts_iff.mpr hreached
    refine ⟨q, ?_, hq, hhit⟩
    rintro rfl
    exact absurd hhit (by decide)

end Hides

/-! A secret that the list reaches, and one that it does not. -/

/-- The levels of pino in order. -/
def LEVELS : List JsString :=
  [lit "trace", lit "debug", lit "info", lit "warn", lit "error", lit "fatal"]

/-- Pino, as documented. -/
def samplePino : Pino where
  enabled level call := LEVELS.contains call && LEVELS.idxOf level ≤ LEVELS.idxOf call
  redact paths censor fields := Json.redactFields (.str censor) (redacts paths) fields

theorem samplePino_documented : samplePino.Documented := ⟨by decide, fun _ _ _ _ ↦ rfl⟩

theorem hides_iff_example :
    samplePino.Hides [(lit "user", .obj [(lit "password", .str (lit "hunter2"))])] := by
  refine (hides_iff samplePino samplePino_documented _).mpr fun p w hp hsecret ↦ ?_
  rcases hp with _ | @⟨_, v, _, k, p, hchild, hp⟩
  · exact absurd hsecret (by decide)
  · rcases hchild with _ | ⟨hmem⟩
    obtain ⟨rfl, rfl⟩ := Prod.mk.inj (List.mem_singleton.mp hmem)
    rcases hp with _ | @⟨_, v, _, k, p, hchild, hp⟩
    · exact absurd hsecret (by decide)
    · rcases hchild with _ | ⟨hmem⟩
      obtain ⟨rfl, rfl⟩ := Prod.mk.inj (List.mem_singleton.mp hmem)
      exact ⟨[lit "user", lit "password"], List.prefix_append _ p,
        Or.inr (Or.inl ⟨lit "password", by decide, lit "user", rfl⟩)⟩

/-- Configuration, logged as a field of an object. -/
def startCall : LogCall where
  level := lit "info"
  time := lit "2026-01-01T00:00:00.000Z"
  object := [(lit "config", .obj [(lit "SESSION_SECRET", .str (lit "hunter2"))])]
  msg := some (lit "starting")

/-- What is written for it. -/
def startRecord : List (JsString × Json) :=
  [(lit "level", .str (lit "info")), (lit "time", .str (lit "2026-01-01T00:00:00.000Z")),
    (lit "service", .str (lit "api")),
    (lit "config", .obj [(lit "SESSION_SECRET", .str (lit "hunter2"))]),
    (lit "msg", .str (lit "starting"))]

/-- **A secret in the record**: `SESSION_SECRET` has no path with a wildcard. -/
theorem session_secret_shown :
    samplePino.write (createLogger none (lit "api") none) startCall = some startRecord ∧
      (Json.obj startRecord).At [lit "config", lit "SESSION_SECRET"] (.str (lit "hunter2")) ∧
      ¬∀ pino : Pino, pino.Documented → ∀ o, pino.Hides o := by
  have hwrite : samplePino.write (createLogger none (lit "api") none) startCall =
      some startRecord := by rfl
  have hconfig : (Json.obj startRecord).Child (lit "config")
      (.obj [(lit "SESSION_SECRET", .str (lit "hunter2"))]) := .field (by simp [startRecord])
  have hat : (Json.obj startRecord).At [lit "config", lit "SESSION_SECRET"]
      (.str (lit "hunter2")) :=
    .child hconfig (.child (.field (List.mem_singleton_self _)) .here)
  refine ⟨hwrite, hat, fun h ↦ ?_⟩
  have hshown := (h samplePino samplePino_documented startCall.object).shown startRecord
    ⟨none, lit "api", none, startCall, rfl, hwrite⟩ _ _ hat (by decide)
  exact absurd (Json.str.inj hshown) (by decide)

end NativeKiln
