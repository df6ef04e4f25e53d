import NativeKiln.Config.Zod
import NativeKiln.Credentials.Cipher
import Mathlib.Algebra.Order.BigOperators.Group.List
import Mathlib.Data.List.Induction
import Mathlib.Data.List.Sort

/-!
# Configuration

`packages/config/src`: the environment schema in groups (`schema.ts`), and `loadConfig`, which
validates an environment against the groups a service has merged and reports what is wrong with it
(`index.ts`). Validation is never to echo a value, only key names.

What the report depends on is compared with which steps fail (`failures`). It is the same for all
environments that fail the same steps if and only if no enumeration has been given a string it does
not contain: the default message of an enumeration quotes the string (`report_iff`).
-/

namespace NativeKiln

open JsString (lit)
open Zod

/-! ## The groups -/

/-- `z.enum(['true', 'false', '1', '0'])`, read as a Boolean. -/
def booleanFromString : Schema :=
  .transform (.enum [lit "true", lit "false", lit "1", lit "0"]) fun v ↦
    match v with
    | .string s => .boolean (s = lit "true" ∨ s = lit "1")
    | v => v

def port : Schema := .number [.int, .min 1 true, .max 65535 true]

/-- 64 hex chars == 32 bytes == AES-256 key. -/
def hex32 : Schema :=
  .string [.regex isHexKey (some (lit "must be 64 hex characters (32 bytes)"))]

/-- `z.string().min(1)`. -/
def nonEmpty : Schema := .string [.min 1 none]

/-- `.positive()`. -/
def positive : NumberCheck := .min 0 false

def runtimeSchema : ObjectSchema where
  shape := [
    (lit "NODE_ENV", .default (.enum [lit "development", lit "test", lit "production"])
      (.string (lit "development"))),
    (lit "LOG_LEVEL", .default (.enum [lit "fatal", lit "error", lit "warn", lit "info",
      lit "debug", lit "trace"]) (.string (lit "info"))),
    (lit "APP_BASE_URL", .string [.url]),
    (lit "API_BASE_URL", .string [.url]),
    (lit "API_PORT", .default port (.number 4000)),
    (lit "WEB_PORT", .default port (.number 3000))]
  nodup := by decide

def databaseSchema : ObjectSchema where
  shape := [(lit "DATABASE_URL", nonEmpty)]
  nodup := by decide

def redisSchema : ObjectSchema where
  shape := [(lit "REDIS_URL", nonEmpty)]
  nodup := by decide

def securitySchema : ObjectSchema where
  shape := [
    (lit "SESSION_SECRET", .string [.min 32 (some (lit "must be at least 32 characters"))]),
    (lit "CREDENTIAL_MASTER_KEY", hex32),
    (lit "CREDENTIAL_KEY_VERSION", .default (.number [.int, positive]) (.number 1))]
  nodup := by decide

/-- S3-compatible object storage: a single bucket, partitioned by prefix. -/
def storageSchema : ObjectSchema where
  shape := [
    (lit "S3_BUCKET", nonEmpty),
    (lit "S3_REGION", .default nonEmpty (.string (lit "auto"))),
    (lit "S3_ENDPOINT_URL", .optional (.string [.url])),
    (lit "S3_ACCESS_KEY_ID", nonEmpty),
    (lit "S3_SECRET_ACCESS_KEY", nonEmpty),
    (lit "S3_FORCE_PATH_STYLE", .default booleanFromString (.string (lit "true"))),
    (lit "S3_PREFIX_ARTIFACTS", .default (.string []) (.string (lit "artifacts/"))),
    (lit "S3_PREFIX_LOGS", .default (.string []) (.string (lit "logs/"))),
    (lit "S3_PREFIX_SOURCES", .default (.string []) (.string (lit "sources/")))]
  nodup := by decide

def androidSchema : ObjectSchema where
  shape := [
    (lit "ANDROID_BUILD_CONCURRENCY",
      .default (.number [.int, .min 1 true, .max 16 true]) (.number 2)),
    (lit "ANDROID_BUILD_MEMORY", .default nonEmpty (.string (lit "6g"))),
    (lit "ANDROID_BUILD_CPUS", .default nonEmpty (.string (lit "2"))),
    (lit "ANDROID_BUILD_TIMEOUT_SECONDS", .default (.number [.int, positive]) (.number 3600)),
    (lit "ANDROID_BUILD_IMAGE",
      .default nonEmpty (.string (lit "native-kiln/expo-android:latest")))]
  nodup := by decide

def retentionSchema : ObjectSchema where
  shape := [(lit "ARTIFACT_RETENTION_DAYS", .default (.number [.int, .min 1 true]) (.number 30))]
  nodup := by decide

def runnerManagerSchema : ObjectSchema where
  shape := [
    (lit "RUNNER_MANAGER_PORT", .default port (.number 4100)),
    (lit "DISK_USAGE_LIMIT_PERCENT",
      .default (.number [.int, .min 1 true, .max 100 true]) (.number 90))]
  nodup := by decide

/-- The groups a service can merge. -/
inductive SchemaGroup
  | runtime
  | database
  | redis
  | security
  | storage
  | android
  | retention
  | runnerManager
  deriving DecidableEq, Repr

def SchemaGroup.schema : SchemaGroup → ObjectSchema
  | runtime => runtimeSchema
  | database => databaseSchema
  | redis => redisSchema
  | security => securitySchema
  | storage => storageSchema
  | android => androidSchema
  | retention => retentionSchema
  | runnerManager => runnerManagerSchema

/-- The schema of a service: one group after another, merged. -/
def serviceSchema (groups : List SchemaGroup) : ObjectSchema :=
  (groups.map SchemaGroup.schema).foldl ObjectSchema.merge ⟨[], List.nodup_nil⟩

/-- Full schema — the union of every group. -/
def fullSchema : ObjectSchema :=
  serviceSchema [.runtime, .database, .redis, .security, .storage, .android, .retention,
    .runnerManager]

/-! ## Loading -/

/-- `issue.path.join('.')`. -/
def joinPath (path : List JsString) : JsString := (lit ".").intercalate path

/-- The line an issue is reported in. -/
def issueLine (i : Zod.Issue) : JsString :=
  let key := if joinPath i.path = [] then lit "(root)" else joinPath i.path
  lit "  - " ++ key ++ lit ": " ++ i.message

/-- Strings are compared by their code units. -/
def unitsLE : JsString → JsString → Bool
  | [], _ => true
  | _ :: _, [] => false
  | u :: s, v :: t => u < v || u == v && unitsLE s t

/-- `lines.sort()`. -/
def sortLines (lines : List JsString) : List JsString := lines.insertionSort (unitsLE · ·)

/-- The error for some issues. -/
def configurationError (issues : List Zod.Issue) : DomainError :=
  { ConfigurationError (lit "Invalid or missing configuration:\n" ++
      (lit "\n").intercalate (sortLines (issues.map issueLine))) with
    details := some [(lit "keys",
      .arr (((issues.map fun i ↦ joinPath i.path).filter (· ≠ [])).map .str))] }

def loadConfig (isUrl : JsString → Bool) (schema : ObjectSchema) (source : ProcessEnv) :
    Except DomainError (List (JsString × JsValue)) :=
  match schema.safeParse isUrl source with
  | .ok data => pure data
  | .error issues => throw (configurationError issues)

/-! ## What fails -/

section Failures

variable (isUrl : JsString → Bool) (schema : ObjectSchema) (source : ProcessEnv)

/-- The failed checks of an environment, with the keys they are of. -/
def failures : List (List JsString × Check) :=
  (schema.issues isUrl source).map fun i ↦ (i.path, i.check)

/-- The error that `loadConfig` throws, if it does. -/
def thrown : Option DomainError :=
  match loadConfig isUrl schema source with
  | .ok _ => none
  | .error e => some e

variable {isUrl schema source} {source' : ProcessEnv}

theorem thrown_eq : thrown isUrl schema source =
    if (schema.issues isUrl source).isEmpty then none
    else some (configurationError (schema.issues isUrl source)) := by
  rw [thrown, loadConfig, ObjectSchema.safeParse]
  by_cases h : (schema.issues isUrl source).isEmpty
  · simp only [if_pos h]
    rfl
  · simp only [if_neg h]
    rfl

theorem configurationError_congr {l l' : List Zod.Issue}
    (h : (l.map fun i ↦ (i.path, i.message)) = l'.map fun i ↦ (i.path, i.message)) :
    configurationError l = configurationError l' := by
  have hlines : ∀ l : List Zod.Issue, l.map issueLine = (l.map fun i ↦ (i.path, i.message)).map
      fun q ↦ lit "  - " ++ (if joinPath q.1 = [] then lit "(root)" else joinPath q.1) ++
        lit ": " ++ q.2 := by
    intro l
    rw [List.map_map]
    rfl
  have hkeys : ∀ l : List Zod.Issue, (l.map fun i ↦ joinPath i.path) =
      (l.map fun i ↦ (i.path, i.message)).map fun q ↦ joinPath q.1 := by
    intro l
    rw [List.map_map]
    rfl
  rw [configurationError, configurationError, hlines, hlines, hkeys, hkeys, h]

theorem map_eq_map_of_map_eq {α β γ : Type*} {f : α → β} {g : α → γ} {l l' : List α}
    (h : l.map f = l'.map f) (hg : ∀ a ∈ l, ∀ b ∈ l', f a = f b → g a = g b) :
    l.map g = l'.map g := by
  induction l generalizing l' with
  | nil =>
    rw [List.map_nil, eq_comm, List.map_eq_nil_iff] at h
    rw [h]
  | cons a l ih =>
    rcases l' with _ | ⟨b, l'⟩
    · simp at h
    · rw [List.map_cons, List.map_cons, List.cons.injEq] at h ⊢
      refine ⟨hg a List.mem_cons_self b List.mem_cons_self h.1, ih h.2 fun c hc d hd ↦ ?_⟩
      exact hg c (List.mem_cons_of_mem a hc) d (List.mem_cons_of_mem b hd)

/-- **The same failures, the same error**, as long as no enumeration is among them. -/
theorem thrown_congr (h : failures isUrl schema source' = failures isUrl schema source)
    (hmembership : ∀ i ∈ schema.issues isUrl source, i.check ≠ .membership) :
    thrown isUrl schema source' = thrown isUrl schema source := by
  have hempty : (schema.issues isUrl source').isEmpty = (schema.issues isUrl source).isEmpty := by
    rw [Bool.eq_iff_iff, List.isEmpty_iff_length_eq_zero, List.isEmpty_iff_length_eq_zero]
    have hlength := congrArg List.length h
    rw [failures, failures, List.length_map, List.length_map] at hlength
    rw [hlength]
  have hpairs : ((schema.issues isUrl source').map fun i ↦ (i.path, i.message)) =
      (schema.issues isUrl source).map fun i ↦ (i.path, i.message) := by
    refine map_eq_map_of_map_eq h fun i hi j hj hij ↦ ?_
    obtain ⟨hpath, hcheck⟩ := Prod.mk.inj hij
    rw [hpath, ObjectSchema.message_eq hi hj hpath hcheck (hcheck ▸ hmembership j hj)]
  rw [thrown_eq, thrown_eq, hempty, configurationError_congr hpairs]

/-! ### The length of a report -/

theorem length_intercalate (sep : JsString) (ls : List JsString) :
    (sep.intercalate ls).length =
      (ls.map List.length).sum + sep.length * (ls.length - 1) := by
  induction ls with
  | nil => rfl
  | cons s ls ih =>
    rcases ls with _ | ⟨t, ls⟩
    · simp [List.intercalate]
    · rw [List.intercalate, List.intersperse_cons_cons, List.flatten_cons, List.flatten_cons,
        List.length_append, List.length_append]
      rw [List.intercalate] at ih
      rw [ih]
      simp only [List.map_cons, List.sum_cons, List.length_cons, Nat.add_sub_cancel]
      rw [Nat.mul_add]
      omega

theorem length_message (l : List Zod.Issue) : (configurationError l).message.length =
    (lit "Invalid or missing configuration:\n").length +
      (((l.map issueLine).map List.length).sum + (l.length - 1)) := by
  have hperm : (sortLines (l.map issueLine)).Perm (l.map issueLine) := List.perm_insertionSort ..
  change (lit "Invalid or missing configuration:\n" ++ (lit "\n").intercalate _).length = _
  rw [List.length_append, length_intercalate, (hperm.map List.length).sum_eq, hperm.length_eq,
    List.length_map, show (lit "\n").length = 1 from rfl, Nat.one_mul]

end Failures

/-! ## What a report depends on -/

section Report

variable {isUrl : JsString → Bool} {groups : List SchemaGroup} {source : ProcessEnv}

theorem exists_group_of_mem {p : JsString × Schema} (h : p ∈ (serviceSchema groups).shape) :
    ∃ g : SchemaGroup, p ∈ g.schema.shape := by
  induction groups using List.reverseRecOn with
  | nil => exact absurd h List.not_mem_nil
  | append_singleton groups g ih =>
    rw [serviceSchema, List.map_append, List.foldl_append] at h
    rcases ObjectSchema.mem_merge h with h | h
    · exact ih h
    · exact ⟨g, h⟩

theorem issues_undefined {p : JsString × Schema} (h : p ∈ (serviceSchema groups).shape)
    (henum : p.2.enumValues?.isSome) : p.2.issues isUrl .undefined = [] := by
  obtain ⟨g, h⟩ := exists_group_of_mem h
  have hall : ∀ p ∈ g.schema.shape, p.2.enumValues?.isSome → ∃ inner s values,
      p.2 = .default inner (.string s) ∧ inner.enumValues? = some values ∧ s ∈ values := by
    rcases g <;> simp [SchemaGroup.schema, runtimeSchema, databaseSchema, redisSchema,
      securitySchema, storageSchema, androidSchema, retentionSchema, runnerManagerSchema,
      Schema.enumValues?, booleanFromString, nonEmpty, port, hex32]
  obtain ⟨inner, s, values, hp, hvalues, hs⟩ := hall p h henum
  rw [hp, Schema.issues_default, Schema.issues_of_enumValues hvalues, if_pos hs]

theorem issues_update_enum (isUrl : JsString → Bool) (source : ProcessEnv)
    {schema : ObjectSchema} {p : JsString × Schema} (hp : p ∈ schema.shape)
    {values : List JsString} (hvalues : p.2.enumValues? = some values) :
    ∃ before after, ∀ s ∉ values,
      schema.issues isUrl (Function.update source p.1 (some s)) =
        before ++ [⟨[p.1], .invalid_enum_value values s, none⟩] ++ after := by
  obtain ⟨pre, post, hshape⟩ := List.append_of_mem hp
  obtain ⟨before, after, h⟩ := ObjectSchema.issues_update isUrl source hshape
  refine ⟨before, after, fun s hs ↦ ?_⟩
  rw [h, Schema.issues_of_enumValues hvalues, if_neg hs]
  rfl

theorem exists_longer (values : List JsString) (s : JsString) :
    ∃ t : JsString, t ∉ values ∧ s.length < t.length := by
  refine ⟨.replicate (s.length + 1 + (values.map List.length).sum) 0, fun h ↦ ?_, ?_⟩
  · have hle := List.le_sum_of_mem (List.mem_map_of_mem (f := List.length) h)
    rw [List.length_replicate] at hle
    omega
  · rw [List.length_replicate]
    omega

/-- **What a report depends on.** Take an environment for any service. All environments that fail
the same checks are answered with the same error, message and details, if and only if no
enumeration of the service is given a string that is none of its values. -/
theorem report_iff (isUrl : JsString → Bool) (groups : List SchemaGroup) (source : ProcessEnv) :
    (∀ source', failures isUrl (serviceSchema groups) source' =
        failures isUrl (serviceSchema groups) source →
      thrown isUrl (serviceSchema groups) source' = thrown isUrl (serviceSchema groups) source) ↔
      ∀ p ∈ (serviceSchema groups).shape, ∀ values, p.2.enumValues? = some values →
        ∀ s, source p.1 = some s → s ∈ values := by
  constructor
  · intro h p hp values hvalues s hs
    by_contra hnot
    obtain ⟨before, after, hissues⟩ := issues_update_enum isUrl source hp hvalues
    obtain ⟨t, ht, hlt⟩ := exists_longer values s
    -- the key is given a longer string that is not among the values either
    have hself : Function.update source p.1 (some s) = source := by
      rw [← hs, Function.update_eq_self]
    have hsource := hissues s hnot
    rw [hself] at hsource
    have hfailures : failures isUrl (serviceSchema groups) (Function.update source p.1 (some t)) =
        failures isUrl (serviceSchema groups) source := by
      rw [failures, failures, hissues t ht, hsource]
      simp [Zod.Issue.check]
    have hthrown := h _ hfailures
    rw [thrown_eq, thrown_eq, hissues t ht, hsource, if_neg (by simp), if_neg (by simp),
      Option.some_inj] at hthrown
    have hlength := congrArg (fun e ↦ e.message.length) hthrown
    simp only [length_message, List.map_append, List.map_cons, List.map_nil, List.sum_append,
      List.sum_cons, List.sum_nil, List.length_append, List.length_singleton] at hlength
    have hline : ∀ u : JsString, (issueLine ⟨[p.1], .invalid_enum_value values u, none⟩).length =
        (issueLine ⟨[p.1], .invalid_enum_value values [], none⟩).length + u.length := by
      intro u
      simp only [issueLine, Zod.Issue.message, Option.getD_none, defaultErrorMap,
        List.length_append, List.length_nil]
      omega
    rw [hline t, hline s] at hlength
    omega
  · intro h source' hfailures
    refine thrown_congr hfailures fun i hi hcheck ↦ ?_
    obtain ⟨p, hp, j, hj, rfl⟩ := ObjectSchema.mem_issues.mp hi
    obtain ⟨values, hvalues⟩ := Schema.exists_enumValues hj hcheck
    rw [envValue] at hj
    rcases hs : source p.1 with _ | s
    · rw [hs, issues_undefined hp (by rw [hvalues]; rfl)] at hj
      exact absurd hj List.not_mem_nil
    · rw [hs, Schema.issues_of_enumValues hvalues, if_pos (h p hp values hvalues s hs)] at hj
      exact absurd hj List.not_mem_nil

end Report

/-- An environment with the given variables and no others. -/
def envOf (entries : List (JsString × JsString)) : ProcessEnv := fun key ↦ entries.lookup key

example : (thrown (fun _ ↦ false) securitySchema (envOf
    [(lit "SESSION_SECRET", lit "too-short"), (lit "CREDENTIAL_MASTER_KEY", lit "nothex")])).map
      DomainError.message =
    some (lit "Invalid or missing configuration:\n" ++
      lit "  - CREDENTIAL_MASTER_KEY: must be 64 hex characters (32 bytes)\n" ++
      lit "  - SESSION_SECRET: must be at least 32 characters") := by decide +kernel

/-- A complete storage configuration, except that the variable for the path style holds `value`. -/
def pathStyleEnv (value : JsString) : ProcessEnv :=
  envOf [(lit "S3_BUCKET", lit "bucket"), (lit "S3_ACCESS_KEY_ID", lit "id"),
    (lit "S3_SECRET_ACCESS_KEY", lit "key"), (lit "S3_FORCE_PATH_STYLE", value)]

/-- **A report quotes a value**: a string that ended up in the wrong variable is printed, although
the checks that fail are the same for another string. -/
theorem report_quotes :
    failures (fun _ ↦ false) (serviceSchema [.storage]) (pathStyleEnv (lit "hunter2")) =
        [([lit "S3_FORCE_PATH_STYLE"], .membership)] ∧
      failures (fun _ ↦ false) (serviceSchema [.storage]) (pathStyleEnv (lit "letmein")) =
        [([lit "S3_FORCE_PATH_STYLE"], .membership)] ∧
      (thrown (fun _ ↦ false) (serviceSchema [.storage]) (pathStyleEnv (lit "hunter2"))).map
          DomainError.message =
        some (lit "Invalid or missing configuration:\n  - S3_FORCE_PATH_STYLE: " ++
          lit "Invalid enum value. Expected 'true' | 'false' | '1' | '0', received 'hunter2'") ∧
      ¬∀ (isUrl : JsString → Bool) (groups : List SchemaGroup) (source source' : ProcessEnv),
        failures isUrl (serviceSchema groups) source' =
            failures isUrl (serviceSchema groups) source →
          thrown isUrl (serviceSchema groups) source' =
            thrown isUrl (serviceSchema groups) source := by
  have hhunter : failures (fun _ ↦ false) (serviceSchema [.storage])
      (pathStyleEnv (lit "hunter2")) = [([lit "S3_FORCE_PATH_STYLE"], .membership)] := by
    decide +kernel
  have hletmein : failures (fun _ ↦ false) (serviceSchema [.storage])
      (pathStyleEnv (lit "letmein")) = [([lit "S3_FORCE_PATH_STYLE"], .membership)] := by
    decide +kernel
  refine ⟨hhunter, hletmein, by decide +kernel, fun h ↦ ?_⟩
  have hthrown := congrArg (Option.map DomainError.message)
    (h (fun _ ↦ false) [.storage] (pathStyleEnv (lit "hunter2")) (pathStyleEnv (lit "letmein"))
      (hletmein.trans hhunter.symm))
  revert hthrown
  decide +kernel

end NativeKiln
