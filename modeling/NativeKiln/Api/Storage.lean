import NativeKiln.Config.LoadConfig

/-!
# Object storage

`storage.service.ts`: a single bucket is partitioned into artifacts, logs and sources by key
prefixes, which are configured as free strings. A key is the prefix of its store followed by the
path, whose leading slashes are removed.

Whether two stores can have a key in common is a question about their prefixes alone
(`disjoint_iff`). The configuration does not ask it.
-/

namespace NativeKiln

open JsString (lit)
open Zod

/-! ## The service -/

inductive StorageStore
  | artifacts
  | logs
  | sources
  deriving DecidableEq, Repr

namespace StorageStore

/-- The variable the prefix of a store is configured in. -/
def prefixKey : StorageStore → JsString
  | artifacts => lit "S3_PREFIX_ARTIFACTS"
  | logs => lit "S3_PREFIX_LOGS"
  | sources => lit "S3_PREFIX_SOURCES"

/-- The prefix of a store that is not configured. -/
def defaultPrefix : StorageStore → JsString
  | artifacts => lit "artifacts/"
  | logs => lit "logs/"
  | sources => lit "sources/"

end StorageStore

structure StorageService where
  bucket : JsString
  prefixes : StorageStore → JsString

/-- A property of a configuration, as a template writes it. -/
def configText (config : List (JsString × JsValue)) (key : JsString) : JsString :=
  match config.lookup key with
  | some (.string s) => s
  | _ => lit "undefined"

/-- `path.replace(/^\/+/, '')`. -/
def stripSlashes (path : JsString) : JsString := path.dropWhile (· == 47)

namespace StorageService

/-- `new StorageService(config)`. -/
def new (config : List (JsString × JsValue)) : StorageService where
  bucket := configText config (lit "S3_BUCKET")
  prefixes store := configText config store.prefixKey

/-- Resolves a store-relative path into a fully-prefixed object key. -/
def key (service : StorageService) (store : StorageStore) (path : JsString) : JsString :=
  service.prefixes store ++ stripSlashes path

end StorageService

/-! ## Keys under two prefixes -/

/-- Whatever `t` adds to `s` starts with a slash; in particular it adds something. -/
def Separated (s t : JsString) : Prop := ∀ rest, t = s ++ rest → rest.head? = some 47

theorem separated_iff {s t : JsString} :
    Separated s t ↔ (s <+: t → (t.drop s.length).head? = some 47) := by
  constructor
  · rintro h ⟨rest, rfl⟩
    rw [List.drop_left]
    exact h rest rfl
  · rintro h rest rfl
    have hrest := h (List.prefix_append s rest)
    rwa [List.drop_left] at hrest

instance (s t : JsString) : Decidable (Separated s t) := decidable_of_iff _ separated_iff.symm

theorem head?_stripSlashes (path : JsString) : (stripSlashes path).head? ≠ some 47 := by
  intro h
  have hnot := List.head?_dropWhile_not (· == (47 : UInt16)) path
  rw [stripSlashes] at h
  rw [h] at hnot
  exact absurd hnot (by decide)

theorem stripSlashes_of_head? {path : JsString} (h : path.head? ≠ some 47) :
    stripSlashes path = path := by
  rcases path with _ | ⟨u, path⟩
  · rfl
  · rw [stripSlashes, List.dropWhile_cons_of_neg]
    simpa using h

/-- **When two prefixes keep their keys apart.** No path under one prefix has the key of a path
under the other if and only if neither prefix extends the other, unless by something that starts
with a slash. -/
theorem disjoint_iff (s t : JsString) :
    (∀ p q, s ++ stripSlashes p ≠ t ++ stripSlashes q) ↔ Separated s t ∧ Separated t s := by
  constructor
  · intro h
    constructor
    · rintro rest rfl
      by_contra hrest
      refine h rest [] ?_
      rw [stripSlashes_of_head? hrest, stripSlashes, List.dropWhile_nil, List.append_nil]
    · rintro rest rfl
      by_contra hrest
      refine h [] rest ?_
      rw [stripSlashes_of_head? hrest, stripSlashes, List.dropWhile_nil, List.append_nil]
  · rintro ⟨hst, hts⟩ p q heq
    rcases List.append_eq_append_iff.mp heq with ⟨rest, ht, hp⟩ | ⟨rest, hs, hq⟩
    · refine head?_stripSlashes p ?_
      rw [hp, List.head?_append, hst rest ht]
      rfl
    · refine head?_stripSlashes q ?_
      rw [hq, List.head?_append, hts rest hs]
      rfl

/-! ## The partition -/

section Partition

variable {isUrl : JsString → Bool} {source : ProcessEnv} {config : List (JsString × JsValue)}

/-- The prefix an environment gives a store. -/
def prefixOf (source : ProcessEnv) (store : StorageStore) : JsString :=
  (source store.prefixKey).getD store.defaultPrefix

theorem prefixes_eq (h : loadConfig isUrl storageSchema source = .ok config)
    (store : StorageStore) :
    (StorageService.new config).prefixes store = prefixOf source store := by
  have hparse : storageSchema.safeParse isUrl source = .ok config := by
    rw [loadConfig] at h
    rcases hparse : storageSchema.safeParse isUrl source with issues | data
    · rw [hparse] at h
      exact absurd h (by rintro ⟨⟩)
    · rw [hparse] at h
      exact congrArg Except.ok (Except.ok.inj h)
  have hmem : (store.prefixKey, Schema.default (.string []) (.string store.defaultPrefix)) ∈
      storageSchema.shape := by
    rcases store <;> simp [storageSchema, StorageStore.prefixKey, StorageStore.defaultPrefix]
  change configText config store.prefixKey = _
  rw [configText, ObjectSchema.lookup_of_safeParse hparse hmem, prefixOf, envValue]
  rcases source store.prefixKey with _ | s <;> rfl

/-- **When the bucket is partitioned.** Under an environment the storage schema accepts, no key of
one store is a key of another if and only if no prefix of a store extends that of another, unless by
something that starts with a slash. -/
theorem partition_iff (h : loadConfig isUrl storageSchema source = .ok config) :
    (∀ s t, s ≠ t → ∀ p q,
      (StorageService.new config).key s p ≠ (StorageService.new config).key t q) ↔
      ∀ s t, s ≠ t → Separated (prefixOf source s) (prefixOf source t) := by
  have hkeys : ∀ s t, (∀ p q, (StorageService.new config).key s p ≠
      (StorageService.new config).key t q) ↔
        Separated (prefixOf source s) (prefixOf source t) ∧
          Separated (prefixOf source t) (prefixOf source s) := by
    intro s t
    rw [← disjoint_iff, ← prefixes_eq h s, ← prefixes_eq h t]
    rfl
  constructor
  · intro hdisjoint s t hne
    exact ((hkeys s t).mp (hdisjoint s t hne)).1
  · intro hseparated s t hne
    exact (hkeys s t).mpr ⟨hseparated s t hne, hseparated t s hne.symm⟩

end Partition

/-- A storage configuration with some prefixes. -/
def prefixEnv (prefixes : List (JsString × JsString)) : ProcessEnv :=
  envOf ([(lit "S3_BUCKET", lit "bucket"), (lit "S3_ACCESS_KEY_ID", lit "id"),
    (lit "S3_SECRET_ACCESS_KEY", lit "key")] ++ prefixes)

theorem partition_iff_default : ∃ config,
    loadConfig (fun _ ↦ false) storageSchema (prefixEnv []) = .ok config ∧
      ∀ s t, s ≠ t → ∀ p q,
        (StorageService.new config).key s p ≠ (StorageService.new config).key t q := by
  obtain ⟨config, hconfig⟩ :
      ∃ config, loadConfig (fun _ ↦ false) storageSchema (prefixEnv []) = .ok config := ⟨_, rfl⟩
  refine ⟨config, hconfig, (partition_iff hconfig).mpr fun s t hne ↦ ?_⟩
  rcases s <;> rcases t <;> first | exact absurd rfl hne | decide +kernel

/-- **The bucket need not be partitioned.** With an empty prefix for the artifacts, every log is an
artifact too. -/
theorem stores_overlap : ∃ config,
    loadConfig (fun _ ↦ false) storageSchema (prefixEnv [(lit "S3_PREFIX_ARTIFACTS", [])]) =
        .ok config ∧
      (StorageService.new config).key .artifacts (lit "logs/build.log") =
        (StorageService.new config).key .logs (lit "build.log") := by
  refine ⟨_, rfl, by decide +kernel⟩

end NativeKiln
