import NativeKiln.Config.LoadConfig

/-!
# The services of a deployment

The API (`apps/api/src/config/api-config.ts`), the worker and its cleanup job
(`apps/worker/src/config.ts`) and the runner manager (`apps/runner-manager/src/main.ts`) are started
with one environment, and each loads the groups it has merged. Merging replaces the schema of a key
that both sides have, so that two services might read one variable in two ways.

They do not: no key is in two groups (`group_unique`), hence a merged schema has the entries of its
groups and no others (`mem_serviceSchema`). A service is refused for what its groups are refused
for, and two services that start have read the groups they share alike (`services_agree`).
-/

namespace NativeKiln

open JsString (lit)
open Zod

/-! ## Merging -/

namespace Zod.ObjectSchema

variable {isUrl : JsString → Bool} {a b : ObjectSchema} {source source' : ProcessEnv}

/-- The two schemas read the keys that both have in the same way. -/
def Compatible (a b : ObjectSchema) : Prop :=
  ∀ p ∈ a.shape, ∀ q ∈ b.shape, p.1 = q.1 → p = q

theorem mem_merge_iff (h : a.Compatible b) {p : JsString × Schema} :
    p ∈ (a.merge b).shape ↔ p ∈ a.shape ∨ p ∈ b.shape := by
  refine ⟨mem_merge, fun hp ↦ ?_⟩
  rw [merge, List.mem_append, List.mem_map, List.mem_filter]
  by_cases ha : p ∈ a.shape
  · refine Or.inl ⟨p, ha, ?_⟩
    rcases hlookup : b.shape.lookup p.1 with _ | v
    · rfl
    · -- the entry that takes its place is the same one
      obtain ⟨pre, post, hshape, -⟩ := List.lookup_eq_some_iff.mp hlookup
      have hq : (p.1, v) ∈ b.shape := by
        rw [hshape]
        exact List.mem_append_right pre List.mem_cons_self
      rw [h p ha (p.1, v) hq rfl]
      rfl
  · refine Or.inr ⟨hp.resolve_left ha, ?_⟩
    rw [Bool.not_eq_true', List.contains_eq_mem, decide_eq_false_iff_not, List.mem_map]
    rintro ⟨q, hq, hkey⟩
    exact ha (h q hq p (hp.resolve_left ha) hkey ▸ hq)

theorem issues_congr (h : ∀ p ∈ a.shape, source' p.1 = source p.1) :
    a.issues isUrl source' = a.issues isUrl source := by
  refine List.flatMap_congr fun p hp ↦ ?_
  rw [envValue, envValue, h p hp]

theorem safeParse_congr (h : ∀ p ∈ a.shape, source' p.1 = source p.1) :
    a.safeParse isUrl source' = a.safeParse isUrl source := by
  rw [safeParse, safeParse, issues_congr h]
  congr 2
  refine List.filterMap_congr fun p hp ↦ ?_
  rw [envValue, envValue, h p hp]

end Zod.ObjectSchema

/-! ## The groups of a service -/

section Groups

variable {groups : List SchemaGroup} {g g' : SchemaGroup} {p q : JsString × Schema}

/-- All groups, in the order of the full schema. -/
def SchemaGroup.all : List SchemaGroup :=
  [.runtime, .database, .redis, .security, .storage, .android, .retention, .runnerManager]

theorem SchemaGroup.mem_all (g : SchemaGroup) : g ∈ SchemaGroup.all := by
  cases g <;> decide

/-- The keys of a group. -/
def SchemaGroup.keys (g : SchemaGroup) : List JsString := g.schema.shape.map Prod.fst

/-- **A key is in one group.** -/
theorem group_unique (hp : p ∈ g.schema.shape) (hq : q ∈ g'.schema.shape) (hkey : p.1 = q.1) :
    g = g' := by
  have hall : SchemaGroup.all.all fun g ↦ SchemaGroup.all.all fun g' ↦
      g = g' || g.keys.all fun k ↦ !g'.keys.contains k := by decide +kernel
  by_contra hne
  have h := List.all_eq_true.mp (List.all_eq_true.mp hall g g.mem_all) g' g'.mem_all
  rw [decide_eq_false hne, Bool.false_or, List.all_eq_true] at h
  have hnot := h p.1 (List.mem_map_of_mem hp)
  rw [Bool.not_eq_true', List.contains_eq_mem, decide_eq_false_iff_not] at hnot
  exact hnot (hkey ▸ List.mem_map_of_mem hq)

/-- One key, one schema, whatever group it is looked up in. -/
theorem entry_unique (hp : p ∈ g.schema.shape) (hq : q ∈ g'.schema.shape) (hkey : p.1 = q.1) :
    p = q := by
  obtain rfl := group_unique hp hq hkey
  exact List.inj_on_of_nodup_map g.schema.nodup hp hq hkey

theorem mem_serviceSchema :
    p ∈ (serviceSchema groups).shape ↔ ∃ g ∈ groups, p ∈ g.schema.shape := by
  induction groups using List.reverseRecOn generalizing p with
  | nil => exact ⟨fun h ↦ absurd h List.not_mem_nil, fun ⟨g, hg, _⟩ ↦ absurd hg List.not_mem_nil⟩
  | append_singleton groups g ih =>
    have hcompatible : (serviceSchema groups).Compatible g.schema := by
      intro p hp q hq hkey
      obtain ⟨g', -, hp⟩ := ih.mp hp
      exact entry_unique hp hq hkey
    have hmerge : serviceSchema (groups ++ [g]) = (serviceSchema groups).merge g.schema := by
      rw [serviceSchema, List.map_append, List.foldl_append]
      rfl
    rw [hmerge, ObjectSchema.mem_merge_iff hcompatible, ih]
    constructor
    · rintro (⟨g', hg', hp⟩ | hp)
      · exact ⟨g', List.mem_append_left _ hg', hp⟩
      · exact ⟨g, List.mem_append_right _ (List.mem_singleton_self g), hp⟩
    · rintro ⟨g', hg', hp⟩
      rcases List.mem_append.mp hg' with hg' | hg'
      · exact Or.inl ⟨g', hg', hp⟩
      · exact Or.inr (List.mem_singleton.mp hg' ▸ hp)

end Groups

/-! ## Services -/

/-- The processes of a deployment that load a configuration. -/
inductive Service
  | api
  | worker
  | cleanup
  | runnerManager
  deriving DecidableEq, Repr

/-- `apiSchema`: the configuration subset the API service requires. -/
def apiSchema : List SchemaGroup :=
  [.runtime, .database, .redis, .security, .storage, .retention]

/-- `workerSchema`. -/
def workerSchema : List SchemaGroup :=
  [.runtime, .database, .redis, .security, .storage, .retention]

/-- `schema` of the runner manager. -/
def runnerManagerServiceSchema : List SchemaGroup :=
  [.runtime, .redis, .android, .runnerManager]

/-- The groups a service merges; the cleanup job loads what the worker loads. -/
def Service.groups : Service → List SchemaGroup
  | api => apiSchema
  | worker | cleanup => workerSchema
  | runnerManager => runnerManagerServiceSchema

section Deployment

variable (isUrl : JsString → Bool) (source : ProcessEnv)

/-- What a service finds in its environment, `loadApiConfig`, `loadWorkerConfig` or the call of
`loadConfig` in `main`. -/
def Service.load (s : Service) : Except DomainError (List (JsString × JsValue)) :=
  loadConfig isUrl (serviceSchema s.groups) source

/-- The environment is accepted. -/
def Loads (schema : ObjectSchema) : Prop := ∃ data, loadConfig isUrl schema source = .ok data

variable {isUrl source} {source' : ProcessEnv} {groups : List SchemaGroup}

theorem loads_iff {schema : ObjectSchema} :
    Loads isUrl source schema ↔ failures isUrl schema source = [] := by
  rw [Loads, loadConfig, ObjectSchema.safeParse, failures, List.map_eq_nil_iff,
    ← List.isEmpty_iff]
  by_cases h : (schema.issues isUrl source).isEmpty
  · rw [if_pos h]
    exact iff_of_true ⟨_, rfl⟩ h
  · rw [if_neg h]
    refine iff_of_false ?_ h
    rintro ⟨data, hdata⟩
    cases hdata

theorem mem_failures {f : List JsString × Check} :
    f ∈ failures isUrl (serviceSchema groups) source ↔
      ∃ g ∈ groups, f ∈ failures isUrl g.schema source := by
  simp only [failures, List.mem_map, ObjectSchema.mem_issues, mem_serviceSchema]
  constructor
  · rintro ⟨i, ⟨p, ⟨g, hg, hp⟩, hi⟩, rfl⟩
    exact ⟨g, hg, i, ⟨p, hp, hi⟩, rfl⟩
  · rintro ⟨g, hg, i, ⟨p, hp, hi⟩, rfl⟩
    exact ⟨i, ⟨p, ⟨g, hg, hp⟩, hi⟩, rfl⟩

theorem loads_serviceSchema :
    Loads isUrl source (serviceSchema groups) ↔ ∀ g ∈ groups, Loads isUrl source g.schema := by
  simp only [loads_iff, List.eq_nil_iff_forall_not_mem, mem_failures]
  exact ⟨fun h g hg f hf ↦ h f ⟨g, hg, hf⟩, fun h f ⟨g, hg, hf⟩ ↦ h g hg f hf⟩

theorem lookup_load {data : List (JsString × JsValue)} {g : SchemaGroup}
    {p : JsString × Schema} (h : loadConfig isUrl (serviceSchema groups) source = .ok data)
    (hg : g ∈ groups) (hp : p ∈ g.schema.shape) :
    data.lookup p.1 = (p.2.safeParse isUrl (envValue source p.1)).toOption := by
  rw [loadConfig] at h
  rcases hparse : (serviceSchema groups).safeParse isUrl source with issues | data'
  · rw [hparse] at h
    cases h
  · rw [hparse] at h
    obtain rfl : data' = data := Except.ok.inj h
    exact ObjectSchema.lookup_of_safeParse hparse (mem_serviceSchema.mpr ⟨g, hg, hp⟩)

/-- **The services of a deployment agree.** Started with one environment, a service is refused for
exactly the checks that its groups are refused for, and all services start if and only if the full
schema accepts the environment. Two services that start have the same value for every key of a group
both have merged. A variable that is in none of its groups makes no difference to a service, neither
to whether it starts nor to what it has read. -/
theorem services_agree (isUrl : JsString → Bool) (source : ProcessEnv) :
    (∀ (s : Service) (f : List JsString × Check),
      f ∈ failures isUrl (serviceSchema s.groups) source ↔
        ∃ g ∈ s.groups, f ∈ failures isUrl g.schema source) ∧
      ((∀ s : Service, ∃ data, s.load isUrl source = .ok data) ↔
        ∃ data, loadConfig isUrl fullSchema source = .ok data) ∧
      (∀ (s t : Service) (data data' : List (JsString × JsValue)),
        s.load isUrl source = .ok data → t.load isUrl source = .ok data' →
          ∀ g ∈ s.groups, g ∈ t.groups → ∀ p ∈ g.schema.shape,
            data.lookup p.1 = data'.lookup p.1) ∧
      ∀ (s : Service) (source' : ProcessEnv),
        (∀ g ∈ s.groups, ∀ p ∈ g.schema.shape, source' p.1 = source p.1) →
          s.load isUrl source' = s.load isUrl source := by
  refine ⟨fun s f ↦ mem_failures, ?_, ?_, ?_⟩
  · -- every group is one of some service's
    have hservice : ∀ g : SchemaGroup, ∃ s : Service, g ∈ s.groups := by
      intro g
      cases g
      case android | runnerManager => exact ⟨.runnerManager, by decide⟩
      all_goals exact ⟨.api, by decide⟩
    change (∀ s : Service, Loads isUrl source (serviceSchema s.groups)) ↔
      Loads isUrl source fullSchema
    have hfull : Loads isUrl source fullSchema ↔ ∀ g : SchemaGroup, Loads isUrl source g.schema :=
      loads_serviceSchema.trans ⟨fun h g ↦ h g g.mem_all, fun h g _ ↦ h g⟩
    rw [hfull]
    constructor
    · intro h g
      obtain ⟨s, hg⟩ := hservice g
      exact loads_serviceSchema.mp (h s) g hg
    · intro h s
      exact loads_serviceSchema.mpr fun g _ ↦ h g
  · intro s t data data' hs ht g hg hg' p hp
    rw [lookup_load hs hg hp, lookup_load ht hg' hp]
  · intro s source' h
    rw [Service.load, Service.load, loadConfig, loadConfig, ObjectSchema.safeParse_congr]
    intro p hp
    obtain ⟨g, hg, hp⟩ := mem_serviceSchema.mp hp
    exact h g hg p hp

end Deployment

end NativeKiln
