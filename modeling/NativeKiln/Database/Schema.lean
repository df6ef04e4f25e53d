import Mathlib.Logic.Relation
import NativeKiln.Codec.JsString
import NativeKiln.Tables.Relational

/-!
# The migrated schema

`migration.sql`, which `schema.prisma` is the source of: its tables with their keys, unique indexes
and foreign keys. Of the columns only those are here that a constraint is about; the types, defaults
and `NOT NULL` marks of the others can only refuse more.

What the constraints come to is said for databases in any state they let a run of statements reach.
The schema does not tie a build to the project of its profile, nor a submission to the build of its
artifact, and that is what a project can fail to be deleted for (`project_delete_iff`).
-/

namespace NativeKiln

open JsString (lit)
open Tables

/-! ## The migration -/

inductive Table
  | users
  | sessions
  | projects
  | projectSources
  | buildProfiles
  | environmentVariables
  | credentials
  | builds
  | buildSteps
  | buildLogChunks
  | artifacts
  | runners
  | runnerCapabilities
  | runnerRegistrationTokens
  | submissions
  | auditEvents
  deriving DecidableEq, Repr

inductive Column
  | id
  | email
  | userId
  | tokenHash
  | slug
  | projectId
  | name
  | key
  | buildProfileId
  | buildNumber
  | idempotencyKey
  | runnerId
  | buildId
  | sequence
  | artifactId
  deriving DecidableEq, Repr

/-- `TEXT` and `INTEGER`. -/
inductive Value
  | text (s : JsString)
  | integer (n : ℤ)
  deriving DecidableEq

namespace Migration

open Table Column

/-- The `NOT NULL` columns. -/
def notNull : Table → List Column
  | users => [id, email]
  | sessions => [id, userId, tokenHash]
  | projects => [id, slug, name]
  | projectSources => [id, projectId]
  | buildProfiles => [id, projectId, name]
  | environmentVariables => [id, projectId, key]
  | .credentials => [id, name]
  | builds => [id, projectId, buildProfileId, buildNumber, idempotencyKey]
  | buildSteps => [id, buildId, name, sequence]
  | buildLogChunks => [id, buildId, sequence]
  | artifacts => [id, buildId, buildNumber]
  | runners => [id, name, tokenHash]
  | runnerCapabilities => [id, runnerId, key]
  | runnerRegistrationTokens => [id, tokenHash, name]
  | submissions => [id, projectId, buildId, artifactId, idempotencyKey]
  | auditEvents => [id]

/-- `CONSTRAINT .. PRIMARY KEY`, for each table. -/
def primaryKeys : List (Table × List Column) :=
  [users, sessions, projects, projectSources, buildProfiles, environmentVariables, .credentials,
    builds, buildSteps, buildLogChunks, artifacts, runners, runnerCapabilities,
    runnerRegistrationTokens, submissions, auditEvents].map (·, [id])

/-- `CREATE UNIQUE INDEX`. -/
def uniqueIndexes : List (Table × List Column) :=
  [(users, [email]),
    (sessions, [tokenHash]),
    (projects, [slug]),
    (projectSources, [projectId]),
    (buildProfiles, [projectId, name]),
    (environmentVariables, [projectId, key]),
    (.credentials, [projectId, name]),
    (builds, [idempotencyKey]),
    (builds, [projectId, buildNumber]),
    (buildSteps, [buildId, sequence]),
    (buildLogChunks, [buildId, sequence]),
    (runners, [tokenHash]),
    (runnerCapabilities, [runnerId, key]),
    (runnerRegistrationTokens, [tokenHash]),
    (submissions, [idempotencyKey])]

/-- `ADD CONSTRAINT .. FOREIGN KEY`, all of them with `ON UPDATE CASCADE`. -/
def foreignKeys : List (ForeignKey Table Column) :=
  [⟨sessions, userId, users, .cascade⟩,
    ⟨projectSources, projectId, projects, .cascade⟩,
    ⟨buildProfiles, projectId, projects, .cascade⟩,
    ⟨environmentVariables, projectId, projects, .cascade⟩,
    ⟨.credentials, projectId, projects, .cascade⟩,
    ⟨builds, projectId, projects, .cascade⟩,
    ⟨builds, buildProfileId, buildProfiles, .restrict⟩,
    ⟨builds, runnerId, runners, .setNull⟩,
    ⟨buildSteps, buildId, builds, .cascade⟩,
    ⟨buildLogChunks, buildId, builds, .cascade⟩,
    ⟨artifacts, buildId, builds, .cascade⟩,
    ⟨runnerCapabilities, runnerId, runners, .cascade⟩,
    ⟨submissions, projectId, projects, .cascade⟩,
    ⟨submissions, buildId, builds, .cascade⟩,
    ⟨submissions, artifactId, artifacts, .restrict⟩,
    ⟨auditEvents, userId, users, .setNull⟩]

/-- What the migration creates. -/
def schema : Schema Table Column where
  key _ := id
  notNull := notNull
  unique := primaryKeys ++ uniqueIndexes
  foreignKeys := foreignKeys

theorem schema_wellFormed : schema.WellFormed where
  key_notNull t := by cases t <;> decide
  key_unique t := by cases t <;> decide
  column_injective := by decide
  column_ne_key := by decide
  table_ne_target := by decide
  clears_nullable := by decide

/-- A row of one of the tables. -/
abbrev TableRow := Row Table Column Value

/-- A statement. -/
abbrev SqlStatement := Statement Table Column Value

/-- What statements, one after another, can make of the rows. -/
def Reaches : List TableRow → List TableRow → Prop :=
  Relation.ReflTransGen fun rows rows' ↦ ∃ a : SqlStatement, schema.Executes rows a rows'

/-- `WHERE "id" = v`, in a table. -/
def byKey (t : Table) (v : Value) (r : TableRow) : Bool := decide (r.Has t id v)

/-- A row with these values, and nulls elsewhere. -/
def rowOf (t : Table) (values : List (Column × Value)) : TableRow := ⟨t, fun c ↦ values.lookup c⟩

/-- A user with a session and an audit event, and a project with a profile and a build. -/
def sampleRows : List TableRow :=
  [rowOf users [(id, .text (lit "usr_1")), (email, .text (lit "admin@example.com"))],
    rowOf sessions [(id, .text (lit "ses_1")), (userId, .text (lit "usr_1")),
      (tokenHash, .text (lit "aa"))],
    rowOf auditEvents [(id, .text (lit "aud_1")), (userId, .text (lit "usr_1"))],
    rowOf projects [(id, .text (lit "prj_1")), (slug, .text (lit "app")),
      (name, .text (lit "App"))],
    rowOf buildProfiles [(id, .text (lit "prof_1")), (projectId, .text (lit "prj_1")),
      (name, .text (lit "release"))],
    rowOf builds [(id, .text (lit "bld_1")), (projectId, .text (lit "prj_1")),
      (buildProfileId, .text (lit "prof_1")), (buildNumber, .integer 1),
      (idempotencyKey, .text (lit "k1"))]]

theorem sampleRows_consistent : schema.Consistent sampleRows := by decide +kernel

/-! ## Runs of statements -/

/-- **The constraints hold in every state.** Whatever statements are executed, and in whatever order
their triggers fire, every unique index and every reference stays intact; and an insert is accepted
exactly when they do with the new row. -/
theorem integrity {rows₀ rows : List TableRow} (h₀ : schema.Consistent rows₀)
    (h : Reaches rows₀ rows) : schema.Consistent rows ∧ ∀ row : TableRow,
      (∃ rows', schema.Executes rows (.insert row) rows') ↔ schema.Consistent (rows ++ [row]) := by
  have hrows : schema.Consistent rows := by
    induction h with
    | refl => exact h₀
    | tail _ hstep ih => exact hstep.elim fun _ ha ↦ ha.consistent schema_wellFormed ih
  refine ⟨hrows, fun row ↦ ?_⟩
  rw [consistent_concat_iff hrows]
  constructor
  · rintro ⟨rows', ⟨hfits, hanchored⟩⟩
    exact ⟨hfits, hanchored⟩
  · rintro ⟨hfits, hanchored⟩
    exact ⟨_, .insert hfits hanchored⟩

theorem integrity_sample : schema.Consistent (sampleRows ++ [rowOf users
    [(id, .text (lit "usr_2")), (email, .text (lit "ops@example.com"))]]) :=
  (integrity sampleRows_consistent (.single ⟨_, .insert (by decide +kernel)
    (by decide +kernel)⟩)).1

/-! ## Rows that nothing is built on

A session, an audit event, a user or a runner: no restricting key refers to such a row, and nothing
refers to the rows that go with it. -/

/-- The row goes with the one of the table with the key. -/
def GoesWith (t : Table) (v : Value) (r : TableRow) : Prop :=
  r.Has t id v ∨ ∃ f ∈ foreignKeys, f.onDelete = .cascade ∧ f.target = t ∧ r.Has f.table f.column v

instance (t : Table) (v : Value) (r : TableRow) : Decidable (GoesWith t v r) :=
  inferInstanceAs (Decidable (_ ∨ ∃ f ∈ foreignKeys, _))

/-- The row without its references to the one of the table with the key. -/
def forget (t : Table) (v : Value) (r : TableRow) : TableRow :=
  { r with value := fun c ↦
      if ∃ f ∈ foreignKeys, f.onDelete = .setNull ∧ f.target = t ∧ f.column = c ∧
        r.Has f.table f.column v then none else r.value c }

/-- The tables that no restricting key refers to, not even by way of the rows that go along. -/
def shallow : List Table :=
  [users, sessions, projectSources, environmentVariables, .credentials, buildSteps, buildLogChunks,
    runners, runnerCapabilities, runnerRegistrationTokens, submissions, auditEvents]

theorem shallow_keys : ∀ t ∈ shallow, ∀ f ∈ foreignKeys, f.target = t → f.onDelete ≠ .restrict ∧
    (f.onDelete = .cascade → ∀ f' ∈ foreignKeys, f'.target ≠ f.table) := by decide

variable {rows rows' : List TableRow}

section Shallow

variable {t : Table} (ht : t ∈ shallow) {v : Value} (h : schema.Consistent rows)

include h

theorem goes_of_goesWith {r : TableRow} (hr : r ∈ rows) (hv : GoesWith t v r) :
    schema.Goes (byKey t v) rows r := by
  rcases hv with hv | ⟨f, hf, hcascade, rfl, hv⟩
  · exact .deleted hr (decide_eq_true hv)
  · obtain ⟨q, hq, hkey⟩ := h.foreign f hf r hr v hv
    exact .cascaded hr hf hcascade (.deleted hq (decide_eq_true hkey)) ⟨v, hv, hkey⟩

include ht

theorem goes_iff_goesWith {r : TableRow} :
    schema.Goes (byKey t v) rows r ↔ r ∈ rows ∧ GoesWith t v r := by
  refine ⟨fun hr ↦ ?_, fun hr ↦ goes_of_goesWith h hr.1 hr.2⟩
  induction hr with
  | deleted hr hv => exact ⟨hr, Or.inl (of_decide_eq_true hv)⟩
  | @cascaded r q f hr hf hcascade hq href ih =>
    obtain ⟨w, hrw, hqw⟩ := href
    rcases ih.2 with hqv | ⟨f', hf', hcascade', htarget', hqf'⟩
    · obtain rfl : w = v := Option.some_inj.mp (hqw.2.symm.trans hqv.2)
      exact ⟨hr, Or.inr ⟨f, hf, hcascade, hqw.1.symm.trans hqv.1, hrw⟩⟩
    · exact absurd (hqw.1.symm.trans hqf'.1)
        ((shallow_keys t ht f' hf' htarget').2 hcascade' f hf)

theorem cleared_eq_forget (r : TableRow) (hr : r ∈ rows) :
    r.cleared (schema.SetOff (byKey t v) rows) = forget t v r := by
  classical
  refine Row.ext rfl (funext fun c ↦ if_congr ⟨?_, ?_⟩ rfl rfl)
  · rintro ⟨⟨f, w⟩, ⟨q, hq, hg⟩, hnull, hcol, hhits⟩
    obtain ⟨hf, hqw⟩ := mem_triggers.mp hg
    rcases ((goes_iff_goesWith ht h).mp hq).2 with hqv | ⟨f', hf', hcascade', htarget', hqf'⟩
    · obtain rfl : w = v := Option.some_inj.mp (hqw.2.symm.trans hqv.2)
      exact ⟨f, hf, hnull, hqw.1.symm.trans hqv.1, hcol, hhits⟩
    · exact absurd (hqw.1.symm.trans hqf'.1)
        ((shallow_keys t ht f' hf' htarget').2 hcascade' f hf)
  · rintro ⟨f, hf, hnull, rfl, hcol, hhits⟩
    obtain ⟨q, hq, hkey⟩ := h.foreign f hf r hr v hhits
    exact ⟨⟨f, v⟩, ⟨q, .deleted hq (decide_eq_true hkey), mem_triggers.mpr ⟨hf, hkey⟩⟩, hnull, hcol,
      hhits⟩

end Shallow

/-- **Deleting a user, a runner, or anything that no build is made of.** Every order of the triggers
accepts the deletion and leaves the same rows: what belongs to the row goes with it, and what only
refers to it stays, without the reference. -/
theorem shallow_delete {t : Table} (ht : t ∈ shallow) (v : Value) (h : schema.Consistent rows)
    (out : Option (List TableRow)) : schema.Outcome (schema.delete (byKey t v) rows) out ↔
      out = some ((rows.filter fun r ↦ ¬GoesWith t v r).map (forget t v)) := by
  have hfree : ∀ q, schema.Goes (byKey t v) rows q → ∀ f ∈ schema.foreignKeys, f.target = q.table →
      f.onDelete ≠ .restrict := by
    intro q hq f hf htarget
    rcases ((goes_iff_goesWith ht h).mp hq).2 with hqv | ⟨f', hf', hcascade', htarget', hqf'⟩
    · exact (shallow_keys t ht f hf (htarget.trans hqv.1)).1
    · exact absurd (htarget.trans hqf'.1) ((shallow_keys t ht f' hf' htarget').2 hcascade' f hf)
  have hremaining := remaining_eq (p := byKey t v) (fun r hr ↦ (goes_iff_goesWith ht h).trans
    (and_iff_right hr)) (cleared_eq_forget ht h)
  have hsome : ∀ out, schema.Outcome (schema.delete (byKey t v) rows) out →
      out = some ((rows.filter fun r ↦ ¬GoesWith t v r).map (forget t v)) := by
    intro out hout
    obtain ⟨rows', rfl⟩ := Option.isSome_iff_exists.mp (outcome_isSome schema_wellFormed hfree hout)
    rw [← hremaining, ((outcome_iff schema_wellFormed).mp hout).2]
  refine ⟨hsome out, ?_⟩
  rintro rfl
  obtain ⟨out, hout⟩ := exists_outcome schema (schema.delete (byKey t v) rows)
  exact hsome out hout ▸ hout

theorem shallow_delete_user : schema.Outcome
    (schema.delete (byKey users (.text (lit "usr_1"))) sampleRows)
    (some ((sampleRows.filter fun r ↦ ¬GoesWith users (.text (lit "usr_1")) r).map
      (forget users (.text (lit "usr_1"))))) :=
  (shallow_delete (by decide) _ sampleRows_consistent _).mpr rfl

/-! ## Projects

A build is of a project, and its profile is of one; that they are the same project is nowhere said.
The same goes for a submission and the build of its artifact. -/

/-- The row is of a build of the project. -/
def BuiltIn (v : Value) (rows : List TableRow) (r : TableRow) : Prop :=
  ∃ b ∈ rows, b.Has builds projectId v ∧ ∃ w ∈ b.value id, r.value buildId = some w

/-- The row is of the project, or of one of its builds. -/
def PartOf (v : Value) (rows : List TableRow) (r : TableRow) : Prop :=
  GoesWith projects v r ∨
    (∃ f ∈ foreignKeys, f.onDelete = .cascade ∧ f.target = builds ∧ f.table = r.table) ∧
      BuiltIn v rows r

instance (v : Value) (r : TableRow) : Decidable (BuiltIn v rows r) :=
  inferInstanceAs (Decidable (∃ b ∈ rows, _ ∧ ∃ w ∈ b.value id, _))

instance (v : Value) (r : TableRow) : Decidable (PartOf v rows r) :=
  inferInstanceAs (Decidable (_ ∨ (∃ f ∈ foreignKeys, _) ∧ _))

theorem project_keys : ∀ f ∈ foreignKeys, f.target = projects → ∀ f' ∈ foreignKeys,
    f'.target = f.table → f'.onDelete = .cascade → f.table = builds ∧ f.column = projectId := by
  decide

theorem build_keys : ∀ f ∈ foreignKeys, f.target = builds → f.column = buildId ∧
    f.onDelete = .cascade ∧ ∀ f' ∈ foreignKeys, f'.target = f.table → f'.onDelete = .restrict := by
  decide

theorem goes_iff_partOf (h : schema.Consistent rows) {v : Value} {r : TableRow} :
    schema.Goes (byKey projects v) rows r ↔ r ∈ rows ∧ PartOf v rows r := by
  constructor
  · intro hr
    induction hr with
    | deleted hr hv => exact ⟨hr, Or.inl (Or.inl (of_decide_eq_true hv))⟩
    | @cascaded r q f hr hf hcascade hq href ih =>
      obtain ⟨w, hrw, hqw⟩ := href
      refine ⟨hr, ?_⟩
      rcases ih.2 with (hqv | ⟨f', hf', -, htarget', hqf'⟩) | ⟨⟨f', hf', -, htarget', htable'⟩, -⟩
      · obtain rfl : w = v := Option.some_inj.mp (hqw.2.symm.trans hqv.2)
        exact Or.inl (Or.inr ⟨f, hf, hcascade, hqw.1.symm.trans hqv.1, hrw⟩)
      · -- the row that goes is a build
        have hft : f.target = f'.table := hqw.1.symm.trans hqf'.1
        obtain ⟨htable, hcol⟩ := project_keys f' hf' htarget' f hf hft hcascade
        rw [htable, hcol] at hqf'
        have hbuild := build_keys f hf (hft.trans htable)
        exact Or.inr ⟨⟨f, hf, hcascade, hft.trans htable, hrw.1.symm⟩, q, ih.1, hqf', w, hqw.2,
          hbuild.1 ▸ hrw.2⟩
      · have haction := (build_keys f' hf' htarget').2.2 f hf (hqw.1.symm.trans htable'.symm)
        simp [haction] at hcascade
  · rintro ⟨hr, hv | ⟨⟨f, hf, hcascade, htarget, htable⟩, b, hb, hbv, w, hw, hrw⟩⟩
    · exact goes_of_goesWith h hr hv
    · have hbuild : schema.Goes (byKey projects v) rows b :=
        goes_of_goesWith h hb (Or.inr ⟨⟨builds, projectId, projects, .cascade⟩, by decide, rfl, rfl,
          hbv⟩)
      refine .cascaded hr hf hcascade hbuild ⟨w, ⟨htable.symm, ?_⟩, hbv.1.trans htarget.symm, hw⟩
      rw [(build_keys f hf htarget).1, hrw]

theorem partOf_build {v : Value} {b : TableRow} (hb : b.table = builds) :
    PartOf v rows b ↔ b.Has builds projectId v := by
  simp [PartOf, GoesWith, foreignKeys, Row.Has, hb]

theorem partOf_profile {v : Value} {q : TableRow} (hq : q.table = buildProfiles) :
    PartOf v rows q ↔ q.Has buildProfiles projectId v := by
  simp [PartOf, GoesWith, foreignKeys, Row.Has, hq]

theorem partOf_artifact {v : Value} {a : TableRow} (ha : a.table = artifacts) :
    PartOf v rows a ↔ BuiltIn v rows a := by
  simp [PartOf, GoesWith, foreignKeys, Row.Has, ha]

theorem partOf_submission {v : Value} {s : TableRow} (hs : s.table = submissions) :
    PartOf v rows s ↔ s.Has submissions projectId v ∨ BuiltIn v rows s := by
  simp [PartOf, GoesWith, foreignKeys, Row.Has, hs]

theorem clears_no_part {v : Value} : ∀ f ∈ foreignKeys, f.onDelete = .setNull →
    ∀ q : TableRow, PartOf v rows q → q.table ≠ f.target := by
  have hkeys : ∀ f ∈ foreignKeys, f.onDelete = .setNull → f.target ≠ projects ∧
      ∀ f' ∈ foreignKeys, f'.target = projects ∨ f'.target = builds → f'.table ≠ f.target := by
    decide
  intro f hf hnull q hq
  rcases hq with (hq | ⟨f', hf', -, htarget', hq⟩) | ⟨⟨f', hf', -, htarget', htable'⟩, -⟩
  · exact fun ht ↦ (hkeys f hf hnull).1 (ht.symm.trans hq.1)
  · exact fun ht ↦ (hkeys f hf hnull).2 f' hf' (Or.inl htarget') (hq.1.symm.trans ht)
  · exact fun ht ↦ (hkeys f hf hnull).2 f' hf' (Or.inr htarget') (htable'.trans ht)

/-- **Deleting a project.** Whatever the order of the triggers, an accepted deletion takes out the
rows of the project and of its builds and leaves every other row as it is. Some order accepts it if
and only if no build of another project uses a profile of this one, and no submission that is not of
this project, nor of a build of it, submits an artifact of its builds. -/
theorem project_delete_iff (h : schema.Consistent rows) (v : Value) :
    (∀ rows', schema.Outcome (schema.delete (byKey projects v) rows) (some rows') →
        rows' = rows.filter fun r ↦ ¬PartOf v rows r) ∧
      ((∃ rows', schema.Outcome (schema.delete (byKey projects v) rows) (some rows')) ↔
        (∀ b ∈ rows, ∀ q ∈ rows, ∀ w, b.Has builds buildProfileId w → q.Has buildProfiles id w →
          q.Has buildProfiles projectId v → b.Has builds projectId v) ∧
        ∀ s ∈ rows, ∀ a ∈ rows, ∀ w, s.Has submissions artifactId w → a.Has artifacts id w →
          BuiltIn v rows a → s.Has submissions projectId v ∨ BuiltIn v rows s) := by
  have hclear : ∀ r ∈ rows, r.cleared (schema.SetOff (byKey projects v) rows) = r := by
    intro r _
    have hnone : ∀ g : Trigger Table Column Value, g.foreignKey.onDelete = .setNull →
        (schema.SetOff (byKey projects v) rows g ↔ False) := by
      refine fun g hnull ↦ iff_false_intro ?_
      rintro ⟨q, hq, hg⟩
      exact clears_no_part _ (mem_triggers.mp hg).1 hnull q ((goes_iff_partOf h).mp hq).2
        (mem_triggers.mp hg).2.1
    rw [cleared_congr hnone, cleared_false]
  have hremaining := remaining_eq (p := byKey projects v)
    (fun r hr ↦ (goes_iff_partOf h).trans (and_iff_right hr)) hclear
  constructor
  · intro rows' hout
    rw [((outcome_iff schema_wellFormed).mp hout).2, hremaining, List.map_id']
  · simp only [outcome_iff schema_wellFormed, exists_and_left, exists_eq, and_true]
    constructor
    · intro hfree
      constructor
      · intro b hb q hq w hbw hqw hqv
        by_contra hbv
        refine hfree ⟨b, hb, fun hgoes ↦ hbv ?_, ⟨builds, buildProfileId, buildProfiles, .restrict⟩,
          by decide, rfl, q, (goes_iff_partOf h).mpr ⟨hq, (partOf_profile hqw.1).mpr hqv⟩, w, hbw,
          hqw⟩
        exact (partOf_build hbw.1).mp ((goes_iff_partOf h).mp hgoes).2
      · intro s hs a ha w hsw haw hav
        by_contra hsv
        refine hfree ⟨s, hs, fun hgoes ↦ hsv ?_, ⟨submissions, artifactId, artifacts, .restrict⟩,
          by decide, rfl, a, (goes_iff_partOf h).mpr ⟨ha, (partOf_artifact haw.1).mpr hav⟩, w, hsw,
          haw⟩
        exact (partOf_submission hsw.1).mp ((goes_iff_partOf h).mp hgoes).2
    · rintro ⟨hprofiles, hartifacts⟩ ⟨r, hr, hstays, f, hf, haction, q, hq, w, hrw, hqw⟩
      obtain ⟨hq, hpart⟩ := (goes_iff_partOf h).mp hq
      refine hstays ((goes_iff_partOf h).mpr ⟨hr, ?_⟩)
      have hcases : ∀ f ∈ foreignKeys, f.onDelete = .restrict →
          f = ⟨builds, buildProfileId, buildProfiles, .restrict⟩ ∨
            f = ⟨submissions, artifactId, artifacts, .restrict⟩ := by decide
      rcases hcases f hf haction with rfl | rfl
      · exact (partOf_build hrw.1).mpr
          (hprofiles r hr q hq w hrw hqw ((partOf_profile hqw.1).mp hpart))
      · exact (partOf_submission hrw.1).mpr
          (hartifacts r hr q hq w hrw hqw ((partOf_artifact hqw.1).mp hpart))

theorem project_delete_sample : ∃ rows', schema.Outcome
    (schema.delete (byKey projects (.text (lit "prj_1"))) sampleRows) (some rows') := by
  have hbuilds : ∀ b ∈ sampleRows, b.table = builds →
      b.Has builds projectId (.text (lit "prj_1")) := by decide +kernel
  have hsubmissions : ∀ s ∈ sampleRows, s.table ≠ submissions := by decide +kernel
  refine ((project_delete_iff sampleRows_consistent (.text (lit "prj_1"))).2).mpr
    ⟨fun b hb _ _ _ hbw _ _ ↦ hbuilds b hb hbw.1, fun s hs _ _ _ hsw _ _ ↦ ?_⟩
  exact absurd hsw.1 (hsubmissions s hs)

end Migration

end NativeKiln
