import NativeKiln.Credentials.Cipher
import NativeKiln.Shared.Errors
import NativeKiln.Tables.UniqueIndex
import Mathlib.Data.List.Induction
import Mathlib.Data.List.Infix

/-!
# The credentials table

`schema.prisma` with the constraints of the migration that creates the tables. A credential belongs
to a project, or to nobody, and then it is global; other tables refer to a credential by its name.

A unique index that is not deferrable is checked after every row, so a statement is the list of its
row writes, and a refused statement leaves nothing behind. The tables that are not modelled here can
only refuse more.

The index over `projectId` and `name` takes nulls for distinct. It keeps the names of a project
apart, and says nothing about the names of the global credentials (`credential_names_iff`).
-/

namespace NativeKiln

open JsString (lit)
open Tables

/-! ## Rows -/

inductive CredentialType
  | ANDROID_KEYSTORE
  | GOOGLE_SERVICE_ACCOUNT
  | APPLE_API_KEY
  | APPLE_DISTRIBUTION_CERT
  | APPLE_PROVISIONING_PROFILE
  | REPOSITORY_TOKEN
  | GENERIC
  deriving DecidableEq, Repr

structure Project where
  id : JsString
  slug : JsString

/-- A row of `credentials`; it is global when `projectId` is null. -/
structure Credential where
  id : JsString
  projectId : Option JsString
  name : JsString
  type : CredentialType
  /-- `keyVersion`, `nonce`, `ciphertext` and `authTag`. -/
  value : EncryptedValue
  /-- Safe, non-secret metadata. -/
  metadata : Option Json

/-- What the two tables hold. -/
structure TableRows where
  projects : List Project
  credentials : List Credential

/-- The constraints, by the names the migration gives them. -/
structure TableRows.Consistent (t : TableRows) : Prop where
  projects_pkey : UniqueIn (fun p : Project ↦ some p.id) t.projects
  projects_slug_key : UniqueIn (fun p : Project ↦ some p.slug) t.projects
  credentials_pkey : UniqueIn (fun c : Credential ↦ some c.id) t.credentials
  credentials_projectId_name_key :
    UniqueIn (scopedEntry Credential.projectId Credential.name) t.credentials
  credentials_projectId_fkey :
    ∀ c ∈ t.credentials, ∀ id ∈ c.projectId, ∃ p ∈ t.projects, p.id = id

instance (t : TableRows) : Decidable t.Consistent :=
  decidable_of_iff
    (UniqueIn (fun p : Project ↦ some p.id) t.projects ∧
      UniqueIn (fun p : Project ↦ some p.slug) t.projects ∧
      UniqueIn (fun c : Credential ↦ some c.id) t.credentials ∧
      UniqueIn (scopedEntry Credential.projectId Credential.name) t.credentials ∧
      ∀ c ∈ t.credentials, ∀ id ∈ c.projectId, ∃ p ∈ t.projects, p.id = id)
    ⟨fun ⟨h₁, h₂, h₃, h₄, h₅⟩ ↦ ⟨h₁, h₂, h₃, h₄, h₅⟩, fun ⟨h₁, h₂, h₃, h₄, h₅⟩ ↦
      ⟨h₁, h₂, h₃, h₄, h₅⟩⟩

/-- Tables that meet the constraints. -/
structure Database extends TableRows where
  /-- The constraints hold. -/
  consistent : toTableRows.Consistent

/-- The tables as the migration creates them. -/
def Database.empty : Database := ⟨⟨[], []⟩, by decide⟩

/-! ## Writes -/

/-- A write of one row. The new version of a row may differ from the old one in every column. -/
inductive Write
  | createCredential (row : Credential)
  | updateCredential (id : JsString) (row : Credential)
  | deleteCredential (id : JsString)
  | createProject (row : Project)
  | updateProject (id : JsString) (row : Project)
  | deleteProject (id : JsString)

/-- `ON UPDATE CASCADE`: a row follows its project to its new identifier. -/
def Credential.cascade (old new : JsString) (c : Credential) : Credential :=
  if c.projectId = some old then { c with projectId := some new } else c

/-- What a write does, before the constraints are checked. A new version of a row takes the place
of the old one; the credentials of a project follow it, or go with it. -/
def Write.apply (t : TableRows) : Write → TableRows
  | createCredential row => { t with credentials := t.credentials ++ [row] }
  | updateCredential id row =>
    if t.credentials.any (·.id = id) then
      { t with credentials := t.credentials.filter (·.id ≠ id) ++ [row] }
    else t
  | deleteCredential id => { t with credentials := t.credentials.filter (·.id ≠ id) }
  | createProject row => { t with projects := t.projects ++ [row] }
  | updateProject id row =>
    if t.projects.any (·.id = id) then
      { projects := t.projects.filter (·.id ≠ id) ++ [row]
        credentials := t.credentials.map (·.cascade id row.id) }
    else t
  | deleteProject id =>
    { projects := t.projects.filter (·.id ≠ id)
      credentials := t.credentials.filter (·.projectId ≠ some id) }

/-- The credential that a write stores, with the ones it leaves beside it. -/
def Write.stored (t : TableRows) : Write → Option (Credential × List Credential)
  | createCredential row => some (row, t.credentials)
  | updateCredential id row =>
    if t.credentials.any (·.id = id) then some (row, t.credentials.filter (·.id ≠ id)) else none
  | _ => none

/-- A global credential is not stored under a name that another global credential has. -/
def Write.KeepsGlobalNames (t : TableRows) (w : Write) : Prop :=
  ∀ row others, w.stored t = some (row, others) → row.projectId = none →
    ∀ c ∈ others, c.projectId = none → c.name ≠ row.name

/-- **What a write can do to the credentials.** It stores one of them, or takes some out, or moves
the ones of a project along with it. -/
inductive Write.Effect (t : TableRows) (w : Write) : Prop
  | store (row : Credential) (others : List Credential) (hw : w.stored t = some (row, others))
    (hothers : others.Sublist t.credentials) (h : (w.apply t).credentials = others ++ [row])
  | remove (hw : w.stored t = none) (h : (w.apply t).credentials.Sublist t.credentials)
  | move (hw : w.stored t = none) (old new : JsString)
    (h : (w.apply t).credentials = t.credentials.map (·.cascade old new))

theorem Write.effect (t : TableRows) (w : Write) : w.Effect t := by
  rcases w with row | ⟨id, row⟩ | id | row | ⟨id, row⟩ | id
  · exact .store row t.credentials rfl (.refl _) rfl
  · by_cases h : t.credentials.any (·.id = id)
    · refine .store row (t.credentials.filter (·.id ≠ id)) (if_pos h) List.filter_sublist ?_
      rw [apply, if_pos h]
    · refine .remove (if_neg h) ?_
      rw [apply, if_neg h]
  · exact .remove rfl List.filter_sublist
  · exact .remove rfl (.refl _)
  · by_cases h : t.projects.any (·.id = id)
    · refine .move rfl id row.id ?_
      rw [apply, if_pos h]
    · refine .remove rfl ?_
      rw [apply, if_neg h]
  · exact .remove rfl List.filter_sublist

/-! ## Statements -/

namespace Database

/-- Write a row; a write that breaks a constraint is refused. -/
def write (db : Database) (w : Write) : Option Database :=
  if h : (w.apply db.toTableRows).Consistent then some ⟨w.apply db.toTableRows, h⟩ else none

/-- A statement writes its rows one after another, all of them or none. -/
def execute (db : Database) (statement : List Write) : Option Database :=
  statement.foldlM write db

/-- Statements in turn; a refused one changes nothing. -/
def run (db : Database) (statements : List (List Write)) : Database :=
  statements.foldl (fun db statement ↦ (db.execute statement).getD db) db

/-- The row writes of the statements that are not refused. -/
def accepted (db : Database) : List (List Write) → List Write
  | [] => []
  | statement :: statements =>
    match db.execute statement with
    | none => db.accepted statements
    | some db' => statement ++ db'.accepted statements

/-- Row writes in turn; a refused one changes nothing. -/
def after (db : Database) (writes : List Write) : Database :=
  writes.foldl (fun db w ↦ (db.write w).getD db) db

/-- The credentials that go by a name within a scope. -/
def find (db : Database) (scope : Option JsString) (name : JsString) : List Credential :=
  db.credentials.filter fun c ↦ (c.projectId, c.name) = (scope, name)

/-- No two credentials have the same name in the same scope. -/
def NamesIdentify (db : Database) : Prop :=
  (db.credentials.map fun c ↦ (c.projectId, c.name)).Nodup

end Database

/-- The statements pass through a state: it is left by one of them, or by one row of one of them
that is not refused. -/
def Passes (statements : List (List Write)) (db : Database) : Prop :=
  ∃ writes, writes <+: Database.empty.accepted statements ∧ Database.empty.after writes = db

/-! ## Names -/

/-- The name of a global credential. -/
abbrev Credential.globalName : Credential → Option JsString :=
  Tables.globalName Credential.projectId Credential.name

@[simp] theorem Credential.globalName_cascade (old new : JsString) (c : Credential) :
    (c.cascade old new).globalName = c.globalName := by
  rw [cascade]
  split
  · next h => simp [Tables.globalName, h]
  · rfl

theorem Credential.globalName_eq_some {c : Credential} {name : JsString} :
    c.globalName = some name ↔ c.projectId = none ∧ c.name = name := by
  rcases hc : c.projectId with _ | id <;> simp [Tables.globalName, hc]

namespace Database

variable {db db' : Database} {w : Write} {statement writes : List Write}
  {statements : List (List Write)}

/-- **A lookup by name has at most one answer** if and only if no two credentials share a name. -/
theorem namesIdentify_iff_find :
    db.NamesIdentify ↔ ∀ scope name, (db.find scope name).length ≤ 1 := by
  rw [NamesIdentify, ← List.filterMap_eq_map, ← UniqueIn, unique_iff_length_le_one, Prod.forall]
  simp [find]

/-- The index takes care of the names within a project. -/
theorem namesIdentify_iff_global :
    db.NamesIdentify ↔ UniqueIn Credential.globalName db.credentials := by
  rw [NamesIdentify, unique_scoped_iff]
  exact and_iff_right db.consistent.credentials_projectId_name_key

theorem write_eq_some (h : db.write w = some db') : db'.toTableRows = w.apply db.toTableRows := by
  rw [write] at h
  split at h
  · rw [← Option.some_inj.mp h]
  · simp at h

/-- **One write.** The names still identify after it if and only if it stores no global credential
under a taken name. -/
theorem namesIdentify_write (hdb : db.NamesIdentify) (h : db.write w = some db') :
    db'.NamesIdentify ↔ w.KeepsGlobalNames db.toTableRows := by
  rw [namesIdentify_iff_global] at hdb ⊢
  rw [write_eq_some h]
  obtain ⟨row, others, hw, hothers, happly⟩ | ⟨hw, happly⟩ | ⟨hw, old, new, happly⟩ :=
    w.effect db.toTableRows
  · rw [happly, unique_concat, and_iff_right (hdb.sublist hothers)]
    constructor
    · intro hfree row' others' hw' hglobal c hc hc' hname
      obtain ⟨rfl, rfl⟩ := Prod.mk.inj (Option.some_inj.mp (hw.symm.trans hw'))
      have hrow : row.globalName = some row.name :=
        Credential.globalName_eq_some.mpr ⟨hglobal, rfl⟩
      exact hfree row.name hrow c hc (Credential.globalName_eq_some.mpr ⟨hc', hname⟩)
    · intro hkeeps name hrow c hc hcname
      obtain ⟨hglobal, rfl⟩ := Credential.globalName_eq_some.mp hrow
      obtain ⟨hc', hname⟩ := Credential.globalName_eq_some.mp hcname
      exact hkeeps row others hw hglobal c hc hc' hname
  · refine iff_of_true (hdb.sublist happly) fun row others hw' ↦ ?_
    rw [hw] at hw'
    exact absurd hw' (by simp)
  · refine iff_of_true ?_ fun row others hw' ↦ ?_
    · rw [happly, unique_map fun c _ ↦ Credential.globalName_cascade old new c]
      exact hdb
    · rw [hw] at hw'
      exact absurd hw' (by simp)

/-! ### Runs -/

theorem after_append (db : Database) (writes writes' : List Write) :
    db.after (writes ++ writes') = (db.after writes).after writes' := List.foldl_append

theorem after_of_execute (h : db.execute statement = some db') : db.after statement = db' := by
  induction statement generalizing db with
  | nil => exact Option.some_inj.mp h
  | cons w statement ih =>
    rw [execute, List.foldlM_cons] at h
    obtain ⟨db₁, hw, hrest⟩ := Option.bind_eq_some_iff.mp h
    rw [after, List.foldl_cons, hw]
    exact ih hrest

theorem execute_append (statement' : List Write) :
    db.execute (statement ++ statement') = (db.execute statement).bind (·.execute statement') :=
  List.foldlM_append

theorem execute_accepted : db.execute (db.accepted statements) = some (db.run statements) := by
  induction statements generalizing db with
  | nil => rfl
  | cons statement statements ih =>
    rw [accepted, run, List.foldl_cons, ← run]
    rcases h : db.execute statement with _ | db'
    · exact ih
    · rw [execute_append, h]
      exact ih

theorem accepted_append (statements' : List (List Write)) :
    db.accepted (statements ++ statements') =
      db.accepted statements ++ (db.run statements).accepted statements' := by
  induction statements generalizing db with
  | nil => rfl
  | cons statement statements ih =>
    rw [List.cons_append, accepted, accepted, run, List.foldl_cons, ← run]
    rcases db.execute statement with _ | db'
    · exact ih
    · rw [Option.getD_some, List.append_assoc, ← ih]

/-- No row write of a run is refused. -/
theorem exists_write (h : writes ++ [w] <+: db.accepted statements) :
    ∃ db', (db.after writes).write w = some db' ∧ db.after (writes ++ [w]) = db' := by
  obtain ⟨rest, hrest⟩ := h
  have hall : db.execute (db.accepted statements) = some (db.run statements) := execute_accepted
  rw [← hrest, List.append_assoc, execute_append] at hall
  obtain ⟨db₁, hwrites, hw⟩ := Option.bind_eq_some_iff.mp hall
  rw [List.singleton_append, execute, List.foldlM_cons] at hw
  obtain ⟨db₂, hw, -⟩ := Option.bind_eq_some_iff.mp hw
  rw [after_append, after_of_execute hwrites]
  refine ⟨db₂, hw, ?_⟩
  rw [after, List.foldl_cons, hw]
  rfl

end Database

theorem passes_run {statements pre : List (List Write)} (h : pre <+: statements) :
    Passes statements (Database.empty.run pre) := by
  obtain ⟨rest, rfl⟩ := h
  refine ⟨Database.empty.accepted pre, ?_, Database.after_of_execute Database.execute_accepted⟩
  rw [Database.accepted_append]
  exact List.prefix_append _ _

/-- **When names identify credentials.** Run any statements from empty tables, and look at all the
states they pass through. The names identify the credentials in all of them, so that a lookup by
name has at most one answer, if and only if no accepted write stores a global credential under the
name of another one. -/
theorem credential_names_iff (statements : List (List Write)) :
    (∀ db, Passes statements db →
      db.NamesIdentify ∧ ∀ scope name, (db.find scope name).length ≤ 1) ↔
      ∀ writes w, writes ++ [w] <+: Database.empty.accepted statements →
        w.KeepsGlobalNames (Database.empty.after writes).toTableRows := by
  constructor
  · intro h writes w hw
    obtain ⟨db', hdb', hafter⟩ := Database.exists_write hw
    have hbefore := h _ ⟨writes, (List.prefix_append _ _).trans hw, rfl⟩
    exact (Database.namesIdentify_write hbefore.1 hdb').mp (h db' ⟨_, hw, hafter⟩).1
  · rintro h db ⟨writes, hwrites, rfl⟩
    suffices hnames : (Database.empty.after writes).NamesIdentify from
      ⟨hnames, Database.namesIdentify_iff_find.mp hnames⟩
    induction writes using List.reverseRecOn with
    | nil => exact List.nodup_nil
    | append_singleton writes w ih =>
      have hnames := ih ((List.prefix_append _ _).trans hwrites)
      obtain ⟨db', hdb', hafter⟩ := Database.exists_write hwrites
      rw [hafter]
      exact (Database.namesIdentify_write hnames hdb').mpr (h writes w hwrites)

/-- A global service account. -/
def publisher (id : JsString) : Credential where
  id := id
  projectId := none
  name := lit "play-publisher"
  type := .GOOGLE_SERVICE_ACCOUNT
  value := ⟨1, lit "AAAAAAAAAAAAAAAA", lit "", lit "AAAAAAAAAAAAAAAAAAAAAA=="⟩
  metadata := none

/-- **Two answers to one name**: the second of two global credentials is stored under the name of
the first. -/
theorem global_names_collide :
    ((Database.empty.run [[.createCredential (publisher (lit "cred_a"))],
        [.createCredential (publisher (lit "cred_b"))]]).find none
          (lit "play-publisher")).map Credential.id = [lit "cred_a", lit "cred_b"] ∧
      ¬∀ statements, (Database.empty.run statements).NamesIdentify := by
  refine ⟨by decide +kernel, fun h ↦ ?_⟩
  have hnames := h [[.createCredential (publisher (lit "cred_a"))],
    [.createCredential (publisher (lit "cred_b"))]]
  rw [Database.NamesIdentify] at hnames
  revert hnames
  decide +kernel

end NativeKiln
