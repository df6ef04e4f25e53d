import NativeKiln.Api.Authentication
import NativeKiln.Database.Schema

/-!
# The API as a client of the database

The operations of the API check constraints themselves, each the ones it can run into. Here they are
held against the migrated schema: the database operations of a run, in the order in which they are
carried out, are statements that the schema accepts, and an insert is refused by the operation
exactly when the schema refuses it. So the constraints hold in every state of the API.

Only the columns that constraints are about are compared; a refresh and the time of the last login
change none of them.
-/

namespace NativeKiln

open JsString (lit)
open Interaction (Config Throughout)
open Tables
open Migration (schema TableRow SqlStatement schema_wellFormed)

/-! ## Rows -/

def User.row (u : User) : TableRow :=
  Migration.rowOf .users [(.id, .text u.id), (.email, .text u.email)]

def SessionData.row (d : SessionData) : TableRow :=
  Migration.rowOf .sessions
    [(.id, .text d.id), (.userId, .text d.userId), (.tokenHash, .text d.tokenHash)]

def AuditEvent.row (a : AuditEvent) : TableRow :=
  Migration.rowOf .auditEvents [(.id, .text a.id), (.userId, .text a.userId)]

/-- The rows of the three tables. -/
def World.tableRows (w : World) : List TableRow :=
  w.users.map User.row ++ (w.rows.map SessionData.row ++ w.auditEvents.map AuditEvent.row)

/-- The statement that an operation is, if it changed what a constraint is about. -/
def Op.statement? : (o : Op) → Except Exn o.Val → Option SqlStatement
  | .sessionCreate d, .ok _ => some (.insert d.row)
  | .auditEventCreate a, .ok _ => some (.insert a.row)
  | .sessionDelete id, .ok _ => some (.delete (Migration.byKey .sessions (.text id)))
  | .sessionDeleteMany hash, .ok _ =>
    some (.delete fun r ↦ decide (r.Has .sessions .tokenHash (.text hash)))
  | _, _ => none

/-- The statement that an event carried out. -/
def statement? {ι ρ : Type} (e : WorldEvent ι ρ) : Option SqlStatement :=
  e.done.bind fun a ↦ a.1.statement? a.2

/-- The statements are executed one after another. -/
inductive Executed : List TableRow → List SqlStatement → List TableRow → Prop
  | nil (rows) : Executed rows [] rows
  | concat {rows as rows' a rows''} (h : Executed rows as rows')
    (ha : schema.Executes rows' a rows'') : Executed rows (as ++ [a]) rows''

/-! ## What the schema asks of an insert -/

section Insert

variable {w : World}

theorem mem_tableRows {r : TableRow} : r ∈ w.tableRows ↔ (∃ u ∈ w.users, u.row = r) ∨
    (∃ d ∈ w.rows, d.row = r) ∨ ∃ a ∈ w.auditEvents, a.row = r := by
  simp [World.tableRows]

theorem mem_sessionRows {r : TableRow} (ht : r.table = .sessions) :
    r ∈ w.tableRows ↔ ∃ d ∈ w.rows, d.row = r := by
  rw [mem_tableRows]
  refine ⟨?_, fun h ↦ Or.inr (Or.inl h)⟩
  rintro (⟨u, -, rfl⟩ | h | ⟨a, -, rfl⟩)
  · exact absurd ht (by simp [User.row, Migration.rowOf])
  · exact h
  · exact absurd ht (by simp [AuditEvent.row, Migration.rowOf])

theorem mem_auditRows {r : TableRow} (ht : r.table = .auditEvents) :
    r ∈ w.tableRows ↔ ∃ a ∈ w.auditEvents, a.row = r := by
  rw [mem_tableRows]
  refine ⟨?_, fun h ↦ Or.inr (Or.inr h)⟩
  rintro (⟨u, -, rfl⟩ | ⟨d, -, rfl⟩ | h)
  · exact absurd ht (by simp [User.row, Migration.rowOf])
  · exact absurd ht (by simp [SessionData.row, Migration.rowOf])
  · exact h

theorem exists_user_row {v : JsString} {rows : List TableRow}
    (hrows : ∀ r ∈ rows, r.table ≠ .users) :
    (∃ q ∈ w.tableRows ++ rows, q.Has .users .id (.text v)) ↔ ∃ u ∈ w.users, u.id = v := by
  constructor
  · rintro ⟨q, hq, ht, hv⟩
    rcases List.mem_append.mp hq with hq | hq
    · rcases mem_tableRows.mp hq with ⟨u, hu, rfl⟩ | ⟨d, -, rfl⟩ | ⟨a, -, rfl⟩
      · exact ⟨u, hu, Value.text.inj (Option.some_inj.mp hv)⟩
      · exact absurd ht (by simp [SessionData.row, Migration.rowOf])
      · exact absurd ht (by simp [AuditEvent.row, Migration.rowOf])
    · exact absurd ht (hrows q hq)
  · rintro ⟨u, hu, rfl⟩
    exact ⟨u.row, List.mem_append_left _ (mem_tableRows.mpr (Or.inl ⟨u, hu, rfl⟩)), rfl, rfl⟩

/-- A row fits where its single columns are new, when every unique index of its table is over one
of them. -/
theorem fits_iff_columns {r : TableRow} {rows : List TableRow} (cols : List Column)
    (hnull : ∀ c ∈ schema.notNull r.table, r.value c ≠ none)
    (hindexes : ∀ u ∈ schema.unique, u.1 = r.table → ∃ c ∈ cols, u.2 = [c])
    (hcols : ∀ c ∈ cols, (r.table, [c]) ∈ schema.unique ∧ r.value c ≠ none) :
    schema.Fits r rows ↔
      ∀ r' ∈ rows, r'.table = r.table → ∀ c ∈ cols, r'.value c ≠ r.value c := by
  rw [fits_iff]
  constructor
  · rintro ⟨-, h⟩ r' hr' ht c hc
    have hsome : ∀ c' ∈ [c], (r.value c').isSome := by
      simpa using Option.ne_none_iff_isSome.mp (hcols c hc).2
    obtain ⟨c', hc', hne⟩ := h (r.table, [c]) (hcols c hc).1 rfl hsome r' hr' ht
    obtain rfl := List.mem_singleton.mp hc'
    exact hne
  · refine fun h ↦ ⟨hnull, fun u hu ht _ r' hr' ht' ↦ ?_⟩
    obtain ⟨c, hc, heq⟩ := hindexes u hu ht
    exact ⟨c, by simp [heq], h r' hr' ht' c hc⟩

theorem fits_session {d : SessionData} : schema.Fits d.row w.tableRows ↔
    ∀ d' ∈ w.rows, d'.id ≠ d.id ∧ d'.tokenHash ≠ d.tokenHash := by
  rw [fits_iff_columns [.id, .tokenHash]]
  · constructor
    · intro h d' hd'
      have hrow := h d'.row ((mem_sessionRows rfl).mpr ⟨d', hd', rfl⟩) rfl
      exact ⟨fun heq ↦ hrow .id (by simp) (congrArg (some ∘ Value.text) heq),
        fun heq ↦ hrow .tokenHash (by simp) (congrArg (some ∘ Value.text) heq)⟩
    · intro h r' hr' ht c hc heq
      obtain ⟨d', hd', rfl⟩ := (mem_sessionRows ht).mp hr'
      rcases List.mem_pair.mp hc with rfl | rfl
      · exact (h d' hd').1 (Value.text.inj (Option.some_inj.mp heq))
      · exact (h d' hd').2 (Value.text.inj (Option.some_inj.mp heq))
  · intro c hc
    have hcols : c ∈ [Column.id, .userId, .tokenHash] := hc
    simp only [List.mem_cons, List.not_mem_nil, or_false] at hcols
    rcases hcols with rfl | rfl | rfl <;> exact Option.some_ne_none _
  · exact (by decide : ∀ u ∈ schema.unique, u.1 = .sessions → ∃ c ∈ [.id, .tokenHash], u.2 = [c])
  · intro c hc
    rcases List.mem_pair.mp hc with rfl | rfl
    · exact ⟨(by decide : (Table.sessions, [Column.id]) ∈ schema.unique), Option.some_ne_none _⟩
    · exact ⟨(by decide : (Table.sessions, [Column.tokenHash]) ∈ schema.unique),
        Option.some_ne_none _⟩

theorem fits_audit {a : AuditEvent} : schema.Fits a.row w.tableRows ↔
    ∀ a' ∈ w.auditEvents, a'.id ≠ a.id := by
  rw [fits_iff_columns [.id]]
  · constructor
    · intro h a' ha' heq
      exact h a'.row ((mem_auditRows rfl).mpr ⟨a', ha', rfl⟩) rfl .id (by simp)
        (congrArg (some ∘ Value.text) heq)
    · intro h r' hr' ht c hc heq
      obtain ⟨a', ha', rfl⟩ := (mem_auditRows ht).mp hr'
      obtain rfl := List.mem_singleton.mp hc
      exact h a' ha' (Value.text.inj (Option.some_inj.mp heq))
  · intro c hc
    obtain rfl : c = .id := List.mem_singleton.mp hc
    exact Option.some_ne_none _
  · exact (by decide : ∀ u ∈ schema.unique, u.1 = .auditEvents → ∃ c ∈ [.id], u.2 = [c])
  · intro c hc
    obtain rfl := List.mem_singleton.mp hc
    exact ⟨(by decide : (Table.auditEvents, [Column.id]) ∈ schema.unique), Option.some_ne_none _⟩

theorem anchored_iff_user {r : TableRow} {v : JsString} (hkeys : ∀ f ∈ schema.foreignKeys,
      f.table = r.table → f.column = .userId ∧ f.target = .users)
    (hkey : ∃ f ∈ schema.foreignKeys, f.table = r.table)
    (hv : r.value .userId = some (.text v)) (ht : r.table ≠ .users) :
    schema.Anchored r (w.tableRows ++ [r]) ↔ ∃ u ∈ w.users, u.id = v := by
  have hrows : ∀ r' ∈ [r], r'.table ≠ .users := by simpa using ht
  rw [← exists_user_row hrows]
  constructor
  · intro h
    obtain ⟨f, hf, hft⟩ := hkey
    obtain ⟨hcol, htarget⟩ := hkeys f hf hft
    have hanchor := h f hf (.text v) ⟨hft.symm, by rw [hcol, hv]⟩
    rwa [htarget] at hanchor
  · rintro h f hf w' ⟨hft, hw'⟩
    obtain ⟨hcol, htarget⟩ := hkeys f hf hft.symm
    rw [hcol, hv] at hw'
    obtain rfl := Option.some_inj.mp hw'
    rw [htarget]
    exact h

theorem anchored_session {d : SessionData} :
    schema.Anchored d.row (w.tableRows ++ [d.row]) ↔ ∃ u ∈ w.users, u.id = d.userId :=
  anchored_iff_user (r := d.row) (by decide : ∀ f ∈ schema.foreignKeys, f.table = .sessions →
    f.column = .userId ∧ f.target = .users) ⟨⟨.sessions, .userId, .users, .cascade⟩, by decide, rfl⟩
    rfl (by decide : Table.sessions ≠ .users)

theorem anchored_audit {a : AuditEvent} :
    schema.Anchored a.row (w.tableRows ++ [a.row]) ↔ ∃ u ∈ w.users, u.id = a.userId :=
  anchored_iff_user (r := a.row) (by decide : ∀ f ∈ schema.foreignKeys, f.table = .auditEvents →
    f.column = .userId ∧ f.target = .users)
    ⟨⟨.auditEvents, .userId, .users, .setNull⟩, by decide, rfl⟩ rfl
    (by decide : Table.auditEvents ≠ .users)

end Insert

/-! ## Operations and statements -/

section Exec

variable {P : Platform} {y : Bytes} {w w' : World}

theorem accepted_iff {ε : Type} {taken known : Bool} {e e' : ε} {w₁ : World} :
    (∃ w', (if taken then some (w, .error e) else if known then some (w₁, .ok ())
        else some (w, .error e') : Option (World × Except ε Unit)) = some (w', .ok ())) ↔
      taken = false ∧ known := by
  rcases taken with _ | _ <;> rcases known with _ | _ <;> simp

theorem executes_insert_iff {rows : List TableRow} {r : TableRow} :
    (∃ rows', schema.Executes rows (.insert r) rows') ↔
      schema.Fits r rows ∧ schema.Anchored r (rows ++ [r]) := by
  constructor
  · rintro ⟨rows', ⟨hfits, hanchored⟩⟩
    exact ⟨hfits, hanchored⟩
  · rintro ⟨hfits, hanchored⟩
    exact ⟨_, .insert hfits hanchored⟩

theorem sessionCreate_iff {d : SessionData} :
    (∃ w', World.exec P y w (.sessionCreate d) = some (w', .ok ())) ↔
      ∃ rows, schema.Executes w.tableRows (.insert d.row) rows := by
  rw [executes_insert_iff, fits_session, anchored_session]
  refine accepted_iff.trans (and_congr ?_ ?_)
  · simp [World.rows, Session.data]
  · simp

theorem auditEventCreate_iff {a : AuditEvent} :
    (∃ w', World.exec P y w (.auditEventCreate a) = some (w', .ok ())) ↔
      ∃ rows, schema.Executes w.tableRows (.insert a.row) rows := by
  rw [executes_insert_iff, fits_audit, anchored_audit]
  refine accepted_iff.trans (and_congr ?_ ?_) <;> simp

/-! ### Executing what was carried out -/

theorem has_row_id {d : SessionData} {v : JsString} :
    d.row.Has .sessions .id (.text v) ↔ d.id = v :=
  ⟨fun h ↦ Value.text.inj (Option.some_inj.mp h.2), fun h ↦ ⟨rfl, congrArg (some ∘ Value.text) h⟩⟩

theorem has_row_tokenHash {d : SessionData} {v : JsString} :
    d.row.Has .sessions .tokenHash (.text v) ↔ d.tokenHash = v :=
  ⟨fun h ↦ Value.text.inj (Option.some_inj.mp h.2), fun h ↦ ⟨rfl, congrArg (some ∘ Value.text) h⟩⟩

theorem executes_insert {rows : List TableRow} (hperm : rows.Perm w.tableRows) {r : TableRow}
    (h : ∃ rows', schema.Executes w.tableRows (.insert r) rows') :
    schema.Executes rows (.insert r) (rows ++ [r]) := by
  obtain ⟨hfits, hanchored⟩ := executes_insert_iff.mp h
  refine .insert ((fits_congr fun _ ↦ hperm.mem_iff).mpr hfits) ((anchored_congr fun q ↦ ?_).mpr
    hanchored)
  rw [List.mem_append, List.mem_append, hperm.mem_iff]

theorem executes_delete (rows : List TableRow) {p : TableRow → Bool}
    (hp : ∀ r, p r → r.table = .sessions) :
    schema.Executes rows (.delete p) (rows.filter fun r ↦ !p r) := by
  have hkeys : ∀ f ∈ schema.foreignKeys, f.target ≠ .sessions := by decide
  refine .delete (outcome_of_no_triggers fun r _ hr ↦ ?_)
  refine List.eq_nil_iff_forall_not_mem.mpr fun g hg ↦ ?_
  obtain ⟨hf, htarget, -⟩ := mem_triggers.mp hg
  exact hkeys _ hf (htarget.symm.trans (hp r hr))

theorem filter_tableRows (w : World) {p : TableRow → Bool} (hp : ∀ r, p r → r.table = .sessions) :
    w.tableRows.filter (fun r ↦ !p r) = w.users.map User.row ++
      ((w.rows.filter fun d ↦ !p d.row).map SessionData.row ++
        w.auditEvents.map AuditEvent.row) := by
  have hother : ∀ r : TableRow, r.table ≠ .sessions → p r = false := fun r hr ↦
    Bool.eq_false_iff.mpr fun h ↦ hr (hp r h)
  rw [World.tableRows, List.filter_append, List.filter_append,
    List.filter_map (f := SessionData.row)]
  congr 1
  · refine List.filter_eq_self.mpr fun r hr ↦ ?_
    obtain ⟨u, -, rfl⟩ := List.mem_map.mp hr
    simp [hother u.row (by simp [User.row, Migration.rowOf])]
  · congr 1
    refine List.filter_eq_self.mpr fun r hr ↦ ?_
    obtain ⟨a, -, rfl⟩ := List.mem_map.mp hr
    simp [hother a.row (by simp [AuditEvent.row, Migration.rowOf])]

theorem executes_sessionCreate {d : SessionData} {rows : List TableRow}
    (h : World.exec P y w (.sessionCreate d) = some (w', .ok ())) (hperm : rows.Perm w.tableRows) :
    ∃ rows', schema.Executes rows (.insert d.row) rows' ∧ rows'.Perm w'.tableRows := by
  refine ⟨_, executes_insert hperm (sessionCreate_iff.mp ⟨w', h⟩), (hperm.append_right _).trans ?_⟩
  rw [World.exec] at h
  split at h
  · simp at h
  · split at h
    · obtain ⟨rfl, -⟩ := Prod.mk.inj (Option.some_inj.mp h)
      have hrows : World.rows { w with sessions := w.sessions ++ [World.sessionRow w.clock d] } =
          w.rows ++ [d] := rows_of_append (w := w) rfl
      rw [World.tableRows, World.tableRows, hrows, List.map_append, List.append_assoc,
        List.append_assoc, List.append_assoc]
      exact .append_left _ (.append_left _ List.perm_append_comm)
    · simp at h

theorem executes_auditEventCreate {a : AuditEvent} {rows : List TableRow}
    (h : World.exec P y w (.auditEventCreate a) = some (w', .ok ()))
    (hperm : rows.Perm w.tableRows) :
    ∃ rows', schema.Executes rows (.insert a.row) rows' ∧ rows'.Perm w'.tableRows := by
  refine ⟨_, executes_insert hperm (auditEventCreate_iff.mp ⟨w', h⟩),
    (hperm.append_right _).trans ?_⟩
  rw [World.exec] at h
  split at h
  · simp at h
  · split at h
    · obtain ⟨rfl, -⟩ := Prod.mk.inj (Option.some_inj.mp h)
      simp [World.tableRows, World.rows]
    · simp at h

theorem executes_sessions_filter {p : TableRow → Bool} (hp : ∀ r, p r → r.table = .sessions)
    {q : Session → Bool} (hq : ∀ s : Session, q s = !p s.data.row) {rows : List TableRow}
    (hperm : rows.Perm w.tableRows) : ∃ rows', schema.Executes rows (.delete p) rows' ∧
      rows'.Perm { w with sessions := w.sessions.filter q }.tableRows := by
  refine ⟨_, executes_delete rows hp, (hperm.filter _).trans (.of_eq ?_)⟩
  have hrows : World.rows { w with sessions := w.sessions.filter q } =
      w.rows.filter fun d ↦ !p d.row := rows_of_filter (List.filter_congr fun s _ ↦ hq s)
  rw [filter_tableRows w hp, World.tableRows, hrows]

theorem executes_sessionDelete {id : JsString} {rows : List TableRow}
    (h : World.exec P y w (.sessionDelete id) = some (w', .ok ())) (hperm : rows.Perm w.tableRows) :
    ∃ rows', schema.Executes rows (.delete (Migration.byKey .sessions (.text id))) rows' ∧
      rows'.Perm w'.tableRows := by
  rw [World.exec] at h
  split at h
  · obtain ⟨rfl, -⟩ := Prod.mk.inj (Option.some_inj.mp h)
    exact executes_sessions_filter (fun r hr ↦ (of_decide_eq_true hr).1)
      (fun s ↦ by simp [Migration.byKey, has_row_id, Session.data]) hperm
  · simp at h

theorem executes_sessionDeleteMany {hash : JsString} {n : ℕ} {rows : List TableRow}
    (h : World.exec P y w (.sessionDeleteMany hash) = some (w', .ok n))
    (hperm : rows.Perm w.tableRows) :
    ∃ rows', schema.Executes rows
        (.delete fun r ↦ decide (r.Has .sessions .tokenHash (.text hash))) rows' ∧
      rows'.Perm w'.tableRows := by
  obtain ⟨rfl, -⟩ := Prod.mk.inj (Option.some_inj.mp h)
  exact executes_sessions_filter (fun r hr ↦ (of_decide_eq_true hr).1)
    (fun s ↦ by simp [has_row_tokenHash, Session.data]) hperm

theorem tableRows_of_statement?_eq_none {o : Op} {r : Except Exn o.Val}
    (h : World.exec P y w o = some (w', r)) (hnone : o.statement? r = none) :
    w'.tableRows = w.tableRows := by
  match r, h, hnone with
  | .error e, h, _ => rw [World.eq_of_exec_error h]
  | .ok v, h, hnone =>
    have hrow : User.row ∘ User.account = User.row := rfl
    have husers : w'.users.map User.row = w.users.map User.row := by
      rw [← hrow, ← List.map_map, accounts_exec h, List.map_map]
    have hevents : w'.auditEvents = w.auditEvents := World.exec_auditEvents h (by
      rintro data rfl
      simp [Op.statement?] at hnone)
    have hrows : w'.rows = w.rows := by
      cases o with
      | sessionUpdate id t =>
        rw [World.exec] at h
        split at h
        · obtain ⟨rfl, -⟩ := Prod.mk.inj (Option.some_inj.mp h)
          exact rows_of_refresh (w := w) rfl
        · simp at h
      | sessionCreate d | sessionDelete id | sessionDeleteMany hash =>
        simp [Op.statement?] at hnone
      | _ =>
        rw [World.rows, World.exec_sessions h (by simp) (by simp) (by simp) (by simp), World.rows]
    rw [World.tableRows, World.tableRows, husers, hevents, hrows]

/-- **The step.** What an operation carries out is executed by its statement, and an operation
without one changes nothing that a constraint is about. -/
theorem exec_executes {o : Op} {r : Except Exn o.Val} (h : World.exec P y w o = some (w', r))
    {rows : List TableRow} (hperm : rows.Perm w.tableRows) :
    match o.statement? r with
    | some a => ∃ rows', schema.Executes rows a rows' ∧ rows'.Perm w'.tableRows
    | none => rows.Perm w'.tableRows := by
  cases hs : o.statement? r with
  | none => exact tableRows_of_statement?_eq_none h hs ▸ hperm
  | some a =>
    match o, r, h, hs with
    | .sessionCreate d, .ok _, h, rfl => exact executes_sessionCreate h hperm
    | .auditEventCreate d, .ok _, h, rfl => exact executes_auditEventCreate h hperm
    | .sessionDelete id, .ok _, h, rfl => exact executes_sessionDelete h hperm
    | .sessionDeleteMany hash, .ok _, h, rfl => exact executes_sessionDeleteMany h hperm

end Exec

theorem Executed.consistent {rows rows' : List TableRow} {as : List SqlStatement}
    (h : Executed rows as rows') (hrows : schema.Consistent rows) : schema.Consistent rows' := by
  induction h with
  | nil => exact hrows
  | concat _ ha ih => exact ha.consistent schema_wellFormed ih

section Run

variable {P : Platform} {w₀ : World} {c : Config Op Op.Val Exn Request Response World}

theorem executes_of_effect {e : ApiEvent} (h : (api P).Effect e) {rows : List TableRow}
    (hperm : rows.Perm e.before.tableRows) :
    match statement? e with
    | some a => ∃ rows', schema.Executes rows a rows' ∧ rows'.Perm e.after.tableRows
    | none => rows.Perm e.after.tableRows := by
  rw [statement?]
  match hd : e.done with
  | none => exact h.unchanged hd ▸ hperm
  | some ⟨o, r⟩ =>
    obtain ⟨y, hy⟩ := h.exec hd
    exact exec_executes hy hperm

/-- **The run.** The statements of a run, in their order, are executed by the schema, and what they
make of the rows is what the store holds. -/
theorem executed_of_reachable (hc : (api P).Reachable w₀ c) : ∃ rows,
    Executed w₀.tableRows (c.trace.filterMap statement?) rows ∧ rows.Perm c.store.tableRows := by
  have htrue : Throughout (fun _ _ ↦ True) c.trace := fun _ _ _ _ ↦ trivial
  refine hc.invariant (I := fun w tr ↦ ∃ rows,
    Executed w₀.tableRows (tr.filterMap statement?) rows ∧ rows.Perm w.tableRows) htrue
    ⟨_, .nil _, .rfl⟩ (fun _ _ _ h ↦ h) ?_
  rintro tr e ⟨rows, hrows, hperm⟩ heff -
  have hstep := executes_of_effect heff hperm
  rw [List.filterMap_append, List.filterMap_cons, List.filterMap_nil]
  split at hstep
  · next a ha =>
    obtain ⟨rows', hexec, hperm'⟩ := hstep
    rw [ha]
    exact ⟨rows', hrows.concat hexec, hperm'⟩
  · next ha =>
    rw [ha, List.append_nil]
    exact ⟨rows, hrows, hstep⟩

/-- **The API keeps to the migrated schema.** In every run, with any faults, the operations that are
carried out are statements that the schema executes one after another; so every index and every
reference is intact in every state. An insert is answered with an error of its own exactly when the
schema does not accept the row. -/
theorem api_statements (P : Platform) (w₀ : World) (h₀ : schema.Consistent w₀.tableRows)
    (c : Config Op Op.Val Exn Request Response World) (hc : (api P).Reachable w₀ c) :
    (∃ rows, Executed w₀.tableRows (c.trace.filterMap statement?) rows ∧
        rows.Perm c.store.tableRows) ∧
      schema.Consistent c.store.tableRows ∧
      ∀ e ∈ c.trace,
        (∀ d r, e.done = some ⟨.sessionCreate d, r⟩ →
          (r = .ok () ↔ ∃ rows, schema.Executes e.before.tableRows (.insert d.row) rows)) ∧
        ∀ a r, e.done = some ⟨.auditEventCreate a, r⟩ →
          (r = .ok () ↔ ∃ rows, schema.Executes e.before.tableRows (.insert a.row) rows) := by
  obtain ⟨rows, hrows, hperm⟩ := executed_of_reachable hc
  refine ⟨⟨rows, hrows, hperm⟩, (hrows.consistent h₀).perm hperm, fun e he ↦ ?_⟩
  obtain ⟨pre, post, htr⟩ := List.append_of_mem he
  have heff := hc.effects pre e post htr
  constructor
  · intro d r hd
    obtain ⟨y, hy⟩ := heff.exec hd
    refine Iff.trans ⟨?_, ?_⟩ (sessionCreate_iff (P := P) (y := y))
    · rintro rfl
      exact ⟨_, hy⟩
    · rintro ⟨w', hw'⟩
      exact (Prod.mk.inj (Option.some_inj.mp (hy.symm.trans hw'))).2
  · intro a r hd
    obtain ⟨y, hy⟩ := heff.exec hd
    refine Iff.trans ⟨?_, ?_⟩ (auditEventCreate_iff (P := P) (y := y))
    · rintro rfl
      exact ⟨_, hy⟩
    · rintro ⟨w', hw'⟩
      exact (Prod.mk.inj (Option.some_inj.mp (hy.symm.trans hw'))).2

end Run

theorem api_statements_loginLogout : ∃ rows, Executed sampleWorld.tableRows
    (Authentication.loginLogout.trace.filterMap statement?) rows :=
  (api_statements samplePlatform sampleWorld (by decide +kernel) Authentication.loginLogout
    (Interaction.System.reachable_run ..)).1.imp fun _ h ↦ h.1

end NativeKiln
