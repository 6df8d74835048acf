import ZcashMiningPool.Library.Scripts

/-!
# The schema and its migrations

`run_migrations` and `assert_critical_schema` of `pool-db/src/queries.rs` with the fourteen files
of `pool-db/migrations`, as far as the objects they create go: tables, their columns, indexes.

* `SqlStatement.execute` — one statement on the schema; `rawSql` — one file, left at its first
  error with what was executed until then; SQLite commits every statement of it by itself.
* `runMigrations` — one undisturbed start.  `pool-server` and the dashboard both run it, so starts
  of several processes interleave statement by statement; a statement is lost when the database
  stays locked for the busy timeout or the disk fails, and a process may be killed: these runs are
  `Scripts.step migrationScripts`.
* `execute_eq`, `runMigrations_eq` — the statements and the start are those of the library.

Main results: `accepted_schema_iff`, `restart_completes_iff`.
-/

set_option autoImplicit false
set_option linter.unusedSectionVars false

namespace ZcashMiningPool

open Scripts Machine

/-! ## Objects of the schema -/

inductive SqlTable where
  | miners | workers | shares | blocks | balances | payouts | poolStatus | payoutAttempts
  | blockCredits | orphanClawbacks | poolTxCosts | poolLabels | payoutItems | blockSubmissions
  | sharesRollup
  deriving DecidableEq, Repr

def SqlTable.name : SqlTable → String
  | .miners => "miners"
  | .workers => "workers"
  | .shares => "shares"
  | .blocks => "blocks"
  | .balances => "balances"
  | .payouts => "payouts"
  | .poolStatus => "pool_status"
  | .payoutAttempts => "payout_attempts"
  | .blockCredits => "block_credits"
  | .orphanClawbacks => "orphan_clawbacks"
  | .poolTxCosts => "pool_tx_costs"
  | .poolLabels => "pool_labels"
  | .payoutItems => "payout_items"
  | .blockSubmissions => "block_submissions"
  | .sharesRollup => "shares_rollup"

inductive SqlColumn where
  | id | address | createdAt | minerId | name | lastSeen | workerId | jobId | difficulty | isBlock
  | height | hash | reward | status | foundBy | pending | paid | txid | amount | luckPercent
  | lastDifficulty | key | value | updatedAt | sessionId | opid | minerCount | totalZatoshis
  | source | errorMessage | actualReward | blockId | acknowledged | ackNote | kind | ref | fee
  | recovered | costsRecovered | note | attemptId | paying | resolved | outcome | bucket | cnt
  | diffSum
  deriving DecidableEq, Repr

inductive SqlIndex where
  | sharesCreatedAt | sharesWorkerId | blocksStatus | blocksHeight | sharesWorkerCreatedDiff
  | payoutAttemptsOpid | payoutAttemptsTxid | payoutAttemptsStatusCreated | orphanClawbacksCreated
  | poolTxCostsUnrecovered | payoutItemsAttempt | blockSubmissionsOpen
  deriving DecidableEq, Repr

/-- A row of `sqlite_master`, or of `pragma_table_info`. -/
inductive SchemaObject where
  | table (t : SqlTable)
  | column (t : SqlTable) (c : SqlColumn)
  | index (i : SqlIndex)
  deriving DecidableEq, Repr

abbrev Schema := Finset SchemaObject

inductive SqlError where
  | noSuchTable
  | noSuchColumn
  | duplicateColumn
  deriving DecidableEq, Repr

/-- `CREATE TABLE IF NOT EXISTS`, `CREATE INDEX IF NOT EXISTS`, `ALTER TABLE … ADD COLUMN`. -/
inductive SqlStatement where
  | createTable (t : SqlTable) (columns : List SqlColumn)
  | createIndex (i : SqlIndex) (t : SqlTable) (columns : List SqlColumn)
  | addColumn (t : SqlTable) (c : SqlColumn)
  deriving DecidableEq, Repr

namespace SqlStatement

def execute (S : Schema) : SqlStatement → Except SqlError Schema
  | createTable t columns =>
    if .table t ∈ S then .ok S
    else .ok (S ∪ (.table t :: columns.map (.column t)).toFinset)
  | createIndex i t columns =>
    -- the table is looked up even when the index exists
    if .table t ∉ S then .error .noSuchTable
    else if .index i ∈ S then .ok S
    else if ∀ c ∈ columns, .column t c ∈ S then .ok (S ∪ [.index i].toFinset)
    else .error .noSuchColumn
  | addColumn t c =>
    if .table t ∉ S then .error .noSuchTable
    else if .column t c ∈ S then .error .duplicateColumn
    else .ok (S ∪ [.column t c].toFinset)

/-- The statement, in the terms of the library. -/
def toStatement : SqlStatement → Statement SchemaObject
  | createTable t columns => ⟨.table t, columns.map (.column t), [], [], false⟩
  | createIndex i t columns => ⟨.index i, [], [.table t], columns.map (.column t), false⟩
  | addColumn t c => ⟨.column t c, [], [.table t], [], true⟩

/-- A statement of the library does what the SQL statement does, and fails where it does. -/
theorem execute_eq (S : Schema) (q : SqlStatement) :
    (q.execute S).toOption = q.toStatement.exec S := by
  cases q with
  | createTable t columns =>
    simp only [execute, toStatement, Statement.exec, Statement.made]
    by_cases ht : SchemaObject.table t ∈ S
    · simp [ht, Except.toOption]
    · simp only [ht, if_false, Except.toOption]
      simp
  | createIndex i t columns =>
    simp only [execute, toStatement, Statement.exec, Statement.made, List.forall_mem_map,
      List.forall_mem_singleton]
    by_cases ht : SchemaObject.table t ∈ S
    · by_cases hi : SchemaObject.index i ∈ S
      · simp [ht, hi, Except.toOption]
      · simp only [ht, hi, if_false, if_true, not_true]
        split <;> rfl
    · simp [ht, Except.toOption]
  | addColumn t c =>
    simp only [execute, toStatement, Statement.exec, Statement.made]
    by_cases ht : SchemaObject.table t ∈ S
    · by_cases hc : SchemaObject.column t c ∈ S
      · simp [ht, hc, Except.toOption]
      · simp [ht, hc, Except.toOption]
    · simp [ht, Except.toOption]

end SqlStatement

/-! ## The files -/

open SqlStatement SqlTable SqlIndex

/-- `001_initial.sql` -/
def migration001 : List SqlStatement :=
  [createTable miners [.id, .address, .createdAt],
   createTable workers [.id, .minerId, .name, .lastSeen],
   createTable shares [.id, .workerId, .jobId, .difficulty, .isBlock, .createdAt],
   createTable blocks [.id, .height, .hash, .reward, .status, .foundBy, .createdAt],
   createTable balances [.minerId, .pending, .paid],
   createTable payouts [.id, .minerId, .txid, .amount, .createdAt],
   createIndex sharesCreatedAt shares [.createdAt],
   createIndex sharesWorkerId shares [.workerId],
   createIndex blocksStatus blocks [.status],
   createIndex blocksHeight blocks [.height]]

/-- `002_block_luck.sql` -/
def migration002 : List SqlStatement := [addColumn blocks .luckPercent]

/-- `003_share_indexes.sql` -/
def migration003 : List SqlStatement :=
  [createIndex sharesWorkerCreatedDiff shares [.workerId, .createdAt, .difficulty]]

/-- `004_worker_difficulty.sql` -/
def migration004 : List SqlStatement := [addColumn workers .lastDifficulty]

/-- `005_pool_status.sql` -/
def migration005 : List SqlStatement := [createTable poolStatus [.key, .value, .updatedAt]]

/-- `006_share_session_id.sql` -/
def migration006 : List SqlStatement := [addColumn shares .sessionId]

/-- `007_payout_attempts.sql` -/
def migration007 : List SqlStatement :=
  [createTable payoutAttempts [.id, .opid, .txid, .status, .minerCount, .totalZatoshis, .source,
     .errorMessage, .createdAt, .updatedAt],
   createIndex payoutAttemptsOpid payoutAttempts [.opid],
   createIndex payoutAttemptsTxid payoutAttempts [.txid],
   createIndex payoutAttemptsStatusCreated payoutAttempts [.status, .createdAt]]

/-- `008_block_credits.sql` -/
def migration008 : List SqlStatement :=
  [addColumn blocks .actualReward,
   createTable blockCredits [.blockId, .minerId, .amount],
   createTable orphanClawbacks [.id, .blockId, .minerId, .amount, .createdAt],
   createIndex orphanClawbacksCreated orphanClawbacks [.createdAt]]

/-- `009_clawback_ack_maturity.sql` -/
def migration009 : List SqlStatement :=
  [addColumn orphanClawbacks .acknowledged,
   addColumn orphanClawbacks .ackNote]

/-- `010_tx_costs.sql` -/
def migration010 : List SqlStatement :=
  [createTable poolTxCosts [.id, .kind, .ref, .fee, .recovered, .createdAt],
   createIndex poolTxCostsUnrecovered poolTxCosts [.recovered, .id],
   addColumn blocks .costsRecovered]

/-- `011_pool_labels.sql` -/
def migration011 : List SqlStatement := [createTable poolLabels [.address, .name, .note, .updatedAt]]

/-- `012_payout_reservation.sql` -/
def migration012 : List SqlStatement :=
  [createTable payoutItems [.id, .attemptId, .minerId, .amount, .createdAt],
   createIndex payoutItemsAttempt payoutItems [.attemptId],
   addColumn balances .paying]

/-- `013_block_submissions.sql` -/
def migration013 : List SqlStatement :=
  [createTable blockSubmissions [.id, .height, .hash, .workerId, .reward, .actualReward, .resolved,
     .outcome, .createdAt],
   createIndex blockSubmissionsOpen blockSubmissions [.resolved]]

/-- `014_shares_rollup.sql` -/
def migration014 : List SqlStatement := [createTable sharesRollup [.bucket, .cnt, .diffSum]]

/-- The files whose result `run_migrations` drops. -/
def bestEffortMigrations : List (List SqlStatement) :=
  [migration002, migration003, migration004, migration005, migration006, migration007,
   migration008, migration009, migration010, migration011, migration012, migration013,
   migration014]

/-- `sqlx::raw_sql(file).execute(pool)` -/
def rawSql : List SqlStatement → Schema → Schema × Except SqlError Unit
  | [], S => (S, .ok ())
  | q :: rest, S =>
    match q.execute S with
    | .ok S' => rawSql rest S'
    | .error e => (S, .error e)

/-- The first file's error is returned, the others' are not. -/
def runFiles (first : List SqlStatement) (bestEffort : List (List SqlStatement)) (S : Schema) :
    Schema × Except SqlError Unit :=
  match rawSql first S with
  | (S', .error e) => (S', .error e)
  | (S', .ok ()) => (bestEffort.foldl (fun T file => (rawSql file T).1) S', .ok ())

/-- `run_migrations` -/
def runMigrations (S : Schema) : Schema × Except SqlError Unit :=
  runFiles migration001 bestEffortMigrations S

def criticalTables : List SqlTable :=
  [miners, workers, shares, blocks, balances, payouts, payoutAttempts, payoutItems, blockCredits,
   orphanClawbacks, poolTxCosts, blockSubmissions, sharesRollup, poolStatus]

def criticalColumns : List (SqlTable × SqlColumn × String) :=
  [(balances, .paying, "paying"), (blocks, .actualReward, "actual_reward"),
   (blocks, .costsRecovered, "costs_recovered")]

/-- `assert_critical_schema` -/
def assertCriticalSchema (S : Schema) : Except String Unit :=
  match criticalTables.find? fun t => .table t ∉ S with
  | some t => .error ("critical table missing after migrations: " ++ t.name)
  | none =>
    match criticalColumns.find? fun e => .column e.1 e.2.1 ∉ S with
    | some (t, _, col) =>
      .error ("critical column missing after migrations: " ++ t.name ++ "." ++ col)
    | none => .ok ()

/-! ## The files as scripts -/

def toScript (required : Bool) (file : List SqlStatement) : Script SchemaObject :=
  ⟨required, file.map toStatement⟩

def migrationScripts : List (Script SchemaObject) :=
  toScript true migration001 :: bestEffortMigrations.map (toScript false)

theorem rawSql_eq (file : List SqlStatement) (S : Schema) :
    applyScript (file.map toStatement) S = ((rawSql file S).1, (rawSql file S).2.toBool) := by
  induction file generalizing S with
  | nil => rfl
  | cons q rest ih =>
    simp only [List.map_cons, applyScript, rawSql, ← execute_eq]
    cases q.execute S with
    | ok S' => exact ih S'
    | error e => rfl

theorem applyScripts_bestEffort (files : List (List SqlStatement)) (S : Schema) :
    applyScripts (files.map (toScript false)) S
      = (files.foldl (fun T file => (rawSql file T).1) S, true) := by
  induction files generalizing S with
  | nil => rfl
  | cons file files ih =>
    simp only [List.map_cons, applyScripts, List.foldl_cons, toScript, rawSql_eq, Bool.false_and]
    exact ih _

theorem applyScripts_files (first : List SqlStatement) (files : List (List SqlStatement))
    (S : Schema) :
    applyScripts (toScript true first :: files.map (toScript false)) S
      = ((runFiles first files S).1, (runFiles first files S).2.toBool) := by
  simp only [applyScripts, toScript, rawSql_eq, Bool.true_and, runFiles]
  generalize rawSql first S = r
  obtain ⟨S', e | u⟩ := r
  · rfl
  · exact applyScripts_bestEffort files S'

/-- One undisturbed start is the library's. -/
theorem runMigrations_eq (S : Schema) :
    applyScripts migrationScripts S = ((runMigrations S).1, (runMigrations S).2.toBool) :=
  applyScripts_files migration001 bestEffortMigrations S

theorem migrationScripts_sound : Sound migrationScripts where
  own := by decide +kernel
  disjoint := by decide +kernel
  nodup := by decide +kernel
  supplied := by decide +kernel
  contained := by decide +kernel
  lenient := by decide +kernel

/-! ## Runs of starts -/

section

variable {ι : Type} [DecidableEq ι]

/-- The processes `ι` on an empty database, after the events `es`. -/
def startsAfter (es : List (Event ι)) : Config ι SchemaObject :=
  run (Scripts.step migrationScripts) Config.initial es

def fullSchema : List SchemaObject := (allStatements migrationScripts).flatMap Statement.made

/-- What `assert_critical_schema` never looks at, directly or through its table: the indexes, the
    labels, and the five columns added to a table that was there before. -/
def unasserted : SchemaObject → Bool
  | .index _ => true
  | .table t => t == poolLabels
  | .column t c =>
    t == poolLabels || (t, c) ∈ [(blocks, .luckPercent), (workers, .lastDifficulty),
      (shares, .sessionId), (orphanClawbacks, .acknowledged), (orphanClawbacks, .ackNote)]

def criticalObjects : List SchemaObject :=
  criticalTables.map .table ++ criticalColumns.map fun e => .column e.1 e.2.1

theorem assertCriticalSchema_ok_iff (S : Schema) :
    assertCriticalSchema S = .ok () ↔ ∀ o ∈ criticalObjects, o ∈ S := by
  have hsplit : (∀ o ∈ criticalObjects, o ∈ S) ↔
      (∀ t ∈ criticalTables, SchemaObject.table t ∈ S) ∧
        ∀ e ∈ criticalColumns, SchemaObject.column e.1 e.2.1 ∈ S := by
    simp only [criticalObjects, List.forall_mem_append, List.forall_mem_map]
  rw [hsplit]
  unfold assertCriticalSchema
  split
  · next t h =>
    refine ⟨fun h' => (nomatch h'), fun h' => ?_⟩
    have hmem := List.mem_of_find?_eq_some h
    have hnot := List.find?_some h
    exact absurd (h'.1 t hmem) (by simpa using hnot)
  · next htables =>
    rw [List.find?_eq_none] at htables
    split
    · next t c col h =>
      refine ⟨fun h' => (nomatch h'), fun h' => ?_⟩
      have hmem := List.mem_of_find?_eq_some h
      have hnot := List.find?_some h
      exact absurd (h'.2 _ hmem) (by simpa using hnot)
    · next hcolumns =>
      rw [List.find?_eq_none] at hcolumns
      exact ⟨fun _ => ⟨fun t ht => by simpa using htables t ht,
        fun e he => by simpa using hcolumns e he⟩, fun _ => rfl⟩

/-- Every object that is not a gap comes with a critical one: it is one, or was made with it. -/
theorem asserted_made : ∀ o ∈ fullSchema, unasserted o = false → o ∈ criticalObjects ∨
    ∃ st ∈ allStatements migrationScripts, st.key ∈ criticalObjects ∧ o ∈ st.made := by
  decide +kernel

theorem critical_asserted :
    ∀ o ∈ criticalObjects, o ∈ fullSchema ∧ unasserted o = false := by
  decide +kernel

/-- **What a process that passes the check runs on.**  Whatever starts of however many processes
    were interleaved, killed or lost statements before: the check passes exactly when the schema has
    every table and column of the migrations but `pool_labels` and the five added columns. -/
theorem accepted_schema_iff (es : List (Event ι)) :
    assertCriticalSchema (startsAfter es).objects = .ok () ↔
      ∀ o ∈ fullSchema, unasserted o = false → o ∈ (startsAfter es).objects := by
  have hW : Whole (allStatements migrationScripts) (startsAfter es).objects :=
    (inv_initial.run migrationScripts_sound).whole
  rw [assertCriticalSchema_ok_iff]
  constructor
  · intro h o ho hgap
    obtain hcrit | ⟨st, hst, hkey, hmade⟩ := asserted_made o ho hgap
    · exact h o hcrit
    · exact hW st hst (h st.key hkey) o (List.mem_append_left _ hmade)
  · intro h o ho
    exact h o (critical_asserted o ho).1 (critical_asserted o ho).2

/-- Between two statements of `008` or of `009`. -/
def Midway : Runner SchemaObject → Prop
  | .running required done rest _ =>
    done ≠ [] ∧ rest ≠ [] ∧ required = false ∧
      (done ++ rest = migration008.map toStatement ∨ done ++ rest = migration009.map toStatement)
  | _ => False

/-- A process is killed, or loses a statement, midway in `008` or `009`. -/
def StoppedMidway (c : Config ι SchemaObject) : Event ι → Prop
  | .launch _ => False
  | .statement i fault => fault = true ∧ Midway (c.runners i)
  | .kill i => Midway (c.runners i)

instance (r : Runner SchemaObject) : Decidable (Midway r) :=
  match r with
  | .running required done rest _ =>
    inferInstanceAs (Decidable (done ≠ [] ∧ rest ≠ [] ∧ required = false ∧
      (done ++ rest = migration008.map toStatement ∨ done ++ rest = migration009.map toStatement)))
  | .idle => inferInstanceAs (Decidable False)
  | .finished => inferInstanceAs (Decidable False)
  | .failed => inferInstanceAs (Decidable False)

instance (c : Config ι SchemaObject) (e : Event ι) : Decidable (StoppedMidway c e) :=
  match e with
  | .launch _ => inferInstanceAs (Decidable False)
  | .statement i fault => inferInstanceAs (Decidable (fault = true ∧ Midway (c.runners i)))
  | .kill i => inferInstanceAs (Decidable (Midway (c.runners i)))

/-- `008` and `009` are the only files with something left to do behind an `ALTER`. -/
theorem only_two_files : ∀ s ∈ migrationScripts, ∀ k < s.statements.length,
    (∃ a ∈ s.statements.take k, a.strict = true) →
      s = toScript false migration008 ∨ s = toScript false migration009 := by
  decide +kernel

theorem inside_iff_midway (r : Runner SchemaObject) :
    (∃ s ∈ migrationScripts, r.inside s) ↔ Midway r := by
  cases r with
  | idle => exact ⟨fun h => h.elim fun _ h => h.2, False.elim⟩
  | finished => exact ⟨fun h => h.elim fun _ h => h.2, False.elim⟩
  | failed => exact ⟨fun h => h.elim fun _ h => h.2, False.elim⟩
  | running required done rest later =>
    constructor
    · rintro ⟨s, hs, rfl, hrest, a, ha, hstrict⟩
      have htake : (done ++ rest).take done.length = done := List.take_left
      have htwo := only_two_files _ hs done.length
        (by simpa using List.length_pos_of_ne_nil hrest)
        (by rw [htake]; exact ⟨a, ha, hstrict⟩)
      refine ⟨List.ne_nil_of_mem ha, hrest, ?_, ?_⟩
      · exact htwo.elim (congrArg Script.required) (congrArg Script.required)
      · exact htwo.imp (congrArg Script.statements) (congrArg Script.statements)
    · rintro ⟨hdone, hrest, rfl, hfile⟩
      obtain ⟨a, done, rfl⟩ := List.exists_cons_of_ne_nil hdone
      refine ⟨⟨false, (a :: done) ++ rest⟩, ?_, rfl, hrest, a, List.mem_cons_self, ?_⟩
      · obtain h | h := hfile
        · rw [h]
          decide +kernel
        · rw [h]
          decide +kernel
      · obtain h | h := hfile
        · rw [(List.cons.inj h).1]
          rfl
        · rw [(List.cons.inj h).1]
          rfl

theorem cutsInside_iff (c : Config ι SchemaObject) (e : Event ι) :
    CutsInside migrationScripts c e ↔ StoppedMidway c e := by
  cases e with
  | launch i => exact Iff.rfl
  | statement i fault => exact and_congr_right fun _ => inside_iff_midway _
  | kill i => exact inside_iff_midway _

/-- **Which interrupted upgrades the next start repairs.**  After any interleaving of starts, when
    no process is midway in `008` or `009`: one undisturbed start gives the full schema if and only
    if no process was ever stopped midway in them. -/
theorem restart_completes_iff (es : List (Event ι))
    (hquiet : ∀ i, ¬ Midway ((startsAfter es).runners i)) :
    ((∀ o ∈ fullSchema, o ∈ (runMigrations (startsAfter es).objects).1) ∧
      (runMigrations (startsAfter es).objects).2 = .ok ()) ↔
      ¬ Meets (Scripts.step migrationScripts) StoppedMidway
        (Config.initial : Config ι SchemaObject) es := by
  have hfull : ∀ S : Schema, (∀ o ∈ fullSchema, o ∈ S) ↔ Complete migrationScripts S := by
    intro S
    simp only [fullSchema, Complete, List.forall_mem_flatMap]
  have hok : ∀ r : Except SqlError Unit, r = .ok () ↔ r.toBool = true := by
    intro r
    cases r <;> simp [Except.toBool]
  have hcuts : (StoppedMidway : Config ι SchemaObject → Event ι → Prop)
      = CutsInside migrationScripts := by
    funext c e
    exact propext (cutsInside_iff c e).symm
  have houtside : ∀ i, ∀ s ∈ migrationScripts, ¬ ((startsAfter es).runners i).inside s :=
    fun i s hs hin => hquiet i ((inside_iff_midway _).1 ⟨s, hs, hin⟩)
  have hrun := run_complete_iff migrationScripts_sound houtside
  rw [runMigrations_eq] at hrun
  rw [hfull, hok, hcuts]
  exact hrun

/-- Killed behind the `ALTER` of `008`, the first start leaves what the next one cannot repair. -/
def killedIn008 : List (Event Unit) :=
  .launch () :: List.replicate 27 (.statement () false) ++ [.kill ()]

theorem killedIn008_not_repaired :
    ¬ ((∀ o ∈ fullSchema, o ∈ (runMigrations (startsAfter killedIn008).objects).1) ∧
      (runMigrations (startsAfter killedIn008).objects).2 = .ok ()) :=
  fun h => (restart_completes_iff killedIn008 fun () => by decide +kernel).1 h (by decide +kernel)

end

end ZcashMiningPool
