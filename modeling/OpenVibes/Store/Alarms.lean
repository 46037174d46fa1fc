import OpenVibes.Rust.Json
import OpenVibes.Store.FindingChanges
import OpenVibes.Store.Triage
import OpenVibes.Theory.RowLocks
import OpenVibes.Theory.Steps

/-!
# Alarms

`insert_batch` (`crates/platform-store/src/alarms.rs`), `update_triage` (`console_alarms.rs`) and `close_source`
(`alarm_suppression_writes.rs`), statement by statement at READ COMMITTED (`Theory.RowLocks`): one batch and any number
of console transactions, each of which can fail at any time. `update_triage` and `close_source` lock the rows they
decide on; `insert_batch` looks an alarm up without a lock. A row's number is its `id`, and its triage history stands
with it.
-/

namespace OpenVibes.Store.Alarms

open Theory Rust Store.Triage
open Store.FindingChanges (Severity)

/-! ### Data -/

/-- `StoredAlarm`: one alarm, checked and ready to store. -/
structure StoredAlarm where
  detection : Option Json
  (alarmId ruleSetId : String)
  ruleSetVersion : ℕ
  ruleId : String
  ruleVersion : ℕ
  severity : Severity
  confidence : ℕ
  message : String
  (firstSeen lastSeen : Time)
  count : ℕ
  process : Json
  ancestors : Json
  (exe argsSha256 : String)

structure AlarmTriage where
  suppressedBy : Option ℕ
  state : TriageState
  (assignedTo note : Option String)
  acceptedUntil : Option Time
  version : ℕ
  updatedAt : Option Time
  updatedBy : Option String
deriving DecidableEq

structure AlarmRow where
  agentId : String
  /-- The alarm as it was stored first, with the count, times and evidence raised since. -/
  alarm : StoredAlarm
  receivedAt : Time
  triage : AlarmTriage

structure HistoryRow where
  /-- State before; none for an alarm that arrived closed. -/
  fromState : Option TriageState
  toState : TriageState
  assignedTo : Option String
  acceptedUntil : Option Time
  note : Option String
  changedAt : Time
  changedBy : String

structure Entry where
  row : AlarmRow
  history : List HistoryRow

inductive SuppressionScope where
  | host
  | program
  | command
  | device
  | signature
deriving DecidableEq

structure Suppression where
  id : ℕ
  active : Bool
  expiresAt : Option Time
  (ruleSetId ruleId : String)
  scope : SuppressionScope
  (agentId hostGroupId exe argsSha256 : Option String)
  alarmId : Option ℕ

/-- `console_host_in_group`. -/
def hostInGroup (dir : Directory) (agentId group : String) : Bool :=
  dir.membership.any fun m => m.1 = agentId && m.2 = group

def testRules : List (String × String) :=
  [("baseline-alarms", "alarm.openvibes.test"), ("baseline", "test.openvibes.running")]

def isTestRule (set rule : String) : Bool := testRules.any fun r => r.1 = set && r.2 = rule

/-- `INGEST`. -/
def ingestActor : String := "ingest"

def testNote : String := "Test: closed automatically"

def suppressedNote (id : ℕ) : String := "suppressed by #" ++ toString id

/-! ### `insert_batch` -/

def suppressionMatches (scope : SuppressionScope) (exe argsSha256 agentId : Option String) (alarmAgent : String)
    (alarm : String × String) : Bool :=
  let host := agentId.all fun agent => agent = alarmAgent
  match scope with
  | .host => agentId = some alarmAgent
  | .program => host && exe = some alarm.1
  | .command => host && exe = some alarm.1 && argsSha256 = some alarm.2
  | _ => false

def Suppression.matches (s : Suppression) (agentId : String) (alarm : StoredAlarm) : Bool :=
  s.ruleSetId = alarm.ruleSetId && s.ruleId = alarm.ruleId &&
    suppressionMatches s.scope s.exe s.argsSha256 s.agentId agentId (alarm.exe, alarm.argsSha256)

def activeSuppressions (dir : Directory) (table : List Suppression) (agentId : String) (alarms : List StoredAlarm)
    (now : Time) : List Suppression :=
  (table.filter fun s => s.active && s.expiresAt.all (fun e => now < e) &&
    (alarms.any fun alarm => s.ruleSetId = alarm.ruleSetId && s.ruleId = alarm.ruleId) &&
    s.agentId.all (fun agent => agent = agentId) && s.hostGroupId.all fun group => hostInGroup dir agentId group)
    |>.insertionSort fun a b => a.id ≤ b.id

structure Known where
  (id count : ℕ)
  lastSeen : Time
  state : TriageState
  riskExpired : Bool
  rule : String × ℕ × String × ℕ

def StoredAlarm.rule (alarm : StoredAlarm) : String × ℕ × String × ℕ :=
  (alarm.ruleSetId, alarm.ruleSetVersion, alarm.ruleId, alarm.ruleVersion)

def riskExpired (triage : AlarmTriage) (now : Time) : Bool :=
  triage.state = .acceptedRisk && triage.acceptedUntil.any fun u => u ≤ now

inductive Tx where
  | ingest
  | console (n : ℕ)
deriving DecidableEq

abbrev AlarmRows := Rows Tx Entry

def lookup (rows : AlarmRows) (agentId : String) (alarm : StoredAlarm) (now : Time) : Option Known :=
  (List.range rows.length).findSome? fun k =>
    (rows.view .ingest k).bind fun e =>
      if e.row.agentId = agentId && e.row.alarm.alarmId = alarm.alarmId then
        some ⟨k, e.row.alarm.count, e.row.alarm.lastSeen, e.row.triage.state, riskExpired e.row.triage now,
          e.row.alarm.rule⟩
      else none

def ignored (alarm : StoredAlarm) (known : Known) : Bool :=
  known.rule ≠ alarm.rule || (alarm.count ≤ known.count && alarm.lastSeen ≤ known.lastSeen)

def raise (alarm : StoredAlarm) (e : Entry) : Entry :=
  let old := e.row.alarm
  let newer := decide (old.lastSeen < alarm.lastSeen)
  { e with
    row.alarm.count := max old.count alarm.count
    row.alarm.process := if newer then alarm.process else old.process
    row.alarm.ancestors := if newer then alarm.ancestors else old.ancestors
    row.alarm.detection := if newer then alarm.detection else old.detection
    row.alarm.lastSeen := max old.lastSeen alarm.lastSeen }

/-- A recurrence reopens a mitigated alarm, or one whose accepted risk has expired. -/
def reopens (alarm : StoredAlarm) (known : Known) : Bool :=
  !isTestRule alarm.ruleSetId alarm.ruleId && known.count < alarm.count &&
    (known.state = .mitigated || known.riskExpired)

def reopen (now : Time) (e : Entry) : Entry :=
  { e with
    row.triage.state := .open
    row.triage.acceptedUntil := none
    row.triage.version := e.row.triage.version + 1
    row.triage.updatedAt := some now
    row.triage.updatedBy := some ingestActor }

/-- `history`. -/
def record (h : HistoryRow) (e : Entry) : Entry := { e with history := e.history ++ [h] }

/-- The state and note of a new alarm; a suppressed one and a test are closed on arrival. -/
def arrival (suppression : Option Suppression) (alarm : StoredAlarm) : TriageState × Option String :=
  match suppression with
  | some s => (.falsePositive, some (suppressedNote s.id))
  | none => if isTestRule alarm.ruleSetId alarm.ruleId then (.mitigated, some testNote) else (.open, none)

def newEntry (agentId : String) (suppression : Option Suppression) (alarm : StoredAlarm) (now : Time) : Entry :=
  let arrived := arrival suppression alarm
  let closed := suppression.isSome || isTestRule alarm.ruleSetId alarm.ruleId
  ⟨⟨agentId, alarm, now, ⟨suppression.map Suppression.id, arrived.1, none, arrived.2, none, 1,
    if closed then some now else none, if closed then some ingestActor else none⟩⟩, []⟩

/-- `Stored`: what a batch did. -/
structure Stored where
  (stored raised suppressed : ℕ)

structure Batch where
  agentId : String
  now : Time
  suppressions : List Suppression

inductive IngestPhase where
  | looking (rest : List StoredAlarm) (done : Stored)
  | raising (alarm : StoredAlarm) (known : Known) (rest : List StoredAlarm) (done : Stored)
  | reopening (known : Known) (rest : List StoredAlarm) (done : Stored)
  | recording (known : Known) (rest : List StoredAlarm) (done : Stored)
  | inserting (alarm : StoredAlarm) (rest : List StoredAlarm) (done : Stored)
  | noting (id : ℕ) (state : TriageState) (note : String) (suppressed : Bool) (rest : List StoredAlarm) (done : Stored)

/-- The next statement of a batch; `none` in the second place after its commit. -/
def ingestStep (rows : AlarmRows) (b : Batch) : IngestPhase → Option (AlarmRows × Option IngestPhase)
  | .looking [] _ => some (rows.commit .ingest, none)
  | .looking (alarm :: rest) done =>
    match lookup rows b.agentId alarm b.now with
    | some known =>
      if ignored alarm known then some (rows, some (.looking rest done))
      else some (rows, some (.raising alarm known rest done))
    | none => some (rows, some (.inserting alarm rest done))
  | .raising alarm known rest done => do
    let rows ← rows.update .ingest known.id (raise alarm)
    if reopens alarm known then some (rows, some (.reopening known rest done))
    else some (rows, some (.looking rest { done with raised := done.raised + 1 }))
  | .reopening known rest done => do
    let rows ← rows.update .ingest known.id (reopen b.now)
    some (rows, some (.recording known rest done))
  | .recording known rest done => do
    let rows ← rows.update .ingest known.id
      (record ⟨some known.state, .open, none, none, some "recurred", b.now, ingestActor⟩)
    some (rows, some (.looking rest { done with raised := done.raised + 1 }))
  | .inserting alarm rest done =>
    let suppression := b.suppressions.find? fun s => s.matches b.agentId alarm
    let rows' := rows.insert .ingest (newEntry b.agentId suppression alarm b.now)
    let done := { done with stored := done.stored + 1 }
    match arrival suppression alarm with
    | (state, some note) => some (rows', some (.noting rows.length state note suppression.isSome rest done))
    | (_, none) => some (rows', some (.looking rest done))
  | .noting id state note suppressed rest done => do
    let rows ← rows.update .ingest id (record ⟨none, state, none, none, some note, b.now, ingestActor⟩)
    some (rows, some (.looking rest (if suppressed then { done with suppressed := done.suppressed + 1 } else done)))

/-! ### `update_triage` -/

/-- `TriageChange`, with the other arguments of `update_triage`. -/
structure TriageCall where
  scope : AgentScope
  (id expectedVersion : ℕ)
  state : TriageState
  (assignedTo note : Option String)
  acceptedUntil : Option Time
  actor : String
  now : Time

/-- `TriageOutcome`; every transition between the four states is allowed. -/
inductive TriageOutcome where
  | updated (version : ℕ)
  | notFound
  | stale
  | invalidFields
  | assigneeUnavailable

/-- What `update_triage` does with the alarm that it locked. -/
def decide? (dir : Directory) (c : TriageCall) (triage : AlarmTriage) : Except TriageOutcome (Option String) :=
  if triage.version ≠ c.expectedVersion then .error .stale
  else
    match c.assignedTo.map fun username => assignee dir username "alarms.triage" with
    | some none => .error .assigneeUnavailable
    | user =>
      let assignedId := user.join.map User.userId
      if triage.state = c.state ∧ triage.assignedTo = assignedId ∧ triage.note = c.note ∧
          triage.acceptedUntil = c.acceptedUntil then .error (.updated triage.version)
      else .ok assignedId

def TriageCall.write (c : TriageCall) (assignedId : Option String) (e : Entry) : Entry :=
  { e with
    row.triage := { e.row.triage with
      state := c.state
      assignedTo := assignedId
      note := c.note
      acceptedUntil := c.acceptedUntil
      version := c.expectedVersion + 1
      updatedAt := some c.now
      updatedBy := some c.actor } }

def TriageCall.historyRow (c : TriageCall) (previous : TriageState) (assignedId : Option String) : HistoryRow :=
  ⟨some previous, c.state, assignedId, c.acceptedUntil, c.note, c.now, c.actor⟩

/-! ### `close_source` -/

structure CloseCall where
  suppression : Suppression
  alarmIds : List ℕ
  scope : AgentScope
  actor : String
  now : Time

/-- The suppression is active and covers the alarm, and that is open and in reach. -/
def CloseCall.covers (dir : Directory) (c : CloseCall) (k : ℕ) (row : AlarmRow) : Bool :=
  let s := c.suppression
  s.active && c.alarmIds.contains k && row.triage.state = .open && row.alarm.ruleSetId = s.ruleSetId &&
    row.alarm.ruleId = s.ruleId && (row.alarm.process.get "exe").asStr = s.exe &&
    (s.scope = .program || s.alarmId = some k) && s.agentId.all (fun agent => row.agentId = agent) &&
    s.hostGroupId.all (fun group => hostInGroup dir row.agentId group) && visible dir c.scope row.agentId

def CloseCall.write (c : CloseCall) (e : Entry) : Entry :=
  { e with
    row.triage := { e.row.triage with
      state := .falsePositive
      suppressedBy := some c.suppression.id
      note := some (suppressedNote c.suppression.id)
      version := e.row.triage.version + 1
      updatedAt := some c.now
      updatedBy := some c.actor } }

def CloseCall.historyRow (c : CloseCall) (previous : TriageState) : HistoryRow :=
  ⟨some previous, .falsePositive, none, none, some (suppressedNote c.suppression.id), c.now, c.actor⟩

/-! ### Console transactions -/

inductive ConsolePhase where
  | update (c : TriageCall)
  | locked (c : TriageCall) (previous : TriageState) (assignedId : Option String)
  | updated (c : TriageCall) (previous : TriageState) (assignedId : Option String)
  | close (c : CloseCall)
  /-- Its statement found these alarms, and has closed those, with the state before. -/
  | closing (c : CloseCall) (rest : List ℕ) (closed : List (ℕ × TriageState))
  | recording (c : CloseCall) (closed : List (ℕ × TriageState))
  | settled
  /-- Ended; with its outcome if it is an `update_triage` that changed nothing. -/
  | ended (outcome : Option TriageOutcome)

/-- The next statement of a console transaction; one that returns without a commit rolls back. -/
def consoleStep (dir : Directory) (rows : AlarmRows) (n : ℕ) : ConsolePhase → Option (AlarmRows × ConsolePhase)
  | .update c =>
    if !fieldsValid c.state c.note c.acceptedUntil c.now || (c.state ≠ .open && c.note.isNone) then
      some (rows, .ended (some .invalidFields))
    else
      match rows[c.id]? with
      | none => some (rows, .ended (some .notFound))
      | some r =>
        match r.view (.console n) with
        | none => some (rows, .ended (some .notFound))
        | some e =>
          if !visible dir c.scope e.row.agentId then some (rows, .ended (some .notFound))
          -- `FOR UPDATE` waits for the lock
          else if r.Free (.console n) then
            match decide? dir c e.row.triage with
            | .error outcome => some (rows, .ended (some outcome))
            | .ok assignedId =>
              some (rows.set c.id (r.write (.console n) e), .locked c e.row.triage.state assignedId)
          else none
  | .locked c previous assignedId => do
    let rows ← rows.update (.console n) c.id (c.write assignedId)
    some (rows, .updated c previous assignedId)
  | .updated c previous assignedId => do
    let rows ← rows.update (.console n) c.id (record (c.historyRow previous assignedId))
    some (rows, .settled)
  | .close c =>
    some (rows, .closing c ((List.range rows.length).filter fun k =>
      (rows.view (.console n) k).any fun e => c.covers dir k e.row) [])
  | .closing c [] closed => some (rows, .recording c closed)
  | .closing c (k :: rest) closed =>
    match rows[k]? with
    | none => some (rows, .closing c rest closed)
    | some r =>
      match r.view (.console n) with
      | none => some (rows, .closing c rest closed)
      | some e =>
        -- the row is locked, and the condition is checked again on its latest version
        if r.Free (.console n) then
          if c.covers dir k e.row then
            some (rows.set k (r.write (.console n) (c.write e)), .closing c rest ((k, e.row.triage.state) :: closed))
          else some (rows, .closing c rest closed)
        else none
  | .recording _ [] => some (rows, .settled)
  | .recording c ((k, previous) :: closed) => do
    let rows ← rows.update (.console n) k (record (c.historyRow previous))
    some (rows, .recording c closed)
  | .settled => some (rows.commit (.console n), .ended none)
  | .ended _ => none

/-! ### Runs -/

structure State where
  dir : Directory
  suppressions : List Suppression
  rows : AlarmRows
  ingest : Option (Batch × IngestPhase)
  console : List ConsolePhase

inductive Act where
  | batch (agentId : String) (alarms : List StoredAlarm) (now : Time)
  | ingest
  | failIngest
  | update (c : TriageCall)
  | close (c : CloseCall)
  | console (n : ℕ)
  | failConsole (n : ℕ)
  | others (dir : Directory) (suppressions : List Suppression)

def step (s : State) : Act → Option State
  | .batch agentId alarms now =>
    match s.ingest with
    | some _ => none
    | none =>
      some { s with
        ingest := some (⟨agentId, now, activeSuppressions s.dir s.suppressions agentId alarms now⟩,
          .looking alarms ⟨0, 0, 0⟩) }
  | .ingest => do
    let (b, phase) ← s.ingest
    let (rows, phase) ← ingestStep s.rows b phase
    some { s with rows := rows, ingest := phase.map fun p => (b, p) }
  | .failIngest => some { s with rows := s.rows.abort .ingest, ingest := none }
  | .update c => some { s with console := s.console ++ [.update c] }
  | .close c => some { s with console := s.console ++ [.close c] }
  | .console n => do
    let phase ← s.console[n]?
    let (rows, phase) ← consoleStep s.dir s.rows n phase
    some { s with rows := rows, console := s.console.set n phase }
  | .failConsole n => some { s with rows := s.rows.abort (.console n), console := s.console.set n (.ended none) }
  | .others dir suppressions => some { s with dir := dir, suppressions := suppressions }

end OpenVibes.Store.Alarms
