import OpenVibes.Store.Triage
import OpenVibes.Theory.Cells
import OpenVibes.Theory.Txn

/-!
# Triage of findings

`update`, `update_many_with_request_id`, `reopen_on_observation` and `reopen_if_due` of
`crates/platform-store/src/console_triage.rs`, as programs (`Theory.Txn`) at READ COMMITTED. History and audit are logs
by finding. The updates lock the finding first, which is there when there is triage, and then its triage, which is not
before it is first saved; `reopen_if_due` locks the triage alone. The statement that locks many findings chooses them
first.
-/

namespace OpenVibes.Store.FindingTriage

open Theory Rust
open Store.Triage (TriageState fieldsValid AgentScope Directory visible assignee usernameOf User)

/-! ### Data -/

structure Key where
  (agentId ruleSetId ruleId : String)
deriving DecidableEq

structure Finding where
  lastFindingId : String
  ruleVersion : ℤ

structure TriageRow where
  state : TriageState
  ruleVersion : ℤ
  (assignedTo note : Option String)
  acceptedUntil : Option Time
  version : ℤ
  updatedAt : Time
  updatedBy : String
  mitigatedAt : Option Time
deriving DecidableEq

structure HistoryRow where
  fromState : TriageState
  toState : TriageState
  note : Option String
  changedAt : Time
  changedBy : String
  assignedTo : Option String
  acceptedUntil : Option Time
  ruleVersion : ℤ

inductive ReopenReason where
  | newObservation
  | acceptedRiskExpired
  | ruleVersionChanged
deriving DecidableEq

inductive AuditDetail where
  | changed (fromState toState : TriageState) (assignedTo : Option String) (acceptedUntil : Option Time) (version : ℤ)
  | reopened (reason : ReopenReason) (fromState : TriageState) (ruleVersion : ℤ)

structure AuditRow where
  actor : String
  detail : AuditDetail
  requestId : Option String
  target : String

structure Db where
  dir : Directory
  findings : Cells ℕ Key (Option Finding)
  triage : Cells ℕ Key (Option TriageRow)
  history : Key → Rows ℕ HistoryRow
  audit : Key → Rows ℕ AuditRow

/-- `TriageRecord`: triage with the assignee's name. -/
structure TriageRecord where
  state : TriageState
  ruleVersion : ℤ
  (assignedToId assignedToUsername note : Option String)
  acceptedUntil : Option Time
  version : ℤ
  updatedAt : Option Time
  updatedBy : Option String
  mitigatedAt : Option Time

/-- `record_from_triage_row`, with the username joined. -/
def recordFromTriageRow (dir : Directory) (r : TriageRow) : TriageRecord :=
  ⟨r.state, r.ruleVersion, r.assignedTo, usernameOf dir r.assignedTo, r.note, r.acceptedUntil, r.version,
    some r.updatedAt, some r.updatedBy, r.mitigatedAt⟩

def unsaved (ruleVersion : ℤ) : TriageRecord := ⟨.open, ruleVersion, none, none, none, none, 0, none, none, none⟩

/-- `transition_allowed`: any known state moves to any other. -/
def transitionAllowed (source target : TriageState) : Bool :=
  let known : TriageState → Bool
    | .open | .mitigated | .acceptedRisk | .falsePositive => true
  known source && known target

structure Change where
  state : TriageState
  (assignedTo note : Option String)
  acceptedUntil : Option Time
  actor : String
  requestId : Option String
  now : Time

/-- `TriageUpdate`: outcome of a version-checked write. -/
inductive TriageUpdate where
  | updated (record : TriageRecord)
  | notFound
  | stale (record : TriageRecord)
  | invalidTransition (record : TriageRecord)
  /-- The requested assignee is not an enabled user with the permission. -/
  | assigneeUnavailable
  | invalidFields

structure StaleTriageVersion where
  agentId : String
  actualVersion : ℤ

inductive BulkTriageUpdate where
  | updated (records : List TriageRecord)
  /-- An endpoint is missing or outside the caller's scope. -/
  | notFound
  | stale (versions : List StaleTriageVersion)
  | invalidTransition
  | invalidFields
  | assigneeUnavailable

/-! ### Statements -/

variable (t : ℕ)

/-- `SELECT … FROM current_findings … FOR UPDATE`. -/
def lockFinding (k : Key) : Txn Db (Option Finding) :=
  .stmt fun s => (s.findings.lock t k).map fun r => (r.1, { s with findings := r.2 })

/-- `SELECT … FROM console_finding_triage … FOR UPDATE`. -/
def lockTriage (k : Key) : Txn Db (Option TriageRow) :=
  .stmt fun s => (s.triage.lock t k).map fun r => (r.1, { s with triage := r.2 })

def lockRecord (k : Key) : Txn Db (Option TriageRecord) :=
  .stmt fun s => (s.triage.lock t k).map fun r => (r.1.map (recordFromTriageRow s.dir), { s with triage := r.2 })

def saveTriage (k : Key) (row : TriageRow) : Txn Db Unit :=
  .stmt fun s => (s.triage.put t k (some row)).map fun triage => ((), { s with triage := triage })

/-- `INSERT INTO console_finding_triage_history`. -/
def insertHistory (k : Key) (h : HistoryRow) : Txn Db Unit :=
  .stmt fun s => some ((), { s with history := Function.update s.history k ((s.history k).insert t h) })

/-- `INSERT INTO audit_log`. -/
def insertAudit (k : Key) (a : AuditRow) : Txn Db Unit :=
  .stmt fun s => some ((), { s with audit := Function.update s.audit k ((s.audit k).insert t a) })

def saveAll (k : Key) (row : TriageRow) (h : HistoryRow) (a : AuditRow) : Txn Db Unit := do
  saveTriage t k row
  insertHistory t k h
  insertAudit t k a

/-- `assignee`, when there is one to find: `some none` when it is not available. -/
def findAssignee (username : Option String) : Txn Db (Option (Option User)) :=
  match username with
  | some username => .query fun s => some (assignee s.dir username "compliance.triage")
  | none => pure none

/-! ### `update` -/

/-- `target_id` of the audit. -/
def Key.target (k : Key) : String := k.agentId ++ ":" ++ k.ruleSetId ++ ":" ++ k.ruleId

def changed (c : Change) (assignedTo : Option String) (previous : TriageRecord) : Bool :=
  previous.state ≠ c.state || previous.assignedToId ≠ assignedTo || previous.note ≠ c.note ||
    previous.acceptedUntil ≠ c.acceptedUntil

def mitigatedAt (c : Change) (previous : TriageRecord) : Option Time :=
  if c.state = .mitigated then (if previous.state = .mitigated then previous.mitigatedAt else some c.now) else none

def newRow (c : Change) (assignedTo : Option String) (ruleVersion : ℤ) (previous : TriageRecord) (version : ℤ) :
    TriageRow :=
  ⟨c.state, ruleVersion, assignedTo, c.note, c.acceptedUntil, version, c.now, c.actor, mitigatedAt c previous⟩

def save (k : Key) (c : Change) (user : Option User) (ruleVersion : ℤ) (previous : TriageRecord)
    (version : ℤ) : Txn Db TriageRecord := do
  let assignedTo := user.map User.userId
  let row := newRow c assignedTo ruleVersion previous version
  saveAll t k row ⟨previous.state, c.state, c.note, c.now, c.actor, assignedTo, c.acceptedUntil, ruleVersion⟩
    ⟨c.actor, .changed previous.state c.state (user.map User.username) c.acceptedUntil version, c.requestId, k.target⟩
  pure ⟨c.state, ruleVersion, assignedTo, user.map User.username, c.note, c.acceptedUntil, version, some c.now,
    some c.actor, row.mitigatedAt⟩

structure UpdateCall where
  key : Key
  expectedVersion : ℤ
  change : Change

def noteMissing (c : Change) : Bool := c.state ≠ .open && c.note.isNone

/-- `update` under the lock of the finding. -/
def updateLocked (c : UpdateCall) (current : Finding) : Txn Db (End TriageUpdate) := do
  let old ← lockRecord t c.key
  let previous := old.getD (unsaved current.ruleVersion)
  if previous.version ≠ c.expectedVersion then pure (.rollback (.stale previous))
  else if !transitionAllowed previous.state c.change.state then pure (.rollback (.invalidTransition previous))
  else if noteMissing c.change then pure (.rollback .invalidFields)
  else
    match ← findAssignee c.change.assignedTo with
    | some none => pure (.rollback .assigneeUnavailable)
    | user =>
      if !changed c.change (user.join.map User.userId) previous then pure (.rollback (.updated previous))
      else do
        let record ← save t c.key c.change user.join current.ruleVersion previous (c.expectedVersion + 1)
        pure (.commit (.updated record))

def update (c : UpdateCall) : Txn Db (End TriageUpdate) :=
  if !fieldsValid c.change.state c.change.note c.change.acceptedUntil c.change.now then
    pure (.rollback .invalidFields)
  else do
    match ← lockFinding t c.key with
    | none => pure (.rollback .notFound)
    | some current => updateLocked t c current

/-! ### `update_many_with_request_id` -/

structure BulkCall where
  (ruleSetId ruleId : String)
  changes : List (String × ℤ)
  scope : AgentScope
  change : Change

def BulkCall.key (c : BulkCall) (agentId : String) : Key := ⟨agentId, c.ruleSetId, c.ruleId⟩

/-- The selection and the shared fields are valid; there is no bound on the expiry. -/
def BulkCall.valid (c : BulkCall) : Bool :=
  !c.changes.isEmpty && c.changes.length ≤ 100 && (c.changes.all fun change => 0 ≤ change.2) &&
    decide (c.changes.map Prod.fst).Nodup &&
    c.change.note.all (fun value => trim value ≠ "" ∧ value.toList.length ≤ 4000) &&
    (c.change.state = .acceptedRisk) = c.change.acceptedUntil.isSome &&
    c.change.acceptedUntil.all (fun value => c.change.now < value) && !noteMissing c.change

def BulkCall.select (c : BulkCall) : Txn Db (List String) :=
  .query fun s => ((c.changes.map Prod.fst).filter fun agentId =>
    ((s.findings (c.key agentId)).view t).isSome && visible s.dir c.scope agentId).insertionSort (· ≤ ·)

def BulkCall.lockNext (c : BulkCall) (latest : List (String × ℤ)) (agentId : String) :
    Txn Db (List (String × ℤ)) := do
  match ← lockFinding t (c.key agentId) with
  | none => pure latest
  | some current => pure (latest ++ [(agentId, current.ruleVersion)])

structure Prior where
  agentId : String
  ruleVersion : ℤ
  record : TriageRecord

/-- The loop that locks and reads the triage of each host. -/
def BulkCall.readAll (t : ℕ) (c : BulkCall) (latest : List (String × ℤ)) :
    List (String × ℤ) → List Prior → List StaleTriageVersion →
      Txn Db (Except BulkTriageUpdate (List Prior × List StaleTriageVersion))
  | [], previous, stale => pure (.ok (previous, stale))
  | (agentId, expectedVersion) :: rest, previous, stale =>
    match latest.find? fun l => l.1 = agentId with
    | none => pure (.error .notFound)
    | some (_, ruleVersion) => do
      let row ← lockRecord t (c.key agentId)
      let record := row.getD (unsaved ruleVersion)
      let stale := if record.version ≠ expectedVersion then stale ++ [⟨agentId, record.version⟩] else stale
      if !transitionAllowed record.state c.change.state then pure (.error .invalidTransition)
      else c.readAll t latest rest (previous ++ [⟨agentId, ruleVersion, record⟩]) stale

def BulkCall.saveNext (c : BulkCall) (user : Option User) (records : List TriageRecord) (prior : Prior) :
    Txn Db (List TriageRecord) :=
  if !changed c.change (user.map User.userId) prior.record then pure (records ++ [prior.record])
  else do
    let record ← save t (c.key prior.agentId) c.change user prior.ruleVersion prior.record (prior.record.version + 1)
    pure (records ++ [record])

/-- `update_many_with_request_id`, after everything is read. -/
def BulkCall.finish (c : BulkCall) (previous : List Prior) (stale : List StaleTriageVersion) :
    Txn Db (End BulkTriageUpdate) :=
  if !stale.isEmpty then pure (.rollback (.stale stale))
  else do
    match ← findAssignee c.change.assignedTo with
    | some none => pure (.rollback .assigneeUnavailable)
    | user => do
      let records ← previous.foldlM (c.saveNext t user.join) []
      pure (.commit (.updated records))

/-- `update_many_with_request_id`. -/
def updateMany (c : BulkCall) : Txn Db (End BulkTriageUpdate) :=
  if !c.valid then pure (.rollback .invalidFields)
  else do
    let selected ← c.select t
    let latest ← selected.foldlM (c.lockNext t) []
    if latest.length ≠ c.changes.length then pure (.rollback .notFound)
    else
      match ← c.readAll t latest c.changes [] [] with
      | .error e => pure (.rollback e)
      | .ok (previous, stale) => c.finish t previous stale

/-! ### An agent's report -/

/-- `reason` of `reopen_if_due`. -/
def reopenReason (row : TriageRow) (ruleVersion : ℤ) (observedAt : Time) : Option ReopenReason :=
  match row.state with
  | .mitigated => if row.mitigatedAt.any fun mitigatedAt => mitigatedAt < observedAt then some .newObservation else none
  | .acceptedRisk =>
    if row.acceptedUntil.any fun expiry => expiry < observedAt then some .acceptedRiskExpired else none
  | .falsePositive => if row.ruleVersion < ruleVersion then some .ruleVersionChanged else none
  | .open => none

def reopenIfDue (k : Key) (ruleVersion : ℤ) (observedAt now : Time) : Txn Db Unit := do
  match ← lockTriage t k with
  | none => pure ()
  | some row =>
    match reopenReason row ruleVersion observedAt with
    | none => pure ()
    | some reason =>
      saveAll t k ⟨.open, ruleVersion, none, none, none, row.version + 1, now, "system", none⟩
        ⟨row.state, .open, none, now, "system", none, none, ruleVersion⟩
        ⟨"system", .reopened reason row.state ruleVersion, none, k.target⟩

def reopenOnObservation (k : Key) (findingId : String) (observedAt now : Time) : Txn Db Unit := do
  match ← lockFinding t k with
  | none => pure ()
  | some latest => if latest.lastFindingId ≠ findingId then pure () else
      reopenIfDue t k latest.ruleVersion observedAt now

inductive Event where
  | store (k : Key) (f : Finding)
  | observed (k : Key) (findingId : String) (observedAt now : Time)
  | confirmed (k : Key) (ruleVersion : ℤ) (observedAt now : Time)

def Event.prog : Event → Txn Db Unit
  | .store k f => .stmt fun s => (s.findings.put t k (some f)).map fun findings => ((), { s with findings := findings })
  | .observed k findingId observedAt now => reopenOnObservation t k findingId observedAt now
  | .confirmed k ruleVersion observedAt now => reopenIfDue t k ruleVersion observedAt now

/-! ### Side by side -/

inductive Call where
  | update (c : UpdateCall)
  | updateMany (c : BulkCall)
  | report (events : List Event)

inductive Result where
  | update (r : TriageUpdate)
  | updateMany (r : BulkTriageUpdate)
  | stored

def Call.prog : Call → Txn Db (End Result)
  | .update c => do pure ((← FindingTriage.update t c).map .update)
  | .updateMany c => do pure ((← FindingTriage.updateMany t c).map .updateMany)
  | .report events => do
    events.foldlM (fun _ e => e.prog t) ()
    pure (.commit .stored)

def Db.commit (s : Db) : Db :=
  { s with
    findings := s.findings.commit t
    triage := s.triage.commit t
    history := fun k => (s.history k).commit t
    audit := fun k => (s.audit k).commit t }

/-- `ROLLBACK`. -/
def Db.abort (s : Db) : Db :=
  { s with
    findings := s.findings.abort t
    triage := s.triage.abort t
    history := fun k => (s.history k).abort t
    audit := fun k => (s.audit k).abort t }

/-- Triage of findings: any number of calls, while hosts and users change. -/
def system : System ℕ Call Directory Db (End Result) where
  prog := Call.prog
  close t
    | .commit _ => Db.commit t
    | .rollback _ => Db.abort t
  abort := Db.abort
  effect dir s := some { s with dir := dir }

end OpenVibes.Store.FindingTriage
