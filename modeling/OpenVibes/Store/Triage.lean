import OpenVibes.Store.Schema

/-!
# Triage

`fields_valid` (`crates/platform-store/src/console_triage.rs`), `assignee` (`console_roles.rs`), `agent_visibility`
(`console_read.rs`) and `vulnerability_triage.rs`, of which `update` is one transaction under the lock of the
vulnerability's row. Without a triage row a vulnerability is open.
-/

namespace OpenVibes.Store.Triage

open Theory Rust

/-! ### Rules that all triage shares -/

inductive TriageState where
  | open
  | mitigated
  | acceptedRisk
  | falsePositive
deriving DecidableEq

def maxAcceptance : Time := 366 * 86400000000

/-- `fields_valid`: a bounded non-blank note, and a future expiry exactly for accepted risk. -/
def fieldsValid (state : TriageState) (note : Option String) (acceptedUntil : Option Time) (now : Time) : Bool :=
  note.all (fun value => trim value ≠ "" ∧ value.toList.length ≤ 4000) &&
    (state = .acceptedRisk) = acceptedUntil.isSome &&
    acceptedUntil.all fun value => now < value ∧ value ≤ now + maxAcceptance

/-- `AgentScope`: the hosts a person sees. -/
inductive AgentScope where
  | global
  | assetGroups (ids : List String)
deriving DecidableEq

structure Host where
  agentId : String
  imported : Bool

structure User where
  (userId username : String)
  enabled : Bool
  /-- Permissions the user has through an active role that reaches some host; an administrator has all. -/
  may : List String

structure Directory where
  hosts : Table Host Host.agentId
  membership : List (String × String)
  users : Table User User.userId

/-- `agent_visibility`. -/
def visible (dir : Directory) (scope : AgentScope) (agentId : String) : Bool :=
  match dir.hosts.get? agentId with
  | none => false
  | some host =>
    match scope with
    | .global => true
    | .assetGroups ids => (dir.membership.any fun m => m.1 = agentId && ids.contains m.2) && !host.imported

/-- `assignee`: the enabled user with this name who holds the permission. -/
def assignee (dir : Directory) (username permission : String) : Option User :=
  dir.users.rows.find? fun u => u.username = username && u.enabled && u.may.contains permission

def usernameOf (dir : Directory) (userId : Option String) : Option String :=
  userId.bind fun id => (dir.users.get? id).map User.username

/-! ### Vulnerability triage -/

structure VulnerabilityRow where
  (agentId advisoryId : String)
  fixedAt : Option Time

abbrev Pair := String × String

def VulnerabilityRow.key (v : VulnerabilityRow) : Pair := (v.agentId, v.advisoryId)

structure TriageRow where
  (agentId advisoryId : String)
  state : TriageState
  (assignedTo note : Option String)
  acceptedUntil : Option Time
  version : ℕ
  updatedAt : Time
  updatedBy : String
  mitigatedAt : Option Time

def TriageRow.key (t : TriageRow) : Pair := (t.agentId, t.advisoryId)

structure HistoryRow where
  pair : Pair
  fromState : TriageState
  toState : TriageState
  note : Option String
  changedAt : Time
  changedBy : String

structure Db where
  dir : Directory
  vulnerabilities : Table VulnerabilityRow VulnerabilityRow.key
  triage : Table TriageRow TriageRow.key
  history : List HistoryRow

/-- `VulnerabilityTriage`: one host's triage of one advisory. -/
structure VulnerabilityTriage where
  state : TriageState
  (assignedTo note : Option String)
  acceptedUntil : Option Time
  version : ℕ
  updatedAt : Option Time
  updatedBy : Option String

/-- `VulnerabilityTriage::default`. -/
def defaultTriage : VulnerabilityTriage := ⟨.open, none, none, none, 0, none, none⟩

/-- `from_row`, with the username joined. -/
def fromRow (dir : Directory) (t : TriageRow) : VulnerabilityTriage :=
  ⟨t.state, usernameOf dir t.assignedTo, t.note, t.acceptedUntil, t.version, some t.updatedAt, some t.updatedBy⟩

/-- `VulnerabilityTriageUpdate`: outcome of one triage write. -/
inductive VulnerabilityTriageUpdate where
  | updated (t : VulnerabilityTriage)
  /-- No open vulnerability for this host and advisory in scope. -/
  | notFound
  | stale (t : VulnerabilityTriage)
  /-- The state, note or expiry is invalid (a close needs a note). -/
  | invalidFields
  | assigneeUnavailable

structure UpdateCall where
  scope : AgentScope
  (agentId advisoryId : String)
  /-- The version the change is based on; `none` is no check. -/
  expectedVersion : Option ℕ
  state : TriageState
  (assignedTo note : Option String)
  acceptedUntil : Option Time
  actor : String
  now : Time

def UpdateCall.pair (c : UpdateCall) : Pair := (c.agentId, c.advisoryId)

/-- `states`: the triage of these pairs; pairs without a saved row are absent. -/
def states (db : Db) (pairs : List Pair) : List (Pair × VulnerabilityTriage) :=
  pairs.filterMap fun k => (db.triage.get? k).map fun t => (k, fromRow db.dir t)

/-- The vulnerability is not fixed and its host in scope. -/
def found (db : Db) (scope : AgentScope) (pair : Pair) : Bool :=
  ((db.vulnerabilities.get? pair).any fun v => v.fixedAt = none) && visible db.dir scope pair.1

def triagePermission : String := "vulnerabilities.triage"

/-- What `ON CONFLICT (agent_id, advisory_id) DO UPDATE` leaves of the old row: its key. -/
def overwrite (old new : TriageRow) : TriageRow := { new with agentId := old.agentId, advisoryId := old.advisoryId }

theorem key_overwrite (old new : TriageRow) : (overwrite old new).key = old.key := rfl

def mitigatedAt (state : TriageState) (old : Option TriageRow) (now : Time) : Option Time :=
  if state = .mitigated then
    match old with
    | some t => if t.state = .mitigated then some (t.mitigatedAt.getD now) else some now
    | none => some now
  else none

/-- `update`: changes one host's triage of one advisory, checked against `expected_version`. -/
def update (db : Db) (c : UpdateCall) : Db × VulnerabilityTriageUpdate :=
  if !fieldsValid c.state c.note c.acceptedUntil c.now || (c.state ≠ .open && c.note.isNone) then (db, .invalidFields)
  else if !found db c.scope c.pair then (db, .notFound)
  else
    let row := db.triage.get? c.pair
    let old := (row.map (fromRow db.dir)).getD defaultTriage
    if c.expectedVersion.any fun version => version ≠ old.version then (db, .stale old)
    else
      match c.assignedTo.map fun username => assignee db.dir username triagePermission with
      | some none => (db, .assigneeUnavailable)
      | user =>
        let assigneeId := user.join.map User.userId
        if old.state = c.state ∧ row.bind TriageRow.assignedTo = assigneeId ∧ old.note = c.note ∧
            old.acceptedUntil = c.acceptedUntil then (db, .updated old)
        else
          let version := old.version + 1
          let new : TriageRow := ⟨c.agentId, c.advisoryId, c.state, assigneeId, c.note, c.acceptedUntil, version, c.now,
            c.actor, mitigatedAt c.state row c.now⟩
          ({ db with
              triage := db.triage.upsert overwrite key_overwrite new
              history := db.history ++ [⟨c.pair, old.state, c.state, c.note, c.now, c.actor⟩] },
            .updated ⟨c.state, user.join.map User.username, c.note, c.acceptedUntil, version, some c.now, some c.actor⟩)

/-! ### Decisions -/

abbrev Decision := TriageState × Option String × Option Time

def decisionOf (db : Db) (pair : Pair) : Decision :=
  ((db.triage.get? pair).map fun t => (t.state, t.note, t.acceptedUntil)).getD (.open, none, none)

def UpdateCall.decision (c : UpdateCall) : Decision := (c.state, c.note, c.acceptedUntil)

def versionOf (db : Db) (pair : Pair) : ℕ := ((db.triage.get? pair).map TriageRow.version).getD 0

structure Accepted (db : Db) (c : UpdateCall) : Prop where
  fields : fieldsValid c.state c.note c.acceptedUntil c.now = true ∧ (c.state = .open ∨ c.note ≠ none)
  /-- The vulnerability is not fixed, and the person sees its host. -/
  found : found db c.scope c.pair = true
  /-- It is based on the stored version, when that is checked. -/
  version : ∀ version, c.expectedVersion = some version → version = versionOf db c.pair
  assignee : ∀ username, c.assignedTo = some username → assignee db.dir username triagePermission ≠ none

theorem version_fromRow (db : Db) (pair : Pair) :
    (((db.triage.get? pair).map (fromRow db.dir)).getD defaultTriage).version = versionOf db pair := by
  rw [versionOf]
  cases db.triage.get? pair <;> rfl

variable {c : UpdateCall}

theorem update_of_not_accepted {db : Db} (h : ¬Accepted db c) : (update db c).1 = db := by
  rw [update]
  split_ifs with hfld hfnd
  · rfl
  · rfl
  dsimp only
  split_ifs with hver
  · rfl
  split
  · rfl
  rename_i hass
  split_ifs
  · rfl
  refine absurd ⟨?_, ?_, fun ver hv => ?_, fun username hu hnn => ?_⟩ h
  · rw [Bool.or_eq_true, not_or] at hfld
    refine ⟨by simpa using hfld.1, ?_⟩
    by_cases hop : c.state = .open
    · exact .inl hop
    · right
      intro hnt
      exact hfld.2 (by simp [hop, hnt])
  · simpa using hfnd
  · rw [hv, version_fromRow] at hver
    simpa using hver
  · exact hass (by rw [hu, Option.map_some, hnn])

theorem decisionOf_upsert (db : Db) (new : TriageRow) (history : List HistoryRow) (k : Pair) :
    decisionOf { db with triage := db.triage.upsert overwrite key_overwrite new, history := history } k =
      if k = new.key then (new.state, new.note, new.acceptedUntil) else decisionOf db k := by
  rw [decisionOf, Table.get?_upsert]
  by_cases hk : k = new.key
  · rw [if_pos hk.symm, if_pos hk]
    cases db.triage.get? k <;> rfl
  · rw [if_neg (Ne.symm hk), if_neg hk]
    rfl

/-- **An accepted update** writes its decision to its pair, and to no other. -/
theorem decisionOf_update {db : Db} (h : Accepted db c) (k : Pair) :
    decisionOf (update db c).1 k = if k = c.pair then c.decision else decisionOf db k := by
  have hfld : (!fieldsValid c.state c.note c.acceptedUntil c.now || (c.state ≠ .open && c.note.isNone)) = false := by
    rw [h.fields.1, Bool.not_true, Bool.false_or]
    rcases h.fields.2 with hop | hnt
    · simp [hop]
    · simp [Option.isSome_iff_ne_none.mpr hnt]
  have hver : (c.expectedVersion.any fun ver =>
      ver ≠ (((db.triage.get? c.pair).map (fromRow db.dir)).getD defaultTriage).version) = false := by
    rw [version_fromRow]
    cases hv : c.expectedVersion with
    | none => rfl
    | some ver => simp [h.version ver hv]
  rw [update, if_neg (ne_true_of_eq_false hfld), if_neg (by simp [h.found])]
  dsimp only
  rw [if_neg (ne_true_of_eq_false hver)]
  split
  · rename_i hass
    obtain ⟨username, hu, hnn⟩ := Option.map_eq_some_iff.mp hass
    exact absurd hnn (h.assignee username hu)
  split_ifs with hsm hk hk
  · -- nothing to write: the decision is stored already
    subst hk
    obtain ⟨hstt, -, hnt, hunt⟩ := hsm
    rw [UpdateCall.decision, ← hstt, ← hnt, ← hunt, decisionOf]
    cases db.triage.get? c.pair <;> rfl
  · rfl
  · rw [decisionOf_upsert]
    exact if_pos hk
  · rw [decisionOf_upsert]
    exact if_neg hk

end OpenVibes.Store.Triage
