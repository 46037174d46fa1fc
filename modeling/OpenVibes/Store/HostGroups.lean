import OpenVibes.Rust.Bytes
import OpenVibes.Theory.Commits

/-!
# Host groups

`migrations/0053_host_groups.sql` and `0061_host_group_membership.sql`: which hosts a group holds, by hand or by its
conditions, is stored and kept by triggers under one advisory lock. A transaction is the list of its statements; the
rows of one are taken one after the other, and then its triggers run, on what the transaction sees then. A broken
constraint is a failure. Group ids are numbers in the order of insertion. `LIKE`, `<<=` and `lower` are parameters.
-/

namespace OpenVibes.Store.HostGroups

open Theory Rust

/-! ### The rule -/

/-- `agents.status`. -/
inductive Status where
  | active
  | revoked
  | imported
deriving DecidableEq

structure Agent where
  status : Status
  (osId osVersion hostname lastAddress : Option String)

/-- `kind` of a group. -/
inductive Kind where
  | automatic
  | rule
  | manual
deriving DecidableEq

/-- `field` of a condition. -/
inductive Field where
  | osFamily
  | distribution
  | hostname
  | ip
deriving DecidableEq

structure Condition where
  field : Field
  negate : Bool
  vals : List String

structure Sql where
  lower : String → String
  /-- A hostname matches a pattern: `lower(hostname) LIKE console_glob_like(pattern) ESCAPE '\'`. -/
  like : String → String → Bool
  /-- An address lies in a network: `address <<= net::inet`. -/
  within : String → String → Bool

structure Known where
  (osFamily distribution hostname lastAddress : Option String)
deriving DecidableEq

def Agent.osFamily (a : Agent) : Option String := a.osId.map fun id => if id = "windows" then "windows" else "linux"

variable (sql : Sql)

def Agent.distribution (a : Agent) : Option String :=
  a.osId.bind fun id => a.osVersion.map fun version =>
    sql.lower (id ++ " " ++ if id = "rocky" || id = "almalinux" then (split '.' version).headD "" else version)

def Agent.known (a : Agent) : Known := ⟨a.osFamily, a.distribution sql, a.hostname, a.lastAddress⟩

/-- `console_condition_holds`. -/
def conditionHolds (k : Known) (c : Condition) : Bool :=
  match c.field with
  | .osFamily => k.osFamily.any fun v => c.negate != c.vals.contains v
  | .distribution => k.distribution.any fun v => c.negate != c.vals.contains v
  | .hostname => k.hostname.any fun v => c.negate != c.vals.any (sql.like v)
  | .ip => k.lastAddress.any fun v => c.negate != c.vals.any (sql.within v)

structure Facts where
  agents : String → Option Agent
  groups : ℕ → Option Kind
  /-- `console_host_group_conditions`, by group and position. -/
  conditions : ℕ × ℕ → Option Condition
  members : ℕ × String → Bool

def Facts.conds (f : Facts) (g : ℕ) : List Condition := (List.range 16).filterMap fun p => f.conditions (g, p)

def Facts.allHold (f : Facts) (g : ℕ) (a : Agent) : Bool :=
  !(f.conds g).isEmpty && !((f.conds g).any fun c => !conditionHolds sql (a.known sql) c)

/-- `console_host_in_group` of migration 53. -/
def Facts.inGroup (f : Facts) (k : ℕ × String) : Bool :=
  match f.agents k.2, f.groups k.1 with
  | some a, some kind => a.status = .active && if kind = .manual then f.members k else f.allHold sql k.1 a
  | _, _ => false

/-- `want` of `console_membership_refresh_group`. -/
def Facts.wantOfGroup (f : Facts) (agentIds : List String) (g : ℕ) : List String :=
  (agentIds.filter fun id => f.members (g, id) && f.groups g = some .manual &&
      (f.agents id).any fun a => a.status = .active) ++
    agentIds.filter fun id => (f.agents id).any fun a => a.status = .active && (f.groups g).any
      (fun kind => kind ≠ .manual) && f.allHold sql g a

/-- `want` of `console_membership_refresh_agent`. -/
def Facts.wantOfAgent (f : Facts) (groupIds : List ℕ) (id : String) : List ℕ :=
  (groupIds.filter fun g => f.members (g, id) && f.groups g = some .manual &&
      (f.agents id).any fun a => a.status = .active) ++
    groupIds.filter fun g => (f.groups g).any (fun kind => kind ≠ .manual) &&
      (f.agents id).any fun a => a.status = .active && f.allHold sql g a

/-! ### The tables -/

structure Db where
  lock : Cell ℕ Unit
  agents : Cells ℕ String (Option Agent)
  agentIds : List String
  groups : Cells ℕ ℕ (Option Kind)
  nextGroup : ℕ
  conditions : Cells ℕ (ℕ × ℕ) (Option Condition)
  members : Cells ℕ (ℕ × String) Bool
  membership : Cells ℕ (ℕ × String) Bool

def Db.seen (s : Db) (t : ℕ) : Facts where
  agents id := (s.agents id).view t
  groups g := (s.groups g).view t
  conditions k := (s.conditions k).view t
  members k := (s.members k).view t

def Db.committed (s : Db) : Facts where
  agents id := (s.agents id).committed
  groups g := (s.groups g).committed
  conditions k := (s.conditions k).committed
  members k := (s.members k).committed

/-- The pairs are stored as given; a pair that is so already is not written. -/
def Db.setPairs (s : Db) (t : ℕ) (keys : List (ℕ × String)) (v : ℕ × String → Bool) : Option Db :=
  if keys.all fun k => (s.membership k).free t then
    some { s with
      membership := fun k =>
        if keys.contains k && (s.membership k).view t ≠ v k then (s.membership k).write t (v k) else s.membership k }
  else none

/-! ### Triggers -/

variable (t : ℕ)

/-- `pg_advisory_xact_lock`. -/
def takeLock : Txn Db Unit :=
  .stmt fun s => if s.lock.free t then some ((), { s with lock := s.lock.write t () }) else none

def Db.groupIds (s : Db) : List ℕ := List.range s.nextGroup

/-- `console_membership_refresh_group`. -/
def refreshGroup (g : ℕ) : Txn Db Unit := do
  takeLock t
  .stmt fun s =>
    let want := (s.seen t).wantOfGroup sql s.agentIds g
    (s.setPairs t (s.agentIds.map fun id => (g, id)) fun k => want.contains k.2).map fun s => ((), s)

/-- `console_membership_refresh_agent`. -/
def refreshAgent (id : String) : Txn Db Unit := do
  takeLock t
  .stmt fun s =>
    let want := (s.seen t).wantOfAgent sql s.groupIds id
    (s.setPairs t (s.groupIds.map fun g => (g, id)) fun k => want.contains k.1).map fun s => ((), s)

/-- `console_membership_rule_changed`. -/
def ruleChanged (groups : List ℕ) : Txn Db Unit := groups.dedup.foldlM (fun _ g => refreshGroup sql t g) ()

/-- `console_membership_deleted` for hosts. -/
def agentsDeleted (ids : List String) : Txn Db Unit := do
  takeLock t
  .stmt fun s => (s.setPairs t (s.groupIds.product ids) fun _ => false).map fun s => ((), s)

/-- `console_membership_deleted` for groups. -/
def groupsDeleted (groups : List ℕ) : Txn Db Unit := do
  takeLock t
  .stmt fun s => (s.setPairs t (groups.product s.agentIds) fun _ => false).map fun s => ((), s)

/-! ### Statements -/

inductive Assignment where
  | status (v : Status)
  | osId (v : Option String)
  | osVersion (v : Option String)
  | hostname (v : Option String)
  | lastAddress (v : Option String)
  | other
deriving DecidableEq

def Assignment.apply (a : Agent) : Assignment → Agent
  | .status v => { a with status := v }
  | .osId v => { a with osId := v }
  | .osVersion v => { a with osVersion := v }
  | .hostname v => { a with hostname := v }
  | .lastAddress v => { a with lastAddress := v }
  | .other => a

def assign (sets : List Assignment) (a : Agent) : Agent := sets.foldl Assignment.apply a

/-- Trigger `console_membership_agent_updated` fires: a column it names is assigned, and `WHEN`. -/
def agentFires (sets : List Assignment) (old new : Agent) : Bool :=
  sets.any (fun a => a ≠ .other) && (old.status = .active || new.status = .active) &&
    (old.status ≠ new.status || old.osFamily ≠ new.osFamily || old.distribution sql ≠ new.distribution sql ||
      old.hostname ≠ new.hostname || old.lastAddress ≠ new.lastAddress)

def insertAgent (id : String) (a : Agent) : Txn Db Bool :=
  .stmt fun s =>
    match (s.agents id).view t with
    | some _ => some (false, s)
    | none => (s.agents.put t id (some a)).map fun agents =>
      (true, { s with agents := agents, agentIds := id :: s.agentIds })

/-- A row of `agents` is updated, if it is there; with its old and new value. -/
def updateAgent (id : String) (f : Agent → Agent) : Txn Db (Option (Agent × Agent)) :=
  .stmt fun s =>
    match (s.agents id).view t with
    | none => some (none, s)
    | some a => (s.agents.put t id (some (f a))).map fun agents => (some (a, f a), { s with agents := agents })

def deleteAgent (id : String) : Txn Db Bool :=
  .stmt fun s =>
    match (s.agents id).view t with
    | none => some (false, s)
    | some _ => (s.agents.put t id none).map fun agents => (true, { s with agents := agents })

def insertGroup (kind : Kind) : Txn Db Unit :=
  .stmt fun s =>
    (s.groups.put t s.nextGroup (some kind)).map fun groups =>
      ((), { s with groups := groups, nextGroup := s.nextGroup + 1 })

/-- The kind of a group is set, if it is there; with its old value. -/
def updateGroup (g : ℕ) (kind : Kind) : Txn Db (Option Kind) :=
  .stmt fun s =>
    match (s.groups g).view t with
    | none => some (none, s)
    | some old => (s.groups.put t g (some kind)).map fun groups => (some old, { s with groups := groups })

def deleteGroup (g : ℕ) : Txn Db Bool :=
  .stmt fun s =>
    match (s.groups g).view t with
    | none => some (false, s)
    | some _ => (s.groups.put t g none).map fun groups => (true, { s with groups := groups })

/-- A condition is inserted or updated, if its group is there. -/
def putCondition (k : ℕ × ℕ) (c : Condition) : Txn Db Bool :=
  .stmt fun s =>
    match (s.groups k.1).view t with
    | none => some (false, s)
    | some _ => (s.conditions.put t k (some c)).map fun conditions => (true, { s with conditions := conditions })

def dropCondition (k : ℕ × ℕ) : Txn Db Bool :=
  .stmt fun s =>
    match (s.conditions k).view t with
    | none => some (false, s)
    | some _ => (s.conditions.put t k none).map fun conditions => (true, { s with conditions := conditions })

def putMember (k : ℕ × String) : Txn Db Bool :=
  .stmt fun s =>
    match (s.groups k.1).view t, (s.agents k.2).view t with
    | some _, some _ => (s.members.put t k true).map fun members => (true, { s with members := members })
    | _, _ => some (false, s)

def dropMember (k : ℕ × String) : Txn Db Bool :=
  .stmt fun s =>
    if (s.members k).view t then (s.members.put t k false).map fun members => (true, { s with members := members })
    else some (false, s)

def collect {α : Type} (f : α → Txn Db Bool) (xs : List α) : Txn Db (List α) :=
  xs.foldlM (fun done x => do if ← f x then pure (done ++ [x]) else pure done) []

inductive Stmt where
  | insertAgent (id : String) (a : Agent)
  | updateAgents (rows : List (String × List Assignment))
  | deleteAgents (ids : List String)
  | insertGroup (kind : Kind)
  | updateGroups (rows : List (ℕ × Kind))
  | deleteGroups (ids : List ℕ)
  /-- `INSERT INTO` or `UPDATE console_host_group_conditions`. -/
  | putConditions (rows : List ((ℕ × ℕ) × Condition))
  | dropConditions (keys : List (ℕ × ℕ))
  | putMembers (keys : List (ℕ × String))
  | dropMembers (keys : List (ℕ × String))

def dropConditions (keys : List (ℕ × ℕ)) : Txn Db Unit := do
  let dropped ← collect (dropCondition t) keys
  ruleChanged sql t (dropped.map Prod.fst)

def dropMembers (keys : List (ℕ × String)) : Txn Db Unit := do
  let dropped ← collect (dropMember t) keys
  ruleChanged sql t (dropped.map Prod.fst)

/-- A statement with its cascades and triggers; `false` when a constraint refuses it. -/
def Stmt.exec : Stmt → Txn Db Bool
  | .insertAgent id a => do
    if ← HostGroups.insertAgent t id a then
      if a.status = .active then refreshAgent sql t id
      pure true
    else pure false
  | .updateAgents rows => do
    let fired ← rows.foldlM (fun fired row => do
      match ← updateAgent t row.1 (assign row.2) with
      | none => pure fired
      | some (old, new) => pure (if agentFires sql row.2 old new then fired ++ [row.1] else fired)) []
    fired.foldlM (fun _ id => refreshAgent sql t id) ()
    pure true
  | .deleteAgents ids => do
    let gone ← collect (deleteAgent t) ids
    let picked ← .query fun s => (s.groupIds.product gone).filter fun k => (s.members k).view t
    HostGroups.dropMembers sql t picked
    agentsDeleted t gone
    pure true
  | .insertGroup kind => do
    HostGroups.insertGroup t kind
    pure true
  | .updateGroups rows => do
    let fired ← rows.foldlM (fun fired row => do
      match ← updateGroup t row.1 row.2 with
      | none => pure fired
      | some old => pure (if old ≠ row.2 then fired ++ [row.1] else fired)) []
    fired.foldlM (fun _ g => refreshGroup sql t g) ()
    pure true
  | .deleteGroups ids => do
    let gone ← collect (deleteGroup t) ids
    let conditions ← .query fun s => (gone.product (List.range 16)).filter fun k => ((s.conditions k).view t).isSome
    HostGroups.dropConditions sql t conditions
    let picked ← .query fun s => (gone.product s.agentIds).filter fun k => (s.members k).view t
    HostGroups.dropMembers sql t picked
    groupsDeleted t gone
    pure true
  | .putConditions rows => do
    let put ← collect (fun row => putCondition t row.1 row.2) rows
    ruleChanged sql t (put.map fun row => row.1.1)
    pure (put.length = rows.length)
  | .dropConditions keys => do
    HostGroups.dropConditions sql t keys
    pure true
  | .putMembers keys => do
    let put ← collect (putMember t) keys
    ruleChanged sql t (put.map Prod.fst)
    pure (put.length = keys.length)
  | .dropMembers keys => do
    HostGroups.dropMembers sql t keys
    pure true

def execAll (t : ℕ) : List Stmt → Txn Db (End Unit)
  | [] => pure (.commit ())
  | stmt :: rest => do
    if ← stmt.exec sql t then execAll t rest else pure (.rollback ())

/-- `write` of `host_group_writes.rs` on an existing group: the kind, then conditions and picked hosts. -/
def writeGroup (g : ℕ) (kind : Kind) (oldConditions : List (ℕ × ℕ)) (unpicked picked : List String)
    (conditions : List Condition) : List Stmt :=
  [.updateGroups [(g, kind)], .dropConditions oldConditions, .dropMembers (unpicked.map fun id => (g, id)),
    .putMembers (picked.map fun id => (g, id))] ++ conditions.mapIdx fun p c => .putConditions [((g, p), c)]

/-! ### The system -/

def Db.commit (s : Db) : Db :=
  { s with
    lock := s.lock.commit t, agents := s.agents.commit t, groups := s.groups.commit t,
    conditions := s.conditions.commit t, members := s.members.commit t, membership := s.membership.commit t }

def Db.abort (s : Db) : Db :=
  { s with
    lock := s.lock.abort t, agents := s.agents.abort t, groups := s.groups.abort t,
    conditions := s.conditions.abort t, members := s.members.abort t, membership := s.membership.abort t }

def system : System ℕ (List Stmt) Empty Db (End Unit) where
  prog := execAll sql
  close t e s :=
    match e with
    | .commit _ => s.commit t
    | .rollback _ => s.abort t
  abort := Db.abort
  effect op _ := op.elim

end OpenVibes.Store.HostGroups
