import OpenVibes.Store.AlarmDelivery

/-!
# Suppressions

`crates/platform-store/src/alarm_suppressions.rs` and `alarm_suppression_writes.rs`: a suppression, derived from an
alarm, closes the alarms of a rule as they arrive. Here are the rows, what each of the four writes checks, in order, and
what it makes of a row. SHA-256 is any function.
-/

namespace OpenVibes.Store.Suppressions

open Theory Rust Store.Triage
open Store.Alarms (SuppressionScope Suppression suppressionMatches hostInGroup Entry)

/-! ### Rows -/

inductive What where
  | program
  | command
deriving DecidableEq

inductive Where where
  | host
  | group (id : String)
  | all
deriving DecidableEq

inductive State where
  | waiting
  | active
  | rejected
  | withdrawn
  | removed
deriving DecidableEq

structure Row where
  id : ℕ
  (ruleSetId ruleId : String)
  scope : SuppressionScope
  (agentId hostGroupId : Option String)
  deviceId : Option ℕ
  (exe argsSha256 : Option String)
  (note createdBy : String)
  createdAt : Time
  state : State
  forDays : Option ℤ
  (activatedAt expiresAt : Option Time)
  decidedBy : Option String
  decidedAt : Option Time
  (decisionReason removedBy : Option String)
  removedAt : Option Time
  alarmId : Option ℕ

def Row.seen (r : Row) : Suppression :=
  ⟨r.id, r.state = .active, r.expiresAt, r.ruleSetId, r.ruleId, r.scope, r.agentId, r.hostGroupId, r.exe, r.argsSha256,
    r.alarmId⟩

def Row.fieldsValid (r : Row) : Bool :=
  match r.scope with
  | .host => r.agentId.isSome && r.hostGroupId.isNone && r.exe.isNone && r.argsSha256.isNone && r.deviceId.isNone
  | .program =>
    r.exe.isSome && r.argsSha256.isNone && r.deviceId.isNone && !(r.agentId.isSome && r.hostGroupId.isSome)
  | .command =>
    r.exe.isSome && r.argsSha256.isSome && r.deviceId.isNone && !(r.agentId.isSome && r.hostGroupId.isSome)
  | .device =>
    r.deviceId.isSome && r.agentId.isNone && r.hostGroupId.isNone && r.exe.isNone && r.argsSha256.isNone &&
      r.ruleSetId.startsWith "device-"
  | .signature =>
    r.deviceId.isNone && r.agentId.isNone && r.hostGroupId.isNone && r.exe.isNone && r.argsSha256.isNone &&
      r.ruleSetId.startsWith "device-"

def bounded (text : String) : Bool := 1 ≤ text.toList.length && text.toList.length ≤ 4000

def Row.valid (r : Row) : Bool :=
  r.fieldsValid && bounded r.note && r.removedAt.isNone = r.removedBy.isNone &&
    r.forDays.all (fun days => days = 7 || days = 30) && r.decisionReason.all bounded &&
    (r.state = .removed) = r.removedAt.isSome && (!(r.state = .active || r.state = .removed) || r.activatedAt.isSome) &&
    (r.state ≠ .rejected || r.decisionReason.isSome)

/-- `Suppression`, as `fetch` reads it. -/
structure Fetched where
  row : Row
  expired : Bool
  hostGroupName : Option String

/-- A row of `console_asset_groups`, as suppressions read it. -/
structure Group where
  name : String
  version : ℤ

def fetch (groups : String → Option Group) (row : Row) (now : Time) : Fetched :=
  ⟨row, row.state = .active && row.expiresAt.any (fun e => e ≤ now), (row.hostGroupId.bind groups).map Group.name⟩

/-! ### Requests -/

structure Request where
  alarmRowId : ℕ
  what : What
  place : Where
  /-- 7, 30 or none (until removed), counted from activation. -/
  forDays : Option ℤ
  reason : String

inductive Field where
  | reason
  | forDays
  | group
  | command
deriving DecidableEq

/-- `Change`: outcome of a write. -/
inductive Change where
  | done (made : Fetched)
  /-- The alarm or suppression is absent or outside the caller's reach. -/
  | notFound
  | needsGlobalScope
  | notInReach
  | invalid (field : Field)
  | wrongState
  | ownRequest

def isGlobal : AgentScope → Bool
  | .global => true
  | .assetGroups _ => false

def groupIds : AgentScope → List String
  | .global => []
  | .assetGroups ids => ids

def validReason (reason : String) : Bool := reason ≠ "" && reason.toList.length ≤ 4000

def Request.check (suppress : AgentScope) (req : Request) : Option Change :=
  if !validReason (trim req.reason) then some (.invalid .reason)
  else if !(req.forDays.all fun days => days = 7 || days = 30) then some (.invalid .forDays)
  else
    match req.place with
    | .all => if !isGlobal suppress then some .needsGlobalScope else none
    | .group group => if !isGlobal suppress && !(groupIds suppress).contains group then some .notInReach else none
    | .host => none

def Request.group (req : Request) : Option String :=
  match req.place with
  | .group group => some group
  | _ => none

structure Source where
  (ruleSetId ruleId agentId : String)
  exe : Option String
  args : Option Json

/-- `from_value::<Vec<String>>`. -/
def parseArgs (args : Json) : Option (List String) := args.asArray.bind fun items => items.mapM Json.asStr

def hexDigit (n : ℕ) : Char := "0123456789abcdef".toList.getD n '0'

def escaped (c : Char) : List Char :=
  if c = '"' then ['\\', '"']
  else if c = '\\' then ['\\', '\\']
  else if c = '\n' then ['\\', 'n']
  else if c = '\r' then ['\\', 'r']
  else if c = '\t' then ['\\', 't']
  else if c.toNat = 8 then ['\\', 'b']
  else if c.toNat = 12 then ['\\', 'f']
  else if c.toNat < 32 then ['\\', 'u', '0', '0', hexDigit (c.toNat / 16), hexDigit (c.toNat % 16)]
  else [c]

def quoted (text : String) : String := "\"" ++ String.ofList (text.toList.flatMap escaped) ++ "\""

section

variable (sha256 : String → String)

/-- `args_sha256`: the hash of the arguments as a JSON array. -/
def argsSha256 (args : List String) : String := sha256 ("[" ++ String.intercalate "," (args.map quoted) ++ "]")

/-- The scope and hash of a request; no result when the alarm has no arguments. -/
def Request.target (req : Request) (source : Source) : Option (Except Change (SuppressionScope × Option String)) :=
  match req.what with
  | .program => some (.ok (.program, none))
  | .command =>
    source.args.map fun args =>
      match parseArgs args with
      | none => .error (.invalid .command)
      | some args => .ok (.command, some (argsSha256 sha256 args))

end

/-- `at + make_interval(hours => 24 * days)`. -/
def expiry (activatedAt : Option Time) (forDays : Option ℤ) : Option Time :=
  activatedAt.bind fun t => forDays.map fun days => t + 24 * days * 3600000000

def Request.newRow (req : Request) (id : ℕ) (source : Source) (target : SuppressionScope × Option String)
    (requireApproval : Bool) (actor : String) (now : Time) : Row where
  id := id
  ruleSetId := source.ruleSetId
  ruleId := source.ruleId
  scope := target.1
  agentId := if req.place = .host then some source.agentId else none
  hostGroupId := req.group
  deviceId := none
  exe := source.exe
  argsSha256 := target.2
  note := trim req.reason
  createdBy := actor
  createdAt := now
  state := if requireApproval then .waiting else .active
  forDays := req.forDays
  activatedAt := if requireApproval then none else some now
  expiresAt := expiry (if requireApproval then none else some now) req.forDays
  decidedBy := none
  decidedAt := none
  decisionReason := none
  removedBy := none
  removedAt := none
  alarmId := some req.alarmRowId

/-! ### Decisions -/

def inReach (dir : Directory) (allRows : Bool) (scope : AgentScope) (r : Row) : Bool :=
  isGlobal scope || r.agentId.any (fun agent => visible dir scope agent) ||
    r.hostGroupId.any (fun group => (groupIds scope).contains group) ||
    (r.agentId.isNone && r.hostGroupId.isNone && r.deviceId.isNone && r.scope ≠ .signature &&
      (allRows || isGlobal scope))

structure Decision where
  approve : AgentScope
  id : ℕ
  approveIt : Bool
  reason : Option String
  actor : String
  now : Time

def Decision.why (d : Decision) : Option String := (d.reason.map trim).filter fun reason => reason ≠ ""

def Decision.check (d : Decision) (r : Row) (groupGone : Bool) : Option Change :=
  if r.state ≠ .waiting then some .wrongState
  else if r.createdBy = d.actor then some .ownRequest
  else if d.why.any (fun reason => !validReason reason) || (!d.approveIt && d.why.isNone) then some (.invalid .reason)
  else if d.approveIt && groupGone then some (.invalid .group)
  else none

def Decision.write (d : Decision) (r : Row) : Row :=
  { r with
    state := if d.approveIt then .active else .rejected
    decidedBy := some d.actor
    decidedAt := some d.now
    decisionReason := d.why
    activatedAt := if d.approveIt then some d.now else none
    expiresAt := if d.approveIt then expiry (some d.now) r.forDays else none }

def Row.withdrawn (r : Row) (actor : String) (now : Time) : Row :=
  { r with state := .withdrawn, decidedBy := some actor, decidedAt := some now }

def Row.removed (r : Row) (actor : String) (now : Time) : Row :=
  { r with state := .removed, removedBy := some actor, removedAt := some now }

end OpenVibes.Store.Suppressions
