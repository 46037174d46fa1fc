import OpenVibes.Console.AccessWrites
import OpenVibes.Theory.Steps

/-!
# Editing a host group

`update_group` of `crates/openvibes-console/src/hosts/groups.rs`, with `group_checks.rs` and
`crates/platform-store/src/host_group_writes.rs`. Each read before the write is a step (`Phase`), and between two of
them other people write roles. Writes run under one advisory lock, so that each is one step. The parser of addresses and
`lower` are parameters.
-/

namespace OpenVibes.Console

open Rust Theory

/-! ### Data -/

inductive GroupKind where
  | automatic
  | rule
  | manual
deriving DecidableEq

/-- `Condition`: the field holds when a value matches (none, negated). -/
structure Condition where
  field : String
  negate : Bool
  values : List String

/-- A row of `console_asset_groups`, with its conditions and picked hosts. -/
structure GroupRow where
  (assetGroupId name description : String)
  kind : GroupKind
  autoKey : Option String
  conditions : List Condition
  members : List String
  version : ℤ

structure GroupDb where
  access : Db
  groups : Table GroupRow GroupRow.assetGroupId
  (dismissed activeHosts : List String)

/-- `GroupSummary`, what the handler reads of it. -/
structure GroupSummary where
  (assetGroupId name : String)
  kind : GroupKind
  description : String
  conditions : List Condition
  roles : List (String × String)
  version : ℤ

def GroupSummary.roleIds (group : GroupSummary) : List String := group.roles.map Prod.fst

/-- The rows of `console_role_groups` of a group, each with its role. -/
def Db.reaching (db : Db) (groupId : String) : List Role :=
  db.roles.rows.filter fun role => role.groups.contains groupId

/-- `ORDER BY r.display_name, r.role_id`. -/
def byName (a b : Role) : Prop := a.name < b.name ∨ a.name = b.name ∧ a.roleId ≤ b.roleId

instance (a b : Role) : Decidable (byName a b) := inferInstanceAs (Decidable (_ ∨ _))

/-- `summaries`, of one row. -/
def GroupDb.summary (db : GroupDb) (row : GroupRow) : GroupSummary where
  assetGroupId := row.assetGroupId
  name := row.name
  kind := row.kind
  description := row.description
  conditions := row.conditions
  roles := ((db.access.reaching row.assetGroupId).insertionSort byName).map fun role => (role.roleId, role.name)
  version := row.version

def GroupDb.detail (db : GroupDb) (groupId : String) : Option GroupSummary := (db.groups.get? groupId).map db.summary

def GroupDb.pickedIds (db : GroupDb) (groupId : String) : List String :=
  ((db.groups.get? groupId).elim [] fun row =>
    row.members.filter fun id => db.activeHosts.contains id).insertionSort (· ≤ ·)

/-! ### Contents -/

/-- `GroupContent`: a rule or picked hosts. -/
inductive GroupContent where
  | rule (conditions : List Condition)
  | manual (picked : List String)

/-- `GroupInput`: a group as a person saves it. -/
structure GroupInput where
  (name description : String)
  content : GroupContent

inductive IpFamily where
  | v4
  | v6
deriving DecidableEq

structure GroupEnv where
  lower : String → String
  parseIp : String → Option IpFamily

def maxConditions : ℕ := 16

def maxValues : ℕ := 64

def maxPicked : ℕ := 10000

section

variable (env : GroupEnv)

/-- `is_cidr`: an address, with the length of a network or without. -/
def isCidr (value : String) : Bool :=
  let (address, length) := match splitOnce '/' value.toList with
    | some (address, length) => (String.ofList address, some (String.ofList length))
    | none => (value, none)
  match env.parseIp address with
  | none => false
  | some family => length.all fun p =>
      let bytes := asBytes p
      1 ≤ bytes.length && bytes.length ≤ 3 && bytes.all isAsciiDigit && decimal bytes ≤ 255 &&
        decimal bytes ≤ match family with
          | .v4 => 32
          | .v6 => 128

def valueOk (field value : String) : Bool :=
  if field = "os_family" then value = "linux" || value = "windows"
  else if field = "ip" then isCidr env value
  else if field = "distribution" || field = "hostname" then
    1 ≤ value.length && value.length ≤ 255 && !value.toList.any isControl
  else false

/-- `invalid_content`: the malformed part of a rule. -/
def invalidContent : GroupContent → Option String
  | .manual _ => none
  | .rule conditions =>
    if maxConditions < conditions.length then some "conditions"
    else
      (conditions.find? fun c =>
        !(1 ≤ c.values.length && c.values.length ≤ maxValues) || !c.values.all (valueOk env c.field)).map
          Condition.field

def invalidPart (input : GroupInput) : Option String :=
  let name := trim input.name
  if name ≠ input.name || !(1 ≤ name.length && name.length ≤ 128) || name.toList.any isControl then some "name"
  else if 500 < input.description.length then some "description"
  else invalidContent env input.content

def isDistribution (value : String) : Bool :=
  let ok (part : List Char) := !part.isEmpty &&
    part.all fun c => ('a' ≤ c && c ≤ 'z') || ('0' ≤ c && c ≤ '9') || c = '.' || c = '_' || c = '-'
  (splitOnce ' ' value.toList).any fun (id, release) => ok id && ok release

def invalidRule (conditions : List Condition) : Option String :=
  if conditions.isEmpty then some "conditions"
  else
    match conditions.find? fun c => c.field = "distribution" && !c.values.all isDistribution with
    | some c => some c.field
    | none => invalidContent env (.rule conditions)

end

/-! ### Problems -/

/-- `invalid`, of the group handlers. -/
def invalidGroup (field message : String) : ProblemDetails :=
  { problem 400 "invalid_group" "The host group is invalid" with fieldErrors := [⟨field, "invalid", message⟩] }

def conditionProblem (field : String) : ProblemDetails :=
  { problem 422 "invalid_condition" "A condition is invalid" with
    fieldErrors := [⟨field, "invalid",
      "Use 1 to 16 conditions on os_family, distribution, hostname or ip, each with 1 to 64 valid values"⟩] }

def groupNotFound : ProblemDetails := problem 404 "group_not_found" "No such host group"

/-- `Content::checked`. -/
def checkedContent (env : GroupEnv) : GroupContent → Except ProblemDetails GroupContent
  | .rule conditions =>
    match invalidRule env conditions with
    | some part => .error (conditionProblem part)
    | none => .ok (.rule conditions)
  | .manual picked =>
    if maxPicked < picked.length then .error (invalidGroup "agent_ids" "Pick at most 10000 hosts")
    else if picked.any fun id => (asBytes id).isEmpty || 255 < (asBytes id).length then
      .error (invalidGroup "agent_ids" "Host ids are 1–255 characters")
    else .ok (.manual picked)

/-! ### The store's write -/

inductive GroupWrite where
  | saved (group : GroupSummary)
  | nameTaken
  /-- The version given is not the current one, or other roles reach the group. -/
  | stale
  | notFound
  | unknownHost (agentId : String)
  | invalid (part : String)
  | failed

/-- `same_roles`: exactly these roles reach the group. -/
def Db.sameRoles (db : Db) (groupId : String) (expected : List String) : Bool :=
  ((db.reaching groupId).map Role.roleId).insertionSort (· ≤ ·) = sortDedup expected

def GroupContent.parts : GroupContent → GroupKind × List Condition × List String
  | .rule conditions => (.rule, conditions, [])
  | .manual picked => (.manual, [], picked.eraseDups)

def GroupRow.write (input : GroupInput) (row : GroupRow) : GroupRow :=
  let (kind, conditions, picked) := input.content.parts
  { row with
    name := input.name
    description := input.description
    kind := kind
    autoKey := none
    conditions := conditions
    members := (row.members.filter fun id => picked.contains id) ++ picked.filter fun id => !row.members.contains id
    version := row.version + 1 }

/-- The tables with it; the fact of an automatic group is dismissed. -/
def GroupDb.save (db : GroupDb) (row : GroupRow) (input : GroupInput) : GroupDb :=
  { db with
    groups := db.groups.updateWhere (fun r => r.assetGroupId = row.assetGroupId) (GroupRow.write input) fun _ => rfl
    dismissed := db.dismissed ++ row.autoKey.toList.filter fun key => !db.dismissed.contains key }

def GroupDb.update (env : GroupEnv) (db : GroupDb) (groupId : String) (version : ℤ)
    (expectedRoles : Option (List String)) (input : GroupInput) : GroupWrite × GroupDb :=
  match invalidPart env input with
  | some part => (.invalid part, db)
  | none =>
    match db.groups.get? groupId with
    | none => (.notFound, db)
    | some row =>
      if row.version ≠ version then (.stale, db)
      else if expectedRoles.any fun expected => !db.access.sameRoles groupId expected then (.stale, db)
      else
        match input.content.parts.2.2.find? fun id => !db.activeHosts.contains id with
        | some agentId => (.unknownHost agentId, db)
        | none =>
          if db.groups.rows.any fun r => r.assetGroupId ≠ groupId && env.lower r.name = env.lower input.name then
            (.nameTaken, db)
          else
            match (db.save row input).detail groupId with
            | none => (.failed, db)
            | some group => (.saved group, db.save row input)

def GroupWrite.answer : GroupWrite → Except ProblemDetails GroupSummary
  | .saved group => .ok group
  | .nameTaken => .error (problem 409 "group_name_taken" "Another group has this name")
  | .stale => .error (problem 409 "stale_group" "The group changed since you read it")
  | .notFound => .error groupNotFound
  | .unknownHost agentId => .error
      { problem 422 "unknown_host" "A picked host does not exist" with
        fieldErrors := [⟨"agent_ids", "unknown_host", "No active host " ++ agentId⟩] }
  | .invalid part => .error
      (if part = "name" then invalidGroup "name" "Use 1 to 128 characters, without control characters"
        else if part = "description" then invalidGroup "description" "Use at most 500 characters"
        else conditionProblem part)
  | .failed => .error unavailableAuth

/-! ### The handler's checks -/

/-- `writer`: the caller, who holds `host_groups.manage` and `hosts.read` on all hosts. -/
def Db.writer (db : Db) (actor : String) : Except ProblemDetails Editor := do
  let editor ← db.callerWith actor .hostGroupsManage
  refuse (!editor.capabilities.any fun c => c.permission = .hostsRead && c.scope = .global)
    (problem 403 "permission_denied" "Changing host groups needs access to every host")
  return editor

def hostPermissions : List String → Except ProblemDetails (List Permission)
  | [] => .ok []
  | id :: ids =>
    match Permission.fromId id with
    | some p => (hostPermissions ids).map fun host => if p.scope = .host then p :: host else host
    | none => .error (problem 403 "permission_denied"
        ("A role using this group holds a permission this console does not know (" ++ id ++ ")"))

def reachingRoleFits (editor : Editor) (role : Role) : Except ProblemDetails Unit := do
  let host ← hostPermissions role.permissions
  withinShare editor.capabilities host .all

structure UpdateHostGroup where
  (name description : Option String)
  conditions : Option (List Condition)
  agentIds : Option (List String)
  version : ℤ

def UpdateHostGroup.membershipChanges (request : UpdateHostGroup) : Bool :=
  request.conditions.isSome || request.agentIds.isSome

/-- The content that the request or, without one, the stored group gives. -/
def GroupDb.content (env : GroupEnv) (db : GroupDb) (groupId : String) (current : GroupSummary)
    (request : UpdateHostGroup) : Except ProblemDetails GroupContent :=
  match request.conditions, request.agentIds with
  | some conditions, none => checkedContent env (.rule conditions)
  | none, some picked => checkedContent env (.manual picked)
  | none, none =>
    if current.kind = .manual then .ok (.manual (db.pickedIds groupId)) else .ok (.rule current.conditions)
  | some _, some _ => .error (invalidGroup "agent_ids" "Send conditions or agent_ids, not both")

def UpdateHostGroup.input (request : UpdateHostGroup) (current : GroupSummary) (content : GroupContent) :
    GroupInput where
  name := request.name.elim current.name trim
  description := request.description.getD current.description
  content := content

/-! ### The handler, step by step -/

structure GroupCall where
  (actor groupId : String)
  payload : Option UpdateHostGroup

inductive Phase where
  | called
  | admitted (editor : Editor) (request : UpdateHostGroup)
  /-- The group is read; these of its roles wait for their check. -/
  | checking (editor : Editor) (request : UpdateHostGroup) (current : GroupSummary) (waiting : List String)
  | writing (editor : Editor) (request : UpdateHostGroup) (current : GroupSummary) (input : GroupInput)
  | answered (answer : Except ProblemDetails GroupSummary)

def Phase.after {α : Type} (next : α → Phase) : Except ProblemDetails α → Phase
  | .ok a => next a
  | .error why => .answered (.error why)

def GroupCall.enter (call : GroupCall) (db : GroupDb) : Except ProblemDetails (Editor × UpdateHostGroup) := do
  let editor ← db.access.writer call.actor
  let request ← body call.payload (invalidGroup "body" "The request body is invalid")
  return (editor, request)

def toCheck (editor : Editor) (request : UpdateHostGroup) (current : GroupSummary) : List String :=
  if request.membershipChanges && !editor.admin then current.roleIds else []

def Phase.next (env : GroupEnv) (call : GroupCall) (db : GroupDb) : Phase → Option (Phase × GroupDb)
  | .called => some (.after (fun (editor, request) => .admitted editor request) (call.enter db), db)
  | .admitted editor request =>
    some (.after (fun current => .checking editor request current (toCheck editor request current))
      (body (db.detail call.groupId) groupNotFound), db)
  | .checking editor request current (id :: waiting) =>
    some (.after (fun _ => .checking editor request current waiting)
      ((db.access.roles.get? id).elim (.ok ()) (reachingRoleFits editor)), db)
  | .checking editor request current [] =>
    some (.after (fun content => .writing editor request current (request.input current content))
      (db.content env call.groupId current request), db)
  | .writing _ request current input =>
    let expected := if request.membershipChanges then some current.roleIds else none
    let (written, db') := db.update env call.groupId request.version expected input
    some (.answered written.answer, db')
  | .answered _ => none

/-! ### The handler among role writes -/

inductive RoleChange where
  | create (hex : String) (input : RoleInput)
  | save (roleId : String) (version : ℤ) (input : RoleInput)
  | delete (roleId : String)
  | give (principal : Principal) (roleId : String)
  | take (principal : Principal) (roleId : String)

/-- The tables after a role write; one that is refused changes nothing. -/
def RoleChange.apply (lower : String → String) (db : Db) : RoleChange → Db
  | .create hex input => (db.createRole lower hex input).toOption.getD db
  | .save roleId version input => (db.saveRole lower roleId version input).toOption.getD db
  | .delete roleId => (db.deleteRole roleId).toOption.getD db
  | .give principal roleId => ((db.giveBinding principal roleId).toOption.map Prod.snd).getD db
  | .take principal roleId => ((db.removeBinding principal roleId).toOption.map Prod.snd).getD db

structure EditState where
  db : GroupDb
  phase : Phase

inductive EditEvent where
  | edit
  | roleWrite (change : RoleChange)

def EditState.step (env : GroupEnv) (call : GroupCall) (s : EditState) : EditEvent → Option EditState
  | .edit => (s.phase.next env call s.db).map fun (phase, db) => ⟨db, phase⟩
  | .roleWrite change => some { s with db := { s.db with access := change.apply env.lower s.db.access } }

end OpenVibes.Console
