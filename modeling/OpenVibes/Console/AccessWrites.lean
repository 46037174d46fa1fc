import OpenVibes.Console.Roles
import OpenVibes.Theory.Table

/-!
# Access writes

The role, people and service-account handlers of `crates/openvibes-console/src/access/`, with their store functions. A
handler is a function of the database: it answers a problem and changes nothing, or a status and the database it leaves.
Random ids and password hashes are inputs. Only active bindings are kept.
-/

namespace OpenVibes.Console

open Rust Theory

/-! ### Data -/

inductive Principal where
  | user (id : String)
  | serviceAccount (id : String)
deriving DecidableEq

inductive AuthSource where
  | password
  | sso
deriving DecidableEq

structure User where
  (userId username displayName : String)
  email : Option String
  enabled : Bool
  authSource : AuthSource
  /-- `console_credentials.password_phc`; none for a person without a password. -/
  passwordPhc : Option String
  passwordMustChange : Bool
  authGeneration : ℕ

structure ServiceAccount where
  (serviceAccountId name : String)
  enabled : Bool

structure Binding where
  holder : Principal
  roleId : String
deriving DecidableEq

structure Db where
  roles : Table Role Role.roleId
  users : Table User User.userId
  accounts : Table ServiceAccount ServiceAccount.serviceAccountId
  bindings : List Binding
  (groups permissionIds : List String)
  bound : ∀ b ∈ bindings, (roles.get? b.roleId).isSome

-- `lower`, which `console_roles_name_unique` compares names by
variable (lower : String → String) (db : Db)

def Db.rolesOf (principal : Principal) : List Role :=
  (db.bindings.filter fun b => b.holder = principal).filterMap fun b => db.roles.get? b.roleId

def Db.grants (principal : Principal) : List Grant := (db.rolesOf principal).map Role.grant

def Db.capabilities (principal : Principal) : List EffectiveCapability :=
  resolveCapabilities (db.grants principal)

/-- `principal_editor`, of a user. -/
def Db.editor (actor : String) : Editor where
  actor := actor
  capabilities := db.capabilities (.user actor)
  admin := (db.grants (.user actor)).any fun grant => grant.roleId = adminRole

/-! ### Statements -/

def Db.insertRole (role : Role) : Db :=
  { db with
    roles := db.roles.insertNew role
    bound := fun b hb => by
      obtain ⟨r, hr⟩ := Option.isSome_iff_exists.mp (db.bound b hb)
      rw [Table.get?_insertNew_of_some hr]
      rfl }

/-- `UPDATE` of one role. -/
def Db.updateRole (roleId : String) (f : Role → Role) (hf : ∀ r, (f r).roleId = r.roleId) : Db :=
  { db with
    roles := db.roles.updateWhere (fun r => r.roleId = roleId) f hf
    bound := fun b hb => by
      rw [Table.get?_updateWhere, Option.isSome_map]
      exact db.bound b hb }

/-- `DELETE` of a role that nobody holds. -/
def Db.removeRole (roleId : String) (h : ∀ b ∈ db.bindings, b.roleId ≠ roleId) : Db :=
  { db with
    roles := db.roles.deleteWhere fun r => r.roleId = roleId
    bound := fun b hb => by
      obtain ⟨r, hr⟩ := Option.isSome_iff_exists.mp (db.bound b hb)
      rw [Table.get?_deleteWhere, hr, Option.filter_some_pos]
      · rfl
      · simpa [Table.key_of_get? hr] using h b hb }

def Db.exists? : Principal → Bool
  | .user id => (db.users.get? id).isSome
  | .serviceAccount id => (db.accounts.get? id).isSome

/-- `bind`: inserts a binding; `none` if the principal or role is missing or the role is held. -/
def Db.bind (principal : Principal) (roleId : String) : Option Db :=
  if h : (db.roles.get? roleId).isSome ∧ db.exists? principal ∧ ⟨principal, roleId⟩ ∉ db.bindings then
    some { db with
      bindings := db.bindings ++ [⟨principal, roleId⟩]
      bound := fun b hb => by
        rcases List.mem_append.mp hb with hb | hb
        · exact db.bound b hb
        · obtain rfl := List.mem_singleton.mp hb
          exact h.1 }
  else none

def Db.unbind (principal : Principal) (roleId : String) : Db :=
  { db with
    bindings := db.bindings.filter fun b => b ≠ ⟨principal, roleId⟩
    bound := fun b hb => db.bound b (List.mem_filter.mp hb).1 }

/-! ### Roles in the store -/

/-- `RoleInput`: what a create or update writes. -/
structure RoleInput where
  (name description : String)
  permissions : List String
  reach : Reach

inductive RoleWrite where
  | nameTaken
  | stale
  | notFound
  | isProtected
  | inUse
  | unknownReference
  | failed
deriving DecidableEq

def Reach.groupIds : Reach → List String
  | .groups ids => ids
  | _ => []

def Role.write (input : RoleInput) (role : Role) : Role :=
  { role with
    name := input.name
    description := input.description
    permissions := input.permissions
    allHosts := input.reach = .all
    groups := input.reach.groupIds }

/-- The checks of `write_contents`: the unique name and the foreign keys. -/
def Db.refusesContents (roleId : String) (input : RoleInput) : Option RoleWrite :=
  if db.roles.rows.any fun r => r.roleId ≠ roleId && lower r.name = lower input.name then some .nameTaken
  else if input.permissions.all (db.permissionIds.contains ·) && input.reach.groupIds.all
    (db.groups.contains ·) then none
  else some .unknownReference

/-- `create_role`, with the random part of the id. -/
def Db.createRole (hex : String) (input : RoleInput) : Except RoleWrite Db :=
  let roleId := "r_" ++ hex
  if (db.roles.get? roleId).isSome then .error .failed
  else
    match db.refusesContents lower roleId input with
    | some refused => .error refused
    | none => .ok (db.insertRole (Role.write input ⟨roleId, "", "", false, [], false, [], 1⟩))

/-- `update_role`. -/
def Db.saveRole (roleId : String) (version : ℤ) (input : RoleInput) : Except RoleWrite Db :=
  if roleId = adminRole then .error .isProtected
  else
    match db.roles.get? roleId with
    | none => .error .notFound
    | some current =>
      if current.version ≠ version then .error .stale
      else
        match db.refusesContents lower roleId input with
        | some refused => .error refused
        | none => .ok (db.updateRole roleId (fun r => Role.write input
          { r with version := r.version + 1 }) fun _ => rfl)

def Db.deleteRole (roleId : String) : Except RoleWrite Db :=
  if roleId = adminRole then .error .isProtected
  else
    match db.roles.get? roleId with
    | none => .error .notFound
    | some _ =>
      if h : ∀ b ∈ db.bindings, b.roleId ≠ roleId then .ok (db.removeRole roleId h) else .error .inUse

/-! ### Problems -/

def authenticationRequired : ProblemDetails := problem 401 "authentication_required" "Authentication required"

def passwordChangeRequired : ProblemDetails := problem 403 "password_change_required" "Set your own password first"

def unavailableAuth : ProblemDetails :=
  problem 503 "authentication_unavailable" "Authentication is temporarily unavailable"

/-- `invalid`, of the role handlers. -/
def invalidRole (field message : String) : ProblemDetails :=
  { problem 400 "invalid_role" "The role is invalid" with fieldErrors := [⟨field, "invalid", message⟩] }

def unknownGroup : ProblemDetails := problem 422 "unknown_group" "A host group does not exist"

def roleNotFound : ProblemDetails := problem 404 "role_not_found" "No such role"

def protectedRole : ProblemDetails := problem 403 "protected_role" "Administrator cannot be changed or deleted"

def staleRole : ProblemDetails := problem 409 "stale_role" "The role changed since you read it"

def userNotFound : ProblemDetails := problem 404 "user_not_found" "No such person"

def userConflict : ProblemDetails := problem 409 "user_conflict" "A user with this username already exists"

def managedBySso : ProblemDetails :=
  problem 409 "managed_by_sso"
    "Their name, email and roles come from single sign-on and are set again at each sign-in"

def lastAdministrator : ProblemDetails :=
  problem 409 "last_administrator" "Someone else must hold Administrator first"

/-- `answer`: the refusals of a role write. -/
def RoleWrite.problem : RoleWrite → ProblemDetails
  | .nameTaken => Console.problem 409 "role_name_taken" "Another role has this name"
  | .stale => staleRole
  | .notFound => roleNotFound
  | .isProtected => protectedRole
  | .inUse => Console.problem 409 "role_in_use" "Take the role away from everyone who holds it first"
  | .unknownReference => unknownGroup
  | .failed => unavailableAuth

def answer (status : ℕ) : Except RoleWrite Db → Except ProblemDetails (ℕ × Db)
  | .ok db => .ok (status, db)
  | .error refused => .error refused.problem

/-! ### Who is calling -/

def refuse (condition : Bool) (why : ProblemDetails) : Except ProblemDetails Unit :=
  if condition then .error why else .ok ()

/-- `caller`: the signed-in person with everything they hold. -/
def Db.caller (actor : String) : Except ProblemDetails Editor :=
  match db.users.get? actor with
  | none => .error authenticationRequired
  | some user =>
    if !user.enabled then .error authenticationRequired
    else if user.passwordMustChange then .error passwordChangeRequired
    else .ok (db.editor actor)

def Db.callerWith (actor : String) (p : Permission) : Except ProblemDetails Editor := do
  let editor ← db.caller actor
  editor.requires p
  .ok editor

/-! ### The role handlers -/

inductive ReachInput where
  | none
  | all
  | groups (ids : List String)

structure SaveRole where
  (name description : String)
  permissions : List Permission
  reach : ReachInput
  version : Option ℤ

/-- `Checked`: a `SaveRole` that passed validation. -/
structure Checked where
  (name description : String)
  ids : List Permission
  reach : Reach

def isAsciiHexdigit (c : UInt8) : Bool := isAsciiDigit c || (65 ≤ c && c ≤ 70) || (97 ≤ c && c ≤ 102)

def validUuid (value : String) : Bool :=
  let bytes := asBytes value
  bytes.length = 36 && bytes.zipIdx.all fun (byte, index) =>
    if index = 8 || index = 13 || index = 18 || index = 23 then byte = 45 else isAsciiHexdigit byte

def missingNeeds (p need : Permission) : ProblemDetails :=
  { problem 422 "missing_needs" "A permission is missing what it needs" with
    permission := some p.id, needs := some need.id }

def ReachInput.check : ReachInput → Except ProblemDetails Reach
  | .none => .ok .none
  | .all => .ok .all
  | .groups assetGroupIds =>
    let ids := (assetGroupIds.map toAsciiLowercase).dedup.insertionSort (· ≤ ·)
    if ids.isEmpty || 64 < ids.length || ids.length ≠ assetGroupIds.length then
      .error (invalidRole "reach.asset_group_ids" "Choose 1 to 64 host groups, each once")
    else if ids.all validUuid then .ok (.groups ids)
    else .error unknownGroup

def Checked.new (request : SaveRole) : Except ProblemDetails Checked := do
  let name := trim request.name
  refuse (name.isEmpty || 64 < name.length || name.toList.any isControl)
    (invalidRole "name" "Use 1 to 64 characters, without control characters")
  refuse (500 < request.description.length) (invalidRole "description" "Use at most 500 characters")
  let set := Permission.all.filter fun p => request.permissions.contains p
  match set.findSome? fun p => (p.row.needs.find? fun need => !set.contains need).map fun need => (p, need) with
  | some (p, need) => throw (missingNeeds p need)
  | none =>
    let reach ← request.reach.check
    return ⟨name, request.description, set, reach⟩

def Checked.input (role : Checked) : RoleInput := ⟨role.name, role.description, role.ids.map Permission.id, role.reach⟩

def body {α : Type} (payload : Option α) (otherwise : ProblemDetails) : Except ProblemDetails α :=
  match payload with
  | some request => .ok request
  | none => .error otherwise

def Db.storedRoleFits (editor : Editor) (roleId : String) (version : Option ℤ) : Except ProblemDetails Unit :=
  match db.roles.get? roleId with
  | none => .error roleNotFound
  | some stored =>
    if version.any fun version => version ≠ stored.version then .error staleRole else roleFits editor stored

def createRole (actor hex : String) (payload : Option SaveRole) : Except ProblemDetails (ℕ × Db) := do
  let editor ← db.callerWith actor .accessRoles
  let request ← body payload (invalidRole "body" "The request body is invalid")
  let role ← Checked.new request
  withinShare editor.capabilities role.ids role.reach
  answer 201 (db.createRole lower hex role.input)

def updateRole (actor roleId : String) (payload : Option SaveRole) : Except ProblemDetails (ℕ × Db) := do
  let editor ← db.callerWith actor .accessRoles
  refuse (roleId = adminRole) protectedRole
  let request ← body payload (invalidRole "body" "The request body is invalid")
  let version ← body request.version (invalidRole "version" "Send the version you read")
  let role ← Checked.new request
  db.storedRoleFits editor roleId (some version)
  withinShare editor.capabilities role.ids role.reach
  answer 200 (db.saveRole lower roleId version role.input)

def deleteRole (actor roleId : String) : Except ProblemDetails (ℕ × Db) := do
  let editor ← db.callerWith actor .accessRoles
  refuse (roleId = adminRole) protectedRole
  db.storedRoleFits editor roleId none
  answer 204 (db.deleteRole roleId)

/-! ### People and service accounts -/

/-- `visible_person`: the person when the editor may see them. -/
def Db.visiblePerson (editor : Editor) (userId : String) : Except ProblemDetails User :=
  if !validUuid userId then .error userNotFound
  else
    match db.users.get? (toAsciiLowercase userId) with
    | none => .error userNotFound
    | some person =>
      if person.userId ≠ editor.actor && !rolesFit editor (db.rolesOf (.user person.userId)) then .error userNotFound
      else .ok person

/-- `visible_account`: the account when the editor may see it. -/
def Db.visibleAccount (editor : Editor) (id : String) : Except ProblemDetails ServiceAccount :=
  let notFound := problem 404 "service_account_not_found" "No such service account"
  if !validUuid id then .error notFound
  else
    match db.accounts.rows.find? fun a => toAsciiLowercase a.serviceAccountId = toAsciiLowercase id with
    | none => .error notFound
    | some account =>
      if !rolesFit editor (db.rolesOf (.serviceAccount account.serviceAccountId)) then .error notFound else .ok account

/-- The principal whose roles change, when the editor may change them. -/
def Db.holder (editor : Editor) (give : Bool) : Principal → Except ProblemDetails Principal
  | .user id => do
    let person ← db.visiblePerson editor id
    refuse (person.userId = editor.actor) (problem 403 "permission_denied" "Nobody can change their own roles")
    refuse (person.authSource = .sso && give) managedBySso
    return .user person.userId
  | .serviceAccount id => do
    let account ← db.visibleAccount editor id
    return .serviceAccount account.serviceAccountId

def Db.enabledAdministrators : ℕ :=
  (db.users.rows.filter fun u => u.enabled && db.bindings.contains ⟨.user u.userId, adminRole⟩).length

def Db.isEnabledUser : Principal → Bool
  | .user id => (db.users.get? id).any User.enabled
  | .serviceAccount _ => false

/-- `remove_role`, of the store. -/
def Db.removeBinding (principal : Principal) (roleId : String) : Except ProblemDetails (ℕ × Db) :=
  if ⟨principal, roleId⟩ ∉ db.bindings then .ok (204, db)
  else if roleId = adminRole && db.isEnabledUser principal && db.enabledAdministrators ≤ 1 then
    .error lastAdministrator
  else .ok (204, db.unbind principal roleId)

/-- `give_role`, of the store. -/
def Db.giveBinding (principal : Principal) (roleId : String) : Except ProblemDetails (ℕ × Db) :=
  match db.bind principal roleId with
  | some db' => .ok (204, db')
  | none => if ⟨principal, roleId⟩ ∈ db.bindings then .ok (204, db) else .error userNotFound

/-- `change`: gives or takes a role. -/
def changeRole (actor : String) (holder : Principal) (roleId : String) (give : Bool) :
    Except ProblemDetails (ℕ × Db) := do
  let editor ← db.callerWith actor .accessGrant
  let principal ← db.holder editor give holder
  let role ← body (db.roles.get? roleId) roleNotFound
  roleFits editor role
  if give then db.giveBinding principal roleId else db.removeBinding principal roleId

def Db.rolesGiven (db : Db) (editor : Editor) : List String → Except ProblemDetails Unit
  | [] => .ok ()
  | id :: ids => do
    let role ← body (db.roles.get? id) (problem 400 "unknown_role" "Choose an existing role")
    roleFits editor role
    db.rolesGiven editor ids

/-- `sort` and `dedup`. -/
def sortDedup (ids : List String) : List String := ids.dedup.insertionSort (· ≤ ·)

structure CreateUserRequest where
  (username displayName : String)
  email : Option String
  roleIds : List String

def canonicalUsername (username : String) : Option String :=
  let bytes := asBytes username
  if !bytes.isEmpty && bytes.length ≤ 64 && bytes.all fun b => isAsciiAlphanumeric b ||
      (asBytes "._@+-").contains b then
    some (toAsciiLowercase username)
  else none

/-- `display_name`. -/
def checkDisplayName (name : String) : Option String :=
  let name := trim name
  if !name.isEmpty && name.length ≤ 160 && !name.toList.any isControl then some name else none

/-- `email`: empty clears it. -/
def checkEmail (email : String) : Except ProblemDetails (Option String) :=
  let email := trim email
  let parts (p : List Char × List Char) := !p.1.isEmpty && !p.2.isEmpty && !p.2.contains '@'
  if email.isEmpty then .ok none
  else if email.length ≤ 254 && !(email.toList.any fun c => isWhitespace c || isControl c) &&
      (splitOnce '@' email.toList).any parts then .ok (some email)
  else .error (problem 422 "invalid_email" "Enter an email address such as name@example.com")

/-- `create_user`, of the store: the first role by an `INSERT`, the others by `bind`. -/
def Db.createUser (user : User) (roleIds : List String) : Option Db :=
  if (db.users.get? user.userId).isSome || db.users.rows.any fun u => u.username = user.username then none
  else
    let db := { db with users := db.users.insertNew user }
    match roleIds with
    | [] => none
    | first :: more =>
      (db.bind (.user user.userId) first).map fun db =>
        more.foldl (fun db id => (db.bind (.user user.userId) id).getD db) db

/-- `create_person`, with a random id and the hash of a one-time password. -/
def createPerson (actor userId phc : String) (payload : Option CreateUserRequest) :
    Except ProblemDetails (ℕ × Db) := do
  let editor ← db.callerWith actor .accessUsers
  let request ← body payload (problem 400 "invalid_user" "Provide a username, display name and roles")
  let invalid := problem 400 "invalid_user"
    "Use 1 to 64 letters, digits or ._@+- for the username and 1 to 160 characters for the name"
  let username ← body (canonicalUsername request.username) invalid
  let displayName ← body (checkDisplayName request.displayName) invalid
  let email ← (request.email.map checkEmail).getD (.ok none)
  let roleIds := sortDedup request.roleIds
  refuse (roleIds.isEmpty || 64 < roleIds.length) (problem 400 "invalid_user" "Give the person 1 to 64 roles")
  db.rolesGiven editor roleIds
  refuse (db.users.rows.any fun u => u.username = username) userConflict
  let user := ⟨userId, username, displayName, email, true, .password, some phc, true, 0⟩
  let db' ← body (db.createUser user roleIds) unavailableAuth
  return (201, db')

structure CreateServiceAccountRequest where
  name : String
  roleIds : List String

/-- `create_service_account`, of the store. -/
def Db.createServiceAccount (account : ServiceAccount) (roleIds : List String) : Option Db :=
  if (db.accounts.get? account.serviceAccountId).isSome || db.accounts.rows.any fun a => a.name = account.name then none
  else
    roleIds.foldlM (fun db id => db.bind (.serviceAccount account.serviceAccountId) id)
      { db with accounts := db.accounts.insertNew account }

/-- `create_authenticated_service_account`, with a random id. -/
def createServiceAccount (actor accountId : String) (payload : Option CreateServiceAccountRequest) :
    Except ProblemDetails (ℕ × Db) := do
  let invalid := problem 400 "invalid_service_account" "Provide a valid name and 1 to 64 roles"
  let editor ← db.callerWith actor .serviceAccountsManage
  let request ← body payload invalid
  let name := trim request.name
  let roleIds := sortDedup request.roleIds
  refuse (name.isEmpty || 128 < name.length || name.toList.any isControl || roleIds.isEmpty || 64 < roleIds.length)
    invalid
  db.rolesGiven editor roleIds
  let db' ← body (db.createServiceAccount ⟨accountId, name, true⟩ roleIds)
    (problem 409 "service_account_conflict" "A service account with this name already exists")
  return (201, db')

/-- `reset_password`, of the store. -/
def Db.resetPassword (userId phc : String) : Db :=
  { db with
    users := db.users.updateWhere (fun u => u.userId = userId)
      (fun u => { u with passwordPhc := some phc, passwordMustChange := true, authGeneration := u.authGeneration + 1 })
      fun _ => rfl }

/-- `reset_password`, with the hash of a one-time password. -/
def resetPassword (actor userId phc : String) : Except ProblemDetails (ℕ × Db) := do
  let editor ← db.callerWith actor .accessUsers
  let person ← db.visiblePerson editor userId
  refuse (person.userId = editor.actor) (problem 403 "use_change_password" "Use Change password for your own account")
  refuse (person.authSource = .sso) managedBySso
  refuse person.passwordPhc.isNone userNotFound
  return (200, db.resetPassword person.userId phc)

/-! ### Sequences of writes -/

inductive Write where
  | createRole (hex : String) (payload : Option SaveRole)
  | updateRole (roleId : String) (payload : Option SaveRole)
  | deleteRole (roleId : String)
  | changeRole (holder : Principal) (roleId : String) (give : Bool)
  | createPerson (userId phc : String) (payload : Option CreateUserRequest)
  | createServiceAccount (accountId : String) (payload : Option CreateServiceAccountRequest)
  | resetPassword (userId phc : String)

def Write.handle (actor : String) : Write → Except ProblemDetails (ℕ × Db)
  | .createRole hex payload => Console.createRole lower db actor hex payload
  | .updateRole roleId payload => Console.updateRole lower db actor roleId payload
  | .deleteRole roleId => Console.deleteRole db actor roleId
  | .changeRole holder roleId give => Console.changeRole db actor holder roleId give
  | .createPerson userId phc payload => Console.createPerson db actor userId phc payload
  | .createServiceAccount accountId payload => Console.createServiceAccount db actor accountId payload
  | .resetPassword userId phc => Console.resetPassword db actor userId phc

/-- A write, run alone: one that is refused changes nothing. -/
def Write.run (actor : String) (db : Db) (w : Write) : Db :=
  match w.handle lower db actor with
  | .ok (_, db') => db'
  | .error _ => db

def runWrites (actor : String) (db : Db) (ws : List Write) : Db := ws.foldl (Write.run lower actor) db

/-! ### Checks that passed -/

theorem callerWith_eq_ok {db : Db} {actor : String} {p : Permission} {editor : Editor}
    (h : db.callerWith actor p = .ok editor) : editor = db.editor actor ∧ (db.users.get? actor).isSome := by
  obtain ⟨editor', hclr, h⟩ := bind_eq_ok h
  obtain ⟨_, -, h⟩ := bind_eq_ok h
  cases h
  rw [Db.caller] at hclr
  split at hclr
  · cases hclr
  · rename_i user hus
    split_ifs at hclr
    exact ⟨(Except.ok.inj hclr).symm, by rw [hus]; rfl⟩

theorem body_eq_ok {α : Type} {payload : Option α} {otherwise : ProblemDetails} {request : α}
    (h : body payload otherwise = .ok request) : payload = some request := by
  cases payload with
  | none => cases h
  | some r => exact congrArg some (Except.ok.inj h)

theorem refuse_eq_ok {cond : Bool} {why : ProblemDetails} {u : Unit} (h : refuse cond why = .ok u) :
    cond = false := by
  cases cond with
  | false => rfl
  | true => cases h

end OpenVibes.Console
