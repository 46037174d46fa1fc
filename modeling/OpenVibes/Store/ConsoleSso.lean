import OpenVibes.Theory.Commits

/-!
# People, roles and single sign-on

`crates/platform-store/src/console_sso.rs`, with `give_role`, `remove_role` and `enable_user` of `console_people.rs` and
`disable_local_user` of `console_auth.rs`, each a program of its statements (`Theory.Txn`), at READ COMMITTED.
`start_request` and `take_request` run without a transaction; `clean` runs one for each person. A person's active
binding to a role is a row of `bindings`. The digest of an assertion's issuer and id is taken to be free of collisions.
`lower` is PostgreSQL's, and new ids are fresh. Roles, what points at a person, and the time of the last sign-in are
changed from outside. `counted` and `log` are there to speak about runs.
-/

namespace OpenVibes.Store.ConsoleSso

open Theory Function

/-! ### Rows -/

inductive Principal where
  | user (id : ℕ)
  | serviceAccount (id : ℕ)
deriving DecidableEq

def Principal.user? : Principal → Option ℕ
  | .user u => some u
  | .serviceAccount _ => none

inductive Source where
  | manual
  | sso
deriving DecidableEq

structure BindingKey where
  principal : Principal
  roleId : String
deriving DecidableEq

structure Binding where
  bindingId : ℕ
  source : Source

structure User where
  enabled : Bool
  authGeneration : ℕ
  displayName : String
  email : Option String
  createdAt : ℤ
  lastSignInAt : Option ℤ

structure Role where
  (roleId displayName : String)

structure Subject where
  (issuer subject : String)
deriving DecidableEq

structure Assertion where
  (issuer id : String)
deriving DecidableEq

structure Request where
  requestId : String
  browserSha256 : ℕ
  (createdAt expiresAt : ℤ)
  consumedAt : Option ℤ

inductive Counted where
  | administrators (u : ℕ)
  | roles (u : ℕ)
deriving DecidableEq

inductive Event where
  | started (relay : ℕ) (requestId : String) (browser : ℕ) (expiresAt : ℤ)
  | taken (relay : ℕ) (requestId : String) (browser : ℕ) (now : ℤ)
  | forgot (now : ℤ)
  | allowed (assertion : Assertion) (u : ℕ)

structure Db where
  lock : Cell ℕ Unit
  users : Cells ℕ ℕ (Option User)
  links : Cells ℕ Subject (Option ℕ)
  bindings : Cells ℕ BindingKey (Option Binding)
  /-- `console_saml_seen`: until when an assertion is remembered. -/
  seen : Cells ℕ Assertion (Option ℤ)
  /-- `console_saml_requests`, by the digest of the relay token. -/
  requests : ℕ → Option Request
  roles : List Role
  serviceAccounts : List ℕ
  referenced : ℕ → Bool
  userIds : List ℕ
  subjects : List Subject
  bindingKeys : List BindingKey
  relays : List ℕ
  nextId : ℕ
  counted : ℕ → Option Counted
  log : List Event

def Db.commit (s : Db) (t : ℕ) : Db :=
  { s with
    lock := s.lock.commit t
    users := s.users.commit t
    links := s.links.commit t
    bindings := s.bindings.commit t
    seen := s.seen.commit t
    counted := update s.counted t none }

/-- `ROLLBACK`. -/
def Db.abort (s : Db) (t : ℕ) : Db :=
  { s with
    lock := s.lock.abort t
    users := s.users.abort t
    links := s.links.abort t
    bindings := s.bindings.abort t
    seen := s.seen.abort t
    counted := update s.counted t none }

def Db.count (s : Db) (t : ℕ) : Option Counted → Db
  | none => s
  | some c => { s with counted := update s.counted t (some c) }

/-! ### Statements -/

variable (t : ℕ)

/-- `pg_advisory_xact_lock`. -/
def takeLock : Txn Db Unit :=
  .stmt fun s => if s.lock.free t then some ((), { s with lock := s.lock.write t () }) else none

/-- `UPDATE console_users … WHERE user_id = u` and a condition; whether a row was updated. -/
def updateUser (u : ℕ) (cond : User → Bool) (f : User → User) : Txn Db Bool :=
  .stmt fun s =>
    match (s.users u).view t with
    | none => some (false, s)
    | some row =>
      if !cond row then some (false, s)
      else (s.users.put t u (some (f row))).map fun users => (true, { s with users := users })

/-- `INSERT INTO console_role_bindings`: a new active binding, if the index allows it. -/
def insertBinding (k : BindingKey) (source : Source) : Txn Db Bool :=
  .stmt fun s =>
    match (s.bindings k).view t with
    | some _ => some (false, s)
    | none => (s.bindings.put t k (some ⟨s.nextId, source⟩)).map fun bindings =>
        (true, { s with bindings := bindings, bindingKeys := k :: s.bindingKeys, nextId := s.nextId + 1 })

/-- `UPDATE console_role_bindings SET revoked_at … WHERE binding_id = id`. -/
def revokeBinding (k : BindingKey) (id : ℕ) : Txn Db Unit :=
  .stmt fun s =>
    match (s.bindings k).view t with
    | none => some ((), s)
    | some b =>
      if b.bindingId ≠ id then some ((), s)
      else (s.bindings.put t k none).map fun bindings => ((), { s with bindings := bindings })

def clearBinding (k : BindingKey) : Txn Db Unit :=
  .stmt fun s =>
    match (s.bindings k).view t with
    | none => some ((), s)
    | some _ => (s.bindings.put t k none).map fun bindings => ((), { s with bindings := bindings })

/-- The active bindings of a user, as a transaction sees them. -/
def Db.bindingsOf (s : Db) (t u : ℕ) : List BindingKey :=
  (s.bindingKeys.filter fun k => k.principal = .user u && ((s.bindings k).view t).isSome).dedup

/-! ### Administrators -/

def Db.isAdministrator (s : Db) (t u : ℕ) : Bool :=
  ((s.users u).view t).any User.enabled && ((s.bindings ⟨.user u, "admin"⟩).view t).isSome

/-- `enabled_administrators`, before somebody loses it. -/
def countAdministrators (target : Option ℕ) : Txn Db ℕ :=
  .stmt fun s =>
    let n := (s.userIds.filter fun u => s.isAdministrator t u).dedup.length
    some (n, if 2 ≤ n then s.count t (target.map .administrators) else s)

/-- `active_binding`: the binding's id, and whether it belongs to an enabled user. -/
def Db.activeBinding (s : Db) (t : ℕ) (p : Principal) (roleId : String) : Option (ℕ × Bool) :=
  ((s.bindings ⟨p, roleId⟩).view t).map fun b => (b.bindingId, p.user?.any fun u =>
    ((s.users u).view t).any User.enabled)

inductive RoleGift where
  | given
  | alreadyHeld
  | notFound
deriving DecidableEq

def Db.hasPrincipal (s : Db) (t : ℕ) : Principal → Bool
  | .user u => ((s.users u).view t).isSome
  | .serviceAccount a => decide (a ∈ s.serviceAccounts)

def bind (p : Principal) (roleId : String) : Txn Db Bool := do
  if ← .query fun s => s.roles.any (fun r => r.roleId = roleId) && s.hasPrincipal t p then
    insertBinding t ⟨p, roleId⟩ .manual
  else pure false

/-- `give_role`, under the lock. -/
def giveRole (p : Principal) (roleId : String) : Txn Db (End RoleGift) := do
  takeLock t
  if ← bind t p roleId then pure (.commit .given)
  else if ← .query fun s => (s.activeBinding t p roleId).isSome then pure (.rollback .alreadyHeld)
  else pure (.rollback .notFound)

inductive BindingRevocation where
  | revoked
  | notFound
  | lastAdministrator
deriving DecidableEq

/-- Somebody who is not an enabled Administrator loses the role: somebody else is one. -/
def losing (p : Principal) (roleId : String) : Option (ℕ × Bool) → Option Counted
  | some (_, false) => if roleId = "admin" then p.user?.map .administrators else none
  | _ => none

def removeRole (p : Principal) (roleId : String) : Txn Db (End BindingRevocation) := do
  takeLock t
  match ← .stmt fun s =>
      some (s.activeBinding t p roleId, s.count t (losing p roleId (s.activeBinding t p roleId))) with
  | none => pure (.rollback .notFound)
  | some (bindingId, enabledUser) =>
    if roleId = "admin" && enabledUser then
      if (← countAdministrators t p.user?) ≤ 1 then pure (.rollback .lastAdministrator)
      else
        revokeBinding t ⟨p, roleId⟩ bindingId
        pure (.commit .revoked)
    else
      revokeBinding t ⟨p, roleId⟩ bindingId
      pure (.commit .revoked)

inductive DisableOutcome where
  | disabled
  | notFound
  | lastAdministrator
deriving DecidableEq

def disableUser (u : ℕ) : Txn Db (End DisableOutcome) := do
  if ← updateUser t u User.enabled fun user =>
      { user with enabled := false, authGeneration := user.authGeneration + 1 } then
    pure (.commit .disabled)
  else pure (.rollback .notFound)

def disableLocalUser (u : ℕ) : Txn Db (End DisableOutcome) := do
  takeLock t
  if ← .stmt fun s =>
      some (s.isAdministrator t u, s.count t (if s.isAdministrator t u then none else some (.administrators u))) then
    if (← countAdministrators t (some u)) ≤ 1 then pure (.rollback .lastAdministrator)
    else disableUser t u
  else disableUser t u

def enableUser (u : ℕ) : Txn Db (End Bool) := do
  if ← updateUser t u (fun user => !user.enabled) fun user => { user with enabled := true } then pure (.commit true)
  else pure (.rollback false)

/-! ### Requests -/

structure NewRequest where
  relaySha256 : ℕ
  requestId : String
  browserSha256 : ℕ
  (now expiresAt : ℤ)
deriving DecidableEq

def maxPending : ℕ := 2000

/-- `DELETE FROM console_saml_requests WHERE expires_at < now`. -/
def forgetRequests (now : ℤ) : Txn Db Unit :=
  .stmt fun s => some ((), { s with requests := fun k => (s.requests k).filter fun r => !(r.expiresAt < now) })

/-- `DELETE FROM console_saml_seen WHERE expires_at < now`. -/
def forgetSeen (now : ℤ) : Txn Db Unit :=
  .stmt fun s => some ((), { s with
    seen := fun k =>
      if (s.seen k).held.isNone && (s.seen k).committed.any fun expiresAt => expiresAt < now then .settled none
      else s.seen k
    log := s.log ++ [.forgot now] })

def NewRequest.row (n : NewRequest) : Request := ⟨n.requestId, n.browserSha256, n.now, n.expiresAt, none⟩

/-- `INSERT INTO console_saml_requests`; not if the relay digest is there. -/
def insertRequest (n : NewRequest) : Txn Db Bool :=
  .stmt fun s =>
    match s.requests n.relaySha256 with
    | some _ => some (false, s)
    | none => some (true, { s with
        requests := update s.requests n.relaySha256 (some n.row)
        relays := n.relaySha256 :: s.relays
        log := s.log ++ [.started n.relaySha256 n.requestId n.browserSha256 n.expiresAt] })

inductive Start where
  | started
  | refused
  | failed
deriving DecidableEq

def startRequest (n : NewRequest) : Txn Db (End Start) := do
  forgetRequests n.now
  forgetSeen n.now
  if maxPending ≤ (← .query fun s => (s.relays.filter fun k => (s.requests k).isSome).dedup.length) then
    pure (.commit .refused)
  else if ← insertRequest n then pure (.commit .started)
  else pure (.rollback .failed)

def Request.takeable (r : Request) (browserSha256 : ℕ) (now : ℤ) : Bool :=
  r.browserSha256 = browserSha256 && r.consumedAt.isNone && now < r.expiresAt

def takeRequest (relaySha256 browserSha256 : ℕ) (now : ℤ) : Txn Db (Option String) :=
  .stmt fun s =>
    match s.requests relaySha256 with
    | none => some (none, s)
    | some r =>
      if r.takeable browserSha256 now then
        some (some r.requestId, { s with
          requests := update s.requests relaySha256 (some { r with consumedAt := some now })
          log := s.log ++ [.taken relaySha256 r.requestId browserSha256 now] })
      else some (none, s)

/-! ### Signing in -/

/-- Who signs in, as the assertion says. -/
structure Person where
  (issuer subject displayName : String)
  email : Option String
  assertionId : String
  assertionExpiresAt : ℤ
  groups : List String
  now : ℤ
deriving DecidableEq

def Person.who (p : Person) : Subject := ⟨p.issuer, p.subject⟩

def Person.assertion (p : Person) : Assertion := ⟨p.issuer, p.assertionId⟩

/-- `remember_until`, in microseconds. -/
def rememberUntil (notOnOrAfter : ℤ) : ℤ := notOnOrAfter + 60 * 60 * 1000000

inductive SignIn where
  | allowed (userId authGeneration : ℕ) (created : Bool)
  | replay
  | noRole
  | disabled
  | failed
deriving DecidableEq

/-- `INSERT INTO console_saml_seen … ON CONFLICT DO NOTHING`; whether it is new. -/
def insertSeen (a : Assertion) (expiresAt : ℤ) : Txn Db Bool :=
  .stmt fun s =>
    match (s.seen a).view t with
    | some _ => some (false, s)
    | none => (s.seen.put t a (some expiresAt)).map fun seen => (true, { s with seen := seen })

/-- The roles that the groups name. -/
def Db.wanted (s : Db) (lower : String → String) (groups : List String) : List String :=
  (s.roles.filter fun r => lower r.displayName ∈ groups).map Role.roleId

/-- `SELECT … FROM console_sso_users JOIN console_users … FOR UPDATE OF u`. -/
def existingUser (who : Subject) : Txn Db (Option (ℕ × User)) :=
  .stmt fun s =>
    match (s.links who).view t with
    | none => some (none, s)
    | some u => (s.users.lock t u).map fun r => (r.1.map fun user => (u, user), { s with users := r.2 })

/-- `INSERT INTO console_users`. -/
def insertUser (p : Person) : Txn Db ℕ :=
  .stmt fun s =>
    (s.users.put t s.nextId (some ⟨true, 0, p.displayName, p.email, p.now, none⟩)).map fun users =>
      (s.nextId, { s with users := users, userIds := s.nextId :: s.userIds, nextId := s.nextId + 1 })

/-- `INSERT INTO console_sso_users`; not if the subject is there. -/
def insertLink (u : ℕ) (who : Subject) : Txn Db Bool :=
  .stmt fun s =>
    match (s.links who).view t with
    | some _ => some (false, s)
    | none => (s.links.put t who (some u)).map fun links =>
      (true, { s with links := links, subjects := who :: s.subjects })

/-- The bindings of the identity provider that a person has, with their ids. -/
def Db.ssoBindings (s : Db) (t u : ℕ) : List (ℕ × String) :=
  (s.bindingsOf t u).filterMap fun k =>
    ((s.bindings k).view t).bind fun b => if b.source = .sso then some (b.bindingId, k.roleId) else none

/-- Roles of the identity provider follow its groups; those by hand are left alone. -/
def syncRoles (u : ℕ) (wanted : List String) : Txn Db Bool := do
  let current ← .query fun s => s.ssoBindings t u
  current.foldlM (fun _ c => if c.2 ∈ wanted then pure () else revokeBinding t ⟨.user u, c.2⟩ c.1) ()
  wanted.foldlM (fun ok roleId => do
    if !ok then pure false
    else if ← .query fun s => ((s.bindings ⟨.user u, roleId⟩).view t).isSome then pure true
    else insertBinding t ⟨.user u, roleId⟩ .sso) true

def countRoles (u : ℕ) : Txn Db ℕ :=
  .stmt fun s =>
    some ((s.bindingsOf t u).length, if s.bindingsOf t u = [] then s else s.count t (some (.roles u)))

def finishSignIn (u authGeneration : ℕ) (created : Bool) (wanted : List String) : Txn Db (End SignIn) := do
  if !(← syncRoles t u wanted) then pure (.rollback .failed)
  else if (← countRoles t u) = 0 then pure (.commit .noRole)
  else pure (.commit (.allowed u authGeneration created))

def signIn (lower : String → String) (t : ℕ) (p : Person) : Txn Db (End SignIn) := do
  if !(← insertSeen t p.assertion p.assertionExpiresAt) then pure (.rollback .replay)
  else
    let wanted ← .query fun s => s.wanted lower p.groups
    match ← existingUser t p.who with
    | some (u, user) =>
      if !user.enabled then pure (.rollback .disabled)
      else
        let _ ← updateUser t u (fun _ => true) fun row => { row with displayName := p.displayName, email := p.email }
        finishSignIn t u user.authGeneration false wanted
    | none =>
      -- nobody is created without a role
      if wanted.isEmpty then pure (.rollback .noRole)
      else
        let u ← insertUser t p
        if ← insertLink t u p.who then finishSignIn t u 0 true wanted else pure (.rollback .failed)

/-! ### The daily cleanup -/

def User.idle (user : User) (cutoff : ℤ) : Bool := user.lastSignInAt.getD user.createdAt < cutoff

/-- A page of people of the identity provider who are idle. -/
def Db.idlePage (s : Db) (t : ℕ) (cutoff : ℤ) (after : Option ℕ) : List ℕ :=
  (((s.subjects.filterMap fun who => (s.links who).view t).filter fun u =>
    ((s.users u).view t).any (fun user => user.idle cutoff) && after.all fun a => a < u).dedup.insertionSort
      (· ≤ ·)).take 500

/-- `SELECT 1 … FOR UPDATE`: the person is still idle. -/
def lockIdle (u : ℕ) (cutoff : ℤ) : Txn Db Bool :=
  .stmt fun s =>
    if ((s.users u).view t).any fun user => user.idle cutoff then
      (s.users.lock t u).map fun r => (true, { s with users := r.2 })
    else some (false, s)

def deleteLink (u : ℕ) (who : Subject) : Txn Db Unit :=
  .stmt fun s =>
    if (s.links who).view t = some u then (s.links.put t who none).map fun links => ((), { s with links := links })
    else some ((), s)

def clearBindings (u : ℕ) : Txn Db Unit := do
  let keys ← .query fun s => s.bindingsOf t u
  keys.foldlM (fun _ k => clearBinding t k) ()

/-- `DELETE FROM console_users`, with what goes with it. -/
def deleteUser (u : ℕ) : Txn Db Unit := do
  .stmt fun s => (s.users.put t u none).map fun users => ((), { s with users := users })
  let subjects ← .query fun s => s.subjects.filter fun who => (s.links who).view t = some u
  subjects.foldlM (fun _ who => deleteLink t u who) ()
  clearBindings t u

def commitNow : Txn Db Unit := .stmt fun s => some ((), s.commit t)

def abortNow : Txn Db Unit := .stmt fun s => some ((), s.abort t)

/-- An idle person is deleted, or, if something points at them, loses every role. -/
def cleanUser (u : ℕ) (cutoff : ℤ) : Txn Db Unit := do
  if ← lockIdle t u cutoff then
    if ← .query fun s => s.referenced u then
      abortNow t
      clearBindings t u
      commitNow t
    else
      deleteUser t u
      commitNow t
  else abortNow t

def cleanPages (t : ℕ) (cutoff : ℤ) : ℕ → Option ℕ → Txn Db Unit
  | 0, _ => pure ()
  | pages + 1, after => do
    let idle ← .query fun s => s.idlePage t cutoff after
    match idle.getLast? with
    | none => pure ()
    | some last =>
      idle.foldlM (fun _ u => cleanUser t u cutoff) ()
      cleanPages t cutoff pages (some last)

def clean (pages : ℕ) (inactiveDays now : ℤ) : Txn Db Unit := do
  forgetRequests now
  forgetSeen now
  cleanPages t (now - inactiveDays * (24 * 60 * 60 * 1000000)) pages none

/-! ### The system -/

inductive Call where
  | giveRole (p : Principal) (roleId : String)
  | removeRole (p : Principal) (roleId : String)
  | disableLocalUser (u : ℕ)
  | enableUser (u : ℕ)
  | startRequest (n : NewRequest)
  | takeRequest (relaySha256 browserSha256 : ℕ) (now : ℤ)
  | signIn (p : Person)
  | clean (pages : ℕ) (inactiveDays now : ℤ)
deriving DecidableEq

inductive Answer where
  | gift (g : RoleGift)
  | revocation (r : BindingRevocation)
  | disable (d : DisableOutcome)
  | updated (b : Bool)
  | start (r : Start)
  | taken (requestId : Option String)
  | signIn (p : Person) (r : SignIn)
  | cleaned
deriving DecidableEq

def Call.prog (lower : String → String) (t : ℕ) : Call → Txn Db (End Answer)
  | .giveRole p roleId => do return (← ConsoleSso.giveRole t p roleId).map .gift
  | .removeRole p roleId => do return (← ConsoleSso.removeRole t p roleId).map .revocation
  | .disableLocalUser u => do return (← ConsoleSso.disableLocalUser t u).map .disable
  | .enableUser u => do return (← ConsoleSso.enableUser t u).map .updated
  | .startRequest n => do return (← ConsoleSso.startRequest n).map .start
  | .takeRequest relaySha256 browserSha256 now => do
    return .commit (.taken (← ConsoleSso.takeRequest relaySha256 browserSha256 now))
  | .signIn p => do return (← ConsoleSso.signIn lower t p).map (.signIn p)
  | .clean pages inactiveDays now => do
    ConsoleSso.clean t pages inactiveDays now
    return .commit .cleaned

inductive Outside where
  | roles (rows : List Role)
  /-- A case or an alarm points at a person, or no longer does. -/
  | referenced (u : ℕ) (b : Bool)
  | signedIn (u : ℕ) (now : ℤ)

def Outside.apply (s : Db) : Outside → Option Db
  | .roles rows => some { s with roles := rows }
  | .referenced u b => some { s with referenced := update s.referenced u b }
  | .signedIn u now =>
    if (s.users u).held.isNone then
      some { s with
        users := update s.users u
          (.settled ((s.users u).committed.map fun user => { user with lastSignInAt := some now })) }
    else none

def Db.record (s : Db) : Answer → Db
  | .signIn p (.allowed u _ _) => { s with log := s.log ++ [.allowed p.assertion u] }
  | _ => s

def system (lower : String → String) : System ℕ Call Outside Db (End Answer) where
  prog := Call.prog lower
  close t
    | .commit a, s => (s.commit t).record a
    | .rollback _, s => s.abort t
  abort t s := s.abort t
  effect op s := op.apply s

end OpenVibes.Store.ConsoleSso
