import OpenVibes.Theory.Commits

/-!
# Passwords and sessions of the console

`crates/platform-store/src/console_auth.rs` and `reset_password` of `console_people.rs`, with the sign-in of
`crates/openvibes-console/src/access/login.rs`. A session counts only while its account has the generation it was made
under.

Every function is a transaction (`Theory.Txn`), at READ COMMITTED; a sign-in is several. An `UPDATE` that joins another
table and waits for its row does not look at the joined one again: it is two steps, and `joined` is what it read in the
first. `FOR SHARE` locks are kept in `sharing`. A hash is its password, a salt and whether its work factor is an old
one. The throttle's answer and the guard of the last Administrator are inputs.
-/

namespace OpenVibes.Store.ConsoleAuth

open Theory Function

/-! ### Rows -/

/-- `verify_password`, `needs_rehash` and `hash_password` of `platform-password`, whatever they compute. -/
class Hashing where
  Phc : Type
  eq : DecidableEq Phc
  verifies : Phc → String → Bool
  outdated : Phc → Bool
  hashPassword : String → ℕ → Phc
  /-- A new hash is verified by its own password only. -/
  verifies_hash : ∀ p salt q, verifies (hashPassword p salt) q = true ↔ p = q

export Hashing (Phc verifies outdated hashPassword verifies_hash)

attribute [reducible, instance] Hashing.eq

variable [Hashing]

structure User where
  enabled : Bool
  authGeneration : ℕ
  passwordMustChange : Bool
  lastSignInAt : Option ℤ

structure Credential where
  passwordPhc : Phc
  changedAt : ℤ
  mustChange : Bool

structure Session where
  (csrfSha256 userId authGeneration : ℕ)
  (createdAt lastSeenAt idleExpiresAt absoluteExpiresAt : ℤ)
  revokedAt : Option ℤ

def Session.unexpired (row : Session) (now : ℤ) : Bool :=
  row.revokedAt.isNone && now < row.idleExpiresAt && now < row.absoluteExpiresAt

/-- The condition under which a session counts, for its user's row. -/
def Session.live (row : Session) (user : User) (now : ℤ) : Bool :=
  row.unexpired now && user.enabled && row.authGeneration = user.authGeneration

/-- What an `UPDATE` has read of the table that it joins. -/
inductive Joined where
  | session (hash : ℕ) (user : User)
  | credential (userId : ℕ) (user : User)

/-- What a sign-in has read and verified. -/
structure Verified where
  userId : ℕ
  phc : Phc
  authGeneration : ℕ

structure Db where
  users : Cells ℕ ℕ (Option User)
  sharing : ℕ → List ℕ
  credentials : Cells ℕ ℕ (Option Credential)
  sessions : Cells ℕ ℕ (Option Session)
  hashes : List ℕ
  joined : ℕ → Option Joined
  verified : ℕ → Option Verified

def Db.settle (s : Db) (t : ℕ) (users : Cells ℕ ℕ (Option User)) (credentials : Cells ℕ ℕ (Option Credential))
    (sessions : Cells ℕ ℕ (Option Session)) : Db :=
  { s with
    users := users
    sharing := fun u => (s.sharing u).filter fun holder => holder ≠ t
    credentials := credentials
    sessions := sessions
    joined := update s.joined t none }

def Db.commit (s : Db) (t : ℕ) : Db := s.settle t (s.users.commit t) (s.credentials.commit t) (s.sessions.commit t)

/-- `ROLLBACK`. -/
def Db.abort (s : Db) (t : ℕ) : Db := s.settle t (s.users.abort t) (s.credentials.abort t) (s.sessions.abort t)

def Db.leave (s : Db) (t : ℕ) : Db := { s with verified := update s.verified t none }

/-- `session`: only a live, unrevoked session whose account generation is current. -/
def Db.session (s : Db) (hash : ℕ) (now : ℤ) : Option (User × Session) :=
  match (s.sessions hash).committed with
  | none => none
  | some row =>
    match (s.users row.userId).committed with
    | none => none
    | some user => if row.live user now then some (user, row) else none

/-! ### Statements -/

variable (t : ℕ)

/-- `UPDATE console_users … WHERE user_id = u` and a condition; whether a row was updated. -/
def updateUser (u : ℕ) (cond : User → Bool) (f : User → User) : Txn Db Bool :=
  .stmt fun s =>
    match (s.users u).view t with
    | none => some (false, s)
    | some row =>
      if !cond row then some (false, s)
      else if (s.sharing u).all fun holder => holder = t then
        (s.users.put t u (some (f row))).map fun users => (true, { s with users := users })
      else none

/-- `UPDATE console_credentials … WHERE user_id = u`; whether a row was updated. -/
def updateCredential (u : ℕ) (f : Credential → Credential) : Txn Db Bool :=
  .stmt fun s =>
    match (s.credentials u).view t with
    | none => some (false, s)
    | some row => (s.credentials.put t u (some (f row))).map fun credentials =>
      (true, { s with credentials := credentials })

/-- `UPDATE console_sessions …`, of one row that meets a condition; whether it was updated. -/
def updateSession (hash : ℕ) (cond : Session → Bool) (f : Session → Session) : Txn Db Bool :=
  .stmt fun s =>
    match (s.sessions hash).view t with
    | none => some (false, s)
    | some row =>
      if !cond row then some (false, s)
      else (s.sessions.put t hash (some (f row))).map fun sessions => (true, { s with sessions := sessions })

/-- `UPDATE console_sessions …`, of all rows of its snapshot that meet a condition. -/
def updateSessions (cond : ℕ → Session → Bool) (f : Session → Session) : Txn Db Unit := do
  let hashes ← .query fun s => s.hashes.filter fun hash => ((s.sessions hash).view t).any (cond hash)
  hashes.foldlM (fun _ hash => do let _ ← updateSession t hash (cond hash) f) ()

/-- `revoked_at = COALESCE(revoked_at, now)`. -/
def Session.revoke (now : ℤ) (row : Session) : Session := { row with revokedAt := some (row.revokedAt.getD now) }

def revokeSessions (u : ℕ) (now : ℤ) : Txn Db Unit := updateSessions t (fun _ row => row.userId = u)
    (Session.revoke now)

def User.next (user : User) : User := { user with authGeneration := user.authGeneration + 1 }

/-! ### Sessions -/

structure NewSession where
  sessionSha256 : ℕ
  previousSessionSha256 : Option ℕ
  (csrfSha256 userId authGeneration : ℕ)
  (now idleExpiresAt absoluteExpiresAt : ℤ)

inductive Creation where
  | created
  | refused
  | failed
deriving DecidableEq

def NewSession.admits (n : NewSession) (user : User) : Bool := user.enabled && user.authGeneration = n.authGeneration

def NewSession.row (n : NewSession) (user : User) : Session where
  csrfSha256 := n.csrfSha256
  userId := n.userId
  authGeneration := user.authGeneration
  createdAt := n.now
  lastSeenAt := n.now
  idleExpiresAt := n.idleExpiresAt
  absoluteExpiresAt := n.absoluteExpiresAt
  revokedAt := none

/-- `SELECT … FOR SHARE`. -/
def shareUser (n : NewSession) : Txn Db Unit :=
  .stmt fun s =>
    match (s.users n.userId).view t with
    | none => some ((), s)
    | some user =>
      if !n.admits user then some ((), s)
      else if (s.users n.userId).free t then
        some ((), { s with sharing := update s.sharing n.userId (t :: s.sharing n.userId) })
      else none

/-- `INSERT INTO console_sessions … SELECT … FROM console_users`. -/
def insertSession (n : NewSession) : Txn Db Creation :=
  .stmt fun s =>
    match (s.users n.userId).view t with
    | none => some (.refused, s)
    | some user =>
      if !n.admits user then some (.refused, s)
      else if n.absoluteExpiresAt < n.idleExpiresAt || n.absoluteExpiresAt ≤ n.now then some (.failed, s)
      else
        match (s.sessions n.sessionSha256).view t with
        | some _ => some (.failed, s)
        | none => (s.sessions.put t n.sessionSha256 (some (n.row user))).map fun sessions =>
            (.created, { s with sessions := sessions, hashes := n.sessionSha256 :: s.hashes })

/-- Makes a session, if the generation is still the one that was read. -/
def createSession (n : NewSession) : Txn Db (End Creation) := do
  shareUser t n
  match ← insertSession t n with
  | .failed => pure (.rollback .failed)
  | .refused => pure (.commit .refused)
  | .created =>
    let _ ← updateUser t n.userId (fun _ => true) fun user => { user with lastSignInAt := some n.now }
    match n.previousSessionSha256 with
    | none => pure (.commit .created)
    | some previous =>
      let _ ← updateSession t previous (fun row => row.revokedAt.isNone) (Session.revoke n.now)
      pure (.commit .created)

/-- The first step of the `UPDATE` of `touch_session`: the session and its user. -/
def joinSession (hash : ℕ) (now : ℤ) : Txn Db Bool :=
  .stmt fun s =>
    match (s.sessions hash).view t with
    | none => some (false, s)
    | some row =>
      match (s.users row.userId).view t with
      | none => some (false, s)
      | some user =>
        if row.live user now then
          some (true, { s with joined := update s.joined t (some (.session hash user)) })
        else some (false, s)

def Session.touch (now lifetime : ℤ) (row : Session) : Session :=
  { row with lastSeenAt := now, idleExpiresAt := min row.absoluteExpiresAt (now + lifetime) }

/-- Its second step: the session as it is now, for the user that was read. -/
def touchRow (hash : ℕ) (now lifetime : ℤ) : Txn Db Bool :=
  .stmt fun s =>
    match s.joined t, (s.sessions hash).view t with
    | some (.session _ user), some row =>
      if row.live user now then
        (s.sessions.put t hash (some (row.touch now lifetime))).map fun sessions =>
          (true, { s with sessions := sessions })
      else some (false, s)
    | _, _ => some (false, s)

def touchSession (hash : ℕ) (now lifetime : ℤ) : Txn Db (End Bool) := do
  if ← joinSession t hash now then
    let touched ← touchRow t hash now lifetime
    pure (.commit touched)
  else pure (.commit false)

def revokeSession (hash : ℕ) (now : ℤ) : Txn Db (End Bool) := do
  if ← updateSession t hash (fun row => row.revokedAt.isNone) (Session.revoke now) then pure (.commit true)
  else pure (.rollback false)

def revokeUserSessions (u : ℕ) (now : ℤ) : Txn Db (End Bool) := do
  if ← updateUser t u (fun _ => true) User.next then
    revokeSessions t u now
    pure (.commit true)
  else pure (.rollback false)

/-! ### Passwords -/

def replacePassword (u : ℕ) (phc : Phc) (mustChange : Bool) (now : ℤ) : Txn Db (End Bool) := do
  if ← updateCredential t u fun row => { row with passwordPhc := phc, changedAt := now, mustChange := mustChange } then
    let _ ← updateUser t u (fun _ => true) fun user => { user.next with passwordMustChange := mustChange }
    revokeSessions t u now
    pure (.commit true)
  else pure (.rollback false)

def resetPassword (u : ℕ) (phc : Phc) (now : ℤ) : Txn Db (End Bool) := do
  if ← updateCredential t u fun row => { row with passwordPhc := phc, changedAt := now } then
    let _ ← updateUser t u (fun _ => true) fun user => { user.next with passwordMustChange := true }
    revokeSessions t u now
    pure (.commit true)
  else pure (.rollback false)

inductive PasswordChange where
  | changed
  | changedElsewhere
  /-- The account is disabled or the session is no longer valid. -/
  | sessionGone
deriving DecidableEq

/-- Keeps the generation, and ends every session but this one. -/
def changeOwnPassword (u hash : ℕ) (verified phc : Phc) (now : ℤ) : Txn Db (End PasswordChange) := do
  -- `SELECT … JOIN console_users … FOR UPDATE OF c`, first what its snapshot shows of the user
  if !(← .query fun s => ((s.users u).view t).any User.enabled) then pure (.rollback .sessionGone)
  else
    match ← .stmt fun s => (s.credentials.lock t u).map fun r => (r.1, { s with credentials := r.2 }) with
    | none => pure (.rollback .sessionGone)
    | some stored =>
      if stored.passwordPhc ≠ verified then pure (.rollback .changedElsewhere)
      else if !(← .query fun s => ((s.sessions hash).view t).any fun row => row.userId = u && row.unexpired now) then
        pure (.rollback .sessionGone)
      else
        let _ ← updateCredential t u fun row => { row with passwordPhc := phc, changedAt := now }
        let _ ← updateUser t u (fun _ => true) fun user => { user with passwordMustChange := false }
        updateSessions t (fun h row => row.userId = u && h ≠ hash && row.revokedAt.isNone) (Session.revoke now)
        pure (.commit .changed)

/-! ### Accounts -/

inductive DisableOutcome where
  | disabled
  | notFound
  | lastAdministrator
deriving DecidableEq

/-- `disable_local_user`, with what its guard says. -/
def disableLocalUser (u : ℕ) (lastAdministrator : Bool) (now : ℤ) : Txn Db (End DisableOutcome) := do
  if lastAdministrator then pure (.rollback .lastAdministrator)
  else if ← updateUser t u User.enabled fun user => { user.next with enabled := false } then
    revokeSessions t u now
    pure (.commit .disabled)
  else pure (.rollback .notFound)

def enableLocalUser (u : ℕ) : Txn Db (End Bool) := do
  if ← updateUser t u (fun user => !user.enabled) fun user => { user with enabled := true } then pure (.commit true)
  else pure (.rollback false)

/-! ### Signing in -/

inductive Login where
  | authenticated
  | rejected
  | unavailable
deriving DecidableEq

structure LoginRequest where
  userId : ℕ
  password : String
  salt : ℕ
  throttled : Bool
  sessionSha256 : ℕ
  previousSessionSha256 : Option ℕ
  csrfSha256 : ℕ
  now : ℤ

/-- `credential_by_username` and the verification of the password. -/
def verifyCredential (u : ℕ) (password : String) : Txn Db (Option Verified) :=
  .stmt fun s =>
    match (s.users u).view t, (s.credentials u).view t with
    | some user, some credential =>
      if user.enabled && verifies credential.passwordPhc password then
        let verified : Verified := ⟨u, credential.passwordPhc, user.authGeneration⟩
        some (some verified, { s with verified := update s.verified t (some verified) })
      else some (none, s)
    | _, _ => some (none, s)

/-- The first step of the `UPDATE` of `rehash_password`: the credential and its user. -/
def joinCredential (u generation : ℕ) : Txn Db Bool :=
  .stmt fun s =>
    match (s.users u).view t, (s.credentials u).view t with
    | some user, some _ =>
      if user.enabled && user.authGeneration = generation then
        some (true, { s with joined := update s.joined t (some (.credential u user)) })
      else some (false, s)
    | _, _ => some (false, s)

def rehashPassword (v : Verified) (phc : Phc) (now : ℤ) : Txn Db Bool := do
  if ← joinCredential t v.userId v.authGeneration then
    if ← updateCredential t v.userId fun row => { row with passwordPhc := phc, changedAt := now } then
      .stmt fun s => some ((), s.commit t)
      pure true
    else pure false
  else pure false

/-- The session of a sign-in: 30 minutes idle, 8 hours in all. -/
def LoginRequest.session (r : LoginRequest) (v : Verified) : NewSession where
  sessionSha256 := r.sessionSha256
  previousSessionSha256 := r.previousSessionSha256
  csrfSha256 := r.csrfSha256
  userId := v.userId
  authGeneration := v.authGeneration
  now := r.now
  idleExpiresAt := r.now + 30 * 60
  absoluteExpiresAt := r.now + 8 * 60 * 60

def Creation.login : Creation → Login
  | .created => .authenticated
  | .refused => .rejected
  | .failed => .unavailable

/-- Verifies, rehashes if needed, and makes a session. -/
def login (r : LoginRequest) : Txn Db (End Login) := do
  if r.throttled then pure (.rollback .rejected)
  else
    match ← verifyCredential t r.userId r.password with
    | none => pure (.rollback .rejected)
    | some v =>
      if outdated v.phc then
        if ← rehashPassword t v (hashPassword r.password r.salt) r.now then
          let made ← createSession t (r.session v)
          pure (made.map Creation.login)
        else pure (.rollback .unavailable)
      else
        let made ← createSession t (r.session v)
        pure (made.map Creation.login)

/-! ### The system -/

inductive Call where
  | createSession (n : NewSession)
  | touchSession (hash : ℕ) (now lifetime : ℤ)
  | revokeSession (hash : ℕ) (now : ℤ)
  | revokeUserSessions (u : ℕ) (now : ℤ)
  | replacePassword (u : ℕ) (phc : Phc) (mustChange : Bool) (now : ℤ)
  | resetPassword (u : ℕ) (phc : Phc) (now : ℤ)
  | changeOwnPassword (u hash : ℕ) (verified phc : Phc) (now : ℤ)
  | disableLocalUser (u : ℕ) (lastAdministrator : Bool) (now : ℤ)
  | enableLocalUser (u : ℕ)
  | login (r : LoginRequest)

inductive Answer where
  | creation (c : Creation)
  | updated (b : Bool)
  | change (c : PasswordChange)
  | disable (d : DisableOutcome)
  | login (l : Login)

def Call.prog : Call → Txn Db (End Answer)
  | .createSession n => do return (← ConsoleAuth.createSession t n).map .creation
  | .touchSession hash now lifetime => do return (← ConsoleAuth.touchSession t hash now lifetime).map .updated
  | .revokeSession hash now => do return (← ConsoleAuth.revokeSession t hash now).map .updated
  | .revokeUserSessions u now => do return (← ConsoleAuth.revokeUserSessions t u now).map .updated
  | .replacePassword u phc mustChange now => do
    return (← ConsoleAuth.replacePassword t u phc mustChange now).map .updated
  | .resetPassword u phc now => do return (← ConsoleAuth.resetPassword t u phc now).map .updated
  | .changeOwnPassword u hash verified phc now => do
    return (← ConsoleAuth.changeOwnPassword t u hash verified phc now).map .change
  | .disableLocalUser u lastAdministrator now => do
    return (← ConsoleAuth.disableLocalUser t u lastAdministrator now).map .disable
  | .enableLocalUser u => do return (← ConsoleAuth.enableLocalUser t u).map .updated
  | .login r => do return (← ConsoleAuth.login t r).map .login

def system : System ℕ Call Empty Db (End Answer) where
  prog := Call.prog
  close t
    | .commit _, s => (s.commit t).leave t
    | .rollback _, s => (s.abort t).leave t
  abort t s := (s.abort t).leave t
  effect op _ := op.elim

end OpenVibes.Store.ConsoleAuth
