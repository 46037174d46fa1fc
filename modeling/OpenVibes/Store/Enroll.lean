import OpenVibes.Store.Schema
import OpenVibes.Theory.Steps

/-!
# Enrollment

`enroll` and `authenticate` of `crates/platform-store/src/ingest.rs`. `enroll` is one transaction under an advisory lock
of its token. Tokens and agents are revoked by single statements that take no such lock.

A call of `enroll` is a session that stands somewhere in its code (`Phase`); what it inserted is visible when it
commits. Statements come in any order in which they are possible (`step`), and every session can fail at any time.
Sessions remember their answers.
-/

namespace OpenVibes.Store.Enroll

open Theory Rust List Option Function Table

/-! ### Data -/

/-- `agents.status`. -/
inductive Status where
  | active
  | revoked
  | imported
deriving DecidableEq

structure Token where
  tokenId : String
  expiresAt : Time
  maxUses : ℕ
  revokedAt : Option Time
  standing : Bool

structure AgentRow where
  agentId : String
  status : Status
  enrolledAt : Time
  revokedAt : Option Time

/-- `IssuedCert`: a certificate issued for an agent. -/
structure IssuedCert where
  serial : Bytes
  spkiSha256 : Sha256
  (notBefore notAfter : Time)
  chainPem : List String

structure CertificateRow where
  cert : IssuedCert
  agentId : String
  issuedAt : Time

def CertificateRow.serial (c : CertificateRow) : Bytes := c.cert.serial

structure TokenUse where
  tokenId : String
  spkiSha256 : Sha256
  agentId : String
  serial : Bytes
  usedAt : Time

def TokenUse.key (u : TokenUse) : String × Sha256 := (u.tokenId, u.spkiSha256)

structure Db where
  tokens : Table Token Token.tokenId
  agents : Table AgentRow AgentRow.agentId
  certificates : Table CertificateRow CertificateRow.serial
  tokenUses : Table TokenUse TokenUse.key
  auditLog : List String

/-- `Identity`: an agent identity to hand back to the agent. -/
structure Identity where
  agentId : String
  chainPem : List String
  notAfter : Time

/-- `Enrolled`: outcome of `enroll`. -/
inductive Enrolled where
  | new (identity : Identity)
  | existing (identity : Identity)
  | exhausted
  | tokenInvalid
  | agentRevoked

def Enrolled.identity? : Enrolled → Option Identity
  | .new identity => some identity
  | .existing identity => some identity
  | .exhausted => none
  | .tokenInvalid => none
  | .agentRevoked => none

structure Request where
  tokenId : String
  spkiSha256 : Sha256
  now : Time

def Request.key (r : Request) : String × Sha256 := (r.tokenId, r.spkiSha256)

structure TokenRead where
  (uses maxUses : ℕ)
  (valid standing : Bool)

inductive Phase where
  | idle
  | waiting (r : Request)
  | locked (r : Request)
  | lookedUp (r : Request)
  | accepted (r : Request) (row : TokenRead)
  /-- The agent, its certificate and the token use are inserted. -/
  | inserted (r : Request) (row : TokenRead) (agentId : String) (cert : IssuedCert)
  | answering (r : Request) (outcome : Enrolled)
  | done (r : Request) (outcome : Option Enrolled)

/-! ### `enroll` -/

/-- `SELECT (SELECT count(*) FROM token_uses WHERE token_id = t.token_id)`. -/
def usesOf (db : Db) (tokenId : String) : ℕ := (db.tokenUses.rows.filter fun u => u.tokenId = tokenId).length

/-- The `SELECT` for an earlier use with the same key, and what follows from it. -/
def lookup (db : Db) (r : Request) : Phase :=
  match db.tokenUses.get? r.key with
  | none => .lookedUp r
  | some u =>
    match db.certificates.get? u.serial, db.agents.get? u.agentId with
    | some c, some g =>
      if g.status = .revoked then .answering r .agentRevoked
      else .answering r (.existing ⟨u.agentId, c.cert.chainPem, c.cert.notAfter⟩)
    | _, _ => .lookedUp r

def tokenRead (db : Db) (now : Time) (t : Token) : TokenRead :=
  ⟨usesOf db t.tokenId, t.maxUses, t.revokedAt = none ∧ (t.standing ∨ now < t.expiresAt), t.standing⟩

/-- The `SELECT` of the token, and what follows from it; an error without the token. -/
def readToken (db : Db) (r : Request) : Option Phase :=
  (db.tokens.get? r.tokenId).map fun t =>
    let row := tokenRead db r.now t
    if !row.valid then .answering r .tokenInvalid
    else if !row.standing && row.maxUses ≤ row.uses then .answering r .exhausted
    else .accepted r row

/-- The rows that `enroll` inserted, committed; `none` on a conflict or a missing token. -/
def insertEnrolled (db : Db) (r : Request) (agentId : String) (cert : IssuedCert) : Option Db :=
  if db.agents.get? agentId ≠ none ∨ db.certificates.get? cert.serial ≠ none ∨ db.tokenUses.get? r.key ≠ none ∨
      db.tokens.get? r.tokenId = none then none
  else some { db with
    agents := db.agents.insertNew ⟨agentId, .active, r.now, none⟩
    certificates := db.certificates.insertNew ⟨cert, agentId, r.now⟩
    tokenUses := db.tokenUses.insertNew ⟨r.tokenId, r.spkiSha256, agentId, cert.serial, r.now⟩
    auditLog := db.auditLog ++ [agentId] }

/-! ### The statements of the others -/

theorem tokenId_revoke (now : Time) (t : Token) : { t with revokedAt := some now }.tokenId = t.tokenId := rfl

/-- `tokens::revoke`, and the console's. -/
def revokeToken (db : Db) (tokenId : String) (now : Time) : Db :=
  { db with
    tokens := db.tokens.updateWhere (fun t => t.tokenId = tokenId ∧ t.revokedAt = none)
      (fun t => { t with revokedAt := some now }) (tokenId_revoke now) }

theorem agentId_revoke (now : Time) (g : AgentRow) :
    { g with status := .revoked, revokedAt := some now }.agentId = g.agentId := rfl

/-- `agents::revoke`. -/
def revokeAgent (db : Db) (agentId : String) (now : Time) : Db :=
  { db with
    agents := db.agents.updateWhere (fun g => g.agentId = agentId ∧ g.status = .active)
      (fun g => { g with status := .revoked, revokedAt := some now }) (agentId_revoke now) }

/-- `tokens::create` and `create_standing`; the token's id is a new one. -/
def createToken (db : Db) (t : Token) : Option Db :=
  if db.tokens.get? t.tokenId ≠ none then none else some { db with tokens := db.tokens.insertNew t }

/-- `add_certificate`: a renewed certificate for an existing agent. -/
def addCertificate (db : Db) (agentId : String) (cert : IssuedCert) (now : Time) : Option Db :=
  if db.agents.get? agentId = none ∨ db.certificates.get? cert.serial ≠ none then none
  else some { db with certificates := db.certificates.insertNew ⟨cert, agentId, now⟩ }

inductive Authenticated where
  | active (agentId : String)
  | revoked
  /-- Not a recorded certificate (serial unknown or key different). -/
  | unknown

/-- `authenticate`: the serial and its key hash must match; then the agent's status decides. -/
def authenticate (db : Db) (serial : Bytes) (spkiSha256 : Sha256) : Authenticated :=
  match db.certificates.get? serial with
  | none => .unknown
  | some c =>
    match db.agents.get? c.agentId with
    | none => .unknown
    | some g =>
      if c.cert.spkiSha256 ≠ spkiSha256 then .unknown
      else if g.status = .active then .active g.agentId
      else .revoked

/-! ### Sessions side by side -/

/-- The database, the advisory locks with the sessions that have them, and the sessions. -/
structure State where
  db : Db
  locks : List (String × ℕ)
  sessions : ℕ → Phase

def State.set (s : State) (i : ℕ) (p : Phase) : State := { s with sessions := update s.sessions i p }

def State.finish (s : State) (i : ℕ) (r : Request) (outcome : Option Enrolled) : State :=
  { s.set i (.done r outcome) with locks := s.locks.filter fun l => l.2 ≠ i }

inductive Act where
  | call (i : ℕ) (r : Request)
  | lock (i : ℕ)
  | lookup (i : ℕ)
  | readToken (i : ℕ)
  /-- An id is chosen, a certificate issued, and the rows are inserted. -/
  | insert (i : ℕ) (agentId : String) (cert : IssuedCert)
  | commit (i : ℕ)
  | fail (i : ℕ)
  | createToken (t : Token)
  | revokeToken (tokenId : String) (now : Time)
  | revokeAgent (agentId : String) (now : Time)
  | addCertificate (agentId : String) (cert : IssuedCert) (now : Time)

def Phase.running? : Phase → Option Request
  | .idle => none
  | .waiting r => some r
  | .locked r => some r
  | .lookedUp r => some r
  | .accepted r _ => some r
  | .inserted r _ _ _ => some r
  | .answering r _ => some r
  | .done _ _ => none

/-- One statement of a session, or of another party; `none` when it is not possible. -/
def step (s : State) : Act → Option State
  | .call i r =>
    match s.sessions i with
    | .idle => some (s.set i (.waiting r))
    | _ => none
  | .lock i =>
    match s.sessions i with
    | .waiting r =>
      if s.locks.any fun l => l.1 = r.tokenId then none
      else some { s.set i (.locked r) with locks := (r.tokenId, i) :: s.locks }
    | _ => none
  | .lookup i =>
    match s.sessions i with
    | .locked r => some (s.set i (Enroll.lookup s.db r))
    | _ => none
  | .readToken i =>
    match s.sessions i with
    | .lookedUp r => (Enroll.readToken s.db r).map (s.set i)
    | _ => none
  | .insert i agentId cert =>
    match s.sessions i with
    | .accepted r row => some (s.set i (.inserted r row agentId cert))
    | _ => none
  | .commit i =>
    match s.sessions i with
    | .inserted r _ agentId cert =>
      (insertEnrolled s.db r agentId cert).map fun db =>
        { s.finish i r (some (.new ⟨agentId, cert.chainPem, cert.notAfter⟩)) with db := db }
    | .answering r outcome => some (s.finish i r (some outcome))
    | _ => none
  | .fail i => (s.sessions i).running?.map fun r => s.finish i r none
  | .createToken t => (Enroll.createToken s.db t).map fun db => { s with db := db }
  | .revokeToken tokenId now => some { s with db := Enroll.revokeToken s.db tokenId now }
  | .revokeAgent agentId now => some { s with db := Enroll.revokeAgent s.db agentId now }
  | .addCertificate agentId cert now =>
    (Enroll.addCertificate s.db agentId cert now).map fun db => { s with db := db }

/-! ### What a step does to the database -/

def StoredIdentity (db : Db) (r : Request) (identity : Identity) : Prop :=
  ∃ u c, db.tokenUses.get? r.key = some u ∧ db.certificates.get? u.serial = some c ∧
    identity = ⟨u.agentId, c.cert.chainPem, c.cert.notAfter⟩

variable {db : Db} {r : Request}

variable {x : Identity}

theorem StoredIdentity.unique {r' : Request} {y : Identity} (hx : StoredIdentity db r x) (hy : StoredIdentity db r' y)
    (hkey : r.key = r'.key) : x = y := by
  obtain ⟨u, c, hu, hc, rfl⟩ := hx
  obtain ⟨u', c', hu', hc', rfl⟩ := hy
  rw [← hkey, hu] at hu'
  cases hu'
  rw [hc] at hc'
  cases hc'
  rfl

/-- What stays: token uses, certificates, limits of tokens, and that an agent is revoked. -/
structure Extends (db db' : Db) : Prop where
  tokenUses : ∀ k u, db.tokenUses.get? k = some u → db'.tokenUses.get? k = some u
  certificates : ∀ k c, db.certificates.get? k = some c → db'.certificates.get? k = some c
  tokens : ∀ k t, db.tokens.get? k = some t →
    ∃ t', db'.tokens.get? k = some t' ∧ t'.maxUses = t.maxUses ∧ t'.standing = t.standing
  revoked : ∀ a g, db.agents.get? a = some g → g.status = .revoked → db'.agents.get? a = some g

theorem Extends.refl (db : Db) : Extends db db :=
  ⟨fun _ _ h => h, fun _ _ h => h, fun _ t h => ⟨t, h, rfl, rfl⟩, fun _ _ h _ => h⟩

variable {db' : Db}

theorem StoredIdentity.mono (h : StoredIdentity db r x) (hext : Extends db db') : StoredIdentity db' r x := by
  obtain ⟨u, c, hu, hc, hx⟩ := h
  exact ⟨u, c, hext.tokenUses _ _ hu, hext.certificates _ _ hc, hx⟩

theorem extends_revokeToken (db : Db) (tokenId : String) (now : Time) : Extends db (revokeToken db tokenId now) := by
  refine ⟨fun _ _ h => h, fun _ _ h => h, fun k t ht => ?_, fun _ _ h _ => h⟩
  rw [revokeToken, get?_updateWhere, ht, map_some]
  split_ifs
  · exact ⟨_, rfl, rfl, rfl⟩
  · exact ⟨_, rfl, rfl, rfl⟩

theorem extends_revokeAgent (db : Db) (agentId : String) (now : Time) : Extends db (revokeAgent db agentId now) := by
  refine ⟨fun _ _ h => h, fun _ _ h => h, fun k t ht => ⟨t, ht, rfl, rfl⟩, fun a g hg hrvk => ?_⟩
  rw [revokeAgent, get?_updateWhere, hg, map_some, if_neg]
  simp [hrvk]

variable {t : Token}

theorem createToken_eq_some_iff :
    createToken db t = some db' ↔
      db.tokens.get? t.tokenId = none ∧ db' = { db with tokens := db.tokens.insertNew t } := by
  rw [createToken]
  split_ifs with h
  · simp [h]
  · rw [not_not.mp h, some.injEq, eq_comm]
    simp

theorem extends_createToken (h : createToken db t = some db') : Extends db db' := by
  obtain ⟨-, rfl⟩ := createToken_eq_some_iff.mp h
  exact ⟨fun _ _ h => h, fun _ _ h => h, fun k t' ht' => ⟨t', get?_insertNew_of_some ht', rfl, rfl⟩, fun _ _ h _ => h⟩

variable {agentId : String} {cert : IssuedCert} {now : Time}

theorem addCertificate_eq_some_iff :
    addCertificate db agentId cert now = some db' ↔
      (db.agents.get? agentId ≠ none ∧ db.certificates.get? cert.serial = none) ∧
      db' = { db with certificates := db.certificates.insertNew ⟨cert, agentId, now⟩ } := by
  rw [addCertificate]
  split_ifs with h
  · constructor
    · intro h'
      cases h'
    · rintro ⟨h', -⟩
      tauto
  · rw [some.injEq, eq_comm, and_iff_right]
    tauto

theorem extends_addCertificate (h : addCertificate db agentId cert now = some db') : Extends db db' := by
  obtain ⟨-, rfl⟩ := addCertificate_eq_some_iff.mp h
  exact ⟨fun _ _ h => h, fun _ _ h => get?_insertNew_of_some h, fun k t ht => ⟨t, ht, rfl, rfl⟩, fun _ _ h _ => h⟩

theorem insertEnrolled_eq_some_iff :
    insertEnrolled db r agentId cert = some db' ↔
      (db.agents.get? agentId = none ∧ db.certificates.get? cert.serial = none ∧ db.tokenUses.get? r.key = none ∧
        db.tokens.get? r.tokenId ≠ none) ∧
      db' = { db with
        agents := db.agents.insertNew ⟨agentId, .active, r.now, none⟩
        certificates := db.certificates.insertNew ⟨cert, agentId, r.now⟩
        tokenUses := db.tokenUses.insertNew ⟨r.tokenId, r.spkiSha256, agentId, cert.serial, r.now⟩
        auditLog := db.auditLog ++ [agentId] } := by
  rw [insertEnrolled]
  split_ifs with h
  · constructor
    · intro h'
      cases h'
    · rintro ⟨h', -⟩
      tauto
  · rw [some.injEq, eq_comm, and_iff_right]
    tauto

section

variable (h : insertEnrolled db r agentId cert = some db')

include h

theorem extends_insertEnrolled : Extends db db' := by
  obtain ⟨-, rfl⟩ := insertEnrolled_eq_some_iff.mp h
  exact ⟨fun _ _ h => get?_insertNew_of_some h, fun _ _ h => get?_insertNew_of_some h,
    fun k t ht => ⟨t, ht, rfl, rfl⟩, fun _ _ h _ => get?_insertNew_of_some h⟩

theorem storedIdentity_insertEnrolled : StoredIdentity db' r ⟨agentId, cert.chainPem, cert.notAfter⟩ := by
  obtain ⟨⟨-, hcr, huse, -⟩, rfl⟩ := insertEnrolled_eq_some_iff.mp h
  refine ⟨⟨r.tokenId, r.spkiSha256, agentId, cert.serial, r.now⟩, ⟨cert, agentId, r.now⟩, ?_, ?_, rfl⟩
  · rw [get?_insertNew, huse]
    exact if_pos rfl
  · rw [get?_insertNew, hcr]
    exact if_pos rfl

theorem usesOf_insertEnrolled (tokenId : String) :
    usesOf db' tokenId = usesOf db tokenId + if r.tokenId = tokenId then 1 else 0 := by
  obtain ⟨⟨-, -, huse, -⟩, rfl⟩ := insertEnrolled_eq_some_iff.mp h
  have hrw := rows_insertNew_of_fresh (r := (⟨r.tokenId, r.spkiSha256, agentId, cert.serial, r.now⟩ : TokenUse))
    huse
  rw [usesOf, usesOf, hrw, filter_append, length_append]
  by_cases ht : r.tokenId = tokenId
  · rw [if_pos ht, filter_cons_of_pos (by simpa using ht)]
    rfl
  · rw [if_neg ht, filter_cons_of_neg (by simpa using ht)]
    rfl

end

structure Outside (db db' : Db) : Prop extends Extends db db' where
  uses : db'.tokenUses = db.tokenUses
  limits : ∀ t ∈ db'.tokens.rows, db.tokens.get? t.tokenId = none ∨
    ∃ t₀ ∈ db.tokens.rows, t₀.tokenId = t.tokenId ∧ t₀.maxUses = t.maxUses ∧ t₀.standing = t.standing
  agents : ∀ a, db.agents.get? a = none → db'.agents.get? a = none

theorem outside_revokeToken (db : Db) (tokenId : String) (now : Time) : Outside db (revokeToken db tokenId now) := by
  refine ⟨extends_revokeToken db tokenId now, rfl, fun t ht => .inr ?_, fun _ h => h⟩
  obtain ⟨t₀, ht₀, rfl⟩ := mem_map.mp ht
  refine ⟨t₀, ht₀, ?_⟩
  split_ifs
  · exact ⟨rfl, rfl, rfl⟩
  · exact ⟨rfl, rfl, rfl⟩

theorem outside_revokeAgent (db : Db) (agentId : String) (now : Time) : Outside db (revokeAgent db agentId now) := by
  refine ⟨extends_revokeAgent db agentId now, rfl, fun t ht => .inr ⟨t, ht, rfl, rfl, rfl⟩, fun a ha => ?_⟩
  rw [revokeAgent, get?_updateWhere, ha]
  rfl

theorem outside_createToken (h : createToken db t = some db') : Outside db db' := by
  have hext := extends_createToken h
  obtain ⟨hfrs, rfl⟩ := createToken_eq_some_iff.mp h
  refine ⟨hext, rfl, fun t' ht' => ?_, fun _ h => h⟩
  replace ht' : t' ∈ (db.tokens.insertNew t).rows := ht'
  rw [rows_insertNew_of_fresh hfrs] at ht'
  rcases mem_append.mp ht' with ht' | ht'
  · exact .inr ⟨t', ht', rfl, rfl, rfl⟩
  · rw [mem_singleton.mp ht']
    exact .inl hfrs

theorem outside_addCertificate (h : addCertificate db agentId cert now = some db') : Outside db db' := by
  have hext := extends_addCertificate h
  obtain ⟨-, rfl⟩ := addCertificate_eq_some_iff.mp h
  exact ⟨hext, rfl, fun t ht => .inr ⟨t, ht, rfl, rfl, rfl⟩, fun _ h => h⟩

/-! ### What a step can do -/

inductive Moves (s : State) : Act → State → Prop where
  | call {i : ℕ} {r : Request} (h : s.sessions i = .idle) : Moves s (.call i r) (s.set i (.waiting r))
  | lock {i : ℕ} {r : Request} (h : s.sessions i = .waiting r) (hfr : ∀ l ∈ s.locks, l.1 ≠ r.tokenId) :
    Moves s (.lock i) { s.set i (.locked r) with locks := (r.tokenId, i) :: s.locks }
  | lookup {i : ℕ} {r : Request} (h : s.sessions i = .locked r) :
    Moves s (.lookup i) (s.set i (Enroll.lookup s.db r))
  | readToken {i : ℕ} {r : Request} {p : Phase} (h : s.sessions i = .lookedUp r)
    (hp : Enroll.readToken s.db r = some p) : Moves s (.readToken i) (s.set i p)
  | insert {i : ℕ} {r : Request} {row : TokenRead} {agentId : String} {cert : IssuedCert}
    (h : s.sessions i = .accepted r row) : Moves s (.insert i agentId cert) (s.set i (.inserted r row agentId cert))
  | commitNew {i : ℕ} {r : Request} {row : TokenRead} {agentId : String} {cert : IssuedCert} {db : Db}
    (h : s.sessions i = .inserted r row agentId cert) (hdb : insertEnrolled s.db r agentId cert = some db) :
    Moves s (.commit i) { s.finish i r (some (.new ⟨agentId, cert.chainPem, cert.notAfter⟩)) with db := db }
  | commitAnswer {i : ℕ} {r : Request} {outcome : Enrolled} (h : s.sessions i = .answering r outcome) :
    Moves s (.commit i) (s.finish i r (some outcome))
  | fail {i : ℕ} {r : Request} (h : (s.sessions i).running? = some r) : Moves s (.fail i) (s.finish i r none)
  | outside {a : Act} {db : Db} (h : Outside s.db db) : Moves s a { s with db := db }

variable {s s' : State} {a : Act} {row : TokenRead}

theorem moves_of_step (h : step s a = some s') : Moves s a s' := by
  cases a with
  | call i r =>
    simp only [step] at h
    split at h
    · cases h
      exact .call ‹_›
    · cases h
  | lock i =>
    simp only [step] at h
    split at h
    · split_ifs at h with hfr
      cases h
      exact .lock ‹_› fun l hl heq => hfr (any_eq_true.mpr ⟨l, hl, decide_eq_true heq⟩)
    · cases h
  | lookup i =>
    simp only [step] at h
    split at h
    · cases h
      exact .lookup ‹_›
    · cases h
  | readToken i =>
    simp only [step] at h
    split at h
    · obtain ⟨p, hp, rfl⟩ := map_eq_some_iff.mp h
      exact .readToken ‹_› hp
    · cases h
  | insert i agentId cert =>
    simp only [step] at h
    split at h
    · cases h
      exact .insert ‹_›
    · cases h
  | commit i =>
    simp only [step] at h
    split at h
    · obtain ⟨db, hdb, rfl⟩ := map_eq_some_iff.mp h
      exact .commitNew ‹_› hdb
    · cases h
      exact .commitAnswer ‹_›
    · cases h
  | fail i =>
    obtain ⟨r, hr, rfl⟩ := map_eq_some_iff.mp h
    exact .fail hr
  | createToken t =>
    obtain ⟨db, hdb, rfl⟩ := map_eq_some_iff.mp h
    exact .outside (outside_createToken hdb)
  | revokeToken tokenId now =>
    cases h
    exact .outside (outside_revokeToken s.db tokenId now)
  | revokeAgent agentId now =>
    cases h
    exact .outside (outside_revokeAgent s.db agentId now)
  | addCertificate agentId cert now =>
    obtain ⟨db, hdb, rfl⟩ := map_eq_some_iff.mp h
    exact .outside (outside_addCertificate hdb)

theorem Moves.extends (h : Moves s a s') : Extends s.db s'.db := by
  cases h with
  | commitNew h hdb => exact extends_insertEnrolled hdb
  | outside h => exact h.toExtends
  | _ => exact .refl _

/-! ### The invariant -/

structure RowHolds (db : Db) (r : Request) (row : TokenRead) : Prop where
  valid : row.valid = true
  left : row.standing = true ∨ row.uses < row.maxUses
  uses : usesOf db r.tokenId = row.uses
  limits : ∃ t, db.tokens.get? r.tokenId = some t ∧ t.maxUses = row.maxUses ∧ t.standing = row.standing

/-- An identity that is answered is the one stored for the token and key. -/
def OutcomeHolds (db : Db) (r : Request) (outcome : Enrolled) : Prop :=
  ∀ identity, outcome.identity? = some identity → StoredIdentity db r identity

/-- What holds where a session stands: which lock it has, and what it knows. -/
def PhaseHolds (db : Db) (locks : List (String × ℕ)) (i : ℕ) : Phase → Prop
  | .idle => True
  | .waiting _ => True
  | .locked r => (r.tokenId, i) ∈ locks
  | .lookedUp r => (r.tokenId, i) ∈ locks
  | .accepted r row => (r.tokenId, i) ∈ locks ∧ RowHolds db r row
  | .inserted r row _ _ => (r.tokenId, i) ∈ locks ∧ RowHolds db r row
  | .answering r outcome => (r.tokenId, i) ∈ locks ∧ OutcomeHolds db r outcome ∧ ∀ x, outcome ≠ .new x
  | .done r outcome => ∀ o, outcome = some o → OutcomeHolds db r o

structure Invariant (s : State) : Prop where
  exclusive : ∀ t i j, (t, i) ∈ s.locks → (t, j) ∈ s.locks → i = j
  phases : ∀ i, PhaseHolds s.db s.locks i (s.sessions i)
  limits : ∀ t ∈ s.db.tokens.rows, t.standing = true ∨ usesOf s.db t.tokenId ≤ t.maxUses
  foreignKey : ∀ u ∈ s.db.tokenUses.rows, s.db.tokens.get? u.tokenId ≠ none
  once : ∀ i j r r' x y, s.sessions i = .done r (some (.new x)) → s.sessions j = .done r' (some (.new y)) →
    r.key = r'.key → i = j

theorem Invariant.phase {i : ℕ} {p : Phase} (h : Invariant s) (hi : s.sessions i = p) : PhaseHolds s.db s.locks i p :=
  hi ▸ h.phases i

theorem RowHolds.mono (h : RowHolds db r row) (hext : Extends db db')
    (hus : usesOf db' r.tokenId = usesOf db r.tokenId) : RowHolds db' r row := by
  obtain ⟨t, ht, hmax, hsta⟩ := h.limits
  obtain ⟨t', ht', hmax', hsta'⟩ := hext.tokens _ _ ht
  exact ⟨h.valid, h.left, hus.trans h.uses, t', ht', hmax'.trans hmax, hsta'.trans hsta⟩

theorem OutcomeHolds.mono {out : Enrolled} (h : OutcomeHolds db r out) (hext : Extends db db') :
    OutcomeHolds db' r out :=
  fun identity hidn => (h identity hidn).mono hext

variable {i : ℕ} {p : Phase}

variable {locks : List (String × ℕ)}

/-- What a session knows stays so under its lock. -/
theorem PhaseHolds.mono {locks' : List (String × ℕ)} (h : PhaseHolds db locks i p) (hext : Extends db db')
    (hus : ∀ t, (t, i) ∈ locks → usesOf db' t = usesOf db t) (hloc : ∀ t, (t, i) ∈ locks → (t, i) ∈ locks') :
    PhaseHolds db' locks' i p := by
  cases p with
  | idle | waiting => trivial
  | locked | lookedUp => exact hloc _ h
  | accepted | inserted => exact ⟨hloc _ h.1, h.2.mono hext (hus _ h.1)⟩
  | answering r out => exact ⟨hloc _ h.1, h.2.1.mono hext, h.2.2⟩
  | done r out => exact fun o ho => (h o ho).mono hext

theorem phaseHolds_lookup (hlk : (r.tokenId, i) ∈ locks) : PhaseHolds db locks i (lookup db r) := by
  rw [lookup]
  cases hu : db.tokenUses.get? r.key with
  | none => exact hlk
  | some u =>
    dsimp only
    split
    · rename_i c g hc hg
      split_ifs
      · exact ⟨hlk, fun identity h => (some_ne_none _ h.symm).elim, nofun⟩
      · exact ⟨hlk, fun identity h => ⟨u, c, hu, hc, (some.inj h).symm⟩, nofun⟩
    · exact hlk

theorem phaseHolds_readToken (hlk : (r.tokenId, i) ∈ locks) (hp : readToken db r = some p) :
    PhaseHolds db locks i p := by
  obtain ⟨t, ht, rfl⟩ := map_eq_some_iff.mp hp
  have hid : t.tokenId = r.tokenId := key_of_get? ht
  dsimp only
  split_ifs with hval hlf
  · exact ⟨hlk, fun identity h => (some_ne_none _ h.symm).elim, nofun⟩
  · exact ⟨hlk, fun identity h => (some_ne_none _ h.symm).elim, nofun⟩
  refine ⟨hlk, by simpa using hval, ?_, by rw [tokenRead, hid], t, ht, rfl, rfl⟩
  rw [Bool.and_eq_true, decide_eq_true_eq, Bool.not_eq_true', not_and] at hlf
  by_cases hsta : (tokenRead db r.now t).standing = true
  · exact .inl hsta
  · exact .inr (Nat.lt_of_not_le (hlf (Bool.eq_false_iff.mpr hsta)))

theorem Invariant.move (h : Invariant s) (hse : s'.sessions = update s.sessions i p)
    (hdb : s'.db = s.db) (hexc : ∀ t j k, (t, j) ∈ s'.locks → (t, k) ∈ s'.locks → j = k)
    (hloc : ∀ t j, j ≠ i → (t, j) ∈ s.locks → (t, j) ∈ s'.locks) (hp : PhaseHolds s.db s'.locks i p)
    (hnew : ∀ r x, p ≠ .done r (some (.new x))) : Invariant s' := by
  refine ⟨hexc, fun j => ?_, by rw [hdb]; exact h.limits, by rw [hdb]; exact h.foreignKey, ?_⟩
  · rw [hdb, hse]
    by_cases hj : j = i
    · subst hj
      rwa [update_self]
    · rw [update_of_ne hj]
      exact (h.phases j).mono (.refl _) (fun _ _ => rfl) fun t => hloc t j hj
  intro j k r r' x y hj hk
  have hne : ∀ {l : ℕ} {r : Request} {x : Identity}, s'.sessions l = .done r (some (.new x)) →
      s.sessions l = .done r (some (.new x)) := by
    intro l r x hl
    rw [hse] at hl
    rcases update_cases hl with ⟨-, hl⟩ | ⟨-, hl⟩
    · exact absurd hl (hnew r x)
    · exact hl
  exact h.once j k r r' x y (hne hj) (hne hk)

theorem lookup_ne_done (db : Db) (r : Request) (r' : Request) (o : Option Enrolled) : lookup db r ≠ .done r' o := by
  rw [lookup]
  split
  · exact Phase.noConfusion
  split
  · split_ifs <;> exact Phase.noConfusion
  · exact Phase.noConfusion

theorem readToken_ne_done (h : readToken db r = some p) (r' : Request) (o : Option Enrolled) : p ≠ .done r' o := by
  obtain ⟨t, -, rfl⟩ := map_eq_some_iff.mp h
  dsimp only
  split_ifs <;> exact Phase.noConfusion

section

variable (h : Invariant s)

include h

theorem Invariant.finish {out : Option Enrolled}
    (hp : ∀ o, out = some o → OutcomeHolds s.db r o) (hnew : ∀ x, out ≠ some (.new x)) :
    Invariant (s.finish i r out) := by
  refine h.move (p := .done r out) rfl rfl (fun t j k hj hk => ?_) (fun t j hj hl => ?_) hp ?_
  · exact h.exclusive t j k (mem_of_mem_filter hj) (mem_of_mem_filter hk)
  · exact mem_filter.mpr ⟨hl, by simpa using hj⟩
  · intro r' x heq
    exact hnew x (Phase.done.inj heq).2

theorem Invariant.usesOf_eq {j : ℕ} (hj : j ≠ i) (hlk : (r.tokenId, i) ∈ s.locks)
    (hdb : insertEnrolled s.db r agentId cert = some db) {t : String} (ht : (t, j) ∈ s.locks) :
    usesOf db t = usesOf s.db t := by
  have hne : r.tokenId ≠ t := by
    rintro rfl
    exact hj (h.exclusive _ _ _ ht hlk)
  rw [usesOf_insertEnrolled hdb, if_neg hne, Nat.add_zero]

theorem Invariant.commitNew (hi : s.sessions i = .inserted r row agentId cert)
    (hdb : insertEnrolled s.db r agentId cert = some db) :
    Invariant { s.finish i r (some (.new ⟨agentId, cert.chainPem, cert.notAfter⟩)) with db := db } := by
  obtain ⟨hlk, hrow⟩ := h.phase hi
  have hext := extends_insertEnrolled hdb
  have hsto := storedIdentity_insertEnrolled hdb
  obtain ⟨⟨-, -, huse, htok⟩, heq⟩ := insertEnrolled_eq_some_iff.mp hdb
  refine ⟨fun t j k hj hk => ?_, fun j => ?_, fun t ht => ?_, fun u hu => ?_, ?_⟩
  · exact h.exclusive t j k (mem_of_mem_filter hj) (mem_of_mem_filter hk)
  · show PhaseHolds db _ j (update s.sessions i _ j)
    by_cases hj : j = i
    · subst hj
      rw [update_self]
      intro o ho identity hidn
      cases ho
      cases hidn
      exact hsto
    · rw [update_of_ne hj]
      refine (h.phases j).mono hext (fun t ht => h.usesOf_eq hj hlk hdb ht) fun t ht => ?_
      exact mem_filter.mpr ⟨ht, by simpa using hj⟩
  · replace ht : t ∈ s.db.tokens.rows := by rw [heq] at ht; exact ht
    show t.standing = true ∨ usesOf db t.tokenId ≤ t.maxUses
    rw [usesOf_insertEnrolled hdb]
    by_cases hid : r.tokenId = t.tokenId
    · -- the token that is used: its number of uses is the one that was read, under the lock
      obtain ⟨t', ht', hmax, hsta⟩ := hrow.limits
      rw [get?_eq_some_iff.mpr ⟨ht, hid.symm⟩] at ht'
      cases ht'
      rcases hrow.left with hlf | hlf
      · exact .inl (hsta.trans hlf)
      · right
        rw [if_pos hid, ← hid, hrow.uses, hmax]
        exact hlf
    · rw [if_neg hid, Nat.add_zero]
      exact h.limits t ht
  · replace hu : u ∈ (db.tokenUses).rows := hu
    show db.tokens.get? u.tokenId ≠ none
    rw [heq] at hu ⊢
    rw [rows_insertNew_of_fresh (r := (⟨r.tokenId, r.spkiSha256, agentId, cert.serial, r.now⟩ : TokenUse)) huse] at hu
    rcases mem_append.mp hu with hu | hu
    · exact h.foreignKey u hu
    · rw [mem_singleton.mp hu]
      exact htok
  · have hfrs : ∀ {j : ℕ} {r' : Request} {x : Identity}, s.sessions j = .done r' (some (.new x)) →
        r'.key ≠ r.key := by
      intro j r' x hj hkey
      obtain ⟨u, c, hu, -⟩ := h.phase hj _ rfl x rfl
      rw [hkey, huse] at hu
      cases hu
    intro j k r₁ r₂ x y hj hk hkey
    rcases update_cases hj with ⟨rfl, hnew⟩ | ⟨-, hold⟩
    · rcases update_cases hk with ⟨rfl, -⟩ | ⟨-, hk⟩
      · rfl
      · obtain rfl := (Phase.done.inj hnew).1
        exact absurd hkey.symm (hfrs hk)
    · rcases update_cases hk with ⟨rfl, hnew⟩ | ⟨-, hk⟩
      · obtain rfl := (Phase.done.inj hnew).1
        exact absurd hkey (hfrs hold)
      · exact h.once j k r₁ r₂ x y hold hk hkey

theorem Invariant.outside (hdb : Outside s.db db) : Invariant { s with db := db } := by
  have hus : ∀ t, usesOf db t = usesOf s.db t := fun t => by rw [usesOf, usesOf, hdb.uses]
  refine ⟨h.exclusive, fun i => ?_, fun t ht => ?_, fun u hu => ?_, h.once⟩
  · exact (h.phases i).mono hdb.toExtends (fun t _ => hus t) fun _ ht => ht
  · show t.standing = true ∨ usesOf db t.tokenId ≤ t.maxUses
    rw [hus]
    rcases hdb.limits t ht with hnew | ⟨t₀, ht₀, hid, hmax, hsta⟩
    · -- a new token has no uses, since uses are of tokens that exist
      right
      have hnn : (s.db.tokenUses.rows.filter fun u => u.tokenId = t.tokenId) = [] := by
        refine filter_eq_nil_iff.mpr fun u hu heq => h.foreignKey u hu ?_
        rw [of_decide_eq_true heq, hnew]
      rw [usesOf, hnn]
      exact Nat.zero_le _
    · rw [← hid, ← hmax, ← hsta]
      exact h.limits t₀ ht₀
  · replace hu : u ∈ db.tokenUses.rows := hu
    rw [hdb.uses] at hu
    show db.tokens.get? u.tokenId ≠ none
    cases ht : s.db.tokens.get? u.tokenId with
    | none => exact absurd ht (h.foreignKey u hu)
    | some t =>
      obtain ⟨t', ht', -⟩ := hdb.tokens _ _ ht
      rw [ht']
      exact some_ne_none _

theorem Invariant.step (hm : Moves s a s') : Invariant s' := by
  cases hm with
  | call hi => exact h.move rfl rfl h.exclusive (fun _ _ _ hl => hl) trivial fun _ _ => Phase.noConfusion
  | @lock i r hi hfr =>
    refine h.move (p := .locked r) rfl rfl (fun t j k hj hk => ?_) (fun _ _ _ hl => mem_cons_of_mem _ hl)
      mem_cons_self fun _ _ => Phase.noConfusion
    rcases mem_cons.mp hj with hnew | hold
    · obtain ⟨ht, hji⟩ := Prod.mk.inj hnew
      rcases mem_cons.mp hk with hnew' | hold'
      · exact hji.trans (Prod.mk.inj hnew').2.symm
      · exact absurd ht (hfr _ hold')
    · rcases mem_cons.mp hk with hnew' | hold'
      · exact absurd (Prod.mk.inj hnew').1 (hfr _ hold)
      · exact h.exclusive t j k hold hold'
  | lookup hi =>
    exact h.move rfl rfl h.exclusive (fun _ _ _ hl => hl) (phaseHolds_lookup (h.phase hi))
      fun r' x => lookup_ne_done _ _ r' _
  | readToken hi hp =>
    exact h.move rfl rfl h.exclusive (fun _ _ _ hl => hl) (phaseHolds_readToken (h.phase hi) hp)
      fun r' x => readToken_ne_done hp r' _
  | @insert i r row agentId cert hi =>
    exact h.move (p := .inserted r row agentId cert) rfl rfl h.exclusive (fun _ _ _ hl => hl) (h.phase hi :)
      fun _ _ => Phase.noConfusion
  | commitNew hi hdb => exact h.commitNew hi hdb
  | commitAnswer hi =>
    obtain ⟨-, hhld, hold⟩ := h.phase hi
    exact h.finish (fun o ho => some.inj ho ▸ hhld) fun x hx => hold x (some.inj hx)
  | fail hi => exact h.finish (nofun) nofun
  | outside hdb => exact h.outside hdb

end

/-! ### Revoked agents and invalid tokens -/

def Revoked (db : Db) (agentId : String) : Prop := ∃ g, db.agents.get? agentId = some g ∧ g.status = .revoked

/-- The identity that a session has answered or is about to. -/
def Phase.identity? : Phase → Option Identity
  | .answering _ outcome => outcome.identity?
  | .done _ outcome => outcome.bind Enrolled.identity?
  | _ => none

theorem agentId_ne_of_lookup (hrvk : Revoked db agentId) (hx : (lookup db r).identity? = some x) :
    x.agentId ≠ agentId := by
  rw [lookup] at hx
  split at hx
  · cases hx
  split at hx
  · rename_i u _ c g _ hg
    split_ifs at hx with hsts
    · cases hx
    cases hx
    rintro rfl
    obtain ⟨g', hg', hrvk⟩ := hrvk
    rw [hg] at hg'
    exact hsts (some.inj hg' ▸ hrvk)
  · cases hx

theorem identity?_readToken (h : readToken db r = some p) : p.identity? = none := by
  obtain ⟨t, -, rfl⟩ := map_eq_some_iff.mp h
  dsimp only
  split_ifs <;> rfl

/-- The identity of a revoked agent is not answered by a session that has not looked it up. -/
def Withholds (agentId : String) (i : ℕ) (s : State) : Prop :=
  Revoked s.db agentId ∧ ∀ x, (s.sessions i).identity? = some x → x.agentId ≠ agentId

theorem Withholds.step (h : Withholds agentId i s) (hm : Moves s a s') : Withholds agentId i s' := by
  obtain ⟨hrvk, hold⟩ := h
  have hrvk' : Revoked s'.db agentId := by
    obtain ⟨g, hg, hsts⟩ := hrvk
    exact ⟨g, hm.extends.revoked _ _ hg hsts, hsts⟩
  refine ⟨hrvk', ?_⟩
  -- only the session's own step can change what it answers
  have hset : ∀ {j : ℕ} {p : Phase}, (∀ x, p.identity? = some x → j = i → x.agentId ≠ agentId) →
      ∀ x, (update s.sessions j p i).identity? = some x → x.agentId ≠ agentId := by
    intro j p hp x hx
    rcases update_cases (rfl : update s.sessions j p i = _) with ⟨hj, hp'⟩ | ⟨-, hi⟩
    · exact hp x (hp' ▸ hx) hj.symm
    · exact hold x (hi ▸ hx)
  cases hm with
  | call | lock => exact hset nofun
  | lookup hi => exact hset fun x hx _ => agentId_ne_of_lookup hrvk hx
  | readToken hi hp => exact hset fun x hx _ => by rw [identity?_readToken hp] at hx; cases hx
  | insert hi => exact hset nofun
  | commitNew hi hdb =>
    refine hset fun x hx _ => ?_
    cases hx
    rintro rfl
    obtain ⟨⟨hfrs, -⟩, -⟩ := insertEnrolled_eq_some_iff.mp hdb
    obtain ⟨g, hg, -⟩ := hrvk
    exact some_ne_none _ (hg.symm.trans hfrs)
  | commitAnswer hi =>
    refine hset fun x hx hj => ?_
    subst hj
    exact hold x (by rw [hi]; exact hx)
  | fail hi => exact hset nofun
  | outside hdb => exact hold

def Token.Invalid (t : Token) (now : Time) : Prop := t.revokedAt ≠ none ∨ t.standing = false ∧ t.expiresAt ≤ now

def Phase.Refuses (r : Request) (p : Phase) : Prop :=
  p = .answering r .tokenInvalid ∨ p = .done r (some .tokenInvalid) ∨ p = .done r none

def Refused (i : ℕ) (r : Request) (s : State) : Prop :=
  s.sessions i = .answering r .tokenInvalid ∨ s.sessions i = .done r (some .tokenInvalid) ∨ s.sessions i = .done r none

theorem readToken_of_invalid (ht : db.tokens.get? r.tokenId = some t) (hinv : t.Invalid r.now) :
    readToken db r = some (.answering r .tokenInvalid) := by
  have hval : (tokenRead db r.now t).valid = false := by
    refine decide_eq_false fun h => ?_
    rcases hinv with hrvk | ⟨hsta, hexd⟩
    · exact hrvk h.1
    · rcases h.2 with h | h
      · exact Bool.false_ne_true (hsta.symm.trans h)
      · exact absurd hexd (not_le.mpr h)
  rw [readToken, ht, map_some]
  simp [hval]

theorem Refused.step (h : Refused i r s) (hm : Moves s a s') : Refused i r s' := by
  -- the session's own step starts where a refused session stands
  have hset : ∀ {j : ℕ} {p : Phase}, ((s.sessions j).Refuses r → p.Refuses r) →
      (update s.sessions j p i).Refuses r := by
    intro j p hp
    rcases update_cases (rfl : update s.sessions j p i = _) with ⟨rfl, hi⟩ | ⟨-, hi⟩
    · exact hi ▸ hp h
    · exact hi ▸ h
  cases hm with
  | call hi | lock hi | lookup hi | readToken hi | insert hi | commitNew hi =>
    exact hset fun h => by rw [hi] at h; rcases h with h | h | h <;> cases h
  | commitAnswer hi =>
    refine hset fun h => ?_
    rw [hi] at h
    rcases h with h | h | h
    · cases h
      exact .inr (.inl rfl)
    · cases h
    · cases h
  | fail hi =>
    refine hset fun h => .inr (.inr ?_)
    rcases h with h | h | h
    · rw [h] at hi
      rw [some.inj hi]
    · rw [h] at hi
      cases hi
    · rw [h] at hi
      cases hi
  | outside hdb => exact h

theorem exists_of_created (h : Invariant s) (hm : Moves s a s') (hbef : s.db.agents.get? agentId = none)
    (haft : s'.db.agents.get? agentId ≠ none) :
    ∃ i r row cert, a = .commit i ∧ s.sessions i = .inserted r row agentId cert ∧ row.valid = true := by
  cases hm with
  | @commitNew i r row agentId' cert db hi hdb =>
    obtain ⟨-, rfl⟩ := insertEnrolled_eq_some_iff.mp hdb
    replace haft : (s.db.agents.insertNew ⟨agentId', .active, r.now, none⟩).get? agentId ≠ none := haft
    rw [get?_insertNew, hbef] at haft
    split_ifs at haft with hid
    · refine ⟨i, r, row, cert, rfl, ?_, (h.phase hi).2.valid⟩
      rw [hi, ← (hid : agentId' = agentId)]
    · exact absurd rfl haft
  | outside hdb => exact absurd (hdb.agents _ hbef) haft
  | _ => exact absurd hbef haft

/-! ### Over every run -/

/-- Nothing is running, and the tables keep their constraints. -/
structure Start (s : State) : Prop where
  idle : ∀ i, s.sessions i = .idle
  locks : s.locks = []
  limits : ∀ t ∈ s.db.tokens.rows, t.standing = true ∨ usesOf s.db t.tokenId ≤ t.maxUses
  foreignKey : ∀ u ∈ s.db.tokenUses.rows, s.db.tokens.get? u.tokenId ≠ none

theorem Start.invariant (h : Start s) : Invariant s where
  exclusive t i j hi := by
    rw [h.locks] at hi
    exact absurd hi not_mem_nil
  phases i := by
    rw [h.idle i]
    trivial
  limits := h.limits
  foreignKey := h.foreignKey
  once i j r r' x y hi := by
    rw [h.idle i] at hi
    cases hi

variable {acts : List Act}

theorem invariant_run (h : Invariant s) (hrun : run step s acts = some s') : Invariant s' :=
  run_invariant (fun _ _ _ h hs => h.step (moves_of_step hs)) h hrun

theorem withholds_run (h : Withholds agentId i s) (hrun : run step s acts = some s') : Withholds agentId i s' :=
  run_invariant (fun _ _ _ h hs => h.step (moves_of_step hs)) h hrun

theorem refused_run (h : Refused i r s) (hrun : run step s acts = some s') : Refused i r s' :=
  run_invariant (fun _ _ _ h hs => h.step (moves_of_step hs)) h hrun

theorem refused_readToken (hi : s.sessions i = .lookedUp r) (ht : s.db.tokens.get? r.tokenId = some t)
    (hinv : t.Invalid r.now) (hs : step s (.readToken i) = some s') : Refused i r s' := by
  simp only [step, hi, readToken_of_invalid ht hinv] at hs
  cases hs
  exact .inl (update_self ..)

def Phase.BeforeLookup : Phase → Prop
  | .idle => True
  | .waiting _ => True
  | .locked _ => True
  | _ => False

theorem active_of_authenticate {serial : Bytes} {spkiSha256 : Sha256}
    (h : authenticate db serial spkiSha256 = .active agentId) : ¬Revoked db agentId := by
  rw [authenticate] at h
  split at h
  · cases h
  split at h
  · cases h
  rename_i c _ g hg
  split_ifs at h with hkey hsts
  obtain rfl := Authenticated.active.inj h
  rintro ⟨g', hg', hrvk⟩
  rw [key_of_get? hg, hg] at hg'
  rw [← some.inj hg', hsts] at hrvk
  cases hrvk

/-- **Enrollment never over-issues.** In every run: a token that is not the standing one has at most `max_uses` uses;
all identities answered for a token and key are the same, created by one call; a call that has yet to look for an
earlier use never answers a revoked identity, nor does `authenticate`; and an agent is created only by a call that read
its token as valid. -/
theorem enroll_never_over_issues (s₀ : State) (h₀ : Start s₀) (acts : List Act) (s : State)
    (hrun : run step s₀ acts = some s) :
    (∀ t ∈ s.db.tokens.rows, t.standing = false → usesOf s.db t.tokenId ≤ t.maxUses) ∧
    (∀ i j r r' o o' x y, s.sessions i = .done r (some o) → s.sessions j = .done r' (some o') →
      o.identity? = some x → o'.identity? = some y → r.key = r'.key → x = y) ∧
    (∀ i j r r' x y, s.sessions i = .done r (some (.new x)) → s.sessions j = .done r' (some (.new y)) →
      r.key = r'.key → i = j) ∧
    (∀ i agentId, (s.sessions i).BeforeLookup → Revoked s.db agentId → ∀ later s' r o x,
      run step s later = some s' → s'.sessions i = .done r (some o) → o.identity? = some x → x.agentId ≠ agentId) ∧
    (∀ serial spkiSha256 agentId, authenticate s.db serial spkiSha256 = .active agentId → ¬Revoked s.db agentId) ∧
    (∀ a s' agentId, step s a = some s' → s.db.agents.get? agentId = none → s'.db.agents.get? agentId ≠ none →
      ∃ i r row cert, a = .commit i ∧ s.sessions i = .inserted r row agentId cert ∧ row.valid = true) ∧
    (∀ i r t, s.sessions i = .lookedUp r → s.db.tokens.get? r.tokenId = some t → t.Invalid r.now → ∀ later s',
      run step s (.readToken i :: later) = some s' → Refused i r s') := by
  have h := invariant_run h₀.invariant hrun
  refine ⟨fun t ht hsta => ?_, ?_, h.once, ?_, fun _ _ _ => active_of_authenticate, ?_, ?_⟩
  · rcases h.limits t ht with hs | hle
    · exact absurd (hsta.symm.trans hs) Bool.false_ne_true
    · exact hle
  · intro i j r r' o o' x y hi hj hx hy hkey
    exact (h.phase hi o rfl x hx).unique (h.phase hj o' rfl y hy) hkey
  · intro i agentId hbef hrvk later s' r o x hrun' hdn hx
    have hnn : ∀ y, (s.sessions i).identity? = some y → y.agentId ≠ agentId := by
      intro y hy
      cases hp : s.sessions i <;> rw [hp] at hbef hy <;> first | exact hbef.elim | cases hy
    have := (withholds_run ⟨hrvk, hnn⟩ hrun').2 x
    rw [hdn] at this
    exact this hx
  · exact fun a s' agentId hs hbef haft => exists_of_created h (moves_of_step hs) hbef haft
  · intro i r t hi ht hinv later s' hrun'
    obtain ⟨s₁, hs₁, hrun'⟩ := run_cons.mp hrun'
    exact refused_run (refused_readToken hi ht hinv hs₁) hrun'

def emptyState : State := ⟨⟨.empty, .empty, .empty, .empty, []⟩, [], fun _ => .idle⟩

def sampleCert : IssuedCert := ⟨[1], [7], 0, 100, ["leaf", "ca"]⟩

def sampleRequest : Request := ⟨"t", [7], 1⟩

/-- A token for one use, an enrollment with it, and a retry up to its lookup. -/
def sampleActs : List Act :=
  [.createToken ⟨"t", 50, 1, none, false⟩, .call 0 sampleRequest, .call 1 sampleRequest, .lock 0, .lookup 0,
    .readToken 0, .insert 0 "agent.a" sampleCert, .commit 0, .lock 1, .lookup 1]

theorem enroll_never_over_issues_sample :
    ∃ s, run step emptyState (sampleActs ++ [.commit 1]) = some s ∧
      s.sessions 0 = .done sampleRequest (some (.new ⟨"agent.a", ["leaf", "ca"], 100⟩)) ∧
      s.sessions 1 = .done sampleRequest (some (.existing ⟨"agent.a", ["leaf", "ca"], 100⟩)) ∧
      ∀ t ∈ s.db.tokens.rows, t.standing = false → usesOf s.db t.tokenId ≤ t.maxUses := by
  have hstr : Start emptyState := ⟨fun _ => rfl, rfl, nofun, nofun⟩
  exact ⟨_, rfl, rfl, rfl, (enroll_never_over_issues emptyState hstr (sampleActs ++ [.commit 1]) _ rfl).1⟩

/-- **An agent revoked after the lookup** of its earlier enrollment, and before that transaction ends, is
revoked when its identity is returned. -/
theorem revoked_identity_returned :
    ∃ s s', run step emptyState (sampleActs ++ [.revokeAgent "agent.a" 5]) = some s ∧ Revoked s.db "agent.a" ∧
      step s (.commit 1) = some s' ∧ Revoked s'.db "agent.a" ∧
      s'.sessions 1 = .done sampleRequest (some (.existing ⟨"agent.a", ["leaf", "ca"], 100⟩)) :=
  ⟨_, _, rfl, ⟨_, rfl, rfl⟩, rfl, ⟨_, rfl, rfl⟩, rfl⟩

end OpenVibes.Store.Enroll
