import OpenVibes.Theory.ShareLocks

/-!
# Rule sets, their keys and what is published

`crates/platform-store/src/rules.rs`. Every function is a transaction (`Theory.Txn`), at READ COMMITTED. The rows of
`rule_sets` and `rule_trust_keys` are shared (`FOR SHARE`, `Theory.ShareLocks`). `pg_advisory_xact_lock` takes a cell
whose key is `hashtext` of the set: two sets can have the same. A `StoreError` is `none`.
-/

namespace OpenVibes.Store.Rules

open Theory

/-! ### Rows -/

abbrev PublicKey := Vector UInt8 32

structure RuleSet where
  retiredAt : Option ℤ

structure TrustKey where
  publicKey : PublicKey
  removedAt : Option ℤ

structure Bundle where
  envelope : List UInt8
  envelopeSha256 : Vector UInt8 32
  issuerKeyId : String
  (createdAtMs expiresAtMs : ℤ)
  publishedBy : String

structure NewBundle where
  ruleSetId : String
  version : ℤ
  envelope : List UInt8
  envelopeSha256 : Vector UInt8 32
  issuerKeyId : String
  (createdAtMs expiresAtMs : ℤ)
  publishedBy : String
deriving DecidableEq

def NewBundle.row (n : NewBundle) : Bundle where
  envelope := n.envelope
  envelopeSha256 := n.envelopeSha256
  issuerKeyId := n.issuerKeyId
  createdAtMs := n.createdAtMs
  expiresAtMs := n.expiresAtMs
  publishedBy := n.publishedBy

def NewBundle.checks (n : NewBundle) : Bool :=
  0 < n.version && 1 ≤ n.envelope.length && n.envelope.length ≤ 1048576

structure Db where
  locks : Cells ℕ ℤ Unit
  sets : Shared ℕ String RuleSet
  keys : Shared ℕ (String × String) TrustKey
  bundles : Cells ℕ (String × ℤ) (Option Bundle)
  bundleKeys : List (String × ℤ)

def Db.commit (s : Db) (t : ℕ) : Db :=
  { s with locks := s.locks.commit t, sets := s.sets.commit t, keys := s.keys.commit t, bundles := s.bundles.commit t }

/-- `ROLLBACK`. -/
def Db.abort (s : Db) (t : ℕ) : Db :=
  { s with locks := s.locks.abort t, sets := s.sets.abort t, keys := s.keys.abort t, bundles := s.bundles.abort t }

def Db.seen (s : Db) (t : ℕ) : String × ℤ → Option Bundle := fun k => (s.bundles k).view t

def Db.stored (s : Db) : String × ℤ → Option Bundle := fun k => (s.bundles k).committed

/-- The versions of a set among the bundles that are visible. -/
def Db.versions (s : Db) (visible : String × ℤ → Option Bundle) (set : String) : List ℤ :=
  (s.bundleKeys.filter fun k => k.1 = set && (visible k).isSome).map Prod.snd

/-- `SELECT max(version) FROM rule_bundles WHERE rule_set_id = …`. -/
def Db.current (s : Db) (visible : String × ℤ → Option Bundle) (set : String) : Option ℤ :=
  (s.versions visible set).max?

/-! ### Statements -/

variable (t : ℕ)

/-- `INSERT INTO rule_sets … ON CONFLICT DO NOTHING`. -/
def insertSet (set : String) : Txn Db Bool :=
  .stmt fun s => (s.sets.insert t set ⟨none⟩).map fun r => (r.1, { s with sets := r.2 })

/-- `SELECT … FROM rule_sets … FOR SHARE`. -/
def shareSet (set : String) : Txn Db (Option RuleSet) :=
  .stmt fun s => (s.sets.share t set fun _ => true).map fun r => (r.1, { s with sets := r.2 })

/-- `UPDATE rule_sets SET retired_at = now() … AND retired_at IS NULL`. -/
def updateSet (set : String) (now : ℤ) : Txn Db Bool :=
  .stmt fun s =>
    (s.sets.update t set (fun row => row.retiredAt.isNone) fun _ => ⟨some now⟩).map fun r =>
      (r.1, { s with sets := r.2 })

/-- `INSERT INTO rule_trust_keys … ON CONFLICT DO NOTHING`. -/
def insertKey (k : String × String) (key : PublicKey) : Txn Db Bool :=
  .stmt fun s => (s.keys.insert t k ⟨key, none⟩).map fun r => (r.1, { s with keys := r.2 })

/-- `SELECT 1 FROM rule_trust_keys … AND removed_at IS NULL FOR SHARE`. -/
def shareKey (k : String × String) : Txn Db (Option TrustKey) :=
  .stmt fun s => (s.keys.share t k fun row => row.removedAt.isNone).map fun r => (r.1, { s with keys := r.2 })

/-- `UPDATE rule_trust_keys SET removed_at = now() … AND removed_at IS NULL`. -/
def updateKey (k : String × String) (now : ℤ) : Txn Db Bool :=
  .stmt fun s =>
    (s.keys.update t k (fun row => row.removedAt.isNone) fun row => { row with removedAt := some now }).map fun r =>
      (r.1, { s with keys := r.2 })

/-- `INSERT INTO rule_bundles`: `false` when it breaks a constraint. -/
def insertBundle (n : NewBundle) : Txn Db Bool :=
  .stmt fun s =>
    if !n.checks then some (false, s)
    else
      match (s.bundles (n.ruleSetId, n.version)).view t with
      | some _ => some (false, s)
      | none => (s.bundles.put t (n.ruleSetId, n.version) (some n.row)).map fun bundles =>
          (true, { s with bundles := bundles, bundleKeys := (n.ruleSetId, n.version) :: s.bundleKeys })

/-! ### Keys -/

inductive TrustAdded where
  | added
  | alreadyTrusted
  | conflict
  | retired
deriving DecidableEq

def addTrustKey (set issuer : String) (key : PublicKey) : Txn Db (End (Option TrustAdded)) := do
  let _ ← insertSet t set
  match ← shareSet t set with
  | none => pure (.rollback none)
  | some row =>
    if row.retiredAt.isSome then pure (.rollback (some .retired))
    else if ← insertKey t (set, issuer) key then pure (.commit (some .added))
    else
      match ← .query fun s => (s.keys.rows (set, issuer)).view t with
      | none => pure (.rollback none)
      | some stored =>
        if stored.removedAt.isNone && stored.publicKey = key then pure (.commit (some .alreadyTrusted))
        else pure (.commit (some .conflict))

def removeTrustKey (set issuer : String) (now : ℤ) : Txn Db (End Bool) := do
  let changed ← updateKey t (set, issuer) now
  pure (.commit changed)

/-! ### Bundles -/

inductive Published where
  | stored
  /-- The same version with the same bytes is already stored. -/
  | unchanged
  | versionConflict
  | notAboveCurrent (current : ℤ)
  | retired
  | unknownSet
  | untrustedIssuer
deriving DecidableEq

section

variable (hashtext : String → ℤ)

/-- `SELECT pg_advisory_xact_lock(PUBLISH_LOCK, hashtext(set))`. -/
def takeLock (t : ℕ) (set : String) : Txn Db Unit :=
  .stmt fun s => (s.locks.put t (hashtext set) ()).map fun locks => ((), { s with locks := locks })

/-- `publish_inner`. -/
def publish (t : ℕ) (n : NewBundle) : Txn Db (End (Option Published)) := do
  takeLock hashtext t n.ruleSetId
  match ← .query fun s => (s.sets.rows n.ruleSetId).view t with
  | none => pure (.rollback (some .unknownSet))
  | some set =>
    if set.retiredAt.isSome then pure (.rollback (some .retired))
    else
      match ← .query fun s => s.seen t (n.ruleSetId, n.version) with
      | some stored =>
        if stored.envelope ≠ n.envelope then pure (.rollback (some .versionConflict))
        else pure (.commit (some .unchanged))
      | none =>
        match (← .query fun s => s.current (s.seen t) n.ruleSetId).filter fun current => n.version ≤ current with
        | some current => pure (.rollback (some (.notAboveCurrent current)))
        | none =>
          match ← shareKey t (n.ruleSetId, n.issuerKeyId) with
          | none => pure (.rollback (some .untrustedIssuer))
          | some _ =>
            if ← insertBundle t n then pure (.commit (some .stored))
            else pure (.rollback none)

end

def retire (set : String) (now : ℤ) : Txn Db (End Bool) := do
  let changed ← updateSet t set now
  pure (.commit changed)

inductive Served where
  | unknown
  | upToDate
  | envelope (bytes : List UInt8)
deriving DecidableEq

/-- The highest version of a live set, with its bytes only when the agent's version is older. -/
def Db.serve (s : Db) (set : String) (current : Option ℤ) : Served :=
  match (s.sets.rows set).committed, s.current s.stored set with
  | some row, some version =>
    match s.stored (set, version) with
    | some b =>
      if row.retiredAt.isSome then .unknown
      else if current.getD 0 < version then .envelope b.envelope
      else .upToDate
    | none => .unknown
  | _, _ => .unknown

def serve (set : String) (current : Option ℤ) : Txn Db (End Served) := do
  let served ← .query fun s => s.serve set current
  pure (.commit served)

/-! ### The system -/

inductive Call where
  | addTrustKey (set issuer : String) (key : PublicKey)
  | removeTrustKey (set issuer : String) (now : ℤ)
  | publish (bundle : NewBundle)
  | retire (set : String) (now : ℤ)
  | serve (set : String) (current : Option ℤ)
deriving DecidableEq

inductive Answer where
  | trustAdded (a : Option TrustAdded)
  | removed (b : Bool)
  | published (p : Option Published)
  | retired (b : Bool)
  | served (a : Served)
deriving DecidableEq

def Call.prog (hashtext : String → ℤ) (t : ℕ) : Call → Txn Db (End Answer)
  | .addTrustKey set issuer key => do return (← Rules.addTrustKey t set issuer key).map .trustAdded
  | .removeTrustKey set issuer now => do return (← Rules.removeTrustKey t set issuer now).map .removed
  | .publish n => do return (← Rules.publish hashtext t n).map .published
  | .retire set now => do return (← Rules.retire t set now).map .retired
  | .serve set current => do return (← Rules.serve set current).map .served

def system (hashtext : String → ℤ) : System ℕ Call Empty Db (End Answer) where
  prog := Call.prog hashtext
  close t
    | .commit _, s => s.commit t
    | .rollback _, s => s.abort t
  abort t s := s.abort t
  effect op _ := op.elim

end OpenVibes.Store.Rules
