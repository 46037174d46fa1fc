import OpenVibes.Store.Schema

/-!
# Recording what matching found

`crates/platform-store/src/vulns.rs` and `vulns/candidates.rs`. `apply` upserts the found records and closes the open
ones of its scope that were not found; it fails, and changes nothing, when a pair is found twice or refers to nothing.
`applyVersions` only fails on a missing reference.
-/

namespace OpenVibes.Store

open Theory List Table

structure Found where
  (agentId advisoryId : String)
  packages : List PackageEntry
  /-- Every affected package is a kernel whose fix is installed but not running. -/
  rebootNeeded : Bool
deriving DecidableEq

def Found.key (f : Found) : String × String := (f.agentId, f.advisoryId)

inductive Scope where
  /-- These hosts of a release (one batch), against its advisories. -/
  | release (osId osVersion : String) (agents : List String)
  | host (agentId : String)

def Db.advisoryOf (db : Db) (osId osVersion advisoryId : String) : Bool :=
  db.advisories.rows.any fun a => a.advisoryId = advisoryId ∧ a.osId = osId ∧ a.osVersion = osVersion

def Scope.covers (db : Db) : Scope → String × String → Bool
  | .release osId osVersion agents, k => k.1 ∈ agents ∧ db.advisoryOf osId osVersion k.2
  | .host agentId, k => k.1 = agentId

def Found.row (now : Time) (f : Found) : Vulnerability where
  agentId := f.agentId
  advisoryId := f.advisoryId
  packages := f.packages
  rebootNeeded := f.rebootNeeded
  firstSeenAt := now
  fixedAt := none
  lastEvaluatedAt := now

/-- `ON CONFLICT (agent_id, advisory_id) DO UPDATE`: everything but the creation time. -/
def Vulnerability.refresh (old new : Vulnerability) : Vulnerability :=
  { old with
    packages := new.packages
    rebootNeeded := new.rebootNeeded
    lastEvaluatedAt := new.lastEvaluatedAt
    fixedAt := none }

def Vulnerability.close (now : Time) (v : Vulnerability) : Vulnerability :=
  { v with fixedAt := some now, lastEvaluatedAt := now }

def Found.refers (db : Db) (f : Found) : Bool :=
  (db.agents.get? f.agentId).isSome && (db.advisories.get? f.advisoryId).isSome

theorem key_row (now : Time) (f : Found) : (f.row now).key = f.key := rfl

theorem key_refresh (old new : Vulnerability) : (old.refresh new).key = old.key := rfl

theorem key_close (now : Time) (v : Vulnerability) : (v.close now).key = v.key := rfl

/-- The `UPDATE` of `apply`: open records in scope that were not found are fixed. -/
def closeMissing (db : Db) (scope : Scope) (found : List Found) (now : Time)
    (vs : Vulnerabilities) : Vulnerabilities :=
  vs.updateWhere (fun v => v.fixedAt = none ∧ v.key ∉ found.map Found.key ∧ scope.covers db v.key)
    (Vulnerability.close now) (key_close now)

/-- `apply`: found vulnerabilities are opened or reopened and updated; open ones in scope that were not found are fixed
at `now`. -/
def apply (db : Db) (scope : Scope) (found : List Found) (now : Time) : Except StoreError (Db × ℕ) :=
  match db.vulnerabilities.upsertAll Vulnerability.refresh key_refresh (found.map (Found.row now)) with
  | none => .error .cardinalityViolation
  | some opened =>
    if found.all (Found.refers db) then
      .ok ({ db with vulnerabilities := closeMissing db scope found now opened }, found.length)
    else .error .foreignKeyViolation

/-! ### One call -/

/-- The call is accepted: no pair is found twice, and every pair refers to a host and an
advisory. -/
def Accepted (db : Db) (found : List Found) : Prop :=
  (found.map Found.key).Nodup ∧ ∀ f ∈ found, f.refers db

instance (db : Db) (found : List Found) : Decidable (Accepted db found) := inferInstanceAs (Decidable (_ ∧ _))

def recorded (db : Db) (scope : Scope) (found : List Found) (now : Time) : Vulnerabilities :=
  closeMissing db scope found now
    (db.vulnerabilities.upsertEach Vulnerability.refresh key_refresh (found.map (Found.row now)))

theorem map_key_row (found : List Found) (now : Time) :
    (found.map (Found.row now)).map Vulnerability.key = found.map Found.key := by
  rw [map_map]
  rfl

variable {db db' : Db} {found : List Found} {now : Time} {n : ℕ}

theorem apply_of_accepted (h : Accepted db found) (scope : Scope) (now : Time) :
    apply db scope found now = .ok ({ db with vulnerabilities := recorded db scope found now }, found.length) := by
  rw [apply, Table.upsertAll, if_pos (by rw [map_key_row]; exact h.1)]
  simp only [all_eq_true.mpr h.2, if_true]
  rfl

theorem apply_of_not_accepted (h : ¬ Accepted db found) (scope : Scope) (now : Time) :
    ∃ e, apply db scope found now = .error e := by
  rw [apply, Table.upsertAll]
  by_cases hn : ((found.map (Found.row now)).map Vulnerability.key).Nodup
  · have href : ¬ (found.all (Found.refers db)) := fun hr =>
      h ⟨by rwa [map_key_row] at hn, all_eq_true.mp hr⟩
    simp only [if_pos hn, if_neg href]
    exact ⟨_, rfl⟩
  · simp only [if_neg hn]
    exact ⟨_, rfl⟩

theorem apply_eq_ok {scope : Scope} (h : apply db scope found now = .ok (db', n)) :
    Accepted db found ∧ db' = { db with vulnerabilities := recorded db scope found now } := by
  by_cases ha : Accepted db found
  · rw [apply_of_accepted ha] at h
    exact ⟨ha, (Prod.mk.inj (Except.ok.inj h)).1.symm⟩
  · obtain ⟨e, he⟩ := apply_of_not_accepted ha scope now
    rw [he] at h
    cases h

theorem find?_row (found : List Found) (now : Time) (k : String × String) :
    ((found.map (Found.row now)).find? fun v => v.key = k) =
      (found.find? fun f => f.key = k).map (Found.row now) := by
  rw [find?_map]
  rfl

variable {k : String × String}

theorem find?_key_eq_none : (found.find? fun f => f.key = k) = none ↔ k ∉ found.map Found.key := by
  simp [find?_eq_none]

/-- **What a call does to a record**: a found one is created or refreshed, and an open one in scope that was not found
is closed. -/
theorem get?_recorded (h : (found.map Found.key).Nodup) (scope : Scope) (now : Time) (k : String × String) :
    (recorded db scope found now).get? k =
      match found.find? fun f => f.key = k with
      | some f => some ((db.vulnerabilities.get? k).elim (f.row now) fun old => old.refresh (f.row now))
      | none => (db.vulnerabilities.get? k).map fun v =>
        if v.fixedAt = none ∧ scope.covers db k then v.close now else v := by
  rw [recorded, closeMissing, get?_updateWhere, get?_upsertEach _ (by rwa [map_key_row]), find?_row]
  cases hf : found.find? fun f => f.key = k with
  | some f =>
    have hk : f.key = k := by simpa using find?_some hf
    have hmem : k ∈ found.map Found.key := mem_map.mpr ⟨f, mem_of_find?_eq_some hf, hk⟩
    cases hg : db.vulnerabilities.get? k with
    | none => simp [key_row, hk, hmem, -mem_map]
    | some old => simp [key_refresh, key_of_get? hg, hmem, -mem_map]
  | none =>
    cases hg : db.vulnerabilities.get? k with
    | none => rfl
    | some v => simp [key_of_get? hg, find?_key_eq_none.mp hf, -mem_map]

def openRecord (db : Db) (k : String × String) : Option (List PackageEntry × Bool) :=
  ((db.vulnerabilities.get? k).filter fun v => v.fixedAt = none).map fun v => (v.packages, v.rebootNeeded)

def Found.content (f : Found) : List PackageEntry × Bool := (f.packages, f.rebootNeeded)

/-- **What is open after a call**: what was found, and outside the scope what was open before. -/
theorem openRecord_recorded (h : (found.map Found.key).Nodup) (scope : Scope) (now : Time) (k : String × String) :
    openRecord { db with vulnerabilities := recorded db scope found now } k =
      match found.find? fun f => f.key = k with
      | some f => some f.content
      | none => if scope.covers db k then none else openRecord db k := by
  rw [openRecord, get?_recorded h]
  cases found.find? fun f => f.key = k with
  | some f => cases db.vulnerabilities.get? k <;> rfl
  | none =>
    rw [openRecord]
    cases db.vulnerabilities.get? k with
    | none => simp
    | some v =>
      by_cases hcov : scope.covers db k = true
      · by_cases hop : v.fixedAt = none <;> simp [hcov, hop, Vulnerability.close]
      · simp [hcov]

/-! ### Sequences of calls -/

/-- A call of `apply`, with the other tables as they are when it is made. -/
structure Call where
  db : Db
  scope : Scope
  found : List Found
  now : Time

def Call.store (c : Call) (vs : Vulnerabilities) : Db := { c.db with vulnerabilities := vs }

/-- The records after a call: a failed one leaves them as they are. -/
def Call.run (vs : Vulnerabilities) (c : Call) : Vulnerabilities :=
  match apply (c.store vs) c.scope c.found c.now with
  | .ok (db, _) => db.vulnerabilities
  | .error _ => vs

def runCalls (vs : Vulnerabilities) (calls : List Call) :
    Vulnerabilities :=
  calls.foldl Call.run vs

/-- The hosts and advisories found lie in the call's scope. -/
def Call.InScope (c : Call) : Prop := ∀ f ∈ c.found, c.scope.covers c.db f.key

instance (c : Call) : Decidable c.InScope := inferInstanceAs (Decidable (∀ f ∈ c.found, _))

def Call.openInScope (c : Call) (vs : Vulnerabilities) (k : String × String) : Prop :=
  c.scope.covers c.db k ∧ ∃ v, vs.get? k = some v ∧ v.fixedAt = none

theorem Call.covers_store (c : Call) (vs : Vulnerabilities) (k : String × String) :
    c.scope.covers (c.store vs) k = c.scope.covers c.db k := by
  cases c.scope <;> rfl

theorem Call.accepted_store (c : Call) (vs : Vulnerabilities) :
    Accepted (c.store vs) c.found ↔ Accepted c.db c.found := Iff.rfl

variable {c : Call}

theorem Call.run_of_accepted (h : Accepted c.db c.found) (vs : Vulnerabilities) :
    c.run vs = recorded (c.store vs) c.scope c.found c.now := by
  rw [Call.run, apply_of_accepted ((c.accepted_store vs).mpr h)]

theorem Call.run_of_not_accepted (h : ¬ Accepted c.db c.found) (vs : Vulnerabilities) :
    c.run vs = vs := by
  obtain ⟨e, he⟩ := apply_of_not_accepted (mt (c.accepted_store vs).mp h) c.scope c.now
  rw [Call.run, he]

variable {vs : Vulnerabilities} {v : Vulnerability}

theorem Call.firstSeenAt_run (c : Call) (hv : vs.get? k = some v) :
    ∃ v', (c.run vs).get? k = some v' ∧ v'.firstSeenAt = v.firstSeenAt := by
  by_cases h : Accepted c.db c.found
  · rw [Call.run_of_accepted h, get?_recorded h.1, show (c.store vs).vulnerabilities.get? k = some v from hv]
    cases c.found.find? fun f => f.key = k with
    | some f => exact ⟨_, rfl, rfl⟩
    | none =>
      refine ⟨_, rfl, ?_⟩
      simp only
      split_ifs <;> rfl
  · exact ⟨v, by rw [Call.run_of_not_accepted h, hv], rfl⟩

theorem firstSeenAt_runCalls (calls : List Call) (hv : vs.get? k = some v) :
    ∃ v', (runCalls vs calls).get? k = some v' ∧ v'.firstSeenAt = v.firstSeenAt := by
  induction calls generalizing vs v with
  | nil => exact ⟨v, hv, rfl⟩
  | cons c calls ih =>
    obtain ⟨v₁, hv₁, h₁⟩ := c.firstSeenAt_run hv
    obtain ⟨v₂, hv₂, h₂⟩ := ih hv₁
    exact ⟨v₂, hv₂, h₂.trans h₁⟩

theorem Call.openInScope_run (h : Accepted c.db c.found) (hs : c.InScope) (vs : Vulnerabilities)
    (k : String × String) : c.openInScope (c.run vs) k ↔ k ∈ c.found.map Found.key := by
  rw [Call.openInScope, Call.run_of_accepted h, get?_recorded h.1]
  cases hf : c.found.find? fun f => f.key = k with
  | some f =>
    have hk : f.key = k := by simpa using find?_some hf
    have hmem := mem_of_find?_eq_some hf
    refine iff_of_true ⟨hk ▸ hs f hmem, _, rfl, ?_⟩ (mem_map.mpr ⟨f, hmem, hk⟩)
    cases (c.store vs).vulnerabilities.get? k <;> rfl
  | none =>
    refine iff_of_false ?_ (find?_key_eq_none.mp hf)
    rintro ⟨hcov, v, hv, hop⟩
    obtain ⟨old, -, rfl⟩ := Option.map_eq_some_iff.mp hv
    split_ifs at hop with hc
    · simp [Vulnerability.close] at hop
    · exact hc ⟨hop, hcov⟩

theorem Call.get?_run_of_not_found (c : Call) (hk : k ∉ c.found.map Found.key)
    (h : c.scope.covers c.db k = false ∨ ∀ v, vs.get? k = some v → v.fixedAt ≠ none) :
    (c.run vs).get? k = vs.get? k := by
  by_cases ha : Accepted c.db c.found
  · rw [Call.run_of_accepted ha, get?_recorded ha.1, find?_key_eq_none.mpr hk]
    show (vs.get? k).map _ = _
    cases hv : vs.get? k with
    | none => rfl
    | some v =>
      have hno : ¬ (v.fixedAt = none ∧ c.scope.covers (c.store vs) k) := by
        rintro ⟨hop, hcov⟩
        rcases h with h | h
        · rw [c.covers_store, h] at hcov
          cases hcov
        · exact h v hv hop
      rw [Option.map_some, if_neg hno]
  · rw [Call.run_of_not_accepted ha]

/-- **The life of a vulnerability.** Every record that was there stays with its creation time; a call whose found pairs
lie in its scope is accepted exactly when the pairs are distinct and exist, makes them the open records of its scope,
and leaves alone the records outside, and those that were fixed and are not found. A call that is not accepted changes
nothing. -/
theorem vulnerability_lifecycle (vs : Vulnerabilities) (calls : List Call) (c : Call)
    (hs : c.InScope) :
    (∀ k v, vs.get? k = some v → ∃ v', (runCalls vs calls).get? k = some v' ∧ v'.firstSeenAt = v.firstSeenAt) ∧
    (Accepted c.db c.found ↔ ∃ r, apply (c.store (runCalls vs calls)) c.scope c.found c.now = .ok r) ∧
    (Accepted c.db c.found → ∀ k, c.openInScope (c.run (runCalls vs calls)) k ↔ k ∈ c.found.map Found.key) ∧
    (∀ k, c.scope.covers c.db k = false → (c.run (runCalls vs calls)).get? k = (runCalls vs calls).get? k) ∧
    (∀ k v, (runCalls vs calls).get? k = some v → v.fixedAt ≠ none → k ∉ c.found.map Found.key →
      (c.run (runCalls vs calls)).get? k = some v) ∧
    (¬ Accepted c.db c.found → c.run (runCalls vs calls) = runCalls vs calls) := by
  refine ⟨fun k v hv => firstSeenAt_runCalls calls hv, ?_,
    fun ha => Call.openInScope_run ha hs _, ?_, ?_, fun ha => Call.run_of_not_accepted ha _⟩
  · rw [← c.accepted_store (runCalls vs calls)]
    constructor
    · exact fun ha => ⟨_, apply_of_accepted ha _ _⟩
    rintro ⟨r, hr⟩
    by_contra ha
    obtain ⟨e, he⟩ := apply_of_not_accepted ha c.scope c.now
    rw [hr] at he
    cases he
  · intro k hcov
    refine c.get?_run_of_not_found (fun hk => ?_) (.inl hcov)
    obtain ⟨f, hf, rfl⟩ := mem_map.mp hk
    exact absurd (hs f hf) (by simp [hcov])
  · intro k v hv hfix hk
    rw [← hv]
    refine c.get?_run_of_not_found hk (.inr fun v' hv' => ?_)
    rw [hv] at hv'
    exact Option.some.inj hv' ▸ hfix

def oneHost : Db :=
  { Db.empty with
    agents := Table.empty.insertNew ⟨"a", some "fedora", some "44", some [1], none, 0⟩
    advisories := Table.empty.insertNew ⟨"FEDORA-1", "fedora", "44"⟩ }

/-- A fixed vulnerability is found again: it is the only open record, created when it was first found. -/
theorem lifecycle_reopened :
    let seen : Call := ⟨oneHost, .host "a", [⟨"a", "FEDORA-1", [], false⟩], 1⟩
    let fixed : Call := ⟨oneHost, .release "fedora" "44" ["a"], [], 2⟩
    let again : Call := ⟨oneHost, .host "a", [⟨"a", "FEDORA-1", [], true⟩], 3⟩
    (∀ k, again.openInScope (again.run (runCalls .empty [seen, fixed])) k ↔ k ∈ [("a", "FEDORA-1")]) ∧
      (again.run (runCalls .empty [seen, fixed])).get? ("a", "FEDORA-1") =
        some ⟨"a", "FEDORA-1", [], true, 1, none, 3⟩ := by
  intro seen fixed again
  have hs : again.InScope := by decide
  exact ⟨(vulnerability_lifecycle .empty [seen, fixed] again hs).2.2.1 (by decide), by decide⟩

/-! ### Vulnerabilities without a fix -/

/-- A vulnerability without a fix on one package version. -/
structure VersionFound where
  versionId : ℕ
  (advisoryId package : String)

def VersionFound.key (f : VersionFound) : ℕ × String × String := (f.versionId, f.advisoryId, f.package)

def VersionFound.row (now : Time) (f : VersionFound) : VersionVulnerability :=
  ⟨f.versionId, f.advisoryId, f.package, now⟩

def VersionFound.refers (db : Db) (f : VersionFound) : Bool :=
  (db.packageVersions.get? f.versionId).isSome && (db.advisories.get? f.advisoryId).isSome

def versionsRecorded (vs : Table VersionVulnerability VersionVulnerability.key) (evaluated : List ℕ)
    (found : List VersionFound) (now : Time) : Table VersionVulnerability VersionVulnerability.key :=
  (vs.deleteWhere fun v => v.packageVersionId ∈ evaluated ∧ v.key ∉ found.map VersionFound.key).insertAllNew
    (found.map (VersionFound.row now))

/-- `apply_versions`: found records are kept or added; others of the evaluated versions are removed. -/
def applyVersions (db : Db) (evaluated : List ℕ) (found : List VersionFound) (now : Time) :
    Except StoreError (Db × ℕ) :=
  if found.all (VersionFound.refers db) then
    .ok ({ db with versionVulnerabilities := versionsRecorded db.versionVulnerabilities evaluated found now },
      found.length)
  else .error .foreignKeyViolation

theorem applyVersions_eq_ok {evaluated : List ℕ} {found : List VersionFound}
    (h : applyVersions db evaluated found now = .ok (db', n)) :
    db' = { db with versionVulnerabilities := versionsRecorded db.versionVulnerabilities evaluated found now } := by
  rw [applyVersions] at h
  split_ifs at h
  exact (Prod.mk.inj (Except.ok.inj h)).1.symm

/-- A record is there if it was found, or was there and its version was not evaluated. -/
theorem isSome_versionsRecorded (vs : Table VersionVulnerability VersionVulnerability.key) (evaluated : List ℕ)
    (found : List VersionFound) (now : Time) (k : ℕ × String × String) :
    ((versionsRecorded vs evaluated found now).get? k).isSome ↔
      k ∈ found.map VersionFound.key ∨ (vs.get? k).isSome ∧ k.1 ∉ evaluated := by
  have hfi : ((found.map (VersionFound.row now)).find? fun v => v.key = k).isSome ↔
      k ∈ found.map VersionFound.key := by
    simp only [find?_isSome, mem_map, decide_eq_true_eq]
    constructor
    · rintro ⟨_, ⟨f, hf, rfl⟩, hk⟩
      exact ⟨f, hf, hk⟩
    · rintro ⟨f, hf, hk⟩
      exact ⟨f.row now, ⟨f, hf, rfl⟩, hk⟩
  rw [versionsRecorded, get?_insertAllNew, get?_deleteWhere, Option.isSome_or, Bool.or_eq_true, hfi, or_comm]
  cases hv : vs.get? k with
  | none => simp
  | some v =>
    have hk := key_of_get? hv
    have hid : v.packageVersionId = k.1 := by rw [← hk]; rfl
    by_cases hmem : k ∈ found.map VersionFound.key
    · simp [hmem]
    · simp [hk, hid, hmem, -mem_map]

end OpenVibes.Store
