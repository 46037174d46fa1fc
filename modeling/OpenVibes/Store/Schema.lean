import OpenVibes.Theory.Table
import OpenVibes.Rust.Bytes

/-!
# The platform's database

The tables of the platform's PostgreSQL database (`migrations/`) that vulnerability matching and inventories use, with
the columns that are read or written there. A `PRIMARY KEY` or `UNIQUE` constraint is the key of its `Theory.Table`.
Results about queries that depend on the order of rows say so.
-/

namespace OpenVibes.Store

open Theory

/-- A point in time (`timestamptz`, `DateTime<Utc>`), in microseconds. -/
abbrev Time := ℤ

abbrev Sha256 := Rust.Bytes

instance instLawfulBEqTextPair : LawfulBEq (String × String) := inferInstance

/-- A package manager's version order: `advisory_packages.scheme`. -/
inductive Scheme where
  | rpm
  | dpkg
deriving DecidableEq

def Scheme.text : Scheme → String
  | .rpm => "rpm"
  | .dpkg => "dpkg"

/-- What an advisory's package names: `advisory_packages.match_on`. -/
inductive MatchOn where
  | binary
  | source
deriving DecidableEq

structure Agent where
  agentId : String
  (osId osVersion : Option String)
  inventorySha256 : Option Sha256
  runningKernel : Option String
  /-- The matcher version that evaluated the stored inventory; 0 when none has. -/
  vulnerabilityMatchVersion : ℕ
deriving DecidableEq

/-- `agents.os_release`, the generated column. RHEL rebuilds use the major version. -/
def Agent.osRelease (g : Agent) : Option String :=
  match g.osVersion with
  | none => none
  | some v =>
    if g.osId = some "rocky" ∨ g.osId = some "almalinux" then some (String.ofList (v.toList.takeWhile (· ≠ '.')))
    else some v

/-- A row of `package_versions`: a distinct package version of the fleet. -/
structure PackageVersion where
  id : ℕ
  (manager name : String)
  epoch : ℤ
  (version release arch : String)
  /-- Source package when it differs from the binary's name. -/
  (source sourceVersion : Option String)

abbrev PackageVersions := Table PackageVersion PackageVersion.id

/-- A row of `host_packages`: the host has the package version. -/
structure HostPackage where
  agentId : String
  packageVersionId : ℕ
deriving DecidableEq

structure Advisory where
  (advisoryId osId osVersion : String)

/-- A row of `advisory_packages`: a range of versions of a package an advisory affects. -/
structure AdvisoryPackage where
  (advisoryId name : String)
  /-- Architecture (`noarch` fixes every architecture; empty for source). -/
  arch : String
  scheme : Scheme
  matchOn : MatchOn
  /-- First affected version; `none` for every version before the fix. -/
  (introduced fixed lastAffected : Option String)

/-- The columns of the unique index `advisory_packages_key`. -/
def AdvisoryPackage.key (ap : AdvisoryPackage) : String × String × String × MatchOn × String :=
  (ap.advisoryId, ap.name, ap.arch, ap.matchOn, ap.introduced.getD "")

/-- An affected package as `vulnerabilities.packages` lists it (`{name, installed, fixed, running?}`). -/
structure PackageEntry where
  (name installed : String)
  fixed : Option String
  /-- The running kernel's version, when it is older than the fix. -/
  running : Option String
deriving DecidableEq

/-- A row of `vulnerabilities`: an advisory that affects, or affected, a host. -/
structure Vulnerability where
  (agentId advisoryId : String)
  packages : List PackageEntry
  rebootNeeded : Bool
  firstSeenAt : Time
  fixedAt : Option Time
  lastEvaluatedAt : Time
deriving DecidableEq

def Vulnerability.key (v : Vulnerability) : String × String := (v.agentId, v.advisoryId)

abbrev Vulnerabilities := Table Vulnerability Vulnerability.key

/-- A row of `version_vulnerabilities`: an advisory without a fix that affects a package
version. -/
structure VersionVulnerability where
  packageVersionId : ℕ
  (advisoryId package : String)
  firstSeenAt : Time

def VersionVulnerability.key (v : VersionVulnerability) : ℕ × String × String :=
  (v.packageVersionId, v.advisoryId, v.package)

structure FeedSource where
  source : String
  cursor : Option Time
  contentSha256 : Option Sha256
  /-- What the last check failed with; cleared by a good one. -/
  lastError : Option String

/-- A row of `cve_applicability`: upstream versions of a product that a CVE affects. -/
structure Applicability where
  (cveId vendor product : String)
  (introduced fixed lastAffected : Option String)
  fedora : List String
deriving DecidableEq

/-- A row of `feed_state`: the last manifest accepted of a signed feed. -/
structure FeedState where
  (feedId keyId : String)
  sequence : ℕ
  manifestDigest : Sha256

def FeedState.key (f : FeedState) : String × String := (f.feedId, f.keyId)

/-- A row of `feed_applied_files`: the last file applied for a source, kind and name. -/
structure AppliedFile where
  (source kind name : String)
  sha256 : Sha256
  fetchedAt : Time
deriving DecidableEq

def AppliedFile.key (f : AppliedFile) : String × String × String := (f.source, f.kind, f.name)

abbrev AppliedFiles := Table AppliedFile AppliedFile.key

structure Db where
  agents : Table Agent Agent.agentId
  packageVersions : PackageVersions
  hostPackages : Table HostPackage id
  advisories : Table Advisory Advisory.advisoryId
  advisoryPackages : Table AdvisoryPackage AdvisoryPackage.key
  vulnerabilities : Vulnerabilities
  versionVulnerabilities : Table VersionVulnerability VersionVulnerability.key
  feedSources : Table FeedSource FeedSource.source
  feedStates : Table FeedState FeedState.key
  appliedFiles : AppliedFiles
  applicabilityProducts : Table String id
  applicability : List Applicability

def Db.empty : Db :=
  ⟨.empty, .empty, .empty, .empty, .empty, .empty, .empty, .empty, .empty, .empty, .empty, []⟩

inductive StoreError where
  | unavailable
  /-- `ON CONFLICT DO UPDATE command cannot affect row a second time`. -/
  | cardinalityViolation
  | foreignKeyViolation
deriving DecidableEq

def StoreError.text : StoreError → String
  | .unavailable => "database unavailable"
  | .cardinalityViolation => "database query failed"
  | .foreignKeyViolation => "database query failed"

end OpenVibes.Store
