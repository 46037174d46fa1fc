import OpenVibes.Store.Triage
import OpenVibes.Theory.Tally

/-!
# The fleet's summary

`crates/platform-store/src/vulns/summary.rs`: `refresh_counts` stores what is open per host, and `summary_for_agents`
adds that up, but counts what is exploited live. Of the summary, the hosts at the top and the time of the last import
are left out, and of `refresh_counts` what only the list of hosts reads.
-/

namespace OpenVibes.Store.FleetSummary

open Theory Store.Triage List

inductive Severity where
  | critical
  | important
  | moderate
  | low
  | unrated
deriving DecidableEq

structure RatedAdvisory where
  advisoryId : String
  severity : Severity

/-- A row of `cve_enrichment`. -/
structure Enrichment where
  cveId : String
  kevAdded : Option Time
  euvdExploited : Bool

/-- A row of `host_vulnerability_counts`. -/
structure HostCounts where
  noFix : ℕ
  rated : Severity → ℕ
  reboot : ℕ
  countedAt : Time

/-- The tables that the summary reads. -/
structure Fleet where
  dir : Directory
  advisories : Table RatedAdvisory RatedAdvisory.advisoryId
  vulnerabilities : Vulnerabilities
  triage : Table TriageRow TriageRow.key
  hostPackages : Table HostPackage id
  versionVulnerabilities : Table VersionVulnerability VersionVulnerability.key
  /-- `advisory_cves`: an advisory, and a CVE that it names. -/
  cves : List (String × String)
  enrichment : Table Enrichment Enrichment.cveId
  counts : String → Option HostCounts
  references : ∀ v ∈ vulnerabilities.rows,
    v.agentId ∈ dir.hosts.rows.map Host.agentId ∧ (advisories.get? v.advisoryId).isSome = true

variable (f : Fleet)

/-! ### Counting -/

/-- Triage that is not open. -/
def Fleet.closed (now : Time) (v : Vulnerability) : Bool :=
  f.triage.rows.any fun t => t.agentId = v.agentId && t.advisoryId = v.advisoryId &&
    (t.state = .mitigated || t.state = .falsePositive || t.state = .acceptedRisk &&
      t.acceptedUntil.any fun u => now < u)

def Fleet.severity (v : Vulnerability) : Option Severity := (f.advisories.get? v.advisoryId).map RatedAdvisory.severity

/-- What is open of a host, without what triage closed. -/
def Fleet.countsOf (now : Time) (agentId : String) : HostCounts :=
  let unfixed := f.vulnerabilities.rows.filter fun v => v.agentId = agentId && v.fixedAt.isNone && !f.closed now v
  { noFix := ((f.versionVulnerabilities.rows.filter fun vv => f.hostPackages.rows.any fun hp =>
      hp.agentId = agentId && hp.packageVersionId = vv.packageVersionId).map
        VersionVulnerability.advisoryId).dedup.length
    rated := fun severity => unfixed.countP fun v => f.severity v = some severity && !v.rebootNeeded
    reboot := unfixed.countP fun v => v.rebootNeeded && (f.severity v).isSome
    countedAt := now }

/-- `refresh_counts`. -/
def refreshCounts (agents : List String) (now : Time) : Fleet :=
  { f with counts := fun agentId => if agentId ∈ agents then some (f.countsOf now agentId) else f.counts agentId }

/-! ### The summary -/

structure Summary where
  bySeverity : List (Severity × ℕ)
  (hosts rebootHosts noFix exploited : ℕ)

def severities : List Severity := [.critical, .important, .moderate, .low, .unrated]

def HostCounts.open (c : HostCounts) : ℕ := (severities.map c.rated).sum

def Fleet.inScope (scope : AgentScope) (agentId : String) : Bool := scope = .global || visible f.dir scope agentId

/-- The agents of `summary_in_scope`. -/
def Fleet.scoped (scope : AgentScope) : List String := (f.dir.hosts.rows.map Host.agentId).filter (f.inScope scope)

/-- The advisory names a CVE that is listed as exploited. -/
def Fleet.exploited (advisoryId : String) : Bool :=
  f.cves.any fun c => c.1 = advisoryId && (f.enrichment.get? c.2).any fun x => x.kevAdded.isSome || x.euvdExploited

/-- Open, not only waiting for a reboot, and in scope. -/
def Fleet.live (scope : AgentScope) (v : Vulnerability) : Bool :=
  v.fixedAt.isNone && !v.rebootNeeded && f.inScope scope v.agentId

/-- `summary_in_scope`, from the stored counts; only `exploited` is live. -/
def summaryInScope (scope : AgentScope) : Summary :=
  let counts := (f.scoped scope).filterMap f.counts
  { bySeverity := (severities.map fun s => (s, (counts.map fun c => c.rated s).sum)).filter fun x => 0 < x.2
    hosts := counts.countP fun c => 0 < c.open
    rebootHosts := counts.countP fun c => 0 < c.reboot
    noFix := (counts.map HostCounts.noFix).sum
    exploited := f.vulnerabilities.rows.countP fun v => f.live scope v && f.exploited v.advisoryId }

/-! ### One set -/

variable {f}

theorem sum_filter_pos (l : List (Severity × ℕ)) : ((l.filter fun x => 0 < x.2).map Prod.snd).sum =
    (l.map Prod.snd).sum := by
  induction l with
  | nil => rfl
  | cons x l ih =>
    rcases Nat.eq_zero_or_pos x.2 with h | h
    · simp [ih, h]
    · simp [ih, h]

theorem open_countsOf (now : Time) (agentId : String) : (f.countsOf now agentId).open =
    f.vulnerabilities.rows.countP fun v => v.agentId = agentId && (v.fixedAt.isNone && !f.closed now v &&
        !v.rebootNeeded) := by
  have hky : (severities.map some).Nodup := by decide
  have hall : ∀ s : Severity, some s ∈ severities.map some := fun s => by cases s <;> decide
  have hsum := sum_countP_key f.severity hky (p := fun v => !v.rebootNeeded)
    (l := f.vulnerabilities.rows.filter fun v => v.agentId = agentId && v.fixedAt.isNone && !f.closed now v)
    fun v hv _ => ?_
  · rw [map_map, countP_filter] at hsum
    refine hsum.trans (countP_congr fun v _ => ?_)
    simp only [Bool.and_eq_true]
    tauto
  · obtain ⟨a, ha⟩ := Option.isSome_iff_exists.mp (f.references v (mem_of_mem_filter hv)).2
    rw [Fleet.severity, ha]
    exact hall a.severity

/-- The stored counts of the hosts in scope add up to what is open there. -/
theorem sum_open (scope : AgentScope) (now : Time) :
    (((f.scoped scope).map (f.countsOf now)).map HostCounts.open).sum =
      f.vulnerabilities.rows.countP fun v => f.live scope v && !f.closed now v := by
  have hsum := sum_countP_key Vulnerability.agentId (f.dir.hosts.nodup.filter (f.inScope scope)) (l :=
    f.vulnerabilities.rows) (p := fun v => f.live scope v && !f.closed now v) fun v hv hp => ?_
  · rw [← hsum, map_map]
    refine congrArg List.sum (map_congr_left fun id hid => ?_)
    refine (open_countsOf now id).trans (countP_congr fun v _ => ?_)
    have hin := (mem_filter.mp hid).2
    simp only [Fleet.live, Bool.and_eq_true, decide_eq_true_eq]
    constructor
    · rintro ⟨rfl, h⟩
      tauto
    · tauto
  · simp only [Fleet.live, Bool.and_eq_true] at hp
    exact mem_filter.mpr ⟨(f.references v hv).1, hp.1.2⟩

theorem sum_rated (counts : List HostCounts) :
    (severities.map fun s => (counts.map fun c => c.rated s).sum).sum = (counts.map HostCounts.open).sum := by
  induction counts with
  | nil => rfl
  | cons c counts ih =>
    rw [map_cons, sum_cons, ← ih, HostCounts.open, ← sum_map_add]
    rfl

/-- `refresh_counts` for all hosts. -/
def Fleet.refreshed (f : Fleet) (now : Time) : Fleet := refreshCounts f (f.dir.hosts.rows.map Host.agentId) now

theorem sum_bySeverity (scope : AgentScope) (now : Time) :
    ((summaryInScope (f.refreshed now) scope).bySeverity.map Prod.snd).sum =
      f.vulnerabilities.rows.countP fun v => f.live scope v && !f.closed now v := by
  have hcts : (f.scoped scope).filterMap (f.refreshed now).counts = (f.scoped scope).map (f.countsOf now) := by
    rw [← filterMap_eq_map]
    exact filterMap_congr fun id hid => if_pos (mem_of_mem_filter hid)
  rw [← sum_open, ← hcts, ← sum_rated]
  exact (sum_filter_pos _).trans (congrArg List.sum (map_map ..))

/-- **The summary counts one set** of open vulnerabilities by severity; what is exploited is counted among them exactly
if no exploited one is closed by its triage. -/
theorem summary_counts_one_set_iff (f : Fleet) (scope : AgentScope) (now : Time) :
    let summary := summaryInScope (f.refreshed now) scope
    let opened := f.vulnerabilities.rows.filter fun v => f.live scope v && !f.closed now v
    (summary.bySeverity.map Prod.snd).sum = opened.length ∧
      (summary.exploited = (opened.countP fun v => f.exploited v.advisoryId) ∧
          summary.exploited ≤ (summary.bySeverity.map Prod.snd).sum ↔
        ∀ v ∈ f.vulnerabilities.rows, f.live scope v = true → f.exploited v.advisoryId = true →
            f.closed now v = false) := by
  intro summary opened
  have hsum : (summary.bySeverity.map Prod.snd).sum = opened.length := by
    rw [sum_bySeverity, countP_eq_length_filter]
  obtain ⟨hits, hht⟩ : ∃ hits, hits =
      f.vulnerabilities.rows.filter fun v => f.live scope v && f.exploited v.advisoryId :=
    ⟨_, rfl⟩
  have hexp : summary.exploited = hits.length := by
    rw [hht, ← countP_eq_length_filter]
    rfl
  have hopd : (opened.countP fun v => f.exploited v.advisoryId) = hits.countP fun v => !f.closed now v := by
    rw [hht, countP_filter, countP_filter]
    exact countP_congr fun v _ => by simp only [Bool.and_eq_true]; tauto
  have hcld : (∀ v ∈ hits, (!f.closed now v) = true) ↔ ∀ v ∈ f.vulnerabilities.rows, f.live scope v = true →
      f.exploited v.advisoryId = true → f.closed now v = false := by
    simp [hht]
  refine ⟨hsum, ?_⟩
  rw [hsum, hexp, hopd, eq_comm, countP_eq_length, ← hcld]
  refine ⟨And.left, fun h => ⟨h, ?_⟩⟩
  rw [← countP_eq_length.mpr h, ← hopd]
  exact countP_le_length

/-- An exploited vulnerability that is mitigated: nothing is open. -/
def mitigatedFleet : Fleet where
  dir := ⟨⟨[⟨"web-7", false⟩], by decide⟩, [], .empty⟩
  advisories := ⟨[⟨"A-1", .critical⟩], by decide⟩
  vulnerabilities := ⟨[⟨"web-7", "A-1", [], false, 0, none, 0⟩], by decide⟩
  triage := ⟨[⟨"web-7", "A-1", .mitigated, none, some "patched", none, 1, 0, "alice", some 0⟩], by decide⟩
  hostPackages := .empty
  versionVulnerabilities := .empty
  cves := [("A-1", "CVE-1")]
  enrichment := ⟨[⟨"CVE-1", some 0, false⟩], by decide⟩
  counts _ := none
  references := by decide

theorem mitigated_is_exploited : (summaryInScope (mitigatedFleet.refreshed 1) .global).bySeverity = [] ∧
    (summaryInScope (mitigatedFleet.refreshed 1) .global).exploited = 1 := by decide

end OpenVibes.Store.FleetSummary
