import OpenVibes.Store.Vulns

/-!
# What matching reads

`crates/platform-store/src/vulns/candidates.rs`: each host's installed versions next to the advisory packages that could
apply to them, and the marker of the matcher version that evaluated a host. A query is a list of rows, one `flatMap`,
`filter` or `map` per `JOIN`, `WHERE` or `SELECT`. `allCandidates` is `candidates` without its last condition, that the
advisory and package be one of the given pairs.
-/

namespace OpenVibes.Store

open Theory List Option

/-- One installed package version that an advisory's package could apply to. -/
structure Candidate where
  (agentId advisoryId name fixedArch : String)
  scheme : Scheme
  (introduced fixed lastAffected : Option String)
  installed : String
  versionId : ℕ
  runningKernel : Option String

/-- `INSTALLED`: for dpkg the source's version of a binNMU, else `[E:]V[-R]`; for rpm `E:V-R`. -/
def PackageVersion.installed (pv : PackageVersion) : String :=
  if pv.manager = "dpkg" then
    pv.sourceVersion.getD
      (toString pv.epoch ++ ":" ++ pv.version ++ if pv.release ≠ "" then "-" ++ pv.release else "")
  else toString pv.epoch ++ ":" ++ pv.version ++ "-" ++ pv.release

/-- `PACKAGE_MATCH`: a binary entry matches that binary, a source entry every binary built from it. -/
def AdvisoryPackage.packageMatch (ap : AdvisoryPackage) (pv : PackageVersion) : Bool :=
  pv.manager == ap.scheme.text &&
    match ap.matchOn with
    | .binary => pv.name = ap.name ∧ (ap.arch = "" ∨ ap.arch = "noarch" ∨ pv.arch = ap.arch ∨ pv.arch = "noarch")
    | .source => pv.source = some ap.name ∨ (pv.source = none ∧ pv.name = ap.name)

def Agent.onRelease (osId osVersion : String) (g : Agent) : Bool :=
  g.osId = some osId ∧ g.osRelease = some osVersion

def Advisory.forRelease (osId osVersion : String) (a : Advisory) : Bool :=
  a.osId = osId ∧ a.osVersion = osVersion

def candidate (agentId : String) (runningKernel : Option String) (ap : AdvisoryPackage) (pv : PackageVersion) :
    Candidate where
  agentId := agentId
  advisoryId := ap.advisoryId
  name := ap.name
  fixedArch := ap.arch
  scheme := ap.scheme
  introduced := ap.introduced
  fixed := ap.fixed
  lastAffected := ap.lastAffected
  installed := pv.installed
  versionId := pv.id
  runningKernel := runningKernel

/-- `match_from`, restricted to the release's advisories. -/
def Db.matchFrom (db : Db) (osId osVersion : String) : List (AdvisoryPackage × PackageVersion) :=
  (db.advisories.rows.filter (Advisory.forRelease osId osVersion)).flatMap fun a =>
    (db.advisoryPackages.rows.filter fun ap => ap.advisoryId = a.advisoryId).flatMap fun ap =>
      (db.packageVersions.rows.filter ap.packageMatch).map fun pv => (ap, pv)

/-- The package versions linked to hosts that satisfy `p`, with the host. -/
def Db.installedOn (db : Db) (p : Agent → Bool) (pv : PackageVersion) : List Agent :=
  (db.hostPackages.rows.filter fun h => h.packageVersionId = pv.id).flatMap fun h =>
    db.agents.rows.filter fun g => g.agentId = h.agentId ∧ p g

/-- The candidates of these hosts of a release for an advisory package and a version. -/
def Db.onHosts (db : Db) (osId osVersion : String) (agents : List String) (x : AdvisoryPackage × PackageVersion) :
    List Candidate :=
  (db.installedOn (fun g => g.onRelease osId osVersion ∧ g.agentId ∈ agents) x.2).map fun g =>
    candidate g.agentId g.runningKernel x.1 x.2

/-- The candidates of these hosts of a release, for every advisory and package. -/
def allCandidates (db : Db) (osId osVersion : String) (agents : List String) : List Candidate :=
  (db.matchFrom osId osVersion).flatMap (db.onHosts osId osVersion agents)

/-- `candidates`: only for the (advisory, package) pairs given. -/
def candidates (db : Db) (osId osVersion : String) (agents : List String) (pairs : List (String × String)) :
    List Candidate :=
  ((db.matchFrom osId osVersion).filter fun x => (x.1.advisoryId, x.1.name) ∈ pairs).flatMap
    (db.onHosts osId osVersion agents)

/-- `version_candidates`: per package version that hosts on the release have, or only `agent`. -/
def versionCandidates (db : Db) (osId osVersion : String) : Option String → List Candidate
  | some agent =>
    (db.packageVersions.rows.filter fun pv =>
        (db.installedOn (fun g => g.onRelease osId osVersion ∧ g.agentId = agent) pv).length ≠ 0).flatMap fun pv =>
      (db.advisoryPackages.rows.filter fun ap => ap.packageMatch pv).flatMap fun ap =>
        (db.advisories.rows.filter fun a => a.advisoryId = ap.advisoryId ∧ a.forRelease osId osVersion).map fun _ =>
          candidate "" none ap pv
  | none =>
    ((db.matchFrom osId osVersion).filter fun (_, pv) =>
        (db.installedOn (Agent.onRelease osId osVersion) pv).length ≠ 0).map fun (ap, pv) => candidate "" none ap pv

/-- `release_hosts`: the hosts on a release, by agent id. -/
def releaseHosts (db : Db) (osId osVersion : String) : List String :=
  ((db.agents.rows.filter (Agent.onRelease osId osVersion)).map Agent.agentId).insertionSort
    fun a b => (compare a b).isLE

/-- `host_release`: a host's operating system as its last inventory reported it. -/
def hostRelease (db : Db) (agentId : String) : Option (String × String) := do
  let g ← db.agents.get? agentId
  return (← g.osId, ← g.osRelease)

/-- `hosts_needing_match`: hosts whose installed inventory has not been evaluated by
`version`. -/
def hostsNeedingMatch (db : Db) (version : ℕ) : List String :=
  ((db.agents.rows.filter fun g =>
      g.inventorySha256.isSome ∧ g.osId.isSome ∧ g.osVersion.isSome ∧ g.vulnerabilityMatchVersion < version).map
    Agent.agentId).insertionSort fun a b => (compare a b).isLE

def Agent.marked (version : ℕ) (g : Agent) : Agent := { g with vulnerabilityMatchVersion := version }

theorem agentId_marked (version : ℕ) (g : Agent) : (g.marked version).agentId = g.agentId := rfl

/-- `UPDATE agents SET vulnerability_match_version` of hosts that have an inventory. -/
def markMatched (db : Db) (p : Agent → Bool) (version : ℕ) : Db :=
  { db with
    agents := db.agents.updateWhere (fun g => p g ∧ g.inventorySha256.isSome) (Agent.marked version)
      (agentId_marked version) }

def markHostMatched (db : Db) (agentId : String) (version : ℕ) : Db :=
  markMatched db (fun g => g.agentId = agentId) version

def markReleaseMatched (db : Db) (osId osVersion : String) (version : ℕ) : Db :=
  markMatched db (Agent.onRelease osId osVersion) version

/-! ### The rows of the queries -/

variable {db : Db} {osId osVer : String} {pv : PackageVersion}

theorem mem_matchFrom {ap : AdvisoryPackage} : (ap, pv) ∈ db.matchFrom osId osVer ↔
      (∃ a ∈ db.advisories.rows, a.forRelease osId osVer ∧ ap.advisoryId = a.advisoryId) ∧
        ap ∈ db.advisoryPackages.rows ∧ pv ∈ db.packageVersions.rows ∧ ap.packageMatch pv := by
  simp only [Db.matchFrom, mem_flatMap, mem_filter, List.mem_map, decide_eq_true_eq, Prod.mk.injEq]
  constructor
  · rintro ⟨a, ⟨ha, hr⟩, _, ⟨hap, hid⟩, _, ⟨hpv, hm⟩, rfl, rfl⟩
    exact ⟨⟨a, ha, hr, hid⟩, hap, hpv, hm⟩
  · rintro ⟨⟨a, ha, hr, hid⟩, hap, hpv, hm⟩
    exact ⟨a, ⟨ha, hr⟩, ap, ⟨hap, hid⟩, pv, ⟨hpv, hm⟩, rfl, rfl⟩

theorem mem_installedOn {p : Agent → Bool} {g : Agent} :
    g ∈ db.installedOn p pv ↔ g ∈ db.agents.rows ∧ p g ∧ ⟨g.agentId, pv.id⟩ ∈ db.hostPackages.rows := by
  simp only [Db.installedOn, mem_flatMap, mem_filter, decide_eq_true_eq]
  constructor
  · rintro ⟨⟨_, _⟩, ⟨hh, rfl⟩, hg, rfl, hp⟩
    exact ⟨hg, hp, hh⟩
  · rintro ⟨hg, hp, hh⟩
    exact ⟨_, ⟨hh, rfl⟩, hg, rfl, hp⟩

variable {c : Candidate} {agents : List String}

theorem mem_allCandidates :
    c ∈ allCandidates db osId osVer agents ↔ ∃ ap pv g, (ap, pv) ∈ db.matchFrom osId osVer ∧
      g ∈ db.installedOn (fun g => g.onRelease osId osVer ∧ g.agentId ∈ agents) pv ∧
      c = candidate g.agentId g.runningKernel ap pv := by
  simp only [allCandidates, Db.onHosts, mem_flatMap, List.mem_map, Prod.exists]
  constructor
  · rintro ⟨ap, pv, hm, g, hg, rfl⟩
    exact ⟨ap, pv, g, hm, hg, rfl⟩
  · rintro ⟨ap, pv, g, hm, hg, rfl⟩
    exact ⟨ap, pv, hm, g, hg, rfl⟩

theorem candidates_eq_filter (db : Db) (osId osVer : String) (agents : List String)
    (pairs : List (String × String)) :
    candidates db osId osVer agents pairs =
      (allCandidates db osId osVer agents).filter fun c => (c.advisoryId, c.name) ∈ pairs := by
  have hpr : ∀ x, ∀ c ∈ db.onHosts osId osVer agents x, (c.advisoryId, c.name) = (x.1.advisoryId, x.1.name) := by
    intro x c hc
    obtain ⟨g, -, rfl⟩ := mem_map.mp hc
    rfl
  rw [candidates, allCandidates]
  induction db.matchFrom osId osVer with
  | nil => rfl
  | cons x xs ih =>
    rw [flatMap_cons, filter_append, ← ih]
    by_cases h : (x.1.advisoryId, x.1.name) ∈ pairs
    · have hall : ((db.onHosts osId osVer agents x).filter fun c => (c.advisoryId, c.name) ∈ pairs) =
          db.onHosts osId osVer agents x :=
        filter_eq_self.mpr fun c hc => by simpa [hpr x c hc] using h
      rw [filter_cons_of_pos (by simpa using h), flatMap_cons, hall]
    · have hnil : ((db.onHosts osId osVer agents x).filter fun c => (c.advisoryId, c.name) ∈ pairs) = [] :=
        filter_eq_nil_iff.mpr fun c hc => by simpa [hpr x c hc] using h
      rw [filter_cons_of_neg (by simpa using h), hnil, nil_append]

theorem mem_versionCandidates_none :
    c ∈ versionCandidates db osId osVer none ↔ ∃ ap pv g, (ap, pv) ∈ db.matchFrom osId osVer ∧
      g ∈ db.installedOn (Agent.onRelease osId osVer) pv ∧ c = candidate "" none ap pv := by
  simp only [versionCandidates, List.mem_map, mem_filter, Prod.exists, ne_eq, length_eq_zero_iff, decide_eq_true_eq]
  constructor
  · rintro ⟨ap, pv, ⟨hm, hne⟩, rfl⟩
    obtain ⟨g, hg⟩ := exists_mem_of_ne_nil _ hne
    exact ⟨ap, pv, g, hm, hg, rfl⟩
  · rintro ⟨ap, pv, g, hm, hg, rfl⟩
    exact ⟨ap, pv, ⟨hm, ne_nil_of_mem hg⟩, rfl⟩

variable {agent : String}

theorem mem_versionCandidates_some :
    c ∈ versionCandidates db osId osVer (some agent) ↔ ∃ ap pv g, (ap, pv) ∈ db.matchFrom osId osVer ∧
      g ∈ db.installedOn (fun g => g.onRelease osId osVer ∧ g.agentId = agent) pv ∧
      c = candidate "" none ap pv := by
  simp only [versionCandidates, mem_flatMap, List.mem_map, mem_filter, ne_eq, length_eq_zero_iff, decide_eq_true_eq]
  constructor
  · rintro ⟨pv, ⟨hpv, hne⟩, ap, ⟨hap, hm⟩, a, ⟨ha, hid, hr⟩, rfl⟩
    obtain ⟨g, hg⟩ := exists_mem_of_ne_nil _ hne
    exact ⟨ap, pv, g, mem_matchFrom.mpr ⟨⟨a, ha, hr, hid.symm⟩, hap, hpv, hm⟩, hg, rfl⟩
  · rintro ⟨ap, pv, g, hm, hg, rfl⟩
    obtain ⟨⟨a, ha, hr, hid⟩, hap, hpv, hm⟩ := mem_matchFrom.mp hm
    exact ⟨pv, ⟨hpv, ne_nil_of_mem hg⟩, ap, ⟨hap, hm⟩, a, ⟨ha, hid.symm, hr⟩, rfl⟩

theorem releaseHosts_nodup (db : Db) (osId osVer : String) : (releaseHosts db osId osVer).Nodup :=
  (perm_insertionSort _ _).nodup_iff.mpr (db.agents.nodup.sublist (filter_sublist.map _))

theorem releaseHosts_sorted (db : Db) (osId osVer : String) :
    (releaseHosts db osId osVer).Pairwise fun a b => compare a b = .lt := by
  have htot : Std.Total fun a b : String => (compare a b).isLE := ⟨fun a b => by
    have hsw : compare b a = (compare a b).swap := Std.OrientedCmp.eq_swap
    rw [hsw]
    cases compare a b <;> simp⟩
  have htrn : IsTrans String fun a b => (compare a b).isLE := ⟨fun a b c => Std.TransCmp.isLE_trans⟩
  refine ((pairwise_insertionSort _ _).and (releaseHosts_nodup db osId osVer)).imp ?_
  rintro a b ⟨hle, hne⟩
  cases hab : compare a b with
  | lt => rfl
  | eq => exact absurd (Std.LawfulEqCmp.eq_of_compare hab) hne
  | gt => simp [hab] at hle

/-- What decides about a version on its own: the range and the version. -/
def Candidate.perVersion (c : Candidate) : Candidate := { c with agentId := "", runningKernel := none }

/-- **Every candidate of a host has its version among the candidates per version**, of the
release. -/
theorem perVersion_mem_none (h : c ∈ allCandidates db osId osVer agents) :
    c.perVersion ∈ versionCandidates db osId osVer none := by
  obtain ⟨ap, pv, g, hm, hg, rfl⟩ := mem_allCandidates.mp h
  obtain ⟨hg, hp, hh⟩ := mem_installedOn.mp hg
  exact mem_versionCandidates_none.mpr ⟨ap, pv, g, hm, mem_installedOn.mpr ⟨hg, (of_decide_eq_true hp).1, hh⟩, rfl⟩

theorem perVersion_mem_some (h : c ∈ allCandidates db osId osVer [agent]) :
    c.perVersion ∈ versionCandidates db osId osVer (some agent) := by
  obtain ⟨ap, pv, g, hm, hg, rfl⟩ := mem_allCandidates.mp h
  refine mem_versionCandidates_some.mpr ⟨ap, pv, g, hm, ?_, rfl⟩
  simpa using hg

/-! ### What a host's candidates depend on -/

def unmarked (g : Agent) : Agent := g.marked 0

theorem hostRelease_eq_some_iff :
    hostRelease db agent = some (osId, osVer) ↔ ∃ g, db.agents.get? agent = some g ∧ g.onRelease osId osVer := by
  rw [hostRelease]
  cases db.agents.get? agent with
  | none => simp
  | some g =>
    simp only [bind_eq_bind, bind_some, some.injEq, exists_eq_left', Agent.onRelease, decide_eq_true_eq]
    cases g.osId <;> cases g.osRelease <;> simp

theorem mem_releaseHosts : agent ∈ releaseHosts db osId osVer ↔ hostRelease db agent = some (osId, osVer) := by
  rw [hostRelease_eq_some_iff, releaseHosts, mem_insertionSort]
  simp only [List.mem_map, mem_filter, Table.get?_eq_some_iff]
  constructor
  · rintro ⟨g, ⟨hg, hr⟩, rfl⟩
    exact ⟨g, ⟨hg, rfl⟩, hr⟩
  · rintro ⟨g, ⟨hg, rfl⟩, hr⟩
    exact ⟨g, ⟨hg, hr⟩, rfl⟩

theorem onHosts_singleton (db : Db) (osId osVer agent : String) (x : AdvisoryPackage × PackageVersion) :
    db.onHosts osId osVer [agent] x =
      ((db.hostPackages.rows.filter fun h => h.agentId = agent).filter fun h => h.packageVersionId = x.2.id).flatMap
        fun _ => ((db.agents.get? agent).filter (Agent.onRelease osId osVer)).toList.map fun g =>
          candidate g.agentId g.runningKernel x.1 x.2 := by
  have hown : ∀ k, (db.agents.rows.filter fun g =>
      g.agentId = k ∧ decide (g.onRelease osId osVer ∧ g.agentId ∈ [agent])) =
        if k = agent then ((db.agents.get? agent).filter (Agent.onRelease osId osVer)).toList else [] := by
    intro k
    split_ifs with hk
    · subst hk
      rw [← Table.filter_key]
      refine filter_congr fun g _ => ?_
      by_cases hg : g.agentId = k <;> simp [hg]
    · refine filter_eq_nil_iff.mpr fun g _ h => hk ?_
      simp only [mem_singleton, decide_eq_true_eq] at h
      exact h.1.symm.trans h.2.2
  rw [Db.onHosts, Db.installedOn, map_flatMap, List.filter_filter]
  simp only [hown]
  induction db.hostPackages.rows with
  | nil => rfl
  | cons h hs ih =>
    by_cases hv : h.packageVersionId = x.2.id <;> by_cases ha : h.agentId = agent <;> simp [hv, ha, ih]

/-- What a host's candidates are read from is the same in two stores. -/
structure SameHost (agent : String) (db db' : Db) : Prop where
  row : (db'.agents.get? agent).map unmarked = (db.agents.get? agent).map unmarked
  links : (db'.hostPackages.rows.filter fun h => h.agentId = agent) =
    db.hostPackages.rows.filter fun h => h.agentId = agent
  /-- Versions are only added, and the host has none of the new ones. -/
  versions : ∃ new, db'.packageVersions.rows = db.packageVersions.rows ++ new ∧
    ∀ h ∈ db.hostPackages.rows, h.agentId = agent → ∀ pv ∈ new, h.packageVersionId ≠ pv.id
  advisories : db'.advisories = db.advisories
  advisoryPackages : db'.advisoryPackages = db.advisoryPackages

variable {db' : Db}

section

variable (h : SameHost agent db db')

include h

theorem SameHost.hostRelease_eq : hostRelease db' agent = hostRelease db agent := by
  have hrel : ∀ db : Db, hostRelease db agent = ((db.agents.get? agent).map unmarked).bind fun g => do
      return (← g.osId, ← g.osRelease) := by
    intro db
    rw [hostRelease]
    cases db.agents.get? agent <;> rfl
  rw [hrel, hrel, h.row]

theorem SameHost.advisoryOf_eq (osId osVer advisory : String) :
    db'.advisoryOf osId osVer advisory = db.advisoryOf osId osVer advisory := by
  rw [Db.advisoryOf, Db.advisoryOf, h.advisories]

theorem SameHost.onHosts_eq (osId osVer : String) (x : AdvisoryPackage × PackageVersion) :
    db'.onHosts osId osVer [agent] x = db.onHosts osId osVer [agent] x := by
  have hrow : ∀ db : Db, (((db.agents.get? agent).filter (Agent.onRelease osId osVer)).toList.map fun g =>
      candidate g.agentId g.runningKernel x.1 x.2) =
        ((((db.agents.get? agent).map unmarked).filter (Agent.onRelease osId osVer)).toList.map fun g =>
          candidate g.agentId g.runningKernel x.1 x.2) := by
    intro db
    cases db.agents.get? agent with
    | none => rfl
    | some g =>
      have hr : (unmarked g).onRelease osId osVer = g.onRelease osId osVer := rfl
      rw [map_some, filter_some, filter_some, hr]
      split_ifs <;> rfl
  rw [onHosts_singleton, onHosts_singleton, h.links, hrow, hrow, h.row]

theorem SameHost.allCandidates_eq (osId osVer : String) :
    allCandidates db' osId osVer [agent] = allCandidates db osId osVer [agent] := by
  obtain ⟨new, hvr, hnew⟩ := h.versions
  -- The host is linked to none of the added versions, so they add no candidate.
  have hnn : ∀ ap, ∀ pv ∈ new, db.onHosts osId osVer [agent] (ap, pv) = [] := by
    intro ap pv hpv
    rw [onHosts_singleton, filter_eq_nil_iff.mpr, flatMap_nil]
    intro l hl
    obtain ⟨hl, ha⟩ := mem_filter.mp hl
    simpa using hnew l hl (of_decide_eq_true ha) pv hpv
  have honHosts : db'.onHosts osId osVer [agent] = db.onHosts osId osVer [agent] :=
    funext (h.onHosts_eq osId osVer)
  simp only [allCandidates, Db.matchFrom, honHosts, h.advisories, h.advisoryPackages, hvr, flatMap_assoc,
    filter_append, map_append, flatMap_append]
  refine flatMap_congr fun a _ => flatMap_congr fun ap _ => ?_
  have hemp : ((new.filter ap.packageMatch).map fun pv => (ap, pv)).flatMap (db.onHosts osId osVer [agent]) = [] := by
    refine flatMap_eq_nil_iff.mpr fun x hx => ?_
    obtain ⟨pv, hpv, rfl⟩ := mem_map.mp hx
    exact hnn ap pv (mem_of_mem_filter hpv)
  rw [hemp, append_nil]

end

end OpenVibes.Store
