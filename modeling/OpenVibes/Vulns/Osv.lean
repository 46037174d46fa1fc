import OpenVibes.Rust.Json
import OpenVibes.Store.Advisories
import OpenVibes.Vulns.Matching

/-!
# OSV records

`crates/openvibes-vulns/src/osv.rs`: one OSV.dev record becomes one advisory per release
it affects. `parse` reads the record, folding the events of each `ECOSYSTEM` range into
ranges of versions (`ranges`), and `advisory` makes a package row of every range of the
entries for the release; `replaceAdvisories` then stores the rows.
-/

namespace OpenVibes.Vulns

open Rust Store List

/-! ### The program -/

/-- The distributions OSV publishes for: os-release `ID`. -/
inductive Distribution where
  | rocky
  | almalinux
  | debian
  | ubuntu
deriving DecidableEq

def Distribution.osId : Distribution → String
  | .rocky => "rocky"
  | .almalinux => "almalinux"
  | .debian => "debian"
  | .ubuntu => "ubuntu"

/-- A distribution release OSV publishes for, e.g. `debian-12`. -/
structure Release where
  distribution : Distribution
  /-- The release as advisories name it: `9`, `12`, `24.04`. -/
  version : String
deriving DecidableEq

/-- `Release::name`, e.g. `debian-12`. -/
def Release.name (r : Release) : String := r.distribution.osId ++ "-" ++ r.version

/-- `Release::ecosystem`: the OSV directory of the distribution. -/
def Release.ecosystem (r : Release) : String :=
  match r.distribution with
  | .rocky => "Rocky Linux"
  | .almalinux => "AlmaLinux"
  | .debian => "Debian"
  | .ubuntu => "Ubuntu"

def releaseDigits (s : List Char) : Bool := s ≠ [] ∧ s.length ≤ 4 ∧ s.all Char.isDigit

def isUbuntuVersion (v : List Char) : Bool :=
  match splitOnce '.' v with
  | some (y, m) => releaseDigits y && m.length = 2 && releaseDigits m
  | none => false

/-- `Release::from_str`. -/
def Release.parse (value : String) : Except String Release :=
  match splitOnce '-' value.toList with
  | some (os, v) =>
    if os = "rocky".toList ∧ releaseDigits v then .ok ⟨.rocky, String.ofList v⟩
    else if os = "almalinux".toList ∧ releaseDigits v then .ok ⟨.almalinux, String.ofList v⟩
    else if os = "debian".toList ∧ releaseDigits v then .ok ⟨.debian, String.ofList v⟩
    else if os = "ubuntu".toList ∧ isUbuntuVersion v then .ok ⟨.ubuntu, String.ofList v⟩
    else .error "use rocky-N, almalinux-N, debian-N, or ubuntu-YY.MM"
  | none => .error "use rocky-N, almalinux-N, debian-N, or ubuntu-YY.MM"

/-- `Release::accepts`: the record kind each distribution publishes its vulnerabilities as. -/
def Release.accepts (r : Release) (id : String) : Bool :=
  let start :=
    match r.distribution with
    | .rocky => "RLSA-"
    | .almalinux => "ALSA-"
    | .debian => "DEBIAN-CVE-"
    | .ubuntu => "UBUNTU-CVE-"
  (asBytes start).isPrefixOf (asBytes id)

/-- `Release::is`: whether an `affected[].package.ecosystem` is this release. -/
def Release.isEcosystem (r : Release) (ecosystem : String) : Bool :=
  match r.distribution with
  | .rocky => ecosystem = "Rocky Linux:" ++ r.version
  | .almalinux => ecosystem = "AlmaLinux:" ++ r.version
  | .debian => ecosystem = "Debian:" ++ r.version
  | .ubuntu => ecosystem = "Ubuntu:" ++ r.version ∨ ecosystem = "Ubuntu:" ++ r.version ++ ":LTS"

/-- An affected range: (introduced, fixed, last_affected). -/
structure Span where
  (introduced fixed lastAffected : Option String)
deriving DecidableEq

structure Affected where
  (ecosystem name : String)
  ignored : Bool
  ranges : List Span
deriving DecidableEq

structure Record where
  id : String
  affected : List Affected
deriving DecidableEq

/-- The state of the loop over a range's events: the ranges so far, and the start of the
open one. -/
structure EventState where
  out : List Span
  started : Option (Option String)

def EventState.add (s : EventState) (event : Json) : EventState :=
  match (event.get "introduced").asStr with
  | some introduced =>
    { out := match s.started with
        | some start => s.out ++ [⟨start, none, none⟩]
        | none => s.out
      started := some (if introduced ≠ "0" then some introduced else none) }
  | none =>
    match (event.get "fixed").asStr with
    | some fixed => ⟨s.out ++ [⟨s.started.join, some fixed, none⟩], none⟩
    | none =>
      match (event.get "last_affected").asStr with
      | some last => ⟨s.out ++ [⟨s.started.join, none, some last⟩], none⟩
      | none => s

/-- The ranges of one `ECOSYSTEM` range: a range still open at the end has no end. -/
def spansOf (range : Json) : List Span :=
  let s := ((range.get "events").asArray.getD []).foldl EventState.add ⟨[], none⟩
  match s.started with
  | some start => s.out ++ [⟨start, none, none⟩]
  | none => s.out

/-- `ranges`: `ECOSYSTEM` range events as ranges; an introduced `0` means from the start. -/
def ranges (rs : List Json) : List Span :=
  (rs.filter fun r => (r.get "type").asStr = some "ECOSYSTEM").flatMap spansOf

/-- A severity word that means no security problem in practice. -/
def negligible (word : Option String) : Bool :=
  word.any fun w => toAsciiLowercase (trim w) ∈ ["unimportant", "negligible"]

/-- An entry of `affected`, if it names an ecosystem and a package. -/
def parseAffected (recordIgnored : Bool) (a : Json) : Option Affected := do
  let ecosystem ← ((a.get "package").get "ecosystem").asStr
  let name ← ((a.get "package").get "name").asStr
  if name = "" then none
  else some {
    ecosystem
    name
    ignored := recordIgnored || negligible ((a.get "ecosystem_specific").get "urgency").asStr
    ranges := ranges ((a.get "ranges").asArray.getD []) }

/-- A defaulted field of `RawRecord` that is an array, or absent. -/
def arrayField (raw : Json) (key : String) : Option (List Json) :=
  match raw.get? key with
  | none => some []
  | some v => v.asArray

/-- `parse`: the parts of a record that decide about packages. `none` is `Malformed`. -/
def parse (raw : Json) : Option Record := do
  let id ← (raw.get "id").asStr
  let severity ← arrayField raw "severity"
  let affected ← arrayField raw "affected"
  if id = "" ∨ 128 < (asBytes id).length then none
  else
    let ubuntuWord := (severity.find? fun s => (s.get "type").asStr = some "Ubuntu").bind fun s => (s.get "score").asStr
    some ⟨id, affected.filterMap (parseAffected (negligible ubuntuWord))⟩

/-- How versions compare, and what packages are named: AlmaLinux names binaries, the others sources. -/
def Distribution.scheme : Distribution → Scheme × MatchOn
  | .debian => (.dpkg, .source)
  | .ubuntu => (.dpkg, .source)
  | .rocky => (.rpm, .source)
  | .almalinux => (.rpm, .binary)

def Release.fixedRow (r : Release) (name : String) (s : Span) : FixedRow :=
  ⟨name, "", r.distribution.scheme.1, r.distribution.scheme.2, s.introduced, s.fixed, s.lastAffected⟩

/-- `advisory`: what a record makes for one release (`ID/release`); `none` when it affects nothing there, is not the
distribution's own kind, or is unimportant. -/
def advisory (record : Record) (release : Release) : Option NewAdvisory :=
  if release.accepts record.id then
    let mine := record.affected.filter fun a => release.isEcosystem a.ecosystem && !a.ignored
    let packages := mine.flatMap fun a => a.ranges.map (release.fixedRow a.name)
    if packages.isEmpty then none else some ⟨record.id ++ "/" ++ release.name, packages⟩
  else none

/-! ### Ranges, derived and stored -/

def rowContains (p : FixedRow) (version : String) : Bool :=
  inSpan p.scheme p.introduced p.fixed p.lastAffected version

/-- The version is in a range of a stored row of the advisory's package, as `in_range` decides. -/
def StoredIn (db : Db) (advisoryId name version : String) : Prop :=
  ∃ ap ∈ db.advisoryPackages.rows, ap.advisoryId = advisoryId ∧ ap.name = name ∧
    ∀ agentId runningKernel pv, inRange (candidate agentId runningKernel ap pv) version

/-- The version is in a range `ranges` derived from the record's entries that are not ignored. -/
def DerivedIn (record : Record) (release : Release) (name version : String) : Prop :=
  ∃ a ∈ record.affected, release.isEcosystem a.ecosystem ∧ a.ignored = false ∧ a.name = name ∧
    ∃ s ∈ a.ranges, inSpan release.distribution.scheme.1 s.introduced s.fixed s.lastAffected version

/-- The row is the first of its package with its start; no start, and an empty one, are the same. -/
def FirstOfStart (packages : List FixedRow) (p : FixedRow) : Prop :=
  (packages.find? fun q => q.name = p.name ∧ q.introduced.getD "" = p.introduced.getD "") = some p

instance (packages : List FixedRow) (p : FixedRow) : Decidable (FirstOfStart packages p) :=
  inferInstanceAs (Decidable (_ = some p))

variable {record : Record} {release : Release} {adv : NewAdvisory}

section

variable (h : advisory record release = some adv)

include h

theorem advisory_eq_some :
    adv.packages = (record.affected.filter fun a => release.isEcosystem a.ecosystem && !a.ignored).flatMap fun a =>
      a.ranges.map (release.fixedRow a.name) := by
  unfold advisory at h
  simp only at h
  split_ifs at h
  exact (Option.some.inj h) ▸ rfl

theorem mem_packages {p : FixedRow} :
    p ∈ adv.packages ↔ ∃ a ∈ record.affected, (release.isEcosystem a.ecosystem ∧ a.ignored = false) ∧
      ∃ s ∈ a.ranges, release.fixedRow a.name s = p := by
  rw [advisory_eq_some h]
  simp only [mem_flatMap, mem_filter, mem_map, Bool.and_eq_true, Bool.not_eq_true', and_assoc]

theorem derivedIn_iff (name ver : String) :
    DerivedIn record release name ver ↔ ∃ p ∈ adv.packages, p.name = name ∧ rowContains p ver := by
  constructor
  · rintro ⟨a, ha, he, hi, rfl, s, hs, hv⟩
    exact ⟨_, (mem_packages h).mpr ⟨a, ha, ⟨he, hi⟩, s, hs, rfl⟩, rfl, hv⟩
  · rintro ⟨p, hp, rfl, hv⟩
    obtain ⟨a, ha, ⟨he, hi⟩, s, hs, rfl⟩ := (mem_packages h).mp hp
    exact ⟨a, ha, he, hi, rfl, s, hs, hv⟩

/-- Rows of one record for one release differ in name and range only. -/
theorem key_row_eq_iff {p q : FixedRow} (hp : p ∈ adv.packages) (hq : q ∈ adv.packages) :
    (q.row adv.advisoryId).key = (p.row adv.advisoryId).key ↔
      q.name = p.name ∧ q.introduced.getD "" = p.introduced.getD "" := by
  obtain ⟨a, -, -, s, -, rfl⟩ := (mem_packages h).mp hp
  obtain ⟨b, -, -, t, -, rfl⟩ := (mem_packages h).mp hq
  simp [FixedRow.row, AdvisoryPackage.key, Release.fixedRow]

theorem storedIn_iff {db db' : Db} {osId osVer : String}
    {advisories : List NewAdvisory} {n : ℕ} (hs : replaceAdvisories db osId osVer advisories = .ok (db', n))
    (ha : adv ∈ advisories) (name ver : String) :
    StoredIn db' adv.advisoryId name ver ↔
      ∃ p ∈ adv.packages, FirstOfStart adv.packages p ∧ p.name = name ∧ rowContains p ver := by
  have hfi : ∀ p ∈ adv.packages, (adv.rows.find? fun r => r.key = (p.row adv.advisoryId).key) =
      (adv.packages.find? fun q => q.name = p.name ∧ q.introduced.getD "" = p.introduced.getD "").map
        (FixedRow.row adv.advisoryId) := by
    intro p hp
    rw [NewAdvisory.rows, find?_map]
    congr 1
    refine find?_congr fun q hq => ?_
    simp [key_row_eq_iff h hp hq]
  have hinj : Function.Injective (FixedRow.row adv.advisoryId) := fun p q hpq => by
    cases p
    cases q
    simpa [FixedRow.row] using hpq
  constructor
  · rintro ⟨ap, hap, hid, rfl, hv⟩
    have hmem := (mem_replaceAdvisories hs ha hid).mp hap
    obtain ⟨p, hp, rfl⟩ := mem_map.mp (mem_of_find?_eq_some hmem)
    rw [hfi p hp] at hmem
    obtain ⟨q, hq, heq⟩ := Option.map_eq_some_iff.mp hmem
    refine ⟨p, hp, ?_, rfl, hv "" none ⟨0, "", "", 0, "", "", "", none, none⟩⟩
    rw [FirstOfStart, hq, hinj heq]
  · rintro ⟨p, hp, hfst, rfl, hv⟩
    refine ⟨p.row adv.advisoryId, (mem_replaceAdvisories hs ha rfl).mpr ?_, rfl, rfl, fun _ _ _ => hv⟩
    rw [hfi p hp, show _ = some p from hfst, Option.map_some]

end

/-- **When OSV ranges survive being stored**: a version is in a stored range exactly when it is in a derived one —
unless it is in a range that is not the first of the package with its start, and in no range that is. -/
theorem osv_ranges_kept_iff {record : Record} {release : Release} {adv : NewAdvisory}
    (h : advisory record release = some adv) {db db' : Db} {osId osVer : String} {advisories : List NewAdvisory}
    {n : ℕ} (hs : replaceAdvisories db osId osVer advisories = .ok (db', n)) (ha : adv ∈ advisories)
    (name ver : String) :
    (StoredIn db' adv.advisoryId name ver ↔ DerivedIn record release name ver) ↔
      ∀ p ∈ adv.packages, p.name = name → ¬ FirstOfStart adv.packages p → rowContains p ver →
        ∃ q ∈ adv.packages, FirstOfStart adv.packages q ∧ q.name = name ∧ rowContains q ver := by
  rw [storedIn_iff h hs ha, derivedIn_iff h]
  constructor
  · intro hiff p hp hnm _ hv
    exact hiff.mpr ⟨p, hp, hnm, hv⟩
  intro hcd
  constructor
  · rintro ⟨p, hp, -, hnm, hv⟩
    exact ⟨p, hp, hnm, hv⟩
  rintro ⟨p, hp, hnm, hv⟩
  by_cases hfst : FirstOfStart adv.packages p
  · exact ⟨p, hp, hfst, hnm, hv⟩
  · exact hcd p hp hnm hfst hv

/-- A record that spells one Ubuntu release in two ways, with two fixes. -/
def twoSpellings : Json :=
  let entry := fun ecosystem fixed : String => Json.obj
    [("package", .obj [("ecosystem", .str ecosystem), ("name", .str "openssl")]),
     ("ranges", .arr [.obj [("type", .str "ECOSYSTEM"),
       ("events", .arr [.obj [("introduced", .str "0")], .obj [("fixed", .str fixed)]])]])]
  .obj [("id", .str "UBUNTU-CVE-2025-1"),
    ("affected", .arr [entry "Ubuntu:24.04:LTS" "3.0.13-1", entry "Ubuntu:24.04" "3.0.13-3"])]

/-- `ubuntu-24.04`. -/
def noble : Release := ⟨.ubuntu, "24.04"⟩

def twoSpellingsRecord : Record :=
  ⟨"UBUNTU-CVE-2025-1", [⟨"Ubuntu:24.04:LTS", "openssl", false, [⟨none, some "3.0.13-1", none⟩]⟩,
    ⟨"Ubuntu:24.04", "openssl", false, [⟨none, some "3.0.13-3", none⟩]⟩]⟩

def twoSpellingsAdvisory : NewAdvisory :=
  ⟨"UBUNTU-CVE-2025-1/ubuntu-24.04", [⟨"openssl", "", .dpkg, .source, none, some "3.0.13-1", none⟩,
    ⟨"openssl", "", .dpkg, .source, none, some "3.0.13-3", none⟩]⟩

/-- A version between the two fixes is in a derived range, and in no stored one. -/
theorem osv_range_dropped :
    parse twoSpellings = some twoSpellingsRecord ∧
    advisory twoSpellingsRecord noble = some twoSpellingsAdvisory ∧
    DerivedIn twoSpellingsRecord noble "openssl" "3.0.13-2" ∧
    ∃ db, replaceAdvisories Db.empty "ubuntu" "24.04" [twoSpellingsAdvisory] = .ok (db, 1) ∧
      ¬ StoredIn db "UBUNTU-CVE-2025-1/ubuntu-24.04" "openssl" "3.0.13-2" := by
  have hadv : advisory twoSpellingsRecord noble = some twoSpellingsAdvisory := by decide
  obtain ⟨db, hs⟩ : ∃ db, replaceAdvisories Db.empty "ubuntu" "24.04" [twoSpellingsAdvisory] = .ok (db, 1) := ⟨_, rfl⟩
  refine ⟨by decide, hadv, (derivedIn_iff hadv _ _).mpr (by decide), db, hs, fun hsto => ?_⟩
  exact absurd ((storedIn_iff hadv hs mem_cons_self _ _).mp hsto) (by decide)

/-- A version before both fixes is in a derived range and in a stored one. -/
theorem osv_ranges_kept_below :
    ∃ db, replaceAdvisories Db.empty "ubuntu" "24.04" [twoSpellingsAdvisory] = .ok (db, 1) ∧
      (StoredIn db "UBUNTU-CVE-2025-1/ubuntu-24.04" "openssl" "3.0.12-1" ↔
        DerivedIn twoSpellingsRecord noble "openssl" "3.0.12-1") := by
  have hadv : advisory twoSpellingsRecord noble = some twoSpellingsAdvisory := by decide
  obtain ⟨db, hs⟩ : ∃ db, replaceAdvisories Db.empty "ubuntu" "24.04" [twoSpellingsAdvisory] = .ok (db, 1) := ⟨_, rfl⟩
  exact ⟨db, hs, (osv_ranges_kept_iff hadv hs mem_cons_self "openssl" "3.0.12-1").mpr (by decide)⟩

end OpenVibes.Vulns
