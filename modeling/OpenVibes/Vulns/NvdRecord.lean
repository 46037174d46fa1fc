import Mathlib
import OpenVibes.Rust.Json
import OpenVibes.Store.Schema

/-!
# What the platform keeps of NVD's records

`crates/openvibes-vulns/src/enrich/nvd.rs`: of a record the newest CVSS score, the weaknesses, the English description
and the time of the last change (`record`), and of its configurations the affected ranges of applications, with the
Fedora releases (`applicability`). How a time is read is a parameter.
-/

namespace OpenVibes.Vulns.Enrich

open Rust Store List Option

/-! ### Texts -/

/-- `is_cve`: `CVE-`, a four-digit year, 4 to 19 digits. -/
def isCve (id : String) : Bool :=
  match split '-' id with
  | [cve, year, number] =>
    cve = "CVE" && year.utf8ByteSize = 4 && year.toList.all Char.isDigit && 4 ≤ number.utf8ByteSize &&
      number.utf8ByteSize ≤ 19 && number.toList.all Char.isDigit
  | _ => false

def takeBytes : ℕ → List Char → List Char
  | _, [] => []
  | max, c :: cs => if c.utf8Size ≤ max then c :: takeBytes (max - c.utf8Size) cs else []

/-- `truncate`: the text cut to at most `max` bytes, before a character that does not fit. -/
def truncate (text : String) (max : ℕ) : String := String.ofList (takeBytes max text.toList)

theorem takeBytes_isPrefix (max : ℕ) (cs : List Char) : takeBytes max cs <+: cs := by
  induction cs generalizing max with
  | nil => exact prefix_rfl
  | cons c cs ih =>
    rw [takeBytes]
    split_ifs
    · exact (prefix_cons_inj c).mpr (ih _)
    · exact nil_prefix

theorem utf8Len_takeBytes_le (max : ℕ) (cs : List Char) : String.utf8Len (takeBytes max cs) ≤ max := by
  induction cs generalizing max with
  | nil => exact Nat.zero_le _
  | cons c cs ih =>
    rw [takeBytes]
    split_ifs with hft
    · rw [String.utf8Len_cons]
      have := ih (max - c.utf8Size)
      omega
    · exact Nat.zero_le _

@[simp] theorem toList_truncate (text : String) (max : ℕ) : (truncate text max).toList = takeBytes max text.toList :=
  String.toList_ofList

theorem utf8ByteSize_truncate_le (text : String) (max : ℕ) : (truncate text max).utf8ByteSize ≤ max := by
  rw [truncate, String.utf8ByteSize_ofList]
  exact utf8Len_takeBytes_le max text.toList

def stripStart (start text : String) : Option String :=
  if start.toList.isPrefixOf text.toList then some (String.ofList (text.toList.drop start.toList.length)) else none

/-! ### Scores, weaknesses and descriptions -/

def maxDescription : ℕ := 4096

def maxVector : ℕ := 512

/-- `CVSS`: metric keys, newest version first. -/
def cvssKeys : List (String × String) :=
  [("cvssMetricV40", "4.0"), ("cvssMetricV31", "3.1"), ("cvssMetricV30", "3.0"), ("cvssMetricV2", "2.0")]

structure Scored where
  score : F32
  (version vector : String)

def chosenMetric (metrics : Json) (key : String) : Option Json := do
  let value ← metrics.get? key
  let list ← value.asArray
  (list.find? fun m => (m.get "type").asStr = some "Primary").or list.head?

def baseScore (metric : Json) : Option F64 :=
  (((metric.get "cvssData").get "baseScore").asF64).filter fun s => 0 ≤ s ∧ s ≤ 10

/-- `cvss`: the newest CVSS version scored. -/
def cvss (metrics : Json) : Option Scored :=
  cvssKeys.findSome? fun x => do
    let metric ← chosenMetric metrics x.1
    let score ← baseScore metric
    return ⟨f32 score, x.2, truncate (((metric.get "cvssData").get "vectorString").asStr.getD "") maxVector⟩

def isCwe (v : String) : Bool :=
  match stripStart "CWE-" v with
  | some n => n ≠ "" && n.utf8ByteSize ≤ 9 && n.toList.all Char.isDigit
  | none => false

def cweNumber (v : String) : ℕ := Json.digitsValue (v.toList.drop 4)

/-- `Nvd`: what is kept of a CVE. -/
structure Nvd where
  cveId : String
  cvssScore : Option F32
  (cvssVersion cvssVector : Option String)
  cwe : List String
  description : Option String
  modifiedAt : Option Time
deriving DecidableEq

section

variable (parseTime : String → Option Time) (cve : Json)

def validId : Option String := (cve.get "id").asStr.filter isCve

def weaknesses : List String :=
  let named := (cve.get "weaknesses").items.flatMap fun w =>
    (w.get "description").items.filterMap fun d => (d.get "value").asStr.filter isCwe
  (named.mergeSort fun a b => cweNumber a ≤ cweNumber b).destutter (· ≠ ·)

def englishDescription : Option String := do
  let found ← (cve.get "descriptions").items.find? fun d => (d.get "lang").asStr = some "en"
  let text ← (found.get "value").asStr
  return truncate text maxDescription

def record : Option Nvd := do
  let cveId ← validId cve
  let scored := cvss (cve.get "metrics")
  return {
    cveId
    cvssScore := scored.map Scored.score
    cvssVersion := scored.map Scored.version
    cvssVector := scored.map Scored.vector
    cwe := weaknesses cve
    description := englishDescription cve
    modifiedAt := (cve.get "lastModified").asStr.bind parseTime }

end

/-! ### Affected ranges -/

/-- `Applicability`, with the score. -/
structure Applicability extends Store.Applicability where
  cvss : Option F32
deriving DecidableEq

/-- `cpe_version`: the version a CPE name spells; an update joins it. -/
def cpeVersion (version update : String) : Option String :=
  if version = "*" ∨ version = "-" ∨ version = "" then none
  else if update = "*" ∨ update = "-" ∨ update = "" then some version
  else some (version ++ update)

/-- `range_row`: one affected application range. With no bounds, the name's own version is an exact one. -/
def rangeRow (cveId : String) (cvss : Option F32) (criteria : String)
    (startIncluding endExcluding endIncluding : Option String) : Option Applicability :=
  match split ':' criteria with
  | _ :: _ :: part :: vendor :: product :: version :: update :: _ =>
    if part ≠ "a" then none
    else
      let text := fun value : Option String => value.map fun v => truncate v 64
      let row := fun introduced fixed lastAffected : Option String =>
        (⟨⟨cveId, truncate (toAsciiLowercase vendor) 64, truncate (toAsciiLowercase product) 64, introduced, fixed,
          lastAffected, []⟩, cvss⟩ : Applicability)
      if startIncluding = none ∧ endExcluding = none ∧ endIncluding = none then
        (cpeVersion version update).map fun version => row (some version) none (some version)
      else some (row (text startIncluding) (text endExcluding) (text endIncluding))
  | _ => none

/-- `RawMatch`: one `cpeMatch` entry the platform keeps. -/
structure RawMatch where
  criteria : String
  (startIncluding endExcluding endIncluding : Option String)

/-- `MAX_OS`: most operating systems one record lists. -/
def maxOs : ℕ := 256

/-- `os_ok`: `vendor:product:version`, each part 1 to 64 characters of some. -/
def osOk (entry : String) : Bool :=
  let parts := split ':' entry
  parts.length = 3 && parts.all fun p =>
    1 ≤ p.utf8ByteSize && p.utf8ByteSize ≤ 64 &&
      p.toList.all fun c => ('a' ≤ c && c ≤ 'z') || c.isDigit || ['.', '_', '~', '+', '-'].contains c

def fedoraStart : String := "fedoraproject:fedora:"

/-- `fedora_releases`: the Fedora releases among operating systems. -/
def fedoraReleases (os : List String) : List String := os.filterMap (stripStart fedoraStart)

inductive Kept where
  | system (name : String)
  | range (m : RawMatch)

def Kept.system? : Kept → Option String
  | .system name => some name
  | .range _ => none

def Kept.range? : Kept → Option RawMatch
  | .system _ => none
  | .range m => some m

/-- A turn of the loop of `kept_matches`. Of `AND` configurations only the platforms are kept. -/
def keptMatch (and : Bool) (node found : Json) : Option Kept :=
  match (found.get "criteria").asStr with
  | none => none
  | some criteria =>
    match split ':' criteria with
    | _ :: _ :: part :: vendor :: product :: version :: update :: _ =>
      if !(found.get "vulnerable").isTrue then none
      else if part = "o" then
        (cpeVersion version update).bind fun version =>
          let name := toAsciiLowercase (vendor ++ ":" ++ product ++ ":" ++ version)
          if osOk name then some (.system name) else none
      else if part ≠ "a" ∨ and ∨ (node.get "operator").asStr ≠ some "OR" ∨ (node.get "negate").isTrue then none
      else if (found.get "versionStartExcluding").asStr.isSome then none
      else
        some (.range ⟨criteria, (found.get "versionStartIncluding").asStr, (found.get "versionEndExcluding").asStr,
          (found.get "versionEndIncluding").asStr⟩)
    | _ => none

def allKept (cve : Json) : List Kept :=
  (cve.get "configurations").items.flatMap fun config =>
    (config.get "nodes").items.flatMap fun node =>
      (node.get "cpeMatch").items.filterMap (keptMatch ((config.get "operator").asStr = some "AND") node)

/-- `kept_matches`: the application matches and the affected operating systems. -/
def keptMatches (cve : Json) : List RawMatch × List String :=
  if (cve.get "vulnStatus").asStr = some "Rejected" then ([], [])
  else
    let kept := allKept cve
    (kept.filterMap Kept.range?, ((kept.filterMap Kept.system?).mergeSort fun a b => a ≤ b).destutter (· ≠ ·))

/-- `applicability`: the affected application ranges of one record. -/
def applicability (cve : Json) : List Applicability :=
  match validId cve with
  | none => []
  | some cveId =>
    let score := (cvss (cve.get "metrics")).map Scored.score
    let kept := keptMatches cve
    kept.1.filterMap fun m =>
      (rangeRow cveId score m.criteria m.startIncluding m.endExcluding m.endIncluding).map fun row =>
        { row with fedora := fedoraReleases kept.2 }

/-! ### A page -/

inductive ParseError where
  | tooLarge
  | malformed
deriving DecidableEq

/-- `NvdPage`: one page of an NVD response. -/
structure NvdPage where
  (total start count : ℕ)
  entries : List Nvd
  applicability : List Applicability

variable {cve : Json} {name : String}

theorem isCwe_of_mem_weaknesses {c : String} (h : c ∈ weaknesses cve) : isCwe c = true := by
  have hc := mem_mergeSort.mp ((destutter_sublist _ _).subset h)
  obtain ⟨w, -, hw⟩ := mem_flatMap.mp hc
  obtain ⟨d, -, hd⟩ := mem_filterMap.mp hw
  exact (filter_eq_some_iff.mp hd).2

theorem utf8ByteSize_englishDescription_le {d : String} (h : englishDescription cve = some d) :
    d.utf8ByteSize ≤ maxDescription := by
  obtain ⟨found, -, h⟩ := bind_eq_some_iff.mp h
  obtain ⟨text, -, h⟩ := bind_eq_some_iff.mp h
  cases h
  exact utf8ByteSize_truncate_le text maxDescription

theorem cvss_eq_some {metrics : Json} {s : Scored} (h : cvss metrics = some s) :
    s.vector.utf8ByteSize ≤ maxVector ∧ s.version ∈ cvssKeys.map Prod.snd ∧
      ∃ x ∈ cvssKeys, ∃ metric score, chosenMetric metrics x.1 = some metric ∧ baseScore metric = some score ∧
        s.score = f32 score := by
  obtain ⟨x, hx, h⟩ := exists_of_findSome?_eq_some h
  obtain ⟨metric, hmet, h⟩ := bind_eq_some_iff.mp h
  obtain ⟨score, hscr, h⟩ := bind_eq_some_iff.mp h
  cases h
  exact ⟨utf8ByteSize_truncate_le _ _, List.mem_map_of_mem hx, x, hx, metric, score, hmet, hscr, rfl⟩

theorem osOk_of_keptMatch {and : Bool} {node found : Json}
    (h : keptMatch and node found = some (.system name)) : osOk name = true := by
  rw [keptMatch] at h
  split at h
  · cases h
  split at h
  · split_ifs at h
    · obtain ⟨version, -, h⟩ := bind_eq_some_iff.mp h
      dsimp only at h
      split_ifs at h with hok
      obtain rfl := Kept.system.inj (some.inj h)
      exact hok
    · cases h
  · cases h

theorem osOk_of_mem_keptMatches (h : name ∈ (keptMatches cve).2) : osOk name = true := by
  rw [keptMatches] at h
  split_ifs at h
  · cases h
  have hnm := mem_mergeSort.mp ((destutter_sublist _ _).subset h)
  obtain ⟨kept, hkp, hsys⟩ := mem_filterMap.mp hnm
  obtain ⟨config, -, hkp⟩ := mem_flatMap.mp hkp
  obtain ⟨node, -, hkp⟩ := mem_flatMap.mp hkp
  obtain ⟨found, -, hfnd⟩ := mem_filterMap.mp hkp
  cases kept with
  | system name' =>
    cases hsys
    exact osOk_of_keptMatch hfnd
  | range m => cases hsys

end OpenVibes.Vulns.Enrich
