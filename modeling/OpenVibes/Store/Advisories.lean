import OpenVibes.Store.Schema

/-!
# Storing advisories

`replace_advisories` of `crates/platform-store/src/vulns.rs`: of two package rows with the key of
`advisory_packages_key` the first is kept. Severity, title, times, link and CVEs are not modelled.
-/

namespace OpenVibes.Store

open Theory List Table

/-- `FixedRow`: a package an advisory affects, and the version range affected. -/
structure FixedRow where
  name : String
  /-- Architecture (`noarch` fixes every architecture; empty for source). -/
  arch : String
  scheme : Scheme
  matchOn : MatchOn
  /-- First affected version; `none` for every version before the fix. -/
  (introduced fixed lastAffected : Option String)
deriving DecidableEq

structure NewAdvisory where
  advisoryId : String
  packages : List FixedRow
deriving DecidableEq

def FixedRow.row (advisoryId : String) (p : FixedRow) : AdvisoryPackage :=
  ⟨advisoryId, p.name, p.arch, p.scheme, p.matchOn, p.introduced, p.fixed, p.lastAffected⟩

def NewAdvisory.rows (a : NewAdvisory) : List AdvisoryPackage := a.packages.map (FixedRow.row a.advisoryId)

/-- `ON CONFLICT (advisory_id) DO UPDATE`: the columns are replaced. -/
def Advisory.replace (old new : Advisory) : Advisory := { new with advisoryId := old.advisoryId }

theorem advisoryId_replace (old new : Advisory) : (old.replace new).advisoryId = old.advisoryId := rfl

/-- `replace_advisories`: advisories missing from the feed are kept. Returns the number
stored. -/
def replaceAdvisories (db : Db) (osId osVersion : String) (advisories : List NewAdvisory) :
    Except StoreError (Db × ℕ) :=
  match db.advisories.upsertAll Advisory.replace advisoryId_replace
      (advisories.map fun a => ⟨a.advisoryId, osId, osVersion⟩) with
  | none => .error .cardinalityViolation
  | some stored =>
    .ok ({ db with
      advisories := stored
      advisoryPackages :=
        (db.advisoryPackages.deleteWhere fun ap => ap.advisoryId ∈ advisories.map NewAdvisory.advisoryId).insertAllNew
          (advisories.flatMap NewAdvisory.rows) }, advisories.length)

/-! ### The rows afterwards -/

variable {advisories : List NewAdvisory} {db db' : Db} {osId osVer : String} {n : ℕ} {a : NewAdvisory}
  {ap : AdvisoryPackage}

theorem replaceAdvisories_ok (h : replaceAdvisories db osId osVer advisories = .ok (db', n)) :
    (advisories.map NewAdvisory.advisoryId).Nodup ∧ db'.advisoryPackages =
        (db.advisoryPackages.deleteWhere fun ap => ap.advisoryId ∈ advisories.map NewAdvisory.advisoryId).insertAllNew
          (advisories.flatMap NewAdvisory.rows) := by
  rw [replaceAdvisories, Table.upsertAll] at h
  by_cases hn : ((advisories.map fun a => (⟨a.advisoryId, osId, osVer⟩ : Advisory)).map Advisory.advisoryId).Nodup
  · simp only [if_pos hn] at h
    cases h
    rw [map_map] at hn
    exact ⟨hn, rfl⟩
  · simp only [if_neg hn] at h
    cases h

theorem find?_rows (hn : (advisories.map NewAdvisory.advisoryId).Nodup) (ha : a ∈ advisories)
    (hap : ap.advisoryId = a.advisoryId) :
    ((advisories.flatMap NewAdvisory.rows).find? fun r => r.key = ap.key) = a.rows.find? fun r => r.key = ap.key := by
  have hoth : ∀ bs : List NewAdvisory, a.advisoryId ∉ bs.map NewAdvisory.advisoryId →
      ((bs.flatMap NewAdvisory.rows).find? fun r => r.key = ap.key) = none := by
    intro bs hbs
    rw [find?_eq_none]
    intro r hr hk
    obtain ⟨b, hb, hr⟩ := mem_flatMap.mp hr
    obtain ⟨p, -, rfl⟩ := mem_map.mp hr
    have hid : b.advisoryId = ap.advisoryId := congrArg Prod.fst (of_decide_eq_true hk)
    exact hbs (mem_map.mpr ⟨b, hb, hid.trans hap⟩)
  obtain ⟨pre, post, rfl⟩ := append_of_mem ha
  simp only [map_append, map_cons, nodup_append, nodup_cons] at hn
  obtain ⟨-, ⟨hps, -⟩, hpre⟩ := hn
  rw [flatMap_append, flatMap_cons, find?_append, find?_append,
    hoth pre fun h => hpre _ h _ mem_cons_self rfl, hoth post hps]
  simp

/-- **The package rows of a stored advisory**: of its rows with one key, the first. -/
theorem mem_replaceAdvisories (h : replaceAdvisories db osId osVer advisories = .ok (db', n)) (ha : a ∈ advisories)
    (hap : ap.advisoryId = a.advisoryId) :
    ap ∈ db'.advisoryPackages.rows ↔ (a.rows.find? fun r => r.key = ap.key) = some ap := by
  obtain ⟨hn, hrw⟩ := replaceAdvisories_ok h
  have hgn : ((db.advisoryPackages.deleteWhere fun r => r.advisoryId ∈ advisories.map NewAdvisory.advisoryId).get?
      ap.key) = none := by
    rw [get?_deleteWhere, Option.filter_eq_none_iff]
    intro r hr
    have hid : r.advisoryId = ap.advisoryId := congrArg Prod.fst (key_of_get? hr)
    have hmem : r.advisoryId ∈ advisories.map NewAdvisory.advisoryId := mem_map.mpr ⟨a, ha, (hid.trans hap).symm⟩
    simp [hmem, -mem_map]
  have hiff : ap ∈ db'.advisoryPackages.rows ↔ db'.advisoryPackages.get? ap.key = some ap :=
    ⟨fun hm => get?_eq_some_iff.mpr ⟨hm, rfl⟩, fun hg => (get?_eq_some_iff.mp hg).1⟩
  rw [hiff, hrw, get?_insertAllNew, hgn, Option.none_or, find?_rows hn ha hap]

end OpenVibes.Store
