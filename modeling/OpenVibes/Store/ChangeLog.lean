import OpenVibes.Store.Fingerprint
import OpenVibes.Theory.Compare

/-!
# The change log of packages

`package_diff` of `crates/platform-store/src/change_log.rs`: `replace` compares the stored rows with the reported ones,
`apply_changes` the removed rows with the added ones. Rows that differ only in their source are one package of the log,
and a change set that touches one of two such rows is logged as if the other were not there.
-/

namespace OpenVibes.Store.ChangeLog

open Theory List

/-- `Change`, as far as packages have it. -/
inductive Change where
  | appeared
  | wentAway
deriving DecidableEq

structure Detail where
  (manager version arch : String)
deriving DecidableEq

/-- `Event`: one difference to write. -/
structure Event where
  key : String
  change : Change
  detail : Option Detail
deriving DecidableEq

/-- `package_version`: as the log tells it. -/
def packageVersion (p : PackageRow) : String :=
  toString p.epoch ++ ":" ++ p.version ++ if p.release = "" then "" else "-" ++ p.release

/-- `PackageId`: one per name, manager, version and architecture. -/
abbrev PackageId := String × String × String × String

def logId (p : PackageRow) : PackageId := (p.name, p.manager, packageVersion p, p.arch)

abbrev PackageIds := Std.TreeSet PackageId (cmpProd compare (cmpProd compare (cmpProd compare compare)))

def packageIds (rows : List PackageRow) : PackageIds := Std.TreeSet.ofList (rows.map logId) _

def difference (a b : PackageIds) : List PackageId := a.toList.filter fun id => !b.contains id

def packageEvent (change : Change) (id : PackageId) : Event := ⟨id.1, change, some ⟨id.2.1, id.2.2.1, id.2.2.2⟩⟩

/-- `package_diff`: what appeared, and what went away. -/
def packageDiff (old new : List PackageRow) : List Event :=
  (difference (packageIds new) (packageIds old)).map (packageEvent .appeared) ++
    (difference (packageIds old) (packageIds new)).map (packageEvent .wentAway)

/-- What `replace` writes. A host's first report is its baseline. -/
def replaceLog (db : Db) (agentId : String) (packages : List PackageRow) (sha256 : Sha256) : List Event :=
  match db.agents.get? agentId with
  | none => []
  | some g =>
    if g.inventorySha256 = some sha256 ∨ g.inventorySha256 = none then [] else packageDiff
      (storedRows db agentId) packages

def changesLog (fingerprint : Fingerprint) (db : Db) (agentId osId osVersion : String) (runningKernel : Option String)
    (added removed : List PackageRow) (base expected : Sha256) : List Event :=
  match applyChanges fingerprint db agentId osId osVersion runningKernel added removed base expected with
  | .ok (_, .stored) => packageDiff removed added
  | _ => []

/-! ### The differences -/

theorem mem_difference {old new : List PackageRow} {id : PackageId} :
    id ∈ difference (packageIds new) (packageIds old) ↔ id ∈ new.map logId ∧ id ∉ old.map logId := by
  simp [difference, packageIds]

theorem packageEvent_inj {change change' : Change} {id id' : PackageId} :
    packageEvent change id = packageEvent change' id' ↔ change = change' ∧ id = id' := by
  obtain ⟨name, manager, version, arch⟩ := id
  obtain ⟨name', manager', version', arch'⟩ := id'
  simp only [packageEvent, Event.mk.injEq, Option.some.injEq, Detail.mk.injEq, Prod.mk.injEq]
  tauto

/-- **Two differences are the same events**, if the same packages appear and go away. -/
theorem packageDiff_same_iff {old new old' new' : List PackageRow} :
    (∀ e, e ∈ packageDiff old new ↔ e ∈ packageDiff old' new') ↔
      ∀ id, (id ∈ difference (packageIds new) (packageIds old) ↔ id ∈ difference (packageIds new') (packageIds old')) ∧
        (id ∈ difference (packageIds old) (packageIds new) ↔ id ∈ difference (packageIds old') (packageIds new')) := by
  have happ : ∀ {old new : List PackageRow} {id}, packageEvent .appeared id ∈ packageDiff old new ↔
      id ∈ difference (packageIds new) (packageIds old) := by
    simp [packageDiff, packageEvent_inj]
  have hwn : ∀ {old new : List PackageRow} {id}, packageEvent .wentAway id ∈ packageDiff old new ↔
      id ∈ difference (packageIds old) (packageIds new) := by
    simp [packageDiff, packageEvent_inj]
  constructor
  · intro h id
    exact ⟨happ.symm.trans ((h _).trans happ), hwn.symm.trans ((h _).trans hwn)⟩
  · intro h e
    simp only [packageDiff, mem_append, mem_map, h]

/-! ### The two ways to store an inventory -/

variable {fp : Fingerprint} {db db' : Db} {agentId osId osVer : String} {runningKernel : Option String}
  {added removed packages : List PackageRow} {base expected sha256 : Sha256}

theorem accepted_of_stored
    (h : applyChanges fp db agentId osId osVer runningKernel added removed base expected = .ok (db', .stored)) :
    (∃ g, db.agents.get? agentId = some g ∧ g.inventorySha256 = some base) ∧
      ∀ r ∈ removed, r ∈ storedRows db agentId := by
  rw [applyChanges] at h
  cases hg : db.agents.get? agentId with
  | none =>
    rw [hg] at h
    cases h
  | some g =>
    rw [hg] at h
    dsimp only at h
    split_ifs at h with hbs
    · cases h
    refine ⟨⟨g, rfl, not_ne_iff.mp hbs⟩, fun r hr => ?_⟩
    cases hrem : removeRows (storedRows db agentId).toFinset removed with
    | none =>
      rw [hrem] at h
      cases h
    | some s => exact mem_toFinset.mp ((removeRows_eq_some_iff.mp hrem).2.1 r hr)

/-- **The two ways log the same events** exactly if no row that stays is, in the log, a package of which a row is
removed but none added, or added but none removed. -/
theorem logs_agree_iff
    (hsto : applyChanges fp db agentId osId osVer runningKernel added removed base expected = .ok (db', .stored))
    (hpk : ∀ r, r ∈ packages ↔ r ∈ storedRows db agentId ∧ r ∉ removed ∨ r ∈ added) (hsha : sha256 ≠ base) :
    (∀ e, e ∈ changesLog fp db agentId osId osVer runningKernel added removed base expected ↔
      e ∈ replaceLog db agentId packages sha256) ↔
    ∀ r ∈ storedRows db agentId, r ∉ removed → (logId r ∈ removed.map logId ↔ logId r ∈ added.map logId) := by
  obtain ⟨⟨g, hg, hbs⟩, hprs⟩ := accepted_of_stored hsto
  have hlog : replaceLog db agentId packages sha256 = packageDiff (storedRows db agentId) packages := by
    rw [replaceLog, hg]
    exact if_neg (by simp [hbs, hsha.symm])
  have hchs : changesLog fp db agentId osId osVer runningKernel added removed base expected =
      packageDiff removed added := by
    rw [changesLog, hsto]
  -- the packages before are those that stay and those removed, the packages after those that stay and those added
  let stays (id : PackageId) : Prop := ∃ r ∈ storedRows db agentId, r ∉ removed ∧ logId r = id
  have hold : ∀ id, id ∈ (storedRows db agentId).map logId ↔ stays id ∨ id ∈ removed.map logId := by
    intro id
    simp only [stays, mem_map]
    constructor
    · rintro ⟨r, hr, hid⟩
      by_cases hrmd : r ∈ removed
      · exact .inr ⟨r, hrmd, hid⟩
      · exact .inl ⟨r, hr, hrmd, hid⟩
    · rintro (⟨r, hr, -, hid⟩ | ⟨r, hr, hid⟩)
      · exact ⟨r, hr, hid⟩
      · exact ⟨r, hprs r hr, hid⟩
  have hnew : ∀ id, id ∈ packages.map logId ↔ stays id ∨ id ∈ added.map logId := by
    intro id
    simp only [stays, mem_map, hpk, or_and_right, exists_or, and_assoc]
  have hsm : ∀ S A R : Prop, ((A ∧ ¬R ↔ (S ∨ A) ∧ ¬(S ∨ R)) ∧ (R ∧ ¬A ↔ (S ∨ R) ∧ ¬(S ∨ A))) ↔ (S → (R ↔ A)) := by
    intro S A R
    by_cases hS : S <;> by_cases hA : A <;> by_cases hR : R <;> simp [hS, hA, hR]
  rw [hlog, hchs, packageDiff_same_iff]
  simp only [mem_difference, hold, hnew, hsm]
  constructor
  · intro h r hr hrmd
    exact h (logId r) ⟨r, hr, hrmd, rfl⟩
  · rintro h id ⟨r, hr, hrmd, rfl⟩
    exact h r hr hrmd

def sampleLibrary (source : String) : PackageRow := ⟨"dpkg", "libssl3", 0, "3.0", "1", "amd64", some source, none⟩

def twoSources : Db :=
  Ingest.effect countRecords unreported
    (.replace "h" "debian" "12" none [sampleLibrary "openssl", sampleLibrary "openssl-fips"] [2])

/-- One of them is removed: the change set logs that, and a report of what stays would not. -/
theorem twoSources_logs_differ :
    ∃ db', applyChanges countRecords twoSources "h" "debian" "12" none [] [sampleLibrary "openssl"] [2] [1] =
        .ok (db', .stored) ∧ storedRows db' "h" = [sampleLibrary "openssl-fips"] ∧
      changesLog countRecords twoSources "h" "debian" "12" none [] [sampleLibrary "openssl"] [2] [1] =
        [⟨"libssl3", .wentAway, some ⟨"dpkg", "0:3.0-1", "amd64"⟩⟩] ∧
      replaceLog twoSources "h" [sampleLibrary "openssl-fips"] [1] = [] :=
  ⟨_, rfl, by decide, by decide, by decide⟩

/-- Both of them are removed. -/
theorem logs_agree_twoSources :
    ∃ db', applyChanges countRecords twoSources "h" "debian" "12" none []
        [sampleLibrary "openssl", sampleLibrary "openssl-fips"] [2] [0] = .ok (db', .stored) ∧
      ∀ e, e ∈ changesLog countRecords twoSources "h" "debian" "12" none []
        [sampleLibrary "openssl", sampleLibrary "openssl-fips"] [2] [0] ↔ e ∈ replaceLog twoSources "h" [] [0] := by
  have hrw : storedRows twoSources "h" = [sampleLibrary "openssl", sampleLibrary "openssl-fips"] := by decide
  exact ⟨_, rfl, (logs_agree_iff rfl (by simp [hrw]) (by decide)).mpr (by simp [hrw])⟩

end OpenVibes.Store.ChangeLog
