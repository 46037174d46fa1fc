import OpenVibes.Store.Candidates

/-!
# Host inventories

`crates/platform-store/src/inventory.rs`: a host's inventory is stored as links to package versions that the fleet
shares. A full report replaces the links, a change set adds and removes some; either is one transaction under the lock
of the host's row, and resets the matcher's marker. The change log is in `Store.ChangeLog`; the automatic host groups
and the notification are not modelled.
-/

namespace OpenVibes.Store

open Theory

/-- `PackageRow`: one installed package, as matching needs it. -/
structure PackageRow where
  (manager name : String)
  epoch : ℤ
  (version release arch : String)
  /-- Source package when it differs from the binary's name. -/
  (source sourceVersion : Option String)
deriving DecidableEq

/-- The row a package version was reported as: the columns of `package_versions_key`. -/
def PackageVersion.packageRow (pv : PackageVersion) : PackageRow :=
  ⟨pv.manager, pv.name, pv.epoch, pv.version, pv.release, pv.arch, pv.source, pv.sourceVersion⟩

def PackageRow.withId (r : PackageRow) (id : ℕ) : PackageVersion :=
  ⟨id, r.manager, r.name, r.epoch, r.version, r.release, r.arch, r.source, r.sourceVersion⟩

/-- `PackageRow::normalized`: the record the fingerprint is computed over has an unsigned epoch. -/
def PackageRow.normalized (r : PackageRow) : PackageRow := { r with epoch := max r.epoch 0 }

def nextVersionId (t : PackageVersions) : ℕ := t.rows.foldr (fun pv n => max (pv.id + 1) n) 1

/-- A version the fleet has not reported before is added. -/
def insertVersion (t : PackageVersions) (r : PackageRow) :
    PackageVersions :=
  if t.rows.any fun pv => pv.packageRow = r then t else t.insertNew (r.withId (nextVersionId t))

def insertVersions (t : PackageVersions) (rows : List PackageRow) :
    PackageVersions :=
  rows.foldl insertVersion t

/-- `link`: links the host to each listed version. -/
def link (links : Table HostPackage id) (versions : PackageVersions) (agentId : String)
    (rows : List PackageRow) : Table HostPackage id :=
  links.insertAllNew ((versions.rows.filter fun pv => pv.packageRow ∈ rows).map fun pv => ⟨agentId, pv.id⟩)

/-- `unlink`: removes the host's links to each listed version. -/
def unlink (links : Table HostPackage id) (versions : PackageVersions) (agentId : String)
    (rows : List PackageRow) : Table HostPackage id :=
  links.deleteWhere fun h => h.agentId = agentId ∧
    versions.rows.any fun pv => pv.id = h.packageVersionId ∧ pv.packageRow ∈ rows

/-- `stored_rows`: the host's stored package rows. -/
def storedRows (db : Db) (agentId : String) : List PackageRow :=
  (db.hostPackages.rows.filter fun h => h.agentId = agentId).flatMap fun h =>
    (db.packageVersions.rows.filter fun pv => pv.id = h.packageVersionId).map PackageVersion.packageRow

def Agent.report (osId osVersion : String) (runningKernel : Option String) (sha256 : Sha256) (g : Agent) : Agent :=
  { g with
    osId := some osId
    osVersion := some osVersion
    inventorySha256 := some sha256
    runningKernel := runningKernel
    vulnerabilityMatchVersion := 0 }

theorem agentId_report (osId osVer : String) (running : Option String) (sha256 : Sha256) (g : Agent) :
    (g.report osId osVer running sha256).agentId = g.agentId := rfl

/-- `finish`: records the host's OS, kernel and fingerprint, and that no matcher evaluated the
inventory. -/
def finish (db : Db) (agentId osId osVersion : String) (runningKernel : Option String) (sha256 : Sha256) : Db :=
  { db with
    agents := db.agents.updateWhere (fun g => g.agentId = agentId) (Agent.report osId osVersion runningKernel sha256)
      (agentId_report osId osVersion runningKernel sha256) }

inductive InventoryOutcome where
  | stored
  | unchanged
deriving DecidableEq

/-- `replace`: replaces a host's inventory, unless its digest equals the stored one. -/
def replace (db : Db) (agentId osId osVersion : String) (runningKernel : Option String) (packages : List PackageRow)
    (sha256 : Sha256) : Except StoreError (Db × InventoryOutcome) :=
  match db.agents.get? agentId with
  | none => .error .unavailable
  | some g =>
    if g.inventorySha256 = some sha256 then .ok (db, .unchanged)
    else
      let versions := insertVersions db.packageVersions packages
      let links := link (db.hostPackages.deleteWhere fun h => h.agentId = agentId) versions agentId packages
      .ok (finish { db with packageVersions := versions, hostPackages := links } agentId osId osVersion runningKernel
        sha256, .stored)

inductive ChangesOutcome where
  | stored
  | resync
deriving DecidableEq

/-- `set.remove` for each row in turn; `none` once one is not there. -/
def removeRows (set : Finset PackageRow) (rows : List PackageRow) : Option (Finset PackageRow) :=
  rows.foldlM (fun s r => if r ∈ s then some (s.erase r) else none) set

/-- `set.insert` for each row in turn; `none` once one is there already. -/
def addRows (set : Finset PackageRow) (rows : List PackageRow) : Option (Finset PackageRow) :=
  rows.foldlM (fun s r => if r ∈ s then none else some (insert r s)) set

/-- `inventory_fingerprint`, of the operating system, the running kernel and the packages. -/
abbrev Fingerprint := String → String → Option String → Multiset PackageRow → Sha256

/-- `apply_changes`: only if the stored fingerprint is `base`, every removed row is present, every added row absent, and
the result's fingerprint is `expected`. -/
def applyChanges (fingerprint : Fingerprint) (db : Db) (agentId osId osVersion : String)
    (runningKernel : Option String) (added removed : List PackageRow) (base expected : Sha256) :
    Except StoreError (Db × ChangesOutcome) :=
  match db.agents.get? agentId with
  | none => .error .unavailable
  | some g =>
    if g.inventorySha256 ≠ some base then .ok (db, .resync)
    else
      match (removeRows (storedRows db agentId).toFinset removed).bind fun s => addRows s added with
      | none => .ok (db, .resync)
      | some set =>
        if fingerprint osId osVersion runningKernel (set.val.map PackageRow.normalized) ≠ expected then
          .ok (db, .resync)
        else
          let versions := insertVersions db.packageVersions added
          let links := link (unlink db.hostPackages versions agentId removed) versions agentId added
          .ok (finish { db with packageVersions := versions, hostPackages := links } agentId osId osVersion
            runningKernel expected, .stored)

inductive Ingest where
  | replace (agentId osId osVersion : String) (runningKernel : Option String) (packages : List PackageRow)
      (sha256 : Sha256)
  | applyChanges (agentId osId osVersion : String) (runningKernel : Option String) (added removed : List PackageRow)
      (base expected : Sha256)

def Ingest.agentId : Ingest → String
  | .replace agentId _ _ _ _ _ => agentId
  | .applyChanges agentId _ _ _ _ _ _ _ => agentId

/-- The store afterwards; a transaction that fails leaves it. -/
def Ingest.effect (fingerprint : Fingerprint) (db : Db) : Ingest → Db
  | .replace agentId osId osVersion runningKernel packages sha256 =>
    match Store.replace db agentId osId osVersion runningKernel packages sha256 with
    | .ok r => r.1
    | .error _ => db
  | .applyChanges agentId osId osVersion runningKernel added removed base expected =>
    match Store.applyChanges fingerprint db agentId osId osVersion runningKernel added removed base expected with
    | .ok r => r.1
    | .error _ => db

/-! ### Only the host's inventory changes -/

/-- Every link is to a stored version: the foreign key of `host_packages`. -/
def Linked (db : Db) : Prop :=
  ∀ h ∈ db.hostPackages.rows, h.packageVersionId ∈ db.packageVersions.rows.map PackageVersion.id

/-- The inventory of a host is rewritten, and no matcher has evaluated it. -/
structure Rewrites (agentId : String) (db db' : Db) : Prop where
  agents : ∀ a, a ≠ agentId → db'.agents.get? a = db.agents.get? a
  marker : ∀ g, db'.agents.get? agentId = some g → g.vulnerabilityMatchVersion = 0
  links : ∀ a, a ≠ agentId →
    (db'.hostPackages.rows.filter fun h => h.agentId = a) = db.hostPackages.rows.filter fun h => h.agentId = a
  versions : ∃ new, db'.packageVersions.rows = db.packageVersions.rows ++ new
  linked : Linked db → Linked db'
  advisories : db'.advisories = db.advisories
  advisoryPackages : db'.advisoryPackages = db.advisoryPackages
  vulnerabilities : db'.vulnerabilities = db.vulnerabilities

theorem exists_rows_insertVersions (t : PackageVersions) (rows : List PackageRow) :
    ∃ new, (insertVersions t rows).rows = t.rows ++ new := by
  induction rows generalizing t with
  | nil => exact ⟨[], by simp [insertVersions]⟩
  | cons r rows ih =>
    obtain ⟨new₁, h₁⟩ : ∃ new, (insertVersion t r).rows = t.rows ++ new := by
      rw [insertVersion]
      split_ifs
      · exact ⟨[], by simp⟩
      · obtain ⟨new, -, h⟩ := t.exists_rows_insertNew (r.withId (nextVersionId t))
        exact ⟨new, h⟩
    obtain ⟨new₂, h₂⟩ := ih (insertVersion t r)
    exact ⟨new₁ ++ new₂, by rw [insertVersions, List.foldl_cons, ← insertVersions, h₂, h₁, List.append_assoc]⟩

theorem rewrites_link {db : Db} {agentId : String} (versions : PackageVersions)
    (hvr : ∃ new, versions.rows = db.packageVersions.rows ++ new) (p : HostPackage → Bool)
    (hp : ∀ h, p h → h.agentId = agentId) (rows : List PackageRow) (osId osVer : String)
    (running : Option String) (sha256 : Sha256) :
    Rewrites agentId db (finish { db with
      packageVersions := versions
      hostPackages := link (db.hostPackages.deleteWhere p) versions agentId rows }
        agentId osId osVer running sha256) := by
  obtain ⟨new, hsub, hrw⟩ := (db.hostPackages.deleteWhere p).exists_rows_insertAllNew
    ((versions.rows.filter fun pv => pv.packageRow ∈ rows).map fun pv => (⟨agentId, pv.id⟩ : HostPackage))
  have hnew : ∀ h ∈ new, h.agentId = agentId ∧ h.packageVersionId ∈ versions.rows.map PackageVersion.id := by
    intro h hh
    obtain ⟨pv, hpv, rfl⟩ := List.mem_map.mp (hsub hh)
    exact ⟨rfl, List.mem_map_of_mem (List.mem_of_mem_filter hpv)⟩
  refine ⟨fun a ha => ?_, fun g hg => ?_, fun a ha => ?_, hvr, fun hlnk h hh => ?_, rfl, rfl, rfl⟩
  · rw [finish, Table.get?_updateWhere_key, if_neg ha.symm]
  · rw [finish, Table.get?_updateWhere_key, if_pos rfl] at hg
    obtain ⟨g', -, rfl⟩ := Option.map_eq_some_iff.mp hg
    rfl
  · have hold : ((db.hostPackages.deleteWhere p).rows.filter fun h => h.agentId = a) =
        db.hostPackages.rows.filter fun h => h.agentId = a := by
      rw [Table.deleteWhere, List.filter_filter]
      refine List.filter_congr fun h _ => ?_
      by_cases hk : h.agentId = a
      · have : p h = false := Bool.eq_false_iff.mpr fun hph => ha (hk.symm.trans (hp h hph))
        simp [hk, this]
      · simp [hk]
    have hnn : (new.filter fun h => h.agentId = a) = [] :=
      List.filter_eq_nil_iff.mpr fun h hh => by simp [(hnew h hh).1, ha.symm]
    show ((link _ versions agentId rows).rows.filter _) = _
    rw [link, hrw, List.filter_append, hold, hnn, List.append_nil]
  · replace hh : h ∈ (link (db.hostPackages.deleteWhere p) versions agentId rows).rows := hh
    rw [link, hrw] at hh
    rcases List.mem_append.mp hh with hh | hh
    · obtain ⟨new', hnew'⟩ := hvr
      show _ ∈ versions.rows.map _
      rw [hnew', List.map_append]
      exact List.mem_append_left _ (hlnk h (List.mem_of_mem_filter hh))
    · exact (hnew h hh).2

/-- **A report or a change set** leaves everything as it is, or rewrites its host's inventory. -/
theorem ingest_rewrites (fp : Fingerprint) (db : Db) (op : Ingest) :
    op.effect fp db = db ∨ Rewrites op.agentId db (op.effect fp db) := by
  cases op with
  | replace agentId osId osVer running packages sha256 =>
    simp only [Ingest.effect, Store.replace]
    cases db.agents.get? agentId with
    | none => exact .inl rfl
    | some g =>
      dsimp only
      by_cases hsm : g.inventorySha256 = some sha256
      · rw [if_pos hsm]
        exact .inl rfl
      · rw [if_neg hsm]
        exact .inr (rewrites_link _ (exists_rows_insertVersions _ _) _ (fun h hp => of_decide_eq_true hp) packages
          osId osVer running sha256)
  | applyChanges agentId osId osVer running added removed base expected =>
    simp only [Ingest.effect, Store.applyChanges]
    cases db.agents.get? agentId with
    | none => exact .inl rfl
    | some g =>
      dsimp only
      by_cases hbs : g.inventorySha256 ≠ some base
      · rw [if_pos hbs]
        exact .inl rfl
      rw [if_neg hbs]
      cases (removeRows (storedRows db agentId).toFinset removed).bind fun s => addRows s added with
      | none => exact .inl rfl
      | some set =>
        dsimp only
        split_ifs
        · exact .inl rfl
        · exact .inr (rewrites_link _ (exists_rows_insertVersions _ _) _
            (fun h hp => (of_decide_eq_true hp).1) added osId osVer running expected)

theorem Rewrites.sameHost {agentId a : String} {db db' : Db} (h : Rewrites agentId db db') (hlnk : Linked db)
    (ha : a ≠ agentId) : SameHost a db db' := by
  obtain ⟨new, hnew⟩ := h.versions
  refine ⟨by rw [h.agents a ha], h.links a ha, ⟨new, hnew, fun l hl _ pv hpv heq => ?_⟩, h.advisories,
    h.advisoryPackages⟩
  have hnd := db'.packageVersions.nodup
  rw [hnew, List.map_append] at hnd
  exact (List.nodup_append.mp hnd).2.2 _ (hlnk l hl) _ (List.mem_map_of_mem hpv) heq

end OpenVibes.Store
