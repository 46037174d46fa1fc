import OpenVibes.Store.Inventory

/-!
# The stored fingerprint

`apply_changes` checks the fingerprint against the rows it read, in memory, and writes by two other statements over the
shared package versions. `inventory_fingerprint` is a parameter that depends on the operating system, the kernel and the
set of packages (`OfSet`). `Fingerprinted`: every stored fingerprint is that of the inventory stored with it.
-/

namespace OpenVibes.Store

open Theory List Option Table

/-! ### The change set against the rows read -/

variable {rows : List PackageRow} {set set' : Finset PackageRow}

theorem removeRows_eq_some_iff :
    removeRows set rows = some set' ↔ rows.Nodup ∧ (∀ r ∈ rows, r ∈ set) ∧ set' = set \ rows.toFinset := by
  induction rows generalizing set with
  | nil => simp [removeRows, eq_comm]
  | cons r rows ih =>
    rw [removeRows, foldlM_cons]
    by_cases hr : r ∈ set
    · rw [if_pos hr, bind_eq_bind, bind_some, ← removeRows, ih, nodup_cons, toFinset_cons,
        Finset.sdiff_insert, Finset.erase_sdiff_comm]
      constructor
      · rintro ⟨hnd, hmem, rfl⟩
        refine ⟨⟨fun h => (Finset.mem_erase.mp (hmem r h)).1 rfl, hnd⟩, ?_, rfl⟩
        intro r' hr'
        rcases mem_cons.mp hr' with rfl | hr'
        · exact hr
        · exact Finset.mem_of_mem_erase (hmem r' hr')
      · rintro ⟨⟨hnew, hnd⟩, hmem, rfl⟩
        refine ⟨hnd, fun r' hr' => Finset.mem_erase.mpr ⟨?_, hmem r' (mem_cons_of_mem _ hr')⟩, rfl⟩
        rintro rfl
        exact hnew hr'
    · rw [if_neg hr]
      constructor
      · intro h
        cases h
      · rintro ⟨-, hmem, -⟩
        exact absurd (hmem r mem_cons_self) hr

theorem addRows_eq_some_iff :
    addRows set rows = some set' ↔ rows.Nodup ∧ (∀ r ∈ rows, r ∉ set) ∧ set' = set ∪ rows.toFinset := by
  induction rows generalizing set with
  | nil => simp [addRows, eq_comm]
  | cons r rows ih =>
    rw [addRows, foldlM_cons]
    by_cases hr : r ∈ set
    · rw [if_pos hr]
      constructor
      · intro h
        cases h
      · rintro ⟨-, hmem, -⟩
        exact absurd hr (hmem r mem_cons_self)
    rw [if_neg hr, bind_eq_bind, bind_some, ← addRows, ih, nodup_cons, toFinset_cons,
      Finset.insert_union, Finset.union_insert]
    constructor
    · rintro ⟨hnd, hmem, rfl⟩
      refine ⟨⟨fun h => hmem r h (Finset.mem_insert_self _ _), hnd⟩, ?_, rfl⟩
      intro r' hr'
      rcases mem_cons.mp hr' with rfl | hr'
      · exact hr
      · exact fun h => hmem r' hr' (Finset.mem_insert_of_mem h)
    · rintro ⟨⟨hnew, hnd⟩, hmem, rfl⟩
      refine ⟨hnd, fun r' hr' h => ?_, rfl⟩
      rcases Finset.mem_insert.mp h with rfl | h
      · exact hnew hr'
      · exact hmem r' (mem_cons_of_mem _ hr') h

/-! ### The rows written -/

variable {pv : PackageVersion}

theorem lt_nextVersionId {t : PackageVersions} (h : pv ∈ t.rows) : pv.id < nextVersionId t := by
  rw [nextVersionId]
  generalize t.rows = rows at h
  induction rows with
  | nil => exact absurd h not_mem_nil
  | cons pv' rows ih =>
    rw [foldr_cons]
    rcases mem_cons.mp h with rfl | h
    · omega
    · have := ih h
      omega

theorem exists_row_insertVersion (t : PackageVersions) (r : PackageRow) :
    ∃ pv ∈ (insertVersion t r).rows, pv.packageRow = r := by
  rw [insertVersion]
  split_ifs with h
  · obtain ⟨pv, hpv, heq⟩ := any_eq_true.mp h
    exact ⟨pv, hpv, of_decide_eq_true heq⟩
  have hfrs : (r.withId (nextVersionId t)).id ∉ t.rows.map PackageVersion.id := by
    rintro hid
    obtain ⟨pv, hpv, heq⟩ := mem_map.mp hid
    exact absurd heq (lt_nextVersionId hpv).ne
  rw [Table.insertNew, dif_neg hfrs]
  exact ⟨r.withId (nextVersionId t), mem_append_right _ mem_cons_self, rfl⟩

theorem exists_row_insertVersions (t : PackageVersions) (rows : List PackageRow) :
    ∀ r ∈ rows, ∃ pv ∈ (insertVersions t rows).rows, pv.packageRow = r := by
  induction rows generalizing t with
  | nil => exact nofun
  | cons r rows ih =>
    intro r' hr'
    rw [insertVersions, foldl_cons, ← insertVersions]
    rcases mem_cons.mp hr' with rfl | hr'
    · obtain ⟨pv, hpv, heq⟩ := exists_row_insertVersion t r'
      obtain ⟨new, hnew⟩ := exists_rows_insertVersions (insertVersion t r') rows
      exact ⟨pv, hnew ▸ mem_append_left _ hpv, heq⟩
    · exact ih _ r' hr'

variable {db : Db} {agentId : String} {r : PackageRow}

theorem mem_storedRows :
    r ∈ storedRows db agentId ↔
      ∃ pv ∈ db.packageVersions.rows, (⟨agentId, pv.id⟩ : HostPackage) ∈ db.hostPackages.rows ∧ pv.packageRow = r := by
  simp only [storedRows, mem_flatMap, List.mem_map, mem_filter, decide_eq_true_eq]
  constructor
  · rintro ⟨⟨a, id⟩, ⟨hh, rfl⟩, pv, ⟨hpv, rfl⟩, rfl⟩
    exact ⟨pv, hpv, hh, rfl⟩
  · rintro ⟨pv, hpv, hh, rfl⟩
    exact ⟨⟨agentId, pv.id⟩, ⟨hh, rfl⟩, pv, ⟨hpv, rfl⟩, rfl⟩

variable {versions : PackageVersions}

theorem mem_link {links : Table HostPackage id} {h : HostPackage} :
    h ∈ (link links versions agentId rows).rows ↔
      h ∈ links.rows ∨ ∃ pv ∈ versions.rows, pv.packageRow ∈ rows ∧ h = ⟨agentId, pv.id⟩ := by
  have hget : ∀ t : Table HostPackage id, h ∈ t.rows ↔ t.get? h = some h := fun t => by
    rw [get?_eq_some_iff]
    exact ⟨fun hh => ⟨hh, rfl⟩, And.left⟩
  rw [hget, link, get?_insertAllNew, or_eq_some_iff, ← hget, get?_eq_none_iff, List.map_id]
  have hfi : ∀ l : List HostPackage, (l.find? fun r => id r = h) = some h ↔ h ∈ l := by
    intro l
    constructor
    · exact mem_of_find?_eq_some
    intro hl
    have hsm : (l.find? fun r => id r = h).isSome := find?_isSome.mpr ⟨h, hl, by simp⟩
    obtain ⟨h', hh'⟩ := isSome_iff_exists.mp hsm
    have : id h' = h := by simpa using find?_some hh'
    rw [hh', ← this, id]
  rw [hfi, List.mem_map]
  simp only [mem_filter, decide_eq_true_eq]
  constructor
  · rintro (hh | ⟨-, pv, ⟨hpv, hr⟩, rfl⟩)
    · exact .inl hh
    · exact .inr ⟨pv, hpv, hr, rfl⟩
  rintro (hh | ⟨pv, hpv, hr, rfl⟩)
  · exact .inl hh
  · by_cases hh : (⟨agentId, pv.id⟩ : HostPackage) ∈ links.rows
    · exact .inl hh
    · exact .inr ⟨hh, pv, ⟨hpv, hr⟩, rfl⟩

section

variable (hlnk : Linked db) (hvr : ∃ new, versions.rows = db.packageVersions.rows ++ new)

include hlnk hvr

theorem mem_versions_of_linked (hpv : pv ∈ versions.rows)
    (hh : (⟨agentId, pv.id⟩ : HostPackage) ∈ db.hostPackages.rows) : pv ∈ db.packageVersions.rows := by
  obtain ⟨new, hnew⟩ := hvr
  obtain ⟨pv', hpv', hid⟩ := mem_map.mp (hlnk _ hh)
  have hmem : pv' ∈ versions.rows := hnew ▸ mem_append_left _ hpv'
  exact versions.eq_of_key_eq hmem hpv hid ▸ hpv'

/-- **The host's rows after linking** it to versions that all exist. -/
theorem mem_storedRows_link (hro : ∀ r ∈ rows, ∃ pv ∈ versions.rows, pv.packageRow = r) (p : HostPackage → Bool) :
    r ∈ storedRows { db with
        packageVersions := versions
        hostPackages := link (db.hostPackages.deleteWhere p) versions agentId rows } agentId ↔
      r ∈ rows ∨ ∃ pv ∈ db.packageVersions.rows, (⟨agentId, pv.id⟩ : HostPackage) ∈ db.hostPackages.rows ∧
        p ⟨agentId, pv.id⟩ = false ∧ pv.packageRow = r := by
  rw [mem_storedRows]
  simp only [mem_link, Table.deleteWhere, mem_filter, Bool.not_eq_true']
  constructor
  · rintro ⟨pv, hpv, ⟨hh, hp⟩ | ⟨pv', hpv', hr, heq⟩, rfl⟩
    · exact .inr ⟨pv, mem_versions_of_linked hlnk hvr hpv hh, hh, hp, rfl⟩
    · have hid : pv.id = pv'.id := congrArg HostPackage.packageVersionId heq
      rw [versions.eq_of_key_eq hpv hpv' hid]
      exact .inl hr
  · rintro (hr | ⟨pv, hpv, hh, hp, rfl⟩)
    · obtain ⟨pv, hpv, rfl⟩ := hro r hr
      exact ⟨pv, hpv, .inr ⟨pv, hpv, hr, rfl⟩, rfl⟩
    · obtain ⟨new, hnew⟩ := hvr
      exact ⟨pv, hnew ▸ mem_append_left _ hpv, .inl ⟨hh, hp⟩, rfl⟩

end

variable {added removed : List PackageRow}

/-- **The host's rows after a change set**: the removed ones go and the added ones come. -/
theorem mem_storedRows_changes (hlnk : Linked db) :
    r ∈ storedRows { db with
        packageVersions := insertVersions db.packageVersions added
        hostPackages := link (unlink db.hostPackages (insertVersions db.packageVersions added) agentId removed)
          (insertVersions db.packageVersions added) agentId added } agentId ↔
      r ∈ added ∨ r ∈ storedRows db agentId ∧ r ∉ removed := by
  have hvr := exists_rows_insertVersions db.packageVersions added
  rw [unlink, mem_storedRows_link hlnk hvr (exists_row_insertVersions _ _), mem_storedRows]
  refine or_congr_right ⟨?_, ?_⟩
  · rintro ⟨pv, hpv, hh, hkp, rfl⟩
    refine ⟨⟨pv, hpv, hh, rfl⟩, fun hr => ?_⟩
    obtain ⟨new, hnew⟩ := hvr
    have hmem : pv ∈ (insertVersions db.packageVersions added).rows := hnew ▸ mem_append_left _ hpv
    simp only [true_and, decide_eq_false_iff_not, Bool.not_eq_true, List.any_eq_false] at hkp
    exact hkp pv hmem (by simp [hr])
  · rintro ⟨⟨pv, hpv, hh, rfl⟩, hr⟩
    refine ⟨pv, hpv, hh, ?_, rfl⟩
    simp only [true_and, decide_eq_false_iff_not, Bool.not_eq_true, List.any_eq_false]
    rintro pv' hpv' ⟨hid, hr'⟩
    obtain ⟨new, hnew⟩ := hvr
    have hmem : pv ∈ (insertVersions db.packageVersions added).rows := hnew ▸ mem_append_left _ hpv
    exact hr (eq_of_key_eq _ hpv' hmem hid ▸ hr')

/-! ### The fingerprint stored with them -/

/-- `inventory_fingerprint` of a list of rows: it is computed over their normalised records. -/
def inventoryFingerprint (fingerprint : Fingerprint) (osId osVersion : String) (runningKernel : Option String)
    (rows : List PackageRow) : Sha256 :=
  fingerprint osId osVersion runningKernel ((rows : Multiset PackageRow).map PackageRow.normalized)

/-- The fingerprint depends only on the set of the records. -/
def OfSet (fingerprint : Fingerprint) : Prop :=
  ∀ osId osVersion runningKernel (m m' : Multiset PackageRow), m.toFinset = m'.toFinset →
    fingerprint osId osVersion runningKernel m = fingerprint osId osVersion runningKernel m'

variable {fp : Fingerprint}

theorem OfSet.eq_of_mem_iff (h : OfSet fp) {m m' : Multiset PackageRow} (hmem : ∀ r, r ∈ m ↔ r ∈ m')
    (osId osVersion : String) (runningKernel : Option String) :
    fp osId osVersion runningKernel (m.map PackageRow.normalized) =
      fp osId osVersion runningKernel (m'.map PackageRow.normalized) := by
  refine h _ _ _ _ _ (Finset.ext fun r => ?_)
  simp [hmem]

/-- The host's fingerprint, when it has one, is that of what is stored with it. -/
def FingerprintedHost (fingerprint : Fingerprint) (db : Db) (agentId : String) : Prop :=
  ∀ g sha256, db.agents.get? agentId = some g → g.inventorySha256 = some sha256 →
    ∃ osId osVersion, g.osId = some osId ∧ g.osVersion = some osVersion ∧
      sha256 = inventoryFingerprint fingerprint osId osVersion g.runningKernel (storedRows db agentId)

/-- Every stored fingerprint is that of the inventory stored with it. -/
def Fingerprinted (fingerprint : Fingerprint) (db : Db) : Prop := ∀ agentId, FingerprintedHost fingerprint db agentId

theorem get?_finish (db : Db) (agentId osId osVersion : String) (runningKernel : Option String) (sha256 : Sha256) :
    (finish db agentId osId osVersion runningKernel sha256).agents.get? agentId =
      (db.agents.get? agentId).map (Agent.report osId osVersion runningKernel sha256) := by
  rw [finish, get?_updateWhere_key, if_pos rfl]

variable {osId osVersion : String} {runningKernel : Option String} {sha256 : Sha256}

theorem fingerprintedHost_finish
    (h : sha256 = inventoryFingerprint fp osId osVersion runningKernel (storedRows db agentId)) :
    FingerprintedHost fp (finish db agentId osId osVersion runningKernel sha256) agentId := by
  intro g sha256' hg hsha
  rw [get?_finish] at hg
  obtain ⟨g', -, rfl⟩ := map_eq_some_iff.mp hg
  cases hsha
  exact ⟨osId, osVersion, rfl, rfl, h⟩

variable {db' : Db} {packages : List PackageRow}

theorem SameHost.storedRows_eq {agent : String} (h : SameHost agent db db') :
    storedRows db' agent = storedRows db agent := by
  obtain ⟨new, hnew, hids⟩ := h.versions
  rw [storedRows, storedRows, h.links]
  refine flatMap_congr fun l hl => ?_
  obtain ⟨hl, hagt⟩ := mem_filter.mp hl
  have hnn : (new.filter fun pv => pv.id = l.packageVersionId) = [] :=
    filter_eq_nil_iff.mpr fun pv hpv heq => hids l hl (of_decide_eq_true hagt) pv hpv (of_decide_eq_true heq).symm
  rw [hnew, filter_append, hnn, append_nil]

/-- **What `replace` stores**: the rows, once each, under the digest it is called with. -/
theorem replace_stores (hlnk : Linked db)
    (h : replace db agentId osId osVersion runningKernel packages sha256 = .ok (db', .stored)) :
    ∃ db₁, db' = finish db₁ agentId osId osVersion runningKernel sha256 ∧
      ∀ r, r ∈ storedRows db₁ agentId ↔ r ∈ packages := by
  rw [replace] at h
  cases hg : db.agents.get? agentId with
  | none => rw [hg] at h; cases h
  | some g =>
    rw [hg] at h
    dsimp only at h
    split_ifs at h
    · cases h
    cases h
    refine ⟨_, rfl, fun r => ?_⟩
    rw [mem_storedRows_link hlnk (exists_rows_insertVersions _ _) (exists_row_insertVersions _ _)]
    simp

theorem replace_unchanged
    (h : replace db agentId osId osVersion runningKernel packages sha256 = .ok (db', .unchanged)) : db' = db := by
  rw [replace] at h
  cases hg : db.agents.get? agentId with
  | none => rw [hg] at h; cases h
  | some g =>
    rw [hg] at h
    dsimp only at h
    split_ifs at h
    · exact (congrArg Prod.fst (Except.ok.inj h)).symm
    · cases h

/-- What it takes to store a change set, and what is stored. -/
structure ChangesStored (fingerprint : Fingerprint) (db : Db) (agentId osId osVersion : String)
    (runningKernel : Option String) (added removed : List PackageRow) (base expected : Sha256) (db' : Db) : Prop where
  base : ∃ g, db.agents.get? agentId = some g ∧ g.inventorySha256 = some base
  removed_once : removed.Nodup
  removed_present : ∀ r ∈ removed, r ∈ storedRows db agentId
  added_once : added.Nodup
  added_absent : ∀ r ∈ added, ¬(r ∈ storedRows db agentId ∧ r ∉ removed)
  /-- The package set is the old one without the removed rows and with the added ones. -/
  rows : (storedRows db' agentId).toFinset = ((storedRows db agentId).toFinset \ removed.toFinset) ∪ added.toFinset
  /-- The new operating system and kernel are stored, with the fingerprint the request expects. -/
  row : ∃ g, db'.agents.get? agentId = some g ∧ g.osId = some osId ∧ g.osVersion = some osVersion ∧
    g.runningKernel = runningKernel ∧ g.inventorySha256 = some expected
  expected : expected = inventoryFingerprint fingerprint osId osVersion runningKernel (storedRows db' agentId)

/-- **What `apply_changes` stores**: all of the change set, or nothing. -/
theorem applyChanges_stores (hset : OfSet fp) {base exp : Sha256} {out : ChangesOutcome}
    (hlnk : Linked db)
    (h : applyChanges fp db agentId osId osVersion runningKernel added removed base exp = .ok (db', out)) :
    out = .resync ∧ db' = db ∨ out = .stored ∧
      ChangesStored fp db agentId osId osVersion runningKernel added removed base exp db' ∧
      FingerprintedHost fp db' agentId := by
  rw [applyChanges] at h
  cases hg : db.agents.get? agentId with
  | none => rw [hg] at h; cases h
  | some g =>
    rw [hg] at h
    dsimp only at h
    split_ifs at h with hbs
    · cases h
      exact .inl ⟨rfl, rfl⟩
    cases hft : (removeRows (storedRows db agentId).toFinset removed).bind fun s => addRows s added with
    | none =>
      rw [hft] at h
      cases h
      exact .inl ⟨rfl, rfl⟩
    | some set =>
      rw [hft] at h
      dsimp only at h
      split_ifs at h with hexp
      · cases h
        exact .inl ⟨rfl, rfl⟩
      cases h
      obtain ⟨s, hrem, hadd⟩ := bind_eq_some_iff.mp hft
      obtain ⟨hrmd, hprs, rfl⟩ := removeRows_eq_some_iff.mp hrem
      obtain ⟨hadde, habs, rfl⟩ := addRows_eq_some_iff.mp hadd
      have hmem : ∀ r, r ∈ storedRows { db with
          packageVersions := insertVersions db.packageVersions added
          hostPackages := link (unlink db.hostPackages (insertVersions db.packageVersions added) agentId removed)
            (insertVersions db.packageVersions added) agentId added } agentId ↔
          r ∈ (storedRows db agentId).toFinset \ removed.toFinset ∪ added.toFinset := by
        intro r
        rw [mem_storedRows_changes hlnk, Finset.mem_union, Finset.mem_sdiff, List.mem_toFinset, List.mem_toFinset,
          List.mem_toFinset, or_comm]
      have heq := (not_ne_iff.mp hexp).symm.trans
        (hset.eq_of_mem_iff (fun r => Finset.mem_def.symm.trans ((hmem r).symm.trans Multiset.mem_coe.symm)) _ _ _)
      refine .inr ⟨rfl, ⟨⟨g, hg, not_ne_iff.mp hbs⟩, hrmd, fun r hr => mem_toFinset.mp (hprs r hr),
        hadde, fun r hr => ?_, Finset.ext fun r => mem_toFinset.trans (hmem r),
        ⟨g.report osId osVersion runningKernel exp, ?_, rfl, rfl, rfl, rfl⟩, heq⟩, fingerprintedHost_finish heq⟩
      · simpa using habs r hr
      · rw [get?_finish]
        exact congrArg _ hg

/-! ### Over every sequence of operations -/

/-- `replace` is called with the fingerprint of its rows. -/
def Ingest.Honest (fingerprint : Fingerprint) : Ingest → Prop
  | .replace _ osId osVersion runningKernel packages sha256 =>
    sha256 = inventoryFingerprint fingerprint osId osVersion runningKernel packages
  | .applyChanges _ _ _ _ _ _ _ _ => True

instance (fingerprint : Fingerprint) : DecidablePred (Ingest.Honest fingerprint)
  | .replace _ osId osVersion runningKernel packages sha256 =>
    inferInstanceAs (Decidable (sha256 = inventoryFingerprint fingerprint osId osVersion runningKernel packages))
  | .applyChanges _ _ _ _ _ _ _ _ => isTrue trivial

theorem Linked.effect (hlnk : Linked db) (fp : Fingerprint) (op : Ingest) :
    Linked (op.effect fp db) := by
  rcases ingest_rewrites fp db op with h | h
  · rw [h]
    exact hlnk
  · exact h.linked hlnk

section

variable (hset : OfSet fp) (hlnk : Linked db) {op : Ingest}

include hset hlnk

theorem fingerprintedHost_effect (hop : op.Honest fp) (h : FingerprintedHost fp db op.agentId) :
    FingerprintedHost fp (op.effect fp db) op.agentId := by
  cases op with
  | replace agentId osId osVersion runningKernel packages sha256 =>
    rw [Ingest.effect]
    cases hr : replace db agentId osId osVersion runningKernel packages sha256 with
    | error e => exact h
    | ok r =>
      obtain ⟨db', _ | _⟩ := r
      · obtain ⟨db₁, rfl, hro⟩ := replace_stores hlnk hr
        refine fingerprintedHost_finish (hop.trans (hset.eq_of_mem_iff (fun r => ?_) _ _ _))
        exact (hro r).symm
      · rw [(replace_unchanged hr : db' = db)]
        exact h
  | applyChanges agentId osId osVersion runningKernel added removed base exp =>
    rw [Ingest.effect]
    cases hr : applyChanges fp db agentId osId osVersion runningKernel added removed base exp with
    | error e => exact h
    | ok r =>
      rcases applyChanges_stores hset hlnk hr with ⟨-, heq⟩ | ⟨-, -, hsto⟩
      · exact heq ▸ h
      · exact hsto

theorem fingerprinted_effect (h : Fingerprinted fp db)
    (hop : op.Honest fp) : Fingerprinted fp (op.effect fp db) := by
  intro a
  by_cases ha : a = op.agentId
  · subst ha
    exact fingerprintedHost_effect hset hlnk hop (h _)
  rcases ingest_rewrites fp db op with heq | hrw
  · rw [heq]
    exact h a
  intro g sha256 hg hsha
  rw [hrw.agents a ha] at hg
  rw [(hrw.sameHost hlnk ha).storedRows_eq]
  exact h a g sha256 hg hsha

theorem fingerprinted_effects (h : Fingerprinted fp db)
    {ops : List Ingest} (hops : ∀ op ∈ ops, op.Honest fp) :
    Fingerprinted fp (ops.foldl (Ingest.effect fp) db) := by
  induction ops generalizing db with
  | nil => exact h
  | cons op ops ih =>
    have hop := hops op mem_cons_self
    exact ih (hlnk.effect fp op) (fingerprinted_effect hset hlnk h hop)
      fun op' hop' => hops op' (mem_cons_of_mem _ hop')

end

/-- **Inventory changes are exact**: a change set is stored only when it is based on the stored inventory and fits it,
and then it is what the host has; a resync changes nothing; and every stored fingerprint is that of what is stored, if
`replace` is called with the fingerprint of its rows. -/
theorem changes_exact (fp : Fingerprint) (hset : OfSet fp) (db : Db) (hlnk : Linked db) :
    (∀ agentId osId osVersion runningKernel added removed base exp db' out,
      applyChanges fp db agentId osId osVersion runningKernel added removed base exp = .ok (db', out) →
      (out = .stored → ChangesStored fp db agentId osId osVersion runningKernel added removed base exp db') ∧
      (out = .resync → db' = db)) ∧
    (Fingerprinted fp db → ∀ ops : List Ingest, (∀ op ∈ ops, op.Honest fp) →
      Fingerprinted fp (ops.foldl (Ingest.effect fp) db)) := by
  refine ⟨fun agentId osId osVersion runningKernel added removed base exp db' out h => ?_,
    fun h ops hops => fingerprinted_effects hset hlnk h hops⟩
  rcases applyChanges_stores hset hlnk h with ⟨rfl, rfl⟩ | ⟨rfl, hsto, -⟩
  · exact ⟨fun h => absurd h (by decide), fun _ => rfl⟩
  · exact ⟨fun _ => hsto, fun h => absurd h (by decide)⟩

/-- A fingerprint for the sample below: how many records there are. -/
def countRecords : Fingerprint := fun _ _ _ m => [UInt8.ofNat m.toFinset.card]

def unreported : Db := { Db.empty with agents := ⟨[⟨"h", none, none, none, none, 0⟩], by decide⟩ }

def samplePackage (name : String) : PackageRow := ⟨"rpm", name, 0, "1", "1", "x86_64", none, none⟩

/-- A full report of two packages, one named twice, and a change set that replaces one of them. -/
def sampleReports : List Ingest :=
  [.replace "h" "fedora" "44" none [samplePackage "bash", samplePackage "curl", samplePackage "bash"] [2],
    .applyChanges "h" "fedora" "45" none [samplePackage "dash", samplePackage "bash"]
      [samplePackage "bash", samplePackage "curl"] [2] [2]]

theorem changes_exact_sample :
    Linked unreported ∧ OfSet countRecords ∧
    Fingerprinted countRecords (sampleReports.foldl (Ingest.effect countRecords) unreported) ∧
    (storedRows (sampleReports.foldl (Ingest.effect countRecords) unreported) "h").toFinset =
      {samplePackage "dash", samplePackage "bash"} := by
  have hlnk : Linked unreported := nofun
  have hset : OfSet countRecords := fun _ _ _ m m' h => by rw [countRecords, h, countRecords]
  refine ⟨hlnk, hset, (changes_exact countRecords hset unreported hlnk).2 ?_ sampleReports ?_, ?_⟩
  · intro a g sha256 hg hsha
    obtain ⟨hg, -⟩ := get?_eq_some_iff.mp hg
    rw [mem_singleton.mp hg] at hsha
    cases hsha
  · decide
  · decide

end OpenVibes.Store
