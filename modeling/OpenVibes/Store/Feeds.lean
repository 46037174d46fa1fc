import OpenVibes.Store.Schema

/-!
# The state of feeds

The sync point and last check of a live feed (`crates/platform-store/src/vulns/feeds.rs`), the manifests and files
applied of a signed one (`feeds.rs`), and NVD's affected ranges of the products that installed packages could be
(`cpe.rs`). The times and counts of checks, and the manifest a file came with, are not modelled.
-/

namespace OpenVibes.Store

open Theory Table

/-! ### Live feeds -/

/-- `feed_cursor`: a source's sync point. -/
def feedCursor (db : Db) (source : String) : Option Time := (db.feedSources.get? source).bind FeedSource.cursor

/-- `ON CONFLICT (source) DO UPDATE SET cursor`. -/
def FeedSource.setCursor (old new : FeedSource) : FeedSource := { old with cursor := new.cursor }

theorem source_setCursor (old new : FeedSource) : (old.setCursor new).source = old.source := rfl

/-- `set_feed_cursor`: sets a source's sync point, creating the source if needed. -/
def setFeedCursor (db : Db) (source : String) (cursor : Time) : Db :=
  { db with
    feedSources := db.feedSources.upsert FeedSource.setCursor source_setCursor ⟨source, some cursor, none, none⟩ }

/-- `ON CONFLICT (source) DO UPDATE`: a failed check keeps the content's hash. -/
def FeedSource.setChecked (old new : FeedSource) : FeedSource :=
  { old with contentSha256 := new.contentSha256.or old.contentSha256, lastError := new.lastError }

theorem source_setChecked (old new : FeedSource) : (old.setChecked new).source = old.source := rfl

def FeedSource.checked (source : String) : Except String Sha256 → FeedSource
  | .ok sha256 => ⟨source, none, some sha256, none⟩
  | .error e => ⟨source, none, none, some e⟩

/-- `record_feed`: records a check. -/
def recordFeed (db : Db) (source : String) (outcome : Except String Sha256) : Db :=
  { db with
    feedSources := db.feedSources.upsert FeedSource.setChecked source_setChecked (FeedSource.checked source outcome) }

@[simp] theorem feedCursor_setFeedCursor (db : Db) (source : String) (t : Time) :
    feedCursor (setFeedCursor db source t) source = some t := by
  rw [feedCursor, setFeedCursor, get?_upsert, if_pos rfl]
  cases db.feedSources.get? source <;> rfl

@[simp] theorem feedCursor_recordFeed (db : Db) (checked source : String) (out : Except String Sha256) :
    feedCursor (recordFeed db checked out) source = feedCursor db source := by
  rw [feedCursor, feedCursor, recordFeed, get?_upsert]
  split_ifs with h
  · cases db.feedSources.get? source <;> cases out <;> rfl
  · rfl

/-! ### Affected ranges -/

/-- `InstalledName`: a package's name and its source package. -/
structure InstalledName where
  name : String
  source : Option String

def InstalledName.compare (a b : InstalledName) : Ordering :=
  (Ord.compare a.name b.name).then (Ord.compare a.source b.source)

/-- `installed_names`: distinct names of packages installed on hosts of `osId`. -/
def installedNames (db : Db) (osId : String) : List InstalledName :=
  let rows := db.agents.rows.flatMap fun g =>
    if g.osId = some osId then
      db.hostPackages.rows.flatMap fun h =>
        if h.agentId = g.agentId then
          db.packageVersions.rows.filterMap fun pv =>
            if pv.id = h.packageVersionId ∧ pv.manager = "rpm" then some ⟨pv.name, pv.source⟩ else none
        else []
    else []
  (Std.TreeSet.ofList rows InstalledName.compare).toList

def newProducts (db : Db) (products : List String) : List String :=
  (products.filter fun p => (db.applicabilityProducts.get? p).isNone).dedup

/-- `add_products`: adds products to keep. The statement returns how many were new
(`newProducts`). -/
def addProducts (db : Db) (products : List String) : Db :=
  { db with applicabilityProducts := db.applicabilityProducts.insertAllNew products }

/-- A release list as it is stored: it travels joined by commas. -/
def storedReleases (releases : List String) : List String :=
  let joined := (releases.map String.toList).intersperse [','] |>.flatten
  if joined = [] then [] else (joined.splitOn ',').map String.ofList

/-- The rows of `replace_applicability` that are stored: those of products being kept. -/
def keptRanges (db : Db) (rows : List Applicability) : List Applicability :=
  (rows.filter fun r => (db.applicabilityProducts.get? r.product).isSome).map fun r =>
    { r with fedora := storedReleases r.fedora }

/-- `replace_applicability`: replaces the ranges of the CVEs by those of products being kept. -/
def replaceApplicability (db : Db) (cveIds : List String) (rows : List Applicability) : Db :=
  { db with applicability := (db.applicability.filter fun r => r.cveId ∉ cveIds) ++ keptRanges db rows }

/-! ### Signed feeds -/

/-- `ON CONFLICT (feed_id, key_id) DO UPDATE … WHERE`: a manifest replaces an older one, and
itself. -/
def FeedState.accept (old new : FeedState) : FeedState :=
  if old.sequence < new.sequence ∨ old.sequence = new.sequence ∧ old.manifestDigest = new.manifestDigest then
    { old with sequence := new.sequence, manifestDigest := new.manifestDigest }
  else old

theorem key_accept (old new : FeedState) : (old.accept new).key = old.key := by
  unfold FeedState.accept
  split <;> rfl

def isAccepted (db : Db) (manifest : FeedState) : Bool :=
  match db.feedStates.get? manifest.key with
  | none => true
  | some old =>
    old.sequence < manifest.sequence ∨ old.sequence = manifest.sequence ∧ old.manifestDigest = manifest.manifestDigest

/-- `record_accepted`: an older manifest, or an equal one with a different hash, changes nothing. -/
def recordAccepted (db : Db) (manifest : FeedState) : Db :=
  { db with feedStates := db.feedStates.upsert FeedState.accept key_accept manifest }

/-- A manifest may come after another of its key. -/
def FeedState.Follows (new old : FeedState) : Prop :=
  old.sequence < new.sequence ∨ old.sequence = new.sequence ∧ old.manifestDigest = new.manifestDigest

theorem FeedState.Follows.refl (f : FeedState) : f.Follows f := .inr ⟨rfl, rfl⟩

theorem FeedState.Follows.trans {a b c : FeedState} (hcb : c.Follows b) (hba : b.Follows a) : c.Follows a := by
  rcases hcb with hlt | ⟨heq, hdig⟩
  · rcases hba with hlt' | ⟨heq', -⟩
    · exact .inl (hlt'.trans hlt)
    · exact .inl (heq'.trans_lt hlt)
  · rcases hba with hlt' | ⟨heq', hdig'⟩
    · exact .inl (hlt'.trans_eq heq)
    · exact .inr ⟨heq'.trans heq, hdig'.trans hdig⟩

variable {db : Db} {file : AppliedFile} {manifest : FeedState}

theorem isAccepted_iff :
    isAccepted db manifest = true ↔ ∀ old, db.feedStates.get? manifest.key = some old → manifest.Follows old := by
  rw [isAccepted]
  cases db.feedStates.get? manifest.key with
  | none => simp
  | some old =>
    rw [decide_eq_true_eq]
    exact ⟨fun h _ ho => Option.some.inj ho ▸ h, fun h => h old rfl⟩

theorem get?_recordAccepted (h : isAccepted db manifest = true) (k : String × String) :
    (recordAccepted db manifest).feedStates.get? k =
      if manifest.key = k then some manifest else db.feedStates.get? k := by
  rw [recordAccepted, get?_upsert]
  split_ifs with hk
  · subst hk
    cases hold : db.feedStates.get? manifest.key with
    | none => rfl
    | some old =>
      have hkey : old.key = manifest.key := key_of_get? hold
      have hfol : manifest.Follows old := isAccepted_iff.mp h old hold
      obtain ⟨hfd, hkeyId⟩ := Prod.mk.inj hkey
      have hacc : old.accept manifest = manifest := by
        unfold FeedState.accept
        unfold FeedState.Follows at hfol
        rw [if_pos hfol, hfd, hkeyId]
      exact congrArg some hacc
  · rfl

/-- `ON CONFLICT (source, kind, name) DO UPDATE … WHERE`: a file replaces one that was not
fetched later. -/
def AppliedFile.replace (old new : AppliedFile) : AppliedFile :=
  if old.fetchedAt ≤ new.fetchedAt then { old with sha256 := new.sha256, fetchedAt := new.fetchedAt } else old

theorem key_replace (old new : AppliedFile) : (old.replace new).key = old.key := by
  unfold AppliedFile.replace
  split <;> rfl

def isNewest (db : Db) (file : AppliedFile) : Bool :=
  match db.appliedFiles.get? file.key with
  | none => true
  | some old => old.fetchedAt ≤ file.fetchedAt

/-- `record_file`: records a file as applied. An older one changes nothing. -/
def recordFile (db : Db) (file : AppliedFile) : Db :=
  { db with appliedFiles := db.appliedFiles.upsert AppliedFile.replace key_replace file }

theorem get?_recordFile (h : isNewest db file) (k : String × String × String) :
    ∃ row, (recordFile db file).appliedFiles.get? k = (if file.key = k then some row else db.appliedFiles.get? k) ∧
      row.sha256 = file.sha256 ∧ row.fetchedAt = file.fetchedAt := by
  rw [recordFile, get?_upsert]
  by_cases hk : file.key = k
  · subst hk
    rw [isNewest] at h
    cases hold : db.appliedFiles.get? file.key with
    | none => exact ⟨file, rfl, rfl, rfl⟩
    | some old =>
      rw [hold] at h
      refine ⟨old.replace file, rfl, ?_⟩
      rw [AppliedFile.replace, if_pos (of_decide_eq_true h)]
      exact ⟨rfl, rfl⟩
  · exact ⟨file, by rw [if_neg hk, if_neg hk], rfl, rfl⟩

theorem fetchedAt_recordFile {old : AppliedFile} {k : String × String × String}
    (h : db.appliedFiles.get? k = some old) :
    ∃ new, (recordFile db file).appliedFiles.get? k = some new ∧ old.fetchedAt ≤ new.fetchedAt := by
  rw [recordFile, get?_upsert, h]
  split_ifs with hk
  · refine ⟨old.replace file, rfl, ?_⟩
    unfold AppliedFile.replace
    split_ifs with hle
    · exact hle
    · exact le_rfl
  · exact ⟨old, rfl, le_rfl⟩

theorem recordFile_of_not_isNewest (h : isNewest db file = false) : recordFile db file = db := by
  rw [isNewest] at h
  cases hold : db.appliedFiles.get? file.key with
  | none => rw [hold] at h; cases h
  | some old =>
    rw [hold] at h
    have hrpl : old.replace file = old := by rw [AppliedFile.replace, if_neg (of_decide_eq_false h)]
    rw [recordFile, upsert_eq_self hold hrpl]

def noHash : Sha256 := List.replicate 32 0

def AppliedFile.forget (f : AppliedFile) : AppliedFile := { f with sha256 := noHash }

theorem key_forget (f : AppliedFile) : f.forget.key = f.key := rfl

/-- `mark_stale`: forgets which version of the files of a kind was applied. -/
def markStale (db : Db) (kind : String) : Db :=
  { db with appliedFiles := db.appliedFiles.updateWhere (fun f => f.kind = kind) AppliedFile.forget key_forget }

theorem get?_markStale (db : Db) (kind : String) (k : String × String × String) :
    (markStale db kind).appliedFiles.get? k =
      (db.appliedFiles.get? k).map fun f => if f.kind = kind then f.forget else f := by
  rw [markStale, get?_updateWhere]
  simp

end OpenVibes.Store
