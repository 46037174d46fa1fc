import OpenVibes.Vulns.Import
import OpenVibes.Vulns.Osv

/-!
# Applying a signed feed

`crates/openvibes-vulns/src/feedimport.rs`: each file of a verified feed is checked against its manifest entry, read by
the importer its kind names, and recorded in `feed_applied_files`; a file recorded with the same hash is not read again.
NVD files have to be read again when advisories or products are added; that need is saved by forgetting their recorded
hashes. `applyFeed` is a program of database steps. What a file's content is read as is a parameter (`Readers`).
-/

namespace OpenVibes.Vulns

open Rust Store Theory List Prog

/-! ### Manifests and files -/

/-- `Kind`: what a file of a feed contains. -/
inductive Kind where
  | repomd
  | updateinfo
  | osv
  | kev
  | epss
  | euvd
  | nvd
deriving DecidableEq

def Kind.asStr : Kind → String
  | .repomd => "repomd"
  | .updateinfo => "updateinfo"
  | .osv => "osv"
  | .kev => "kev"
  | .epss => "epss"
  | .euvd => "euvd"
  | .nvd => "nvd"

def Kind.maxSize : Kind → ℕ
  | .repomd => 2 ^ 20
  | .updateinfo => 256 * 2 ^ 20
  | .osv => 8 * 2 ^ 30
  | .kev => 64 * 2 ^ 20
  | .epss => 128 * 2 ^ 20
  | .euvd => 64 * 2 ^ 20
  | .nvd => 512 * 2 ^ 20

/-- `FileEntry`: one file the manifest names. The manifest spells the hash in hexadecimal. -/
structure FileEntry where
  /-- The source (`kev`, `fedora-44-x86_64`, `ubuntu`, …). -/
  source : String
  kind : Kind
  name : String
  sha256 : Sha256
  size : ℕ
  fetchedAt : ℤ
  releases : Option (List String)

/-- `Accepted`: a verified feed. -/
structure AcceptedFeed where
  (feedId keyId : String)
  sequence : ℕ
  files : List FileEntry
  digest : Sha256

structure SlimNvd where
  cveIds : List String
  applicability : List Applicability

/-- The hash function, and the readers of the file formats. -/
structure Readers where
  sha256 : Bytes → Sha256
  sha256_ne : ∀ content, sha256 content ≠ noHash
  /-- `repodata::updateinfo_location`: the hash of the updateinfo file a `repomd.xml` names. -/
  updateinfoLocation : Bytes → Option Sha256
  updateinfo : Bytes → Except String (List NewAdvisory)
  osvZip : Bytes → List Release → Option (List (List NewAdvisory))
  slimNvd : Bytes → Option SlimNvd
  /-- `parse_kev`, `parse_epss`, `parse_euvd`: whether the file is readable, or why not. -/
  enrichment : Kind → Bytes → Except String Unit

/-- `Unpacked`: the blobs of a feed by their names; a blob that is there may be unreadable. -/
abbrev Blobs := Sha256 → Option (Except String Bytes)

inductive FileRefusal where
  | tooLarge
  | sizeMismatch
  | hashMismatch
  /-- The builder fetched it before the file applied last for this source. -/
  | olderThanApplied
deriving DecidableEq

def FileRefusal.text : FileRefusal → String
  | .tooLarge => "too large"
  | .sizeMismatch => "size mismatch"
  | .hashMismatch => "hash mismatch"
  | .olderThanApplied => "older than the file applied before"

/-- `check_file`: the first failing check of a blob against its entry. -/
def checkFile (entry : FileEntry) (length : ℕ) (sha256 : Sha256) (appliedFetchedAt : Option ℤ) (limit : ℕ) :
    Option FileRefusal :=
  if limit < entry.size ∨ limit < length then some .tooLarge
  else if length ≠ entry.size then some .sizeMismatch
  else if sha256 ≠ entry.sha256 then some .hashMismatch
  else if appliedFetchedAt.any fun applied => entry.fetchedAt < applied then some .olderThanApplied
  else none

/-- `Outcome`: what happened to one file. -/
inductive Outcome where
  | applied
  /-- The same file was applied before, so nothing was read again. -/
  | unchanged
  | refused (why : String)
  | skipped (why : String)
deriving DecidableEq

/-- `FileReport`: one file's line in the report. -/
structure FileReport where
  entry : FileEntry
  outcome : Outcome

/-- `Step`: how an importer left a file. -/
inductive ImportStep where
  | done
  | skip (why : String)

/-! ### The importers -/

def readAll (content : Bytes) (limit : ℕ) : Except String Bytes :=
  if limit < content.length then .error "larger than its limit" else .ok content

/-- `SourceId`: a Fedora release and architecture. -/
structure SourceId where
  (osVersion arch : String)

def SourceId.name (s : SourceId) : String := "fedora-" ++ s.osVersion ++ "-" ++ s.arch

/-- `SourceId::from_str`. -/
def SourceId.parse (value : String) : Except String SourceId :=
  match splitOnce '-' value.toList with
  | some (os, rest) =>
    match splitOnce '-' rest with
    | some (release, arch) =>
      if os = "fedora".toList ∧ release ≠ [] ∧ release.all Char.isDigit ∧ arch ≠ [] ∧
          arch.all (fun c => c.isAlphanum || c = '_') then
        .ok ⟨String.ofList release, String.ofList arch⟩
      else .error "use fedora-<release>-<arch>, e.g. fedora-44-x86_64"
    | none => .error "use fedora-<release>-<arch>, e.g. fedora-44-x86_64"
  | none => .error "use fedora-<release>-<arch>, e.g. fedora-44-x86_64"

def orThrow {α : Type} (x : Except String α) : ImportM α := .ret x

/-- `store_and_match`: stores a release's advisories, re-matches it, and then records the feed as current. -/
def storeAndMatch (source osId osVersion : String) (rows : List NewAdvisory) (sha256 : Sha256) (now : Time) :
    ImportM Unit := do
  let _ ← commit (fun db => replaceAdvisories db osId osVersion rows)
    [.advisoriesStored (rows.map NewAdvisory.advisoryId)]
  match ← ExceptT.lift (onDb (matchRelease osId osVersion now)) with
  | .error e =>
    write (fun db => recordFeed db source (.error ("matching failed: " ++ e.text))) (fun _ => []) fun _ => ()
    throw e.text
  | .ok _ =>
    write (fun db => recordFeed db source (.ok sha256)) (fun _ => []) fun _ => ()
    -- `no_fix_count`, whose result an import of a file does not use
    ask fun _ => ()

variable (readers : Readers)

/-- `feed::import`: imports updateinfo content. -/
def importUpdateinfo (source : SourceId) (content : Bytes) (now : Time) : ImportM Unit :=
  match readers.updateinfo content with
  | .error e => do
    write (fun db => recordFeed db source.name (.error e)) (fun _ => []) fun _ => ()
    throw e
  | .ok rows => storeAndMatch source.name "fedora" source.osVersion rows (readers.sha256 content) now

/-- The checks of `updateinfo`: the repository index in the same feed must name this very file. -/
def checkUpdateinfo (blobs : Blobs) (files : List FileEntry) (entry : FileEntry) : Except String Unit := do
  let index ← (files.find? fun f => f.kind = .repomd ∧ f.source = entry.source).elim
    (.error "no repomd.xml for this source in the feed") .ok
  let repomd ← match blobs index.sha256 with
    | none => .error "the repomd.xml blob is not in the feed"
    | some (.error _) => .error "repomd.xml unreadable"
    | some (.ok content) => (readAll content Kind.repomd.maxSize).mapError fun _ => "repomd.xml unreadable"
  if readers.sha256 repomd ≠ index.sha256 then .error "repomd.xml does not match its manifest entry"
  else match readers.updateinfoLocation repomd with
    | none => .error "repomd.xml does not name an updateinfo file"
    | some location =>
      if location ≠ entry.sha256 then .error "updateinfo does not match repomd.xml" else .ok ()

def updateinfo (blobs : Blobs) (files : List FileEntry) (entry : FileEntry) (content : Bytes) (now : Time) :
    ImportM ImportStep := do
  let source ← orThrow (SourceId.parse entry.source)
  orThrow (checkUpdateinfo readers blobs files entry)
  let content ← orThrow (readAll content Kind.updateinfo.maxSize)
  importUpdateinfo readers source content now
  return .done

/-- `ecosystem`: the OSV ecosystem of a source. -/
def ecosystemOf (source : String) : Option String :=
  if source = "debian" then some "Debian"
  else if source = "ubuntu" then some "Ubuntu"
  else if source = "rocky-linux" then some "Rocky Linux"
  else if source = "almalinux" then some "AlmaLinux"
  else none

/-- `releases_by_ecosystem`, of one ecosystem: the releases hosts run. -/
def releasesOf (db : Db) (ecosystem : String) : List Release :=
  let rows := db.agents.rows.filterMap fun g =>
    match g.osId, g.osRelease with
    | some osId, some release => if osId ∈ ["rocky", "almalinux", "debian", "ubuntu"] then some (osId,
      release) else none
    | _, _ => none
  (Std.TreeSet.ofList rows (cmpProd compare compare)).toList.filterMap fun x =>
    match Release.parse (x.1 ++ "-" ++ x.2) with
    | .ok release => if release.ecosystem = ecosystem then some release else none
    | .error _ => none

def osvFile (entry : FileEntry) (content : Bytes) (now : Time) : ImportM ImportStep := do
  let ecosystem ← orThrow ((ecosystemOf entry.source).elim (.error "unknown ecosystem") .ok)
  let named ← orThrow ((entry.releases.getD []).mapM Release.parse)
  if named.any fun release => release.ecosystem ≠ ecosystem then
    throw ("a release does not belong to " ++ ecosystem)
  -- only the releases hosts run are read, as the live sync does
  let running ← ask fun db => releasesOf db ecosystem
  let wanted := running.filter fun release => release ∈ named
  if wanted = [] then return .skip "no host runs a release in this file; nothing read"
  let found ← orThrow ((readers.osvZip content wanted).elim (.error "not a readable OSV all.zip") .ok)
  (wanted.zip found).foldlM
    (fun _ x => storeAndMatch x.1.name x.1.distribution.osId x.1.version x.2 entry.sha256 now) ()
  return .done

/-- `enrichment`: KEV, EPSS and EUVD, whose tables are not modelled. -/
def enrichment (entry : FileEntry) (content : Bytes) : ImportM ImportStep := do
  let content ← orThrow (readAll content entry.kind.maxSize)
  match readers.enrichment entry.kind content with
  | .error e =>
    write (fun db => recordFeed db entry.kind.asStr (.error e)) (fun _ => []) fun _ => ()
    throw e
  | .ok () =>
    write id (fun _ => []) fun _ => ()
    write (fun db => recordFeed db entry.kind.asStr (.ok (readers.sha256 content))) (fun _ => []) fun _ => ()
    return .done

def nvdFile (content : Bytes) : ImportM ImportStep := do
  let content ← orThrow (readAll content Kind.nvd.maxSize)
  let page ← orThrow ((readers.slimNvd content).elim (.error "not a readable slim NVD file") .ok)
  -- `upsert_nvd`, whose table is not modelled
  write id (fun _ => []) fun _ => ()
  write (fun db => replaceApplicability db page.cveIds page.applicability) (fun _ => []) fun _ => ()
  return .done

/-! ### Applying a feed -/

def FileEntry.row (entry : FileEntry) : AppliedFile :=
  ⟨entry.source, entry.kind.asStr, entry.name, entry.sha256, entry.fetchedAt * 1000000⟩

/-- `record_file` of an entry; returns whether it is the newest. -/
def recordEntry (entry : FileEntry) : ImportM Bool :=
  write (fun db => recordFile db entry.row) (fun db => if isNewest db entry.row then [.fileApplied entry.row] else [])
    fun db => isNewest db entry.row

def importEntry (blobs : Blobs) (files : List FileEntry) (entry : FileEntry) (content : Bytes) (now : Time) :
    ImportM ImportStep :=
  match entry.kind with
  | .repomd => return .done
  | .updateinfo => updateinfo readers blobs files entry content now
  | .osv => osvFile readers entry content now
  | .kev => enrichment readers entry content
  | .epss => enrichment readers entry content
  | .euvd => enrichment readers entry content
  | .nvd => nvdFile readers content

/-- `apply_file`. `known` is what the run knows of `feed_applied_files`. -/
def applyFile (blobs : Blobs) (files : List FileEntry) (known : AppliedFiles) (now : Time)
    (entry : FileEntry) : ImportM Outcome :=
  match blobs entry.sha256 with
  | none => return .refused "the blob is not in the feed"
  | some (.error e) => return .refused ("cannot read the blob: " ++ e)
  | some (.ok content) =>
    let previous := known.get? entry.row.key
    match checkFile entry content.length (readers.sha256 content) (previous.map fun f => f.fetchedAt / 1000000)
        entry.kind.maxSize with
    | some refusal => return .refused refusal.text
    | none =>
      if previous.any fun f => f.sha256 = entry.sha256 then return .unchanged
      else do
        match ← ExceptT.lift (importEntry readers blobs files entry content now) with
        | .ok .done =>
          if ← recordEntry entry then return .applied
          else return .refused "a newer file was applied in the meantime"
        | .ok (.skip why) => return .skipped why
        | .error message => return .refused message

/-- `mark_nvd_stale`: makes every NVD file count as changed until it is applied again. -/
def markNvdStale (known : AppliedFiles) : ImportM AppliedFiles := do
  write (fun db => markStale db "nvd") (fun _ => [.staleMarked "nvd"]) fun _ => ()
  return known.updateWhere (fun f => f.kind = "nvd") AppliedFile.forget key_forget

def markNvdStaleIf (needed : Bool) (known : AppliedFiles) : ImportM AppliedFiles :=
  if needed then markNvdStale known else return known

def applySelected (blobs : Blobs) (files : List FileEntry) (only : List String)
    (known : AppliedFiles) (now : Time) (entry : FileEntry) : ImportM Outcome :=
  if only ≠ [] ∧ entry.source ∉ only then return .skipped "not selected"
  else applyFile readers blobs files known now entry

def applyEntry (blobs : Blobs) (files : List FileEntry) (only : List String) (hasNvd : Bool) (now : Time)
    (state : AppliedFiles × List FileReport) (entry : FileEntry) :
    ImportM (AppliedFiles × List FileReport) := do
  let outcome ← applySelected readers blobs files only state.1 now entry
  let known ← markNvdStaleIf (hasNvd && (entry.kind = .updateinfo || entry.kind = .osv) && outcome = .applied) state.1
  return (known, state.2 ++ [⟨entry, outcome⟩])

/-- `ensure_products` is called for a feed with NVD files. -/
def ensureProductsIf (hasNvd : Bool) : ImportM Bool := if hasNvd then ensureProducts "fedora" else return false

/-- `apply`: applies the files of an accepted feed; `only` limits it to these sources (empty: all). The refresh of CPE
findings is not modelled. -/
def applyFeed (blobs : Blobs) (accepted : AcceptedFeed) (only : List String) (now : Time) :
    ImportM (List FileReport) := do
  match only.find? fun name => !accepted.files.any fun f => f.source = name with
  | some unknown => throw ("the feed has no source " ++ unknown)
  | none =>
    if 2 ^ 63 ≤ accepted.sequence then throw "database query failed"
    let manifest : FeedState := ⟨accepted.feedId, accepted.keyId, accepted.sequence, accepted.digest⟩
    let recorded ← write (fun db => recordAccepted db manifest) (fun _ => []) fun db => isAccepted db manifest
    if !recorded then throw "a newer feed was accepted in the meantime; nothing was applied"
    let known ← ask Db.appliedFiles
    -- NVD last: it keeps only CVEs the advisories above name
    let ordered := (accepted.files.filter fun e => e.kind ≠ .nvd) ++ accepted.files.filter fun e => e.kind = .nvd
    let hasNvd := ordered.any fun e => e.kind = .nvd
    let fresh ← ensureProductsIf hasNvd
    let known ← markNvdStaleIf fresh known
    let state ← ordered.foldlM (applyEntry readers blobs accepted.files only hasNvd now) (known, [])
    return state.2

/-! ### What an import can do -/

def Event.isNeutral : Event → Bool
  | .fileApplied _ => false
  | .staleMarked _ => false
  | _ => true

inductive FeedStep : World → World → Prop where
  | neutral {w : World} {db : Db} {events : List Event} (hdb : db.appliedFiles = w.db.appliedFiles)
      (hevents : ∀ e ∈ events, e.isNeutral) : FeedStep w ⟨db, w.log ++ events⟩
  /-- A file whose hash was checked is recorded, and is the newest. -/
  | recorded {w : World} {file : AppliedFile} (hnew : isNewest w.db file)
      (hsha : ∃ content, file.sha256 = readers.sha256 content) :
      FeedStep w ⟨recordFile w.db file, w.log ++ [.fileApplied file]⟩
  | marked {w : World} : FeedStep w ⟨markStale w.db "nvd", w.log ++ [.staleMarked "nvd"]⟩

variable {readers}

variable {w w' : World} {db : Db}

theorem FeedStep.silent (hdb : db.appliedFiles = w.db.appliedFiles) : FeedStep readers w ⟨db, w.log ++ []⟩ :=
  .neutral hdb nofun

theorem FeedStep.refl (w : World) : FeedStep readers w w := by
  have h : FeedStep readers w ⟨w.db, w.log ++ []⟩ := .silent rfl
  rwa [append_nil] at h

theorem within_orThrow {α : Type} {G : World → World → Prop} (x : Except String α) : Within G (orThrow x) := trivial

/-- A step of an importer: what signed feeds keep stays as it is, and no event tells of it. -/
structure ImporterStep (w w' : World) : Prop where
  feeds : w'.db.feedStates = w.db.feedStates
  files : w'.db.appliedFiles = w.db.appliedFiles
  events : ∃ events, w'.log = w.log ++ events ∧ ∀ e ∈ events, e.isNeutral

theorem ImporterStep.silent (hfds : db.feedStates = w.db.feedStates)
    (hfls : db.appliedFiles = w.db.appliedFiles) : ImporterStep w ⟨db, w.log ++ []⟩ :=
  ⟨hfds, hfls, [], rfl, nofun⟩

theorem ImporterStep.refl (w : World) : ImporterStep w w := ⟨rfl, rfl, [], (append_nil _).symm, nofun⟩

theorem ImporterStep.feedStep (h : ImporterStep w w') : FeedStep readers w w' := by
  obtain ⟨events, hlog, hntr⟩ := h.events
  obtain ⟨db, log⟩ := w'
  obtain rfl : log = w.log ++ events := hlog
  exact .neutral h.files hntr

theorem storeAndMatch_within (source osId osVer : String) (rows : List NewAdvisory) (sha256 : Sha256) (now : Time) :
    Within ImporterStep (storeAndMatch source osId osVer rows sha256 now) := by
  refine .except_bind (within_commit ImporterStep.refl fun w db n h => ?_) fun _ => ?_
  · rw [replaceAdvisories] at h
    split at h
    · cases h
    · cases h
      exact ⟨rfl, rfl, _, rfl, fun e he => by rw [mem_singleton.mp he]; rfl⟩
  have hmch : Within ImporterStep (onDb (matchRelease osId osVer now)) :=
    (matchRelease_within (G := fun db db' => db'.feedStates = db.feedStates ∧ db'.appliedFiles = db.appliedFiles)
      (fun _ _ _ _ => ⟨rfl, rfl⟩) osId osVer now).zoom fun w db h =>
        ⟨h.1, h.2, [], (append_nil _).symm, forall_mem_nil _⟩
  refine .except_bind (.bind hmch fun _ => trivial) fun result => ?_
  cases result with
  | error e => exact .except_bind (within_write fun w => .silent rfl rfl) fun _ => trivial
  | ok n =>
    exact .except_bind (within_write fun w => .silent rfl rfl) fun _ => within_ask ImporterStep.refl _

variable (blobs : Blobs) (files : List FileEntry)

section

variable (entry : FileEntry) (content : Bytes)

include entry content

theorem updateinfo_within (now : Time) : Within ImporterStep (updateinfo readers blobs files entry content now) := by
  refine .except_bind (within_orThrow _) fun source => ?_
  refine .except_bind (within_orThrow _) fun _ => ?_
  refine .except_bind (within_orThrow _) fun content => ?_
  refine .except_bind ?_ fun _ => trivial
  rw [importUpdateinfo]
  split
  · exact .except_bind (within_write fun w => .silent rfl rfl) fun _ => trivial
  · exact storeAndMatch_within _ _ _ _ _ _

theorem osvFile_within (now : Time) : Within ImporterStep (osvFile readers entry content now) := by
  refine .except_bind (within_orThrow _) fun ecosystem => ?_
  refine .except_bind (within_orThrow _) fun named => ?_
  split
  · trivial
  refine .except_bind (within_ask ImporterStep.refl _) fun running => ?_
  dsimp only
  split
  · trivial
  · refine .except_bind (within_orThrow _) fun found => ?_
    refine .except_bind (.foldlM (fun _ x => ?_) _ _) fun _ => trivial
    exact storeAndMatch_within _ _ _ _ _ _

end

section

variable {G : World → World → Prop} (content : Bytes)
  (hG : ∀ (w : World) db, db.feedStates = w.db.feedStates → db.appliedFiles = w.db.appliedFiles → G w ⟨db, w.log ++ []⟩)

include hG

theorem enrichment_within (entry : FileEntry) : Within G (enrichment readers entry content) := by
  refine .except_bind (within_orThrow _) fun content => ?_
  split
  · exact .except_bind (within_write fun w => hG w _ rfl rfl) fun _ => trivial
  · refine .except_bind (within_write fun w => hG w _ rfl rfl) fun _ => ?_
    exact .except_bind (within_write fun w => hG w _ rfl rfl) fun _ => trivial

theorem nvdFile_within : Within G (nvdFile readers content) := by
  refine .except_bind (within_orThrow _) fun content => ?_
  refine .except_bind (within_orThrow _) fun page => ?_
  refine .except_bind (within_write fun w => hG w _ rfl rfl) fun _ => ?_
  exact .except_bind (within_write fun w => hG w _ rfl rfl) fun _ => trivial

end

theorem importEntry_within (entry : FileEntry) (content : Bytes) (now : Time) :
    Within ImporterStep (importEntry readers blobs files entry content now) := by
  rw [importEntry]
  split
  · trivial
  · exact updateinfo_within _ _ _ _ _
  · exact osvFile_within _ _ _
  · exact enrichment_within _ (fun _ _ => .silent) _
  · exact enrichment_within _ (fun _ _ => .silent) _
  · exact enrichment_within _ (fun _ _ => .silent) _
  · exact nvdFile_within _ fun _ _ => .silent

variable {entry : FileEntry}

theorem recordEntry_within (hsha : ∃ content, entry.sha256 = readers.sha256 content) :
    Within (FeedStep readers) (recordEntry entry) := by
  refine within_write fun w => ?_
  cases hnew : isNewest w.db entry.row with
  | true => exact .recorded hnew hsha
  | false => exact .silent (by rw [recordFile_of_not_isNewest hnew])

theorem sha256_of_checkFile {length limit : ℕ} {sha256 : Sha256} {applied : Option ℤ}
    (h : checkFile entry length sha256 applied limit = none) : entry.sha256 = sha256 := by
  rw [checkFile] at h
  split_ifs at h with _ _ hsha
  exact (not_not.mp hsha).symm

theorem applyFile_within (known : AppliedFiles) (now : Time) (entry : FileEntry) :
    Within (FeedStep readers) (applyFile readers blobs files known now entry) := by
  rw [applyFile]
  split
  · trivial
  · trivial
  rename_i content _
  dsimp only
  split
  · trivial
  rename_i hchk
  split
  · trivial
  refine .except_bind
    (Within.bind ((importEntry_within blobs files entry content now).imp fun _ _ => ImporterStep.feedStep)
      fun _ => trivial) fun result => ?_
  split
  · refine .except_bind (recordEntry_within ⟨content, sha256_of_checkFile hchk⟩) fun newest => ?_
    split <;> trivial
  · trivial
  · trivial

theorem markNvdStaleIf_within (needed : Bool) (known : AppliedFiles) :
    Within (FeedStep readers) (markNvdStaleIf needed known) := by
  rw [markNvdStaleIf]
  split
  · exact .except_bind (within_write fun _ => .marked) fun _ => trivial
  · trivial

theorem applyEntry_within (only : List String) (hasNvd : Bool) (now : Time)
    (state : AppliedFiles × List FileReport) (entry : FileEntry) :
    Within (FeedStep readers) (applyEntry readers blobs files only hasNvd now state entry) := by
  refine .except_bind ?_ fun out => ?_
  · rw [applySelected]
    split
    · trivial
    · exact applyFile_within blobs files _ now entry
  · exact .except_bind (markNvdStaleIf_within _ _) fun _ => trivial

theorem ensureProductsIf_within (hasNvd : Bool) : Within (FeedStep readers) (ensureProductsIf hasNvd) := by
  rw [ensureProductsIf]
  split
  · refine .except_bind (within_ask FeedStep.refl _) fun installed => ?_
    refine .except_bind (within_write fun w => .neutral rfl fun e he => ?_) fun _ => trivial
    rw [mem_singleton.mp he]
    rfl
  · trivial

/-- **The steps of applying a feed**, whatever it carries. -/
theorem applyFeed_within (accepted : AcceptedFeed) (only : List String) (now : Time) :
    Within (FeedStep readers) (applyFeed readers blobs accepted only now) := by
  rw [applyFeed]
  split
  · trivial
  split
  · trivial
  refine .except_bind (within_write fun w => .silent rfl) fun recorded => ?_
  split
  · trivial
  refine .except_bind (within_ask FeedStep.refl _) fun known => ?_
  refine .except_bind (ensureProductsIf_within _) fun fresh => ?_
  refine .except_bind (markNvdStaleIf_within _ _) fun known => ?_
  exact .except_bind (.foldlM (applyEntry_within _ _ _ _ _) _ _) fun _ => trivial

/-! ### The hash recorded of an NVD file -/

/-- `file` is the last file applied for its key, and `since` is what happened after. -/
def LastApplied (log : List Event) (file : AppliedFile) (since : List Event) : Prop :=
  (∃ pre, log = pre ++ .fileApplied file :: since) ∧ ∀ g, .fileApplied g ∈ since → g.key ≠ file.key

/-- The recorded hash of every NVD file is that of the last file applied, until it is
forgotten. -/
def TracksNvd (readers : Readers) (w : World) : Prop :=
  ∀ file since, LastApplied w.log file since → file.kind = "nvd" → (∃ content, file.sha256 = readers.sha256 content) ∧
      ∃ row, w.db.appliedFiles.get? file.key = some row ∧
        row.sha256 = if .staleMarked "nvd" ∈ since then noHash else file.sha256

theorem LastApplied.of_append {log new since : List Event} {file : AppliedFile}
    (h : LastApplied (log ++ new) file since) (hnew : .fileApplied file ∉ new) :
    ∃ since', since = since' ++ new ∧ LastApplied log file since' := by
  obtain ⟨⟨pre, hlog⟩, hla⟩ := h
  rcases append_eq_append_cons hlog with ⟨mid, hlog', rfl⟩ | ⟨mid, -, hm⟩
  · exact ⟨mid, rfl, ⟨pre, hlog'⟩, fun g hg => hla g (mem_append_left _ hg)⟩
  · exact absurd (hm ▸ by simp) hnew

theorem LastApplied.of_fileApplied {log since : List Event} {file g : AppliedFile}
    (h : LastApplied (log ++ [.fileApplied g]) file since) :
    since = [] ∧ file = g ∨ ∃ since', since = since' ++ [.fileApplied g] ∧ LastApplied log file since' ∧
        g.key ≠ file.key := by
  by_cases heq : file = g
  · obtain ⟨⟨pre, hlog⟩, hla⟩ := h
    rcases eq_nil_or_concat since with rfl | ⟨since, e, rfl⟩
    · exact .inl ⟨rfl, heq⟩
    · rw [concat_eq_append, ← cons_append, ← append_assoc] at hlog
      obtain ⟨-, he⟩ := append_inj' hlog rfl
      exact absurd (congrArg AppliedFile.key heq.symm) (hla g (by rw [concat_eq_append, ← he]; simp))
  · obtain ⟨since', rfl, hla⟩ := h.of_append (by simpa using heq)
    exact .inr ⟨since', rfl, hla, h.2 g (by simp)⟩

theorem kind_eq_of_key_eq {f g : AppliedFile} (h : f.key = g.key) : f.kind = g.kind :=
  congrArg (fun k : String × String × String => k.2.1) h

theorem TracksNvd.step (h : TracksNvd readers w) (hs : FeedStep readers w w') : TracksNvd readers w' := by
  intro file since hla hkd
  cases hs with
  | @neutral db events hdb hevents =>
    obtain ⟨since, rfl, hold⟩ := hla.of_append fun hm => absurd (hevents _ hm) (by simp [Event.isNeutral])
    obtain ⟨hsha, row, hrow, heq⟩ := h file since hold hkd
    refine ⟨hsha, row, by rw [hdb]; exact hrow, heq.trans ?_⟩
    have hmk : .staleMarked "nvd" ∉ events := fun hm => absurd (hevents _ hm) (by simp [Event.isNeutral])
    simp [hmk]
  | @recorded g hnew hsha =>
    rcases hla.of_fileApplied with ⟨rfl, rfl⟩ | ⟨since, rfl, hla, hne⟩
    · obtain ⟨row, hrow, heq, -⟩ := get?_recordFile hnew file.key
      exact ⟨hsha, row, by rw [hrow, if_pos rfl], by simpa using heq⟩
    · obtain ⟨hsha, row, hrow, heq⟩ := h file since hla hkd
      obtain ⟨row', hrow', -⟩ := get?_recordFile hnew file.key
      exact ⟨hsha, row, by rw [hrow', if_neg hne, hrow], by simpa using heq⟩
  | marked =>
    obtain ⟨since, rfl, hold⟩ := hla.of_append (by simp)
    obtain ⟨hsha, row, hrow, -⟩ := h file since hold hkd
    refine ⟨hsha, row.forget, ?_, by simp [AppliedFile.forget]⟩
    have hk : row.kind = "nvd" := (kind_eq_of_key_eq (Table.key_of_get? hrow)).trans hkd
    rw [markStale, Table.get?_updateWhere, hrow]
    simp [hk]

/-! ### Sequences of imports -/

/-- A run of `apply`: the inventories, the feed with its blobs, the sources, the time and the steps carried out. -/
structure ApplyRun where
  inventories : Inventories
  blobs : Blobs
  accepted : AcceptedFeed
  only : List String
  now : Time
  outcomes : List Bool

variable (readers)

/-- The store after the run, and its report if it was not stopped. -/
def ApplyRun.run (r : ApplyRun) (w : World) : World × Option (Except String (List FileReport)) :=
  Prog.run r.outcomes (applyFeed readers r.blobs r.accepted r.only r.now) (w.withInventories r.inventories)

def applyAll (w : World) (runs : List ApplyRun) : World := runs.foldl (fun w r => (r.run readers w).1) w

/-- The event makes NVD worth reading again: an advisory is stored, or a product added. -/
def Event.needsNvd : Event → Bool
  | .advisoriesStored ids => ids ≠ []
  | .productsAdded products => products ≠ []
  | _ => false

variable {readers}

/-! ### What has to follow an advisory or a product -/

/-- After every advisory stored and every product added the hashes of NVD files were forgotten. -/
def NvdMarked (log : List Event) : Prop :=
  ∀ pre e post, log = pre ++ e :: post → e.needsNvd = true → .staleMarked "nvd" ∈ post

theorem NvdMarked.append {log new : List Event} (h : NvdMarked log) (hnew : ∀ e ∈ new, e.needsNvd = false) :
    NvdMarked (log ++ new) := by
  intro pre e post heq he
  rcases append_eq_append_cons heq with ⟨mid, hlog, rfl⟩ | ⟨mid, -, rfl⟩
  · exact mem_append_left _ (h pre e mid hlog he)
  · rw [hnew e (by simp)] at he
    cases he

theorem nvdMarked_staleMarked (log : List Event) : NvdMarked (log ++ [.staleMarked "nvd"]) := by
  intro pre e post heq he
  rcases append_eq_append_cons heq with ⟨mid, -, rfl⟩ | ⟨mid, -, hmk⟩
  · simp
  · have hmem : e ∈ [Event.staleMarked "nvd"] := hmk ▸ by simp
    rw [mem_singleton.mp hmem] at he
    cases he

/-- A step that brings no advisory and no product. -/
def Quiet (w w' : World) : Prop := ∃ new, w'.log = w.log ++ new ∧ ∀ e ∈ new, e.needsNvd = false

theorem quiet_silent (w : World) (db : Db) : Quiet w ⟨db, w.log ++ []⟩ := ⟨[], rfl, nofun⟩

theorem Quiet.marked (h : Quiet w w') (hw : NvdMarked w.log) : NvdMarked w'.log := by
  obtain ⟨new, hlog, hnew⟩ := h
  rw [hlog]
  exact hw.append hnew

/-- The file brings advisories. -/
def Kind.advisories (kind : Kind) : Bool := kind = .updateinfo || kind = .osv

theorem recordEntry_quiet (entry : FileEntry) : Within Quiet (recordEntry entry) := by
  refine within_write fun w => ⟨_, rfl, fun e he => ?_⟩
  split_ifs at he
  · rw [mem_singleton.mp he]
    rfl
  · cases he

section

variable {α β : Type} {f : α → ImportM β} {Q : Except String β → World → Prop} (herr : ∀ e w, Q (.error e) w)

include herr

theorem always_orThrow_bind {x : Except String α} (hok : ∀ a, Always (fun _ => True) Q (f a) w) :
    Always (fun _ => True) Q (orThrow x >>= f : ImportM β) w := by
  refine .except_bind ?_
  cases x with
  | ok a => exact hok a
  | error e => exact herr e w

theorem always_bind_of_forall {p : ImportM α} (hok : ∀ a w, Always (fun _ => True) Q (f a) w) :
    Always (fun _ => True) Q (p >>= f : ImportM β) w := by
  refine .except_bind (always_of_forall (fun r w => ?_) p w)
  cases r with
  | ok a => exact hok a w
  | error e => exact herr e w

end

/-- **What an importer leaves to be marked**: nothing, unless its file brings advisories and is not left out. -/
theorem importEntry_marked (content : Bytes) (now : Time) (hw : NvdMarked w.log) : Always (fun _ => True)
    (fun result w' => NvdMarked w'.log ∨ entry.kind.advisories = true ∧ ∀ why, result ≠ .ok (.skip why))
    (importEntry readers blobs files entry content now) w := by
  have hquiet {Q : Except String ImportStep → World → Prop} {p : ImportM ImportStep} (hp : Within Quiet p)
      (hQ : ∀ r (w' : World), NvdMarked w'.log → Q r w') : Always (fun _ => True) Q p w :=
    (hp.always (fun _ _ => Quiet.marked) hw).imp (fun _ _ => trivial) hQ
  have hstored (w' : World) (r : Except String ImportStep) (hr : ∀ why, r ≠ .ok (.skip why)) :
      NvdMarked w'.log ∨ true = true ∧ ∀ why, r ≠ .ok (.skip why) := .inr ⟨rfl, hr⟩
  have hdone : ∀ why, (.ok .done : Except String ImportStep) ≠ .ok (.skip why) := fun _ h => by cases h
  have herr (e : String) (w' : World) := hstored w' (.error e) fun _ h => by cases h
  rw [importEntry]
  cases hkind : entry.kind with
  | repomd => exact .inl hw
  | kev | epss | euvd => exact hquiet (enrichment_within _ (fun w db _ _ => quiet_silent w db) _) fun _ _ => .inl
  | nvd => exact hquiet (nvdFile_within _ fun w db _ _ => quiet_silent w db) fun _ _ => .inl
  | updateinfo =>
    refine always_bind_of_forall herr fun source _ => always_bind_of_forall herr fun _ _ => ?_
    refine always_bind_of_forall herr fun _ _ => always_bind_of_forall herr fun _ w' => ?_
    exact hstored w' _ hdone
  | osv =>
    refine always_orThrow_bind herr fun ecosystem => always_orThrow_bind herr fun named => ?_
    split
    · exact herr _ w
    refine always_ask_bind trivial ?_ fun e => herr e w
    dsimp only
    split
    · exact .inl hw
    · refine always_bind_of_forall herr fun found _ => always_bind_of_forall herr fun _ w' => ?_
      exact hstored w' _ hdone

variable (known : AppliedFiles) (now : Time)

/-- **What a file leaves to be marked**: nothing, unless it brings advisories and is applied or refused. -/
theorem applyFile_marked (hw : NvdMarked w.log) : Always (fun _ => True)
    (OnOk fun out w' => NvdMarked w'.log ∨
      entry.kind.advisories = true ∧ (out = .applied ∨ ∃ why, out = .refused why))
    (applyFile readers blobs files known now entry) w := by
  rw [applyFile]
  split
  · exact .inl hw
  · exact .inl hw
  rename_i content _
  dsimp only
  split
  · exact .inl hw
  split
  · exact .inl hw
  refine .lift_bind ((importEntry_marked blobs files content now hw).imp (fun _ _ => trivial)
    fun result w₁ hw₁ => ?_)
  split
  · rcases hw₁ with hw₁ | ⟨hadv, -⟩
    · refine Always.except_bind (((recordEntry_quiet entry).always (fun _ _ => Quiet.marked) hw₁).imp
        (fun _ _ => trivial) fun newest w₂ hw₂ => ?_)
      cases newest with
      | error e => trivial
      | ok newest => cases newest <;> exact .inl hw₂
    · refine always_bind_of_forall (fun _ _ => trivial) fun newest w₂ => ?_
      cases newest with
      | true => exact .inr ⟨hadv, .inl rfl⟩
      | false => exact .inr ⟨hadv, .inr ⟨_, rfl⟩⟩
  · exact hw₁.imp_right fun h => absurd rfl (h.2 _)
  · exact hw₁.imp_right fun h => ⟨h.1, .inr ⟨_, rfl⟩⟩

/-- No file of advisories is refused. -/
def Clean (reports : List FileReport) : Prop :=
  ∀ report ∈ reports, report.entry.kind.advisories = true → ∀ why, report.outcome ≠ .refused why

theorem markNvdStaleIf_marked {needed : Bool} {known : AppliedFiles}
    (h : needed = false → NvdMarked w.log) :
    Always (fun _ => True) (OnOk fun _ w' => NvdMarked w'.log) (markNvdStaleIf needed known) w := by
  rw [markNvdStaleIf]
  cases needed with
  | false => exact h rfl
  | true => exact always_write_bind trivial (nvdMarked_staleMarked w.log) fun _ => trivial

/-- **A file that is applied** is followed by what forgets the hashes. -/
theorem applyEntry_marked (only : List String) (state : AppliedFiles × List FileReport)
    (entry : FileEntry) (hw : Clean state.2 → NvdMarked w.log) :
    Always (fun _ => True) (OnOk fun state w' => Clean state.2 → NvdMarked w'.log)
      (applyEntry readers blobs files only true now state entry) w := by
  by_cases hcl : Clean state.2
  · have hsel : Always (fun _ => True) (OnOk fun out w' => NvdMarked w'.log ∨
        entry.kind.advisories = true ∧ (out = .applied ∨ ∃ why, out = .refused why))
        (applySelected readers blobs files only state.1 now entry) w := by
      rw [applySelected]
      split
      · exact .inl (hw hcl)
      · exact applyFile_marked blobs files state.1 now (hw hcl)
    refine .seq hsel fun out w₁ h₁ => ?_
    by_cases hrfd : entry.kind.advisories = true ∧ ∃ why, out = .refused why
    · obtain ⟨hkd, why, rfl⟩ := hrfd
      refine always_bind_of_forall (fun _ _ => trivial) fun known w₂ hall => ?_
      exact absurd rfl (hall ⟨entry, .refused why⟩ (by simp) hkd why)
    · refine .seq (markNvdStaleIf_marked fun hndd => ?_) fun known w₂ h₂ _ => h₂
      rcases h₁ with h₁ | ⟨hkd, rfl | hwhy⟩
      · exact h₁
      · rw [Kind.advisories] at hkd
        simp [hkd] at hndd
      · exact absurd ⟨hkd, hwhy⟩ hrfd
  · refine always_bind_of_forall (fun _ _ => trivial) fun out w₁ => ?_
    refine always_bind_of_forall (fun _ _ => trivial) fun known w₂ hall => ?_
    exact absurd (fun report hr => hall report (mem_append_left _ hr)) hcl

theorem ensureProductsIf_marked (hw : NvdMarked w.log) : Always (fun _ => True)
    (OnOk fun fresh w' => fresh = false → NvdMarked w'.log) (ensureProductsIf true) w := by
  refine always_ask_bind trivial (always_write_bind trivial (fun hnn => ?_) fun _ => trivial) fun _ => trivial
  refine hw.append fun e he => ?_
  have hnil := of_decide_eq_false hnn
  rw [mem_singleton.mp he, Event.needsNvd, decide_eq_false_iff_not, not_not, ← length_eq_zero_iff]
  exact Nat.eq_zero_of_not_pos hnil

/-- **A run that reports** has marked NVD after all that it brought, if its manifest has an NVD file and it refused no
file of advisories. -/
theorem applyFeed_marked {accepted : AcceptedFeed} (hnvd : ∃ e ∈ accepted.files, e.kind = .nvd) (only : List String)
    (hw : NvdMarked w.log) : Always (fun _ => True) (OnOk fun reports w' => Clean reports → NvdMarked w'.log)
      (applyFeed readers blobs accepted only now) w := by
  have hhas : (((accepted.files.filter fun e => e.kind ≠ .nvd) ++ accepted.files.filter fun e => e.kind = .nvd).any
      fun e => e.kind = .nvd) = true := by
    obtain ⟨e, he, hkd⟩ := hnvd
    exact any_eq_true.mpr ⟨e, mem_append_right _ (mem_filter.mpr ⟨he, by simp [hkd]⟩), by simp [hkd]⟩
  rw [applyFeed]
  split
  · trivial
  split
  · trivial
  refine always_write_bind trivial ?_ fun _ => trivial
  split
  · trivial
  refine always_ask_bind trivial ?_ fun _ => trivial
  dsimp only
  rw [hhas]
  refine .seq (ensureProductsIf_marked (hw.append nofun)) fun fresh w₁ h₁ => ?_
  refine .seq (markNvdStaleIf_marked h₁) fun known w₂ h₂ => ?_
  have hfls := Always.foldlM (J := fun state (w' : World) => Clean state.2 → NvdMarked w'.log)
    (f := applyEntry readers blobs accepted.files only true now)
    (fun state entry w' hw' => applyEntry_marked blobs accepted.files now only state entry hw')
    ((accepted.files.filter fun e => e.kind ≠ .nvd) ++ accepted.files.filter fun e => e.kind = .nvd) (b := (known, []))
    fun _ => h₂
  exact .seq hfls fun state w₃ h₃ => h₃

/-! ### Runs that see to it -/

variable (readers)

/-- What a run that stores an advisory or adds a product has to see to: it is neither stopped nor fails, its manifest
has an NVD file, and it refuses no file of advisories. -/
def ApplyRun.Complete (r : ApplyRun) (w : World) : Prop :=
  ((r.run readers w).1.log.drop w.log.length).any Event.needsNvd = true →
    (∃ e ∈ r.accepted.files, e.kind = .nvd) ∧ ∃ reports, (r.run readers w).2 = some (.ok reports) ∧ Clean reports

/-- Every run of the list does, from where the ones before it leave the world. -/
def AllComplete : World → List ApplyRun → Prop
  | _, [] => True
  | w, r :: runs => r.Complete readers w ∧ AllComplete (r.run readers w).1 runs

variable {readers}

theorem log_run (r : ApplyRun) (w : World) : ∃ new, (r.run readers w).1.log = w.log ++ new := by
  have hsta : ∃ new, (w.withInventories r.inventories).log = w.log ++ new := ⟨[], (append_nil _).symm⟩
  have hwit : Within (FeedStep readers) (applyFeed readers r.blobs r.accepted r.only r.now) :=
    applyFeed_within r.blobs r.accepted r.only r.now
  refine hwit.run (I := fun w' => ∃ new, w'.log = w.log ++ new) ?_ hsta r.outcomes
  rintro w₁ w₂ hs ⟨new, hnew⟩
  cases hs <;> exact ⟨_, by rw [hnew, append_assoc]⟩

/-- **A run keeps NVD marked**, if it sees to it. -/
theorem ApplyRun.Complete.marked {r : ApplyRun} (h : r.Complete readers w) (hw : NvdMarked w.log) :
    NvdMarked (r.run readers w).1.log := by
  obtain ⟨new, hnew⟩ : ∃ new, (r.run readers w).1.log = w.log ++ new := log_run r w
  rw [ApplyRun.Complete, hnew, drop_left] at h
  by_cases hnds : new.any Event.needsNvd = true
  · obtain ⟨hnvd, reports, hrep, hcl⟩ := h hnds
    exact ((applyFeed_marked r.blobs r.now hnvd r.only (w := w.withInventories r.inventories) hw).run trivial
      r.outcomes).2 _ hrep hcl
  · rw [hnew]
    exact hw.append fun e he => by simpa using fun h => hnds (any_eq_true.mpr ⟨e, he, h⟩)

theorem AllComplete.marked {runs : List ApplyRun} (h : AllComplete readers w runs) (hw : NvdMarked w.log) :
    NvdMarked (applyAll readers w runs).log := by
  induction runs generalizing w with
  | nil => exact hw
  | cons r runs ih => exact ih h.2 (h.1.marked hw)

/-- Readers of one NVD file, and a hash of the right kind. -/
def someReaders : Readers where
  sha256 content := 1 :: content
  sha256_ne content := by simp [noHash, List.replicate]
  updateinfoLocation _ := none
  updateinfo _ := .ok []
  osvZip _ _ := none
  slimNvd _ := some ⟨[], []⟩
  enrichment _ _ := .ok ()

end OpenVibes.Vulns
