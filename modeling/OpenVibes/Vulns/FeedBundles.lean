import OpenVibes.Theory.Steps
import OpenVibes.Vulns.FeedVerify

/-!
# Importing feeds side by side

`import_bundle` of `crates/openvibes-admin/src/signed_feeds.rs` and `apply` of
`crates/openvibes-vulns/src/feedimport.rs`, when several imports run at once; nothing locks a feed or a file. An import
stands somewhere in its code (`Phase`), and `step` is one of its statements, or a failure. What the importer of a file
does is left open (`applyFile_eq`), but that it returns that the file was read only after it stored the content. The
store remembers, for each file, the hash of the content stored last; no import reads this.
-/

namespace OpenVibes.Vulns

open Rust Store Theory List

/-! ### One file -/

structure FeedRun where
  blobs : Blobs
  feed : AcceptedFeed
  only : List String

abbrev Known := AppliedFiles

/-- `apply_file` up to the importer: the outcome if none is called. -/
def decided (readers : Readers) (blobs : Blobs) (known : Known) (entry : FileEntry) : Option Outcome :=
  match blobs entry.sha256 with
  | none => some (.refused "the blob is not in the feed")
  | some (.error e) => some (.refused ("cannot read the blob: " ++ e))
  | some (.ok content) =>
    let previous := known.get? entry.row.key
    match checkFile entry content.length (readers.sha256 content) (previous.map fun f => f.fetchedAt / 1000000)
        entry.kind.maxSize with
    | some refusal => some (.refused refusal.text)
    | none => if previous.any fun f => f.sha256 = entry.sha256 then some .unchanged else none

/-- `apply_file` after `record_file`. -/
def recordedOutcome (newest : Bool) : Outcome :=
  if newest then .applied else .refused "a newer file was applied in the meantime"

/-- **`apply_file`**: the file is decided without its importer, or that is called and the file recorded. -/
theorem applyFile_eq (readers : Readers) (blobs : Blobs) (files : List FileEntry) (known : Known) (now : Time)
    (entry : FileEntry) :
    (∃ out, decided readers blobs known entry = some out ∧ applyFile readers blobs files known now entry = pure out) ∨
    ∃ content, decided readers blobs known entry = none ∧ blobs entry.sha256 = some (.ok content) ∧
      applyFile readers blobs files known now entry = do
        match ← ExceptT.lift (importEntry readers blobs files entry content now) with
        | .ok .done => return recordedOutcome (← recordEntry entry)
        | .ok (.skip why) => return .skipped why
        | .error message => return .refused message := by
  rw [applyFile, decided]
  cases blobs entry.sha256 with
  | none => exact .inl ⟨_, rfl, rfl⟩
  | some blob =>
    cases blob with
    | error e => exact .inl ⟨_, rfl, rfl⟩
    | ok content =>
      dsimp only
      cases checkFile entry content.length (readers.sha256 content)
          ((known.get? entry.row.key).map fun f => f.fetchedAt / 1000000) entry.kind.maxSize with
      | some refusal => exact .inl ⟨_, rfl, rfl⟩
      | none =>
        dsimp only
        split_ifs with hsm
        · exact .inl ⟨_, rfl, rfl⟩
        refine .inr ⟨content, rfl, rfl, ?_⟩
        congr 1
        funext result
        split
        · congr 1
          funext newest
          cases newest <;> rfl
        · rfl
        · rfl

/-! ### An import -/

structure Bundle where
  envelope : Bytes
  /-- The blobs its manifest names, or why they cannot be unpacked. -/
  unpacked : Except String Blobs
  sources : List String
  now : Time

inductive Phase where
  | called (b : Bundle)
  | trusting (b : Bundle) (trusted : List TrustedKey)
  | verified (r : FeedRun)
  | accepted (r : FeedRun)
  /-- `ensure_products` works; `known` is what the import read of `feed_applied_files`. -/
  | preparing (r : FeedRun) (known : Known)
  /-- NVD files are to be marked stale, and then these files applied. -/
  | staling (r : FeedRun) (known : Known) (rest : List FileEntry) (reports : List FileReport)
  /-- The importer of a file works; it has stored content or not. -/
  | importing (r : FeedRun) (known : Known) (entry : FileEntry) (stored : Bool) (rest : List FileEntry)
      (reports : List FileReport)
  | recording (r : FeedRun) (known : Known) (entry : FileEntry) (stored : Bool) (rest : List FileEntry)
      (reports : List FileReport)
  | ended (outcome : Except String (List FileReport))

/-- The files in the order in which they are applied: NVD last. -/
def AcceptedFeed.ordered (a : AcceptedFeed) : List FileEntry :=
  (a.files.filter fun e => e.kind ≠ .nvd) ++ a.files.filter fun e => e.kind = .nvd

def AcceptedFeed.hasNvd (a : AcceptedFeed) : Bool := a.files.any fun e => e.kind = .nvd

section

variable (formats : Formats) (readers : Readers)

/-- The loop of `apply`, up to the next file whose importer is called. -/
def nextFile (r : FeedRun) (known : Known) : List FileEntry → List FileReport → Phase
  | [], reports => .ended (.ok reports)
  | entry :: rest, reports =>
    if r.only ≠ [] ∧ entry.source ∉ r.only then nextFile r known rest (reports ++ [⟨entry, .skipped "not selected"⟩])
    else
      match decided readers r.blobs known entry with
      | some outcome => nextFile r known rest (reports ++ [⟨entry, outcome⟩])
      | none => .importing r known entry false rest reports

/-- The turn of the loop after a file whose importer was called. -/
def afterFile (r : FeedRun) (known : Known) (entry : FileEntry) (outcome : Outcome) (rest : List FileEntry)
    (reports : List FileReport) : Phase :=
  if r.feed.hasNvd && (entry.kind = .updateinfo || entry.kind = .osv) && outcome = .applied then
    .staling r known rest (reports ++ [⟨entry, outcome⟩])
  else nextFile readers r known rest (reports ++ [⟨entry, outcome⟩])

/-- `import_bundle` after its queries, and the first check of `apply`. -/
def afterQueries (b : Bundle) (trusted : List TrustedKey) (states : List FeedState) : Phase :=
  match verify formats readers b.envelope trusted states (b.now / 1000000) with
  | .error why => .ended (.error ("feed refused: " ++ why.asStr ++ " (" ++ why.text ++ ")"))
  | .ok (feed, _) =>
    match b.unpacked with
    | .error e => .ended (.error e)
    | .ok blobs =>
      match b.sources.find? fun name => !feed.files.any fun f => f.source = name with
      | some unknown => .ended (.error ("the feed has no source " ++ unknown))
      | none => .verified ⟨blobs, feed, b.sources⟩

/-- The files' hashes forgotten, as an import has them in memory. -/
def forgetNvd (known : Known) : Known := known.updateWhere (fun f => f.kind = "nvd") AppliedFile.forget key_forget

/-! ### Imports side by side -/

structure Imports where
  db : Db
  trust : List TrustedKey
  running : List Phase
  /-- For each file, the hash of the content that an importer stored last. -/
  stored : String × String × String → Option Sha256
  /-- The manifests that `record_accepted` accepted, with the import. -/
  accepted : List (ℕ × AcceptedFeed)
  /-- The files whose content was stored or which were recorded, with the import. -/
  applied : List (ℕ × FileEntry)

inductive ImportAct where
  | start (b : Bundle)
  | step (i : ℕ)
  | fail (i : ℕ)
  /-- A statement of an importer, or of `ensure_products`, that stores nothing of the file. -/
  | work (i : ℕ) (db : Db)
  /-- A statement of an importer that stores content of the file. -/
  | store (i : ℕ) (db : Db)
  /-- `ensure_products` returns whether products were added. -/
  | prepared (i : ℕ) (fresh : Bool)
  | finish (i : ℕ) (result : Except String ImportStep)
  | trust (keys : List TrustedKey)
  | others (db : Db)

def elsewhere (db new : Db) : Db := { new with feedStates := db.feedStates, appliedFiles := db.appliedFiles }

def Imports.become (s : Imports) (i : ℕ) (p : Phase) : Imports := { s with running := s.running.set i p }

def stmt (s : Imports) (i : ℕ) : Phase → Option Imports
  | .called b => some (s.become i (.trusting b s.trust))
  | .trusting b trusted => some (s.become i (afterQueries formats readers b trusted s.db.feedStates.rows))
  | .verified r =>
    if 2 ^ 63 ≤ r.feed.sequence then some (s.become i (.ended (.error "database query failed")))
    else if isAccepted s.db r.feed.state then
      some { s.become i (.accepted r) with
        db := recordAccepted s.db r.feed.state
        accepted := s.accepted ++ [(i, r.feed)] }
    else some (s.become i (.ended (.error "a newer feed was accepted in the meantime; nothing was applied")))
  | .accepted r =>
    let known := s.db.appliedFiles
    if r.feed.hasNvd then some (s.become i (.preparing r known))
    else some (s.become i (nextFile readers r known r.feed.ordered []))
  | .staling r known rest reports =>
    some { s.become i (nextFile readers r (forgetNvd known) rest reports) with db := markStale s.db "nvd" }
  | .recording r known entry _ rest reports =>
    some { s.become i (afterFile readers r known entry (recordedOutcome (isNewest s.db entry.row)) rest reports) with
      db := recordFile s.db entry.row
      applied := s.applied ++ [(i, entry)] }
  | .preparing _ _ | .importing _ _ _ _ _ _ | .ended _ => none

def importsStep (s : Imports) : ImportAct → Option Imports
  | .start b => some { s with running := s.running ++ [.called b] }
  | .step i => s.running[i]?.bind (stmt formats readers s i)
  | .fail i =>
    match s.running[i]? with
    | none | some (.importing _ _ _ _ _ _) | some (.ended _) => none
    | some _ => some (s.become i (.ended (.error StoreError.unavailable.text)))
  | .work i db =>
    match s.running[i]? with
    | some (.preparing _ _) | some (.importing _ _ _ _ _ _) => some { s with db := elsewhere s.db db }
    | _ => none
  | .store i db =>
    match s.running[i]? with
    | some (.importing r known entry _ rest reports) =>
      if entry.kind = .repomd then none
      else
        some { s.become i (.importing r known entry true rest reports) with
          db := elsewhere s.db db
          stored := fun k => if k = entry.row.key then some entry.sha256 else s.stored k
          applied := s.applied ++ [(i, entry)] }
    | _ => none
  | .prepared i fresh =>
    match s.running[i]? with
    | some (.preparing r known) =>
      some (s.become i (if fresh then .staling r known r.feed.ordered []
        else nextFile readers r known r.feed.ordered []))
    | _ => none
  | .finish i result =>
    match s.running[i]? with
    | some (.importing r known entry stored rest reports) =>
      match result with
      | .ok .done =>
        if entry.kind = .repomd ∨ stored then some (s.become i (.recording r known entry stored rest reports)) else none
      | .ok (.skip why) =>
        if stored then none else some (s.become i (afterFile readers r known entry (.skipped why) rest reports))
      | .error message => some (s.become i (afterFile readers r known entry (.refused message) rest reports))
    | _ => none
  | .trust keys => some { s with trust := keys }
  | .others db => some { s with db := elsewhere s.db db }

end

/-! ### What a step can do -/

inductive ImportMoves (formats : Formats) (readers : Readers) (s : Imports) : ImportAct → Imports → Prop where
  | start {b : Bundle} : ImportMoves formats readers s (.start b) { s with running := s.running ++ [.called b] }
  | called {i : ℕ} {b : Bundle} (hp : s.running[i]? = some (.called b)) :
    ImportMoves formats readers s (.step i) (s.become i (.trusting b s.trust))
  /-- The accepted manifests are read, and the feed is verified. -/
  | queried {i : ℕ} {b : Bundle} {trusted : List TrustedKey} (hp : s.running[i]? = some (.trusting b trusted)) :
    ImportMoves formats readers s (.step i) (s.become i (afterQueries formats readers b trusted s.db.feedStates.rows))
  | refused {i : ℕ} {r : FeedRun} {message : String} (hp : s.running[i]? = some (.verified r)) :
    ImportMoves formats readers s (.step i) (s.become i (.ended (.error message)))
  | accept {i : ℕ} {r : FeedRun} (hp : s.running[i]? = some (.verified r)) (hok : isAccepted s.db r.feed.state = true) :
    ImportMoves formats readers s (.step i)
      { s.become i (.accepted r) with
        db := recordAccepted s.db r.feed.state
        accepted := s.accepted ++ [(i, r.feed)] }
  /-- The applied files are read, and products are ensured next. -/
  | prepares {i : ℕ} {r : FeedRun} (hp : s.running[i]? = some (.accepted r)) :
    ImportMoves formats readers s (.step i) (s.become i (.preparing r s.db.appliedFiles))
  | begins {i : ℕ} {r : FeedRun} (hp : s.running[i]? = some (.accepted r)) :
    ImportMoves formats readers s (.step i) (s.become i (nextFile readers r s.db.appliedFiles r.feed.ordered []))
  | stale {i : ℕ} {r : FeedRun} {known : Known} {rest : List FileEntry} {reports : List FileReport}
    (hp : s.running[i]? = some (.staling r known rest reports)) :
    ImportMoves formats readers s (.step i)
      { s.become i (nextFile readers r (forgetNvd known) rest reports) with db := markStale s.db "nvd" }
  | record {i : ℕ} {r : FeedRun} {known : Known} {entry : FileEntry} {stored : Bool} {rest : List FileEntry}
    {reports : List FileReport} (hp : s.running[i]? = some (.recording r known entry stored rest reports)) :
    ImportMoves formats readers s (.step i)
      { s.become i (afterFile readers r known entry (recordedOutcome (isNewest s.db entry.row)) rest reports) with
        db := recordFile s.db entry.row
        applied := s.applied ++ [(i, entry)] }
  | fail {i : ℕ} {p : Phase} {message : String} (hp : s.running[i]? = some p)
    (himporting : ∀ r known entry stored rest reports, p ≠ .importing r known entry stored rest reports) :
    ImportMoves formats readers s (.fail i) (s.become i (.ended (.error message)))
  | work {i : ℕ} {db : Db} : ImportMoves formats readers s (.work i db) { s with db := elsewhere s.db db }
  | store {i : ℕ} {db : Db} {r : FeedRun} {known : Known} {entry : FileEntry} {stored : Bool} {rest : List FileEntry}
    {reports : List FileReport} (hp : s.running[i]? = some (.importing r known entry stored rest reports))
    (hkd : entry.kind ≠ .repomd) :
    ImportMoves formats readers s (.store i db)
      { s.become i (.importing r known entry true rest reports) with
        db := elsewhere s.db db
        stored := fun k => if k = entry.row.key then some entry.sha256 else s.stored k
        applied := s.applied ++ [(i, entry)] }
  | prepared {i : ℕ} {fresh : Bool} {r : FeedRun} {known : Known} (hp : s.running[i]? = some (.preparing r known)) :
    ImportMoves formats readers s (.prepared i fresh)
      (s.become i (if fresh then .staling r known r.feed.ordered [] else nextFile readers r known r.feed.ordered []))
  | done {i : ℕ} {r : FeedRun} {known : Known} {entry : FileEntry} {stored : Bool} {rest : List FileEntry}
    {reports : List FileReport} (hp : s.running[i]? = some (.importing r known entry stored rest reports))
    (hdn : entry.kind = .repomd ∨ stored) :
    ImportMoves formats readers s (.finish i (.ok .done)) (s.become i (.recording r known entry stored rest reports))
  | skip {i : ℕ} {why : String} {r : FeedRun} {known : Known} {entry : FileEntry} {rest : List FileEntry}
    {reports : List FileReport} (hp : s.running[i]? = some (.importing r known entry false rest reports)) :
    ImportMoves formats readers s (.finish i (.ok (.skip why)))
      (s.become i (afterFile readers r known entry (.skipped why) rest reports))
  | refuse {i : ℕ} {message : String} {r : FeedRun} {known : Known} {entry : FileEntry} {stored : Bool}
    {rest : List FileEntry} {reports : List FileReport}
    (hp : s.running[i]? = some (.importing r known entry stored rest reports)) :
    ImportMoves formats readers s (.finish i (.error message))
      (s.become i (afterFile readers r known entry (.refused message) rest reports))
  | trust {keys : List TrustedKey} : ImportMoves formats readers s (.trust keys) { s with trust := keys }
  | others {db : Db} : ImportMoves formats readers s (.others db) { s with db := elsewhere s.db db }

variable {i : ℕ} {a : ImportAct} {entry : FileEntry}

section

variable {formats : Formats} {readers : Readers} {s s' : Imports}

theorem moves_of_stmt {p : Phase} (hp : s.running[i]? = some p) (h : stmt formats readers s i p = some s') :
    ImportMoves formats readers s (.step i) s' := by
  cases p with
  | called b =>
    cases h
    exact .called hp
  | trusting b trusted =>
    cases h
    exact .queried hp
  | verified r =>
    rw [stmt] at h
    split_ifs at h with hbig hok
    · cases h
      exact .refused hp
    · cases h
      exact .accept hp hok
    · cases h
      exact .refused hp
  | accepted r =>
    rw [stmt] at h
    split_ifs at h
    · cases h
      exact .prepares hp
    · cases h
      exact .begins hp
  | staling r known rest reports =>
    cases h
    exact .stale hp
  | recording r known entry stored rest reports =>
    cases h
    exact .record hp
  | preparing | importing | ended => cases h

theorem moves_of_importsStep (h : importsStep formats readers s a = some s') : ImportMoves formats readers s a s' := by
  cases a with
  | start b =>
    cases h
    exact .start
  | step i =>
    obtain ⟨p, hp, h⟩ := Option.bind_eq_some_iff.mp h
    exact moves_of_stmt hp h
  | fail i =>
    rw [importsStep] at h
    split at h
    · cases h
    · cases h
    · cases h
    · rename_i p himporting _ hp
      cases h
      exact .fail hp himporting
  | work i db =>
    rw [importsStep] at h
    split at h
    · cases h
      exact .work
    · cases h
      exact .work
    · cases h
  | store i db =>
    rw [importsStep] at h
    split at h
    · rename_i hp
      split_ifs at h with hkd
      cases h
      exact .store hp hkd
    · cases h
  | prepared i fresh =>
    rw [importsStep] at h
    split at h
    · rename_i hp
      cases h
      exact .prepared hp
    · cases h
  | finish i result =>
    rw [importsStep] at h
    split at h
    · rename_i r known entry stored rest reports hp
      split at h
      · split_ifs at h with hdn
        cases h
        exact .done hp hdn
      · split_ifs at h with hsto
        cases h
        obtain rfl := Bool.eq_false_iff.mpr hsto
        exact .skip hp
      · cases h
        exact .refuse hp
    · cases h
  | trust keys =>
    cases h
    exact .trust
  | others db =>
    cases h
    exact .others

end

/-! ### Where an import goes next -/

section

variable (formats : Formats) (readers : Readers)

theorem nextFile_cases (r : FeedRun) (known : Known) (rest : List FileEntry) (reports : List FileReport) :
    (∃ reports', nextFile readers r known rest reports = .ended (.ok reports')) ∨
      ∃ entry rest' reports', nextFile readers r known rest reports = .importing r known entry false rest' reports' ∧
        (entry :: rest') <:+ rest ∧ decided readers r.blobs known entry = none := by
  induction rest generalizing reports with
  | nil => exact .inl ⟨reports, rfl⟩
  | cons entry rest ih =>
    have hlat : ∀ reports', (∃ reports'', nextFile readers r known rest reports' = .ended (.ok reports'')) ∨
        ∃ e rest' reports'', nextFile readers r known rest reports' = .importing r known e false rest' reports'' ∧
          (e :: rest') <:+ (entry :: rest) ∧ decided readers r.blobs known e = none := fun reports' =>
      (ih reports').imp id fun ⟨e, rest', reports'', heq, hsuf, hdec⟩ =>
        ⟨e, rest', reports'', heq, hsuf.trans (suffix_cons entry rest), hdec⟩
    rw [nextFile]
    split_ifs with hsk
    · exact hlat _
    · cases hdec : decided readers r.blobs known entry with
      | some out => exact hlat _
      | none => exact .inr ⟨entry, rest, reports, rfl, suffix_rfl, hdec⟩

theorem afterQueries_cases (b : Bundle) (trusted : List TrustedKey) (states : List FeedState) :
    (∃ out, afterQueries formats readers b trusted states = .ended out) ∨
      ∃ r again, afterQueries formats readers b trusted states = .verified r ∧
        verify formats readers b.envelope trusted states (b.now / 1000000) = .ok (r.feed, again) := by
  rw [afterQueries]
  cases hver : verify formats readers b.envelope trusted states (b.now / 1000000) with
  | error why => exact .inl ⟨_, rfl⟩
  | ok result =>
    obtain ⟨feed, again⟩ := result
    cases b.unpacked with
    | error e => exact .inl ⟨_, rfl⟩
    | ok blobs =>
      dsimp only
      split
      · exact .inl ⟨_, rfl⟩
      · exact .inr ⟨⟨blobs, feed, b.sources⟩, again, rfl, rfl⟩

theorem ordered_perm (a : AcceptedFeed) : a.ordered.Perm a.files := by
  rw [AcceptedFeed.ordered]
  have h := filter_append_perm (fun e : FileEntry => decide (e.kind ≠ .nvd)) a.files
  simpa using h

end

/-! ### What signed feeds keep does not go back -/

/-- The accepted manifests and the times of the applied files of a later database. -/
structure NoRollback (old new : Db) : Prop where
  feeds : ∀ k f, old.feedStates.get? k = some f → ∃ g, new.feedStates.get? k = some g ∧ g.Follows f
  files : ∀ k f, old.appliedFiles.get? k = some f → ∃ g, new.appliedFiles.get? k = some g ∧ f.fetchedAt ≤ g.fetchedAt

namespace NoRollback

theorem of_eq {old new : Db} (hfds : new.feedStates = old.feedStates) (hfls : new.appliedFiles = old.appliedFiles) :
    NoRollback old new :=
  ⟨fun _ f hf => ⟨f, by rw [hfds]; exact hf, .refl f⟩, fun _ f hf => ⟨f, by rw [hfls]; exact hf, le_rfl⟩⟩

theorem trans {a b c : Db} (hab : NoRollback a b) (hbc : NoRollback b c) : NoRollback a c := by
  constructor
  · intro k f hf
    obtain ⟨g, hg, hgf⟩ := hab.feeds k f hf
    obtain ⟨h, hh, hhg⟩ := hbc.feeds k g hg
    exact ⟨h, hh, hhg.trans hgf⟩
  · intro k f hf
    obtain ⟨g, hg, hfg⟩ := hab.files k f hf
    obtain ⟨h, hh, hgh⟩ := hbc.files k g hg
    exact ⟨h, hh, hfg.trans hgh⟩

theorem recordAccepted {db : Db} {manifest : FeedState} (h : isAccepted db manifest = true) :
    NoRollback db (recordAccepted db manifest) := by
  refine ⟨fun k f hf => ?_, fun k f hf => ⟨f, hf, le_rfl⟩⟩
  rw [get?_recordAccepted h]
  split_ifs with hk
  · subst hk
    exact ⟨manifest, rfl, isAccepted_iff.mp h f hf⟩
  · exact ⟨f, hf, .refl f⟩

theorem recordFile (db : Db) (file : AppliedFile) : NoRollback db (recordFile db file) :=
  ⟨fun _ f hf => ⟨f, hf, .refl f⟩, fun _ _ hf => fetchedAt_recordFile hf⟩

theorem markStale (db : Db) (kind : String) : NoRollback db (markStale db kind) := by
  refine ⟨fun _ f hf => ⟨f, hf, .refl f⟩, fun k f hf => ⟨_, by rw [get?_markStale, hf]; rfl, ?_⟩⟩
  dsimp only
  split_ifs <;> exact le_rfl

end NoRollback

/-! ### What is accepted and applied -/

/-- The feed an import applies, and the files it may still apply. -/
def Phase.applies : Phase → Option (AcceptedFeed × List FileEntry)
  | .accepted r => some (r.feed, r.feed.files)
  | .preparing r _ => some (r.feed, r.feed.files)
  | .staling r _ rest _ => some (r.feed, rest)
  | .importing r _ entry _ rest _ => some (r.feed, entry :: rest)
  | .recording r _ entry _ rest _ => some (r.feed, entry :: rest)
  | _ => none

structure Accepting (s : Imports) : Prop where
  stored : ∀ x ∈ s.accepted, ∃ f, s.db.feedStates.get? x.2.state.key = some f ∧ f.Follows x.2.state
  unique : ∀ x ∈ s.accepted, ∀ y ∈ s.accepted, x.2.state.key = y.2.state.key → x.2.sequence = y.2.sequence →
    x.2.digest = y.2.digest
  /-- An import applies files of a feed that was accepted for it. -/
  running : ∀ (i : ℕ) p a files, s.running[i]? = some p → p.applies = some (a, files) →
    (i, a) ∈ s.accepted ∧ files ⊆ a.files
  applied : ∀ x ∈ s.applied, ∃ a, (x.1, a) ∈ s.accepted ∧ x.2 ∈ a.files

namespace Accepting

variable {s s' : Imports} {p p' : Phase}

theorem become (h : Accepting s) (hro : NoRollback s.db s'.db) (hacc : s'.accepted = s.accepted)
    (hrng : s'.running = s.running.set i p') (hapl : s'.applied = s.applied ∨
      ∃ e, s'.applied = s.applied ++ [(i, e)] ∧ ∃ a, (i, a) ∈ s.accepted ∧ e ∈ a.files)
    (hp : ∀ a files, p'.applies = some (a, files) → (i, a) ∈ s.accepted ∧ files ⊆ a.files) : Accepting s' where
  stored := by
    intro x hx
    rw [hacc] at hx
    obtain ⟨f, hf, hfol⟩ := h.stored x hx
    obtain ⟨g, hg, hgf⟩ := hro.feeds _ f hf
    exact ⟨g, hg, hgf.trans hfol⟩
  unique := by rw [hacc]; exact h.unique
  running := by
    intro j q a files hq haps
    rw [hacc]
    rw [hrng, getElem?_set] at hq
    split_ifs at hq with hij hlt
    · subst hij
      cases hq
      exact hp a files haps
    · exact h.running j q a files hq haps
  applied := by
    rw [hacc]
    rcases hapl with heq | ⟨e, heq, he⟩
    · rw [heq]
      exact h.applied
    rw [heq]
    intro x hx
    rcases mem_append.mp hx with hx | hx
    · exact h.applied x hx
    · rw [mem_singleton.mp hx]
      exact he

theorem rests (h : Accepting s) (hp : p'.applies = none) : Accepting (s.become i p') :=
  h.become (.of_eq rfl rfl) rfl rfl (.inl rfl) fun a files ha => by
    rw [hp] at ha
    cases ha

variable {r : FeedRun}

/-- **A manifest is accepted.** It follows the stored one, which follows those accepted before. -/
theorem accept (h : Accepting s) (hok : isAccepted s.db r.feed.state = true) : Accepting { s.become i (.accepted r) with
      db := Store.recordAccepted s.db r.feed.state
      accepted := s.accepted ++ [(i, r.feed)] } := by
  have hnew : ∀ z ∈ s.accepted, z.2.state.key = r.feed.state.key → z.2.sequence = r.feed.sequence →
      z.2.digest = r.feed.digest := by
    intro z hz hkey hseq
    obtain ⟨f, hf, hfol⟩ := h.stored z hz
    rw [hkey] at hf
    rcases (isAccepted_iff.mp hok f hf).trans hfol with hlt | ⟨-, hdig⟩
    · exact absurd (show z.2.sequence < r.feed.sequence from hlt) (by omega)
    · exact hdig
  refine ⟨fun x hx => ?_, fun x hx y hy hkey hseq => ?_, fun j q a files hq haps => ?_, fun x hx => ?_⟩
  · rcases mem_append.mp hx with hx | hx
    · obtain ⟨f, hf, hfol⟩ := h.stored x hx
      obtain ⟨g, hg, hgf⟩ := (NoRollback.recordAccepted hok).feeds _ f hf
      exact ⟨g, hg, hgf.trans hfol⟩
    · rw [mem_singleton.mp hx]
      exact ⟨r.feed.state, (get?_recordAccepted hok _).trans (if_pos rfl), .refl _⟩
  · rcases mem_append.mp hx with hx | hx <;> rcases mem_append.mp hy with hy | hy
    · exact h.unique x hx y hy hkey hseq
    · rw [mem_singleton.mp hy] at hkey hseq ⊢
      exact hnew x hx hkey hseq
    · rw [mem_singleton.mp hx] at hkey hseq ⊢
      exact (hnew y hy hkey.symm hseq.symm).symm
    · rw [mem_singleton.mp hx, mem_singleton.mp hy]
  · change (s.running.set i (.accepted r))[j]? = some q at hq
    rw [getElem?_set] at hq
    split_ifs at hq with hij hlt
    · subst hij
      cases hq
      cases haps
      exact ⟨mem_append_right _ (mem_singleton.mpr rfl), .refl _⟩
    · obtain ⟨hmem, hsub⟩ := h.running j q a files hq haps
      exact ⟨mem_append_left _ hmem, hsub⟩
  · obtain ⟨a, hmem, ha⟩ := h.applied x hx
    exact ⟨a, mem_append_left _ hmem, ha⟩

variable {known : Known} {reports : List FileReport} {a : AcceptedFeed} {readers : Readers}
  {rest files : List FileEntry}

theorem applies_nextFile
    (h : (nextFile readers r known rest reports).applies = some (a, files)) : a = r.feed ∧ files ⊆ rest := by
  rcases nextFile_cases readers r known rest reports with ⟨_, heq⟩ | ⟨entry, rest', _, heq, hsuf, -⟩
  · rw [heq] at h
    cases h
  · rw [heq] at h
    cases h
    exact ⟨rfl, hsuf.subset⟩

theorem applies_afterFile {out : Outcome}
    (h : (afterFile readers r known entry out rest reports).applies = some (a, files)) :
    a = r.feed ∧ files ⊆ rest := by
  rw [afterFile] at h
  split_ifs at h
  · cases h
    exact ⟨rfl, .refl _⟩
  · exact applies_nextFile h

end Accepting

variable {r : FeedRun}

section

variable {formats : Formats} {readers : Readers} {s s' : Imports}

section

variable (h : Accepting s) {known : Known}

include h

theorem Accepting.start (b : Bundle) : Accepting { s with running := s.running ++ [.called b] } := by
  refine ⟨h.stored, h.unique, fun j q a files hq haps => ?_, h.applied⟩
  rw [getElem?_append] at hq
  split_ifs at hq with hlt
  · exact h.running j q a files hq haps
  · rw [mem_singleton.mp (mem_of_getElem? hq)] at haps
    cases haps

theorem Accepting.begin (hmem : (i, r.feed) ∈ s.accepted) :
    Accepting (s.become i (nextFile readers r known r.feed.ordered [])) := by
  refine h.become (.of_eq rfl rfl) rfl rfl (.inl rfl) fun a files ha => ?_
  obtain ⟨rfl, hfls⟩ := applies_nextFile ha
  exact ⟨hmem, fun e he => (ordered_perm r.feed).subset (hfls he)⟩

theorem Accepting.leave {stored : Bool} {rest : List FileEntry}
    {reports : List FileReport} (hp : s.running[i]? = some (.importing r known entry stored rest reports))
    (out : Outcome) : Accepting (s.become i (afterFile readers r known entry out rest reports)) := by
  obtain ⟨hmem, hsub⟩ := h.running i _ _ _ hp rfl
  refine h.become (.of_eq rfl rfl) rfl rfl (.inl rfl) fun a files ha => ?_
  obtain ⟨rfl, hfls⟩ := applies_afterFile ha
  exact ⟨hmem, fun e he => hsub (mem_cons_of_mem _ (hfls he))⟩

/-- **One step** keeps what is accepted and applied in order, and rolls nothing back. -/
theorem Accepting.step (hs : importsStep formats readers s a = some s') : Accepting s' ∧ NoRollback s.db s'.db := by
  have hsm : NoRollback s.db s.db := .of_eq rfl rfl
  cases moves_of_importsStep hs with
  | start => exact ⟨h.start _, hsm⟩
  | called hp => exact ⟨h.rests rfl, hsm⟩
  | @queried i b trusted hp =>
    refine ⟨h.rests ?_, hsm⟩
    rcases afterQueries_cases formats readers b trusted s.db.feedStates.rows with ⟨_, heq⟩ | ⟨_, _, heq, -⟩
    all_goals
      rw [heq]
      rfl
  | accept hp hok => exact ⟨h.accept hok, .recordAccepted hok⟩
  | prepares hp | done hp =>
    obtain ⟨hmem, hsub⟩ := h.running _ _ _ _ hp rfl
    refine ⟨h.become hsm rfl rfl (.inl rfl) fun a files ha => ?_, hsm⟩
    cases ha
    exact ⟨hmem, hsub⟩
  | begins hp => exact ⟨h.begin (h.running _ _ _ _ hp rfl).1, hsm⟩
  | stale hp =>
    obtain ⟨hmem, hsub⟩ := h.running _ _ _ _ hp rfl
    have hro := NoRollback.markStale s.db "nvd"
    refine ⟨h.become hro rfl rfl (.inl rfl) fun a files ha => ?_, hro⟩
    obtain ⟨rfl, hfls⟩ := applies_nextFile ha
    exact ⟨hmem, fun e he => hsub (hfls he)⟩
  | @record i r known entry stored rest reports hp =>
    obtain ⟨hmem, hsub⟩ := h.running _ _ _ _ hp rfl
    have hro := NoRollback.recordFile s.db entry.row
    refine ⟨h.become hro rfl rfl (.inr ⟨entry, rfl, r.feed, hmem, hsub mem_cons_self⟩) fun a files ha => ?_, hro⟩
    obtain ⟨rfl, hfls⟩ := applies_afterFile ha
    exact ⟨hmem, fun e he => hsub (mem_cons_of_mem _ (hfls he))⟩
  | refused hp | fail hp => exact ⟨h.rests rfl, hsm⟩
  | work | others => exact ⟨⟨h.stored, h.unique, h.running, h.applied⟩, .of_eq rfl rfl⟩
  | @store i db r known entry stored rest reports hp hkd =>
    obtain ⟨hmem, hsub⟩ := h.running _ _ _ _ hp rfl
    refine ⟨h.become (.of_eq rfl rfl) rfl rfl (.inr ⟨entry, rfl, r.feed, hmem, hsub mem_cons_self⟩)
      fun a files ha => ?_, .of_eq rfl rfl⟩
    cases ha
    exact ⟨hmem, hsub⟩
  | @prepared i fresh r known hp =>
    obtain ⟨hmem, hsub⟩ := h.running _ _ _ _ hp rfl
    refine ⟨?_, hsm⟩
    split_ifs
    · refine h.become hsm rfl rfl (.inl rfl) fun a files ha => ?_
      cases ha
      exact ⟨hmem, (ordered_perm r.feed).subset⟩
    · exact h.begin hmem
  | skip hp | refuse hp => exact ⟨h.leave hp _, hsm⟩
  | trust => exact ⟨⟨h.stored, h.unique, h.running, h.applied⟩, hsm⟩

theorem Accepting.run {as : List ImportAct} (hrun : run (importsStep formats readers) s as = some s') :
    Accepting s' ∧ NoRollback s.db s'.db := by
  refine run_invariant (I := fun t => Accepting t ∧ NoRollback s.db t.db) (fun t a t' ht hst => ?_)
    ⟨h, .of_eq rfl rfl⟩ hrun
  obtain ⟨hnx, hro⟩ := ht.1.step hst
  exact ⟨hnx, ht.2.trans hro⟩

end

structure Imports.Fresh (s : Imports) : Prop where
  running : s.running = []
  accepted : s.accepted = []
  applied : s.applied = []

theorem Imports.Fresh.accepting (h : s.Fresh) : Accepting s where
  stored x hx := by rw [h.accepted] at hx; cases hx
  unique x hx := by rw [h.accepted] at hx; cases hx
  running i p a files hp := by rw [h.running] at hp; cases hp
  applied x hx := by rw [h.applied] at hx; cases hx

/-- **No feed rollback**: whichever imports run at once and however they are interleaved, the accepted sequence of every
key and the time of every applied file do not decrease; two manifests accepted for a key under one sequence have one
digest; and every file applied belongs to a feed that was accepted for its import. -/
theorem no_feed_rollback {s₀ s₁ s₂ : Imports} {as bs : List ImportAct} (h₀ : s₀.Fresh)
    (h₁ : run (importsStep formats readers) s₀ as = some s₁) (h₂ : run (importsStep formats readers) s₁ bs = some s₂) :
    (∀ k f, s₁.db.feedStates.get? k = some f → ∃ g, s₂.db.feedStates.get? k = some g ∧ f.sequence ≤ g.sequence) ∧
      (∀ x ∈ s₂.accepted, ∀ y ∈ s₂.accepted, x.2.feedId = y.2.feedId → x.2.keyId = y.2.keyId →
        x.2.sequence = y.2.sequence → x.2.digest = y.2.digest) ∧
      (∀ x ∈ s₂.applied, ∃ a, (x.1, a) ∈ s₂.accepted ∧ x.2 ∈ a.files) ∧
      ∀ k f, s₁.db.appliedFiles.get? k = some f →
        ∃ g, s₂.db.appliedFiles.get? k = some g ∧ f.fetchedAt ≤ g.fetchedAt := by
  obtain ⟨h, hro⟩ := (h₀.accepting.run h₁).1.run h₂
  refine ⟨fun k f hf => ?_, fun x hx y hy hfd hkey => h.unique x hx y hy (Prod.ext hfd hkey), h.applied, hro.files⟩
  obtain ⟨g, hg, hlt | ⟨heq, -⟩⟩ := hro.feeds k f hf
  · exact ⟨g, hg, hlt.le⟩
  · exact ⟨g, hg, heq.le⟩

end

/-! ### Two feeds -/

def zeros : Bytes := List.replicate 30 0

def sampleEntry (n : ℕ) (digit : String) : ManifestEntry where
  source := "kev"
  kind := .kev
  name := "kev.json"
  sha256 := "010" ++ digit ++ "000000000000000000000000000000000000000000000000000000000000"
  size := 31
  fetchedAt := n
  upstream := "https://"
  releases := none

def sampleFormats : Formats where
  envelope bytes :=
    match bytes with
    | [2] => some ⟨1, "feed", "key", "signature", "m2"⟩
    | [3] => some ⟨1, "feed", "key", "signature", "m3"⟩
    | _ => none
  manifest text :=
    if text = "m2" then some ⟨2, 1, 1000, [sampleEntry 2 "2"]⟩
    else if text = "m3" then some ⟨3, 1, 1000, [sampleEntry 3 "3"]⟩
    else none
  base64Decode _ := some (List.replicate 64 0)
  base64Encode _ := "signature"
  signed _ _ _ := true

def sampleBundle (n : UInt8) : Bundle where
  envelope := [n]
  unpacked := .ok fun name => if name = 1 :: n :: zeros then some (.ok (n :: zeros)) else none
  sources := []
  now := 10000000

def sampleImports : Imports := ⟨Db.empty, [⟨"feed", "key", []⟩], [], fun _ => none, [], []⟩

theorem sampleImports_fresh : sampleImports.Fresh := ⟨rfl, rfl, rfl⟩

def sampleImportActs : List ImportAct :=
  [.start (sampleBundle 2), .step 0, .step 0, .step 0, .step 0, .store 0 Db.empty, .finish 0 (.ok .done), .step 0,
    .start (sampleBundle 3), .step 1, .step 1, .step 1, .step 1, .store 1 Db.empty, .finish 1 (.ok .done), .step 1]

theorem no_feed_rollback_sample :
    ∃ s₁ s₂, run (importsStep sampleFormats someReaders) sampleImports (sampleImportActs.take 8) = some s₁ ∧
      run (importsStep sampleFormats someReaders) s₁ (sampleImportActs.drop 8) = some s₂ ∧
      s₂.accepted.length = 2 ∧ ∀ k f, s₁.db.feedStates.get? k = some f →
        ∃ g, s₂.db.feedStates.get? k = some g ∧ f.sequence ≤ g.sequence := by
  have hall : (run (importsStep sampleFormats someReaders) sampleImports sampleImportActs).map
      (fun s => s.accepted.length) = some 2 := by decide +kernel
  obtain ⟨s₂, hs₂, hlen⟩ := Option.map_eq_some_iff.mp hall
  rw [← take_append_drop 8 sampleImportActs] at hs₂
  obtain ⟨s₁, h₁, h₂⟩ := run_append.mp hs₂
  exact ⟨s₁, s₂, h₁, h₂, hlen, (no_feed_rollback sampleImports_fresh h₁ h₂).1⟩

end OpenVibes.Vulns
