import OpenVibes.Feed.Build
import OpenVibes.Theory.Steps

/-!
# What a published feed names is there

The next sequence and the blobs that are kept for readers of the manifest before come from `state.json`. A build that
stops once `feed.json` is written leaves the `state.json` of the manifest before: the next build may publish the same
sequence again, and prunes the blobs of the manifest it replaces.
-/

namespace OpenVibes.Feed

open Rust Theory Vulns List Prog Option
open Theory.Prog (Keeps OnOk)

/-! ### Before a build publishes -/

/-- What a build does to the tree before it publishes: it adds blobs and saves NVD's state. -/
structure Grows (t t' : Tree) : Prop where
  feed : t'.feed = t.feed
  state : t'.state = t.state
  published : t'.published = t.published
  saves : t'.saves = t.saves
  blobs : t.blobs ⊆ t'.blobs

instance : IsPreorder Tree Grows where
  refl _ := ⟨rfl, rfl, rfl, rfl, List.Subset.refl _⟩
  trans _ _ _ h h' :=
    ⟨h'.feed.trans h.feed, h'.state.trans h.state, h'.published.trans h.published, h'.saves.trans h.saves,
      List.Subset.trans h.blobs h'.blobs⟩

theorem Grows.refl (t : Tree) : Grows t t := refl_of Grows t

theorem Grows.addBlob (t : Tree) (sha256 : String) : Grows t (t.addBlob sha256) :=
  ⟨rfl, rfl, rfl, rfl, fun _ hb => mem_insert_of_mem hb⟩

def Present (files : Files) (t : Tree) : Prop :=
  ∀ (key : String) (held : Held), files[key]? = some held → held.sha256 ∈ t.blobs

variable {files : Files} {manifest : Manifest} {keep : List String}

theorem Present.mono (t t' : Tree) (h : Grows t t') (hp : Present files t) : Present files t' :=
  fun key held hk => h.blobs (hp key held hk)

variable {key : String} {held : Held} {current : Files} {α : Type} {P : Tree → Prop} {t₁ t t' : Tree}

theorem present_insert (h : Present files t) (hhd : held.sha256 ∈ t.blobs) : Present (files.insert key held) t := by
  intro k x hk
  rw [Std.TreeMap.getElem?_insert] at hk
  split_ifs at hk
  · cases hk
    exact hhd
  · exact h k x hk

theorem present_insertIfNew (h : Present files t) (hhd : held.sha256 ∈ t.blobs) :
    Present (files.insertIfNew key held) t := by
  intro k x hk
  rw [Std.TreeMap.getElem?_insertIfNew] at hk
  split_ifs at hk
  · cases hk
    exact hhd
  · exact h k x hk

theorem present_foldl {add : Files → String × Held → Files}
    (hadd : ∀ files x, Present files t → x.2.sha256 ∈ t.blobs → Present (add files x) t)
    {files : List (String × Held)} (hfls : ∀ x ∈ files, x.2.sha256 ∈ t.blobs) (h : Present current t) :
    Present (files.foldl add current) t := by
  induction files generalizing current with
  | nil => exact h
  | cons x files ih =>
    exact ih (fun y hy => hfls y (mem_cons_of_mem _ hy)) (hadd current x h (hfls x mem_cons_self))

/-! ### Blobs -/

theorem blobExists_keeps (sha256 : String) :
    (blobExists sha256).Keeps Grows (fun _ => True) fun there t => there = true → sha256 ∈ t.blobs := by
  refine .step fun t _ => ⟨.refl t, .ret ?_, .ret ?_⟩
  · rintro _ rfl
    exact of_decide_eq_true
  · intro _ _ hfa
    cases hfa

theorem fileStep_keeps (error : String) (q : Tree → α) : Keeps Grows P (fileStep error id q) (OnOk fun _ => P) :=
  Keeps.stmt fun t ht => ⟨.refl t, ht⟩

theorem orFail_keeps (x : Except String α) : Keeps Grows P (orFail x) (OnOk fun _ => P) := by
  cases x with
  | ok a => exact .pure fun _ h => h
  | error e => exact .throw e

theorem putBlob_keeps (env : Env) (sha256 : String) :
    Keeps Grows (fun _ => True) (putBlob env sha256) (OnOk fun _ t => sha256 ∈ t.blobs) := by
  refine .except_bind (.lift (blobExists_keeps sha256)) fun there => ?_
  split_ifs with hthr
  · exact .pure fun t ht => ht hthr
  · exact .stmt fun t _ => ⟨.addBlob t sha256, mem_insert_self⟩

theorem store_keeps (env : Env) (bytes : Bytes) :
    Keeps Grows (fun _ => True) (store env bytes) (OnOk fun sha256 t => sha256 ∈ t.blobs) :=
  Keeps.except_bind (putBlob_keeps env _) fun _ => Keeps.pure fun _ h => h

theorem usable_keeps (held : Option Held) :
    (usable held).Keeps Grows (fun _ => True) fun found t => ∀ h ∈ found, h.sha256 ∈ t.blobs := by
  cases held with
  | none => exact .ret fun _ _ _ hh => by cases hh
  | some held =>
    refine .bind (blobExists_keeps held.sha256) fun there => .ret fun t ht h hh => ?_
    split_ifs at hh with hthr
    · cases hh
      exact ht hthr
    · cases hh

theorem present_keeps {κ : Type} (files : List (κ × Held)) :
    (present files).Keeps Grows (fun _ => True) fun found t => ∀ x ∈ found, x.2.sha256 ∈ t.blobs := by
  induction files with
  | nil => exact .ret fun _ _ x hx => by cases hx
  | cons x files ih =>
    refine .bind (blobExists_keeps x.2.sha256) fun there => ?_
    have hrs := ih.frame (F := fun t => there = true → x.2.sha256 ∈ t.blobs) fun _ _ h hx ht => h.blobs (hx ht)
    refine .bind hrs fun rest => .ret fun t ht y hy => ?_
    split_ifs at hy with hthr
    · rcases mem_cons.mp hy with rfl | hy
      · exact ht.2 hthr
      · exact ht.1 y hy
    · exact ht.1 y hy

/-! ### Sources -/

section

variable (env : Env) (up : Upstream)

theorem finish_keeps (body : Bytes) (kind : Kind) (name url : String) (etag : Option String) (now : ℤ) :
    Keeps Grows (fun _ => True) (finish env body kind name url etag now)
      (OnOk fun held t => held.sha256 ∈ t.blobs) := by
  rw [finish]
  split_ifs
  · exact .throw _
  · exact .except_bind (store_keeps env body) fun _ => .pure fun _ h => h

theorem unchanged_keeps (kept : Option Held) (now : ℤ) :
    Keeps Grows (fun t => ∀ h ∈ kept, h.sha256 ∈ t.blobs) (unchanged kept now)
      (OnOk fun held t => held.sha256 ∈ t.blobs) := by
  cases kept with
  | none => exact .throw _
  | some held => exact .pure fun _ h => h held rfl

theorem small_keeps (url : String) (kind : Kind) (name : String) (prev : Option Held) (now : ℤ) :
    Keeps Grows (fun _ => True) (small env up url kind name prev now) (OnOk fun held t => held.sha256 ∈ t.blobs) := by
  refine .except_bind (.lift (usable_keeps prev)) fun kept => ?_
  refine .except_bind (orFail_keeps _) fun answer => ?_
  cases answer with
  | none => exact unchanged_keeps kept now
  | some file => exact (finish_keeps env file.1 kind name url file.2 now).of_true

theorem fedora_keeps (config : Config) (source : String) (prevRepomd prevInfo : Option Held) (now : ℤ) :
    Keeps Grows (fun _ => True) (fedora env up config source prevRepomd prevInfo now)
      (OnOk fun files t => files.1.sha256 ∈ t.blobs ∧ files.2.sha256 ∈ t.blobs) := by
  refine .except_bind (orFail_keeps _) fun id => ?_
  refine .except_bind (.lift (usable_keeps prevRepomd)) fun repomd => ?_
  refine .except_bind (.lift ((usable_keeps prevInfo).frame fun _ _ h hr x hx => h.blobs
    (hr x hx))) fun info => ?_
  refine .except_bind (orFail_keeps _) fun answer => ?_
  cases answer with
  | none =>
    cases repomd with
    | none => exact .throw _
    | some repomd =>
      cases info with
      | none => exact .throw _
      | some info => exact .pure fun _ h => ⟨h.2 repomd rfl, h.1 info rfl⟩
  | some files =>
    refine .except_bind (finish_keeps env files.repomd .repomd _ _ none now).of_true fun repomd => ?_
    have hin := (finish_keeps env files.updateinfo .updateinfo (updateinfoName files.name)
      ((config.metalinkUrl.replace "\x7brelease\x7d" id.osVersion).replace "\x7barch\x7d" id.arch) none
      now).except_frame
      (F := fun t => repomd.sha256 ∈ t.blobs) fun _ _ h hr => h.blobs hr
    exact .except_bind hin fun info => .pure fun _ h => ⟨h.2, h.1⟩

theorem osv_keeps (config : Config) (ecosystem : String) (releases : List String) (prev : Option Held) (now : ℤ) :
    Keeps Grows (fun _ => True) (osv env up config ecosystem releases prev now)
      (OnOk fun held t => held.sha256 ∈ t.blobs) := by
  refine .except_bind (.lift (usable_keeps prev)) fun kept => ?_
  refine .except_bind (orFail_keeps _) fun answer => ?_
  cases answer with
  | none => exact .except_bind (unchanged_keeps kept now) fun _ => .pure fun _ h => h
  | some file =>
    refine .except_bind (fileStep_keeps _ _) fun _ => ?_
    split_ifs
    · exact .throw _
    · exact .except_bind (putBlob_keeps env file.1).of_true fun _ => .pure fun _ h => h

/-! ### NVD -/

theorem saveNvd_keeps (state : NvdState) : Keeps Grows (fun _ => True) (saveNvd env state) (OnOk fun _ _ => True) :=
  Keeps.stmt fun _ _ => ⟨⟨rfl, rfl, rfl, rfl, List.Subset.refl _⟩, trivial⟩

theorem earlierYear_keeps (state : NvdState) (year : ℕ) :
    Keeps Grows (fun _ => True) (earlierYear state year) (OnOk fun _ _ => True) := by
  rw [earlierYear]
  split
  · exact .pure fun _ h => h
  refine .except_bind (.lift (blobExists_keeps _)) fun there => ?_
  split_ifs
  · exact .pure fun _ _ => trivial
  · exact .throw _

theorem flushYear_keeps (window : NvdWindow) (now : ℤ) (upstream : String) (state : NvdState) (year : ℕ) :
    Keeps Grows (fun _ => True) (flushYear env window now upstream state year) (OnOk fun _ _ => True) := by
  refine .except_bind (earlierYear_keeps state year) fun earlier => ?_
  refine .except_bind (orFail_keeps _) fun bytes => ?_
  split_ifs
  · exact .throw _
  · exact .throw _
  refine .except_bind (store_keeps env bytes) fun sha256 => ?_
  split_ifs
  · exact .pure fun _ _ => trivial
  · exact .pure fun _ _ => trivial

theorem flush_keeps (window : NvdWindow) (now : ℤ) (upstream : String) (years : List ℕ) (state : NvdState) :
    (flush env window now upstream years state).Keeps Grows (fun _ => True) fun _ _ => True := by
  induction years generalizing state with
  | nil => exact .ret fun _ h => h
  | cons year years ih =>
    refine .bind (flushYear_keeps env window now upstream state year) fun result => ?_
    cases result with
    | ok state => exact (ih state).of_true
    | error e => exact .ret fun _ h => h

theorem syncWindows_keeps (now : ℤ) (upstream : String) (turns : ℕ) (start : ℤ) (p : NvdProgress) :
    (syncWindows env up now upstream turns start p).Keeps Grows (fun _ => True) fun _ _ => True := by
  induction turns generalizing start p with
  | zero => exact .ret fun _ h => h
  | succ turns ih =>
    rw [syncWindows]
    split_ifs
    · dsimp only
      split
      · exact .ret fun _ h => h
      refine .bind (flush_keeps env _ now upstream _ _) fun flushed => ?_
      split
      · exact .ret fun _ h => h
      refine .bind (saveNvd_keeps env _) fun saved => ?_
      cases saved with
      | ok _ => exact (ih _ _).of_true
      | error e => exact .ret fun _ h => h
    · exact .ret fun _ h => h

theorem synced_keeps (p : NvdProgress) (fresh : Bool) (error : Option String) :
    (synced env p fresh error).Keeps Grows (fun _ => True) fun result t => ∀ x ∈ result.files, x.2.sha256 ∈ t.blobs :=
        by
  rw [synced]
  split_ifs
  · refine Keeps.bind (present_keeps _) fun years => Keeps.ret fun t ht x hx => ?_
    obtain ⟨year, hyr, rfl⟩ := mem_map.mp hx
    exact ht year hyr
  · exact Keeps.ret fun _ _ x hx => by cases hx

theorem sync_keeps (config : Config) (now : ℤ) :
    Keeps Grows (fun _ => True) (sync env up config now)
      (OnOk fun result t => ∀ x ∈ result.files, x.2.sha256 ∈ t.blobs) := by
  refine .except_bind (fileStep_keeps _ _) fun state => ?_
  refine .except_bind (orFail_keeps _) fun _ => ?_
  refine .except_bind (.lift (syncWindows_keeps env up now _ _ _ _)) fun done => ?_
  obtain ⟨result, p⟩ := done
  cases result with
  | ok _ => exact .except_bind (saveNvd_keeps env _) fun _ => .lift (synced_keeps env _ _ _)
  | error e => exact .lift (synced_keeps env _ _ _)

end

/-! ### Collecting -/

theorem Collected.keep_keeps (got : Collected) (key : String) (earlier : Option Held) :
    (got.keep key earlier).Keeps Grows (Present got.current) fun got t => Present got.current t := by
  refine .bind ((usable_keeps earlier).frame Present.mono) fun found => ?_
  cases found with
  | none => exact .ret fun _ h => h.2
  | some held => exact .ret fun _ h => present_insert h.2 (h.1 held rfl)

theorem Collected.one_keeps (got : Collected) (tag key : String) (result : Except String Held) (earlier : Option Held) :
    (got.one tag key result earlier).Keeps Grows
      (fun t => OnOk (fun held t => held.sha256 ∈ t.blobs) result t ∧ Present got.current t)
      fun got t => Present got.current t := by
  cases result with
  | ok held => exact .ret fun _ h => present_insert h.2 h.1
  | error e => exact (Collected.keep_keeps _ key earlier).imp (fun _ h => h.2) fun _ _ h => h

section

variable (job : Job) (state : State)

theorem addOne_keeps (source : String) (kind : Kind) (url : String) {fetch : BuildM Held}
    (hfet : Keeps Grows (fun _ => True) fetch (OnOk fun held t => held.sha256 ∈ t.blobs)) (got : Collected) :
    (addOne job source kind url fetch state got).Keeps Grows (Present got.current) fun got t =>
        Present got.current t := by
  rw [addOne]
  split_ifs
  · exact Keeps.bind (Keeps.frame hfet Present.mono) fun result => Collected.one_keeps got _ _ result _
  · exact .ret fun _ h => h

theorem addFedora_keeps (got : Collected) (source : String) :
    (addFedora job state got source).Keeps Grows (Present got.current) fun got t => Present got.current t := by
  rw [addFedora]
  split_ifs
  · refine .bind (.frame (fedora_keeps job.env job.up job.config source _ _ job.now) Present.mono) fun result => ?_
    cases result with
    | ok files =>
      obtain ⟨repomd, info⟩ := files
      refine .bind (Q := fun got t => info.sha256 ∈ t.blobs ∧ Present got.current t) ?_
        fun got => Collected.one_keeps got source _ (.ok info) _
      exact .ret fun _ h => ⟨h.1.2, present_insert h.2 h.1.1⟩
    | error e =>
      refine Keeps.bind ((Collected.one_keeps got source _ (.error e) _).imp (fun _ h => ⟨trivial, h.2⟩) fun _ _ h => h)
        fun got => Collected.keep_keeps got _ _
  · exact .ret fun _ h => h

theorem addNvd_keeps (got : Collected) :
    Keeps Grows (Present got.current) (addNvd job got) (OnOk fun got t => Present got.current t) := by
  rw [addNvd]
  split_ifs
  · refine .except_bind ((sync_keeps job.env job.up job.config job.now).except_frame Present.mono) fun synced => ?_
    refine .pure fun t ht => present_foldl (fun _ _ => present_insert) ht.1 ?_
    cases synced.error with
    | some | none => exact ht.2
  · exact .pure fun _ h => h

theorem addOsv_keeps (got : Collected) (ecosystem : String × List String) :
    (addOsv job state got ecosystem).Keeps Grows (Present got.current) fun got t => Present got.current t := by
  rw [addOsv]
  split_ifs
  · exact .bind (.frame (osv_keeps job.env job.up job.config ecosystem.1 _ _ job.now) Present.mono)
      fun result => Collected.one_keeps got _ _ result _
  · exact .ret fun _ h => h

theorem carryOver_keeps (got : Collected) :
    (carryOver job state got).Keeps Grows (Present got.current) fun got t => Present got.current t := by
  rw [carryOver]
  split_ifs
  · exact .ret fun _ h => h
  · refine .bind ((present_keeps _).frame Present.mono) fun files => .ret fun t ht => ?_
    exact present_foldl (fun _ _ => present_insertIfNew) ht.1 ht.2

/-- **The files a build collects are there**, and the tree has only grown. -/
theorem collect_keeps :
    Keeps Grows (fun _ => True) (collect job state) (OnOk fun got t => Present got.current t) := by
  have hemp : ∀ t, Present Collected.empty.current t := fun t key held hk => by
    rw [Collected.empty, Std.TreeMap.getElem?_emptyc] at hk
    cases hk
  refine .except_bind (.lift ((addOne_keeps job state _ _ _ (small_keeps _ _ _ _ _ _ _) _).imp
    (fun t _ => hemp t) fun _ _ h => h)) fun got => ?_
  refine .except_bind (.lift (addOne_keeps job state _ _ _ (small_keeps _ _ _ _ _ _ _) got)) fun got => ?_
  refine .except_bind (.lift (addOne_keeps job state _ _ _ ?_ got)) fun got => ?_
  · exact .except_bind (orFail_keeps _) fun body => finish_keeps _ _ _ _ _ _ _
  refine .except_bind (.lift (.foldlM (addFedora_keeps job state) _ got)) fun got => ?_
  refine .except_bind (addNvd_keeps job got) fun got => ?_
  refine .except_bind (orFail_keeps _) fun releases => ?_
  refine .except_bind (.lift (.foldlM (addOsv_keeps job state) _ got)) fun got => ?_
  split_ifs
  · exact .throw _
  · exact .lift (carryOver_keeps job state got)

end

/-! ### The manifest -/

def hashes (manifest : Manifest) : List String := manifest.files.map ManifestEntry.sha256

theorem exists_of_mem_outFiles {files : List ManifestEntry} (h : outFiles current = some files) {e : ManifestEntry}
    (he : e ∈ files) : ∃ x ∈ current.toList, e.sha256 = x.2.sha256 := by
  obtain ⟨out, hout, hkd⟩ := exists_of_mem_mapM h he
  obtain ⟨x, hx, hfl⟩ := mem_filterMap.mp hout
  obtain ⟨parts, -, rfl⟩ := map_eq_some_iff.mp hfl
  obtain ⟨kind, -, rfl⟩ := map_eq_some_iff.mp hkd
  exact ⟨x, hx, rfl⟩

theorem verifyBuilt_ok {job : Job} {files : Option (List ManifestEntry)} {sequence : ℕ}
    (h : verifyBuilt job files sequence = .ok manifest) :
    files = some manifest.files ∧ manifest.sequence = sequence := by
  obtain ⟨found, hfls, h⟩ := bind_eq_ok h
  obtain ⟨_, -, h⟩ := bind_eq_ok h
  obtain ⟨_, -, h⟩ := bind_eq_ok h
  obtain ⟨_, -, h⟩ := bind_eq_ok h
  obtain ⟨_, -, h⟩ := bind_eq_ok h
  cases h
  exact ⟨of_orRefuse_eq_ok hfls, rfl⟩

theorem lt_nextSequence (job : Job) {state : State} (h : state.sequence + 1 < 2 ^ 64) :
    state.sequence < nextSequence job state := by
  rw [nextSequence, Nat.mod_eq_of_lt h]
  exact lt_max_of_lt_left (Nat.lt_succ_self _)

/-! ### What is published -/

structure Consistent (t : Tree) : Prop where
  feed : t.feed = t.published.getLast?
  /-- The sequence strictly increases from one `feed.json` to the next. -/
  increasing : t.published.IsChain fun m m' => m.sequence < m'.sequence
  current : ∀ m ∈ t.published.getLast?, hashes m ⊆ t.blobs
  /-- So is every blob that the `feed.json` before it names. -/
  before : ∀ m ∈ t.published.dropLast.getLast?, hashes m ⊆ t.blobs

/-- `state.json` describes `feed.json`. -/
def Describes (state : State) (feed : Option Manifest) : Prop :=
  ∀ m ∈ feed, state.sequence = m.sequence ∧ hashes m ⊆ state.previous

/-- The tree is consistent, and `state.json` describes `feed.json`. -/
structure Settled (t : Tree) : Prop where
  consistent : Consistent t
  /-- `state.json`, or what stands in for it, describes `feed.json`. -/
  describes : Describes (t.state.getD .empty) t.feed

theorem Consistent.of_grows (h : Consistent t) (hg : Grows t t') : Consistent t' where
  feed := by rw [hg.feed, hg.published]; exact h.feed
  increasing := by rw [hg.published]; exact h.increasing
  current m hm := by
    rw [hg.published] at hm
    exact List.Subset.trans (h.current m hm) hg.blobs
  before m hm := by
    rw [hg.published] at hm
    exact List.Subset.trans (h.before m hm) hg.blobs

theorem Settled.of_grows (h : Settled t) (hg : Grows t t') : Settled t' :=
  ⟨h.consistent.of_grows hg, by rw [hg.state, hg.feed]; exact h.describes⟩

/-- **A manifest is published**, with a higher sequence and its blobs in place. -/
theorem Consistent.publish (h : Consistent t) (hseq : ∀ m ∈ t.feed, m.sequence < manifest.sequence)
    (hblb : hashes manifest ⊆ t.blobs) : Consistent (t.publish manifest) where
  feed := getLast?_concat.symm
  increasing := by
    refine isChain_append.mpr ⟨h.increasing, isChain_singleton _, fun m hm m' hm' => ?_⟩
    cases hm'
    exact hseq m (h.feed ▸ hm)
  current m hm := by
    obtain rfl := some.inj (getLast?_concat.symm.trans hm)
    exact hblb
  before m hm := by
    have hm : m ∈ (t.published ++ [manifest]).dropLast.getLast? := hm
    rw [dropLast_concat] at hm
    exact h.current m hm

/-! ### Pruning -/

/-- What `prune` does: it removes blobs that are not to be kept. -/
structure Pruned (keep : List String) (t t' : Tree) : Prop where
  feed : t'.feed = t.feed
  published : t'.published = t.published
  saves : t'.saves = t.saves
  blobs : ∀ blob ∈ keep, blob ∈ t.blobs → blob ∈ t'.blobs

instance (keep : List String) : IsPreorder Tree (Pruned keep) where
  refl _ := ⟨rfl, rfl, rfl, fun _ _ h => h⟩
  trans _ _ _ h h' :=
    ⟨h'.feed.trans h.feed, h'.published.trans h.published, h'.saves.trans h.saves,
      fun blob hk hb => h'.blobs blob hk (h.blobs blob hk hb)⟩

theorem removeAll_keeps {names : List String} (h : ∀ name ∈ names, name ∉ keep) :
    (removeAll names).Keeps (Pruned keep) (fun _ => True) fun _ _ => True := by
  induction names with
  | nil => exact .ret fun _ h => h
  | cons name names ih =>
    have hrs := ih fun n hn => h n (mem_cons_of_mem _ hn)
    refine .step fun t _ => ⟨⟨rfl, rfl, rfl, fun blob hk hb => ?_⟩, hrs.of_true, hrs.of_true⟩
    have hne : blob ≠ name := fun heq => h name mem_cons_self (heq ▸ hk)
    exact mem_filter.mpr ⟨hb, decide_eq_true hne⟩

theorem prune_keeps {more : List String} (h : keep ⊆ more) :
    (prune more).Keeps (Pruned keep) (fun _ => True) fun _ _ => True := by
  refine .step fun t _ => ⟨refl_of _ t, ?_, .ret fun _ _ => trivial⟩
  refine (removeAll_keeps fun name hn hk => ?_).of_true
  have hnot : name ∉ more := of_decide_eq_true (mem_filter.mp hn).2
  exact hnot (h hk)

theorem heldHashes_keeps (keep : List String) : heldHashes.Keeps (Pruned keep) (fun _ => True) fun _ _ => True :=
  Keeps.step fun t _ => ⟨refl_of _ t, Keeps.ret fun _ _ => trivial, Keeps.ret fun _ _ => trivial⟩

/-- **Pruning keeps a tree consistent** if it keeps the blobs of the last two manifests. -/
theorem Consistent.pruned (h : Consistent t) (hp : Pruned keep t t')
    (hcur : ∀ m ∈ t.published.getLast?, hashes m ⊆ keep)
    (hbef : ∀ m ∈ t.published.dropLast.getLast?, hashes m ⊆ keep) : Consistent t' where
  feed := by rw [hp.feed, hp.published]; exact h.feed
  increasing := by rw [hp.published]; exact h.increasing
  current m hm sha256 hs := by
    rw [hp.published] at hm
    exact hp.blobs sha256 (hcur m hm hs) (h.current m hm hs)
  before m hm sha256 hs := by
    rw [hp.published] at hm
    exact hp.blobs sha256 (hbef m hm hs) (h.before m hm hs)

/-! ### A build -/

/-- How a build leaves the tree `t`: consistent, and settled unless it stopped between publishing and saving. -/
structure Leaves (t t' : Tree) : Prop where
  consistent : Consistent t'
  /-- A build that did not publish, or that saved, leaves a settled tree. -/
  settled : t'.published = t.published ∨ t'.saves ≠ t.saves → Settled t'

theorem Leaves.of_grows (h : Settled t) (hg : Grows t t') : Leaves t t' :=
  ⟨h.consistent.of_grows hg, fun _ => h.of_grows hg⟩

theorem Leaves.of_published (manifest : Manifest) (h : Consistent t')
    (hpbd : t'.published = t.published ++ [manifest]) (hsvs : t'.saves = t.saves) : Leaves t t' := by
  refine ⟨h, fun hor => ?_⟩
  rcases hor with hsm | hsav
  · rw [hpbd] at hsm
    exact absurd (congrArg length hsm) (by simp)
  · exact absurd hsvs hsav

section

variable {job : Job} {state : State} {got : Collected}

theorem prepare_keeps (job : Job) :
    Keeps Grows (fun _ => True) (prepare job) (OnOk fun state t => state = t.state.getD .empty) := by
  refine .except_bind (orFail_keeps _) fun _ => ?_
  refine .except_bind (fileStep_keeps _ _) fun _ => ?_
  refine .except_bind (fileStep_keeps _ _) fun _ => ?_
  refine .except_bind (Q := fun state t => state = t.state.getD .empty) ?_ fun state => ?_
  · exact .stmt fun t _ => ⟨.refl t, rfl⟩
  refine .except_bind (orFail_keeps _) fun _ => ?_
  refine .except_bind (orFail_keeps _) fun _ => ?_
  exact .pure fun _ h => h

/-- What a build does once `feed.json` is written. -/
theorem conclude_always (hcn : Consistent (t₁.publish manifest)) (hgrw : Grows t t₁)
    (hfd : t₁.feed = t₁.published.getLast?) (hstt : Describes state t₁.feed)
    (hfls : outFiles got.current = some manifest.files) :
    Always (Leaves t) (fun _ _ => True) (conclude job state got manifest.sequence) (t₁.publish manifest) := by
  set published := (Std.TreeSet.ofList (got.current.toList.map fun x => x.2.sha256)).toList with hpbd
  have hnam : hashes manifest ⊆ published := by
    intro sha256 hs
    obtain ⟨e, he, rfl⟩ := mem_map.mp hs
    obtain ⟨x, hx, heq⟩ := exists_of_mem_outFiles hfls he
    rw [hpbd, Std.TreeSet.mem_toList, Std.TreeSet.mem_ofList, contains_iff_mem]
    exact mem_map.mpr ⟨x, hx, heq.symm⟩
  -- both manifests' blobs are kept: this one's are published, the one before's are those `state.json` names
  have hprn : ∀ t', Pruned (published ++ state.previous) (t₁.publish manifest) t' → Leaves t t' := by
    intro t' hp
    refine .of_published manifest (hcn.pruned hp (fun m hm => ?_) fun m hm => ?_)
      (hp.published.trans (congrArg (· ++ [manifest]) hgrw.published)) (hp.saves.trans hgrw.saves)
    · obtain rfl := some.inj (getLast?_concat.symm.trans hm)
      exact List.Subset.trans hnam (subset_append_left _ _)
    · have hm : m ∈ (t₁.published ++ [manifest]).dropLast.getLast? := hm
      rw [dropLast_concat, ← hfd] at hm
      exact List.Subset.trans (hstt m hm).2 (subset_append_right _ _)
  refine Always.lift_bind (((heldHashes_keeps _) _ trivial).imp hprn fun nvdHeld t₂ h₂ => ?_)
  refine Always.lift_bind (((prune_keeps (subset_append_left _ nvdHeld)) _ trivial).imp
    (fun t' h => hprn t' (trans_of _ h₂.1 h)) fun _ t₃ h₃ => ?_)
  have h₃ := trans_of _ h₂.1 h₃.1
  have hc := (hprn t₃ h₃).consistent
  refine ⟨⟨⟨hc.feed, hc.increasing, hc.current, hc.before⟩, fun _ => ⟨⟨hc.feed, hc.increasing, hc.current, hc.before⟩,
    fun m hm => ?_⟩⟩, trivial, trivial⟩
  obtain rfl := some.inj (h₃.feed.symm.trans hm)
  exact ⟨rfl, hnam⟩

theorem publish_always (hstl : Settled t) (hgrw : Grows t t₁) (hstt : state = t₁.state.getD .empty)
    (hseq : state.sequence + 1 < 2 ^ 64) (hprs : Present got.current t₁) :
    Always (Leaves t) (fun _ _ => True) (publish job state got) t₁ := by
  have hstl₁ := hstl.of_grows hgrw
  have hds : Describes state t₁.feed := hstt ▸ hstl₁.describes
  rw [publish]
  cases hver : verifyBuilt job (outFiles got.current) (nextSequence job state) with
  | error why => trivial
  | ok manifest =>
    obtain ⟨hfls, hnx⟩ := verifyBuilt_ok hver
    have hblb : hashes manifest ⊆ t₁.blobs := by
      intro sha256 hs
      obtain ⟨e, he, rfl⟩ := mem_map.mp hs
      obtain ⟨x, hx, heq⟩ := exists_of_mem_outFiles hfls he
      rw [heq]
      exact hprs x.1 x.2 (Std.TreeMap.mem_toList_iff_getElem?_eq_some.mp hx)
    have hhig : ∀ m ∈ t₁.feed, m.sequence < manifest.sequence := by
      intro m hm
      rw [hnx, ← (hds m hm).1]
      exact lt_nextSequence job hseq
    have hcn := hstl₁.consistent.publish hhig hblb
    rw [← hnx]
    refine ⟨.of_published manifest hcn (congrArg (· ++ [manifest]) hgrw.published) hgrw.saves, ?_, trivial⟩
    exact conclude_always hcn hgrw hstl₁.consistent.feed hds hfls

/-- **Every build keeps a settled tree consistent**, wherever it stops. -/
theorem build_always (hstl : Settled t) (hseq : (t.state.getD .empty).sequence + 1 < 2 ^ 64) :
    Always (Leaves t) (fun _ _ => True) (build job) t := by
  refine .except_bind ((prepare_keeps job t trivial).imp (fun _ h => .of_grows hstl h) ?_)
  rintro (e | state) t₁ ⟨h₁, hstt⟩
  · trivial
  refine .except_bind ((collect_keeps job state t₁ trivial).imp
    (fun _ h => .of_grows hstl (trans_of _ h₁ h)) ?_)
  rintro (e | got) t₂ ⟨h₂, hprs⟩
  · trivial
  have hstt : state = t.state.getD .empty := by
    rw [← h₁.state]
    exact hstt
  have hgrw := trans_of Grows h₁ h₂
  exact publish_always hstl hgrw (by rw [hgrw.state]; exact hstt) (hstt ▸ hseq) hprs

end

/-! ### Runs of builds -/

structure BuildRun where
  job : Job
  /-- Which of its steps are carried out, and where it stops. -/
  outcomes : List Bool

def BuildRun.leaves (b : BuildRun) (t : Tree) : Tree := (Prog.run b.outcomes (build b.job) t).1

def buildStep (t : Tree) (b : BuildRun) : Option Tree := some (b.leaves t)

def Tree.HasNext (t : Tree) : Prop := (t.state.getD .empty).sequence + 1 < 2 ^ 64

/-- **A build that writes `feed.json` goes on to write `state.json`.** -/
def Completes (t : Tree) (b : BuildRun) : Prop :=
  t.HasNext ∧ ((b.leaves t).published = t.published ∨ (b.leaves t).saves ≠ t.saves)

instance (t : Tree) : Decidable t.HasNext := inferInstanceAs (Decidable (_ < _))

instance (t : Tree) (b : BuildRun) : Decidable (Completes t b) := inferInstanceAs (Decidable (_ ∧ (_ ∨ _)))

theorem BuildRun.leaves_leaves (b : BuildRun) (h : Settled t) (hnx : t.HasNext) : Leaves t (b.leaves t) :=
  ((build_always h hnx).run ⟨h.consistent, fun _ => h⟩ b.outcomes).1

/-- **The published tree stays consistent** in every run of builds, whatever fails and wherever a build stops, as long
as no build but the last stops between writing `feed.json` and `state.json`: the sequence strictly increases, and the
blobs of the current `feed.json` and of the one before it are there. -/
theorem published_tree_consistent {t t₁ : Tree} {builds : List BuildRun} (h : Settled t)
    (hbld : StepsMeet buildStep Completes t builds) (hrun : run buildStep t builds = some t₁) (hnx : t₁.HasNext)
    (last : BuildRun) : Consistent t₁ ∧ Consistent (last.leaves t₁) := by
  have hstl : Settled t₁ := by
    refine run_invariant_of (fun t b t' ht hb hst => ?_) h hbld hrun
    cases hst
    exact (b.leaves_leaves ht hb.1).settled hb.2
  exact ⟨hstl.consistent, (last.leaves_leaves hstl hnx).consistent⟩

/-! ### Three builds -/

def sampleHash (bytes : Bytes) : String :=
  String.ofList (List.replicate 63 '0') ++ (if bytes = [1] then "1" else if bytes = [2] then "2" else "3")

def sampleJob (content : UInt8) : Job where
  env := ⟨"feed", "error", sampleHash, fun _ => .ok (), fun _ _ _ => .ok (), fun _ => true, fun _ => true,
    fun _ => "day"⟩
  up :=
    { small := fun _ _ _ => .ok (some ([content], none))
      euvd := fun _ => .ok []
      fedora := fun _ _ => .ok none
      osv := fun _ _ _ => .ok none
      apiKey := .ok ()
      nvd := fun _ _ => ⟨0, .ok [], fun _ _ => .ok []⟩ }
  config := ⟨[], [], "", "", "https://", "", "", "", none, 2 ^ 29, 2 ^ 32⟩
  options := ⟨[], 7⟩
  now := 1000

def Tree.empty : Tree := ⟨none, none, none, [], [], 0⟩

theorem settled_empty : Settled .empty where
  consistent :=
    { feed := rfl
      increasing := isChain_nil
      current := nofun
      before := fun m hm => by cases hm }
  describes m hm := by cases hm

def wholeBuild (content : UInt8) : BuildRun := ⟨sampleJob content, List.replicate 20 true⟩

theorem published_tree_consistent_sample :
    ∃ t, run buildStep .empty [wholeBuild 1, wholeBuild 2] = some t ∧ t.published.map Manifest.sequence = [1000, 1001] ∧
      Consistent ((wholeBuild 3).leaves t) := by
  have hall : (run buildStep .empty [wholeBuild 1, wholeBuild 2]).map
      (fun t => (t.published.map Manifest.sequence, decide t.HasNext)) = some ([1000, 1001], true) := by decide +kernel
  obtain ⟨t, hrun, hchk⟩ := map_eq_some_iff.mp hall
  obtain ⟨hsqn, hnx⟩ := Prod.mk.inj hchk
  have hmt : StepsMeet buildStep Completes .empty [wholeBuild 1, wholeBuild 2] := by decide +kernel
  exact ⟨t, hrun, hsqn, (published_tree_consistent settled_empty hmt hrun (of_decide_eq_true hnx) (wholeBuild 3)).2⟩

/-- **A build that stops before `state.json`**: the next one publishes the same sequence again, and prunes the blob that
the `feed.json` before it names. -/
theorem published_tree_inconsistent :
    ∃ t, run buildStep .empty [wholeBuild 1, ⟨sampleJob 2, replicate 7 true⟩, wholeBuild 3] = some t ∧
      t.published.map Manifest.sequence = [1000, 1001, 1001] ∧
      t.published.map hashes = [[sampleHash [1]], [sampleHash [2]], [sampleHash [3]]] ∧
      sampleHash [2] ∉ t.blobs ∧ ¬ Consistent t := by
  have hall : (run buildStep .empty [wholeBuild 1, ⟨sampleJob 2, replicate 7 true⟩, wholeBuild 3]).map
      (fun t => (t.published.map Manifest.sequence, t.published.map hashes, decide (sampleHash [2] ∈ t.blobs))) =
      some ([1000, 1001, 1001], [[sampleHash [1]], [sampleHash [2]], [sampleHash [3]]], false) := by decide +kernel
  obtain ⟨t, hrun, hchk⟩ := map_eq_some_iff.mp hall
  obtain ⟨hsqn, hrs⟩ := Prod.mk.inj hchk
  obtain ⟨hhas, hbl⟩ := Prod.mk.inj hrs
  refine ⟨t, hrun, hsqn, hhas, of_decide_eq_false hbl, fun hcn => ?_⟩
  have hchn : (t.published.map Manifest.sequence).IsChain (· < ·) :=
    isChain_map_of_isChain Manifest.sequence (fun _ _ h => h) hcn.increasing
  rw [hsqn] at hchn
  exact absurd hchn (by decide)

end OpenVibes.Feed
