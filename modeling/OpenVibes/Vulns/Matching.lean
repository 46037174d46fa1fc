import OpenVibes.Store.Candidates
import OpenVibes.Theory.Group
import OpenVibes.Theory.Prog
import OpenVibes.Vulns.DpkgVer
import OpenVibes.Vulns.RpmVer

/-!
# Matching inventories against advisories

`crates/openvibes-vulns/src/matching.rs`. The first loop of `evaluate` keeps the newest installed version per host,
advisory, package, architecture and range start, the second collects the affected packages per host and advisory
(`Theory.group`). `perVersion` decides about each package version once; `matchRelease` and `matchHost` record.
-/

namespace OpenVibes.Vulns

open Rust Store Theory List Std Prog

/-! ### The program -/

/-- `MATCH_BATCH`: hosts matched per query. -/
def matchBatch : ℕ := 500

def matcherVersion : ℕ := 1

/-- `rpm_parts`: `[E:]V-R` split as RPM compares it; a missing epoch is 0, and an epoch is
a `u32`. -/
def rpmParts (full : Bytes) : ℕ × Bytes × Bytes :=
  let (epoch, rest) :=
    match splitOnce 58 full with
    | some (epoch, rest) =>
      if epoch ≠ [] ∧ epoch.all isAsciiDigit then (parseSaturating (2 ^ 32 - 1) epoch, rest) else (0, full)
    | none => (0, full)
  match rsplitOnce 45 rest with
  | some (version, release) => (epoch, version, release)
  | none => (epoch, rest, [])

/-- `compare`: the version order of the package's scheme. -/
def compareVersions (scheme : Scheme) (a b : String) : Ordering :=
  match scheme with
  | .dpkg => Dpkg.compare (asBytes a) (asBytes b)
  | .rpm => compareEvr (rpmParts (asBytes a)) (rpmParts (asBytes b))

/-- A version is in a range: from `introduced` up to `fixed`, or through `last`, or every later one. -/
def inSpan (scheme : Scheme) (introduced fixed last : Option String) (version : String) : Bool :=
  (match introduced with
    | none => true
    | some start => start == "0" || (compareVersions scheme version start).isGE) &&
  match fixed, last with
  | some fixed, _ => (compareVersions scheme version fixed).isLT
  | none, some last => (compareVersions scheme version last).isLE
  | none, none => true

/-- `in_range`: whether `installed` falls in the candidate's affected range. -/
def inRange (c : Candidate) (installed : String) : Bool :=
  inSpan c.scheme c.introduced c.fixed c.lastAffected installed

/-- `is_kernel`: packages that are the running kernel. -/
def isKernel (name : String) : Bool :=
  name == "kernel" || name == "kernel-core" || (asBytes "kernel-modules").isPrefixOf (asBytes name)

/-- `ARCHES` of `running_evr`. -/
def arches : List String := ["x86_64", "aarch64", "ppc64le", "s390x", "i686", "armv7hl", "riscv64"]

/-- `running_evr`: a `uname -r` release (`6.17.4-300.fc44.x86_64`) as epoch, version, release. -/
def runningEvr (uname : String) : Option (ℤ × String × String) :=
  let base := uname.toList.takeWhile (· ≠ '+')
  let base :=
    match rsplitOnce '.' base with
    | some (rest, arch) => if String.ofList arch ∈ arches then rest else base
    | none => base
  (splitOnce '-' base).map fun p => (0, String.ofList p.1, String.ofList p.2)

/-- The loop's state in `per_version`: three ordered sets. -/
structure PerVersionSets where
  pairs : TreeSet (String × String) (cmpProd compare compare)
  noFix : TreeSet (ℕ × String × String) (cmpProd compare (cmpProd compare compare))
  evaluated : TreeSet ℕ compare

/-- A turn of the loop of `per_version`. Kernels stay candidates even when fixed. -/
def PerVersionSets.add (s : PerVersionSets) (c : Candidate) : PerVersionSets :=
  let s := { s with evaluated := s.evaluated.insert c.versionId }
  if c.fixed.isSome then
    if (c.scheme = .rpm ∧ isKernel c.name) ∨ inRange c c.installed then
      { s with pairs := s.pairs.insert (c.advisoryId, c.name) }
    else s
  else if inRange c c.installed then { s with noFix := s.noFix.insert (c.versionId, c.advisoryId, c.name) }
  else s

/-- What evaluating each distinct package version once finds. -/
structure PerVersion where
  /-- The fixable (advisory, package) pairs worth matching per host. -/
  pairs : List (String × String)
  noFix : List VersionFound
  evaluated : List ℕ

/-- `per_version`: evaluates advisories against each distinct installed version once. -/
def perVersion (candidates : List Candidate) : PerVersion :=
  let s := candidates.foldl PerVersionSets.add ⟨∅, ∅, ∅⟩
  ⟨s.pairs.toList, s.noFix.toList.map fun x => ⟨x.1, x.2.1, x.2.2⟩, s.evaluated.toList⟩

/-- The key of the map `newest`: host, advisory, package, fixed arch, range start. -/
abbrev NewestKey := String × String × String × String × String

def cmpNewest : NewestKey → NewestKey → Ordering :=
  cmpProd compare (cmpProd compare (cmpProd compare (cmpProd compare compare)))

def newestKey (c : Candidate) : NewestKey :=
  (c.agentId, c.advisoryId, c.name, c.fixedArch, c.introduced.getD "")

def keepNewest (c : Candidate) (slot : Option Candidate) : Option Candidate :=
  let slot := slot.getD c
  if (compareVersions c.scheme c.installed slot.installed).isGT then some c else some slot

def newest (candidates : List Candidate) : TreeMap NewestKey Candidate cmpNewest :=
  group cmpNewest newestKey keepNewest (candidates.filter fun c => c.fixed.isSome)

/-- The running kernel, when it is older than the fix: a kernel fix counts once it runs. -/
def olderRunning (c : Candidate) : Option String :=
  if isKernel c.name ∧ c.scheme = .rpm then do
    let fixed ← c.fixed
    let (epoch, version, release) ← runningEvr (← c.runningKernel)
    let running := toString epoch ++ ":" ++ version ++ "-" ++ release
    if (compareVersions .rpm running fixed).isLT then some running else none
  else none

/-- What the second loop makes of a newest candidate: its entry, and whether only a reboot is missing. -/
def entryOf (c : Candidate) : Option (PackageEntry × Bool) :=
  let update := inRange c c.installed
  let running := olderRunning c
  if !update && running.isNone then none
  else some (⟨c.name, c.installed, c.fixed, running⟩, !update)

/-- The affected packages of a host and an advisory, one entry per name. -/
abbrev Packages := TreeMap String (PackageEntry × Bool) compare

/-- A newest candidate adds its entry, unless its package has one. -/
def addEntry (x : NewestKey × Candidate) (packages : Option Packages) : Option Packages :=
  match entryOf x.2 with
  | none => packages
  | some e => some ((packages.getD ∅).insertIfNew x.1.2.2.1 e)

def affected (newest : List (NewestKey × Candidate)) : TreeMap (String × String) Packages (cmpProd compare compare) :=
  group (cmpProd compare compare) (fun x => (x.1.1, x.1.2.1)) addEntry newest

def foundOf (x : (String × String) × Packages) : Found where
  agentId := x.1.1
  advisoryId := x.1.2
  packages := x.2.toList.map fun e => e.2.1
  rebootNeeded := x.2.toList.all fun e => e.2.2

/-- `evaluate`: which candidates are vulnerable. -/
def evaluate (candidates : List Candidate) : List Found :=
  (affected (newest candidates).toList).toList.map foundOf

/-- A sequence of queries and transactions: a failure keeps what was committed before it. -/
abbrev StoreM := ExceptT StoreError (Prog Db)

def query {α : Type} (q : Db → α) : StoreM α := Prog.query .unavailable q

/-- A transaction: it commits, or fails and leaves the store as it is. -/
def transaction {α : Type} (t : Db → Except StoreError (Db × α)) : StoreM α := Prog.transaction .unavailable t

/-- A turn of the loop of `match_release_in_batches`, on one batch of hosts. -/
def matchHosts (osId osVersion : String) (pairs : List (String × String)) (now : Time) (openSoFar : ℕ)
    (agents : List String) : StoreM ℕ := do
  let found := evaluate (← query fun db => candidates db osId osVersion agents pairs)
  let n ← transaction fun db => apply db (.release osId osVersion agents) found now
  return openSoFar + n

/-- `match_release_in_batches`: each batch is one query and one transaction. Returns the
number open. -/
def matchReleaseInBatches (osId osVersion : String) (batch : ℕ) (now : Time) : StoreM ℕ := do
  let versions := perVersion (← query fun db => versionCandidates db osId osVersion none)
  let _ ← transaction fun db => applyVersions db versions.evaluated versions.noFix now
  let hosts ← query fun db => releaseHosts db osId osVersion
  let n ← (chunks (max batch 1) hosts).foldlM (matchHosts osId osVersion versions.pairs now) 0
  let _ ← transaction fun db => .ok (markReleaseMatched db osId osVersion matcherVersion, 0)
  return n

/-- `match_release`: re-evaluates every host on one release. -/
def matchRelease (osId osVersion : String) (now : Time) : StoreM ℕ :=
  matchReleaseInBatches osId osVersion matchBatch now

/-- `match_host`: re-evaluates one host, unless it has no reported release. -/
def matchHost (agentId : String) (now : Time) : StoreM ℕ := do
  match ← query fun db => hostRelease db agentId with
  | none => return 0
  | some (osId, osVersion) =>
    let versions := perVersion (← query fun db => versionCandidates db osId osVersion (some agentId))
    let _ ← transaction fun db => applyVersions db versions.evaluated versions.noFix now
    let found := evaluate (← query fun db => candidates db osId osVersion [agentId] versions.pairs)
    let n ← transaction fun db => apply db (.host agentId) found now
    let _ ← transaction fun db => .ok (markHostMatched db agentId matcherVersion, 0)
    return n

/-! ### What `perVersion` collects -/

instance : TransCmp cmpNewest := inferInstanceAs (TransCmp (cmpProd _ _))

instance : LawfulEqCmp cmpNewest := inferInstanceAs (LawfulEqCmp (cmpProd _ _))

/-- The candidate makes its pair worth matching per host. -/
def worthMatching (c : Candidate) : Bool :=
  c.fixed.isSome && ((c.scheme = .rpm && isKernel c.name) || inRange c c.installed)

def noFixHit (c : Candidate) : Bool := c.fixed.isNone && inRange c c.installed

variable {cs : List Candidate}

theorem mem_pairs {x : String × String} :
    x ∈ (perVersion cs).pairs ↔ ∃ c ∈ cs, worthMatching c ∧ (c.advisoryId, c.name) = x := by
  have hadd : ∀ (s : PerVersionSets) (c : Candidate),
      x ∈ (s.add c).pairs ↔ x ∈ s.pairs ∨ (worthMatching c ∧ (c.advisoryId, c.name) = x) := by
    intro s c
    unfold PerVersionSets.add worthMatching
    cases c.fixed.isSome <;> grind
  simp only [perVersion, TreeSet.mem_toList]
  refine (foldl_collects (fun s : PerVersionSets => x ∈ s.pairs) _ hadd cs _).trans ?_
  simp

theorem mem_noFix {f : VersionFound} :
    f ∈ (perVersion cs).noFix ↔ ∃ c ∈ cs, noFixHit c ∧ (c.versionId, c.advisoryId, c.name) = f.key := by
  have hadd : ∀ (s : PerVersionSets) (c : Candidate),
      f.key ∈ (s.add c).noFix ↔ f.key ∈ s.noFix ∨ (noFixHit c ∧ (c.versionId, c.advisoryId, c.name) = f.key) := by
    intro s c
    unfold PerVersionSets.add noFixHit
    cases c.fixed <;> grind
  have hf : ∀ x : ℕ × String × String, (⟨x.1, x.2.1, x.2.2⟩ : VersionFound) = f ↔ x = f.key := by
    rintro ⟨v, a, p⟩
    obtain ⟨v', a', p'⟩ := f
    simp [VersionFound.key]
  simp only [perVersion, mem_map, TreeSet.mem_toList, hf, exists_eq_right]
  refine (foldl_collects (fun s : PerVersionSets => f.key ∈ s.noFix) _ hadd cs _).trans ?_
  simp

theorem mem_evaluated {v : ℕ} : v ∈ (perVersion cs).evaluated ↔ ∃ c ∈ cs, c.versionId = v := by
  have hadd : ∀ (s : PerVersionSets) (c : Candidate),
      v ∈ (s.add c).evaluated ↔ v ∈ s.evaluated ∨ c.versionId = v := by
    intro s c
    unfold PerVersionSets.add
    grind
  simp only [perVersion, TreeSet.mem_toList]
  refine (foldl_collects (fun s : PerVersionSets => v ∈ s.evaluated) _ hadd cs _).trans ?_
  simp

/-! ### Leaving candidates out of `evaluate` -/

variable {c : Candidate}

theorem foldl_keepNewest_eq_some {o : Option Candidate} (h : cs.foldl (fun o x => keepNewest x o) o = some c) :
    c ∈ cs ∨ o = some c := by
  induction cs generalizing o with
  | nil => exact .inr h
  | cons d cs ih =>
    rw [foldl_cons] at h
    rcases ih h with h | h
    · exact .inl (mem_cons_of_mem _ h)
    rw [keepNewest] at h
    split_ifs at h
    · exact .inl (Option.some.inj h ▸ mem_cons_self)
    · cases o with
      | none => exact .inl (Option.some.inj h ▸ mem_cons_self)
      | some e => exact .inr h

theorem mem_newest {k : NewestKey} (h : (k, c) ∈ (newest cs).toList) : c ∈ cs ∧ c.fixed.isSome ∧ newestKey c = k := by
  have hfd := mem_group.mp h
  rcases foldl_keepNewest_eq_some hfd with hc | hc
  · obtain ⟨hc, hk⟩ := mem_filter.mp hc
    obtain ⟨hc, hf⟩ := mem_filter.mp hc
    exact ⟨hc, hf, of_decide_eq_true hk⟩
  · cases hc

theorem newest_filter (cs : List Candidate) (p : NewestKey → Bool) :
    (newest (cs.filter fun c => p (newestKey c))).toList = (newest cs).toList.filter fun x => p x.1 := by
  rw [newest, newest, filter_comm, group_filter_key]

/-- **Candidates that no entry comes from can be left out**, all of an advisory's package
at once. -/
theorem evaluate_filter_pairs {p : String × String → Bool}
    (h : ∀ c ∈ cs, c.fixed.isSome → p (c.advisoryId, c.name) = false → entryOf c = none) :
    evaluate (cs.filter fun c => p (c.advisoryId, c.name)) = evaluate cs := by
  have hnew : (newest (cs.filter fun c => p (c.advisoryId, c.name))).toList =
      (newest cs).toList.filter fun x => p (x.1.2.1, x.1.2.2.1) :=
    newest_filter cs fun k => p (k.2.1, k.2.2.1)
  rw [evaluate, evaluate, hnew, affected, affected]
  congr 1
  refine group_filter_of_skip ?_
  rintro ⟨k, c⟩ hx hp o
  obtain ⟨hc, hf, rfl⟩ := mem_newest hx
  rw [addEntry, h c hc hf hp]

/-- **Leaving out hosts leaves out what is found on them.** -/
theorem evaluate_filter_agents (cs : List Candidate) (p : String → Bool) :
    evaluate (cs.filter fun c => p c.agentId) = (evaluate cs).filter fun f => p f.agentId := by
  have hnew : (newest (cs.filter fun c => p c.agentId)).toList = (newest cs).toList.filter fun x => p x.1.1 :=
    newest_filter cs fun k => p k.1
  rw [evaluate, evaluate, hnew, affected, affected, filter_map]
  congr 1
  exact group_filter_key _ fun k : String × String => p k.1

/-! ### Deciding per version first -/

theorem entryOf_of_not_worthMatching (hf : c.fixed.isSome) (h : worthMatching c = false) : entryOf c = none := by
  rw [worthMatching, hf, Bool.true_and, Bool.or_eq_false_iff] at h
  have hk : ¬ (isKernel c.name ∧ c.scheme = .rpm) := fun hk => by simp [hk.1, hk.2] at h
  rw [entryOf, olderRunning, if_neg hk, h.2]
  rfl

/-- **The prefilter loses nothing**, for candidates whose versions were all looked at. -/
theorem evaluate_prefiltered {vs : List Candidate} (h : ∀ c ∈ cs, c.perVersion ∈ vs) :
    evaluate (cs.filter fun c => (c.advisoryId, c.name) ∈ (perVersion vs).pairs) = evaluate cs := by
  refine evaluate_filter_pairs (p := fun x => x ∈ (perVersion vs).pairs) fun c hc hf hp => ?_
  refine entryOf_of_not_worthMatching hf (Bool.eq_false_iff.mpr fun hw => ?_)
  have hmem : (c.advisoryId, c.name) ∈ (perVersion vs).pairs := mem_pairs.mpr ⟨c.perVersion, h c hc, hw, rfl⟩
  simp [hmem] at hp

/-! ### Batches of hosts -/

theorem evaluate_sorted (cs : List Candidate) :
    (evaluate cs).Pairwise fun f g => cmpProd compare compare f.key g.key = .lt := by
  rw [evaluate, pairwise_map]
  exact TreeMap.ordered_keys_toList

variable {f : Found}

theorem exists_of_mem_evaluate (h : f ∈ evaluate cs) : ∃ c ∈ cs, (c.agentId, c.advisoryId) = f.key := by
  obtain ⟨⟨k, m⟩, hm, rfl⟩ := mem_map.mp h
  have hfd := mem_group.mp hm
  obtain ⟨x, hx⟩ : ∃ x, x ∈ (newest cs).toList.filter fun x => (x.1.1, x.1.2.1) = k := by
    refine exists_mem_of_ne_nil _ fun hnil => ?_
    rw [hnil] at hfd
    cases hfd
  obtain ⟨hx, hk⟩ := mem_filter.mp hx
  obtain ⟨hc, -, hkey⟩ := mem_newest hx
  refine ⟨x.2, hc, ?_⟩
  rw [← hkey] at hk
  exact of_decide_eq_true hk

theorem evaluate_nodup (cs : List Candidate) : ((evaluate cs).map Found.key).Nodup := by
  rw [List.Nodup, pairwise_map]
  refine (evaluate_sorted cs).imp fun {f g} hlt heq => ?_
  have hsf : cmpProd compare compare g.key g.key = .eq := ReflCmp.compare_self
  rw [heq, hsf] at hlt
  cases hlt

variable {agents : List String}

theorem allCandidates_filter (db : Db) (osId osVersion : String) {batch : List String} (h : batch ⊆ agents) :
    allCandidates db osId osVersion batch =
      (allCandidates db osId osVersion agents).filter fun c => c.agentId ∈ batch := by
  rw [allCandidates, allCandidates, filter_flatMap]
  refine flatMap_congr fun x _ => ?_
  rw [Db.onHosts, Db.onHosts, filter_map, Db.installedOn, Db.installedOn, filter_flatMap]
  congr 1
  refine flatMap_congr fun hp _ => ?_
  rw [filter_filter]
  refine filter_congr fun g _ => ?_
  by_cases hg : g.agentId ∈ batch
  · simp [candidate, hg, h hg]
  · simp [candidate, hg]

def restrictTo (pairs : List (String × String)) (rows : List Candidate) : List Candidate :=
  rows.filter fun c => (c.advisoryId, c.name) ∈ pairs

variable {db db' : Db} {osId osVersion : String} {α β : Type}

theorem agentId_mem_of_evaluate (h : f ∈ evaluate (allCandidates db osId osVersion agents)) : f.agentId ∈ agents := by
  obtain ⟨c, hc, hk⟩ := exists_of_mem_evaluate h
  obtain ⟨ap, pv, g, -, hg, rfl⟩ := mem_allCandidates.mp hc
  obtain ⟨-, hp, -⟩ := mem_installedOn.mp hg
  have hid : g.agentId = f.agentId := congrArg Prod.fst hk
  exact hid ▸ (of_decide_eq_true hp).2

theorem evaluate_batch (db : Db) (osId osVersion : String) {batch hosts : List String} (h : batch ⊆ hosts) :
    evaluate (candidates db osId osVersion batch (perVersion (versionCandidates db osId osVersion none)).pairs) =
      (evaluate (allCandidates db osId osVersion hosts)).filter fun f => f.agentId ∈ batch := by
  rw [candidates_eq_filter, evaluate_prefiltered fun c hc => perVersion_mem_none hc, allCandidates_filter _ _ _ h]
  exact evaluate_filter_agents _ fun a => a ∈ batch

theorem evaluate_batches (db : Db) (osId osVersion : String) {size : ℕ} (hsz : 0 < size) (hosts : List String) :
    ((chunks size hosts).flatMap fun batch =>
      evaluate (candidates db osId osVersion batch (perVersion (versionCandidates db osId osVersion none)).pairs)) =
      (chunks size hosts).flatMap fun batch =>
        (evaluate (allCandidates db osId osVersion hosts)).filter fun f => f.agentId ∈ batch := by
  refine flatMap_congr fun batch hb => evaluate_batch db osId osVersion fun a ha => ?_
  rw [← flatten_chunks hsz hosts]
  exact mem_flatten.mpr ⟨batch, hb, ha⟩

/-- **Deciding per version first, and in batches of hosts, gives what deciding about all candidates gives**, for the
hosts of a release and for one host, in whatever order the rows come, and for every batch size, up to the order of the
results if the hosts are not taken in order. -/
theorem prefilter_exact (db : Db) (osId osVersion : String) :
    (∀ agents,
      evaluate (candidates db osId osVersion agents (perVersion (versionCandidates db osId osVersion none)).pairs) =
        evaluate (allCandidates db osId osVersion agents)) ∧
    (∀ agent, evaluate (candidates db osId osVersion [agent]
          (perVersion (versionCandidates db osId osVersion (some agent))).pairs) =
        evaluate (allCandidates db osId osVersion [agent])) ∧
    (∀ agents rows versions, rows.Perm (allCandidates db osId osVersion agents) →
      versions.Perm (versionCandidates db osId osVersion none) →
      evaluate (restrictTo (perVersion versions).pairs rows) = evaluate rows) ∧
    (∀ agent rows versions, rows.Perm (allCandidates db osId osVersion [agent]) →
      versions.Perm (versionCandidates db osId osVersion (some agent)) →
      evaluate (restrictTo (perVersion versions).pairs rows) = evaluate rows) ∧
    (∀ size, ((chunks (max size 1) (releaseHosts db osId osVersion)).flatMap fun batch =>
        evaluate (candidates db osId osVersion batch (perVersion (versionCandidates db osId osVersion none)).pairs)) =
      evaluate (allCandidates db osId osVersion (releaseHosts db osId osVersion))) ∧
    (∀ size hosts, hosts.Perm (releaseHosts db osId osVersion) → ((chunks (max size 1) hosts).flatMap fun batch =>
        evaluate (candidates db osId osVersion batch
          (perVersion (versionCandidates db osId osVersion none)).pairs)).Perm
        (evaluate (allCandidates db osId osVersion hosts))) := by
  refine ⟨fun agents => ?_, fun agent => ?_, fun agents rows versions hr hv => ?_, fun agent rows versions hr hv => ?_,
    fun size => ?_, fun size hosts hh => ?_⟩
  · rw [candidates_eq_filter, evaluate_prefiltered fun c hc => perVersion_mem_none hc]
  · rw [candidates_eq_filter, evaluate_prefiltered fun c hc => perVersion_mem_some hc]
  · exact evaluate_prefiltered fun c hc => hv.mem_iff.mpr (perVersion_mem_none (hr.mem_iff.mp hc))
  · exact evaluate_prefiltered fun c hc => hv.mem_iff.mpr (perVersion_mem_some (hr.mem_iff.mp hc))
  · have hpos : 0 < max size 1 := by omega
    rw [evaluate_batches db osId osVersion hpos]
    refine flatMap_filter_of_sorted compare Found.agentId ?_ ?_ fun f hf => ?_
    · rw [flatten_chunks hpos]
      exact releaseHosts_sorted db osId osVersion
    · refine (evaluate_sorted _).imp fun {f g} h => ?_
      rcases Ordering.then_eq_lt.mp h with h | h
      · exact Ordering.isLE_of_eq_lt h
      · exact Ordering.isLE_of_eq_eq h.1
    · rw [flatten_chunks hpos]
      exact agentId_mem_of_evaluate hf
  · have hpos : 0 < max size 1 := by omega
    rw [evaluate_batches db osId osVersion hpos]
    refine flatMap_filter_perm Found.agentId ?_ fun f hf => ?_
    · rw [flatten_chunks hpos, hh.nodup_iff]
      exact releaseHosts_nodup db osId osVersion
    · rw [flatten_chunks hpos]
      exact agentId_mem_of_evaluate hf

/-- A host whose kernel is fixed but not running, and one whose kernel is not fixed. -/
def twoKernels : Db :=
  { Db.empty with
    agents := Table.empty.insertAllNew
      [⟨"a", some "fedora", some "44", some [1], some "6.17.4-300.fc44.x86_64", 0⟩,
       ⟨"b", some "fedora", some "44", some [2], none, 0⟩]
    packageVersions := Table.empty.insertAllNew
      [⟨1, "rpm", "kernel-core", 0, "6.17.5", "200.fc44", "x86_64", none, none⟩,
       ⟨2, "rpm", "kernel-core", 0, "6.17.4", "300.fc44", "x86_64", none, none⟩]
    hostPackages := Table.empty.insertAllNew [⟨"a", 1⟩, ⟨"a", 2⟩, ⟨"b", 2⟩]
    advisories := Table.empty.insertNew ⟨"FEDORA-1", "fedora", "44"⟩
    advisoryPackages := Table.empty.insertNew
      ⟨"FEDORA-1", "kernel-core", "x86_64", .rpm, .binary, none, some "0:6.17.5-200.fc44", none⟩ }

/-- One batch per host, and one query for all: the first host needs a reboot, the second an update. -/
theorem prefilter_two_kernels :
    ((chunks 1 (releaseHosts twoKernels "fedora" "44")).flatMap fun batch =>
      evaluate (candidates twoKernels "fedora" "44" batch
        (perVersion (versionCandidates twoKernels "fedora" "44" none)).pairs)) =
      [⟨"a", "FEDORA-1", [⟨"kernel-core", "0:6.17.5-200.fc44", some "0:6.17.5-200.fc44", some "0:6.17.4-300.fc44"⟩],
       true⟩, ⟨"b", "FEDORA-1", [⟨"kernel-core", "0:6.17.4-300.fc44", some "0:6.17.5-200.fc44", none⟩], false⟩] ∧
    evaluate (restrictTo (perVersion (versionCandidates twoKernels "fedora" "44" (some "b"))).pairs
      (allCandidates twoKernels "fedora" "44" ["b"])) =
      [⟨"b", "FEDORA-1", [⟨"kernel-core", "0:6.17.4-300.fc44", some "0:6.17.5-200.fc44", none⟩], false⟩] := by
  obtain ⟨-, -, -, hrw, hbat, -⟩ := prefilter_exact twoKernels "fedora" "44"
  exact ⟨(hbat 1).trans (by decide), (hrw "b" _ _ (.refl _) (.refl _)).trans (by decide)⟩

/-! ### What a match can do -/

section

variable {G : Db → Db → Prop}
  (hG : ∀ db agents vs vvs, G db { db with agents := agents, vulnerabilities := vs, versionVulnerabilities := vvs })
include hG

theorem matchHosts_within (osId osVersion : String) (pairs : List (String × String)) (now : Time) (n : ℕ)
    (agents : List String) : Within G (matchHosts osId osVersion pairs now n agents) := by
  refine .except_bind (.query (fun db => hG db _ _ _) _ _) fun rows => ?_
  refine .except_bind (.transaction (fun db => hG db _ _ _) _ fun db db' n h => ?_) fun _ => trivial
  obtain ⟨-, rfl⟩ := apply_eq_ok h
  exact hG db _ _ _

/-- **The steps of `match_release`** change only markers and the records of matching. -/
theorem matchRelease_within (osId osVersion : String) (now : Time) : Within G (matchRelease osId osVersion now) := by
  refine .except_bind (.query (fun db => hG db _ _ _) _ _) fun rows => ?_
  refine .except_bind (.transaction (fun db => hG db _ _ _) _ fun db db' n h => ?_) fun _ => ?_
  · rw [applyVersions_eq_ok h]
    exact hG db _ _ _
  refine .except_bind (.query (fun db => hG db _ _ _) _ _) fun hosts => ?_
  refine .except_bind (.foldlM (matchHosts_within hG osId osVersion _ now) _ _) fun n => ?_
  refine .except_bind (.transaction (fun db => hG db _ _ _) _ fun db db' n h => ?_) fun _ => trivial
  cases h
  exact hG db _ _ _

end

/-! ### A match never fails -/

theorem bind_ok {x : StoreM α} {f : α → StoreM β} {a : α} (h : Prog.exec x db = (.ok a, db')) :
    Prog.exec (x >>= f : StoreM β) db = Prog.exec (f a) db' := by
  refine (exec_bind x (ExceptT.bindCont f) db).trans ?_
  rw [h]
  rfl

theorem query_bind (q : Db → α) (f : α → StoreM β) (db : Db) :
    Prog.exec (query q >>= f : StoreM β) db = Prog.exec (f (q db)) db :=
  bind_ok rfl

theorem transaction_ok {t : Db → Except StoreError (Db × ℕ)} {n : ℕ} (h : t db = .ok (db', n)) :
    Prog.exec (transaction t) db = (.ok n, db') := by
  simp only [transaction, Prog.transaction, Prog.exec, h]
  rfl

theorem refers_of_mem_evaluate {pairs : List (String × String)}
    (h : f ∈ evaluate (candidates db osId osVersion agents pairs)) : f.refers db := by
  obtain ⟨c, hc, hk⟩ := exists_of_mem_evaluate h
  rw [candidates_eq_filter] at hc
  obtain ⟨ap, pv, g, hm, hg, rfl⟩ := mem_allCandidates.mp (mem_of_mem_filter hc)
  obtain ⟨hg, -, -⟩ := mem_installedOn.mp hg
  obtain ⟨⟨a, ha, -, hid⟩, -⟩ := mem_matchFrom.mp hm
  obtain ⟨hagt, hadv⟩ := Prod.mk.inj hk
  have h₁ : db.agents.get? f.agentId = some g := Table.get?_eq_some_iff.mpr ⟨hg, hagt⟩
  have h₂ : db.advisories.get? f.advisoryId = some a := Table.get?_eq_some_iff.mpr ⟨ha, hid.symm.trans hadv⟩
  simp [Found.refers, h₁, h₂]

theorem accepted_evaluate (db : Db) (osId osVersion : String) (agents : List String) (pairs : List (String × String)) :
    Accepted db (evaluate (candidates db osId osVersion agents pairs)) :=
  ⟨evaluate_nodup _, fun _ hf => refers_of_mem_evaluate hf⟩

theorem refers_of_mem_noFix {agent : Option String} {f : VersionFound}
    (h : f ∈ (perVersion (versionCandidates db osId osVersion agent)).noFix) : f.refers db := by
  obtain ⟨c, hc, -, hk⟩ := mem_noFix.mp h
  obtain ⟨ap, pv, hm, rfl⟩ : ∃ ap pv, (ap, pv) ∈ db.matchFrom osId osVersion ∧ c = candidate "" none ap pv := by
    cases agent with
    | none =>
      obtain ⟨ap, pv, -, hm, -, rfl⟩ := mem_versionCandidates_none.mp hc
      exact ⟨ap, pv, hm, rfl⟩
    | some agent =>
      obtain ⟨ap, pv, -, hm, -, rfl⟩ := mem_versionCandidates_some.mp hc
      exact ⟨ap, pv, hm, rfl⟩
  obtain ⟨⟨a, ha, -, hid⟩, -, hpv, -⟩ := mem_matchFrom.mp hm
  obtain ⟨hv, hk⟩ := Prod.mk.inj hk
  have h₁ : db.packageVersions.get? f.versionId = some pv := Table.get?_eq_some_iff.mpr ⟨hpv, hv⟩
  have h₂ : db.advisories.get? f.advisoryId = some a :=
    Table.get?_eq_some_iff.mpr ⟨ha, hid.symm.trans (Prod.mk.inj hk).1⟩
  simp [VersionFound.refers, h₁, h₂]

def recordVersions (db : Db) (versions : PerVersion) (now : Time) : Db :=
  { db with
    versionVulnerabilities := versionsRecorded db.versionVulnerabilities versions.evaluated versions.noFix now }

theorem applyVersions_ok (db : Db) (osId osVersion : String) (agent : Option String) (now : Time) :
    let versions := perVersion (versionCandidates db osId osVersion agent)
    applyVersions db versions.evaluated versions.noFix now =
      .ok (recordVersions db versions now, versions.noFix.length) := by
  intro versions
  rw [applyVersions, if_pos (all_eq_true.mpr fun f hf => refers_of_mem_noFix hf)]
  rfl

theorem matchHosts_ok (osId osVersion : String) (pairs : List (String × String)) (now : Time) (n : ℕ)
    (agents : List String) (db : Db) :
    ∃ n' vs, Prog.exec (matchHosts osId osVersion pairs now n agents) db =
      (.ok n', { db with vulnerabilities := vs }) := by
  let found := evaluate (candidates db osId osVersion agents pairs)
  refine ⟨n + found.length, recorded db (.release osId osVersion agents) found now, ?_⟩
  have happ := transaction_ok (t := fun db => apply db (.release osId osVersion agents) found now)
    (apply_of_accepted (accepted_evaluate db osId osVersion agents pairs) (.release osId osVersion agents) now)
  rw [matchHosts, query_bind, bind_ok happ]
  rfl

theorem foldlM_matchHosts_ok (osId osVersion : String) (pairs : List (String × String)) (now : Time)
    (batches : List (List String)) (n : ℕ) (db : Db) :
    ∃ n' vs, Prog.exec (batches.foldlM (matchHosts osId osVersion pairs now) n : StoreM ℕ) db =
      (.ok n', { db with vulnerabilities := vs }) := by
  induction batches generalizing n db with
  | nil => exact ⟨n, db.vulnerabilities, rfl⟩
  | cons batch batches ih =>
    obtain ⟨n₁, vs₁, h₁⟩ := matchHosts_ok osId osVersion pairs now n batch db
    obtain ⟨n₂, vs₂, h₂⟩ := ih n₁ { db with vulnerabilities := vs₁ }
    exact ⟨n₂, vs₂, by rw [foldlM_cons, bind_ok h₁, h₂]⟩

/-- **`match_release` succeeds**, records the hits without a fix, changes `vulnerabilities`, and marks the hosts. -/
theorem matchRelease_ok (osId osVersion : String) (now : Time) (db : Db) :
    let versions := perVersion (versionCandidates db osId osVersion none)
    ∃ n vs, Prog.exec (matchRelease osId osVersion now) db =
      (.ok n, markReleaseMatched { recordVersions db versions now with vulnerabilities := vs } osId osVersion
        matcherVersion) := by
  intro versions
  obtain ⟨n, vs, h⟩ := foldlM_matchHosts_ok osId osVersion versions.pairs now
    (chunks (max matchBatch 1) (releaseHosts (recordVersions db versions now) osId osVersion)) 0
    (recordVersions db versions now)
  have hvr := transaction_ok (t := fun db => applyVersions db versions.evaluated versions.noFix now)
    (applyVersions_ok db osId osVersion none now)
  refine ⟨n, vs, ?_⟩
  rw [matchRelease, matchReleaseInBatches, query_bind, bind_ok hvr, query_bind, bind_ok h]
  rfl

end OpenVibes.Vulns
