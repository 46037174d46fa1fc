import OpenVibes.Signer.Versions

/-!
# No version is signed twice

While one process at a time replaces `versions.json`, the versions handed out go up. `Valid`: every file that
`versions.json` stands for, or can stand for after a crash, and the signer's memory are not below what was handed out.
Two that replace the file at once break this (`version_is_signed_twice`).
-/

namespace OpenVibes.Signer

open Theory List Option

/-! ### What holds of the file -/

def Sets.AtLeast (handedOut : List (RuleSetId × ℕ)) (sets : Sets) : Prop := ∀ x ∈ handedOut,
    x.2 ≤ (sets.get x.1).version

/-- A content that is a version state is not below what was handed out. -/
def Content.AtLeast (handedOut : List (RuleSetId × ℕ)) (c : Content) : Prop :=
  ∀ sets, c = .versions sets → sets.AtLeast handedOut

def Content.Bad (c : Content) : Prop := c = .unreadable

theorem Content.Bad.atLeast {handedOut : List (RuleSetId × ℕ)} {c : Content} (h : c.Bad) : c.AtLeast handedOut := by
  intro sets hsets
  rw [h] at hsets
  cases hsets

abbrev versions : Path := .file .versions

abbrev Replaces (handedOut : List (RuleSetId × ℕ)) (Q : Unit → Disk → Prop) (p : Prog Disk (Except Unit Unit))
    (disk : Disk) : Prop :=
  p.Meets (Files.Spoils Content.Bad) (Files.Keeps (Content.AtLeast handedOut) versions) (Prog.OnOk Q) disk

variable {W W' : World} {handedOut : List (RuleSetId × ℕ)}

/-! ### Writing -/

variable {disk : Disk} {sets : Sets}

section

variable (hds : disk.Holds (Content.AtLeast handedOut) versions) (hsets : sets.AtLeast handedOut)

include hds hsets

theorem writeAtomic_replaces : Replaces handedOut (fun _ disk => disk.Written Content.Bad (.versions sets) versions)
      (writeAtomic .versions (.versions sets)) disk := by
  refine (Files.writeAtomic_meets (by decide) (fun c hc => hc.atLeast) (fun _ sets' h => ?_) hds).imp fun r f hr => ?_
  · obtain rfl := Content.versions.inj h
    exact hsets
  · cases r with
    | ok _ => exact hr.2
    | error _ => trivial

theorem recordSigned_replaces (set : RuleSetId) (payload : String) :
    Replaces handedOut (fun _ disk => disk.Written Content.Bad (.versions sets) versions)
      (recordSigned set sets payload) disk := by
  refine .except_bind (Q := fun _ disk => disk.Holds (Content.AtLeast handedOut) versions) ?_ fun _ f hf =>
    writeAtomic_replaces hf hsets
  -- the rules have names of their own
  refine (Files.writeAtomic_meets (fun h => ?_) (fun c hc => hc.atLeast) (fun h => ?_) hds).imp fun r f hr => ?_
  · cases h
  · cases h
  · cases r with
    | ok _ => exact hr.1
    | error _ => trivial

end

theorem get_insert_self (sets : Sets) (state : SetState) (set : RuleSetId) : (sets.insert state set).get set = state :=
    by
  cases set <;> rfl

variable {set : RuleSetId}

theorem get_insert_of_ne (sets : Sets) (state : SetState) {other : RuleSetId} (h : other ≠ set) :
    (sets.insert state set).get other = sets.get other := by
  cases set <;> cases other <;> first | rfl | exact absurd rfl h

variable {version : ℕ}

theorem Sets.AtLeast.insert (h : sets.AtLeast handedOut) (hver : (sets.get set).version < version)
    (expires : Option ℤ) : (sets.insert ⟨version, expires⟩ set).AtLeast (handedOut ++ [(set, version)]) := by
  intro x hx
  rcases mem_append.mp hx with hx | hx
  · by_cases hset : x.1 = set
    · have hle := h x hx
      rw [hset] at hle ⊢
      rw [get_insert_self]
      exact hle.trans hver.le
    · rw [get_insert_of_ne sets _ hset]
      exact h x hx
  · obtain rfl := mem_singleton.mp hx
    rw [get_insert_self]

theorem Sets.AtLeast.of_append {x : RuleSetId × ℕ} (h : sets.AtLeast (handedOut ++ [x])) : sets.AtLeast handedOut :=
  fun y hy => h y (mem_append_left _ hy)

theorem nextVersion_eq_some {sets : Option Sets} (h : nextVersion sets set = some version) :
    ∃ s, sets = some s ∧ version = (s.get set).version + 1 := by
  unfold nextVersion at h
  split at h
  · cases h
  · rename_i s
    split_ifs at h
    exact ⟨s, rfl, (some.inj h).symm⟩

/-! ### The invariant -/

structure Recording.Ok (rec : Recording) (W : World) : Prop where
  version : ∃ sets expires, W.memory = some (some sets) ∧ rec.version = (sets.get rec.set).version + 1 ∧
    rec.sets = sets.insert ⟨rec.version, expires⟩ rec.set
  /-- and when the record is complete, the file is in place for good. -/
  replaces : Replaces W.handedOut (fun _ disk => disk.Written Content.Bad (.versions rec.sets) versions) rec.rest W.disk

structure Valid (W : World) : Prop where
  increasing : W.handedOut.Pairwise fun a b => a.1 = b.1 → a.2 < b.2
  disk : W.disk.Holds (Content.AtLeast W.handedOut) versions
  has : W.handedOut ≠ [] → W.disk.Has versions
  memory : ∀ sets, W.memory = some (some sets) → sets.AtLeast W.handedOut
  recording : ∀ rec, W.recording = some rec → rec.Ok W
  seeds : ∀ (i : ℕ) rest, W.seeds[i]? = some (Seed.writing rest) → Replaces W.handedOut (fun _ _ => True) rest W.disk
  alone : ∀ (i : ℕ) rest, W.seeds[i]? = some (Seed.writing rest) → W.recording = none
  one : ∀ (i j : ℕ) rest rest', W.seeds[i]? = some (Seed.writing rest) → W.seeds[j]? = some (Seed.writing rest') → i = j

/-! ### The conditions on a run -/

def World.writing (W : World) : Bool := W.recording.isSome || W.seeds.any Seed.isWriting

/-- The least version of a `seed` that finds no version state with this move. -/
def World.seeding (W : World) : Move → Option ℕ
  | .seedLook i ok =>
    match W.seeds[i]? with
    | some (.begun minVersion) =>
      if ok && (W.disk.names versions).isSome then none else some minVersion
    | _ => none
  | .seedOpen i ok =>
    match W.seeds[i]? with
    | some (.found minVersion) => if ok && (openState W.disk).isSome then none else some minVersion
    | _ => none
  | _ => none

def Move.isSign : Move → Bool
  | .sign .. => true
  | _ => false

/-- Nobody begins to replace `versions.json` while another is at it. -/
def Apart (W : World) (m : Move) : Prop := (m.isSign || (W.seeding m).isSome) = true → W.writing = false

/-- A `seed` that replaces a file has a least version above all that were handed out. -/
def Above (W : World) (m : Move) : Prop :=
  ∀ minVersion ∈ W.seeding m, (W.disk.names versions).isSome = true → ∀ x ∈ W.handedOut, x.2 < minVersion

instance (W : World) (m : Move) : Decidable (Apart W m) := inferInstanceAs (Decidable (_ → _))

instance (W : World) (m : Move) : Decidable (Above W m) :=
  match h : W.seeding m with
  | none => isTrue fun v hv => by rw [h] at hv; cases hv
  | some v => decidable_of_iff ((W.disk.names versions).isSome = true → ∀ x ∈ W.handedOut, x.2 < v)
      ⟨fun hv w hw => by rw [h] at hw; exact some.inj hw ▸ hv, fun hall => hall v h⟩

/-! ### Steps keep the invariant -/

theorem Valid.requests (hW : Valid W) (requests : ℕ → Option RuleSetId) : Valid { W with requests := requests } :=
  ⟨hW.increasing, hW.disk, hW.has, hW.memory,
    fun rec h => ⟨(hW.recording rec h).version, (hW.recording rec h).replaces⟩, hW.seeds, hW.alone, hW.one⟩

theorem Valid.withSeeds (hW : Valid W) {seeds : List Seed}
    (hsub : ∀ (i : ℕ) rest, seeds[i]? = some (Seed.writing rest) → W.seeds[i]? = some (Seed.writing rest)) :
    Valid { W with seeds := seeds } :=
  ⟨hW.increasing, hW.disk, hW.has, hW.memory,
    fun rec h => ⟨(hW.recording rec h).version, (hW.recording rec h).replaces⟩,
    fun i rest h => hW.seeds i rest (hsub i rest h), fun i rest h => hW.alone i rest (hsub i rest h),
    fun i j rest rest' h h' => hW.one i j rest rest' (hsub i rest h) (hsub j rest' h')⟩

variable {i : ℕ} {rest : Prog Disk (Except Unit Unit)}

theorem Valid.setSeed (hW : Valid W) {seed : Seed} (hsd : seed.isWriting = false) : Valid (W.setSeed i seed) := by
  refine hW.withSeeds fun j rest h => ?_
  by_cases hj : i = j
  · subst hj
    rw [getElem?_set_self'] at h
    obtain ⟨_, -, rfl⟩ := map_eq_some_iff.mp h
    cases hsd
  · rwa [getElem?_set_ne hj] at h

theorem Valid.stop (hW : Valid W) : Valid W.stop :=
  ⟨hW.increasing, hW.disk, hW.has, nofun, nofun, hW.seeds, fun _ _ _ => rfl, hW.one⟩

theorem not_writing (h : W.writing = false) : W.seeds[i]? ≠ some (.writing rest) := by
  intro hi
  rw [World.writing, Bool.or_eq_false_iff, List.any_eq_false] at h
  exact h.2 _ (mem_of_getElem? hi) rfl

theorem Valid.writeSeed (hW : Valid W) {minVersion : ℕ} (halo : W.writing = false)
    (habv : (W.disk.names versions).isSome = true → ∀ x ∈ W.handedOut, x.2 < minVersion) :
    Valid (W.setSeed i (writeSeed minVersion)) := by
  have hrcr : W.recording = none := by
    rw [World.writing, Bool.or_eq_false_iff] at halo
    simpa using halo.1
  -- without a file nothing was handed out
  have hsets : (seedSets minVersion).AtLeast W.handedOut := by
    intro x hx
    have hsm : (W.disk.names versions).isSome = true := by
      have hhas := hW.has (ne_nil_of_mem hx) W.disk.names mem_cons_self
      rwa [← isSome_iff_ne_none] at hhas
    have hlt := habv hsm x hx
    have hget : ((seedSets minVersion).get x.1).version = minVersion - 1 := by cases x.1 <;> rfl
    omega
  have hmn : ∀ (j : ℕ) rest, (W.setSeed i (Signer.writeSeed minVersion)).seeds[j]? = some (Seed.writing rest) →
      i = j ∧ rest = writeAtomic .versions (.versions (seedSets minVersion)) := by
    intro j rest h
    by_cases hj : i = j
    · subst hj
      refine ⟨rfl, ?_⟩
      rw [World.setSeed, getElem?_set_self'] at h
      obtain ⟨_, -, hrs⟩ := map_eq_some_iff.mp h
      exact (Seed.writing.inj hrs).symm
    · rw [World.setSeed, getElem?_set_ne hj] at h
      exact absurd h (not_writing halo)
  refine ⟨hW.increasing, hW.disk, hW.has, hW.memory, fun rec h => ?_, fun j rest h => ?_, fun _ _ _ => hrcr,
    fun j j' rest rest' h h' => ?_⟩
  · cases hrcr.symm.trans h
  · obtain ⟨-, rfl⟩ := hmn j rest h
    refine (writeAtomic_replaces hW.disk hsets).imp fun r f hr => ?_
    cases r <;> trivial
  · exact (hmn j rest h).1.symm.trans (hmn j' rest' h').1

theorem Valid.start (hW : Valid W) (hmem : W.memory = none) (ok : Bool) :
    Valid { W with memory := some (if ok then openState W.disk else none) } := by
  refine ⟨hW.increasing, hW.disk, hW.has, fun sets h => ?_, fun rec h => ?_, hW.seeds, hW.alone, hW.one⟩
  · have hop : openState W.disk = some sets := by
      cases ok with
      | true => exact some.inj h
      | false => cases h
    unfold openState Files.read at hop
    split at hop
    · rename_i sets' hrd
      obtain rfl : sets' = sets := some.inj hop
      obtain ⟨n, hn, hc⟩ := map_eq_some_iff.mp hrd
      exact (hW.disk W.disk.names mem_cons_self n hn).2.2 sets' hc
    · cases hop
  · obtain ⟨⟨sets, expires, hsm, -⟩, -⟩ := hW.recording rec h
    rw [hmem] at hsm
    cases hsm

theorem Valid.sign (hW : Valid W) (halo : W.writing = false) (hmem : W.memory = some (some sets))
    (hver : version = (sets.get set).version + 1) (payload : String) (expires : ℤ) :
    Valid { W with recording := some ⟨set, version, sets.insert ⟨version, some expires⟩ set,
      recordSigned set (sets.insert ⟨version, some expires⟩ set) payload⟩ } := by
  refine ⟨hW.increasing, hW.disk, hW.has, hW.memory, fun rec h => ?_, hW.seeds, fun i rest h => ?_, hW.one⟩
  · cases h
    have hsets : Sets.AtLeast W.handedOut (sets.insert ⟨version, some expires⟩ set) :=
      ((hW.memory sets hmem).insert (by omega) (some expires)).of_append
    exact ⟨⟨sets, some expires, hmem, hver, rfl⟩, recordSigned_replaces hW.disk hsets set payload⟩
  · change W.seeds[i]? = _ at h
    exact absurd h (not_writing halo)

theorem keeps_of_advance {p : Prog Disk (Except Unit Unit)} {Q : Unit → Disk → Prop} (h : Replaces handedOut Q p disk)
    (ok : Bool) : Files.Keeps (Content.AtLeast handedOut) versions disk (p.advance ok disk).2 := by
  rcases (h.advance ok).2 with hsa | hkps
  · rw [hsa]
    exact .refl disk
  · exact hkps

theorem Valid.record (hW : Valid W) {rec : Recording} (hrec : W.recording = some rec) (ok : Bool) :
    Valid { W with
      disk := (rec.rest.advance ok W.disk).2
      recording := some { rec with rest := (rec.rest.advance ok W.disk).1 } } := by
  obtain ⟨hver, hrpl⟩ := hW.recording rec hrec
  have hkps := keeps_of_advance hrpl ok
  refine ⟨hW.increasing, hkps.holds hW.disk, fun h => hkps.has (hW.has h), hW.memory, fun rec' h => ?_,
    fun i rest h => ?_, fun i rest h => ?_, hW.one⟩
  · cases h
    exact ⟨hver, (hrpl.advance ok).1⟩
  · cases (hW.alone i rest h).symm.trans hrec
  · cases (hW.alone i rest h).symm.trans hrec

theorem Valid.seedWrite (hW : Valid W) (hi : W.seeds[i]? = some (.writing rest)) (ok : Bool) : Valid { W with
      disk := (rest.advance ok W.disk).2
      seeds := W.seeds.set i (.writing (rest.advance ok W.disk).1) } := by
  have hrpl := hW.seeds i rest hi
  have hkps := keeps_of_advance hrpl ok
  have hrcr := hW.alone i rest hi
  have hmn : ∀ (j : ℕ) rest', (W.seeds.set i (.writing (rest.advance ok W.disk).1))[j]? = some (.writing rest') →
      i = j ∧ rest' = (rest.advance ok W.disk).1 := by
    intro j rest' h
    by_cases hj : i = j
    · subst hj
      refine ⟨rfl, ?_⟩
      rw [getElem?_set_self'] at h
      obtain ⟨_, -, hrs⟩ := map_eq_some_iff.mp h
      exact (Seed.writing.inj hrs).symm
    · rw [getElem?_set_ne hj] at h
      exact absurd (hW.one i j rest rest' hi h) hj
  refine ⟨hW.increasing, hkps.holds hW.disk, fun h => hkps.has (hW.has h), hW.memory, fun rec h => ?_,
    fun j rest' h => ?_, fun _ _ _ => hrcr, fun j j' r r' h h' => ?_⟩
  · cases hrcr.symm.trans h
  · obtain ⟨-, rfl⟩ := hmn j rest' h
    exact (hrpl.advance ok).1
  · exact (hmn j r h).1.symm.trans (hmn j' r' h').1

theorem Valid.answer (hW : Valid W) (hrec : W.recording = some ⟨set, version, sets, .ret (.ok ())⟩) :
    Valid { W with
      memory := some (some sets), recording := none, handedOut := W.handedOut ++ [(set, version)] } := by
  obtain ⟨⟨old, expires, hmem, hver, hsets⟩, hrpl⟩ := hW.recording _ hrec
  dsimp only at hver hsets
  have hold := hW.memory old hmem
  have hnew : sets.AtLeast (W.handedOut ++ [(set, version)]) := by
    rw [hsets]
    exact hold.insert (by omega) expires
  obtain ⟨⟨n, hn, hinta⟩, hsin⟩ := hrpl W.disk .refl
  have hdr : W.disk.dirs = [W.disk.names] := by rw [Files.dirs, hsin]
  refine ⟨?_, fun d hd m hm => ?_, fun _ d hd => ?_, fun sets' h => ?_, nofun, fun i rest h => ?_,
    fun _ _ _ => rfl, hW.one⟩
  · refine pairwise_append.mpr ⟨hW.increasing, pairwise_singleton .., fun x hx y hy hset => ?_⟩
    obtain rfl := mem_singleton.mp hy
    have hle := hold x hx
    dsimp only at hset ⊢
    rw [hset] at hle
    omega
  · obtain ⟨hlt, hsyn, -⟩ := hW.disk d hd m hm
    refine ⟨hlt, hsyn, fun sets' hsets' => ?_⟩
    rw [hdr, mem_singleton] at hd
    subst hd
    obtain rfl := mem_unique hn hm
    rcases hinta with hctt | hbad
    · obtain rfl := Content.versions.inj (hctt.symm.trans hsets')
      exact hnew
    · rw [hbad] at hsets'
      cases hsets'
  · change d ∈ W.disk.dirs at hd
    rw [hdr, mem_singleton] at hd
    subst hd
    rw [hn]
    exact some_ne_none n
  · obtain rfl := some.inj (some.inj h)
    exact hnew
  · cases (hW.alone i rest h).symm.trans hrec

theorem Valid.spoil (hW : Valid W) (n : ℕ) : Valid { W with disk := W.disk.spoil n .unreadable } := by
  have hspl : Files.Spoils Content.Bad W.disk (W.disk.spoil n .unreadable) := ⟨n, .unreadable, rfl, rfl⟩
  have hkps : Files.Keeps (Content.AtLeast W.handedOut) versions W.disk (W.disk.spoil n .unreadable) :=
    Files.keeps_spoil (Content.Bad.atLeast rfl)
  exact ⟨hW.increasing, hkps.holds hW.disk, fun h => hkps.has (hW.has h), hW.memory,
    fun rec h => ⟨(hW.recording rec h).version, (hW.recording rec h).replaces.of_rely hspl⟩,
    fun i rest h => (hW.seeds i rest h).of_rely hspl, hW.alone, hW.one⟩

theorem Valid.crash (hW : Valid W) (pick : Path → ℕ) (torn : ℕ → Content) :
    Valid { W.stop with disk := W.disk.crash pick torn, seeds := [] } := by
  have hkps : Files.Keeps (Content.AtLeast W.handedOut) versions W.disk (W.disk.crash pick torn) :=
    Files.keeps_crash pick torn
  exact ⟨hW.increasing, hkps.holds hW.disk, fun h => hkps.has (hW.has h), nofun, nofun, nofun, nofun, nofun⟩

/-- **A step** under the two conditions keeps the invariant. -/
theorem valid_step {m : Move} (hW : Valid W) (hm : Apart W m ∧ Above W m) (h : step W m = some W') : Valid W' := by
  obtain ⟨hapr, habv⟩ := hm
  cases m with
  | start ok =>
    unfold step at h
    dsimp only at h
    split at h
    · cases h
    · rename_i hmem
      cases h
      exact hW.start hmem ok
  | arrive r set =>
    unfold step at h
    dsimp only at h
    split at h
    · split_ifs at h
      · cases h
        exact hW
      · cases h
        exact hW.requests _
    · cases h
  | refuse r =>
    cases h
    exact hW.requests _
  | sign r payload expires =>
    have halo := hapr rfl
    unfold step at h
    dsimp only at h
    split at h
    · rename_i sets set hmem _ _
      split at h
      · rename_i sets version hnx
        cases h
        obtain ⟨s, hs, hver⟩ := nextVersion_eq_some hnx
        cases hs
        exact (hW.sign halo hmem hver payload expires).requests _
      · cases h
        exact hW.requests _
    · cases h
  | record ok =>
    unfold step at h
    dsimp only at h
    split at h
    · cases h
    · rename_i rec hrec
      cases h
      exact hW.record hrec ok
  | answer =>
    unfold step at h
    dsimp only at h
    split at h
    · rename_i hrec
      cases h
      exact hW.answer hrec
    · cases h
      exact ⟨hW.increasing, hW.disk, hW.has, hW.memory, nofun, hW.seeds, fun _ _ _ => rfl, hW.one⟩
    · cases h
  | kill =>
    cases h
    exact hW.stop
  | crash pick torn =>
    cases h
    exact hW.crash pick torn
  | seed minVersion =>
    unfold step at h
    dsimp only at h
    split_ifs at h
    · cases h
      exact hW
    cases h
    refine hW.withSeeds fun i rest hi => ?_
    rw [getElem?_append] at hi
    split_ifs at hi
    · exact hi
    · rw [getElem?_singleton] at hi
      split_ifs at hi
      cases hi
  | seedLook i ok | seedOpen i ok =>
    simp only [Apart, Above, World.seeding, Move.isSign, Bool.false_or] at hapr habv
    unfold step at h
    dsimp only at h
    split at h
    · rename_i minVersion hi
      simp only [hi] at hapr habv
      split_ifs at h with hen
      · cases h
        exact hW.setSeed rfl
      · cases h
        simp only [if_neg hen] at hapr habv
        exact hW.writeSeed (hapr rfl) (habv minVersion rfl)
    · cases h
  | seedWrite i ok =>
    unfold step at h
    dsimp only at h
    split at h
    · rename_i rest hi
      cases h
      exact hW.seedWrite hi ok
    · cases h
  | seedEnd i =>
    cases h
    exact hW.setSeed rfl
  | spoil n =>
    cases h
    exact hW.spoil n

theorem valid_initial (hds : disk.Holds (fun _ => True) versions) : Valid (World.initial disk) := by
  refine ⟨.nil, fun d hd n hn => ?_, fun h => absurd rfl h, nofun, nofun, nofun, fun _ _ _ => rfl, nofun⟩
  obtain ⟨hlt, hsyn, -⟩ := hds d hd n hn
  exact ⟨hlt, hsyn, nofun⟩

/-- **No version is signed twice**: in every run in which one at a time replaces `versions.json`, and a `seed` only with
a version above all that were handed out, the versions handed out of a set go up, and what `versions.json` has, or can
have after a crash, is at least that. -/
theorem no_version_signed_twice {disk : Disk} (hds : disk.Holds (fun _ => True) versions) {moves : List Move}
    {W : World} (hmvs : StepsMeet step (fun W m => Apart W m ∧ Above W m) (World.initial disk) moves)
    (hrun : run step (World.initial disk) moves = some W) :
    (W.handedOut.Pairwise fun a b => a.1 = b.1 → a.2 < b.2) ∧
      ∀ d ∈ W.disk.dirs, ∀ n sets, d versions = some n → (W.disk.nodes n).content = .versions sets →
        ∀ x ∈ W.handedOut, x.2 ≤ (sets.get x.1).version := by
  have hW : Valid W := run_invariant_of (fun _ _ _ => valid_step) (valid_initial hds) hmvs hrun
  exact ⟨hW.increasing, fun d hd n sets hn hsets => (hW.disk d hd n hn).2.2 sets hsets⟩

def emptyDisk : Disk := ⟨fun _ => none, [], fun _ => ⟨.unreadable, true⟩, 0⟩

theorem emptyDisk_holds : emptyDisk.Holds (fun _ => True) versions := by
  intro d hd n hn
  obtain rfl := mem_singleton.mp hd
  cases hn

def seeding (i : ℕ) : List Move := .seedLook i true :: List.replicate 9 (.seedWrite i true) ++ [.seedEnd i]

def signing : List Move :=
  [.start true, .arrive 0 .site, .sign 0 "rules" 1] ++ List.replicate 18 (.record true) ++ [.answer]

/-- Seeded, the signer hands out the first version. -/
theorem no_version_signed_twice_sample : ∃ W, run step (World.initial emptyDisk) (.seed 1 :: seeding 0 ++
    signing) = some W ∧ W.handedOut = [(.site, 1)] ∧ ∀ d ∈ W.disk.dirs, ∀ n sets, d versions = some n →
      (W.disk.nodes n).content = .versions sets → 1 ≤ sets.site.version := by
  have hrun : (run step (.initial emptyDisk) (.seed 1 :: seeding 0 ++ signing)).map World.handedOut =
      some [(.site, 1)] := by decide +kernel
  obtain ⟨W, hW, hhan⟩ := map_eq_some_iff.mp hrun
  have hmvs : StepsMeet step (fun W m => Apart W m ∧ Above W m) (.initial emptyDisk)
      (.seed 1 :: seeding 0 ++ signing) := by decide +kernel
  obtain ⟨-, hds⟩ := no_version_signed_twice emptyDisk_holds hmvs hW
  refine ⟨W, hW, hhan, fun d hd n sets hn hsets => ?_⟩
  exact hds d hd n sets hn hsets (.site, 1) (by rw [hhan]; exact mem_singleton_self _)

/-- **A version is signed twice**: two runs of `seed` find no file; the signer hands out version 1 between them, and
signs it again after the second put version 0 in its place. -/
theorem version_is_signed_twice : ∃ (moves : List Move) (W : World), emptyDisk.Holds (fun _ => True) versions ∧
    StepsMeet step Above (World.initial emptyDisk) moves ∧ run step (World.initial emptyDisk) moves = some W ∧
    W.handedOut = [(.site, 1), (.site, 1)] := by
  have hrun : (run step (.initial emptyDisk) ([.seed 1, .seed 1, .seedLook 1 true] ++ seeding 0 ++ signing ++
      List.replicate 9 (.seedWrite 1 true) ++ [.kill] ++ signing)).map World.handedOut =
      some [(.site, 1), (.site, 1)] := by decide +kernel
  obtain ⟨W, hW, hhan⟩ := map_eq_some_iff.mp hrun
  exact ⟨_, W, emptyDisk_holds, by decide +kernel, hW, hhan⟩

end OpenVibes.Signer
