import OpenVibes.Vulns.Matching

/-!
# Vulnerabilities without a fix, over runs of several releases

A vulnerability without a fix is kept per package version, shared by the hosts of every release. `apply_versions`
removes every record of the versions looked at that was not found, whichever release its advisory is for. `NoFixHit`
says what should be recorded after a sequence of `matchRelease` calls (`runAll`).
-/

namespace OpenVibes.Vulns

open Store Theory List

/-- A package row of the release's advisories that matches a version installed on the release. -/
structure Touches (db : Db) (osId osVersion : String) (ap : AdvisoryPackage) (pv : PackageVersion) : Prop where
  advisory : ∃ a ∈ db.advisories.rows, a.forRelease osId osVersion ∧ ap.advisoryId = a.advisoryId
  row : ap ∈ db.advisoryPackages.rows
  version : pv ∈ db.packageVersions.rows
  packageMatch : ap.packageMatch pv
  host : ∃ g ∈ db.agents.rows, g.onRelease osId osVersion ∧ ⟨g.agentId, pv.id⟩ ∈ db.hostPackages.rows

/-- The version, advisory and package of a row without a fix whose range contains an installed version. -/
def NoFixHit (db : Db) (osId osVersion : String) (k : ℕ × String × String) : Prop :=
  ∃ ap pv, Touches db osId osVersion ap pv ∧ ap.fixed = none ∧ inRange (candidate "" none ap pv) pv.installed ∧
    k = (pv.id, ap.advisoryId, ap.name)

/-- Matching the release looks at the version: some row of its advisories matches it. -/
def Evaluates (db : Db) (osId osVersion : String) (versionId : ℕ) : Prop :=
  ∃ ap pv, Touches db osId osVersion ap pv ∧ pv.id = versionId

def Recorded (db : Db) (k : ℕ × String × String) : Prop := (db.versionVulnerabilities.get? k).isSome

instance (db : Db) (k : ℕ × String × String) : Decidable (Recorded db k) := inferInstanceAs (Decidable (_ = true))

/-! ### One match -/

variable {db : Db} {osId osVer : String}

theorem exists_versionCandidate {p : Candidate → Prop} :
    (∃ c ∈ versionCandidates db osId osVer none, p c) ↔
      ∃ ap pv, Touches db osId osVer ap pv ∧ p (candidate "" none ap pv) := by
  constructor
  · rintro ⟨c, hc, hp⟩
    obtain ⟨ap, pv, g, hm, hg, rfl⟩ := mem_versionCandidates_none.mp hc
    obtain ⟨ha, hap, hpv, hmch⟩ := mem_matchFrom.mp hm
    exact ⟨ap, pv, ⟨ha, hap, hpv, hmch, g, mem_installedOn.mp hg⟩, hp⟩
  · rintro ⟨ap, pv, ⟨ha, hap, hpv, hmch, g, hg⟩, hp⟩
    exact ⟨_, mem_versionCandidates_none.mpr
      ⟨ap, pv, g, mem_matchFrom.mpr ⟨ha, hap, hpv, hmch⟩, mem_installedOn.mpr hg, rfl⟩, hp⟩

variable {k : ℕ × String × String} {v : ℕ}

theorem mem_noFix_iff_noFixHit :
    k ∈ ((perVersion (versionCandidates db osId osVer none)).noFix).map VersionFound.key ↔
      NoFixHit db osId osVer k := by
  have hmap : k ∈ ((perVersion (versionCandidates db osId osVer none)).noFix).map VersionFound.key ↔
      ∃ c ∈ versionCandidates db osId osVer none, noFixHit c ∧ (c.versionId, c.advisoryId, c.name) = k := by
    rw [mem_map]
    constructor
    · rintro ⟨f, hf, rfl⟩
      exact mem_noFix.mp hf
    · intro h
      exact ⟨⟨k.1, k.2.1, k.2.2⟩, mem_noFix.mpr h, rfl⟩
  rw [hmap, exists_versionCandidate, NoFixHit]
  refine exists_congr fun ap => exists_congr fun pv => and_congr_right fun _ => ?_
  simp only [noFixHit, Bool.and_eq_true, Option.isNone_iff_eq_none, and_assoc, eq_comm (b := k)]
  rfl

theorem mem_evaluated_iff_evaluates :
    v ∈ (perVersion (versionCandidates db osId osVer none)).evaluated ↔ Evaluates db osId osVer v := by
  rw [mem_evaluated, exists_versionCandidate]
  rfl

theorem NoFixHit.release_eq {osId' osVersion' : String} (h : NoFixHit db osId osVer k)
    (h' : NoFixHit db osId' osVersion' k) : (osId, osVer) = (osId', osVersion') := by
  obtain ⟨ap, pv, ht, -, -, hk⟩ := h
  obtain ⟨ap', pv', ht', -, -, hk'⟩ := h'
  obtain ⟨a, ha, hr, hid⟩ := ht.advisory
  obtain ⟨a', ha', hr', hid'⟩ := ht'.advisory
  have hadv : ap.advisoryId = ap'.advisoryId := by
    rw [hk] at hk'
    exact (Prod.mk.inj (Prod.mk.inj hk').2).1
  have haa : a = a' := db.advisories.eq_of_key_eq ha ha' (by rw [← hid, ← hid', hadv])
  simp only [Advisory.forRelease, decide_eq_true_eq] at hr hr'
  rw [← hr.1, ← hr.2, ← hr'.1, ← hr'.2, haa]

structure Run where
  (osId osVersion : String)
  now : Time

def Run.release (r : Run) : String × String := (r.osId, r.osVersion)

def Run.run (db : Db) (r : Run) : Db := (Prog.exec (matchRelease r.osId r.osVersion r.now) db).2

def runAll (db : Db) (runs : List Run) : Db := runs.foldl Run.run db

/-- **What one call does to a record**: it is a hit of the release, or was there and not looked at. -/
theorem recorded_run (db : Db) (r : Run) (k : ℕ × String × String) :
    Recorded (r.run db) k ↔
      NoFixHit db r.osId r.osVersion k ∨ Recorded db k ∧ ¬ Evaluates db r.osId r.osVersion k.1 := by
  obtain ⟨n, vs, h⟩ := matchRelease_ok r.osId r.osVersion r.now db
  rw [Run.run, h, ← mem_noFix_iff_noFixHit, ← mem_evaluated_iff_evaluates]
  exact isSome_versionsRecorded _ _ _ _ k

/-! ### Runs -/

/-- The stores differ at most in markers and in the records of matching. -/
structure SameInventory (db db' : Db) : Prop where
  agents : db'.agents.rows.map unmarked = db.agents.rows.map unmarked
  packageVersions : db'.packageVersions = db.packageVersions
  hostPackages : db'.hostPackages = db.hostPackages
  advisories : db'.advisories = db.advisories
  advisoryPackages : db'.advisoryPackages = db.advisoryPackages

variable {db' : Db}

section

variable (h : SameInventory db db') {ap : AdvisoryPackage} {pv : PackageVersion}

include h

theorem SameInventory.trans {db'' : Db} (h' : SameInventory db' db'') : SameInventory db db'' :=
  ⟨h'.1.trans h.1, h'.2.trans h.2, h'.3.trans h.3, h'.4.trans h.4, h'.5.trans h.5⟩

theorem SameInventory.symm : SameInventory db' db := ⟨h.1.symm, h.2.symm, h.3.symm, h.4.symm, h.5.symm⟩

theorem SameInventory.touches (ht : Touches db osId osVer ap pv) : Touches db' osId osVer ap pv := by
  obtain ⟨ha, hap, hpv, hm, g, hg, hr, hh⟩ := ht
  have hmem : unmarked g ∈ db'.agents.rows.map unmarked := h.agents ▸ mem_map_of_mem hg
  obtain ⟨g', hg', hu⟩ := mem_map.mp hmem
  have hid : (unmarked g').agentId = (unmarked g).agentId := congrArg Agent.agentId hu
  have hon : (unmarked g').onRelease osId osVer = (unmarked g).onRelease osId osVer :=
    congrArg (Agent.onRelease osId osVer) hu
  refine ⟨h.advisories ▸ ha, h.advisoryPackages ▸ hap, h.packageVersions ▸ hpv, hm, g', hg', hon.trans hr, ?_⟩
  rw [show g'.agentId = g.agentId from hid, h.hostPackages]
  exact hh

theorem SameInventory.touches_iff : Touches db' osId osVer ap pv ↔ Touches db osId osVer ap pv :=
  ⟨h.symm.touches, h.touches⟩

theorem SameInventory.noFixHit_iff : NoFixHit db' osId osVer k ↔ NoFixHit db osId osVer k := by
  simp [NoFixHit, h.touches_iff]

theorem SameInventory.evaluates_iff : Evaluates db' osId osVer v ↔ Evaluates db osId osVer v := by
  simp [Evaluates, h.touches_iff]

end

theorem Run.sameInventory (db : Db) (r : Run) : SameInventory db (r.run db) := by
  obtain ⟨n, vs, h⟩ := matchRelease_ok r.osId r.osVersion r.now db
  rw [Run.run, h]
  refine ⟨?_, rfl, rfl, rfl, rfl⟩
  show (db.agents.rows.map _).map unmarked = _
  rw [map_map]
  refine map_congr_left fun g _ => ?_
  simp only [Function.comp]
  split_ifs <;> rfl

theorem runAll_sameInventory (db : Db) (runs : List Run) : SameInventory db (runAll db runs) := by
  induction runs generalizing db with
  | nil => exact ⟨rfl, rfl, rfl, rfl, rfl⟩
  | cons r runs ih => exact (r.sameInventory db).trans (ih _)

theorem runAll_append (db : Db) (pre post : List Run) : runAll db (pre ++ post) = runAll (runAll db pre) post :=
  foldl_append

variable {runs : List Run}

theorem recorded_runAll_of_not_evaluates (h : ∀ r ∈ runs, ¬ Evaluates db r.osId r.osVersion k.1) (hk : Recorded db k) :
    Recorded (runAll db runs) k := by
  induction runs generalizing db with
  | nil => exact hk
  | cons r runs ih =>
    refine ih (fun r' hr' => ?_) ((recorded_run db r k).mpr (.inr ⟨hk, h r mem_cons_self⟩))
    rw [(r.sameInventory db).evaluates_iff]
    exact h r' (mem_cons_of_mem _ hr')

theorem not_recorded_runAll (h : ∀ r ∈ runs, ¬ NoFixHit db r.osId r.osVersion k) (hk : ¬ Recorded db k) :
    ¬ Recorded (runAll db runs) k := by
  induction runs generalizing db with
  | nil => exact hk
  | cons r runs ih =>
    refine ih (fun r' hr' => ?_) fun hrec => ?_
    · rw [(r.sameInventory db).noFixHit_iff]
      exact h r' (mem_cons_of_mem _ hr')
    · rcases (recorded_run db r k).mp hrec with hhit | ⟨hrec, -⟩
      · exact h r mem_cons_self hhit
      · exact hk hrec

theorem recorded_runAll_iff (h : ∀ r ∈ runs, ¬ NoFixHit db r.osId r.osVersion k) (hk : Recorded db k) :
    Recorded (runAll db runs) k ↔ ∀ r ∈ runs, ¬ Evaluates db r.osId r.osVersion k.1 := by
  refine ⟨fun hrec r hr hev => ?_, fun hno => recorded_runAll_of_not_evaluates hno hk⟩
  obtain ⟨pre, post, rfl⟩ := append_of_mem hr
  rw [runAll_append] at hrec
  have hpre := runAll_sameInventory db pre
  have hgn : ¬ Recorded (r.run (runAll db pre)) k := by
    rw [recorded_run, hpre.noFixHit_iff, hpre.evaluates_iff]
    rintro (hhit | ⟨-, hno⟩)
    · exact h r hr hhit
    · exact hno hev
  refine not_recorded_runAll (fun r' hr' => ?_) hgn hrec
  rw [((hpre.trans (r.sameInventory _))).noFixHit_iff]
  exact h r' (by simp [hr'])

theorem exists_last {α : Type} {p : α → Prop} {l : List α} (h : ∃ x ∈ l, p x) :
    ∃ pre x post, l = pre ++ x :: post ∧ p x ∧ ∀ y ∈ post, ¬ p y := by
  induction l with
  | nil => simp at h
  | cons x l ih =>
    by_cases hl : ∃ y ∈ l, p y
    · obtain ⟨pre, y, post, rfl, hy, hps⟩ := ih hl
      exact ⟨x :: pre, y, post, rfl, hy, hps⟩
    obtain ⟨y, hy, hpy⟩ := h
    rcases mem_cons.mp hy with rfl | hy
    · exact ⟨[], y, l, rfl, hpy, fun z hz hpz => hl ⟨z, hz, hpz⟩⟩
    · exact absurd ⟨y, hy, hpy⟩ hl

/-- The records of a run are complete: every hit of every release matched is recorded. -/
def NoFixKept (db : Db) (runs : List Run) : Prop :=
  ∀ r ∈ runs, ∀ k, NoFixHit db r.osId r.osVersion k → Recorded (runAll db runs) k

/-- **When hits without a fix are kept**: in every store and for every sequence of calls,
exactly when, after the last match of a release, no match of another release looks at a
version on which the first has a hit. -/
theorem noFix_kept_iff (db : Db) (runs : List Run) :
    NoFixKept db runs ↔ ∀ pre r post, runs = pre ++ r :: post → (∀ r' ∈ post, r'.release ≠ r.release) →
        ∀ k, NoFixHit db r.osId r.osVersion k → ∀ r' ∈ post, ¬ Evaluates db r'.osId r'.osVersion k.1 := by
  have hspl : ∀ pre r post, (∀ r' ∈ post, r'.release ≠ r.release) → ∀ k, NoFixHit db r.osId r.osVersion k →
      (Recorded (runAll db (pre ++ r :: post)) k ↔ ∀ r' ∈ post, ¬ Evaluates db r'.osId r'.osVersion k.1) := by
    intro pre r post hps k hk
    have hpre := runAll_sameInventory db pre
    have hrun := hpre.trans (r.sameInventory (runAll db pre))
    rw [runAll_append, show runAll (runAll db pre) (r :: post) = runAll (r.run (runAll db pre)) post from rfl,
      recorded_runAll_iff (fun r' hr' hhit => hps r' hr' ((hrun.noFixHit_iff.mp hhit).release_eq hk))
        ((recorded_run _ r k).mpr (.inl (hpre.noFixHit_iff.mpr hk)))]
    simp [hrun.evaluates_iff]
  constructor
  · rintro hkp pre r post rfl hps k hk
    exact (hspl pre r post hps k hk).mp (hkp r (by simp) k hk)
  intro hcd r hr k hk
  obtain ⟨pre, r', post, rfl, hr', hps⟩ := exists_last (p := fun r' : Run => r'.release = r.release) ⟨r, hr, rfl⟩
  have hps' : ∀ r'' ∈ post, r''.release ≠ r'.release := fun r'' h'' heq => hps r'' h'' (heq.trans hr')
  obtain ⟨h₁, h₂⟩ := Prod.mk.inj hr'
  have hk' : NoFixHit db r'.osId r'.osVersion k := by rw [h₁, h₂]; exact hk
  exact (hspl pre r' post hps' k hk').mpr (hcd pre r' post rfl hps' k hk')

/-- A Debian 12 and a Debian 13 host with the same package version, and for each release an advisory without a fix. -/
def sharedVersion : Db :=
  { Db.empty with
    agents := Table.empty.insertAllNew
      [⟨"a", some "debian", some "12", some [1], none, 0⟩, ⟨"b", some "debian", some "13", some [2], none, 0⟩]
    packageVersions := Table.empty.insertNew ⟨1, "dpkg", "tzdata", 0, "2025a", "1", "all", none, none⟩
    hostPackages := Table.empty.insertAllNew [⟨"a", 1⟩, ⟨"b", 1⟩]
    advisories := Table.empty.insertAllNew
      [⟨"DEBIAN-CVE-2025-1/debian-12", "debian", "12"⟩, ⟨"DEBIAN-CVE-2025-2/debian-13", "debian", "13"⟩]
    advisoryPackages := Table.empty.insertAllNew
      [⟨"DEBIAN-CVE-2025-1/debian-12", "tzdata", "", .dpkg, .source, none, none, none⟩,
       ⟨"DEBIAN-CVE-2025-2/debian-13", "tzdata", "", .dpkg, .source, none, none, none⟩] }

/-- Matching Debian 13 after Debian 12 removes the Debian 12 advisory's hit, though a
Debian 12 host still has the version. -/
theorem noFix_lost :
    NoFixHit sharedVersion "debian" "12" (1, "DEBIAN-CVE-2025-1/debian-12", "tzdata") ∧
    Recorded (runAll sharedVersion [⟨"debian", "12", 1⟩]) (1, "DEBIAN-CVE-2025-1/debian-12", "tzdata") ∧
    ¬ Recorded (runAll sharedVersion [⟨"debian", "12", 1⟩, ⟨"debian", "13", 2⟩])
      (1, "DEBIAN-CVE-2025-1/debian-12", "tzdata") ∧
    ¬ NoFixKept sharedVersion [⟨"debian", "12", 1⟩, ⟨"debian", "13", 2⟩] := by
  have hhit : NoFixHit sharedVersion "debian" "12" (1, "DEBIAN-CVE-2025-1/debian-12", "tzdata") :=
    mem_noFix_iff_noFixHit.mp (by decide)
  have hls : ¬ Recorded (runAll sharedVersion [⟨"debian", "12", 1⟩, ⟨"debian", "13", 2⟩])
      (1, "DEBIAN-CVE-2025-1/debian-12", "tzdata") := by decide
  exact ⟨hhit, by decide, hls, fun hkp => hls (hkp ⟨"debian", "12", 1⟩ (by simp) _ hhit)⟩

end OpenVibes.Vulns
