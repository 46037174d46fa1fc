import OpenVibes.Vulns.Matching

/-!
# What `evaluate` reports

Of each host, advisory, package, architecture and range start the first loop keeps the newest candidate (`keptRows`). Of
each package the first of these that has an entry decides (`firstEntry`), so that a row whose update is missing can be
hidden by one that waits for a boot. The running kernel is compared with the fix alone, so that one from before the
range is reported too.
-/

namespace OpenVibes.Vulns

open Rust Store Theory List Option Std

/-! ### Rows and entries -/

/-- The candidates that the first loop keeps of a host and an advisory, in the order of the map. -/
def keptRows (cs : List Candidate) (pair : String × String) : List (NewestKey × Candidate) :=
  (newest cs).toList.filter fun x => (x.1.1, x.1.2.1) = pair

def firstEntry (rows : List (NewestKey × Candidate)) (name : String) : Option (PackageEntry × Bool) :=
  rows.findSome? fun x => if x.1.2.2.1 = name then entryOf x.2 else none

def runningVersion (c : Candidate) : Option String :=
  (c.runningKernel.bind runningEvr).map fun evr => toString evr.1 ++ ":" ++ evr.2.1 ++ "-" ++ evr.2.2

/-- The package is an rpm kernel package, and what runs is older than the fix. -/
def RunsOlder (c : Candidate) : Prop :=
  isKernel c.name = true ∧ c.scheme = .rpm ∧ ∃ running fixed, runningVersion c = some running ∧ c.fixed = some fixed ∧
      (compareVersions .rpm running fixed).isLT = true

variable {cs cs' : List Candidate} {c d : Candidate} {pair : String × String} {f : Found}
  {rows : List (NewestKey × Candidate)} {name : String} {e : PackageEntry × Bool}

theorem olderRunning_isSome_iff : (olderRunning c).isSome = true ↔ RunsOlder c := by
  rw [olderRunning, RunsOlder, runningVersion]
  by_cases hker : isKernel c.name = true ∧ c.scheme = .rpm
  · rw [if_pos hker]
    cases hfix : c.fixed with
    | none => simp
    | some fixed =>
      cases hrng : c.runningKernel.bind runningEvr with
      | none =>
        cases hker' : c.runningKernel with
        | none => simp
        | some uname =>
          rw [hker', bind_some] at hrng
          simp [hrng]
      | some evr =>
        obtain ⟨uname, hunm, hevr⟩ := bind_eq_some_iff.mp hrng
        simp only [hunm, hevr, bind_eq_bind, bind_some, map_some]
        constructor
        · intro h
          split_ifs at h with hlt
          · exact ⟨hker.1, hker.2, _, _, rfl, rfl, hlt⟩
          · cases h
        · rintro ⟨-, -, _, _, hrng, hfix, hlt⟩
          cases hrng
          cases hfix
          rw [if_pos hlt]
          rfl
  · rw [if_neg hker]
    simp only [isSome_none, Bool.false_eq_true, false_iff]
    exact fun h => hker ⟨h.1, h.2.1⟩

theorem entryOf_isSome_iff : (entryOf c).isSome = true ↔ inRange c c.installed = true ∨ RunsOlder c := by
  rw [← olderRunning_isSome_iff, entryOf]
  cases inRange c c.installed <;> cases olderRunning c <;> simp

theorem entryOf_eq_some (h : entryOf c = some e) : e.1.name = c.name ∧ e.2 = !inRange c c.installed := by
  rw [entryOf] at h
  split_ifs at h
  cases h
  exact ⟨rfl, rfl⟩

theorem mem_keptRows {x : NewestKey × Candidate} (h : x ∈ keptRows cs pair) :
    x.2 ∈ cs ∧ x.2.fixed.isSome = true ∧ newestKey x.2 = x.1 ∧ (x.2.agentId, x.2.advisoryId) = pair := by
  obtain ⟨hx, hpr⟩ := mem_filter.mp h
  obtain ⟨hc, hfix, hkey⟩ := mem_newest hx
  refine ⟨hc, hfix, hkey, ?_⟩
  rw [← hkey] at hpr
  exact of_decide_eq_true hpr

theorem firstEntry_cons (x : NewestKey × Candidate) (rows : List (NewestKey × Candidate)) (name : String) :
    firstEntry (x :: rows) name = (if x.1.2.2.1 = name then entryOf x.2 else none).or (firstEntry rows name) := by
  rw [firstEntry, findSome?_cons]
  cases (if x.1.2.2.1 = name then entryOf x.2 else none) <;> rfl

theorem getElem?_insertIfNew (packages : Packages) (name name' : String) (e : PackageEntry × Bool) :
    (packages.insertIfNew name e)[name']? = packages[name']?.or (if name = name' then some e else none) := by
  rw [TreeMap.getElem?_insertIfNew]
  by_cases hnm : name = name'
  · subst hnm
    cases hold : packages[name]? with
    | none =>
      have hnot : name ∉ packages := by rw [TreeMap.mem_iff_isSome_getElem?, hold]; exact Bool.false_ne_true
      simp [hnot]
    | some old =>
      have hmem : name ∈ packages := by rw [TreeMap.mem_iff_isSome_getElem?, hold]; rfl
      simp [hmem]
  · simp [hnm]

/-- **The entries of the packages** are the first ones. -/
theorem getElem?_foldl_addEntry (rows : List (NewestKey × Candidate)) (o : Option Packages) (name : String) :
    (rows.foldl (fun o x => addEntry x o) o).bind (fun packages => packages[name]?) =
      (o.bind fun packages => packages[name]?).or (firstEntry rows name) := by
  induction rows generalizing o with
  | nil => simp [firstEntry]
  | cons x rows ih =>
    rw [foldl_cons, ih, firstEntry_cons, addEntry]
    cases hent : entryOf x.2 with
    | none => simp
    | some e =>
      have hins : (some ((o.getD ∅).insertIfNew x.1.2.2.1 e)).bind (fun packages => packages[name]?) =
          (o.bind fun packages => packages[name]?).or (if x.1.2.2.1 = name then some e else none) := by
        rw [bind_some, getElem?_insertIfNew]
        cases o <;> rfl
      rw [hins, Option.or_assoc]

theorem isSome_foldl_addEntry (rows : List (NewestKey × Candidate)) :
    (rows.foldl (fun o x => addEntry x o) none).isSome = true ↔ ∃ x ∈ rows, (entryOf x.2).isSome = true := by
  have hadd : ∀ (o : Option Packages) (x : NewestKey × Candidate),
      (addEntry x o).isSome = true ↔ o.isSome = true ∨ (entryOf x.2).isSome = true := by
    intro o x
    rw [addEntry]
    cases entryOf x.2 <;> simp
  refine (foldl_collects (fun o : Option Packages => o.isSome = true) _ hadd rows none).trans ?_
  simp

/-- **What is reported** of a pair: the first entries of its packages. -/
theorem of_mem_evaluate (h : f ∈ evaluate cs) : ∃ packages : Packages, f = foundOf (f.key, packages) ∧
    ∀ name, packages[name]? = firstEntry (keptRows cs f.key) name := by
  obtain ⟨⟨pair, packages⟩, hgrp, rfl⟩ := mem_map.mp h
  have hfd := mem_group.mp hgrp
  refine ⟨packages, rfl, fun name => ?_⟩
  have hent := getElem?_foldl_addEntry (keptRows cs pair) none name
  rw [keptRows, hfd] at hent
  exact hent

/-- **A pair is reported** if one of its rows has an entry. -/
theorem mem_evaluate_iff : (∃ f ∈ evaluate cs, f.key = pair) ↔ ∃ x ∈ keptRows cs pair, (entryOf x.2).isSome = true := by
  rw [← isSome_foldl_addEntry]
  constructor
  · rintro ⟨f, hf, rfl⟩
    obtain ⟨⟨pair, packages⟩, hgrp, rfl⟩ := mem_map.mp hf
    exact isSome_of_eq_some (mem_group.mp hgrp)
  · intro h
    obtain ⟨packages, hfd⟩ := isSome_iff_exists.mp h
    exact ⟨foundOf (pair, packages), mem_map.mpr ⟨_, mem_group.mpr hfd, rfl⟩, rfl⟩

theorem rebootNeeded_iff (h : f ∈ evaluate cs) :
    f.rebootNeeded = true ↔ ∀ name e, firstEntry (keptRows cs f.key) name = some e → e.2 = true := by
  obtain ⟨packages, hf, hens⟩ := of_mem_evaluate h
  rw [hf]
  change packages.toList.all (fun e => e.2.2) = true ↔ _
  simp only [List.all_eq_true, Prod.forall, TreeMap.mem_toList_iff_getElem?_eq_some, hens]
  rfl

/-! ### Newest versions -/

instance (scheme : Scheme) : TransCmp (compareVersions scheme) := by
  cases scheme with
  | rpm => exact transCmp_comap compareEvr fun s => rpmParts (asBytes s)
  | dpkg => exact transCmp_comap Dpkg.compare asBytes

/-- Candidates of one key are of one row: they agree on what is said of the range and of the host. -/
def Agreeing (cs : List Candidate) : Prop := ∀ c ∈ cs, ∀ d ∈ cs, newestKey c = newestKey d →
  c.scheme = d.scheme ∧ c.introduced = d.introduced ∧ c.fixed = d.fixed ∧ c.runningKernel = d.runningKernel

/-- No candidate of the row has a higher installed version. -/
def Highest (cs : List Candidate) (c : Candidate) : Prop :=
  c ∈ cs ∧ c.fixed.isSome = true ∧ ∀ d ∈ cs, newestKey d = newestKey c →
    (compareVersions c.scheme d.installed c.installed).isLE = true

theorem foldl_keepNewest_isLE {scheme : Scheme} {ds : List Candidate} {o : Option Candidate}
    (hsch : ∀ d ∈ ds, d.scheme = scheme) (h : ds.foldl (fun o x => keepNewest x o) o = some c) :
    (∀ d ∈ ds, (compareVersions scheme d.installed c.installed).isLE = true) ∧
      ∀ e, o = some e → (compareVersions scheme e.installed c.installed).isLE = true := by
  induction ds generalizing o with
  | nil =>
    refine ⟨nofun, fun e he => ?_⟩
    obtain rfl := mem_unique he h
    exact ReflCmp.isLE_rfl
  | cons d ds ih =>
    rw [foldl_cons] at h
    obtain ⟨hrs, hsl⟩ := ih (fun e he => hsch e (mem_cons_of_mem d he)) h
    have hd : d.scheme = scheme := hsch d mem_cons_self
    rw [keepNewest, hd] at hsl
    split_ifs at hsl with hgt
    · have hdc := hsl d rfl
      refine ⟨forall_mem_cons.mpr ⟨hdc, hrs⟩, fun e he => ?_⟩
      rw [he, getD_some] at hgt
      exact TransCmp.isLE_trans (Ordering.isLE_of_eq_lt (OrientedCmp.lt_of_gt (by simpa using hgt))) hdc
    · have hkp := hsl _ rfl
      refine ⟨forall_mem_cons.mpr ⟨?_, hrs⟩, fun e he => ?_⟩
      · exact TransCmp.isLE_trans (by simpa [Ordering.isLE_iff_ne_gt] using hgt) hkp
      · rwa [he, getD_some] at hkp

/-- **The first loop keeps the highest version** of a row. -/
theorem highest_of_mem_newest (hag : Agreeing cs) {k : NewestKey} (h : (k, c) ∈ (newest cs).toList) : Highest cs c := by
  obtain ⟨hc, hfix, rfl⟩ := mem_newest h
  refine ⟨hc, hfix, fun d hd hkey => ?_⟩
  refine (foldl_keepNewest_isLE (fun e he => ?_) (mem_group.mp h)).1 d ?_
  · obtain ⟨he, hsa⟩ := mem_filter.mp he
    exact (hag e (mem_of_mem_filter he) c hc (of_decide_eq_true hsa)).1
  · refine mem_filter.mpr ⟨mem_filter.mpr ⟨hd, ?_⟩, decide_eq_true hkey⟩
    rw [(hag d hd c hc hkey).2.2.1]
    exact hfix

theorem exists_mem_newest (hc : c ∈ cs) (hfix : c.fixed.isSome = true) : ∃ d, (newestKey c, d) ∈ (newest cs).toList :=
    by
  have hmem : c ∈ (cs.filter fun c => c.fixed.isSome).filter fun d => newestKey d = newestKey c :=
    mem_filter.mpr ⟨mem_filter.mpr ⟨hc, hfix⟩, decide_eq_true rfl⟩
  have hsm : ∀ (ds : List Candidate) (o : Option Candidate), ds ≠ [] ∨ o.isSome = true →
      (ds.foldl (fun o x => keepNewest x o) o).isSome = true := by
    intro ds
    induction ds with
    | nil => exact fun o h => h.resolve_left fun h => h rfl
    | cons d ds ih =>
      intro o _
      refine ih _ (.inr ?_)
      change (keepNewest d o).isSome = true
      rw [keepNewest]
      split_ifs <;> rfl
  obtain ⟨d, hd⟩ := isSome_iff_exists.mp (hsm _ none (.inl (ne_nil_of_mem hmem)))
  exact ⟨d, mem_group.mpr hd⟩

/-- **Versions that compare equal are in the same ranges.** -/
theorem entryOf_congr (hag : Agreeing cs) (hc : Highest cs c) (hd : Highest cs d) (hkey : newestKey c = newestKey d) :
    inRange c c.installed = inRange d d.installed ∧ (RunsOlder c ↔ RunsOlder d) := by
  obtain ⟨hsch, hintr, hfix, hrng⟩ := hag c hc.1 d hd.1 hkey
  have hnm : c.name = d.name := congrArg (fun k : NewestKey => k.2.2.1) hkey
  have heq : compareVersions c.scheme c.installed d.installed = .eq := by
    refine OrientedCmp.isLE_antisymm ?_ ?_
    · rw [hsch]
      exact hd.2.2 c hc.1 hkey
    · exact hc.2.2 d hd.1 hkey.symm
  constructor
  · obtain ⟨fixed, hf⟩ := isSome_iff_exists.mp hc.2.1
    have hcon : ∀ v, compareVersions d.scheme c.installed v = compareVersions d.scheme d.installed v := fun v =>
      TransCmp.congr_left (hsch ▸ heq)
    simp only [inRange, inSpan, hsch, hintr, ← hfix, hf, hcon]
  · simp only [RunsOlder, runningVersion, hsch, hfix, hrng, hnm]

instance (cs : List Candidate) : Decidable (Agreeing cs) := inferInstanceAs (Decidable (∀ c ∈ cs, ∀ d ∈ cs, _ → _))

/-- A row with its highest installed version, and what makes it vulnerable. -/
def Vulnerable (cs : List Candidate) (c : Candidate) : Prop :=
  Highest cs c ∧ (inRange c c.installed = true ∨ RunsOlder c)

/-- **The rows that the first loop keeps** stand for the highest versions of the candidates, for whatever does not tell
candidates of one row with equal versions apart. -/
theorem exists_row_iff (hag : Agreeing cs) {P : Candidate → Prop}
    (hP : ∀ c d, Highest cs c → Highest cs d → newestKey c = newestKey d → P c → P d) :
    (∃ x ∈ (newest cs).toList, P x.2) ↔ ∃ c, Highest cs c ∧ P c := by
  constructor
  · rintro ⟨⟨k, c⟩, hx, hc⟩
    exact ⟨c, highest_of_mem_newest hag hx, hc⟩
  rintro ⟨c, hhg, hc⟩
  obtain ⟨d, hd⟩ := exists_mem_newest hhg.1 hhg.2.1
  obtain ⟨-, -, hkey⟩ := mem_newest hd
  exact ⟨_, hd, hP c d hhg (highest_of_mem_newest hag hd) hkey.symm hc⟩

theorem exists_keptRow_iff (hag : Agreeing cs) {P : NewestKey → Prop} :
    (∃ x ∈ (newest cs).toList, P x.1 ∧ (entryOf x.2).isSome = true) ↔ ∃ c, Vulnerable cs c ∧ P (newestKey c) := by
  have hrow := exists_row_iff hag (P := fun c => P (newestKey c) ∧ (entryOf c).isSome = true)
    fun c d hc hd hkey h => by
      obtain ⟨hran, holder⟩ := entryOf_congr hag hc hd hkey
      rwa [← hkey, entryOf_isSome_iff, ← hran, ← holder, ← entryOf_isSome_iff]
  simp only [Vulnerable, and_assoc, ← entryOf_isSome_iff]
  refine .trans (exists_congr fun x => and_congr_right fun hx => ?_)
    (hrow.trans (exists_congr fun c => and_congr_right fun _ => and_comm))
  rw [(mem_newest hx).2.2]

/-- The host and the advisory that a candidate is about. -/
abbrev pairOf (c : Candidate) : String × String := (c.agentId, c.advisoryId)

theorem exists_keptRow_pair_iff (hag : Agreeing cs) {P : NewestKey → Prop} :
    (∃ x ∈ keptRows cs pair, P x.1 ∧ (entryOf x.2).isSome = true) ↔
      ∃ c, Vulnerable cs c ∧ pairOf c = pair ∧ P (newestKey c) := by
  refine .trans ?_ (exists_keptRow_iff hag (P := fun k => (k.1, k.2.1) = pair ∧ P k))
  simp only [keptRows, mem_filter, decide_eq_true_eq, and_assoc]

/-- **A pair is reported** if one of its rows is vulnerable. -/
theorem reported_iff (hag : Agreeing cs) :
    (∃ f ∈ evaluate cs, f.key = pair) ↔ ∃ c, Vulnerable cs c ∧ pairOf c = pair := by
  rw [mem_evaluate_iff]
  simpa using exists_keptRow_pair_iff hag (P := fun _ => True)

/-! ### One entry per package -/

theorem firstEntry_isSome_iff :
    (firstEntry rows name).isSome = true ↔ ∃ x ∈ rows, x.1.2.2.1 = name ∧ (entryOf x.2).isSome = true := by
  rw [firstEntry, findSome?_isSome_iff]
  refine exists_congr fun x => and_congr_right fun _ => ?_
  split_ifs with hnm <;> simp [hnm]

theorem name_firstEntry (h : firstEntry (keptRows cs pair) name = some e) : e.1.name = name := by
  obtain ⟨x, hx, he⟩ := exists_of_findSome?_eq_some h
  split_ifs at he with hnm
  obtain ⟨-, -, hkey, -⟩ := mem_keptRows hx
  rw [(entryOf_eq_some he).1, ← hnm, ← hkey]
  rfl

theorem packages_names (h : f ∈ evaluate cs) : (f.packages.map PackageEntry.name).Nodup ∧
    ∀ name, name ∈ f.packages.map PackageEntry.name ↔
      ∃ x ∈ keptRows cs f.key, x.1.2.2.1 = name ∧ (entryOf x.2).isSome = true := by
  obtain ⟨packages, hf, hens⟩ := of_mem_evaluate h
  have hnam : f.packages.map PackageEntry.name = packages.keys := by
    rw [hf, ← TreeMap.map_fst_toList_eq_keys]
    change (packages.toList.map fun e => e.2.1).map PackageEntry.name = _
    rw [List.map_map]
    refine map_congr_left fun e he => name_firstEntry ((hens e.1).symm.trans ?_)
    exact TreeMap.mem_toList_iff_getElem?_eq_some.mp he
  rw [hnam]
  refine ⟨TreeMap.nodup_keys, fun name => ?_⟩
  rw [← firstEntry_isSome_iff, ← hens, TreeMap.mem_keys, TreeMap.mem_iff_isSome_getElem?]

/-! ### A missing update behind a reboot -/

/-- A kernel advisory with two ranges: the first waits for a boot, the second for an update. -/
def twoRanges : List Candidate :=
  [⟨"a", "ALSA-1", "kernel-core", "x86_64", .rpm, none, some "0:5.14-1", none, "0:6.12-1", 1, some "5.13-1.x86_64"⟩,
   ⟨"a", "ALSA-1", "kernel-core", "x86_64", .rpm, some "0:6.0-1", some "0:6.12-2", none, "0:6.12-1", 1,
     some "5.13-1.x86_64"⟩]

/-- What is decided of each row, without the texts of the entry. -/
def flags (cs : List Candidate) : List (NewestKey × Option Bool) :=
  (newest cs).toList.map fun x => (x.1, (entryOf x.2).map Prod.snd)

theorem flags_perm (hag : Agreeing cs) (hpm : cs'.Perm cs) : flags cs' = flags cs := by
  have hag' : Agreeing cs' := fun c hc d hd => hag c (hpm.mem_iff.mp hc) d (hpm.mem_iff.mp hd)
  have hhg : ∀ {c}, Highest cs' c → Highest cs c := fun h =>
    ⟨hpm.mem_iff.mp h.1, h.2.1, fun d hd => h.2.2 d (hpm.mem_iff.mpr hd)⟩
  have hfl : ∀ {c}, (entryOf c).map Prod.snd =
      if inRange c c.installed || (olderRunning c).isSome then some (!inRange c c.installed) else none := fun {c} => by
    rw [entryOf]
    cases inRange c c.installed <;> cases olderRunning c <;> rfl
  have hget : ∀ k : NewestKey, ((newest cs')[k]?).map (fun c => (entryOf c).map Prod.snd) =
      ((newest cs)[k]?).map fun c => (entryOf c).map Prod.snd := by
    intro k
    cases hold : (newest cs)[k]? with
    | none =>
      cases hnew : (newest cs')[k]? with
      | none => rfl
      | some c =>
        obtain ⟨hc, hfix, rfl⟩ := mem_newest (TreeMap.mem_toList_iff_getElem?_eq_some.mpr hnew)
        obtain ⟨d, hd⟩ := exists_mem_newest (hpm.mem_iff.mp hc) hfix
        rw [TreeMap.mem_toList_iff_getElem?_eq_some.mp hd] at hold
        cases hold
    | some c =>
      have hc := TreeMap.mem_toList_iff_getElem?_eq_some.mpr hold
      obtain ⟨hmem, hfix, rfl⟩ := mem_newest hc
      obtain ⟨d, hd⟩ := exists_mem_newest (hpm.mem_iff.mpr hmem) hfix
      obtain ⟨-, -, hkey⟩ := mem_newest hd
      obtain ⟨hran, holder⟩ := entryOf_congr hag (hhg (highest_of_mem_newest hag' hd))
        (highest_of_mem_newest hag hc) hkey
      have hrng : (olderRunning d).isSome = (olderRunning c).isSome := by
        rw [Bool.eq_iff_iff, olderRunning_isSome_iff, olderRunning_isSome_iff, holder]
      rw [TreeMap.mem_toList_iff_getElem?_eq_some.mp hd, map_some, map_some, hfl, hfl, hran, hrng]
  have hmap : ∀ cs, flags cs = ((newest cs).map fun _ c => (entryOf c).map Prod.snd).toList := fun cs => by
    rw [flags, TreeMap.toList_map]
  rw [hmap, hmap]
  refine TreeMap.Equiv.toList_eq (TreeMap.Equiv.of_forall_constGet?_eq fun k => ?_)
  rw [TreeMap.getElem?_map, TreeMap.getElem?_map]
  exact hget k

/-- **What is reported of a pair**, by what is decided of its rows. -/
theorem reported_of_flags (hflg : flags cs' = flags cs) (h : f ∈ evaluate cs) :
    ∃ f' ∈ evaluate cs', f'.key = f.key ∧ f'.rebootNeeded = f.rebootNeeded := by
  have hrw : ∀ pair, (keptRows cs' pair).map (fun x => (x.1, (entryOf x.2).map Prod.snd)) =
      (keptRows cs pair).map fun x => (x.1, (entryOf x.2).map Prod.snd) := by
    have hfil : ∀ cs pair, (keptRows cs pair).map (fun x => (x.1, (entryOf x.2).map Prod.snd)) =
        (flags cs).filter fun y => (y.1.1, y.1.2.1) = pair := fun cs pair => by
      rw [flags, List.filter_map]
      rfl
    intro pair
    rw [hfil, hfil, hflg]
  have hsm : ∀ rows : List (NewestKey × Candidate), (∃ x ∈ rows, (entryOf x.2).isSome = true) ↔
      ∃ y ∈ rows.map fun x => (x.1, (entryOf x.2).map Prod.snd), y.2.isSome = true := by simp
  have hfst : ∀ rows name, (firstEntry rows name).map Prod.snd =
      (rows.map fun x => (x.1, (entryOf x.2).map Prod.snd)).findSome? fun y =>
          if y.1.2.2.1 = name then y.2 else none := by
    intro rows name
    induction rows with
    | nil => rfl
    | cons x rows ih =>
      rw [firstEntry_cons, map_cons, findSome?_cons, ← ih]
      by_cases hnm : x.1.2.2.1 = name
      · cases hent : entryOf x.2 <;> simp [hnm]
      · simp [hnm]
  have hrpd := mem_evaluate_iff.mp ⟨f, h, rfl⟩
  rw [hsm, ← hrw, ← hsm] at hrpd
  obtain ⟨f', hf', hkey⟩ := mem_evaluate_iff.mpr hrpd
  refine ⟨f', hf', hkey, ?_⟩
  have hall : ∀ rows : List (NewestKey × Candidate), (∀ name e, firstEntry rows name = some e → e.2 = true) ↔
      ∀ name flag, (firstEntry rows name).map Prod.snd = some flag → flag = true := by simp
  rw [Bool.eq_iff_iff, rebootNeeded_iff hf', rebootNeeded_iff h, hkey, hall, hall]
  simp only [hfst, hrw]

/-- **What `evaluate` reports**, of candidates that agree on their rows: the pairs with a vulnerable row, each once,
with one entry for each package of such a row, in whatever order they come. -/
theorem evaluate_exact (hag : Agreeing cs) :
    (∀ pair, pair ∈ (evaluate cs).map Found.key ↔ ∃ c, Vulnerable cs c ∧ (c.agentId, c.advisoryId) = pair) ∧
    ((evaluate cs).map Found.key).Nodup ∧
    (∀ f ∈ evaluate cs, (f.packages.map PackageEntry.name).Nodup ∧ ∀ name, name ∈ f.packages.map PackageEntry.name ↔
      ∃ c, Vulnerable cs c ∧ (c.agentId, c.advisoryId) = f.key ∧ c.name = name) ∧
    ∀ cs', cs'.Perm cs →
      (evaluate cs').map (fun f => (f.key, f.rebootNeeded)) = (evaluate cs).map fun f => (f.key, f.rebootNeeded) := by
  refine ⟨fun pair => ?_, evaluate_nodup cs, fun f hf => ⟨(packages_names hf).1, fun name => ?_⟩, fun cs' hpm => ?_⟩
  · rw [List.mem_map]
    exact reported_iff hag
  · rw [(packages_names hf).2 name]
    exact exists_keptRow_pair_iff hag (P := fun k => k.2.2.1 = name)
  have hflg := flags_perm hag hpm
  have hsub : ∀ {ds ds' : List Candidate}, flags ds' = flags ds →
      (evaluate ds).map (fun f => (f.key, f.rebootNeeded)) ⊆ (evaluate ds').map fun f => (f.key, f.rebootNeeded) := by
    intro ds ds' hflg y hy
    obtain ⟨f, hf, rfl⟩ := List.mem_map.mp hy
    obtain ⟨f', hf', hkey, hreb⟩ := reported_of_flags hflg hf
    exact List.mem_map.mpr ⟨f', hf', by rw [hkey, hreb]⟩
  have hsrt : ∀ ds, ((evaluate ds).map fun f => (f.key, f.rebootNeeded)).Pairwise fun x y =>
      cmpProd compare compare x.1 y.1 = .lt := fun ds => pairwise_map.mpr (evaluate_sorted ds)
  have hnd : ∀ ds, ((evaluate ds).map fun f => (f.key, f.rebootNeeded)).Nodup := fun ds =>
    List.Nodup.of_map Prod.fst (by rw [List.map_map]; exact evaluate_nodup ds)
  -- both lists are in the strict order of the pairs
  refine List.Perm.eq_of_pairwise (fun a b _ _ hab hba => ?_) (hsrt cs') (hsrt cs)
    ((perm_ext_iff_of_nodup (hnd cs') (hnd cs)).mpr fun y => ⟨fun h => hsub hflg.symm h, fun h => hsub hflg h⟩)
  rw [OrientedCmp.gt_of_lt hab] at hba
  cases hba

theorem evaluate_exact_twoRanges : Agreeing twoRanges ∧
    (evaluate twoRanges.reverse).map (fun f => (f.key, f.rebootNeeded)) = [(("a", "ALSA-1"), true)] := by
  have hag : Agreeing twoRanges := by
    rw [Agreeing]
    decide
  exact ⟨hag, ((evaluate_exact hag).2.2.2 _ (reverse_perm _)).trans (by decide)⟩

/-- A range without a start, and one whose start is the empty text: both have one key. -/
def emptyStart : List Candidate :=
  [⟨"a", "ALSA-1", "zlib", "x86_64", .rpm, none, some "0:1-1", none, "0:~1-1", 1, none⟩,
   ⟨"a", "ALSA-1", "zlib", "x86_64", .rpm, some "", some "0:1-1", none, "0:~01-1", 2, none⟩]

/-- Of two equal versions the first is kept, so that their order decides. -/
theorem emptyStart_order_matters :
    (∀ c ∈ emptyStart, ∀ d ∈ emptyStart, (c.agentId, c.advisoryId, c.name, c.fixedArch, c.introduced) =
        (d.agentId, d.advisoryId, d.name, d.fixedArch, d.introduced) →
      c.scheme = d.scheme ∧ c.fixed = d.fixed ∧ c.runningKernel = d.runningKernel) ∧
    (evaluate emptyStart).map Found.key = [("a", "ALSA-1")] ∧ evaluate emptyStart.reverse = [] := by
  decide

end OpenVibes.Vulns
