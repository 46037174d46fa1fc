import OpenVibes.Vulns.FeedBundles

/-!
# What the record of applied files says of the stored data

An import stores the content of a file first, and then records the file, where an older file is refused. So an older
file can be stored after a newer one was recorded: the record names the newer file, and the older content is stored.
-/

namespace OpenVibes.Vulns

open Rust Store Theory List Option

/-! ### Statements -/

abbrev FileKey := String × String × String

/-- **The record describes the stored data**: the content stored last is that of the recorded file, unless its hash was
forgotten. -/
def Describes (s : Imports) : Prop :=
  ∀ k c row, s.stored k = some c → s.db.appliedFiles.get? k = some row → row.sha256 = noHash ∨ row.sha256 = c

def Phase.hasEnded : Phase → Bool
  | .ended _ => true
  | _ => false

/-- The files that an import has read the record of and not recorded yet. -/
def Phase.pending : Phase → List FileEntry
  | .preparing r _ => r.feed.ordered
  | .staling _ _ rest _ => rest
  | .importing _ _ entry _ rest _ => entry :: rest
  | .recording _ _ entry _ rest _ => entry :: rest
  | _ => []

/-- The file whose importer works, and whether it has stored content. -/
def Phase.importing? : Phase → Option (FileEntry × Bool)
  | .importing _ _ entry stored _ _ => some (entry, stored)
  | _ => none

/-- The file that is to be recorded, and whether its importer has stored content. -/
def Phase.recording? : Phase → Option (FileEntry × Bool)
  | .recording _ _ entry stored _ _ => some (entry, stored)
  | _ => none

/-- No other import is between its read of the record and its own record of the file. -/
def Imports.Alone (s : Imports) (i : ℕ) (k : FileKey) : Prop :=
  ∀ j < s.running.length, j = i ∨ ∀ q ∈ s.running[j]?, ∀ e ∈ q.pending, e.row.key ≠ k

instance (s : Imports) (i : ℕ) (k : FileKey) : Decidable (s.Alone i k) :=
  inferInstanceAs (Decidable (∀ j < s.running.length, j = i ∨ ∀ q ∈ s.running[j]?, ∀ e ∈ q.pending, e.row.key ≠ k))

/-- **Imports with a file in common do not overlap**, and an import that has stored content of a file also
records it. -/
def Exclusive (s : Imports) : ImportAct → Prop
  | .store i _ => ∀ p ∈ s.running[i]?, ∀ x ∈ p.importing?, s.Alone i x.1.row.key
  | .step i => ∀ p ∈ s.running[i]?, ∀ x ∈ p.recording?, s.Alone i x.1.row.key
  | .fail i => ∀ p ∈ s.running[i]?, ∀ x ∈ p.recording?, x.2 = false
  | .finish i (.error _) => ∀ p ∈ s.running[i]?, ∀ x ∈ p.importing?, x.2 = false
  | _ => True

instance (s : Imports) : ∀ a : ImportAct, Decidable (Exclusive s a)
  | .store i _ => inferInstanceAs (Decidable (∀ p ∈ s.running[i]?, ∀ x ∈ p.importing?, s.Alone i x.1.row.key))
  | .step i => inferInstanceAs (Decidable (∀ p ∈ s.running[i]?, ∀ x ∈ p.recording?, s.Alone i x.1.row.key))
  | .fail i => inferInstanceAs (Decidable (∀ p ∈ s.running[i]?, ∀ x ∈ p.recording?, x.2 = false))
  | .finish i (.error _) => inferInstanceAs (Decidable (∀ p ∈ s.running[i]?, ∀ x ∈ p.importing?, x.2 = false))
  | .start _ | .work _ _ | .prepared _ _ | .finish _ (.ok _) | .trust _ | .others _ => isTrue trivial

/-! ### What an import relies on -/

def Phase.known? : Phase → Option Known
  | .preparing _ known => some known
  | .staling _ known _ _ => some known
  | .importing _ known _ _ _ _ => some known
  | .recording _ known _ _ _ _ => some known
  | _ => none

/-- The file an import is at: it is imported or recorded. -/
def Phase.current? (p : Phase) : Option (FileEntry × Bool) := p.importing?.or p.recording?

/-- The files of an import's feed that it has not finished. -/
def Phase.files : Phase → List FileEntry
  | .verified r => r.feed.ordered
  | .accepted r => r.feed.ordered
  | p => p.pending

def timeOf (known : Known) (k : FileKey) : Option Time := (known.get? k).map AppliedFile.fetchedAt

theorem timeOf_forgetNvd (known : Known) (k : FileKey) : timeOf (forgetNvd known) k = timeOf known k := by
  rw [timeOf, forgetNvd, Table.get?_updateWhere, timeOf, Option.map_map]
  congr 1
  funext f
  simp only [Function.comp]
  split_ifs <;> rfl

theorem Kind.eq_repomd {kind : Kind} (h : kind.asStr = Kind.repomd.asStr) : kind = .repomd := by
  revert h
  cases kind <;> decide

structure PhaseOk (record : Known) (stored : FileKey → Option Sha256) (p : Phase) : Prop where
  nodup : (p.files.map fun e => e.row.key).Nodup
  known : ∀ known ∈ p.known?, ∀ e ∈ p.pending, timeOf known e.row.key = timeOf record e.row.key
  /-- The file it is at was not fetched before the recorded one. -/
  checked : ∀ known ∈ p.known?, ∀ x ∈ p.current?, ∀ t ∈ timeOf known x.1.row.key, t / 1000000 ≤ x.1.fetchedAt
  content : ∀ x ∈ p.current?, x.2 = true → stored x.1.row.key = some x.1.sha256
  /-- It records a file whose content it stored, or an index. -/
  recorded : ∀ x ∈ p.recording?, x.2 = true ∨ x.1.kind = .repomd

theorem Phase.current_mem_pending {p : Phase} {x : FileEntry × Bool} (h : p.current? = some x) : x.1 ∈ p.pending := by
  cases p with
  | importing | recording =>
    cases h
    exact mem_cons_self
  | called | trusting | verified | accepted | preparing | staling | ended => cases h

variable {blobs : Blobs} {out : Outcome}

theorem of_decided_unchanged {readers : Readers} {known : Known} {entry : FileEntry}
    (h : decided readers blobs known entry = some .unchanged) :
    entry.sha256 ≠ noHash ∧ ∃ row, known.get? entry.row.key = some row ∧ row.sha256 = entry.sha256 := by
  rw [decided] at h
  split at h
  · cases h
  · cases h
  rename_i content _
  dsimp only at h
  split at h
  · cases h
  rename_i hchk
  split_ifs at h with hsm
  rw [Option.any_eq_true] at hsm
  obtain ⟨row, hrow, hsha⟩ := hsm
  refine ⟨?_, row, hrow, of_decide_eq_true hsha⟩
  rw [sha256_of_checkFile hchk]
  exact readers.sha256_ne content

namespace PhaseOk

variable {readers : Readers} {record record' known : Known} {stored stored' : FileKey → Option Sha256} {p : Phase}
  {r : FeedRun} {entry : FileEntry} {rest : List FileEntry} {reports : List FileReport}

theorem frame (h : PhaseOk record stored p)
    (hfrm : ∀ e ∈ p.pending, timeOf record' e.row.key = timeOf record e.row.key ∧
      stored' e.row.key = stored e.row.key) : PhaseOk record' stored' p where
  nodup := h.nodup
  known known hk e he := (h.known known hk e he).trans (hfrm e he).1.symm
  checked := h.checked
  content x hx hfl := by
    rw [(hfrm x.1 (Phase.current_mem_pending hx)).2]
    exact h.content x hx hfl
  recorded := h.recorded

theorem quiet (hnd : (p.files.map fun e => e.row.key).Nodup) (hkn : p.known? = none)
    (hcur : p.current? = none) :
    PhaseOk record stored p where
  nodup := hnd
  known _ hk := by rw [hkn] at hk; cases hk
  checked _ hk := by rw [hkn] at hk; cases hk
  content _ hx := by rw [hcur] at hx; cases hx
  recorded _ hx := by
    rw [(or_eq_none_iff.mp hcur).2] at hx
    cases hx

theorem checked_of_decided (h : decided readers blobs known entry = none) :
    ∀ t ∈ timeOf known entry.row.key, t / 1000000 ≤ entry.fetchedAt := by
  intro t ht
  obtain ⟨row, hrow, rfl⟩ := map_eq_some_iff.mp ht
  rw [decided, hrow] at h
  split at h
  · cases h
  · cases h
  dsimp only at h
  split at h
  · cases h
  rename_i hchk
  rw [checkFile] at hchk
  split_ifs at hchk with _ _ _ hnwr
  simpa using hnwr

section

variable (hnd : (rest.map fun e => e.row.key).Nodup)
  (hkn : ∀ e ∈ rest, timeOf known e.row.key = timeOf record e.row.key)

include hnd hkn

theorem nextFile : PhaseOk record stored (Vulns.nextFile readers r known rest reports) := by
  rcases nextFile_cases readers r known rest reports with ⟨_, heq⟩ | ⟨entry, rest', _, heq, hsuf, hdec⟩
  · rw [heq]
    exact quiet nodup_nil rfl rfl
  rw [heq]
  refine ⟨hnd.sublist (hsuf.sublist.map _), fun _ hk e he => ?_, fun _ hk x hx => ?_, fun x hx hfl => ?_,
    fun x hx => ?_⟩
  · cases hk
    exact hkn e (hsuf.subset he)
  · cases hk
    cases hx
    exact checked_of_decided hdec
  · cases hx
    cases hfl
  · cases hx

theorem staling : PhaseOk record stored (.staling r known rest reports) := by
  refine ⟨hnd, fun _ hk e he => ?_, fun _ _ x hx => ?_, fun x hx => ?_, fun x hx => ?_⟩
  · cases hk
    exact hkn e he
  all_goals cases hx

theorem afterFile : PhaseOk record stored (Vulns.afterFile readers r known entry out rest reports) := by
  rw [Vulns.afterFile]
  split_ifs
  · exact staling hnd hkn
  · exact nextFile hnd hkn

end

end PhaseOk

/-! ### What is recorded and stored -/

/-- An import has stored content for the key and is to record it. -/
def Imports.Open (s : Imports) (k : FileKey) : Prop :=
  ∃ (i : ℕ) (p : Phase) (x : FileEntry × Bool),
    s.running[i]? = some p ∧ p.current? = some x ∧ x.2 = true ∧ x.1.row.key = k

/-- What every step of imports that do not overlap preserves. -/
structure Orderly (s : Imports) : Prop where
  seconds : ∀ k, ∀ t ∈ timeOf s.db.appliedFiles k, (1000000 : ℤ) ∣ t
  index : ∀ k c, s.stored k = some c → k.2.1 ≠ Kind.repomd.asStr
  running : ∀ (i : ℕ) p, s.running[i]? = some p → PhaseOk s.db.appliedFiles s.stored p
  /-- The content stored last is the recorded one, or is about to be recorded. -/
  describes : ∀ k c row, s.stored k = some c → s.db.appliedFiles.get? k = some row →
    row.sha256 = noHash ∨ row.sha256 = c ∨ s.Open k

/-- What a step leaves as it was for a file. -/
structure Untouched (s s' : Imports) (k : FileKey) : Prop where
  time : timeOf s'.db.appliedFiles k = timeOf s.db.appliedFiles k
  stored : s'.stored k = s.stored k
  row : ∀ row, s'.db.appliedFiles.get? k = some row → row.sha256 = noHash ∨ s.db.appliedFiles.get? k = some row

theorem Untouched.of_eq {s s' : Imports} {k : FileKey} (hfls : s'.db.appliedFiles = s.db.appliedFiles)
    (hsto : s'.stored k = s.stored k) : Untouched s s' k :=
  ⟨by rw [hfls], hsto, fun row hrow => .inr (by rw [← hfls]; exact hrow)⟩

namespace Orderly

variable {s s' : Imports} {i : ℕ} {p p' : Phase}

/-- **A step of one import** touches files that no other has before it. -/
theorem change (h : Orderly s) (touched : Set FileKey) (hp : s.running[i]? = some p)
    (hrng : s'.running = s.running.set i p') (hok : PhaseOk s'.db.appliedFiles s'.stored p')
    (hkp : ∀ k ∉ touched, Untouched s s' k)
    (htch : ∀ k ∈ touched, s.Alone i k ∧ (∀ t ∈ timeOf s'.db.appliedFiles k, (1000000 : ℤ) ∣ t) ∧
      ∀ c, s'.stored k = some c → k.2.1 ≠ Kind.repomd.asStr ∧
        ∀ row, s'.db.appliedFiles.get? k = some row → row.sha256 = noHash ∨ row.sha256 = c ∨ s'.Open k)
    (hop : ∀ x ∈ p.current?, x.2 = true → x.1.row.key ∉ touched → p'.current? = some x) : Orderly s' := by
  have hlt : i < s.running.length := (List.getElem?_eq_some_iff.mp hp).1
  have hky := fun k => (em (k ∈ touched)).imp (htch k) fun hk => And.intro hk (hkp k hk)
  refine ⟨fun k => ?_, fun k c hc => ?_, fun j q hq => ?_, fun k c row hc hrow => ?_⟩
  · rcases hky k with ⟨-, hsec, -⟩ | ⟨-, hkp⟩
    · exact hsec
    · rw [hkp.time]
      exact h.seconds k
  · rcases hky k with ⟨-, -, hnew⟩ | ⟨-, hkp⟩
    · exact (hnew c hc).1
    · rw [hkp.stored] at hc
      exact h.index k c hc
  · rw [hrng, getElem?_set] at hq
    split_ifs at hq with hij
    · cases hq
      exact hok
    refine (h.running j q hq).frame fun e he => ?_
    rcases hky e.row.key with ⟨halo, -⟩ | ⟨-, hkp⟩
    · rcases halo j (List.getElem?_eq_some_iff.mp hq).1 with rfl | hnot
      · exact absurd rfl hij
      · exact absurd rfl (hnot q hq e he)
    · exact ⟨hkp.time, hkp.stored⟩
  · rcases hky k with ⟨-, -, hnew⟩ | ⟨hk, hkp⟩
    · exact (hnew c hc).2 row hrow
    rcases hkp.row row hrow with hfor | hold
    · exact .inl hfor
    rw [hkp.stored] at hc
    refine (h.describes k c row hc hold).imp_right fun hor => hor.imp_right fun ⟨j, q, x, hq, hx, hfl, hkey⟩ => ?_
    subst hkey
    by_cases hij : i = j
    · subst hij
      obtain rfl := mem_unique hp hq
      exact ⟨i, p', x, by rw [hrng, getElem?_set_self hlt], hop x hx hfl hk, hfl, rfl⟩
    · exact ⟨j, q, x, by rw [hrng, getElem?_set_ne hij]; exact hq, hx, hfl, rfl⟩

theorem become (h : Orderly s) (hp : s.running[i]? = some p) (hop : ∀ x ∈ p.current?, x.2 = true → p'.current? = some x)
    (hok : PhaseOk s.db.appliedFiles s.stored p') : Orderly (s.become i p') :=
  h.change ∅ hp rfl hok (fun _ _ => .of_eq rfl rfl) (fun _ hk => hk.elim) fun x hx hfl _ => hop x hx hfl

theorem same (h : Orderly s) (hfls : s'.db.appliedFiles = s.db.appliedFiles) (hsto : s'.stored = s.stored)
    (hrng : s'.running = s.running) : Orderly s' := by
  refine ⟨?_, ?_, ?_, fun k c row => ?_⟩
  · rw [hfls]
    exact h.seconds
  · rw [hsto]
    exact h.index
  · rw [hrng, hfls, hsto]
    exact h.running
  · rw [hfls, hsto, Imports.Open, hrng]
    exact h.describes k c row

theorem stale (h : Orderly s) (hp : s.running[i]? = some p) (hcur : p.current? = none)
    (hok : PhaseOk s.db.appliedFiles s.stored p') :
    Orderly { s.become i p' with db := markStale s.db "nvd" } := by
  have htm := timeOf_forgetNvd s.db.appliedFiles
  refine h.change ∅ hp rfl (hok.frame fun e _ => ⟨htm e.row.key, rfl⟩) (fun k _ => ⟨htm k, rfl, fun row hrow => ?_⟩)
    (fun _ hk => hk.elim) fun x hx => by rw [hcur] at hx; cases hx
  rw [get?_markStale] at hrow
  obtain ⟨old, hold, rfl⟩ := map_eq_some_iff.mp hrow
  split_ifs with hkd
  · exact .inl rfl
  · exact .inr hold

variable {readers : Readers} {r : FeedRun} {known : Known} {entry : FileEntry} {flag : Bool} {rest : List FileEntry}
  {reports : List FileReport}

/-- **Content is stored**, by the only import that is before its record of the file. -/
theorem store (h : Orderly s) (hp : s.running[i]? = some (.importing r known entry flag rest reports))
    (hkd : entry.kind ≠ .repomd) (halo : s.Alone i entry.row.key)
    (hrng : s'.running = s.running.set i (.importing r known entry true rest reports))
    (hfls : s'.db.appliedFiles = s.db.appliedFiles)
    (hsto : s'.stored = fun k => if k = entry.row.key then some entry.sha256 else s.stored k) : Orderly s' := by
  have hlt : i < s.running.length := (List.getElem?_eq_some_iff.mp hp).1
  have hok := h.running i _ hp
  refine h.change {entry.row.key} hp hrng ?_ (fun k hk => .of_eq hfls ?_) (fun k hk => ?_) fun x hx _ hk => ?_
  · rw [hfls]
    refine ⟨hok.nodup, hok.known, fun known hk x hx => ?_, fun x hx _ => ?_, fun x hx => ?_⟩
    · cases hx
      exact hok.checked known hk (entry, flag) rfl
    · cases hx
      rw [hsto]
      exact if_pos rfl
    · cases hx
  · rw [hsto]
    exact if_neg hk
  · obtain rfl := Set.mem_singleton_iff.mp hk
    refine ⟨halo, by rw [hfls]; exact h.seconds _, fun c hc => ⟨?_, fun row hrow => .inr (.inr ?_)⟩⟩
    · exact fun hrep => hkd (Kind.eq_repomd hrep)
    · exact ⟨i, _, (entry, true), by rw [hrng, getElem?_set_self hlt], rfl, rfl, rfl⟩
  · cases hx
    exact absurd rfl hk

section

variable (h : Orderly s) (hp : s.running[i]? = some (.recording r known entry flag rest reports))

include h hp

theorem isNewest : Store.isNewest s.db entry.row = true := by
  have hok := h.running i _ hp
  rw [Store.isNewest]
  cases hrow : s.db.appliedFiles.get? entry.row.key with
  | none => rfl
  | some row =>
    have htm : timeOf s.db.appliedFiles entry.row.key = some row.fetchedAt := by rw [timeOf, hrow]; rfl
    have hkn := (hok.known known rfl entry mem_cons_self).trans htm
    obtain ⟨n, hn⟩ := h.seconds _ _ htm
    rw [hn] at hkn
    have hle : 1000000 * n / 1000000 ≤ entry.fetchedAt := hok.checked known rfl (entry, flag) rfl _ hkn
    have hnew : 1000000 * n ≤ entry.fetchedAt * 1000000 := by omega
    exact decide_eq_true (hn.trans_le hnew)

/-- **A file is recorded**, as the newest. -/
theorem record (halo : s.Alone i entry.row.key)
    (hrng : s'.running = s.running.set i (afterFile readers r known entry out rest reports))
    (hdb : s'.db = recordFile s.db entry.row) (hsto : s'.stored = s.stored) : Orderly s' := by
  have hok := h.running i _ hp
  have hget := fun k => get?_recordFile (h.isNewest hp) k
  obtain ⟨hnot, hnd⟩ := nodup_cons.mp hok.nodup
  have hkp : ∀ k, entry.row.key ≠ k → Untouched s s' k := by
    intro k hk
    obtain ⟨row, hrow, -⟩ := hget k
    rw [if_neg hk, ← hdb] at hrow
    exact ⟨by rw [timeOf, hrow, timeOf], by rw [hsto], fun row' hrow' => .inr (hrow ▸ hrow')⟩
  refine h.change {entry.row.key} hp hrng (.afterFile hnd fun e he => ?_)
    (fun k hk => hkp k fun heq => hk heq.symm) (fun k hk => ?_) fun x hx _ hk => ?_
  · have hne : entry.row.key ≠ e.row.key := fun heq => hnot (mem_map.mpr ⟨e, he, heq.symm⟩)
    rw [(hkp _ hne).time]
    exact hok.known known rfl e (mem_cons_of_mem _ he)
  · obtain rfl := Set.mem_singleton_iff.mp hk
    obtain ⟨row, hrow, hsha, hfet⟩ := hget entry.row.key
    rw [if_pos rfl, ← hdb] at hrow
    refine ⟨halo, fun t ht => ?_, fun c hc => ?_⟩
    · rw [timeOf, hrow] at ht
      cases ht
      rw [hfet]
      exact Dvd.intro_left _ rfl
    rw [hsto] at hc
    refine ⟨h.index _ c hc, fun row' hrow' => .inr (.inl ?_)⟩
    obtain rfl := mem_unique hrow hrow'
    rcases hok.recorded (entry, flag) rfl with hfl | hrep
    · exact hsha.trans (some.inj ((hok.content (entry, flag) rfl hfl).symm.trans hc))
    · exact absurd (congrArg Kind.asStr hrep) (h.index _ c hc)
  · cases hx
    exact absurd rfl hk

end

theorem goOn (h : Orderly s) (hp : s.running[i]? = some p) (hcur : p.current? = none)
    (hok : PhaseOk s.db.appliedFiles s.stored p') : Orderly (s.become i p') :=
  h.become hp (fun x hx => by rw [hcur] at hx; cases hx) hok

theorem ends (h : Orderly s) (hp : s.running[i]? = some p) (hcur : ∀ x ∈ p.current?, x.2 = false)
    (out : Except String (List FileReport)) : Orderly (s.become i (.ended out)) :=
  h.become hp (fun x hx hfl => absurd (hcur x hx) (by rw [hfl]; decide)) (.quiet nodup_nil rfl rfl)

variable {formats : Formats}

theorem afterQueries (h : Orderly s) {b : Bundle} {trusted asked : List TrustedKey} {states : List FeedState}
    (hp : s.running[i]? = some (.trusting b asked)) :
    Orderly (s.become i (Vulns.afterQueries formats readers b trusted states)) := by
  refine h.goOn hp rfl ?_
  rcases afterQueries_cases formats readers b trusted states with ⟨out, heq⟩ | ⟨r, again, heq, hver⟩
  · rw [heq]
    exact .quiet nodup_nil rfl rfl
  · rw [heq]
    exact .quiet (((ordered_perm r.feed).map _).nodup_iff.mpr (verify_nodup hver)) rfl rfl

theorem start (h : Orderly s) (b : Bundle) : Orderly { s with running := s.running ++ [.called b] } := by
  refine ⟨h.seconds, h.index, fun j q hq => ?_, fun k c row hc hrow => ?_⟩
  · rw [getElem?_append] at hq
    split_ifs at hq with hlt
    · exact h.running j q hq
    · rw [mem_singleton.mp (mem_of_getElem? hq)]
      exact .quiet nodup_nil rfl rfl
  · refine (h.describes k c row hc hrow).imp_right fun hor => hor.imp_right fun ⟨j, q, x, hq, hx⟩ => ⟨j, q, x, ?_, hx⟩
    rw [getElem?_append_left (List.getElem?_eq_some_iff.mp hq).1]
    exact hq

theorem leave (h : Orderly s) (hp : s.running[i]? = some (.importing r known entry false rest reports))
    (out : Outcome) : Orderly (s.become i (Vulns.afterFile readers r known entry out rest reports)) := by
  have hok := h.running i _ hp
  refine h.become hp (fun x hx hfl => ?_)
    (.afterFile hok.nodup.of_cons fun e he => hok.known known rfl e (mem_cons_of_mem _ he))
  cases hx
  cases hfl

theorem step (h : Orderly s) {a : ImportAct} (ha : Exclusive s a) (hs : importsStep formats readers s a = some s') :
    Orderly s' := by
  cases moves_of_importsStep hs with
  | start => exact h.start _
  | called hp => exact h.goOn hp rfl (.quiet nodup_nil rfl rfl)
  | queried hp => exact h.afterQueries hp
  | refused hp => exact h.ends hp (nofun) _
  | @accept i r hp hok =>
    have hacc : Orderly (s.become i (.accepted r)) := h.goOn hp rfl (.quiet (h.running i _ hp).nodup rfl rfl)
    exact hacc.same rfl rfl rfl
  | @prepares i r hp =>
    refine h.goOn hp rfl
      ⟨(h.running i _ hp).nodup, fun known hk e _ => ?_, fun _ _ x hx => ?_, fun x hx => ?_, fun x hx => ?_⟩
    · cases hk
      rfl
    all_goals cases hx
  | @begins i r hp => exact h.goOn hp rfl (.nextFile (h.running i _ hp).nodup fun _ _ => rfl)
  | @stale i r known rest reports hp =>
    have hok := h.running i _ hp
    refine h.stale hp rfl (.nextFile hok.nodup fun e he => ?_)
    exact (timeOf_forgetNvd known e.row.key).trans (hok.known known rfl e he)
  | @record i r known entry flag rest reports hp => exact h.record hp (ha _ hp (entry, flag) rfl) rfl rfl rfl
  | @fail i p message hp himporting =>
    refine h.ends hp (fun x hx => ?_) _
    cases p with
    | importing => exact (himporting _ _ _ _ _ _ rfl).elim
    | recording => exact ha _ hp x hx
    | called | trusting | verified | accepted | preparing | staling | ended => cases hx
  | work => exact h.same rfl rfl rfl
  | @store i db r known entry flag rest reports hp hkd =>
    exact h.store hp hkd (ha _ hp (entry, flag) rfl) rfl rfl rfl
  | @prepared i fresh r known hp =>
    have hok := h.running i _ hp
    refine h.goOn hp rfl ?_
    split_ifs
    · exact .staling hok.nodup (hok.known known rfl)
    · exact .nextFile hok.nodup (hok.known known rfl)
  | @done i r known entry flag rest reports hp hdn =>
    have hok := h.running i _ hp
    refine h.become hp (fun x hx _ => hx) ⟨hok.nodup, hok.known, hok.checked, hok.content, fun x hx => ?_⟩
    cases hx
    exact hdn.symm
  | skip hp => exact h.leave hp _
  | @refuse i message r known entry flag rest reports hp =>
    -- nothing of the file was stored
    obtain rfl : flag = false := ha _ hp (entry, flag) rfl
    exact h.leave hp _
  | trust | others => exact h.same rfl rfl rfl

end Orderly

/-! ### Runs -/

/-- No import runs, and the record describes what is stored. -/
structure Imports.Settled (s : Imports) : Prop where
  running : s.running = []
  seconds : ∀ row ∈ s.db.appliedFiles.rows, (1000000 : ℤ) ∣ row.fetchedAt
  index : ∀ k c, s.stored k = some c → k.2.1 ≠ Kind.repomd.asStr
  describes : Describes s

theorem Imports.Settled.orderly {s : Imports} (h : s.Settled) : Orderly s where
  seconds k t ht := by
    obtain ⟨row, hrow, rfl⟩ := map_eq_some_iff.mp ht
    exact h.seconds row (Table.get?_eq_some_iff.mp hrow).1
  index := h.index
  running i p hp := by
    rw [h.running] at hp
    cases hp
  describes k c row hc hrow := (h.describes k c row hc hrow).imp_right .inl

/-- **The record of applied files describes the stored data** in every run in which no import stores or records a file
while another is between its read of the record and its own record of that file, and none fails between storing and
recording: in the end, the content stored last for a file is that of the recorded one, unless the hash was forgotten. -/
theorem applied_files_describe {formats : Formats} {readers : Readers} {s s' : Imports} {as : List ImportAct}
    (h : s.Settled) (has : StepsMeet (importsStep formats readers) Exclusive s as)
    (hrun : run (importsStep formats readers) s as = some s') (hend : ∀ p ∈ s'.running, p.hasEnded = true) :
    Describes s' ∧ ∀ blobs entry c, decided readers blobs s'.db.appliedFiles entry = some .unchanged →
      s'.stored entry.row.key = some c → entry.sha256 = c := by
  have hord : Orderly s' := run_invariant_of (fun _ _ _ ht ha hs => ht.step ha hs) h.orderly has hrun
  have hds : Describes s' := by
    intro k c row hc hrow
    refine (hord.describes k c row hc hrow).imp_right fun hor => hor.resolve_right ?_
    rintro ⟨i, p, x, hp, hx, -⟩
    have hp := hend p (mem_of_getElem? hp)
    cases p with
    | ended => cases hx
    | called | trusting | verified | accepted | preparing | staling | importing | recording => cases hp
  refine ⟨hds, fun blobs entry c hdec hc => ?_⟩
  obtain ⟨hne, row, hrow, hsha⟩ := of_decided_unchanged hdec
  rw [← hsha] at hne ⊢
  exact (hds _ c row hc hrow).resolve_left hne

theorem sampleImports_settled : sampleImports.Settled where
  running := rfl
  seconds row hrow := by cases hrow
  index k c hc := by cases hc
  describes k c row hc := by cases hc

theorem applied_files_describe_sample :
    ∃ s, run (importsStep sampleFormats someReaders) sampleImports sampleImportActs = some s ∧
      (s.stored ("kev", "kev", "kev.json")).isSome ∧ Describes s := by
  have hall : (run (importsStep sampleFormats someReaders) sampleImports sampleImportActs).map
      (fun s => (s.stored ("kev", "kev", "kev.json")).isSome && s.running.all Phase.hasEnded) = some true := by
    decide +kernel
  obtain ⟨s, hs, hchk⟩ := map_eq_some_iff.mp hall
  obtain ⟨hsto, hend⟩ := Bool.and_eq_true_iff.mp hchk
  have hmt : StepsMeet (importsStep sampleFormats someReaders) Exclusive sampleImports sampleImportActs := by
    decide +kernel
  exact ⟨s, hs, hsto, (applied_files_describe sampleImports_settled hmt hs (all_eq_true.mp hend)).1⟩

/-- Two imports overlap: both read the record before either records its file, and the older one stores last. -/
def overlappingActs : List ImportAct :=
  [.start (sampleBundle 2), .start (sampleBundle 3), .step 0, .step 0, .step 0, .step 0, .step 1, .step 1, .step 1,
    .step 1, .store 1 Db.empty, .finish 1 (.ok .done), .step 1, .store 0 Db.empty, .finish 0 (.ok .done), .step 0]

/-- **The older content under the newer record**: a further import of the newer file answers `Unchanged`. -/
theorem applied_files_overwritten :
    ∃ s, run (importsStep sampleFormats someReaders) sampleImports overlappingActs = some s ∧
      (∀ p ∈ s.running, p.hasEnded = true) ∧
      s.stored ("kev", "kev", "kev.json") = some (sampleEntry 2 "2").entry.sha256 ∧
      (s.db.appliedFiles.get? ("kev", "kev", "kev.json")).map AppliedFile.sha256 =
        some (sampleEntry 3 "3").entry.sha256 ∧
      decided someReaders (fun name => if name = 1 :: 3 :: zeros then some (.ok (3 :: zeros)) else none)
        s.db.appliedFiles (sampleEntry 3 "3").entry = some .unchanged ∧
      ¬ Describes s := by
  have hall : (run (importsStep sampleFormats someReaders) sampleImports overlappingActs).map (fun s =>
      (s.running.all Phase.hasEnded, s.stored ("kev", "kev", "kev.json"),
        (s.db.appliedFiles.get? ("kev", "kev", "kev.json")).map AppliedFile.sha256,
        decided someReaders (fun name => if name = 1 :: 3 :: zeros then some (.ok (3 :: zeros)) else none)
          s.db.appliedFiles (sampleEntry 3 "3").entry)) =
      some (true, some (sampleEntry 2 "2").entry.sha256, some (sampleEntry 3 "3").entry.sha256, some .unchanged) := by
    decide +kernel
  obtain ⟨s, hs, hchk⟩ := map_eq_some_iff.mp hall
  obtain ⟨hend, hrs⟩ := Prod.mk.inj hchk
  obtain ⟨hsto, hrs⟩ := Prod.mk.inj hrs
  obtain ⟨hrec, hunc⟩ := Prod.mk.inj hrs
  refine ⟨s, hs, all_eq_true.mp hend, hsto, hrec, hunc, fun hds => ?_⟩
  obtain ⟨row, hrow, hsha⟩ := map_eq_some_iff.mp hrec
  have hdif : (sampleEntry 3 "3").entry.sha256 ≠ noHash ∧
      (sampleEntry 3 "3").entry.sha256 ≠ (sampleEntry 2 "2").entry.sha256 := by decide +kernel
  rcases hds _ _ row hsto hrow with hnn | hsm
  · exact hdif.1 (hsha.symm.trans hnn)
  · exact hdif.2 (hsha.symm.trans hsm)

end OpenVibes.Vulns
