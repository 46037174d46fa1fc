import OpenVibes.Vulns.Import

/-!
# Reading NVD's affected ranges in windows

`sync_applicability` of `crates/openvibes-vulns/src/sources.rs` reads NVD by last-modified windows from a sync point
that is saved after each window. Ranges of products that nobody has installed are dropped, so a product that appears
later has to be read from the start. NVD is what it answers, errors included; any step may fail, and the run may stop
after any. The log tells which pages were stored, when products were added and when the sync point was set.
-/

namespace OpenVibes.Vulns

open Rust Store Theory List Prog

/-! ### The program -/

/-- `MAX_WINDOW_DAYS`: NVD's longest last-modified window. -/
def maxWindow : Time := 120 * 86400 * 1000000

/-- `applicability_start`: 2010-01-01. -/
def applicabilityStart : Time := 1262304000 * 1000000

/-- `nvd_time`: NVD's date parameters count milliseconds. -/
def nvdTime (t : Time) : ℤ := t / 1000

/-- `NvdPage`: one page of an NVD response. -/
structure NvdPage where
  total : ℕ
  total_lt : total < 2 ^ 64
  count : ℕ
  cveIds : List String
  applicability : List Applicability

/-- `ApplicabilityReport`: what an applicability run did. -/
structure ApplicabilityReport where
  restarted : Bool
  (cves ranges : ℕ)

/-- NVD: what it answers to a request for a window and an index. -/
abbrev Nvd := ℤ → ℤ → ℕ → Except String NvdPage

/-- `NvdClient::page`. -/
def request (answer : Except String NvdPage) : ImportM NvdPage :=
  .step id fun
    | some _ => .ret answer
    | none => .ret (.error "download task failed")

/-- The inner loop of `sync_applicability`: the pages of a window. `turns` bounds their number. -/
def pages (nvd : Nvd) (start stop : Time) : ℕ → ℕ → ApplicabilityReport → ImportM ApplicabilityReport
  | 0, _, report => return report
  | turns + 1, index, report => do
    let page ← request (nvd (nvdTime start) (nvdTime stop) index)
    let stored ← write (fun db => replaceApplicability db page.cveIds page.applicability) (fun _ => [])
      fun db => (keptRanges db page.applicability).length
    let report := { report with cves := report.cves + page.cveIds.length, ranges := report.ranges + stored }
    -- `upsert_nvd`, whose table is not modelled
    let _ ← write id (fun _ => [.pageStored start stop index page.count page.total]) fun _ => ()
    if page.count = 0 ∨ page.total ≤ index + page.count then return report
    else pages nvd start stop turns (index + page.count) report

/-- The outer loop of `sync_applicability`: the windows from `start` to `now`. -/
def windows (nvd : Nvd) (now : Time) : ℕ → Time → ApplicabilityReport → ImportM ApplicabilityReport
  | 0, _, report => return report
  | turns + 1, start, report =>
    if start < now then do
      let stop := min (start + maxWindow) now
      let report ← pages nvd start stop (2 ^ 64) 0 report
      let _ ← write (fun db => setFeedCursor db "nvd-cpe" stop) (fun _ => [.cursorSaved stop]) fun _ => ()
      windows nvd now turns stop report
    else return report

def windowsBetween (start now : Time) : ℕ := ((now - start) / maxWindow + 1).toNat

def syncApplicability (sha256 : ℕ → Sha256) (nvd : Nvd) (now : Time) : ImportM ApplicabilityReport := do
  let fresh ← ensureProducts "fedora"
  let cursor ← ask fun db => feedCursor db "nvd-cpe"
  let start := if fresh then applicabilityStart else cursor.getD applicabilityStart
  let result ← ExceptT.lift (windows nvd now (windowsBetween start now) start ⟨fresh && cursor.isSome, 0, 0⟩)
  let _ ← write (fun db => recordFeed db "nvd-cpe" (result.map fun report => sha256 report.ranges)) (fun _ => [])
    fun _ => ()
  match result with
  | .ok report => return report
  | .error e => throw e

/-! ### The loops are not cut short -/

variable (nvd : Nvd) {turns : ℕ}

theorem pages_succ (start stop : Time) (turns index : ℕ) (report : ApplicabilityReport)
    (htur : 2 ^ 64 ≤ index + turns) (hind : index < 2 ^ 64) :
    pages nvd start stop (turns + 1) index report = pages nvd start stop turns index report := by
  induction turns generalizing index report with
  | zero => omega
  | succ turns ih =>
    rw [pages, pages]
    refine bind_congr fun page => bind_congr fun stored => bind_congr fun _ => ?_
    split_ifs with hend
    · rfl
    · have := page.total_lt
      exact ih _ _ (by omega) (by omega)

theorem pages_of_le (start stop : Time) (h : 2 ^ 64 ≤ turns) (report : ApplicabilityReport) :
    pages nvd start stop turns 0 report = pages nvd start stop (2 ^ 64) 0 report := by
  induction turns, h using Nat.le_induction with
  | base => rfl
  | succ turns hle ih => rw [pages_succ nvd start stop turns 0 report (by omega) (by omega), ih]

theorem windows_succ (now : ℤ) (turns : ℕ) (start : ℤ) (report : ApplicabilityReport)
    (h : now - start ≤ turns * maxWindow) :
    windows nvd now (turns + 1) start report = windows nvd now turns start report := by
  induction turns generalizing start report with
  | zero =>
    have hge : ¬ start < now := by rw [Nat.cast_zero, zero_mul] at h; omega
    rw [windows, windows, if_neg hge]
  | succ turns ih =>
    rw [windows, windows]
    split_ifs
    · refine bind_congr fun report => bind_congr fun _ => ih _ _ ?_
      rw [Nat.cast_succ, add_mul, one_mul] at h
      have hpos : 0 ≤ (turns : ℤ) * maxWindow := Int.mul_nonneg (Int.natCast_nonneg _) (by decide)
      omega
    · rfl

theorem windows_of_le (now start : ℤ) (h : windowsBetween start now ≤ turns) (report : ApplicabilityReport) :
    windows nvd now turns start report = windows nvd now (windowsBetween start now) start report := by
  induction turns, h using Nat.le_induction with
  | base => rfl
  | succ turns hle ih =>
    have hW : (0 : ℤ) < maxWindow := by decide
    have hlt : now - start < ((now - start) / maxWindow + 1) * maxWindow := Int.lt_ediv_add_one_mul_self _ hW
    have htur : (now - start) / maxWindow + 1 ≤ turns := by
      rw [windowsBetween] at hle
      omega
    have hmul := Int.mul_le_mul_of_nonneg_right htur hW.le
    rw [windows_succ nvd now turns start report (by omega), ih]

/-! ### What was read -/

inductive PagesUpTo (log : List Event) (start stop : Time) : ℕ → Prop where
  | zero : PagesUpTo log start stop 0
  | page {index count total : ℕ} (h : PagesUpTo log start stop index)
      (hp : .pageStored start stop index count total ∈ log) : PagesUpTo log start stop (index + count)

/-- All pages of the window are stored: NVD said that there are no more. -/
def ReadInFull (log : List Event) (start stop : Time) : Prop :=
  ∃ index count total, PagesUpTo log start stop index ∧ .pageStored start stop index count total ∈ log ∧
    (count = 0 ∨ total ≤ index + count)

def InWindowRead (log : List Event) (u : Time) : Prop :=
  ∃ start stop, start ≤ u ∧ u ≤ stop ∧ ReadInFull log start stop

/-- **A newly kept product is backfilled**: when the sync point is set to `t` after a product was added, everything up
to `t` was read since then. -/
def Backfilled (log : List Event) : Prop :=
  ∀ pre products mid t post, log = pre ++ .productsAdded products :: (mid ++ .cursorSaved t :: post) →
    products ≠ [] → ∀ u, applicabilityStart ≤ u → u ≤ t → InWindowRead mid u

/-- Since each product was added, everything before `t` was read. -/
def ReadSince (log : List Event) (t : Time) : Prop :=
  ∀ pre products mid, log = pre ++ .productsAdded products :: mid → products ≠ [] →
    ∀ u, applicabilityStart ≤ u → u < t → InWindowRead mid u

def Settled (w : World) : Prop := ∀ t, feedCursor w.db "nvd-cpe" = some t → ReadSince w.log t

def Event.addsProduct : Event → Bool
  | .productsAdded products => products ≠ []
  | _ => false

def Event.savesCursor : Event → Bool
  | .cursorSaved _ => true
  | _ => false

/-- A run from `w` with the events `new` added products although there was a sync point, and saved no window. -/
def restartLost (w : World) (new : List Event) : Bool :=
  (feedCursor w.db "nvd-cpe").isSome && new.any Event.addsProduct && !new.any Event.savesCursor

variable {log log' : List Event} {start stop : Time}

theorem PagesUpTo.mono (h : log ⊆ log') {index : ℕ} (hp : PagesUpTo log start stop index) :
    PagesUpTo log' start stop index := by
  induction hp with
  | zero => exact .zero
  | page _ hp ih => exact .page ih (h hp)

theorem ReadInFull.mono (h : log ⊆ log') (hf : ReadInFull log start stop) : ReadInFull log' start stop := by
  obtain ⟨index, count, total, hp, hla, hend⟩ := hf
  exact ⟨index, count, total, hp.mono h, h hla, hend⟩

variable {u : Time} {e : Event} {new : List Event} (turns : ℕ)

theorem InWindowRead.mono (h : log ⊆ log') (hu : InWindowRead log u) : InWindowRead log' u := by
  obtain ⟨start, stop, h₁, h₂, hf⟩ := hu
  exact ⟨start, stop, h₁, h₂, hf.mono h⟩

theorem ReadSince.append {t : Time} (h : ReadSince log t)
    (he : ∀ prods, e = .productsAdded prods → prods = []) : ReadSince (log ++ [e]) t := by
  intro pre prods mid heq hne u hu hut
  rcases append_eq_append_cons heq with ⟨mid, hlog, rfl⟩ | ⟨mid', -, hnew⟩
  · exact (h pre prods mid hlog hne u hu hut).mono (subset_append_left _ _)
  · have hmem : .productsAdded prods ∈ [e] := hnew ▸ by simp
    exact absurd (he prods (mem_singleton.mp hmem).symm) hne

theorem Backfilled.append (h : Backfilled log)
    (he : ∀ t, e = .cursorSaved t → ∀ pre prods mid, log = pre ++ .productsAdded prods :: mid → prods ≠ [] →
      ∀ u, applicabilityStart ≤ u → u ≤ t → InWindowRead mid u) : Backfilled (log ++ [e]) := by
  intro pre prods mid t post heq hne u hu hut
  rw [← cons_append, ← append_assoc] at heq
  rcases append_eq_append_cons heq with ⟨post, hlog, rfl⟩ | ⟨mid', hlog, hnew⟩
  · rw [append_assoc, cons_append] at hlog
    exact h pre prods mid t post hlog hne u hu hut
  obtain ⟨rfl, hnil⟩ : mid' = [] ∧ e = .cursorSaved t := by
    cases mid' with
    | nil => exact ⟨rfl, (cons.inj hnew).1⟩
    | cons x xs => exact absurd (cons.inj hnew).2 (by simp)
  rw [append_nil] at hlog
  exact he t hnil pre prods mid hlog.symm hne u hu hut

/-! ### One run -/

/-- What holds throughout a run that began in `w₀`: the history is good, and so is the sync point unless a restart is
lost. -/
def SyncInv (w₀ w : World) : Prop :=
  Backfilled w.log ∧ (Settled w ∨ ∃ new, w.log = w₀.log ++ new ∧ restartLost w₀ new)

variable {w₀ w : World} {nvd : Nvd}

theorem SyncInv.of_cursor_eq (h : SyncInv w₀ w) {db : Db} (hdb : feedCursor db "nvd-cpe" = feedCursor w.db "nvd-cpe") :
    SyncInv w₀ ⟨db, w.log⟩ := by
  obtain ⟨hb, hs | hl⟩ := h
  · exact ⟨hb, .inl fun t ht => hs t (hdb.symm.trans ht)⟩
  · exact ⟨hb, .inr hl⟩

theorem SyncInv.pageStored (h : SyncInv w₀ w) (start stop : Time) (index count total : ℕ) :
    SyncInv w₀ ⟨w.db, w.log ++ [.pageStored start stop index count total]⟩ := by
  obtain ⟨hb, h⟩ := h
  refine ⟨hb.append fun t ht => (nomatch ht), ?_⟩
  rcases h with hs | ⟨new, hlog, hls⟩
  · exact .inl fun t ht => (hs t ht).append fun prods hp => nomatch hp
  · refine .inr ⟨new ++ [.pageStored start stop index count total], ?_, ?_⟩
    · rw [← append_assoc, ← hlog]
    · simpa [restartLost, Event.addsProduct, Event.savesCursor] using hls

theorem always_request_bind {β : Type} {I : World → Prop} {Q : Except String β → World → Prop}
    {answer : Except String NvdPage} {f : NvdPage → ImportM β} (hI : I w) (hok : ∀ page, Always I Q (f page) w)
    (herr : ∀ e, Q (.error e) w) : Always I Q (request answer >>= f : ImportM β) w := by
  refine .except_bind ⟨hI, ?_, herr _⟩
  cases answer with
  | ok page => exact hok page
  | error e => exact herr e

def NoProducts (log : List Event) : Prop := ∀ e ∈ log, ∀ products, e ≠ .productsAdded products

/-- The pages of a window: what is stored are pages, and once the loop is left, all of them. -/
theorem always_pages (index : ℕ) (report : ApplicabilityReport) (htur : 2 ^ 64 ≤ index + turns)
    (hind : index < 2 ^ 64) (hinv : SyncInv w₀ w) (hlog : w.log = log ++ new)
    (hpag : PagesUpTo new start stop index) (hnew : NoProducts new) :
    Always (SyncInv w₀) (fun result w => SyncInv w₀ w ∧ ∀ report, result = .ok report →
        ∃ new, w.log = log ++ new ∧ ReadInFull new start stop ∧ NoProducts new)
      (pages nvd start stop turns index report) w := by
  induction turns generalizing index report new w with
  | zero => omega
  | succ turns ih =>
    rw [pages]
    refine always_request_bind hinv (fun page => ?_) fun e => ⟨hinv, fun _ h => nomatch h⟩
    have hrpl : SyncInv w₀ ⟨replaceApplicability w.db page.cveIds page.applicability, w.log ++ []⟩ := by
      rw [append_nil]
      exact hinv.of_cursor_eq rfl
    have hpg := hrpl.pageStored start stop index page.count page.total
    refine always_write_bind hrpl ?_ fun e => ⟨hinv, fun _ h => nomatch h⟩
    refine always_write_bind hpg ?_ fun e => ⟨hrpl, fun _ h => nomatch h⟩
    have hlog' : w.log ++ [] ++ [.pageStored start stop index page.count page.total] =
        log ++ (new ++ [.pageStored start stop index page.count page.total]) := by
      rw [append_nil, hlog, append_assoc]
    have hnew' : NoProducts (new ++ [.pageStored start stop index page.count page.total]) := by
      intro e he prods
      rcases mem_append.mp he with he | he
      · exact hnew e he prods
      · rw [mem_singleton.mp he]
        exact fun h => nomatch h
    have hup := hpag.mono (subset_append_left new [.pageStored start stop index page.count page.total])
    have hla : .pageStored start stop index page.count page.total ∈
        new ++ [.pageStored start stop index page.count page.total] := by simp
    by_cases hend : page.count = 0 ∨ page.total ≤ index + page.count
    · rw [if_pos hend]
      exact ⟨hpg, fun _ _ => ⟨_, hlog', ⟨index, page.count, page.total, hup, hla, hend⟩, hnew'⟩⟩
    · rw [if_neg hend]
      have := page.total_lt
      exact ih _ _ (by omega) (by omega) hpg hlog' (.page hup hla) hnew'

/-- Everything before `stop` was read, once it was before `start` and the window between was read. -/
theorem ReadSince.window (h : ReadSince log start) (hfu : ReadInFull new start stop) (hnew : NoProducts new)
    {pre mid : List Event} {prods : List String} (heq : log ++ new = pre ++ .productsAdded prods :: mid)
    (hne : prods ≠ []) (hu : applicabilityStart ≤ u) (hus : u ≤ stop) : InWindowRead mid u := by
  rcases append_eq_append_cons heq with ⟨mid, hlog, rfl⟩ | ⟨mid', -, hm⟩
  · rcases lt_or_ge u start with hlt | hge
    · exact (h pre prods mid hlog hne u hu hlt).mono (subset_append_left _ _)
    · exact ⟨start, stop, hge, hus, hfu.mono (subset_append_right _ _)⟩
  · exact absurd rfl (hnew _ (hm ▸ by simp) prods)

theorem SyncInv.cursorSaved (h : SyncInv w₀ w)
    (hrd : ∀ pre prods mid, w.log = pre ++ .productsAdded prods :: mid → prods ≠ [] →
      ∀ u, applicabilityStart ≤ u → u ≤ stop → InWindowRead mid u) :
    SyncInv w₀ ⟨setFeedCursor w.db "nvd-cpe" stop, w.log ++ [.cursorSaved stop]⟩ ∧
      ReadSince (w.log ++ [.cursorSaved stop]) stop := by
  have hsin : ReadSince (w.log ++ [.cursorSaved stop]) stop :=
    ReadSince.append (fun pre prods mid heq hne u hu hlt => hrd pre prods mid heq hne u hu hlt.le)
      fun prods hp => nomatch hp
  refine ⟨⟨h.1.append fun t ht => ?_, .inl fun t ht => ?_⟩, hsin⟩
  · cases ht
    exact hrd
  · rw [feedCursor_setFeedCursor] at ht
    cases ht
    exact hsin

theorem always_windows {now : Time} (start : Time) (report : ApplicabilityReport) (hinv : SyncInv w₀ w)
    (hrd : ReadSince w.log start) :
    Always (SyncInv w₀) (fun _ w => SyncInv w₀ w) (windows nvd now turns start report) w := by
  induction turns generalizing start report w with
  | zero => exact hinv
  | succ turns ih =>
    rw [windows]
    split_ifs
    · refine .except_bind ((always_pages (2 ^ 64) 0 report (by omega) (by omega) hinv
        (append_nil w.log).symm .zero fun _ he => nomatch he).imp (fun _ hs => hs) ?_)
      rintro (e | report) w' ⟨hinv', hpag⟩
      · exact hinv'
      obtain ⟨new, hlog, hfu, hnew⟩ := hpag report rfl
      obtain ⟨hsav, hsin⟩ := hinv'.cursorSaved fun pre prods mid heq hne u hu hus =>
        hrd.window hfu hnew (hlog.symm.trans heq) hne hu hus
      exact always_write_bind hsav (ih _ _ hsav hsin) fun e => hinv'
    · exact hinv

/-- Adding products keeps the sync point good, or a restart is owed. -/
theorem always_ensureProducts (hb : Backfilled w.log) (hs : Settled w) (osId : String) :
    Always (SyncInv w) (fun result w' => SyncInv w w' ∧ (result = .ok false → Settled w'))
      (ensureProducts osId) w := by
  have hsta : SyncInv w w := ⟨hb, .inl hs⟩
  refine always_ask_bind hsta ?_ fun e => ⟨hsta, fun h => nomatch h⟩
  generalize wantedProducts (installedNames w.db osId) = prods
  have hbc : Backfilled (w.log ++ [.productsAdded (newProducts w.db prods)]) := hb.append fun t ht => nomatch ht
  have hstl : newProducts w.db prods = [] →
      Settled ⟨addProducts w.db prods, w.log ++ [.productsAdded (newProducts w.db prods)]⟩ :=
    fun hnil t ht => (hs t ht).append fun ps hp => (Event.productsAdded.inj hp) ▸ hnil
  have hinv : SyncInv w ⟨addProducts w.db prods, w.log ++ [.productsAdded (newProducts w.db prods)]⟩ := by
    refine ⟨hbc, ?_⟩
    by_cases hnil : newProducts w.db prods = []
    · exact .inl (hstl hnil)
    cases hc : feedCursor w.db "nvd-cpe" with
    | none => exact .inl fun t ht => nomatch hc.symm.trans ht
    | some c =>
      exact .inr ⟨_, rfl, by simp [restartLost, hc, hnil, Event.addsProduct, Event.savesCursor]⟩
  refine always_write_bind hinv ⟨hinv, fun h => hstl ?_⟩ fun e => ⟨hsta, fun h => nomatch h⟩
  exact length_eq_zero_iff.mp (by simpa using Except.ok.inj h)

/-- **One run**, stopped anywhere, begun with a good history and sync point. -/
theorem syncInv_run (sha256 : ℕ → Sha256) (nvd : Nvd) (now : Time) (outs : List Bool) (hb : Backfilled w.log)
    (hs : Settled w) : SyncInv w (Prog.run outs (syncApplicability sha256 nvd now) w).1 := by
  have halw : Always (SyncInv w) (fun _ w' => SyncInv w w') (syncApplicability sha256 nvd now) w := by
    refine .except_bind ((always_ensureProducts hb hs "fedora").imp (fun _ h => h) ?_)
    rintro (e | fresh) w₁ ⟨hinv, hfrs⟩
    · exact hinv
    refine always_ask_bind hinv ?_ fun e => hinv
    have hrd : ReadSince w₁.log
        (if fresh then applicabilityStart else (feedCursor w₁.db "nvd-cpe").getD applicabilityStart) := by
      have hzr : ReadSince w₁.log applicabilityStart := fun _ _ _ _ _ u hu hlt => absurd hu hlt.not_ge
      cases fresh with
      | true => exact hzr
      | false =>
        cases hc : feedCursor w₁.db "nvd-cpe" with
        | none => exact hzr
        | some c => exact hfrs rfl c hc
    refine .lift_bind ((always_windows _ _ _ hinv hrd).imp (fun _ h => h) ?_)
    intro result w₂ hinv₂
    have hrec : ∀ out, SyncInv w ⟨recordFeed w₂.db "nvd-cpe" out, w₂.log ++ []⟩ := fun out => by
      rw [append_nil]
      exact hinv₂.of_cursor_eq (feedCursor_recordFeed _ _ _ _)
    refine always_write_bind (hrec _) ?_ fun e => hinv₂
    cases result with
    | ok | error => exact hrec _
  exact (halw.run ⟨hb, .inl hs⟩ outs).1

/-! ### Sequences of runs -/

/-- A run of `sync_applicability`: the inventories, NVD's answers, the time, and which steps are carried out. -/
structure SyncRun where
  inventories : Inventories
  nvd : Nvd
  now : Time
  outcomes : List Bool

variable (sha256 : ℕ → Sha256)

def SyncRun.run (w : World) (r : SyncRun) : World :=
  (Prog.run r.outcomes (syncApplicability sha256 r.nvd r.now) (w.withInventories r.inventories)).1

def syncAll (w : World) (runs : List SyncRun) : World := runs.foldl (SyncRun.run sha256) w

/-- No run loses a restart: one that adds a product although there is a sync point saves the first window. -/
def restartsKept : World → List SyncRun → Bool
  | _, [] => true
  | w, r :: runs => !restartLost w ((r.run sha256 w).log.drop w.log.length) && restartsKept (r.run sha256 w) runs

theorem syncAll_good (hb : Backfilled w.log) (hs : Settled w) {runs : List SyncRun} (h : restartsKept sha256 w runs) :
    Backfilled (syncAll sha256 w runs).log := by
  induction runs generalizing w with
  | nil => exact hb
  | cons r runs ih =>
    rw [restartsKept, Bool.and_eq_true, Bool.not_eq_true'] at h
    obtain ⟨hkp, hrs⟩ := h
    obtain ⟨hb', hs' | ⟨new, hlog, hls⟩⟩ : SyncInv (w.withInventories r.inventories) (r.run sha256 w) :=
      syncInv_run sha256 r.nvd r.now r.outcomes hb hs
    · exact ih hb' hs' hrs
    rw [hlog, show (w.withInventories r.inventories).log = w.log from rfl, drop_left] at hkp
    have hsm : restartLost (w.withInventories r.inventories) new = restartLost w new := rfl
    rw [hsm, hkp] at hls
    cases hls

/-- **A newly kept product is backfilled** by every sequence of runs, whatever fails, in
which no restart is lost: a run that adds a product although there is a sync point saves at
least its first window. -/
theorem product_backfilled (db : Db) (runs : List SyncRun) (h : restartsKept sha256 ⟨db, []⟩ runs) :
    Backfilled (syncAll sha256 ⟨db, []⟩ runs).log := by
  refine syncAll_good sha256 (fun pre prods mid t post heq => ?_) (fun t _ pre prods mid heq => ?_) h
  · exact absurd heq (by simp)
  · exact absurd heq (by simp)

def emptyNvd : Nvd := fun _ _ _ => .ok ⟨0, by decide, 0, [], []⟩

def day (n : ℤ) : Time := applicabilityStart + n * 86400 * 1000000

/-- The restart for curl saves its window, and a later run that fails loses nothing. -/
theorem product_backfilled_curl :
    Backfilled (syncAll (fun _ => []) ⟨Db.empty, []⟩
      [⟨.empty, emptyNvd, day 1, replicate 8 true⟩, ⟨curlHost, emptyNvd, day 2, replicate 8 true⟩,
       ⟨curlHost, emptyNvd, day 3, [true, true, true, false]⟩]).log :=
  product_backfilled _ _ _ (by decide)

/-- The first NVD request of the restart for curl fails. The next run finds no new product and reads on from the old
sync point: the first day is not read since curl was added. -/
theorem product_not_backfilled :
    ¬ Backfilled (syncAll (fun _ => []) ⟨Db.empty, []⟩
      [⟨.empty, emptyNvd, day 1, replicate 8 true⟩, ⟨curlHost, emptyNvd, day 2, [true, true, true, false]⟩,
       ⟨curlHost, emptyNvd, day 3, replicate 8 true⟩]).log := by
  intro h
  have hlog : (syncAll (fun _ => []) ⟨.empty, []⟩
      [⟨.empty, emptyNvd, day 1, replicate 8 true⟩, ⟨curlHost, emptyNvd, day 2, [true, true, true, false]⟩,
       ⟨curlHost, emptyNvd, day 3, replicate 8 true⟩]).log =
      [.productsAdded [], .pageStored (day 0) (day 1) 0 0 0, .cursorSaved (day 1)] ++
        .productsAdded ["curl", "libcurl"] ::
          ([.productsAdded [], .pageStored (day 1) (day 3) 0 0 0] ++ .cursorSaved (day 3) :: []) := by decide
  obtain ⟨start, stop, hle, -, index, count, total, -, hmem, -⟩ :=
    h _ _ _ _ _ hlog (by simp) applicabilityStart (by decide) (by decide)
  have hsta : start = day 1 := by
    rcases mem_cons.mp hmem with h | h
    · cases h
    · cases mem_singleton.mp h
      rfl
  rw [hsta] at hle
  exact absurd hle (by decide)

end OpenVibes.Vulns
