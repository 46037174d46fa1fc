import OpenVibes.Rust.Json
import OpenVibes.Store.FindingChanges

/-!
# Stored findings

`store_findings` of `crates/platform-store/src/ingest.rs`: findings arrive in batches, in any order and more than once.
A batch is one transaction. Each finding is added to the history unless it is there, and to the row of its rule in
`current_findings`, every column of which is updated by an expression of its own.
-/

namespace OpenVibes.Store.Findings

open Theory Rust List Table
open FindingChanges (Severity)

/-! ### Data -/

/-- `StoredFinding`: a finding to store, attributed to the authenticated agent. -/
structure StoredFinding where
  /-- Original bounded detection evidence, absent for legacy observations. -/
  detection : Option Json
  (findingId scanId : String)
  /-- Rule set whose bundle produced it; empty when the sender did not say. -/
  (ruleSetId ruleId : String)
  ruleVersion : ℤ
  observedAt : Time
  severity : Severity
  confidence : ℤ
  message : String
  evidence : List String

/-- `Origin`: how a batch arrived. -/
inductive Origin where
  | online
  | imported
deriving DecidableEq

def Origin.authenticated : Origin → Bool
  | .online => true
  | .imported => false

/-- `date_naive`: the day of a time. -/
def dateNaive (t : Time) : ℤ := t / 86400000000

def StoredFinding.day (f : StoredFinding) : ℤ := dateNaive f.observedAt

def StoredFinding.historyKey (f : StoredFinding) : String × ℤ := (f.findingId, f.day)

def StoredFinding.rule (f : StoredFinding) : String × String := (f.ruleSetId, f.ruleId)

structure FindingRow where
  finding : StoredFinding
  observedDay : ℤ
  agentId : String
  receivedAt : Time
  origin : Origin
  authenticated : Bool

def FindingRow.key (r : FindingRow) : String × ℤ := (r.finding.findingId, r.observedDay)

structure CurrentFinding where
  (agentId ruleSetId ruleId lastFindingId : String)
  ruleVersion : ℤ
  severity : Severity
  (firstObservedAt lastObservedAt : Time)
  lastObservedDay : ℤ
  scanId : String
  confidence : ℤ
  message : String
  evidence : List String
  detection : Option Json
  receivedAt : Time
  origin : Origin
  authenticated : Bool

def CurrentFinding.key (r : CurrentFinding) : String × String × String := (r.agentId, r.ruleSetId, r.ruleId)

structure Db where
  agents : List String
  /-- The partitions of the history: from a day to before another. -/
  partitions : List (ℤ × ℤ)
  findings : Table FindingRow FindingRow.key
  currentFindings : Table CurrentFinding CurrentFinding.key

/-- Why a statement fails; the transaction is rolled back. -/
inductive Error where
  | noPartition
  | checkViolation
  | foreignKeyViolation
deriving DecidableEq

structure Delivery where
  finding : StoredFinding
  origin : Origin
  now : Time

/-! ### `store_findings` -/

def findingRow (agentId : String) (d : Delivery) : FindingRow :=
  ⟨d.finding, d.finding.day, agentId, d.now, d.origin, d.origin.authenticated⟩

def currentRow (agentId : String) (d : Delivery) : CurrentFinding where
  agentId := agentId
  ruleSetId := d.finding.ruleSetId
  ruleId := d.finding.ruleId
  lastFindingId := d.finding.findingId
  ruleVersion := d.finding.ruleVersion
  severity := d.finding.severity
  firstObservedAt := d.finding.observedAt
  lastObservedAt := d.finding.observedAt
  lastObservedDay := d.finding.day
  scanId := d.finding.scanId
  confidence := d.finding.confidence
  message := d.finding.message
  evidence := d.finding.evidence
  detection := d.finding.detection
  receivedAt := d.now
  origin := d.origin
  authenticated := d.origin.authenticated

/-- `ON CONFLICT (agent_id, rule_set_id, rule_id) DO UPDATE SET`: the row `old` becomes. -/
def merge (old new : CurrentFinding) : CurrentFinding where
  agentId := old.agentId
  ruleSetId := old.ruleSetId
  ruleId := old.ruleId
  lastFindingId := if new.lastObservedAt > old.lastObservedAt then new.lastFindingId else old.lastFindingId
  ruleVersion := if new.lastObservedAt > old.lastObservedAt then new.ruleVersion else old.ruleVersion
  severity := if new.lastObservedAt > old.lastObservedAt then new.severity else old.severity
  lastObservedDay := if new.lastObservedAt > old.lastObservedAt then new.lastObservedDay else old.lastObservedDay
  scanId := if new.lastObservedAt > old.lastObservedAt then new.scanId else old.scanId
  confidence := if new.lastObservedAt > old.lastObservedAt then new.confidence else old.confidence
  message := if new.lastObservedAt > old.lastObservedAt then new.message else old.message
  evidence := if new.lastObservedAt > old.lastObservedAt then new.evidence else old.evidence
  detection := if new.lastObservedAt > old.lastObservedAt then new.detection else old.detection
  receivedAt := if new.lastObservedAt > old.lastObservedAt then new.receivedAt else old.receivedAt
  origin := if new.lastObservedAt > old.lastObservedAt then new.origin else old.origin
  authenticated := if new.lastObservedAt > old.lastObservedAt then new.authenticated else old.authenticated
  firstObservedAt := min old.firstObservedAt new.firstObservedAt
  lastObservedAt := max old.lastObservedAt new.lastObservedAt

theorem key_merge (old new : CurrentFinding) : (merge old new).key = old.key := rfl

/-- `INSERT INTO findings … ON CONFLICT DO NOTHING`, with the number of rows it inserted. -/
def insertFinding (db : Db) (agentId : String) (d : Delivery) : Except Error (Db × ℕ) :=
  if ¬∃ p ∈ db.partitions, p.1 ≤ d.finding.day ∧ d.finding.day < p.2 then .error .noPartition
  else .ok ({ db with findings := db.findings.insertNew (findingRow agentId d) },
    if (findingRow agentId d).key ∈ db.findings.rows.map FindingRow.key then 0 else 1)

/-- `INSERT INTO current_findings … ON CONFLICT … DO UPDATE`. -/
def upsertCurrent (db : Db) (agentId : String) (d : Delivery) : Except Error Db :=
  if ¬(0 ≤ d.finding.confidence ∧ d.finding.confidence ≤ 100) then .error .checkViolation
  else if db.currentFindings.get? (currentRow agentId d).key = none ∧ agentId ∉ db.agents then
    .error .foreignKeyViolation
  else .ok { db with currentFindings := db.currentFindings.upsert merge key_merge (currentRow agentId d) }

/-- The loop body of `store_findings_in`, with how many findings were new. -/
def storeFinding (agentId : String) (origin : Origin) (now : Time) (acc : Db × ℕ) (f : StoredFinding) :
    Except Error (Db × ℕ) := do
  let (db, inserted) ← insertFinding acc.1 agentId ⟨f, origin, now⟩
  let db ← upsertCurrent db agentId ⟨f, origin, now⟩
  return (db, acc.2 + inserted)

/-- `store_findings_in`; `store_findings` commits it. -/
def storeFindings (db : Db) (agentId : String) (findings : List StoredFinding) (origin : Origin) (now : Time) :
    Except Error (Db × ℕ) :=
  findings.foldlM (storeFinding agentId origin now) (db, 0)

/-! ### One finding -/

structure Fits (db : Db) (agentId : String) (f : StoredFinding) : Prop where
  partition : ∃ p ∈ db.partitions, p.1 ≤ f.day ∧ f.day < p.2
  confidence : 0 ≤ f.confidence ∧ f.confidence ≤ 100
  agent : db.currentFindings.get? (agentId, f.rule) ≠ none ∨ agentId ∈ db.agents

def put (db : Db) (agentId : String) (d : Delivery) : Db :=
  { db with
    findings := db.findings.insertNew (findingRow agentId d)
    currentFindings := db.currentFindings.upsert merge key_merge (currentRow agentId d) }

def isNew (db : Db) (f : StoredFinding) : ℕ := if f.historyKey ∈ db.findings.rows.map FindingRow.key then 0 else 1

variable {agentId : String} {d : Delivery} {db : Db}

theorem storeFinding_eq_ok_iff {n : ℕ} {acc : Db × ℕ} :
    storeFinding agentId d.origin d.now (db, n) d.finding = .ok acc ↔
      Fits db agentId d.finding ∧ acc = (put db agentId d, n + isNew db d.finding) := by
  rw [storeFinding, insertFinding]
  by_cases hpar : ∃ p ∈ db.partitions, p.1 ≤ d.finding.day ∧ d.finding.day < p.2
  · rw [if_neg (not_not.mpr hpar)]
    simp only [bind, Except.bind, upsertCurrent]
    by_cases hcon : 0 ≤ d.finding.confidence ∧ d.finding.confidence ≤ 100
    · rw [if_neg (not_not.mpr hcon)]
      by_cases hagt : db.currentFindings.get? (currentRow agentId d).key = none ∧ agentId ∉ db.agents
      · rw [if_pos hagt]
        constructor
        · intro h
          cases h
        rintro ⟨hft, -⟩
        rcases hft.agent with h | h
        · exact absurd hagt.1 h
        · exact absurd h hagt.2
      · rw [if_neg hagt]
        constructor
        · intro h
          exact ⟨⟨hpar, hcon, by tauto⟩, (Except.ok.inj h).symm⟩
        · rintro ⟨-, rfl⟩
          rfl
    · rw [if_pos hcon]
      constructor
      · intro h
        cases h
      · exact fun h => absurd h.1.confidence hcon
  · rw [if_pos hpar]
    constructor
    · intro h
      cases h
    · exact fun h => absurd h.1.partition hpar

/-- **The columns of a current row move together**, and only to a later observation. -/
theorem merge_eq {old new : CurrentFinding} (hkey : new.key = old.key) :
    merge old new = { (if new.lastObservedAt > old.lastObservedAt then new else old) with
        firstObservedAt := min old.firstObservedAt new.firstObservedAt } := by
  obtain ⟨h₁, h₂, h₃⟩ : new.agentId = old.agentId ∧ new.ruleSetId = old.ruleSetId ∧ new.ruleId = old.ruleId := by
    simpa [CurrentFinding.key] using hkey
  by_cases h : new.lastObservedAt > old.lastObservedAt
  · simp only [merge, if_pos h, h₁, h₂, h₃, max_eq_right h.le]
  · simp only [merge, if_neg h, max_eq_left (not_lt.mp h)]

/-! ### What a run of deliveries leaves -/

def times (ds : List Delivery) : Set Time := { t | ∃ d ∈ ds, d.finding.observedAt = t }

/-- A current row, or its absence, against the deliveries of its rule. -/
def Summarises (agentId : String) (ds : List Delivery) : Option CurrentFinding → Prop
  | none => ds = []
  | some r => IsLeast (times ds) r.firstObservedAt ∧ IsGreatest (times ds) r.lastObservedAt ∧
    ∃ d ∈ ds, d.finding.observedAt = r.lastObservedAt ∧
      r = { currentRow agentId d with firstObservedAt := r.firstObservedAt }

theorem times_append_singleton (ds : List Delivery) (d : Delivery) :
    times (ds ++ [d]) = insert d.finding.observedAt (times ds) := by
  ext t
  simp only [times, mem_append, mem_singleton, Set.mem_ofPred_eq, Set.mem_insert_iff]
  constructor
  · rintro ⟨d', hd' | rfl, rfl⟩
    · exact .inr ⟨d', hd', rfl⟩
    · exact .inl rfl
  · rintro (rfl | ⟨d', hd', rfl⟩)
    · exact ⟨d, .inr rfl, rfl⟩
    · exact ⟨d', .inl hd', rfl⟩

variable {ds : List Delivery} {row : Option CurrentFinding}

theorem summarises_append (h : Summarises agentId ds row) (hru : ∀ d' ∈ ds, d'.finding.rule = d.finding.rule) :
    Summarises agentId (ds ++ [d])
      (some (row.elim (currentRow agentId d) fun old => merge old (currentRow agentId d))) := by
  rw [Summarises, times_append_singleton]
  cases row with
  | none =>
    obtain rfl : ds = [] := h
    have hemp : times [] = ∅ := by simp [times]
    rw [hemp, insert_empty_eq]
    exact ⟨isLeast_singleton, isGreatest_singleton, d, mem_cons_self, rfl, rfl⟩
  | some old =>
    obtain ⟨hlea, hgr, d', hd', hla, hrow⟩ := h
    have hkey : (currentRow agentId d).key = old.key := by
      rw [hrow]
      exact congrArg (Prod.mk agentId) (hru d' hd').symm
    refine ⟨?_, ?_, ?_⟩
    · have h := hlea.insert d.finding.observedAt
      rwa [min_comm] at h
    · have h := hgr.insert d.finding.observedAt
      rwa [max_comm] at h
    rw [Option.elim_some, merge_eq hkey]
    by_cases hlat : (currentRow agentId d).lastObservedAt > old.lastObservedAt
    · rw [if_pos hlat]
      exact ⟨d, mem_append_right _ mem_cons_self, rfl, rfl⟩
    · rw [if_neg hlat]
      refine ⟨d', mem_append_left _ hd', hla, ?_⟩
      rw [hrow]

structure Describes (agentId : String) (db₀ : Db) (ds : List Delivery) (db : Db) : Prop where
  agents : db.agents = db₀.agents
  partitions : db.partitions = db₀.partitions
  fits : ∀ d ∈ ds, Fits db agentId d.finding
  history : ∀ k, k ∈ db.findings.rows.map FindingRow.key ↔
    k ∈ db₀.findings.rows.map FindingRow.key ∨ k ∈ ds.map fun d => d.finding.historyKey
  current : ∀ rule, Summarises agentId (ds.filter fun d => d.finding.rule = rule)
    (db.currentFindings.get? (agentId, rule))

theorem mem_keys_insertNew {t : Table FindingRow FindingRow.key} {r : FindingRow} {k : String × ℤ} :
    k ∈ (t.insertNew r).rows.map FindingRow.key ↔ k ∈ t.rows.map FindingRow.key ∨ k = r.key := by
  have hiff : ∀ t : Table FindingRow FindingRow.key, k ∈ t.rows.map FindingRow.key ↔ t.get? k ≠ none := fun t => by
    rw [ne_eq, get?_eq_none_iff, not_not]
  rw [hiff, hiff, get?_insertNew]
  by_cases hk : r.key = k
  · simp [hk]
  · simp [hk, Ne.symm hk]

theorem key_currentRow (agentId : String) (d : Delivery) : (currentRow agentId d).key = (agentId, d.finding.rule) := rfl

theorem get?_put (db : Db) (agentId : String) (d : Delivery) (rule : String × String) :
    (put db agentId d).currentFindings.get? (agentId, rule) =
      if d.finding.rule = rule then
        some ((db.currentFindings.get? (agentId, rule)).elim (currentRow agentId d)
          fun old => merge old (currentRow agentId d))
      else db.currentFindings.get? (agentId, rule) := by
  rw [put, get?_upsert, key_currentRow]
  by_cases h : d.finding.rule = rule
  · rw [if_pos h, if_pos (congrArg (Prod.mk agentId) h)]
  · rw [if_neg h, if_neg fun h' => h (Prod.mk.inj h').2]

theorem Fits.put {f : StoredFinding} (h : Fits db agentId f) (d : Delivery) : Fits (put db agentId d) agentId f := by
  refine ⟨h.partition, h.confidence, ?_⟩
  rw [get?_put]
  split_ifs
  · exact .inl (Option.some_ne_none _)
  · exact h.agent

variable {db₀ : Db}

/-- **One finding** is added to what the store describes. -/
theorem describes_put (h : Describes agentId db₀ ds db) (hft : Fits db agentId d.finding) :
    Describes agentId db₀ (ds ++ [d]) (put db agentId d) where
  agents := h.agents
  partitions := h.partitions
  fits d' hd' := by
    rcases mem_append.mp hd' with hd' | hd'
    · exact (h.fits d' hd').put d
    · rw [mem_singleton.mp hd']
      exact hft.put d
  history k := by
    rw [put, mem_keys_insertNew, h.history, map_append, mem_append, map_singleton, mem_singleton, or_assoc]
    rfl
  current rule := by
    rw [get?_put, filter_append]
    by_cases hru : d.finding.rule = rule
    · rw [if_pos hru, filter_cons_of_pos (by simpa using hru), filter_nil]
      refine summarises_append (h.current rule) fun d' hd' => ?_
      exact (of_decide_eq_true (mem_filter.mp hd').2).trans hru.symm
    · rw [if_neg hru, filter_cons_of_neg (by simpa using hru), filter_nil, append_nil]
      exact h.current rule

def deliveries (findings : List StoredFinding) (origin : Origin) (now : Time) : List Delivery :=
  findings.map fun f => ⟨f, origin, now⟩

variable {findings : List StoredFinding}

/-- **A batch** that is stored is added to what the store describes. -/
theorem describes_foldlM {origin : Origin} {now : Time} {acc acc' : Db × ℕ} (h : Describes agentId db₀ ds acc.1)
    (hok : findings.foldlM (storeFinding agentId origin now) acc = .ok acc') :
    Describes agentId db₀ (ds ++ deliveries findings origin now) acc'.1 := by
  induction findings generalizing acc ds with
  | nil =>
    cases hok
    rwa [deliveries, map_nil, append_nil]
  | cons f findings ih =>
    rw [foldlM_cons] at hok
    cases hst : storeFinding agentId origin now acc f with
    | error e => rw [hst] at hok; cases hok
    | ok acc₁ =>
      rw [hst] at hok
      obtain ⟨hft, rfl⟩ := (storeFinding_eq_ok_iff (d := ⟨f, origin, now⟩)).mp hst
      have := ih (describes_put h hft) hok
      rwa [append_assoc] at this

/-! ### Every order, split and repetition -/

structure Batch where
  findings : List StoredFinding
  origin : Origin
  now : Time

/-- A run of batches of one agent; one that fails is rolled back. -/
def deliver (agentId : String) : Db → List Batch → Db × List Delivery
  | db, [] => (db, [])
  | db, b :: bs =>
    match storeFindings db agentId b.findings b.origin b.now with
    | .ok (db', _) =>
      let (db'', ds) := deliver agentId db' bs
      (db'', deliveries b.findings b.origin b.now ++ ds)
    | .error _ => deliver agentId db bs

/-- **A run of batches** is added to what the store describes. -/
theorem describes_deliver (h : Describes agentId db₀ ds db) (bs : List Batch) :
    Describes agentId db₀ (ds ++ (deliver agentId db bs).2) (deliver agentId db bs).1 := by
  induction bs generalizing db ds with
  | nil => rwa [deliver, append_nil]
  | cons b bs ih =>
    rw [deliver]
    cases hb : storeFindings db agentId b.findings b.origin b.now with
    | error e => exact ih h
    | ok acc =>
      have := ih (describes_foldlM h hb)
      rwa [append_assoc] at this

theorem describes_nil (hfrs : ∀ r ∈ db.currentFindings.rows, r.agentId ≠ agentId) : Describes agentId db [] db where
  agents := rfl
  partitions := rfl
  fits d hd := absurd hd not_mem_nil
  history k := by simp
  current rule := by
    cases h : db.currentFindings.get? (agentId, rule) with
    | none => rfl
    | some r =>
      obtain ⟨hr, hkey⟩ := get?_eq_some_iff.mp h
      exact absurd (Prod.mk.inj hkey).1 (hfrs r hr)

theorem put_eq_self (h : Describes agentId db₀ ds db) (hd : d ∈ ds) (d' : Delivery) (hsm : d'.finding = d.finding) :
    put db agentId d' = db ∧ isNew db d'.finding = 0 := by
  have hhist : d'.finding.historyKey ∈ db.findings.rows.map FindingRow.key :=
    (h.history _).mpr (.inr (mem_map.mpr ⟨d, hd, congrArg _ hsm.symm⟩))
  refine ⟨?_, by rw [isNew, if_pos hhist]⟩
  have hins : db.findings.insertNew (findingRow agentId d') = db.findings := by
    rw [Table.insertNew]
    exact dif_pos hhist
  have hmem : d ∈ ds.filter fun e => e.finding.rule = d'.finding.rule := mem_filter.mpr ⟨hd, by simp [hsm]⟩
  have hcur := h.current d'.finding.rule
  cases hrow : db.currentFindings.get? (agentId, d'.finding.rule) with
  | none =>
    rw [hrow] at hcur
    rw [show _ = [] from hcur] at hmem
    exact absurd hmem not_mem_nil
  | some old =>
    rw [hrow] at hcur
    obtain ⟨hlea, hgr, -⟩ := hcur
    have htm : d'.finding.observedAt ∈ times (ds.filter fun e => e.finding.rule = d'.finding.rule) :=
      ⟨d, hmem, congrArg _ hsm.symm⟩
    have hkey : (currentRow agentId d').key = old.key := (key_of_get? hrow).symm
    have hla : ¬(currentRow agentId d').lastObservedAt > old.lastObservedAt := not_lt.mpr (hgr.2 htm)
    have hmer : merge old (currentRow agentId d') = old := by
      rw [merge_eq hkey, if_neg hla]
      show { old with firstObservedAt := min old.firstObservedAt d'.finding.observedAt } = old
      rw [min_eq_left (hlea.2 htm)]
    rw [put, hins, upsert_eq_self (by rwa [key_currentRow]) hmer]

/-- **A redelivery** of findings that were delivered before changes nothing. -/
theorem storeFindings_redelivered (h : Describes agentId db₀ ds db) (hall : ∀ f ∈ findings, ∃ d ∈ ds, d.finding = f)
    (origin : Origin) (now : Time) (n : ℕ) :
    findings.foldlM (storeFinding agentId origin now) (db, n) = .ok (db, n) := by
  induction findings with
  | nil => rfl
  | cons f findings ih =>
    obtain ⟨hf, hrs⟩ := forall_mem_cons.mp hall
    obtain ⟨d, hd, rfl⟩ := hf
    obtain ⟨hput, hnew⟩ := put_eq_self h hd ⟨d.finding, origin, now⟩ rfl
    have hst : storeFinding agentId origin now (db, n) d.finding = .ok (db, n) :=
      (storeFinding_eq_ok_iff (d := ⟨d.finding, origin, now⟩)).mpr ⟨h.fits d hd, by rw [hput, hnew, Nat.add_zero]⟩
    rw [foldlM_cons, hst]
    exact ih hrs

/-- A current row against the findings of its rule: the least and the greatest observation time, and the other columns
from one observed last. -/
def IsCurrent (agentId : String) (findings : List StoredFinding) (delivered : List Delivery) :
    Option CurrentFinding → Prop
  | none => findings = []
  | some r =>
    IsLeast { t | ∃ f ∈ findings, f.observedAt = t } r.firstObservedAt ∧
    IsGreatest { t | ∃ f ∈ findings, f.observedAt = t } r.lastObservedAt ∧
    ∃ d ∈ delivered, d.finding ∈ findings ∧ d.finding.observedAt = r.lastObservedAt ∧
      r = { currentRow agentId d with firstObservedAt := r.firstObservedAt }

theorem isCurrent_of_summarises (hall : ∀ f, f ∈ findings ↔ ∃ d ∈ ds, d.finding = f) {rule : String × String}
    (h : Summarises agentId (ds.filter fun d => d.finding.rule = rule) row) :
    IsCurrent agentId (findings.filter fun f => f.rule = rule) ds row := by
  cases row with
  | none =>
    refine filter_eq_nil_iff.mpr fun f hf hru => ?_
    obtain ⟨d, hd, rfl⟩ := (hall f).mp hf
    exact filter_eq_nil_iff.mp h d hd hru
  | some r =>
    have htim : { t | ∃ f ∈ findings.filter fun f => f.rule = rule, f.observedAt = t } =
        times (ds.filter fun d => d.finding.rule = rule) := by
      ext t
      simp only [times, mem_filter, hall, Set.mem_ofPred_eq]
      constructor
      · rintro ⟨f, ⟨⟨d, hd, rfl⟩, hru⟩, rfl⟩
        exact ⟨d, ⟨hd, hru⟩, rfl⟩
      · rintro ⟨d, ⟨hd, hru⟩, rfl⟩
        exact ⟨d.finding, ⟨⟨d, hd, rfl⟩, hru⟩, rfl⟩
    obtain ⟨hlea, hgr, d, hd, hla, hrow⟩ := h
    obtain ⟨hd, hru⟩ := mem_filter.mp hd
    rw [IsCurrent, htim]
    exact ⟨hlea, hgr, d, hd, mem_filter.mpr ⟨(hall _).mpr ⟨d, hd, rfl⟩, hru⟩, hla, hrow⟩

/-- **Finding delivery is order-independent and idempotent**: the history has each (finding id, day) once; the current
row of each rule has the least and the greatest observation time, and all its other columns from one delivery of a
finding observed last; and delivering any of them again changes nothing. -/
theorem delivery_order_independent (agentId : String) (db : Db)
    (hfrs : ∀ r ∈ db.currentFindings.rows, r.agentId ≠ agentId) (findings : List StoredFinding) (bs : List Batch)
    (hall : ∀ f, f ∈ findings ↔ ∃ d ∈ (deliver agentId db bs).2, d.finding = f) :
    (∀ k, ((deliver agentId db bs).1.findings.rows.map FindingRow.key).count k =
      if k ∈ db.findings.rows.map FindingRow.key ∨ k ∈ findings.map StoredFinding.historyKey then 1 else 0) ∧
    (∀ rule, IsCurrent agentId (findings.filter fun f => f.rule = rule) (deliver agentId db bs).2
      ((deliver agentId db bs).1.currentFindings.get? (agentId, rule))) ∧
    (∀ again ⊆ findings, ∀ origin now,
      storeFindings (deliver agentId db bs).1 agentId again origin now = .ok ((deliver agentId db bs).1, 0)) := by
  have h := describes_deliver (describes_nil hfrs) bs
  rw [nil_append] at h
  generalize deliver agentId db bs = result at h hall ⊢
  obtain ⟨db', ds⟩ := result
  dsimp only at h hall ⊢
  refine ⟨fun k => ?_, fun rule => ?_, fun again hagn origin now => ?_⟩
  · have hiff : k ∈ db'.findings.rows.map FindingRow.key ↔
        k ∈ db.findings.rows.map FindingRow.key ∨ k ∈ findings.map StoredFinding.historyKey := by
      rw [h.history]
      refine or_congr_right ?_
      rw [mem_map, mem_map]
      constructor
      · rintro ⟨d, hd, rfl⟩
        exact ⟨d.finding, (hall _).mpr ⟨d, hd, rfl⟩, rfl⟩
      · rintro ⟨f, hf, rfl⟩
        obtain ⟨d, hd, rfl⟩ := (hall f).mp hf
        exact ⟨d, hd, rfl⟩
    rw [db'.findings.nodup.count]
    exact if_congr hiff rfl rfl
  · exact isCurrent_of_summarises hall (h.current rule)
  · exact storeFindings_redelivered h (fun f hf => (hall f).mp (hagn hf)) origin now 0

def sampleFinding (id message : String) (observedAt : Time) : StoredFinding :=
  ⟨none, id, "s", "rules", "r", 1, observedAt, .high, 90, message, []⟩

def sampleDb : Db := ⟨["h"], [(0, 10)], .empty, .empty⟩

/-- Two findings of a rule, the later one first, and then both again from a file. -/
def sampleBatches : List Batch :=
  [⟨[sampleFinding "f2" "later" 20], .online, 30⟩, ⟨[sampleFinding "f1" "earlier" 10], .online, 31⟩,
    ⟨[sampleFinding "f1" "earlier" 10, sampleFinding "f2" "later" 20], .imported, 32⟩]

theorem delivery_order_independent_sample :
    IsCurrent "h" [sampleFinding "f1" "earlier" 10, sampleFinding "f2" "later" 20]
      (deliver "h" sampleDb sampleBatches).2
      ((deliver "h" sampleDb sampleBatches).1.currentFindings.get? ("h", "rules", "r")) ∧
    ((deliver "h" sampleDb sampleBatches).1.currentFindings.get? ("h", "rules", "r")).map
      (fun r => (r.firstObservedAt, r.lastObservedAt, r.message, r.origin)) = some (10, 20, "later", .online) := by
  have hds : (deliver "h" sampleDb sampleBatches).2 =
      [⟨sampleFinding "f2" "later" 20, .online, 30⟩, ⟨sampleFinding "f1" "earlier" 10, .online, 31⟩,
        ⟨sampleFinding "f1" "earlier" 10, .imported, 32⟩, ⟨sampleFinding "f2" "later" 20, .imported, 32⟩] := rfl
  refine ⟨?_, rfl⟩
  refine (delivery_order_independent "h" sampleDb (fun _ hr => absurd hr not_mem_nil)
    [sampleFinding "f1" "earlier" 10, sampleFinding "f2" "later" 20] sampleBatches fun f => ?_).2.1 ("rules", "r")
  rw [hds]
  simp only [mem_cons, not_mem_nil, or_false, exists_eq_or_imp, exists_eq_left]
  tauto

end OpenVibes.Store.Findings
