import OpenVibes.Store.Schema
import OpenVibes.Theory.Compare

/-!
# Finding changes

`crates/platform-store/src/finding_changes.rs`: an agent reports its rule matches as change sets, each with the digest
of the open matches that it starts from and of those it leads to; a heartbeat has the current one, and a difference
makes the agent send all its matches again. The state is one agent's. `match_digest` is a parameter that depends only
on the set of matches.
-/

namespace OpenVibes.Store.FindingChanges

open Theory List Option Std Table

/-! ### Data -/

inductive Severity where
  | info
  | low
  | medium
  | high
  | critical
deriving DecidableEq

abbrev Key := String × String

structure Match where
  (ruleSetId ruleId : String)
  ruleVersion : ℤ
  severity : Severity
  message : String
  evidence : List String

structure StoredFinding where
  (findingId scanId : String)
  observedAt : Time
  confidence : ℕ
  seen : Match

/-- `wire_key`. -/
def StoredFinding.key (f : StoredFinding) : Key := (f.seen.ruleSetId, f.seen.ruleId)

inductive Source where
  | scan
  | changes
deriving DecidableEq

structure CurrentFinding where
  seen : Match
  (lastFindingId scanId : String)
  confidence : ℕ
  (firstObservedAt lastObservedAt : Time)
  source : Source
  /-- When it ended, on the agent's clock; `none` while it is open. -/
  endedAt : Option Time
  endApproximate : Bool
  endRecordedAt : Option Time

def CurrentFinding.key (r : CurrentFinding) : Key := (r.seen.ruleSetId, r.seen.ruleId)

abbrev CurrentFindings := Table CurrentFinding CurrentFinding.key

structure Ended where
  key : Key
  endedAt : Time

/-- A `FindingChanges` document; a digest that is not hexadecimal is `none`. -/
structure Document where
  base : Option Sha256
  sha256 : Option Sha256
  replace : Bool
  scannedAt : Time
  started : List StoredFinding
  changed : List StoredFinding
  ended : List Ended
  /-- Matches that started and ended since the last report. -/
  transient : List (StoredFinding × Time)

structure Note where
  key : Key
  changedAt : Time

structure AgentState where
  matchSha256 : Option Sha256
  healthAt : Option Time
  /-- The rule sets the stored health report lists as `not_assigned`. -/
  (notAssigned assignable : List String)
  findings : CurrentFindings
  notes : List Note

def AgentState.empty : AgentState := ⟨none, none, [], [], .empty, []⟩

/-! ### The program -/

abbrev OpenMap := TreeMap Key Match (cmpProd compare compare)

def openMatch (r : CurrentFinding) : Option Match :=
  if r.source = .changes ∧ r.endedAt = none then some r.seen else none

def openMap (t : CurrentFindings) : OpenMap :=
  t.rows.foldl (fun m r => match openMatch r with
    | some f => m.insert r.key f
    | none => m) ∅

/-- The loops over `started` and `changed` (`present`: each must be open); `none` is `Resync`. -/
def insertEach (present : Bool) (m : OpenMap) (fs : List StoredFinding) : Option OpenMap :=
  fs.foldlM (fun m f => if m.contains f.key = present then some (m.insert f.key f.seen) else none) m

def removeEach (m : OpenMap) (es : List Ended) : Option OpenMap :=
  es.foldlM (fun m e => if m.contains e.key then some (m.erase e.key) else none) m

abbrev End := Key × Time × Bool

/-- The open matches the document leads to, and what ends; `none` is `Resync`. -/
def nextOpen (doc : Document) (m : OpenMap) : Option (OpenMap × List End) :=
  if doc.replace then
    let next : OpenMap := doc.started.foldl (fun m f => m.insert f.key f.seen) ∅
    some (next, (m.keys.filter fun k => !next.contains k).map fun k => (k, doc.scannedAt, true))
  else do
    let m ← insertEach false m doc.started
    let m ← insertEach true m doc.changed
    let m ← removeEach m doc.ended
    return (m, doc.ended.map fun e => (e.key, e.endedAt, false))

/-- The row `store_findings_in` inserts: `source` and the end have their defaults. -/
def StoredFinding.row (f : StoredFinding) : CurrentFinding where
  seen := f.seen
  lastFindingId := f.findingId
  scanId := f.scanId
  confidence := f.confidence
  firstObservedAt := f.observedAt
  lastObservedAt := f.observedAt
  source := .scan
  endedAt := none
  endApproximate := false
  endRecordedAt := none

/-- Its `ON CONFLICT … DO UPDATE`: a later observation replaces the content. -/
def CurrentFinding.observe (old new : CurrentFinding) : CurrentFinding :=
  if new.lastObservedAt > old.lastObservedAt then
    { old with
      seen := { new.seen with ruleSetId := old.seen.ruleSetId, ruleId := old.seen.ruleId }
      lastFindingId := new.lastFindingId
      scanId := new.scanId
      confidence := new.confidence
      firstObservedAt := min old.firstObservedAt new.firstObservedAt
      lastObservedAt := new.lastObservedAt }
  else { old with firstObservedAt := min old.firstObservedAt new.firstObservedAt }

theorem key_observe (old new : CurrentFinding) : (old.observe new).key = old.key := by
  rw [CurrentFinding.observe]
  split_ifs <;> rfl

/-- `store_findings_in`, of the current rows. -/
def storeFindings (t : CurrentFindings) (fs : List StoredFinding) :
    CurrentFindings :=
  fs.foldl (fun t f => t.upsert CurrentFinding.observe key_observe f.row) t

def CurrentFinding.marked (f : StoredFinding) (endedAt : Option Time) (now : Time) (r : CurrentFinding) :
    CurrentFinding :=
  { r with
    seen := { f.seen with ruleSetId := r.seen.ruleSetId, ruleId := r.seen.ruleId }
    source := .changes
    endedAt := endedAt
    endRecordedAt := endedAt.map fun _ => now
    endApproximate := false
    lastFindingId := f.findingId
    confidence := f.confidence
    scanId := f.scanId
    lastObservedAt := endedAt.getD now }

variable (f : StoredFinding)

theorem key_marked (endedAt : Option Time) (now : Time) (r : CurrentFinding) :
    (r.marked f endedAt now).key = r.key := rfl

/-- `mark`: sets a P13 match's row to the finding's content, open or ended. -/
def mark (now : Time) (t : CurrentFindings) (f : StoredFinding) (endedAt : Option Time) :
    CurrentFindings :=
  t.updateWhere (fun r => r.key = f.key) (CurrentFinding.marked f endedAt now) (key_marked f endedAt now)

def CurrentFinding.ended (at_ : Time) (approximate : Bool) (now : Time) (r : CurrentFinding) : CurrentFinding :=
  { r with endedAt := some at_, endApproximate := approximate, endRecordedAt := some now }

theorem key_ended (at_ : Time) (approximate : Bool) (now : Time) (r : CurrentFinding) :
    (r.ended at_ approximate now).key = r.key := rfl

def endMatch (now : Time) (t : CurrentFindings) (e : End) :
    CurrentFindings :=
  t.updateWhere (fun r => r.key = e.1) (CurrentFinding.ended e.2.1 e.2.2 now) (key_ended e.2.1 e.2.2 now)

def applied (doc : Document) (next : OpenMap) (ends : List End) (now : Time)
    (t : CurrentFindings) : CurrentFindings :=
  let t := storeFindings t (doc.started ++ doc.changed ++ doc.transient.map Prod.fst)
  let t := (doc.started ++ doc.changed).foldl (fun t f => mark now t f none) t
  let t := (doc.transient.filter fun x => !next.contains x.1.key).foldl (fun t x => mark now t x.1 (some x.2)) t
  ends.foldl (endMatch now) t

def CurrentFinding.refreshed (now : Time) (r : CurrentFinding) : CurrentFinding := { r with lastObservedAt := now }

variable (now : Time)

theorem key_refreshed (r : CurrentFinding) : (r.refreshed now).key = r.key := rfl

inductive Outcome where
  | stored
  | resync
deriving DecidableEq

section

variable (matchDigest : List Match → Sha256)

def AgentState.digest (s : AgentState) : Sha256 := s.matchSha256.getD (matchDigest [])

/-- `apply`: the change set is stored, or answered `Resync` with nothing stored. -/
def apply (doc : Document) (now : Time) (s : AgentState) : AgentState × Outcome :=
  match doc.base, doc.sha256 with
  | some base, some expected =>
    if !doc.replace && s.digest matchDigest ≠ base then (s, .resync)
    else
      match nextOpen doc (openMap s.findings) with
      | none => (s, .resync)
      | some (next, ends) =>
        if matchDigest (next.toList.map Prod.snd) ≠ expected then (s, .resync)
        else ({ s with
          findings := applied doc next ends now s.findings
          matchSha256 := some expected }, .stored)
  | _, _ => (s, .resync)

def hour : Time := 3600000000

/-- `heartbeat`: `true` (a replace is needed) when the digest is not the stored one; else the open P13 matches are kept
current. -/
def heartbeat (sent : Sha256) (now : Time) (s : AgentState) : AgentState × Bool :=
  if s.digest matchDigest ≠ sent then (s, true)
  else ({ s with
    findings := s.findings.updateWhere (fun r => (openMatch r).isSome ∧ r.lastObservedAt < now - hour)
      (CurrentFinding.refreshed now) (key_refreshed now) }, false)

end

/-- The assignable sets of a report that the stored report did not already list as
`not_assigned`. -/
def switched (s : AgentState) (sets : List String) : List String :=
  sets.filter fun set => set ∈ s.assignable ∧ set ∉ s.notAssigned

/-- `end_unassigned`: the open matches of the switched sets end, and every match of them that ended since the stored
report gets one note. Returns their number. -/
def endUnassigned (sets : List String) (now : Time) (s : AgentState) : AgentState × ℕ :=
  if (switched s sets).isEmpty then (s, 0)
  else
    let findings := s.findings.updateWhere (fun r => r.seen.ruleSetId ∈ switched s sets ∧ r.endedAt = none)
      (CurrentFinding.ended now true now) (key_ended now true now)
    let noted := (findings.rows.filter fun r => r.seen.ruleSetId ∈ switched s sets ∧
      r.endRecordedAt.any fun at_ => s.healthAt.getD now ≤ at_ ∧
        !(s.notes.any fun n => n.key = r.key ∧ at_ ≤ n.changedAt)).map fun r => (⟨r.key, now⟩ : Note)
    ({ s with findings, notes := s.notes ++ noted }, noted.length)

/-! ### The open matches, by key -/

def openAt (t : CurrentFindings) (k : Key) : Option Match := (t.get? k).bind openMatch

def lastOf (k : Key) : List StoredFinding → Option Match
  | [] => none
  | f :: fs => (lastOf k fs).or (if f.key = k then some f.seen else none)

theorem lastOf_append (k : Key) (fs gs : List StoredFinding) :
    lastOf k (fs ++ gs) = (lastOf k gs).or (lastOf k fs) := by
  induction fs with
  | nil => simp [lastOf]
  | cons f fs ih => rw [cons_append, lastOf, ih, lastOf, Option.or_assoc]

variable {k : Key} {fs : List StoredFinding}

theorem lastOf_eq_none_iff : lastOf k fs = none ↔ k ∉ fs.map StoredFinding.key := by
  induction fs with
  | nil => simp [lastOf]
  | cons f fs ih =>
    rw [lastOf, or_eq_none_iff, ih]
    by_cases hk : f.key = k
    · simp [hk]
    · simp [hk, Ne.symm hk]

theorem getElem?_insert_eq (m : OpenMap) (f : StoredFinding) (k : Key) :
    (m.insert f.key f.seen)[k]? = (if f.key = k then some f.seen else none).or m[k]? := by
  rw [TreeMap.getElem?_insert]
  by_cases hk : f.key = k
  · rw [if_pos (LawfulEqCmp.compare_eq_iff_eq.mpr hk), if_pos hk, some_or]
  · rw [if_neg (mt LawfulEqCmp.compare_eq_iff_eq.mp hk), if_neg hk, none_or]

theorem getElem?_openMap (t : CurrentFindings) (k : Key) : (openMap t)[k]? = openAt t k := by
  have h : ∀ (rows : List CurrentFinding) (m : OpenMap), (rows.map CurrentFinding.key).Nodup →
      (rows.foldl (fun m r => match openMatch r with
        | some f => m.insert r.key f
        | none => m) m)[k]? = ((rows.find? fun r => r.key = k).bind openMatch).or m[k]? := by
    intro rows
    induction rows with
    | nil => intro m _; rfl
    | cons r rows ih =>
      intro m hn
      obtain ⟨hr, hn⟩ := nodup_cons.mp hn
      rw [foldl_cons, ih _ hn]
      by_cases hk : r.key = k
      · have hrs : (rows.find? fun r => r.key = k) = none := by
          rw [find?_eq_none]
          intro r' hr' hk'
          exact hr (mem_map.mpr ⟨r', hr', (of_decide_eq_true hk').trans hk.symm⟩)
        rw [hrs, find?_cons_of_pos (by simpa using hk)]
        cases ho : openMatch r <;> simp [ho, hk]
      · rw [find?_cons_of_neg (by simpa using hk)]
        cases openMatch r with
        | none => rfl
        | some f =>
          rw [TreeMap.getElem?_insert, if_neg (mt LawfulEqCmp.compare_eq_iff_eq.mp hk)]
  rw [openMap, h _ _ t.nodup, openAt, Table.get?]
  simp

variable {m m' : OpenMap}

theorem getElem?_insertEach {present : Bool} (h : insertEach present m fs = some m') (k : Key) :
    m'[k]? = (lastOf k fs).or m[k]? := by
  induction fs generalizing m with
  | nil =>
    cases h
    rfl
  | cons f fs ih =>
    rw [insertEach, foldlM_cons] at h
    split_ifs at h
    · rw [ih h, getElem?_insert_eq, lastOf, Option.or_assoc]
    · cases h

theorem getElem?_replace (fs : List StoredFinding) (m : OpenMap) (k : Key) :
    (fs.foldl (fun m f => m.insert f.key f.seen) m)[k]? = (lastOf k fs).or m[k]? := by
  induction fs generalizing m with
  | nil => rfl
  | cons f fs ih => rw [foldl_cons, ih, getElem?_insert_eq, lastOf, Option.or_assoc]

theorem getElem?_removeEach {es : List Ended} (h : removeEach m es = some m') (k : Key) :
    m'[k]? = if k ∈ es.map Ended.key then none else m[k]? := by
  induction es generalizing m with
  | nil =>
    cases h
    rfl
  | cons e es ih =>
    rw [removeEach, foldlM_cons] at h
    split_ifs at h
    · rw [ih h, TreeMap.getElem?_erase]
      by_cases hk : e.key = k
      · simp [hk]
      · simp [hk, Ne.symm hk, LawfulEqCmp.compare_eq_iff_eq]
    · cases h

/-! ### The rows, by key -/

theorem get?_mark (t : CurrentFindings) (f : StoredFinding) (endedAt : Option Time) (k : Key) :
    (mark now t f endedAt).get? k =
      if f.key = k then (t.get? k).map (CurrentFinding.marked f endedAt now) else t.get? k :=
  get?_updateWhere_key ..

theorem get?_endMatch (t : CurrentFindings) (e : End) (k : Key) : (endMatch now t e).get? k =
      if e.1 = k then (t.get? k).map (CurrentFinding.ended e.2.1 e.2.2 now) else t.get? k :=
  get?_updateWhere_key ..

theorem key_row : f.row.key = f.key := rfl

variable {t : CurrentFindings}

theorem get?_storeFindings_of_not_mem (h : k ∉ fs.map StoredFinding.key) : (storeFindings t fs).get? k = t.get? k := by
  induction fs generalizing t with
  | nil => rfl
  | cons f fs ih =>
    rw [map_cons, mem_cons, not_or] at h
    rw [storeFindings, foldl_cons, ← storeFindings, ih h.2, get?_upsert, key_row, if_neg (Ne.symm h.1)]

theorem isSome_storeFindings (h : k ∈ fs.map StoredFinding.key ∨ (t.get? k).isSome) :
    ((storeFindings t fs).get? k).isSome := by
  induction fs generalizing t with
  | nil => simpa [storeFindings] using h
  | cons f fs ih =>
    rw [storeFindings, foldl_cons, ← storeFindings]
    refine ih ?_
    rw [get?_upsert]
    by_cases hk : f.row.key = k
    · exact .inr (by rw [if_pos hk]; rfl)
    rw [if_neg hk]
    rw [map_cons, mem_cons] at h
    rcases h with (h | h) | h
    · exact absurd h.symm hk
    · exact .inl h
    · exact .inr h

theorem openAt_marks (h : ∀ f ∈ fs, (t.get? f.key).isSome) (k : Key) :
    openAt (fs.foldl (fun t f => mark now t f none) t) k = (lastOf k fs).or (openAt t k) := by
  induction fs generalizing t with
  | nil => rfl
  | cons f fs ih =>
    rw [foldl_cons, ih, lastOf, Option.or_assoc]
    · congr 1
      rw [openAt, get?_mark]
      by_cases hk : f.key = k
      · obtain ⟨r, hr⟩ := isSome_iff_exists.mp (h f mem_cons_self)
        rw [hk] at hr
        rw [if_pos hk, if_pos hk, hr]
        have hkey : r.key = f.key := (key_of_get? hr).trans hk.symm
        obtain ⟨hset, hru⟩ := Prod.mk.inj hkey
        simp [openMatch, CurrentFinding.marked, hset, hru]
      · rw [if_neg hk, if_neg hk, none_or]
        rfl
    · intro g hg
      rw [get?_mark]
      split_ifs
      · rw [isSome_map]
        exact h g (mem_cons_of_mem _ hg)
      · exact h g (mem_cons_of_mem _ hg)

theorem openAt_ends {α : Type} {step : CurrentFindings → α → CurrentFindings}
    {keyOf : α → Key} {act : α → CurrentFinding → CurrentFinding}
    (h : ∀ t x k, (step t x).get? k = if keyOf x = k then (t.get? k).map (act x) else t.get? k)
    (hact : ∀ x r, openMatch (act x r) = none) (t : CurrentFindings) (xs : List α) (k : Key) :
    openAt (xs.foldl step t) k = if k ∈ xs.map keyOf then none else openAt t k := by
  induction xs generalizing t with
  | nil => rfl
  | cons x xs ih =>
    rw [foldl_cons, ih, openAt, h]
    by_cases hk : keyOf x = k
    · have hnn : ((t.get? k).map (act x)).bind openMatch = none := by
        cases t.get? k with
        | none => rfl
        | some r => exact hact x r
      simp [hk, hnn]
    · simp [hk, Ne.symm hk, openAt]

/-! ### A change set -/

/-- A replace lists all open matches as started, and changes none. -/
def Document.WellFormed (doc : Document) : Prop := doc.replace → doc.changed = []

/-- No transient is of a match that was open before and stays open untouched. -/
def Document.TransientsApart (doc : Document) (s : AgentState) : Prop :=
  ∀ next ends, nextOpen doc (openMap s.findings) = some (next, ends) →
    ∀ x ∈ doc.transient, next.contains x.1.key → x.1.key ∈ (doc.started ++ doc.changed).map StoredFinding.key

variable {doc : Document} {next : OpenMap} {ends : List End}

theorem getElem?_nextOpen (hdoc : doc.WellFormed) (h : nextOpen doc m = some (next, ends)) (k : Key) :
    next[k]? = if k ∈ ends.map Prod.fst then none else (lastOf k (doc.started ++ doc.changed)).or m[k]? := by
  rw [nextOpen] at h
  split_ifs at h with hr
  · cases h
    have hnx : (doc.started.foldl (fun m f => m.insert f.key f.seen) (∅ : OpenMap))[k]? = lastOf k doc.started := by
      simpa using getElem?_replace doc.started ∅ k
    have hen : (.fst ∘ fun k => ((k, doc.scannedAt, true) : End)) = id := rfl
    rw [hdoc hr, append_nil, List.map_map, hen, List.map_id, hnx]
    simp only [mem_filter, TreeMap.mem_keys, TreeMap.mem_iff_isSome_getElem?,
      TreeMap.contains_eq_isSome_getElem?, hnx]
    cases lastOf k doc.started <;> cases m[k]? <;> rfl
  · obtain ⟨m₁, h₁, h⟩ := bind_eq_some_iff.mp h
    obtain ⟨m₂, h₂, h⟩ := bind_eq_some_iff.mp h
    obtain ⟨m₃, h₃, h⟩ := bind_eq_some_iff.mp h
    cases h
    have hen : (.fst ∘ fun e : Ended => ((e.key, e.endedAt, false) : End)) = Ended.key := rfl
    rw [getElem?_removeEach h₃, getElem?_insertEach h₂, getElem?_insertEach h₁, List.map_map, hen, lastOf_append,
      Option.or_assoc]

variable {s : AgentState}

/-- **After a change set was stored, the open rows are the matches whose digest was
checked.** -/
theorem openAt_applied (hdoc : doc.WellFormed) (hapr : doc.TransientsApart s)
    (h : nextOpen doc (openMap s.findings) = some (next, ends)) (now : Time) (k : Key) :
    openAt (applied doc next ends now s.findings) k = next[k]? := by
  have hexs : ∀ f ∈ doc.started ++ doc.changed,
      ((storeFindings s.findings (doc.started ++ doc.changed ++ doc.transient.map Prod.fst)).get? f.key).isSome :=
    fun f hf => isSome_storeFindings (.inl (mem_map_of_mem (mem_append_left _ hf)))
  rw [applied, openAt_ends (get?_endMatch now) fun e r => by simp [openMatch, CurrentFinding.ended],
    openAt_ends (fun t x k => get?_mark now t x.1 (some x.2) k) fun x r => by simp [openMatch, CurrentFinding.marked],
    openAt_marks now hexs]
  have hnx := getElem?_nextOpen hdoc h k
  rw [getElem?_openMap] at hnx
  by_cases hen : k ∈ ends.map Prod.fst
  · rw [if_pos hen] at hnx ⊢
    exact hnx.symm
  rw [if_neg hen] at hnx ⊢
  split_ifs with htrn
  · obtain ⟨x, hx, rfl⟩ := mem_map.mp htrn
    have hout := (mem_filter.mp hx).2
    rw [Bool.not_eq_true', TreeMap.contains_eq_isSome_getElem?, isSome_eq_false_iff, isNone_iff_eq_none] at hout
    exact hout.symm
  rw [hnx]
  cases hla : lastOf k (doc.started ++ doc.changed) with
  | some f => rfl
  | none =>
    have hla := lastOf_eq_none_iff.mp hla
    have hunt : k ∉ (doc.started ++ doc.changed ++ doc.transient.map Prod.fst).map StoredFinding.key := by
      rw [map_append, mem_append, not_or, List.map_map]
      refine ⟨hla, fun hk => ?_⟩
      obtain ⟨x, hx, rfl⟩ := mem_map.mp hk
      by_cases hin : next.contains x.1.key
      · exact hla (hapr next ends h x hx hin)
      · exact htrn (mem_map.mpr ⟨x, mem_filter.mpr ⟨hx, by rw [Bool.eq_false_iff.mpr hin]; rfl⟩, rfl⟩)
    rw [openAt, get?_storeFindings_of_not_mem hunt, openAt]

/-! ### Runs -/

/-- The match of a P13 row that is open, or that the platform ended since the last stored change set. -/
def acknowledge (ended : List Key) (r : CurrentFinding) : Option Match :=
  if r.source = .changes ∧ (r.endedAt = none ∨ r.key ∈ ended) then some r.seen else none

def acknowledged (ended : List Key) (t : CurrentFindings) : List Match :=
  t.rows.filterMap (acknowledge ended)

def openMatches (t : CurrentFindings) : List Match := t.rows.filterMap openMatch

inductive Op where
  | apply (doc : Document) (now : Time)
  | heartbeat (sent : Sha256) (now : Time)
  | endUnassigned (sets : List String) (now : Time)
  | report (notAssigned : List String) (now : Time)
  | assign (sets : List String)

/-- The agent's state, with the matches `end_unassigned` ended since the last stored change
set. -/
structure Sys where
  state : AgentState
  /-- What `end_unassigned` ended since the last stored change set. -/
  ended : List Key

def endedNow (sets : List String) (s : AgentState) : List Key :=
  (s.findings.rows.filter fun r => (openMatch r).isSome ∧ r.seen.ruleSetId ∈ switched s sets).map CurrentFinding.key

variable {x : Sys}

section

variable (matchDigest : List Match → Sha256)

def Op.run (x : Sys) : Op → Sys
  | .apply doc now =>
    let (s, outcome) := FindingChanges.apply matchDigest doc now x.state
    ⟨s, if outcome = .stored then [] else x.ended⟩
  | .heartbeat sent now => ⟨(FindingChanges.heartbeat matchDigest sent now x.state).1, x.ended⟩
  | .endUnassigned sets now =>
    ⟨(FindingChanges.endUnassigned sets now x.state).1, x.ended ++ endedNow sets x.state⟩
  | .report notAssigned now => ⟨{ x.state with notAssigned, healthAt := some now }, x.ended⟩
  | .assign sets => ⟨{ x.state with assignable := sets }, x.ended⟩

def Op.Allowed (x : Sys) : Op → Prop
  | .apply doc _ => doc.WellFormed ∧ doc.TransientsApart x.state
  | _ => True

def Step (x y : Sys) : Prop := ∃ op : Op, op.Allowed x ∧ y = op.run matchDigest x

/-- States reached from an agent that has reported nothing. -/
def Reached (x : Sys) : Prop := Relation.ReflTransGen (Step matchDigest) ⟨.empty, []⟩ x

def IsSetDigest : Prop :=
  ∀ l l' : List Match, (∀ c, c ∈ l ↔ c ∈ l') → matchDigest l = matchDigest l'

def Agrees (x : Sys) : Prop :=
  x.state.digest matchDigest = matchDigest (acknowledged x.ended x.state.findings)

variable {matchDigest} {ended : List Key} {r : CurrentFinding}

theorem mem_acknowledged {c : Match} :
    c ∈ acknowledged ended t ↔ ∃ k, (t.get? k).bind (acknowledge ended) = some c := by
  simp only [acknowledged, mem_filterMap, bind_eq_some_iff, get?_eq_some_iff]
  constructor
  · rintro ⟨r, hr, hc⟩
    exact ⟨r.key, r, ⟨hr, rfl⟩, hc⟩
  · rintro ⟨k, r, ⟨hr, -⟩, hc⟩
    exact ⟨r, hr, hc⟩

theorem acknowledge_nil : acknowledge [] = openMatch := by
  funext r
  simp [acknowledge, openMatch]

theorem acknowledged_nil (t : CurrentFindings) : acknowledged [] t = openMatches t := by
  rw [acknowledged, acknowledge_nil, openMatches]

theorem Agrees.of_rows {y : Sys} (hd : IsSetDigest matchDigest) (h : Agrees matchDigest x)
    (hsha : y.state.matchSha256 = x.state.matchSha256)
    (hrw : ∀ k, (y.state.findings.get? k).bind (acknowledge y.ended) =
      (x.state.findings.get? k).bind (acknowledge x.ended)) :
    Agrees matchDigest y := by
  rw [Agrees, AgentState.digest, hsha]
  refine .trans h (hd _ _ fun c => ?_)
  simp [mem_acknowledged, hrw]

variable (matchDigest) in
theorem apply_cases (doc : Document) (now : Time) (s : AgentState) :
    FindingChanges.apply matchDigest doc now s = (s, .resync) ∨
      ∃ next ends, nextOpen doc (openMap s.findings) = some (next, ends) ∧
        FindingChanges.apply matchDigest doc now s =
          ({ s with
            findings := applied doc next ends now s.findings
            matchSha256 := some (matchDigest (next.toList.map Prod.snd)) }, .stored) := by
  rw [FindingChanges.apply]
  split
  · split_ifs with hbs
    · exact .inl rfl
    cases hnx : nextOpen doc (openMap s.findings) with
    | none => exact .inl rfl
    | some r =>
      obtain ⟨next, ends⟩ := r
      simp only
      split_ifs with hdig
      · exact .inl rfl
      · exact .inr ⟨next, ends, rfl, by rw [not_not.mp hdig]⟩
  · exact .inl rfl

section

variable (hd : IsSetDigest matchDigest)

include hd

theorem agrees_stored (hdoc : doc.WellFormed) (hapr : doc.TransientsApart s)
    (h : nextOpen doc (openMap s.findings) = some (next, ends)) (now : Time) :
    Agrees matchDigest ⟨{ s with
      findings := applied doc next ends now s.findings
      matchSha256 := some (matchDigest (next.toList.map Prod.snd)) }, []⟩ := by
  refine hd _ _ fun c => ?_
  have hat : ∀ k, ((applied doc next ends now s.findings).get? k).bind openMatch = next[k]? :=
    openAt_applied hdoc hapr h now
  simp only [mem_acknowledged, acknowledge_nil, hat, List.mem_map]
  constructor
  · rintro ⟨⟨k, m⟩, hm, rfl⟩
    exact ⟨k, TreeMap.mem_toList_iff_getElem?_eq_some.mp hm⟩
  · rintro ⟨k, hk⟩
    exact ⟨(k, c), TreeMap.mem_toList_iff_getElem?_eq_some.mpr hk, rfl⟩

theorem Agrees.apply (h : Agrees matchDigest x) (hdoc : doc.WellFormed)
    (hapr : doc.TransientsApart x.state) (now : Time) :
    Agrees matchDigest ((Op.apply doc now).run matchDigest x) := by
  rcases apply_cases matchDigest doc now x.state with ha | ⟨next, ends, hnx, ha⟩
  · rw [Op.run, ha]
    exact h
  · rw [Op.run, ha]
    exact agrees_stored hd hdoc hapr hnx now

theorem Agrees.heartbeat (h : Agrees matchDigest x) (sent : Sha256) (now : Time) :
    Agrees matchDigest ((Op.heartbeat sent now).run matchDigest x) := by
  simp only [Op.run, FindingChanges.heartbeat]
  split_ifs
  · exact h
  refine h.of_rows hd rfl fun k => ?_
  simp only [get?_updateWhere]
  cases x.state.findings.get? k with
  | none => rfl
  | some r =>
    simp only [map_some, bind_some]
    split_ifs <;> rfl

end

theorem mem_endedNow (hr : s.findings.get? k = some r) (sets : List String) :
    k ∈ endedNow sets s ↔ (openMatch r).isSome ∧ r.seen.ruleSetId ∈ switched s sets := by
  obtain ⟨hmem, hk⟩ := get?_eq_some_iff.mp hr
  simp only [endedNow, List.mem_map, mem_filter, decide_eq_true_eq]
  constructor
  · rintro ⟨r', ⟨hr', hp⟩, hk'⟩
    rw [← s.findings.eq_of_key_eq hr' hmem (hk'.trans hk.symm)]
    exact hp
  · intro hp
    exact ⟨r, ⟨hmem, hp⟩, hk⟩

theorem get?_endUnassigned (sets : List String) (now : Time) (s : AgentState) (k : Key) :
    (FindingChanges.endUnassigned sets now s).1.findings.get? k = (s.findings.get? k).map fun r =>
      if r.seen.ruleSetId ∈ switched s sets ∧ r.endedAt = none then r.ended now true now else r := by
  rw [FindingChanges.endUnassigned]
  split_ifs with hemp
  · rw [List.isEmpty_iff] at hemp
    simp [hemp]
  · simp [get?_updateWhere]

theorem acknowledge_endUnassigned {sets : List String} {now : Time}
    (hr : s.findings.get? k = some r) : acknowledge (ended ++ endedNow sets s)
      (if r.seen.ruleSetId ∈ switched s sets ∧ r.endedAt = none then r.ended now true now else r) =
        acknowledge ended r := by
  have hk := key_of_get? hr
  have hmem := mem_endedNow hr sets
  split_ifs with hen
  · by_cases hsrc : r.source = .changes
    · have hin : k ∈ endedNow sets s := hmem.mpr ⟨by simp [openMatch, hsrc, hen.2], hen.1⟩
      rw [acknowledge, acknowledge, key_ended, hk, if_pos ⟨hsrc, .inr (mem_append_right _ hin)⟩,
        if_pos ⟨hsrc, .inl hen.2⟩]
      rfl
    · simp [acknowledge, CurrentFinding.ended, hsrc]
  · have hnot : r.source = .changes → r.endedAt ≠ none → k ∉ endedNow sets s := fun _ hcld hin => by
      simp [openMatch, hcld] at hmem
      exact hmem hin
    by_cases hsrc : r.source = .changes
    · by_cases hopn : r.endedAt = none
      · simp [acknowledge, hsrc, hopn]
      · simp [acknowledge, hsrc, hopn, hk, hnot hsrc hopn]
    · simp [acknowledge, hsrc]

theorem Agrees.endUnassigned (hd : IsSetDigest matchDigest) (h : Agrees matchDigest x) (sets : List String)
    (now : Time) : Agrees matchDigest ((Op.endUnassigned sets now).run matchDigest x) := by
  refine h.of_rows hd ?_ fun k => ?_
  · simp only [Op.run, FindingChanges.endUnassigned]
    split_ifs <;> rfl
  simp only [Op.run, get?_endUnassigned]
  cases hr : x.state.findings.get? k with
  | none => rfl
  | some r => exact acknowledge_endUnassigned hr

/-- **The match digest.** In every state that is reached, the stored digest is that of the open matches together with
those `end_unassigned` ended since the last stored change set, and a heartbeat is answered without resync exactly when
it carries that digest. -/
theorem match_digest_invariant (hd : IsSetDigest matchDigest) {x : Sys} (hx : Reached matchDigest x) :
    x.state.digest matchDigest = matchDigest (acknowledged x.ended x.state.findings) ∧
    (x.ended = [] → x.state.digest matchDigest = matchDigest (openMatches x.state.findings)) ∧
    ∀ sent now, (FindingChanges.heartbeat matchDigest sent now x.state).2 = false ↔
      sent = matchDigest (acknowledged x.ended x.state.findings) := by
  have hag : Agrees matchDigest x := by
    induction hx with
    | refl => rfl
    | tail _ hst ih =>
      obtain ⟨op, hop, rfl⟩ := hst
      cases op with
      | apply doc now => exact ih.apply hd hop.1 hop.2 now
      | heartbeat sent now => exact ih.heartbeat hd sent now
      | endUnassigned sets now => exact ih.endUnassigned hd sets now
      | report | assign => exact ih
  refine ⟨hag, fun hend => ?_, fun sent now => ?_⟩
  · rw [← acknowledged_nil, ← hend]
    exact hag
  rw [← hag, FindingChanges.heartbeat]
  split_ifs with hsn
  · simpa using Ne.symm hsn
  · simpa using (not_not.mp hsn).symm

end

/-! ### A heartbeat before the agent's own end -/

def someOrNone (l : List Match) : Sha256 := if l.isEmpty then [0] else [1]

theorem someOrNone_isSetDigest : IsSetDigest someOrNone := by
  intro l l' h
  have hemp : l.isEmpty = l'.isEmpty := by
    rw [Bool.eq_iff_iff, List.isEmpty_iff, List.isEmpty_iff, eq_nil_iff_forall_not_mem, eq_nil_iff_forall_not_mem]
    simp [h]
  rw [someOrNone, someOrNone, hemp]

def firstReport : Document :=
  ⟨some [0], some [1], true, 1, [⟨"f1", "s1", 1, 100, ⟨"cis", "ssh-root", 1, .high, "root may log in", []⟩⟩], [], [],
    []⟩

/-- An assignable set, a match of it, and a report that the set is not assigned any more. -/
def lateEnd : Sys :=
  [.assign ["cis"], .apply firstReport 2, .endUnassigned ["cis"] 3].foldl (Op.run someOrNone) ⟨.empty, []⟩

theorem lateEnd_reached : Reached someOrNone lateEnd := by
  refine ((Relation.ReflTransGen.refl.tail ⟨.assign ["cis"], trivial, rfl⟩).tail
    ⟨.apply firstReport 2, ⟨fun _ => rfl, fun _ _ _ x hx => ?_⟩, rfl⟩).tail ⟨.endUnassigned ["cis"] 3, trivial, rfl⟩
  cases hx

/-- The platform ended the only match, and the stored digest is still the one with it. -/
theorem digest_after_end_unassigned :
    Reached someOrNone lateEnd ∧ openMatches lateEnd.state.findings = [] ∧
      lateEnd.state.digest someOrNone ≠ someOrNone (openMatches lateEnd.state.findings) :=
  ⟨lateEnd_reached, by decide, by decide⟩

/-- It is the digest of the match `end_unassigned` ended. -/
theorem match_digest_late_end :
    lateEnd.ended = [("cis", "ssh-root")] ∧
      lateEnd.state.digest someOrNone = someOrNone (acknowledged lateEnd.ended lateEnd.state.findings) :=
  ⟨by decide, (match_digest_invariant someOrNone_isSetDigest lateEnd_reached).1⟩

end OpenVibes.Store.FindingChanges
