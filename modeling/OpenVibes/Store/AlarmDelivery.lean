import OpenVibes.Store.Alarms

/-!
# Delivery of alarms

`insert_batch` and `hourly` of `crates/platform-store/src/alarms.rs`: reports come again, late and out of order. Batches
come one after the other, and between two of them people and suppressions change the triage of any alarm. A batch is a
function of the database it finds, which its statements (`Store.Alarms`) alone compute (`ingest_alone`).
-/

namespace OpenVibes.Store.Alarms

open Theory Rust Store.Triage List Option Bool

/-! ### `insert_batch` -/

structure HourlyRow where
  alarmRowId : ℕ
  hour : Time
  starts : ℕ

def HourlyRow.key (h : HourlyRow) : ℕ × Time := (h.alarmRowId, h.hour)

structure Db where
  dir : Directory
  suppressions : List Suppression
  partitions : List ℤ
  dropped : String → Option ℕ
  alarms : List Entry
  hourly : Table HourlyRow HourlyRow.key

/-- `date_trunc('hour', t)`. -/
def truncHour (t : Time) : Time := t - t % 3600000000

/-- `date_naive`: the number of the day. -/
def dayOf (t : Time) : ℤ := t / 86400000000

/-- `ON CONFLICT (alarm_row_id, hour) DO UPDATE`. -/
def HourlyRow.add (old new : HourlyRow) : HourlyRow := { old with starts := old.starts + new.starts }

theorem HourlyRow.key_add (old new : HourlyRow) : (old.add new).key = old.key := rfl

/-- `hourly`. -/
def Db.addStarts (db : Db) (id : ℕ) (now : Time) (starts : ℕ) : Db :=
  { db with hourly := db.hourly.upsert HourlyRow.add HourlyRow.key_add ⟨id, truncHour now, starts⟩ }

def Db.startsOf (db : Db) (id : ℕ) : ℕ := (db.hourly.rows.map fun h => if h.alarmRowId = id then h.starts else 0).sum

def Db.modify (db : Db) (id : ℕ) (f : Entry → Entry) : Db := { db with alarms := db.alarms.modify id f }

def Db.accepts (db : Db) (alarm : StoredAlarm) : Bool :=
  0 < alarm.count && alarm.firstSeen ≤ alarm.lastSeen && db.partitions.contains (dayOf alarm.firstSeen)

def raiseKnown (b : Batch) (s : Db × Stored) (alarm : StoredAlarm) (known : Known) : Db × Stored :=
  let db := s.1.modify known.id (raise alarm)
  let db := if known.count < alarm.count then db.addStarts known.id b.now (alarm.count - known.count) else db
  let db := if reopens alarm known then
      db.modify known.id fun e => record ⟨some known.state, .open, none, none, some "recurred", b.now, ingestActor⟩
        (reopen b.now e)
    else db
  (db, { s.2 with raised := s.2.raised + 1 })

def storeNew (b : Batch) (s : Db × Stored) (alarm : StoredAlarm) : Db × Stored :=
  let suppression := b.suppressions.find? fun s => s.matches b.agentId alarm
  let id := s.1.alarms.length
  let db := { s.1 with alarms := s.1.alarms ++ [newEntry b.agentId suppression alarm b.now] }
  let db := db.addStarts id b.now alarm.count
  let done := { s.2 with stored := s.2.stored + 1 }
  match arrival suppression alarm with
  | (state, some note) =>
    (db.modify id (record ⟨none, state, none, none, some note, b.now, ingestActor⟩),
      if suppression.isSome then { done with suppressed := done.suppressed + 1 } else done)
  | (_, none) => (db, done)

def insertOne (b : Batch) (s : Db × Stored) (alarm : StoredAlarm) : Option (Db × Stored) :=
  match lookup (Rows.settled s.1.alarms) b.agentId alarm b.now with
  | some known => some (if ignored alarm known then s else raiseKnown b s alarm known)
  | none => if s.1.accepts alarm then some (storeNew b s alarm) else none

/-- The first statement of `insert_batch`: the largest number of dropped alarms that an agent reported. -/
def Db.keepDropped (db : Db) (agentId : String) (droppedTotal : ℕ) : Db :=
  if (db.dir.hosts.get? agentId).isSome then
    { db with dropped := Function.update db.dropped agentId (some (max ((db.dropped agentId).getD 0) droppedTotal)) }
  else db

def Db.batch (db : Db) (agentId : String) (alarms : List StoredAlarm) (now : Time) : Batch :=
  ⟨agentId, now, activeSuppressions db.dir db.suppressions agentId alarms now⟩

/-- `insert_batch`; `none` when it fails and changes nothing. -/
def insertBatch (db : Db) (agentId : String) (droppedTotal : ℕ) (alarms : List StoredAlarm) (now : Time) :
    Option (Db × Stored) :=
  alarms.foldlM (insertOne (db.batch agentId alarms now)) (db.keepDropped agentId droppedTotal, ⟨0, 0, 0⟩)

/-! ### What a report changes -/

theorem alarms_keepDropped (db : Db) (agentId : String) (droppedTotal : ℕ) :
    (db.keepDropped agentId droppedTotal).alarms = db.alarms := by
  rw [Db.keepDropped]
  split_ifs <;> rfl

def Entry.Is (e : Entry) (agentId alarmId : String) : Prop := e.row.agentId = agentId ∧ e.row.alarm.alarmId = alarmId

def Entry.known (e : Entry) (id : ℕ) (now : Time) : Known :=
  ⟨id, e.row.alarm.count, e.row.alarm.lastSeen, e.row.triage.state, riskExpired e.row.triage now, e.row.alarm.rule⟩

variable {alarms : List Entry} {agentId : String} {alarm : StoredAlarm}

variable {now : Time} {known : Known}

theorem lookup_some (h : lookup (Rows.settled alarms) agentId alarm now = some known) :
    ∃ e, alarms[known.id]? = some e ∧ e.Is agentId alarm.alarmId ∧ known = e.known known.id now := by
  obtain ⟨k, -, hk⟩ := exists_of_findSome?_eq_some h
  rw [(Rows.shows_settled _ _).view] at hk
  obtain ⟨e, he, hk⟩ := bind_eq_some_iff.mp hk
  split_ifs at hk with hmch
  cases hk
  rw [and_eq_true, decide_eq_true_eq, decide_eq_true_eq] at hmch
  exact ⟨e, he, hmch, rfl⟩

variable {k : ℕ} {e : Entry}

theorem lookup_none (h : lookup (Rows.settled alarms) agentId alarm now = none) (he : alarms[k]? = some e) :
    ¬e.Is agentId alarm.alarmId := by
  rintro ⟨hagt, hid⟩
  have hk := findSome?_eq_none_iff.mp h k (by
    obtain ⟨hlt, -⟩ := List.getElem?_eq_some_iff.mp he
    rw [Rows.settled, length_map, mem_range]
    exact hlt)
  rw [(Rows.shows_settled _ _).view, he] at hk
  simp [hagt, hid] at hk

theorem startsOf_addStarts (db : Db) (id : ℕ) (now : Time) (starts k : ℕ) :
    (db.addStarts id now starts).startsOf k = db.startsOf k + if k = id then starts else 0 := by
  rw [Db.startsOf, Db.addStarts, Table.sum_upsert]
  · simp only [eq_comm (a := id)]
    rfl
  intro old hkey
  obtain ⟨hid, -⟩ := Prod.mk.inj hkey
  simp only [HourlyRow.add, hid]
  split_ifs <;> rfl

theorem startsOf_modify (db : Db) (id : ℕ) (f : Entry → Entry) (k : ℕ) : (db.modify id f).startsOf k = db.startsOf k :=
  rfl

def raised (b : Batch) (alarm : StoredAlarm) (known : Known) (e : Entry) : Entry :=
  if reopens alarm known then
    record ⟨some known.state, .open, none, none, some "recurred", b.now, ingestActor⟩ (reopen b.now (raise alarm e))
  else raise alarm e

def arrived (b : Batch) (alarm : StoredAlarm) : Entry :=
  let suppression := b.suppressions.find? fun s => s.matches b.agentId alarm
  let e := newEntry b.agentId suppression alarm b.now
  match arrival suppression alarm with
  | (state, some note) => record ⟨none, state, none, none, some note, b.now, ingestActor⟩ e
  | (_, none) => e

theorem alarms_raiseKnown (b : Batch) (s : Db × Stored) (alarm : StoredAlarm) (known : Known) :
    (raiseKnown b s alarm known).1.alarms = s.1.alarms.modify known.id (raised b alarm known) := by
  have hrsd : raised b alarm known = if reopens alarm known then
      (fun e => record ⟨some known.state, .open, none, none, some "recurred", b.now, ingestActor⟩ (reopen b.now e)) ∘
        raise alarm else raise alarm := by
    funext e
    rw [raised]
    split_ifs <;> rfl
  rw [raiseKnown, hrsd]
  split_ifs
  · exact modify_modify_eq _ _ _ _
  · exact modify_modify_eq _ _ _ _
  · rfl
  · rfl

variable {b : Batch} {s : Db × Stored}

theorem getElem?_raiseKnown (he : s.1.alarms[k]? = some e) (alarm : StoredAlarm) (j : ℕ) :
    (raiseKnown b s alarm (e.known k b.now)).1.alarms[j]? =
      if j = k then some (raised b alarm (e.known k b.now) e) else s.1.alarms[j]? := by
  rw [alarms_raiseKnown, getElem?_modify]
  change (fun a => if k = j then _ else a) <$> s.1.alarms[j]? = _
  by_cases hj : j = k
  · subst hj
    simp [he]
  · simp [hj, Ne.symm hj]

theorem startsOf_raiseKnown (b : Batch) (s : Db × Stored) (alarm : StoredAlarm) (known : Known) (j : ℕ) :
    (raiseKnown b s alarm known).1.startsOf j = s.1.startsOf j +
        if j = known.id then alarm.count - known.count else 0 := by
  rw [raiseKnown]
  by_cases hct : known.count < alarm.count
  · rw [if_pos hct]
    split_ifs <;> simp only [startsOf_modify, startsOf_addStarts, *, if_true, if_false]
  · have hzr : alarm.count - known.count = 0 := by omega
    rw [if_neg hct, hzr]
    split_ifs <;> simp only [startsOf_modify, add_zero]

theorem modify_length_append (alarms : List Entry) (e : Entry) (f : Entry → Entry) :
    (alarms ++ [e]).modify alarms.length f = alarms ++ [f e] := by
  induction alarms with
  | nil => rfl
  | cons a alarms ih =>
    rw [cons_append, length_cons, modify_succ_cons, ih]
    rfl

theorem alarms_storeNew (b : Batch) (s : Db × Stored) (alarm : StoredAlarm) :
    (storeNew b s alarm).1.alarms = s.1.alarms ++ [arrived b alarm] := by
  rw [storeNew, arrived]
  split
  · exact modify_length_append _ _ _
  · rfl

variable {j : ℕ}

theorem getElem?_storeNew :
    (storeNew b s alarm).1.alarms[j]? = some e ↔
      s.1.alarms[j]? = some e ∨ j = s.1.alarms.length ∧ e = arrived b alarm := by
  rw [alarms_storeNew, getElem?_append]
  split_ifs with hlt
  · exact ⟨.inl, by rintro (h | ⟨h, -⟩) <;> [exact h; omega]⟩
  rw [getElem?_eq_none (not_lt.mp hlt), getElem?_singleton]
  split_ifs with hj
  · rw [some.injEq]
    exact ⟨fun h => .inr ⟨by omega, h.symm⟩, by rintro (h | ⟨-, h⟩) <;> [cases h; exact h.symm]⟩
  · exact ⟨fun h => by (cases h), by rintro (h | ⟨h, -⟩) <;> [cases h; omega]⟩

theorem startsOf_storeNew (b : Batch) (s : Db × Stored) (alarm : StoredAlarm) (j : ℕ) :
    (storeNew b s alarm).1.startsOf j = s.1.startsOf j + if j = s.1.alarms.length then alarm.count else 0 := by
  rw [storeNew]
  split <;> simp only [startsOf_modify, startsOf_addStarts] <;> rfl

variable {s' : Db × Stored}

/-- **What a report does**: it is ignored, raises a known alarm, or stores a new one. -/
theorem insertOne_cases (h : insertOne b s alarm = some s') :
    (∃ (k : ℕ) (e : Entry), s.1.alarms[k]? = some e ∧ e.Is b.agentId alarm.alarmId ∧
      (ignored alarm (e.known k b.now) = true ∧ s' = s ∨
        ignored alarm (e.known k b.now) = false ∧ s' = raiseKnown b s alarm (e.known k b.now))) ∨
      (∀ (k : ℕ) (e : Entry), s.1.alarms[k]? = some e → ¬e.Is b.agentId alarm.alarmId) ∧ s' = storeNew b s alarm := by
  rw [insertOne] at h
  cases hlkp : lookup (.settled s.1.alarms) b.agentId alarm b.now with
  | some known =>
    rw [hlkp] at h
    obtain ⟨e, he, his, hkn⟩ := lookup_some hlkp
    cases h
    refine .inl ⟨known.id, e, he, his, ?_⟩
    rw [← hkn]
    cases hign : ignored alarm known with
    | true => exact .inl ⟨rfl, if_pos rfl⟩
    | false => exact .inr ⟨rfl, if_neg Bool.false_ne_true⟩
  | none =>
    rw [hlkp] at h
    split_ifs at h
    exact .inr ⟨fun k e he => lookup_none hlkp he, (some.inj h).symm⟩

/-! ### The statements of a batch alone -/

def Next (b : Batch) (s s' : AlarmRows × Option IngestPhase) : Prop :=
  ∃ phase, s.2 = some phase ∧ ingestStep s.1 b phase = some s'

variable {rows : AlarmRows} {f : Entry → Entry}

theorem lookup_of_shows (h : rows.Shows .ingest alarms) (agentId : String) (alarm : StoredAlarm) (now : Time) :
    lookup rows agentId alarm now = lookup (Rows.settled alarms) agentId alarm now := by
  rw [lookup, lookup]
  simp only [h.view, (Rows.shows_settled Tx.ingest alarms).view]
  rw [List.Forall₂.length_eq h, Rows.settled, length_map]

theorem next_update (h : rows.Shows .ingest alarms) (phase next : IngestPhase)
    (hst : ingestStep rows b phase = (rows.update .ingest k f).bind fun rows => some (rows, some next)) :
    ∃ rows', rows'.Shows .ingest (alarms.modify k f) ∧ Next b (rows, some phase) (rows', some next) := by
  obtain ⟨rows', hupd, hrw'⟩ := h.update k f
  exact ⟨rows', hrw', phase, rfl, by rw [hst, hupd]; rfl⟩

section

variable (h : rows.Shows .ingest s.1.alarms)

include h

theorem next_raiseKnown (alarm : StoredAlarm) (known : Known) (rest : List StoredAlarm) :
    ∃ rows', rows'.Shows .ingest (raiseKnown b s alarm known).1.alarms ∧
      Relation.ReflTransGen (Next b) (rows, some (.raising alarm known rest s.2))
        (rows', some (.looking rest (raiseKnown b s alarm known).2)) := by
  rw [alarms_raiseKnown]
  by_cases hreo : reopens alarm known = true
  · obtain ⟨rows₁, h₁, hnx₁⟩ := next_update (b := b) h (.raising alarm known rest s.2) (.reopening known rest s.2)
      (by simp only [ingestStep, if_pos hreo]; rfl)
    obtain ⟨rows₂, h₂, hnx₂⟩ := next_update (b := b) h₁ (.reopening known rest s.2) (.recording known rest s.2) rfl
    obtain ⟨rows₃, h₃, hnx₃⟩ := next_update (b := b) h₂ (.recording known rest s.2)
      (.looking rest (raiseKnown b s alarm known).2) rfl
    refine ⟨rows₃, ?_, .head hnx₁ (.head hnx₂ (.single hnx₃))⟩
    rw [modify_modify_eq, modify_modify_eq] at h₃
    have hrsd : raised b alarm known = _ := funext fun e => by rw [raised, if_pos hreo]
    rw [hrsd]
    exact h₃
  · obtain ⟨rows₁, h₁, hnx₁⟩ := next_update (b := b) h (.raising alarm known rest s.2)
      (.looking rest (raiseKnown b s alarm known).2) (by simp only [ingestStep, if_neg hreo]; rfl)
    have hrsd : raised b alarm known = raise alarm := funext fun e => by rw [raised, if_neg hreo]
    rw [hrsd]
    exact ⟨rows₁, h₁, .single hnx₁⟩

theorem next_storeNew (alarm : StoredAlarm) (rest : List StoredAlarm) :
    ∃ rows', rows'.Shows .ingest (storeNew b s alarm).1.alarms ∧
      Relation.ReflTransGen (Next b) (rows, some (.inserting alarm rest s.2))
        (rows', some (.looking rest (storeNew b s alarm).2)) := by
  have hins := h.insert (newEntry b.agentId (b.suppressions.find? fun s => s.matches b.agentId alarm) alarm b.now)
  rw [alarms_storeNew, arrived, storeNew]
  cases harr : arrival (b.suppressions.find? fun s => s.matches b.agentId alarm) alarm with
  | mk state note =>
    cases note with
    | none => exact ⟨_, hins, .single ⟨_, rfl, by simp only [ingestStep, harr]⟩⟩
    | some note =>
      obtain ⟨rows', h', hnx⟩ := next_update (b := b) hins (.noting rows.length state note _ rest _)
        (.looking rest _) rfl
      refine ⟨rows', ?_, .head ⟨_, rfl, by simp only [ingestStep, harr]⟩ (.single hnx)⟩
      rw [List.Forall₂.length_eq h, modify_length_append] at h'
      exact h'

theorem next_insertOne (hs : insertOne b s alarm = some s') (rest : List StoredAlarm) :
    ∃ rows', rows'.Shows .ingest s'.1.alarms ∧
      Relation.ReflTransGen (Next b) (rows, some (.looking (alarm :: rest) s.2)) (rows', some (.looking rest s'.2)) :=
          by
  have hlk := lookup_of_shows h b.agentId alarm b.now
  rw [insertOne] at hs
  cases hlkp : lookup (Rows.settled s.1.alarms) b.agentId alarm b.now with
  | some known =>
    rw [hlkp] at hs hlk
    cases hs
    by_cases hign : ignored alarm known = true
    · rw [if_pos hign]
      exact ⟨rows, h, .single ⟨_, rfl, by simp only [ingestStep, hlk, if_pos hign]⟩⟩
    rw [if_neg hign]
    have hst : ingestStep rows b (.looking (alarm :: rest) s.2) = some (rows, some (.raising alarm known rest s.2)) :=
        by
      simp only [ingestStep, hlk, if_neg hign]
    obtain ⟨rows', h', hnx⟩ := next_raiseKnown (b := b) h alarm known rest
    exact ⟨rows', h', .head ⟨_, rfl, hst⟩ hnx⟩
  | none =>
    rw [hlkp] at hs hlk
    split_ifs at hs
    cases hs
    have hst : ingestStep rows b (.looking (alarm :: rest) s.2) = some (rows, some (.inserting alarm rest s.2)) := by
      simp only [ingestStep, hlk]
    obtain ⟨rows', h', hnx⟩ := next_storeNew (b := b) h alarm rest
    exact ⟨rows', h', .head ⟨_, rfl, hst⟩ hnx⟩

theorem next_insertAll {alarms : List StoredAlarm} (hs : alarms.foldlM (insertOne b) s = some s') :
    ∃ rows', rows'.Shows .ingest s'.1.alarms ∧
      Relation.ReflTransGen (Next b) (rows, some (.looking alarms s.2)) (rows', some (.looking [] s'.2)) := by
  induction alarms generalizing s rows with
  | nil =>
    cases hs
    exact ⟨rows, h, .refl⟩
  | cons alarm alarms ih =>
    rw [foldlM_cons] at hs
    obtain ⟨s₁, hs₁, hs⟩ := bind_eq_some_iff.mp hs
    obtain ⟨rows₁, h₁, hnx₁⟩ := next_insertOne h hs₁ alarms
    obtain ⟨rows', h', hnx⟩ := ih h₁ hs
    exact ⟨rows', h', hnx₁.trans hnx⟩

end

variable {db : Db} {droppedTotal : ℕ}

/-- **The statements of a batch, alone, compute `insertBatch`.** -/
theorem ingest_alone {alarms : List StoredAlarm} (h : insertBatch db agentId droppedTotal alarms now = some s) :
    Relation.ReflTransGen (Next (db.batch agentId alarms now))
      (Rows.settled db.alarms, some (.looking alarms ⟨0, 0, 0⟩)) (Rows.settled s.1.alarms, none) := by
  have hsta : (.settled db.alarms : AlarmRows).Shows .ingest (db.keepDropped agentId droppedTotal).alarms := by
    rw [alarms_keepDropped]
    exact Rows.shows_settled _ _
  obtain ⟨rows', h', hnx⟩ := next_insertAll hsta h
  exact hnx.tail ⟨_, rfl, by rw [ingestStep, h'.commit]⟩

/-! ### What is stored against what was reported -/

def sameAlarm (reports : List StoredAlarm) (e : Entry) : Set StoredAlarm :=
  { r | r ∈ reports ∧ r.alarmId = e.row.alarm.alarmId ∧ r.rule = e.row.alarm.rule }

/-- A stored alarm shows its reports: the greatest count and the latest start. -/
structure Reflects (reports : List StoredAlarm) (e : Entry) : Prop where
  count : IsGreatest (StoredAlarm.count '' sameAlarm reports e) e.row.alarm.count
  lastSeen : IsGreatest (StoredAlarm.lastSeen '' sameAlarm reports e) e.row.alarm.lastSeen
  evidence : ∃ r ∈ sameAlarm reports e, r.lastSeen = e.row.alarm.lastSeen ∧ r.process = e.row.alarm.process ∧
    r.ancestors = e.row.alarm.ancestors ∧ r.detection = e.row.alarm.detection

section

variable {reports : List StoredAlarm} {e' : Entry} {id : String} {P : Json → Prop}

theorem sameAlarm_append_of_ne (h : ¬(alarm.alarmId = e.row.alarm.alarmId ∧ alarm.rule = e.row.alarm.rule)) :
    sameAlarm (reports ++ [alarm]) e = sameAlarm reports e := by
  ext r
  simp only [sameAlarm, mem_append, mem_singleton, Set.mem_ofPred_eq]
  constructor
  · rintro ⟨hr | rfl, hsm⟩
    · exact ⟨hr, hsm⟩
    · exact absurd hsm h
  · rintro ⟨hr, hsm⟩
    exact ⟨.inl hr, hsm⟩

theorem sameAlarm_append_self (h : alarm.alarmId = e.row.alarm.alarmId ∧ alarm.rule = e.row.alarm.rule) :
    sameAlarm (reports ++ [alarm]) e = insert alarm (sameAlarm reports e) := by
  ext r
  simp only [sameAlarm, mem_append, mem_singleton, Set.mem_ofPred_eq, Set.mem_insert_iff]
  constructor
  · rintro ⟨hr | rfl, hsm⟩
    · exact .inr ⟨hr, hsm⟩
    · exact .inl rfl
  · rintro (rfl | ⟨hr, hsm⟩)
    · exact ⟨.inr rfl, h⟩
    · exact ⟨.inl hr, hsm⟩

theorem Reflects.congr {reports reports' : List StoredAlarm} (h : Reflects reports e)
    (hsm : sameAlarm reports' e' = sameAlarm reports e) (hal : e'.row.alarm = e.row.alarm) :
    Reflects reports' e' := by
  refine ⟨?_, ?_, ?_⟩
  · rw [hsm, hal]
    exact h.count
  · rw [hsm, hal]
    exact h.lastSeen
  · rw [hsm, hal]
    exact h.evidence

theorem Reflects.append_of_le (h : Reflects reports e)
    (hct : alarm.count ≤ e.row.alarm.count) (hla : alarm.lastSeen ≤ e.row.alarm.lastSeen)
    (hsm : alarm.alarmId = e.row.alarm.alarmId ∧ alarm.rule = e.row.alarm.rule) :
    Reflects (reports ++ [alarm]) e := by
  refine ⟨?_, ?_, ?_⟩
  · rw [sameAlarm_append_self hsm, Set.image_insert_eq]
    have hmax := h.count.insert alarm.count
    rwa [max_eq_right hct] at hmax
  · rw [sameAlarm_append_self hsm, Set.image_insert_eq]
    have hmax := h.lastSeen.insert alarm.lastSeen
    rwa [max_eq_right hla] at hmax
  · rw [sameAlarm_append_self hsm]
    obtain ⟨r, hr, hevd⟩ := h.evidence
    exact ⟨r, Set.mem_insert_of_mem _ hr, hevd⟩

theorem sameAlarm_raise (reports : List StoredAlarm) (e : Entry) (alarm : StoredAlarm) :
    sameAlarm reports (raise alarm e) = sameAlarm reports e := rfl

theorem Reflects.raise (h : Reflects reports e)
    (hsm : alarm.alarmId = e.row.alarm.alarmId ∧ alarm.rule = e.row.alarm.rule) :
    Reflects (reports ++ [alarm]) (Alarms.raise alarm e) := by
  refine ⟨?_, ?_, ?_⟩
  · rw [sameAlarm_raise, sameAlarm_append_self hsm, Set.image_insert_eq]
    have hmax := h.count.insert alarm.count
    rwa [max_comm] at hmax
  · rw [sameAlarm_raise, sameAlarm_append_self hsm, Set.image_insert_eq]
    have hmax := h.lastSeen.insert alarm.lastSeen
    rwa [max_comm] at hmax
  rw [sameAlarm_raise, sameAlarm_append_self hsm]
  by_cases hnwr : e.row.alarm.lastSeen < alarm.lastSeen
  · refine ⟨alarm, Set.mem_insert _ _, ?_⟩
    simp [Alarms.raise, hnwr, hnwr.le]
  · obtain ⟨r, hr, hla, hprc, hanc, hdet⟩ := h.evidence
    refine ⟨r, Set.mem_insert_of_mem _ hr, ?_⟩
    simp [Alarms.raise, hnwr, not_lt.mp hnwr, hla, hprc, hanc, hdet]

theorem reflects_first (hnew : ∀ r ∈ reports, r.alarmId ≠ e.row.alarm.alarmId) :
    Reflects (reports ++ [e.row.alarm]) e := by
  have hemp : sameAlarm reports e = ∅ := by
    ext r
    simp only [sameAlarm, Set.mem_ofPred_eq, Set.mem_empty_iff_false, iff_false]
    rintro ⟨hr, hid, -⟩
    exact hnew r hr hid
  have hsm : sameAlarm (reports ++ [e.row.alarm]) e = {e.row.alarm} := by
    rw [sameAlarm_append_self ⟨rfl, rfl⟩, hemp, insert_empty_eq]
  refine ⟨?_, ?_, ?_⟩
  · rw [hsm, Set.image_singleton]
    exact isGreatest_singleton
  · rw [hsm, Set.image_singleton]
    exact isGreatest_singleton
  · rw [hsm]
    exact ⟨e.row.alarm, rfl, rfl, rfl, rfl, rfl⟩

/-- What is stored of the alarms of an agent, after some reports of it. -/
structure Delivered (agentId : String) (reports : List StoredAlarm) (db : Db) : Prop where
  reflects : ∀ (k : ℕ) (e : Entry), db.alarms[k]? = some e → e.row.agentId = agentId → Reflects reports e
  starts : ∀ (k : ℕ) (e : Entry), db.alarms[k]? = some e → e.row.agentId = agentId → db.startsOf k = e.row.alarm.count
  distinct : ∀ (j k : ℕ) (e e' : Entry) (id : String), db.alarms[j]? = some e → db.alarms[k]? = some e' →
    e.Is agentId id → e'.Is agentId id → j = k
  known : ∀ r ∈ reports, ∃ (k : ℕ) (e : Entry), db.alarms[k]? = some e ∧ e.Is agentId r.alarmId
  fresh : ∀ h ∈ db.hourly.rows, h.alarmRowId < db.alarms.length

/-! ### What every report keeps -/

theorem row_raised (b : Batch) (alarm : StoredAlarm) (known : Known) (e : Entry) :
    (raised b alarm known e).row.agentId = e.row.agentId ∧ (raised b alarm known e).row.alarm =
        (raise alarm e).row.alarm := by
  rw [raised]
  split_ifs <;> exact ⟨rfl, rfl⟩

theorem row_arrived (b : Batch) (alarm : StoredAlarm) :
    (arrived b alarm).row.agentId = b.agentId ∧ (arrived b alarm).row.alarm = alarm := by
  rw [arrived]
  split <;> exact ⟨rfl, rfl⟩

theorem is_raised : (raised b alarm known e).Is agentId id ↔ e.Is agentId id := by
  rw [Entry.Is, Entry.Is, (row_raised b alarm known e).1, (row_raised b alarm known e).2]
  rfl

theorem process_insertOne (h : ∀ e ∈ s.1.alarms, P e.row.alarm.process) (hal : P alarm.process)
    (hs : insertOne b s alarm = some s') : ∀ e ∈ s'.1.alarms, P e.row.alarm.process := by
  rcases insertOne_cases hs with ⟨k, e₀, he₀, -, ⟨-, rfl⟩ | ⟨-, rfl⟩⟩ | ⟨-, rfl⟩
  · exact h
  · intro e he
    obtain ⟨j, he⟩ := mem_iff_getElem?.mp he
    rw [getElem?_raiseKnown he₀] at he
    split_ifs at he
    · cases he
      rw [(row_raised b alarm _ e₀).2, raise]
      split_ifs
      · exact hal
      · exact h e₀ (mem_of_getElem? he₀)
    · exact h e (mem_of_getElem? he)
  · intro e he
    rw [alarms_storeNew, mem_append, mem_singleton] at he
    rcases he with he | rfl
    · exact h e he
    · rw [(row_arrived b alarm).2]
      exact hal

theorem process_insertBatch {alarms : List StoredAlarm}
    (h : ∀ e ∈ db.alarms, P e.row.alarm.process) (halm : ∀ a ∈ alarms, P a.process)
    (hs : insertBatch db agentId droppedTotal alarms now = some s) : ∀ e ∈ s.1.alarms, P e.row.alarm.process := by
  have hall : ∀ (rest : List StoredAlarm) (s₀ : Db × Stored), (∀ a ∈ rest, P a.process) →
      (∀ e ∈ s₀.1.alarms, P e.row.alarm.process) →
      rest.foldlM (insertOne (db.batch agentId alarms now)) s₀ = some s → ∀ e ∈ s.1.alarms, P e.row.alarm.process := by
    intro rest
    induction rest with
    | nil =>
      intro s₀ _ h₀ hs
      cases hs
      exact h₀
    | cons a rest ih =>
      intro s₀ hrs h₀ hs
      rw [foldlM_cons] at hs
      obtain ⟨s₁, hs₁, hs⟩ := bind_eq_some_iff.mp hs
      exact ih s₁ (fun a' ha' => hrs a' (mem_cons_of_mem a ha'))
        (process_insertOne h₀ (hrs a mem_cons_self) hs₁) hs
  refine hall alarms _ halm (fun e he => h e ?_) hs
  rwa [alarms_keepDropped] at he

/-- What the reports of an agent become with a report, which may be of another agent. -/
def reportsWith (agentId : String) (reports : List StoredAlarm) (b : Batch) (alarm : StoredAlarm) : List StoredAlarm :=
  if b.agentId = agentId then reports ++ [alarm] else reports

theorem startsOf_eq_zero (h : ∀ h ∈ db.hourly.rows, h.alarmRowId < db.alarms.length) :
    db.startsOf db.alarms.length = 0 := by
  refine sum_eq_zero fun n hn => ?_
  obtain ⟨r, hr, rfl⟩ := mem_map.mp hn
  exact if_neg (Nat.ne_of_lt (h r hr))

theorem fresh_addStarts (h : ∀ h ∈ db.hourly.rows, h.alarmRowId < db.alarms.length) {id : ℕ}
    (hid : id < db.alarms.length) (now : Time) (starts : ℕ) :
    ∀ h ∈ (db.addStarts id now starts).hourly.rows, h.alarmRowId < db.alarms.length := by
  intro r hr
  have hget := Table.get?_eq_some_iff.mpr ⟨hr, rfl⟩
  rw [Db.addStarts, Table.get?_upsert] at hget
  split_ifs at hget with hkey
  · obtain ⟨hrow, -⟩ := Prod.mk.inj hkey
    rw [← hrow]
    exact hid
  · exact h r (Table.get?_eq_some_iff.mp hget).1

theorem Delivered.ignored (h : Delivered agentId reports db)
    (he : db.alarms[k]? = some e) (his : e.Is b.agentId alarm.alarmId)
    (hign : Alarms.ignored alarm (e.known k b.now) = true) :
    Delivered agentId (reportsWith agentId reports b alarm) db := by
  rw [reportsWith]
  split_ifs with hagt
  · subst hagt
    refine ⟨fun j e' he' hagt' => ?_, h.starts, h.distinct, fun r hr => ?_, h.fresh⟩
    · by_cases hsm : alarm.alarmId = e'.row.alarm.alarmId ∧ alarm.rule = e'.row.alarm.rule
      · obtain rfl := h.distinct k j e e' alarm.alarmId he he' his ⟨hagt', hsm.1.symm⟩
        obtain rfl := mem_unique he he'
        rw [Alarms.ignored, or_eq_true, and_eq_true] at hign
        rcases hign with hru | ⟨hct, hla⟩
        · exact absurd hsm.2.symm (of_decide_eq_true hru)
        · exact (h.reflects k e he hagt').append_of_le (of_decide_eq_true hct) (of_decide_eq_true hla) hsm
      · exact (h.reflects j e' he' hagt').congr (sameAlarm_append_of_ne hsm) rfl
    · rcases mem_append.mp hr with hr | hr
      · exact h.known r hr
      · rw [mem_singleton.mp hr]
        exact ⟨k, e, he, his⟩
  · exact h

theorem row_of_raiseKnown (he : s.1.alarms[k]? = some e)
    (he' : (raiseKnown b s alarm (e.known k b.now)).1.alarms[j]? = some e') :
    ∃ e₀ : Entry, s.1.alarms[j]? = some e₀ ∧ ∀ agentId id, e'.Is agentId id ↔ e₀.Is agentId id := by
  rw [getElem?_raiseKnown he] at he'
  split_ifs at he' with hj
  · cases he'
    exact ⟨e, hj ▸ he, fun _ _ => is_raised⟩
  · exact ⟨e', he', fun _ _ => .rfl⟩

theorem exists_raiseKnown {e₀ : Entry} (he : s.1.alarms[k]? = some e) (he₀ : s.1.alarms[j]? = some e₀)
    (his : e₀.Is agentId id) (alarm : StoredAlarm) :
    ∃ (j : ℕ) (e' : Entry), (raiseKnown b s alarm (e.known k b.now)).1.alarms[j]? = some e' ∧ e'.Is agentId id := by
  by_cases hj : j = k
  · subst hj
    obtain rfl := mem_unique he he₀
    exact ⟨j, _, (getElem?_raiseKnown he alarm j).trans (if_pos rfl), is_raised.mpr his⟩
  · exact ⟨j, e₀, (getElem?_raiseKnown he alarm j).trans ((if_neg hj).trans he₀), his⟩

theorem mem_reportsWith {r : StoredAlarm} (h : r ∈ reportsWith agentId reports b alarm) :
    r ∈ reports ∨ b.agentId = agentId ∧ r = alarm := by
  rw [reportsWith] at h
  split_ifs at h with hagt
  · rcases mem_append.mp h with h | h
    · exact .inl h
    · exact .inr ⟨hagt, mem_singleton.mp h⟩
  · exact .inl h

theorem Reflects.reportsWith (h : Reflects reports e) (hagt : e.row.agentId = agentId)
    (hne : ¬e.Is b.agentId alarm.alarmId) : Reflects (Alarms.reportsWith agentId reports b alarm) e := by
  rw [Alarms.reportsWith]
  split_ifs with hb
  · exact h.congr (sameAlarm_append_of_ne fun hsm => hne ⟨hagt.trans hb.symm, hsm.1.symm⟩) rfl
  · exact h

section

variable (h : Delivered agentId reports s.1)

include h

theorem Delivered.raised (he : s.1.alarms[k]? = some e) (his : e.Is b.agentId alarm.alarmId)
    (hign : Alarms.ignored alarm (e.known k b.now) = false) :
    Delivered agentId (reportsWith agentId reports b alarm) (raiseKnown b s alarm (e.known k b.now)).1 := by
  have hru : alarm.rule = e.row.alarm.rule := by
    rw [Alarms.ignored, or_eq_false_iff] at hign
    exact (not_not.mp (of_decide_eq_false hign.1)).symm
  refine ⟨fun j e' he' hagt' => ?_, fun j e' he' hagt' => ?_, fun i j e₁ e₂ id h₁ h₂ his₁ his₂ => ?_, fun r hr => ?_,
    fun r hr => ?_⟩
  · rw [getElem?_raiseKnown he] at he'
    split_ifs at he' with hj
    · cases he'
      rw [(row_raised ..).1] at hagt'
      rw [reportsWith, if_pos (his.1.symm.trans hagt')]
      refine ((h.reflects k e he hagt').raise ⟨his.2.symm, hru⟩).congr ?_ (row_raised ..).2
      rw [sameAlarm, sameAlarm, (row_raised ..).2]
    · refine (h.reflects j e' he' hagt').reportsWith hagt' fun his' => hj ?_
      exact h.distinct j k e' e alarm.alarmId he' he ⟨hagt', his'.2⟩ ⟨his.1.trans (his'.1.symm.trans hagt'), his.2⟩
  · rw [startsOf_raiseKnown]
    rw [getElem?_raiseKnown he] at he'
    change s.1.startsOf j + (if j = k then alarm.count - e.row.alarm.count else 0) = _
    split_ifs at he' ⊢ with hj
    · cases he'
      rw [(row_raised ..).1] at hagt'
      rw [(row_raised ..).2, hj, h.starts k e he hagt']
      simp only [raise]
      omega
    · rw [h.starts j e' he' hagt', add_zero]
  · obtain ⟨e₁', he₁, his₁'⟩ := row_of_raiseKnown he h₁
    obtain ⟨e₂', he₂, his₂'⟩ := row_of_raiseKnown he h₂
    exact h.distinct i j e₁' e₂' id he₁ he₂ ((his₁' _ _).mp his₁) ((his₂' _ _).mp his₂)
  · rcases mem_reportsWith hr with hr | ⟨hagt, rfl⟩
    · obtain ⟨j, e₀, he₀, his₀⟩ := h.known r hr
      exact exists_raiseKnown he he₀ his₀ alarm
    · exact exists_raiseKnown he he ⟨his.1.trans hagt, his.2⟩ r
  · rw [alarms_raiseKnown, length_modify]
    obtain ⟨hlt, -⟩ := List.getElem?_eq_some_iff.mp he
    have hfrs := fresh_addStarts h.fresh hlt b.now (alarm.count - e.row.alarm.count)
    rw [raiseKnown] at hr
    split_ifs at hr
    · exact hfrs r hr
    · exact h.fresh r hr
    · exact hfrs r hr
    · exact h.fresh r hr

theorem Delivered.stored (hnew : ∀ (k : ℕ) (e : Entry), s.1.alarms[k]? = some e → ¬e.Is b.agentId alarm.alarmId) :
    Delivered agentId (reportsWith agentId reports b alarm) (storeNew b s alarm).1 := by
  obtain ⟨hagt, hal⟩ := row_arrived b alarm
  have hisn : ∀ {id}, (arrived b alarm).Is agentId id → b.agentId = agentId ∧ id = alarm.alarmId := fun his =>
    ⟨hagt.symm.trans his.1, his.2.symm.trans (congrArg StoredAlarm.alarmId hal)⟩
  refine ⟨fun j e he he' => ?_, fun j e he he' => ?_, fun i j e₁ e₂ id h₁ h₂ his₁ his₂ => ?_, fun r hr => ?_,
    fun r hr => ?_⟩
  · rcases getElem?_storeNew.mp he with he | ⟨rfl, rfl⟩
    · exact (h.reflects j e he he').reportsWith he' (hnew j e he)
    -- no report before it had this id: it would be stored
    have hid : ∀ r ∈ reports, r.alarmId ≠ (arrived b alarm).row.alarm.alarmId := by
      intro r hr hrid
      obtain ⟨k, e, hk, his⟩ := h.known r hr
      rw [hal] at hrid
      exact hnew k e hk ⟨his.1.trans (he'.symm.trans hagt), his.2.trans hrid⟩
    have hfst := reflects_first hid
    rw [hal] at hfst
    rwa [reportsWith, if_pos (hagt.symm.trans he')]
  · rw [startsOf_storeNew]
    rcases getElem?_storeNew.mp he with he | ⟨rfl, rfl⟩
    · obtain ⟨hlt, -⟩ := List.getElem?_eq_some_iff.mp he
      rw [if_neg (Nat.ne_of_lt hlt), add_zero, h.starts j e he he']
    · rw [if_pos rfl, startsOf_eq_zero h.fresh, zero_add, hal]
  · rcases getElem?_storeNew.mp h₁ with h₁ | ⟨rfl, rfl⟩ <;> rcases getElem?_storeNew.mp h₂ with h₂ | ⟨rfl, rfl⟩
    · exact h.distinct i j e₁ e₂ id h₁ h₂ his₁ his₂
    · obtain ⟨hb, rfl⟩ := hisn his₂
      exact absurd (hb ▸ his₁) (hnew i e₁ h₁)
    · obtain ⟨hb, rfl⟩ := hisn his₁
      exact absurd (hb ▸ his₂) (hnew j e₂ h₂)
    · rfl
  · rcases mem_reportsWith hr with hr | ⟨hb, rfl⟩
    · obtain ⟨j, e, he, his⟩ := h.known r hr
      exact ⟨j, e, getElem?_storeNew.mpr (.inl he), his⟩
    · exact ⟨_, _, getElem?_storeNew.mpr (.inr ⟨rfl, rfl⟩), hagt.trans hb, congrArg StoredAlarm.alarmId hal⟩
  · have hlen : (storeNew b s alarm).1.alarms.length = s.1.alarms.length + 1 := by
      rw [alarms_storeNew, length_append, length_singleton]
    have hfrs := @fresh_addStarts { s.1 with alarms := s.1.alarms ++ [arrived b alarm] }
      (fun r hr => (h.fresh r hr).trans (by simp)) s.1.alarms.length (by simp) b.now alarm.count
    rw [hlen]
    have hlt : r.alarmRowId < (s.1.alarms ++ [arrived b alarm]).length := by
      rw [storeNew] at hr
      split at hr
      · exact hfrs r hr
      · exact hfrs r hr
    simpa using hlt

theorem Delivered.insertOne
    (hs : insertOne b s alarm = some s') : Delivered agentId (reportsWith agentId reports b alarm) s'.1 := by
  rcases insertOne_cases hs with ⟨k, e, he, his, ⟨hign, rfl⟩ | ⟨hign, rfl⟩⟩ | ⟨hnew, rfl⟩
  · exact h.ignored he his hign
  · exact h.raised he his hign
  · exact h.stored hnew

theorem Delivered.insertAll {alarms : List StoredAlarm} (hs : alarms.foldlM (Alarms.insertOne b) s = some s') :
    Delivered agentId (reports ++ if b.agentId = agentId then alarms else []) s'.1 := by
  induction alarms generalizing reports s with
  | nil =>
    cases hs
    simpa using h
  | cons alarm alarms ih =>
    rw [foldlM_cons] at hs
    obtain ⟨s₁, hs₁, hs⟩ := bind_eq_some_iff.mp hs
    have hnx := ih (h.insertOne hs₁) hs
    rw [reportsWith] at hnx
    split_ifs at hnx ⊢ with hagt
    · rwa [append_assoc, singleton_append] at hnx
    · exact hnx

end

end

/-! ### Runs -/

inductive Event where
  | batch (agentId : String) (droppedTotal : ℕ) (alarms : List StoredAlarm) (now : Time)
  /-- A person or a suppression changes the triage of an alarm. -/
  | triage (id : ℕ) (newTriage : AlarmTriage) (history : List HistoryRow)
  /-- Hosts, groups, users, suppressions or partitions change. -/
  | others (dir : Directory) (suppressions : List Suppression) (partitions : List ℤ)

/-- The tables after an event; a batch that fails changes nothing. -/
def Event.run (db : Db) : Event → Db
  | .batch agentId droppedTotal alarms now => ((insertBatch db agentId droppedTotal alarms now).map Prod.fst).getD db
  | .triage id newTriage history =>
    db.modify id fun e => { e with row := { e.row with triage := newTriage }, history := history }
  | .others dir suppressions partitions =>
    { db with dir := dir, suppressions := suppressions, partitions := partitions }

def Event.reports (agentId : String) (db : Db) : Event → List StoredAlarm
  | .batch caller droppedTotal alarms now =>
    if (insertBatch db caller droppedTotal alarms now).isNone then [] else if caller = agentId then alarms else []
  | _ => []

def runAll (db : Db) (events : List Event) : Db := events.foldl Event.run db

def reported (agentId : String) : Db → List Event → List StoredAlarm
  | _, [] => []
  | db, event :: events => event.reports agentId db ++ reported agentId (event.run db) events

section

variable {reports : List StoredAlarm} (h : Delivered agentId reports db)

include h

theorem Delivered.of_alarms {db' : Db} (halm : db'.alarms = db.alarms) (hhrl : db'.hourly = db.hourly) :
    Delivered agentId reports db' := by
  have hsts : ∀ k, db'.startsOf k = db.startsOf k := fun k => by rw [Db.startsOf, Db.startsOf, hhrl]
  refine ⟨?_, ?_, ?_, ?_, ?_⟩
  · rw [halm]
    exact h.reflects
  · intro k e
    rw [halm, hsts]
    exact h.starts k e
  · rw [halm]
    exact h.distinct
  · rw [halm]
    exact h.known
  · rw [halm, hhrl]
    exact h.fresh

theorem Delivered.keepDropped (caller : String) (droppedTotal : ℕ) :
    Delivered agentId reports (db.keepDropped caller droppedTotal) := by
  rw [Db.keepDropped]
  split_ifs
  · exact h.of_alarms rfl rfl
  · exact h

theorem Delivered.triage (id : ℕ) (hf : ∀ e, (f e).row.agentId = e.row.agentId ∧ (f e).row.alarm = e.row.alarm) :
    Delivered agentId reports (db.modify id f) := by
  have hold : ∀ {j : ℕ} {e' : Entry}, (db.modify id f).alarms[j]? = some e' → ∃ e : Entry, db.alarms[j]? = some e ∧
      e'.row.agentId = e.row.agentId ∧ e'.row.alarm = e.row.alarm := by
    intro j e' he'
    rw [Db.modify, getElem?_modify] at he'
    obtain ⟨e, he, rfl⟩ := map_eq_some_iff.mp he'
    refine ⟨e, he, ?_⟩
    split_ifs
    · exact hf e
    · exact ⟨rfl, rfl⟩
  refine ⟨fun k e' he' hagt => ?_, fun k e' he' hagt => ?_, fun i j e₁ e₂ id' h₁ h₂ his₁ his₂ => ?_, fun r hr => ?_, ?_⟩
  · obtain ⟨e, he, hsm, hal⟩ := hold he'
    refine (h.reflects k e he (hsm.symm.trans hagt)).congr ?_ hal
    rw [sameAlarm, sameAlarm, hal]
  · obtain ⟨e, he, hsm, hal⟩ := hold he'
    rw [startsOf_modify, hal]
    exact h.starts k e he (hsm.symm.trans hagt)
  · obtain ⟨e₁', he₁, hsm₁, hal₁⟩ := hold h₁
    obtain ⟨e₂', he₂, hsm₂, hal₂⟩ := hold h₂
    refine h.distinct i j e₁' e₂' id' he₁ he₂ ⟨hsm₁.symm.trans his₁.1, ?_⟩ ⟨hsm₂.symm.trans his₂.1, ?_⟩
    · rw [← hal₁]
      exact his₁.2
    · rw [← hal₂]
      exact his₂.2
  · obtain ⟨j, e, he, his⟩ := h.known r hr
    refine ⟨j, if id = j then f e else e, ?_, ?_⟩
    · rw [Db.modify, getElem?_modify, he]
      rfl
    · split_ifs
      · exact ⟨(hf e).1.trans his.1, (congrArg StoredAlarm.alarmId (hf e).2).trans his.2⟩
      · exact his
  · rw [Db.modify, length_modify]
    exact h.fresh

theorem Delivered.event (event : Event) : Delivered agentId (reports ++ event.reports agentId db) (event.run db) := by
  cases event with
  | batch caller droppedTotal alarms now =>
    rw [Event.run, Event.reports]
    cases hbat : insertBatch db caller droppedTotal alarms now with
    | none => simpa using h
    | some s' =>
      exact (h.keepDropped caller droppedTotal).insertAll hbat
  | triage id newTriage history =>
    rw [show (Event.triage id newTriage history).reports agentId db = [] from rfl, append_nil]
    exact h.triage id fun _ => ⟨rfl, rfl⟩
  | others dir suppressions partitions =>
    rw [show (Event.others dir suppressions partitions).reports agentId db = [] from rfl, append_nil]
    exact h.of_alarms rfl rfl

theorem Delivered.events (events : List Event) :
    Delivered agentId (reports ++ reported agentId db events) (runAll db events) := by
  induction events generalizing reports db with
  | nil =>
    rw [reported, append_nil]
    exact h
  | cons event events ih =>
    rw [reported, ← append_assoc]
    exact ih (h.event event)

end

theorem delivered_nil (hnn : ∀ e ∈ db.alarms, e.row.agentId ≠ agentId)
    (hfrs : ∀ h ∈ db.hourly.rows, h.alarmRowId < db.alarms.length) : Delivered agentId [] db where
  reflects _ e he hagt := absurd hagt (hnn e (mem_of_getElem? he))
  starts _ e he hagt := absurd hagt (hnn e (mem_of_getElem? he))
  distinct _ _ e _ _ he _ his _ := absurd his.1 (hnn e (mem_of_getElem? he))
  known _ hr := absurd hr not_mem_nil
  fresh := hfrs

/-! ### What a report does to triage -/

/-- A report reopens an alarm: it is mitigated or an expired accepted risk, no test, and its count is raised. -/
structure Reopens (b : Batch) (alarm : StoredAlarm) (e e' : Entry) : Prop where
  triage : e'.row.triage = (reopen b.now e).row.triage
  due : e.row.triage.state = .mitigated ∨ riskExpired e.row.triage b.now = true
  test : isTestRule e.row.alarm.ruleSetId e.row.alarm.ruleId = false
  count : e.row.alarm.count < alarm.count ∧ e'.row.alarm.count = alarm.count

theorem triage_insertOne (h : insertOne b s alarm = some s') (he : s.1.alarms[k]? = some e) :
    ∃ e', s'.1.alarms[k]? = some e' ∧ (e'.row.triage = e.row.triage ∨ Reopens b alarm e e') := by
  rcases insertOne_cases h with ⟨j, e₀, he₀, his, ⟨-, rfl⟩ | ⟨hign, rfl⟩⟩ | ⟨-, rfl⟩
  · exact ⟨e, he, .inl rfl⟩
  · by_cases hk : k = j
    · subst hk
      obtain rfl := mem_unique he he₀
      refine ⟨_, (getElem?_raiseKnown he alarm k).trans (if_pos rfl), ?_⟩
      rw [raised]
      split_ifs with hreo
      · rw [reopens, and_eq_true, and_eq_true, or_eq_true] at hreo
        obtain ⟨⟨hts, hct⟩, hdue⟩ := hreo
        rw [Alarms.ignored, or_eq_false_iff] at hign
        have hru : e.row.alarm.rule = alarm.rule := not_not.mp (of_decide_eq_false hign.1)
        obtain ⟨hset, -, hid, -⟩ : e.row.alarm.ruleSetId = alarm.ruleSetId ∧ _ ∧ e.row.alarm.ruleId = alarm.ruleId ∧
            _ := by
          simpa [StoredAlarm.rule] using hru
        have hlt : e.row.alarm.count < alarm.count := of_decide_eq_true hct
        refine .inr ⟨rfl, hdue.imp of_decide_eq_true fun h => h, ?_, hlt, ?_⟩
        · rw [hset, hid]
          simpa using hts
        · exact max_eq_right hlt.le
      · exact .inl rfl
    · exact ⟨e, (getElem?_raiseKnown he₀ alarm k).trans ((if_neg hk).trans he), .inl rfl⟩
  · exact ⟨e, getElem?_storeNew.mpr (.inl he), .inl rfl⟩

theorem Delivered.other_rule {reports : List StoredAlarm} (h : Delivered agentId reports s.1)
    (he : s.1.alarms[k]? = some e) (hagt : b.agentId = agentId) (his : e.Is agentId alarm.alarmId)
    (hru : alarm.rule ≠ e.row.alarm.rule) : Alarms.insertOne b s alarm = some s := by
  subst hagt
  rw [Alarms.insertOne]
  cases hlkp : lookup (.settled s.1.alarms) b.agentId alarm b.now with
  | none => exact absurd his (lookup_none hlkp he)
  | some known =>
    obtain ⟨e', he', his', hkn⟩ := lookup_some hlkp
    have hk := h.distinct _ _ e e' _ he he' his his'
    obtain rfl := some.inj (he.symm.trans (hk ▸ he'))
    have hign : Alarms.ignored alarm known = true := by
      rw [hkn, Alarms.ignored, or_eq_true]
      exact .inl (decide_eq_true (.symm hru))
    dsimp only
    rw [if_pos hign]

/-- **Delivery of alarms is idempotent and order-independent.** However batches are delivered, with other agents'
batches and changes of triage between them: an alarm has the greatest count and the latest start of the reports with its
id and its rule, and its process, ancestors and detection from one of the latest; its hourly starts add up to its count;
a report with another rule changes nothing; and a report changes its triage only to reopen it. -/
theorem delivery_idempotent {agentId : String} {db₀ : Db} (hnn : ∀ e ∈ db₀.alarms, e.row.agentId ≠ agentId)
    (hfrs : ∀ h ∈ db₀.hourly.rows, h.alarmRowId < db₀.alarms.length) (events : List Event) (caller : String)
    (droppedTotal : ℕ) (before rest : List StoredAlarm) (now : Time) {s : Db × Stored}
    (hs : before.foldlM (insertOne ((runAll db₀ events).batch caller (before ++ rest) now))
      ((runAll db₀ events).keepDropped caller droppedTotal, ⟨0, 0, 0⟩) = some s)
    {k : ℕ} {e : Entry} (he : s.1.alarms[k]? = some e) (hagt : e.row.agentId = agentId) :
    let reports := reported agentId db₀ events ++ if caller = agentId then before else []
    IsGreatest (StoredAlarm.count '' sameAlarm reports e) e.row.alarm.count ∧
      IsGreatest (StoredAlarm.lastSeen '' sameAlarm reports e) e.row.alarm.lastSeen ∧
      (∃ r ∈ sameAlarm reports e, r.lastSeen = e.row.alarm.lastSeen ∧ r.process = e.row.alarm.process ∧
        r.ancestors = e.row.alarm.ancestors ∧ r.detection = e.row.alarm.detection) ∧
      s.1.startsOf k = e.row.alarm.count ∧
      (∀ b alarm, b.agentId = agentId → alarm.alarmId = e.row.alarm.alarmId → alarm.rule ≠ e.row.alarm.rule →
        insertOne b s alarm = some s) ∧
      ∀ b alarm s', insertOne b s alarm = some s' →
        ∃ e', s'.1.alarms[k]? = some e' ∧ (e'.row.triage = e.row.triage ∨ Reopens b alarm e e') := by
  have hdel := (((delivered_nil hnn hfrs).events events).keepDropped caller droppedTotal).insertAll hs
  rw [nil_append] at hdel
  have href := hdel.reflects k e he hagt
  refine ⟨href.count, href.lastSeen, href.evidence, hdel.starts k e he hagt,
    fun b alarm hb hid hru => ?_, fun b alarm s' hs' => triage_insertOne hs' he⟩
  exact hdel.other_rule he hb ⟨hagt, hid.symm⟩ hru

/-! ### A late report -/

def sampleReport (count : ℕ) (lastSeen : Time) (exe : String) : StoredAlarm where
  detection := none
  alarmId := "a-17"
  ruleSetId := "linux-base"
  ruleSetVersion := 4
  ruleId := "shell.from_web"
  ruleVersion := 2
  severity := .high
  confidence := 80
  message := "A web server started a shell"
  firstSeen := 0
  lastSeen := lastSeen
  count := count
  process := .obj [("exe", .str exe)]
  ancestors := .arr []
  exe := exe
  argsSha256 := "9f"

def sampleTables : Db := ⟨⟨.empty, [], .empty⟩, [], [0], fun _ => none, [], .empty⟩

theorem ingest_alone_sample : ∃ s, insertBatch sampleTables "lab-3" 0 [sampleReport 3 20 "/bin/dash"] 40 = some s ∧
    s.1.alarms.length = 1 ∧ Relation.ReflTransGen (Next (sampleTables.batch "lab-3" [sampleReport 3 20 "/bin/dash"] 40))
      (Rows.settled [], some (.looking [sampleReport 3 20 "/bin/dash"] ⟨0, 0, 0⟩)) (Rows.settled s.1.alarms, none) :=
  ⟨_, rfl, rfl, ingest_alone rfl⟩

/-- The report with the greatest count comes first, and a later start comes with a smaller one. -/
theorem delivery_idempotent_sample :
    ∃ s, [sampleReport 2 30 "/bin/sh"].foldlM
        (insertOne ((runAll sampleTables [.batch "lab-3" 0 [sampleReport 3 20 "/bin/dash"] 40]).batch "lab-3"
          ([sampleReport 2 30 "/bin/sh"] ++ []) 50))
        ((runAll sampleTables [.batch "lab-3" 0 [sampleReport 3 20 "/bin/dash"] 40]).keepDropped "lab-3" 0, ⟨0, 0, 0⟩) =
          some s ∧
      ∃ e, s.1.alarms[0]? = some e ∧ e.row.alarm.count = 3 ∧ e.row.alarm.lastSeen = 30 ∧
        s.1.startsOf 0 = e.row.alarm.count :=
  ⟨_, rfl, _, rfl, rfl, rfl, (@delivery_idempotent "lab-3" sampleTables (fun _ h => absurd h not_mem_nil)
      (fun _ h => absurd h not_mem_nil) [.batch "lab-3" 0 [sampleReport 3 20 "/bin/dash"] 40] "lab-3" 0
      [sampleReport 2 30 "/bin/sh"] [] 50 _ rfl 0 _ rfl rfl).2.2.2.1⟩

end OpenVibes.Store.Alarms
