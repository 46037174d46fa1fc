import OpenVibes.Store.AlarmDelivery

/-!
# Alarms of network devices

`insert_batch` of `crates/platform-store/src/device_alarms.rs`: a known alarm is raised to the larger count and the
later time, and a count that grew may reopen it; a new one is stored, closed as a false positive if a suppression covers
it. A row's number is its `id`, and its history stands with it.
-/

namespace OpenVibes.Store.DeviceAlarms

open List

open Store.Alarms (AlarmTriage HistoryRow SuppressionScope dayOf riskExpired suppressedNote)
open Store.FindingChanges (Severity)
open Store.Triage (TriageState)

/-! ### Data -/

structure Network where
  (action proto app src : String)
  spt : Option ℕ
  dst : String
  dpt : Option ℕ
  (dstDomain direction policy policyType signature signatureId deviceModel : String)
deriving DecidableEq

/-- `DeviceAlarm`: one collapsed device alarm, validated by netlog. -/
structure DeviceAlarm where
  deviceId : ℤ
  (alarmId ruleId : String)
  severity : Severity
  confidence : ℕ
  message : String
  (firstSeen lastSeen : Time)
  count : ℕ
  network : Network
deriving DecidableEq

/-- A row of `alarms` of a device, with its triage history. -/
structure Entry where
  /-- The alarm as it was stored first, with the count, time and network fields raised since. -/
  alarm : DeviceAlarm
  receivedAt : Time
  triage : AlarmTriage
  history : List HistoryRow

abbrev alarms (rows : List Entry) : List DeviceAlarm := rows.map Entry.alarm

/-- A row of `alarm_suppressions`, as far as a device's batch reads it. -/
structure DeviceSuppression where
  id : ℕ
  removed : Bool
  ruleSetId : String
  scope : SuppressionScope
  ruleId : String
  deviceId : Option ℤ

/-- `DeviceStored`: what one batch did. -/
structure DeviceStored where
  (stored raised suppressed unstorable : ℕ)

def ruleSet : String := "device-unifi"

def netlog : String := "netlog"

/-! ### `insert_batch` -/

def activeSuppressions (table : List DeviceSuppression) : List DeviceSuppression :=
  (table.filter fun s => !s.removed && s.ruleSetId = ruleSet && (s.scope = .device || s.scope = .signature))
    |>.insertionSort fun a b => a.id ≤ b.id

def isKnown (alarm : DeviceAlarm) (e : Entry) : Bool :=
  e.alarm.deviceId = alarm.deviceId && e.alarm.alarmId = alarm.alarmId

/-- The lookup of an alarm by its device and netlog's id. -/
def lookup (rows : List Entry) (alarm : DeviceAlarm) : Option (ℕ × Entry) :=
  (rows.findIdx? (isKnown alarm)).bind fun id => rows[id]?.map fun e => (id, e)

def DeviceAlarm.raised (old alarm : DeviceAlarm) : DeviceAlarm :=
  { old with
    count := max old.count alarm.count
    lastSeen := max old.lastSeen alarm.lastSeen
    network := if old.lastSeen < alarm.lastSeen then alarm.network else old.network }

/-- A recurrence reopens a mitigated alarm, or one whose accepted risk has expired. -/
def reopens (alarm : DeviceAlarm) (e : Entry) (now : Time) : Bool :=
  e.alarm.count < alarm.count && (e.triage.state = .mitigated || riskExpired e.triage now)

def reopen (now : Time) (e : Entry) : Entry :=
  { e with
    triage.state := .open
    triage.acceptedUntil := none
    triage.version := e.triage.version + 1
    triage.updatedAt := some now
    triage.updatedBy := some netlog
    history := e.history ++ [⟨some e.triage.state, .open, none, none, some "recurred", now, netlog⟩] }

def raiseKnown (alarm : DeviceAlarm) (now : Time) (e : Entry) : Entry :=
  let raised := { e with alarm := e.alarm.raised alarm }
  if reopens alarm e now then reopen now raised else raised

/-- The row of a new alarm, with its history row if a suppression closes it. -/
def newEntry (suppressions : List DeviceSuppression) (alarm : DeviceAlarm) (now : Time) : Entry :=
  let suppression := (suppressions.find? fun s =>
    s.ruleId = alarm.ruleId && s.deviceId.all fun d => d = alarm.deviceId).map DeviceSuppression.id
  match suppression with
  | some id =>
    ⟨alarm, now, ⟨some id, .falsePositive, none, some (suppressedNote id), none, 1, some now, some netlog⟩,
      [⟨none, .falsePositive, none, none, some (suppressedNote id), now, netlog⟩]⟩
  | none => ⟨alarm, now, ⟨none, .open, none, none, none, 1, none, none⟩, []⟩

def insertOne (partitions : ℤ → Bool) (suppressions : List DeviceSuppression) (now : Time)
    (s : List Entry × DeviceStored) (alarm : DeviceAlarm) : List Entry × DeviceStored :=
  if !partitions (dayOf alarm.firstSeen) then (s.1, { s.2 with unstorable := s.2.unstorable + 1 })
  else
    match lookup s.1 alarm with
    | some (id, e) =>
      if alarm.count ≤ e.alarm.count && alarm.lastSeen ≤ e.alarm.lastSeen then s
      else (s.1.modify id (raiseKnown alarm now), { s.2 with raised := s.2.raised + 1 })
    | none =>
      let e := newEntry suppressions alarm now
      let done := { s.2 with stored := s.2.stored + 1 }
      (s.1 ++ [e], if e.triage.suppressedBy.isSome then { done with suppressed := done.suppressed + 1 } else done)

def insertBatch (partitions : ℤ → Bool) (table : List DeviceSuppression) (rows : List Entry)
    (alarms : List DeviceAlarm) (now : Time) : List Entry × DeviceStored :=
  alarms.foldl (insertOne partitions (activeSuppressions table) now) (rows, ⟨0, 0, 0, 0⟩)

/-! ### What one alarm does -/

theorem lookup_cases (rows : List Entry) (alarm : DeviceAlarm) :
    (∃ pre e post, rows = pre ++ e :: post ∧ isKnown alarm e ∧ lookup rows alarm = some (pre.length, e)) ∨
      (∀ e ∈ rows, isKnown alarm e = false) ∧ lookup rows alarm = none := by
  rw [lookup]
  cases hid : rows.findIdx? (isKnown alarm) with
  | none => exact .inr ⟨findIdx?_eq_none_iff.mp hid, rfl⟩
  | some id =>
    obtain ⟨hlt, hkn, _⟩ := findIdx?_eq_some_iff_getElem.mp hid
    refine .inl ⟨rows.take id, rows[id], rows.drop (id + 1), ?_, hkn, ?_⟩
    · rw [← drop_eq_getElem_cons hlt, take_append_drop]
    · simp [getElem?_eq_getElem hlt, Nat.min_eq_left hlt.le]

theorem alarm_raiseKnown (alarm : DeviceAlarm) (now : Time) (e : Entry) :
    (raiseKnown alarm now e).alarm = e.alarm.raised alarm := by
  rw [raiseKnown]
  split <;> rfl

theorem DeviceAlarm.raised_of_le {old alarm : DeviceAlarm} (hct : alarm.count ≤ old.count)
    (hse : alarm.lastSeen ≤ old.lastSeen) : old.raised alarm = old := by
  simp [raised, Nat.max_eq_left hct, max_eq_left hse, not_lt.mpr hse]

theorem alarm_newEntry (supps : List DeviceSuppression) (alarm : DeviceAlarm) (now : Time) :
    (newEntry supps alarm now).alarm = alarm := by
  rw [newEntry]
  split <;> rfl

/-- **What one alarm of a batch does**: the stored alarm of its device and id is raised, or it is new. -/
theorem insertOne_cases {parts : ℤ → Bool} (supps : List DeviceSuppression) (now : Time)
    (s : List Entry × DeviceStored) {alarm : DeviceAlarm} (hday : parts (dayOf alarm.firstSeen)) :
    (∃ pre old post, alarms s.1 = pre ++ old :: post ∧ old.deviceId = alarm.deviceId ∧ old.alarmId = alarm.alarmId ∧
        alarms (insertOne parts supps now s alarm).1 = pre ++ old.raised alarm :: post) ∨
      (∀ old ∈ alarms s.1, ¬(old.deviceId = alarm.deviceId ∧ old.alarmId = alarm.alarmId)) ∧
        alarms (insertOne parts supps now s alarm).1 = alarms s.1 ++ [alarm] := by
  rw [insertOne, if_neg (by simp [hday])]
  rcases lookup_cases s.1 alarm with ⟨pre, e, post, hrw, hkn, hlkp⟩ | ⟨hnn, hlkp⟩
  · rw [hlkp]
    simp only [isKnown, Bool.and_eq_true, decide_eq_true_eq] at hkn
    refine .inl ⟨pre.map Entry.alarm, e.alarm, post.map Entry.alarm, by simp [hrw], hkn.1, hkn.2, ?_⟩
    by_cases hold : (alarm.count ≤ e.alarm.count && alarm.lastSeen ≤ e.alarm.lastSeen) = true
    · simp only [if_pos hold]
      simp only [Bool.and_eq_true, decide_eq_true_eq] at hold
      simp [DeviceAlarm.raised_of_le hold.1 hold.2, hrw]
    · simp only [if_neg hold, hrw, modify_eq_take_drop]
      simp [alarm_raiseKnown]
  · rw [hlkp]
    refine .inr ⟨fun old hold => ?_, by simp [alarm_newEntry]⟩
    obtain ⟨e, he, rfl⟩ := mem_map.mp hold
    simpa [isKnown] using hnn e he

end OpenVibes.Store.DeviceAlarms
