import OpenVibes.Store.DeviceAlarms

/-!
# The collapser of network events

`crates/openvibes-netlog/src/collapse.rs`: the events of one device, signature and source within `window` of the last
one are one alarm. A full map drops its oldest stored entry, or the new event. `store` of `service.rs` flushes the
unstored alarms (`Store.DeviceAlarms`) and marks what it stored; it fails before or after its commit, and people triage
the stored alarms meanwhile. The order of the map can change at any time (`Event.reorder`).
-/

namespace OpenVibes.Netlog

open Theory Store Store.DeviceAlarms
open Store.Alarms (AlarmTriage HistoryRow)
open Store.FindingChanges (Severity)

/-! ### Data -/

/-- `IpAddr`, by the text it is printed as. -/
structure IpAddr where
  text : String
  plain : '/' ∉ text.toList
deriving DecidableEq

/-- `Ips`: one IPS/IDS event. -/
structure Ips where
  (action proto app : String)
  src : IpAddr
  spt : Option ℕ
  dst : IpAddr
  dpt : Option ℕ
  (dstDomain direction policy policyType signature signatureId deviceModel : String)
  severity : Severity
  message : String

def Ips.network (ips : Ips) : Network where
  action := ips.action
  proto := ips.proto
  app := ips.app
  src := ips.src.text
  spt := ips.spt
  dst := ips.dst.text
  dpt := ips.dpt
  dstDomain := ips.dstDomain
  direction := ips.direction
  policy := ips.policy
  policyType := ips.policyType
  signature := ips.signature
  signatureId := ips.signatureId
  deviceModel := ips.deviceModel

structure Key where
  deviceId : ℤ
  signatureId : String
  src : IpAddr
deriving DecidableEq

structure Entry where
  alarm : DeviceAlarm
  dirty : Bool
deriving DecidableEq

structure Collapser where
  window : Time
  maxKeys : ℕ
  opened : List (Key × Entry)

/-! ### `Collapser::add` -/

def timestampMillis (t : Time) : ℤ := t / 1000

/-- The id of an alarm of a key that is created in a millisecond. -/
def alarmId (signatureId : String) (src : IpAddr) (millis : ℤ) : String :=
  signatureId ++ "/" ++ src.text ++ "/" ++ toString millis

def ruleId (signatureId : String) : String := "ips." ++ signatureId

def Ips.key (ips : Ips) (deviceId : ℤ) : Key := ⟨deviceId, ips.signatureId, ips.src⟩

def Ips.alarm (ips : Ips) (deviceId : ℤ) (now : Time) : DeviceAlarm where
  deviceId := deviceId
  alarmId := alarmId ips.signatureId ips.src (timestampMillis now)
  ruleId := ruleId ips.signatureId
  severity := ips.severity
  confidence := 80
  message := ips.message
  firstSeen := now
  lastSeen := now
  count := 1
  network := ips.network

def Entry.again (e : Entry) (ips : Ips) (now : Time) : Entry :=
  { alarm := { e.alarm with count := e.alarm.count + 1, lastSeen := now, network := ips.network }, dirty := true }

/-- `retain`: what has not expired. -/
def Collapser.retained (c : Collapser) (now : Time) : List (Key × Entry) :=
  c.opened.filter fun p => p.2.dirty || now < p.2.alarm.lastSeen + c.window

/-- The entry with the earlier event, the first one when they are of one time. -/
def older : Option (Key × Entry) → Key × Entry → Option (Key × Entry)
  | none, p => some p
  | some b, p => if p.2.alarm.lastSeen < b.2.alarm.lastSeen then some p else some b

/-- The first of the stored entries with the earliest event. -/
def oldest (entries : List (Key × Entry)) : Option (Key × Entry) :=
  (entries.filter fun p => !p.2.dirty).foldl older none

/-- The map after the entry that makes room is gone; `none` when nothing can go. -/
def makeRoom (entries : List (Key × Entry)) (maxKeys : ℕ) : Option (List (Key × Entry)) :=
  if maxKeys ≤ entries.length then
    (oldest entries).map fun old => entries.filter fun p => p.1 ≠ old.1
  else some entries

/-- `Collapser::add`: counts an event into its alarm; false when the map is full. -/
def Collapser.add (c : Collapser) (deviceId : ℤ) (ips : Ips) (now : Time) : Bool × Collapser :=
  let kept := c.retained now
  let key := ips.key deviceId
  if kept.any fun p => p.1 = key then
    (true, { c with opened := kept.map fun p => if p.1 = key then (p.1, p.2.again ips now) else p })
  else
    match makeRoom kept c.maxKeys with
    | none => (false, { c with opened := kept })
    | some room => (true, { c with opened := room ++ [(key, ⟨ips.alarm deviceId now, true⟩)] })

/-! ### Flushes -/

/-- `Collapser::dirty`: alarms changed since they were last stored. -/
def Collapser.dirty (c : Collapser) : List DeviceAlarm := (c.opened.filter fun p => p.2.dirty).map fun p => p.2.alarm

/-- `Collapser::stored`: entries that did not change since the batch was taken are clean. -/
def Collapser.stored (c : Collapser) (batch : List DeviceAlarm) : Collapser :=
  { c with
    opened := c.opened.map fun p =>
      if batch.any fun a => a.deviceId = p.2.alarm.deviceId && a.alarmId = p.2.alarm.alarmId &&
        a.count = p.2.alarm.count then (p.1, { p.2 with dirty := false }) else p }

inductive Outcome where
  | stored
  | failed
  /-- It commits, but fails for netlog, which marks nothing. -/
  | unacknowledged
deriving DecidableEq

structure State where
  collapser : Collapser
  partitions : ℤ → Bool
  rows : List DeviceAlarms.Entry

inductive Event where
  | add (deviceId : ℤ) (ips : Ips) (now : Time)
  /-- The unstored alarms are flushed, while the suppressions are these. -/
  | flush (outcome : Outcome) (now : Time) (suppressions : List DeviceSuppression)
  | reorder (opened : List (Key × Entry))
  | triage (id : ℕ) (newTriage : AlarmTriage) (history : List HistoryRow)

def Event.time : Event → Option Time
  | .add _ _ now => some now
  | .flush _ now _ => some now
  | _ => none

/-- `store`: the flush. An empty batch is not sent. -/
def State.flush (s : State) (outcome : Outcome) (now : Time) (suppressions : List DeviceSuppression) : State :=
  let batch := s.collapser.dirty
  if batch.isEmpty then s
  else
    let rows := (insertBatch s.partitions suppressions s.rows batch now).1
    match outcome with
    | .stored => { s with collapser := s.collapser.stored batch, rows }
    | .failed => s
    | .unacknowledged => { s with rows }

/-- One event; `none` for a change of order that is none. -/
def step (s : State) : Event → Option State
  | .add deviceId ips now => some { s with collapser := (s.collapser.add deviceId ips now).2 }
  | .flush outcome now suppressions => some (s.flush outcome now suppressions)
  | .reorder opened => if opened.isPerm s.collapser.opened then some { s with collapser.opened := opened } else none
  | .triage id newTriage history =>
    some { s with rows := s.rows.modify id fun e => { e with triage := newTriage, history := e.history ++ history } }

/-- Netlog when it starts: no open alarms, and no alarms stored. -/
def start (window : Time) (maxKeys : ℕ) (partitions : ℤ → Bool) : State := ⟨⟨window, maxKeys, []⟩, partitions, []⟩

/-! ### What a run did -/

structure Counted where
  key : Key
  created : Option ℤ

def counted (s : State) : Event → Option Counted
  | .add deviceId ips now =>
    if (s.collapser.add deviceId ips now).1 then
      some ⟨ips.key deviceId, if (s.collapser.retained now).any fun p => p.1 = ips.key deviceId then none
        else some (timestampMillis now)⟩
    else none
  | _ => none

/-- The events of a device, signature and source that were counted. -/
def eventsOf (key : Key) (log : List Counted) : List Counted := log.filter fun c => c.key = key

def storedAlarms (key : Key) (rows : List DeviceAlarms.Entry) : List DeviceAlarms.Entry :=
  rows.filter fun e => e.alarm.deviceId = key.deviceId && e.alarm.ruleId = ruleId key.signatureId &&
    e.alarm.network.src = key.src.text

end OpenVibes.Netlog
