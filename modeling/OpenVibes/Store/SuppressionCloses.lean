import OpenVibes.Store.Suppressions

/-!
# What suppressions close

`close_source` of `crates/platform-store/src/alarm_suppression_writes.rs` is meant to close what ingest would have
closed on arrival (`suppression_matches`). Deliveries and the writes of people come one after the other; triage, groups,
hosts and the setting change at any time.
-/

namespace OpenVibes.Store.Suppressions

open Theory Rust List Option
open Store.Triage (AgentScope Directory visible)
open Store.Alarms (Suppression SuppressionScope suppressionMatches hostInGroup Entry AlarmTriage HistoryRow
  StoredAlarm Stored HourlyRow CloseCall insertBatch insertOne insertOne_cases record)

/-! ### The writes -/

structure Db where
  dir : Directory
  groups : String → Option Group
  requireApproval : Bool
  rows : ℕ → Option Row
  nextId : ℕ
  partitions : List ℤ
  dropped : String → Option ℕ
  alarms : List Entry
  hourly : Table HourlyRow HourlyRow.key

def Db.suppressions (db : Db) : List Suppression :=
  (List.range db.nextId).filterMap fun id => (db.rows id).map Row.seen

def Db.ingest (db : Db) : Alarms.Db := ⟨db.dir, db.suppressions, db.partitions, db.dropped, db.alarms, db.hourly⟩

/-- The program and arguments of a process; an agent always sends both. -/
def command? (process : Json) : Option (String × List String) :=
  (process.get "exe").asStr.bind fun exe => (parseArgs (process.get "args")).map fun args => (exe, args)

def Report := { alarm : StoredAlarm // (command? alarm.process).isSome }

/-- `insert_batch`. -/
def Db.deliver (db : Db) (agentId : String) (droppedTotal : ℕ) (reports : List Report) (now : Time) : Option
    (Db × Stored) :=
  (insertBatch db.ingest agentId droppedTotal (reports.map Subtype.val) now).map fun s =>
    ({ db with dropped := s.1.dropped, alarms := s.1.alarms, hourly := s.1.hourly }, s.2)

structure Closing where
  id : ℕ
  alarmIds : List ℕ
  scope : AgentScope
  actor : String
  now : Time

/-- The statement of `close_source`, with the suppression that it joins. -/
def Closing.call (c : Closing) (r : Row) : CloseCall := ⟨r.seen, c.alarmIds, c.scope, c.actor, c.now⟩

def Db.closeSource (db : Db) (c : Closing) : Db :=
  match db.rows c.id with
  | none => db
  | some r =>
    { db with
      alarms := db.alarms.mapIdx fun k e =>
        if (c.call r).covers db.dir k e.row then
          record ((c.call r).historyRow e.row.triage.state) ((c.call r).write e)
        else e }

def Db.put (db : Db) (r : Row) : Db := { db with rows := Function.update db.rows r.id (some r) }

def Db.source (db : Db) (suppress : AgentScope) (id : ℕ) : Option Source :=
  db.alarms[id]?.bind fun e =>
    if visible db.dir suppress e.row.agentId then
      some ⟨e.row.alarm.ruleSetId, e.row.alarm.ruleId, e.row.agentId, (e.row.alarm.process.get "exe").asStr,
        e.row.alarm.process.get? "args"⟩
    else none

def Db.gone (db : Db) (group : Option String) : Bool := group.any fun id => (db.groups id).isNone

section

variable (sha256 : String → String)

/-- `request` up to the `INSERT`: the row, or why not; no result when the row breaks a constraint. -/
def Db.requested (db : Db) (suppress : AgentScope) (req : Request) (actor : String) (now : Time) :
    Option (Except Change Row) :=
  match req.check suppress with
  | some change => some (.error change)
  | none =>
    if db.gone req.group then some (.error (.invalid .group))
    else
      match db.source suppress req.alarmRowId with
      | none => some (.error .notFound)
      | some source =>
        (req.target sha256 source).bind fun target =>
          match target with
          | .error change => some (.error change)
          | .ok target =>
            let row := req.newRow db.nextId source target db.requireApproval actor now
            if row.valid then some (.ok row) else none

def Db.insert (db : Db) (r : Row) : Db := ({ db with nextId := db.nextId + 1 }).put r

def Request.closing (req : Request) (r : Row) (suppress : AgentScope) (actor : String) (now : Time) : Option Closing :=
  if r.state = .active then some ⟨r.id, [req.alarmRowId], suppress, actor, now⟩ else none

def Db.closeIf (db : Db) (c : Option Closing) : Db := c.elim db db.closeSource

def Db.request (db : Db) (suppress : AgentScope) (req : Request) (actor : String) (now : Time) : Option (Db × Change) :=
  (db.requested sha256 suppress req actor now).map fun result =>
    match result with
    | .error change => (db, change)
    | .ok r => ((db.insert r).closeIf (req.closing r suppress actor now), .done (fetch db.groups r now))

end

/-- `decide` up to the `UPDATE`: the new row, or why not. -/
def Db.decided (db : Db) (d : Decision) : Option (Except Change Row) :=
  match (db.rows d.id).filter (inReach db.dir false d.approve) with
  | none => some (.error .notFound)
  | some r =>
    match d.check r (db.gone r.hostGroupId) with
    | some change => some (.error change)
    | none => if (d.write r).valid then some (.ok (d.write r)) else none

/-- The close of `decide`; the requester reached the source alarm. -/
def Decision.closing (d : Decision) (r : Row) : Option Closing :=
  if d.approveIt then r.alarmId.map fun alarm => ⟨d.id, [alarm], .global, d.actor, d.now⟩ else none

def Db.decide (db : Db) (d : Decision) : Option (Db × Change) :=
  (db.decided d).map fun result =>
    match result with
    | .error change => (db, change)
    | .ok r => ((db.put r).closeIf (d.closing r), .done (fetch db.groups r d.now))

def Db.withdraw (db : Db) (id : ℕ) (actor : String) (now : Time) : Option (Db × Change) :=
  match (db.rows id).filter fun r => r.createdBy = actor with
  | none => some (db, .notFound)
  | some r =>
    if r.state ≠ .waiting then some (db, .wrongState)
    else if (r.withdrawn actor now).valid then
      some (db.put (r.withdrawn actor now), .done (fetch db.groups (r.withdrawn actor now) now))
    else none

def Db.remove (db : Db) (suppress : AgentScope) (id : ℕ) (actor : String) (now : Time) : Option (Db × Change) :=
  match (db.rows id).filter fun r => r.state = .active && inReach db.dir false suppress r with
  | none => some (db, .notFound)
  | some r =>
    if (r.removed actor now).valid then
      some (db.put (r.removed actor now), .done (fetch db.groups (r.removed actor now) now))
    else none

/-- `close_covered`, with those of the alarms that the suppression has closed now. -/
def Db.closeCovered (db : Db) (c : Closing) : Db × List ℕ :=
  (db.closeSource c, c.alarmIds.filter fun k =>
    ((db.closeSource c).alarms[k]?).any fun e => e.row.triage.suppressedBy = some c.id)

/-! ### Histories -/

inductive Event where
  | deliver (agentId : String) (droppedTotal : ℕ) (reports : List Report) (now : Time)
  | request (suppress : AgentScope) (req : Request) (actor : String) (now : Time)
  | decide (d : Decision)
  | withdraw (id : ℕ) (actor : String) (now : Time)
  | remove (suppress : AgentScope) (id : ℕ) (actor : String) (now : Time)
  | closeCovered (c : Closing)
  | triage (id : ℕ) (newTriage : AlarmTriage) (history : List HistoryRow)
  | others (dir : Directory) (groups : String → Option Group) (requireApproval : Bool) (partitions : List ℤ)

section

variable (sha256 : String → String)

/-- The tables after an event; one that fails changes nothing. -/
def Event.run (db : Db) : Event → Db
  | .deliver agentId droppedTotal reports now => ((db.deliver agentId droppedTotal reports now).map Prod.fst).getD db
  | .request suppress req actor now => ((db.request sha256 suppress req actor now).map Prod.fst).getD db
  | .decide d => ((db.decide d).map Prod.fst).getD db
  | .withdraw id actor now => ((db.withdraw id actor now).map Prod.fst).getD db
  | .remove suppress id actor now => ((db.remove suppress id actor now).map Prod.fst).getD db
  | .closeCovered c => (db.closeCovered c).1
  | .triage id newTriage history =>
    { db with alarms := db.alarms.modify id fun e =>
      { e with row := { e.row with triage := newTriage }, history := history } }
  | .others dir groups requireApproval partitions =>
    { db with dir := dir, groups := groups, requireApproval := requireApproval, partitions := partitions }

def runAll (db : Db) (events : List Event) : Db := events.foldl (Event.run sha256) db

/-- The call of `close_source` in an event, with the tables it finds. -/
def Event.closing (db : Db) : Event → Option (Db × Closing)
  | .request suppress req actor now =>
    match db.requested sha256 suppress req actor now with
    | some (.ok r) => (req.closing r suppress actor now).map fun c => (db.insert r, c)
    | _ => none
  | .decide d =>
    match db.decided d with
    | some (.ok r) => (d.closing r).map fun c => (db.put r, c)
    | _ => none
  | .closeCovered c => some (db, c)
  | _ => none

structure Close where
  dir : Directory
  suppression : Row
  now : Time
  id : ℕ
  entry : Entry

def Closing.closes (db : Db) (c : Closing) : List Close :=
  match db.rows c.id with
  | none => []
  | some r =>
    db.alarms.zipIdx.filterMap fun a =>
      if (c.call r).covers db.dir a.2 a.1.row then some ⟨db.dir, r, c.now, a.2, a.1⟩ else none

def Event.closes (db : Db) (event : Event) : List Close :=
  (event.closing sha256 db).elim [] fun p => p.2.closes p.1

/-- What ingest would say of the alarm: the suppression is active and covers it. -/
def Close.matches (c : Close) : Bool :=
  let s := c.suppression
  s.state = .active && s.expiresAt.all (fun e => c.now < e) &&
    (command? c.entry.row.alarm.process).any (fun p =>
      suppressionMatches s.scope s.exe s.argsSha256 s.agentId c.entry.row.agentId (p.1, argsSha256 sha256 p.2)) &&
    s.hostGroupId.all fun group => hostInGroup c.dir c.entry.row.agentId group

/-- What `close_source` does not check: the expiry, and a command's arguments. -/
def Close.intended (c : Close) : Bool :=
  let s := c.suppression
  s.expiresAt.all (fun e => c.now < e) &&
    (s.scope ≠ .command ||
      (command? c.entry.row.alarm.process).any fun p => s.argsSha256 = some (argsSha256 sha256 p.2))

end

/-! ### The closes are what changes -/

variable {db : Db} {c : Closing} {x : Close}

theorem mem_closes : x ∈ c.closes db ↔ ∃ r e, db.rows c.id = some r ∧ db.alarms[x.id]? = some e ∧
      (c.call r).covers db.dir x.id e.row = true ∧ x = ⟨db.dir, r, c.now, x.id, e⟩ := by
  rw [Closing.closes]
  cases hr : db.rows c.id with
  | none => exact ⟨nofun, fun ⟨_, _, h, _⟩ => by cases h⟩
  | some r =>
    rw [mem_filterMap]
    constructor
    · rintro ⟨⟨e, k⟩, ha, hx⟩
      rw [ite_none_right_eq_some] at hx
      obtain ⟨hcv, hx⟩ := hx
      cases hx
      exact ⟨r, e, rfl, mk_mem_zipIdx_iff_getElem?.mp ha, hcv, rfl⟩
    · rintro ⟨r', e, hr', he, hcv, hx⟩
      cases hr'
      exact ⟨(e, x.id), mk_mem_zipIdx_iff_getElem?.mpr he, by rw [if_pos hcv, ← hx]⟩

def Close.after (x : Close) (c : Closing) : Entry :=
  record ((c.call x.suppression).historyRow x.entry.row.triage.state) ((c.call x.suppression).write x.entry)

/-- **`close_source` changes its closes** and no other alarm. -/
theorem alarms_closeSource (db : Db) (c : Closing) :
    (∀ x ∈ c.closes db, (db.closeSource c).alarms[x.id]? = some (x.after c)) ∧
      ∀ k, (∀ x ∈ c.closes db, x.id ≠ k) → (db.closeSource c).alarms[k]? = db.alarms[k]? := by
  constructor
  · intro x hmem
    obtain ⟨r, e, hr, he, hcv, hx⟩ := mem_closes.mp hmem
    rw [Db.closeSource, hr]
    dsimp only
    rw [getElem?_mapIdx, he, map_some, if_pos hcv, hx]
    rfl
  intro k hx
  rw [Db.closeSource]
  cases hr : db.rows c.id with
  | none => rfl
  | some r =>
    dsimp only
    rw [getElem?_mapIdx]
    cases he : db.alarms[k]? with
    | none => rfl
    | some e =>
      rw [map_some]
      split_ifs with hcv
      · exact absurd rfl (hx ⟨db.dir, r, c.now, k, e⟩ (mem_closes.mpr ⟨r, e, hr, he, hcv, rfl⟩))
      · rfl


variable {event : Event} {sha256 : String → String}

/-- **A write closes by `close_source`**, in the tables that `closing` tells. -/
theorem alarms_of_closing {db' : Db} (hc : event.closing sha256 db = some (db', c)) :
    db'.alarms = db.alarms ∧ (event.run sha256 db).alarms = (db'.closeSource c).alarms := by
  cases event with
  | deliver | triage | others | withdraw | remove => cases hc
  | closeCovered c =>
    cases hc
    exact ⟨rfl, rfl⟩
  | request suppress req actor now =>
    rw [Event.closing] at hc
    rw [Event.run, Db.request]
    match hreq : db.requested sha256 suppress req actor now with
    | none | some (.error _) =>
      rw [hreq] at hc
      cases hc
    | some (.ok r) =>
      rw [hreq] at hc
      obtain ⟨c', hc', heq⟩ := map_eq_some_iff.mp hc
      cases heq
      simp only [map_some, getD_some, hc']
      exact ⟨rfl, rfl⟩
  | decide d =>
    rw [Event.closing] at hc
    rw [Event.run, Db.decide]
    match hdec : db.decided d with
    | none | some (.error _) =>
      rw [hdec] at hc
      cases hc
    | some (.ok r) =>
      rw [hdec] at hc
      obtain ⟨c', hc', heq⟩ := map_eq_some_iff.mp hc
      cases heq
      simp only [map_some, getD_some, hc']
      exact ⟨rfl, rfl⟩

/-! ### What a close is -/

/-- Every suppression meets the constraints, and every alarm has a program and arguments. -/
structure Sound (db : Db) : Prop where
  rows : ∀ id r, db.rows id = some r → r.fieldsValid = true
  alarms : ∀ e ∈ db.alarms, (command? e.row.alarm.process).isSome = true

variable {r : Row} {sha256 : String → String}

theorem fieldsValid_of_valid (h : r.valid = true) : r.fieldsValid = true := by
  simp only [Row.valid, Bool.and_eq_true] at h
  tauto

theorem covers_iff {dir : Directory} {k : ℕ} {row : Alarms.AlarmRow} :
    (c.call r).covers dir k row = true ↔ r.state = .active ∧ k ∈ c.alarmIds ∧ row.triage.state = .open ∧
      row.alarm.ruleSetId = r.ruleSetId ∧ row.alarm.ruleId = r.ruleId ∧ (row.alarm.process.get "exe").asStr = r.exe ∧
      (r.scope = .program ∨ r.alarmId = some k) ∧ (r.agentId.all fun agent => row.agentId = agent) = true ∧
      (r.hostGroupId.all fun group => hostInGroup dir row.agentId group) = true ∧
          visible dir c.scope row.agentId = true := by
  have hatv : (c.call r).suppression.active = true ↔ r.state = .active := decide_eq_true_iff
  simp only [CloseCall.covers, Bool.and_eq_true, Bool.or_eq_true, decide_eq_true_eq, contains_iff_mem, and_assoc,
    hatv]
  exact Iff.rfl

theorem matches_eq_intended (h : Sound db) (hx : x ∈ c.closes db) : x.matches sha256 = x.intended sha256 := by
  obtain ⟨r, e, hr, he, hcv, heq⟩ := mem_closes.mp hx
  obtain ⟨hstt, -, -, -, -, hexe, -, hagt, hgrp, -⟩ := covers_iff.mp hcv
  obtain ⟨⟨exe, args⟩, hcom⟩ := isSome_iff_exists.mp (h.alarms e (mem_of_getElem? he))
  have hexe' : r.exe = some exe := by
    obtain ⟨exe', hexe', har⟩ := bind_eq_some_iff.mp hcom
    obtain ⟨args', -, heq⟩ := map_eq_some_iff.mp har
    rw [← hexe, hexe', (Prod.mk.inj heq).1]
  have hhs : (r.agentId.all fun agent => agent = e.row.agentId) = true := by
    rw [Option.all_eq_true] at hagt ⊢
    intro agent hmem
    exact decide_eq_true (of_decide_eq_true (hagt agent hmem)).symm
  have hfld := h.rows c.id r hr
  rw [heq, Close.matches, Close.intended]
  dsimp only
  rw [hcom, hgrp, hstt, any_some, any_some]
  -- a suppression of another scope has no program, and the alarm has one
  cases hscp : r.scope <;> simp [Row.fieldsValid, suppressionMatches, hscp, hexe', hhs] at hfld ⊢

theorem Sound.put (h : Sound db) {r : Row} (hr : r.fieldsValid = true) : Sound (db.put r) where
  rows id r' hr' := by
    replace hr' : Function.update db.rows r.id (some r) id = some r' := hr'
    rw [Function.update_apply] at hr'
    split_ifs at hr'
    · cases hr'
      exact hr
    · exact h.rows id r' hr'
  alarms := h.alarms

theorem Sound.insert (h : Sound db) (hr : r.fieldsValid = true) : Sound (db.insert r) :=
  @Sound.put { db with nextId := db.nextId + 1 } ⟨h.rows, h.alarms⟩ r hr

theorem Sound.closeSource (h : Sound db) (c : Closing) : Sound (db.closeSource c) := by
  rw [Db.closeSource]
  cases db.rows c.id with
  | none => exact h
  | some r =>
    refine ⟨h.rows, fun e he => ?_⟩
    obtain ⟨k, hk, rfl⟩ := mem_mapIdx.mp he
    have hold := h.alarms _ (getElem_mem hk)
    split_ifs
    · exact hold
    · exact hold

theorem Sound.closeIf (h : Sound db) (c : Option Closing) : Sound (db.closeIf c) := by
  cases c with
  | none => exact h
  | some c => exact h.closeSource c

theorem fieldsValid_requested {suppress : AgentScope} {req : Request} {actor : String}
    {now : Time} (h : db.requested sha256 suppress req actor now = some (.ok r)) : r.fieldsValid = true := by
  rw [Db.requested] at h
  cases hchk : req.check suppress with
  | some change =>
    rw [hchk] at h
    cases h
  | none =>
    rw [hchk] at h
    dsimp only at h
    split_ifs at h
    · cases h
    split at h
    · cases h
    obtain ⟨target, -, h⟩ := bind_eq_some_iff.mp h
    cases target with
    | error change => cases h
    | ok target =>
      dsimp only at h
      split_ifs at h with hval
      obtain rfl := Except.ok.inj (some.inj h)
      exact fieldsValid_of_valid hval

theorem fieldsValid_decided {d : Decision} (h : db.decided d = some (.ok r)) : r.fieldsValid = true := by
  rw [Db.decided] at h
  split at h
  · cases h
  split at h
  · cases h
  · split_ifs at h with hval
    obtain rfl := Except.ok.inj (some.inj h)
    exact fieldsValid_of_valid hval

section

theorem Sound.run (h : Sound db) (event : Event) : Sound (event.run sha256 db) := by
  cases event with
  | deliver agentId droppedTotal reports now =>
    rw [Event.run, Db.deliver]
    cases hs : insertBatch db.ingest agentId droppedTotal (reports.map Subtype.val) now with
    | none => exact h
    | some s =>
      refine ⟨h.rows, Alarms.process_insertBatch (P := fun p => (command? p).isSome = true) h.alarms
        (fun a ha => ?_) hs⟩
      obtain ⟨report, -, rfl⟩ := List.mem_map.mp ha
      exact report.2
  | request suppress req actor now =>
    rw [Event.run, Db.request]
    match hreq : db.requested sha256 suppress req actor now with
    | none => exact h
    | some (.error change) => exact h
    | some (.ok r) => exact (h.insert (fieldsValid_requested hreq)).closeIf _
  | decide d =>
    rw [Event.run, Db.decide]
    match hdec : db.decided d with
    | none => exact h
    | some (.error change) => exact h
    | some (.ok r) => exact (h.put (fieldsValid_decided hdec)).closeIf _
  | withdraw id actor now =>
    rw [Event.run, Db.withdraw]
    split
    · exact h
    split_ifs with hstt hval
    · exact h
    · exact h.put (fieldsValid_of_valid hval)
    · exact h
  | remove suppress id actor now =>
    rw [Event.run, Db.remove]
    split
    · exact h
    · split_ifs with hval
      · exact h.put (fieldsValid_of_valid hval)
      · exact h
  | closeCovered c => exact h.closeSource c
  | triage id newTriage history =>
    refine ⟨h.rows, fun e he => ?_⟩
    obtain ⟨k, he⟩ := mem_iff_getElem?.mp he
    rw [Event.run, getElem?_modify] at he
    obtain ⟨e₀, he₀, rfl⟩ := map_eq_some_iff.mp he
    have hold := h.alarms e₀ (mem_of_getElem? he₀)
    split_ifs
    · exact hold
    · exact hold
  | others dir groups approval partitions => exact ⟨h.rows, h.alarms⟩

theorem Sound.runAll (h : Sound db) (events : List Event) : Sound (runAll sha256 db events) := by
  induction events generalizing db with
  | nil => exact h
  | cons event events ih => exact ih (h.run event)

theorem Sound.closing (h : Sound db) {db' : Db} (hc : event.closing sha256 db = some (db', c)) : Sound db' := by
  cases event with
  | request suppress req actor now =>
    rw [Event.closing] at hc
    split at hc
    · next r hreq =>
      obtain ⟨c', -, heq⟩ := map_eq_some_iff.mp hc
      exact (Prod.mk.inj heq).1 ▸ h.insert (fieldsValid_requested hreq)
    · cases hc
  | decide d =>
    rw [Event.closing] at hc
    split at hc
    · next r hdec =>
      obtain ⟨c', -, heq⟩ := map_eq_some_iff.mp hc
      exact (Prod.mk.inj heq).1 ▸ h.put (fieldsValid_decided hdec)
    · cases hc
  | closeCovered c' => exact (Prod.mk.inj (some.inj hc)).1 ▸ h
  | deliver | withdraw | remove | triage | others => cases hc

/-- **What suppressions close.** After any history, ingest would say the same of a close exactly when the suppression
has not expired and, for a command, the alarm's present arguments are the suppressed ones. The event's run makes a false
positive of the alarm it names, as it was stored, and leaves alone what none of its closes names. -/
theorem closes_matches_iff {db₀ : Db} (h₀ : Sound db₀) (events : List Event) (event : Event) (x : Close)
    (hx : x ∈ event.closes sha256 (runAll sha256 db₀ events)) :
    (x.matches sha256 = true ↔ x.intended sha256 = true) ∧
    (runAll sha256 db₀ events).alarms[x.id]? = some x.entry ∧
    (∃ e, (event.run sha256 (runAll sha256 db₀ events)).alarms[x.id]? = some e ∧
      e.row.triage.state = .falsePositive ∧ e.row.triage.suppressedBy = some x.suppression.id) ∧
    ∀ k, (∀ y ∈ event.closes sha256 (runAll sha256 db₀ events), y.id ≠ k) →
      (event.run sha256 (runAll sha256 db₀ events)).alarms[k]? = (runAll sha256 db₀ events).alarms[k]? := by
  rw [Event.closes] at hx
  cases hc : event.closing sha256 (runAll sha256 db₀ events) with
  | none =>
    rw [hc] at hx
    exact absurd hx not_mem_nil
  | some p =>
    rw [hc] at hx
    obtain ⟨halm, hrun⟩ := alarms_of_closing hc
    obtain ⟨hcls, hoth⟩ := alarms_closeSource p.1 p.2
    obtain ⟨r, e, -, he, -, heq⟩ := mem_closes.mp hx
    rw [Event.closes, hc, hrun, ← halm]
    refine ⟨?_, ?_, ⟨_, hcls x hx, rfl, rfl⟩, hoth⟩
    · rw [matches_eq_intended ((h₀.runAll events).closing hc) hx]
    · rw [he, heq]

end

/-! ### An approval that comes late -/

def sampleReport (count : ℕ) (lastSeen : Time) (args : List String) : StoredAlarm where
  detection := none
  alarmId := "a-40"
  ruleSetId := "linux-base"
  ruleSetVersion := 3
  ruleId := "net.download"
  ruleVersion := 1
  severity := .medium
  confidence := 60
  message := "A download tool was started"
  firstSeen := 0
  lastSeen := lastSeen
  count := count
  process := .obj [("exe", .str "/usr/bin/curl"), ("args", .arr (args.map Json.str))]
  ancestors := .arr []
  exe := "/usr/bin/curl"
  argsSha256 := argsSha256 id args

def sampleDb (requireApproval : Bool) : Db where
  dir := ⟨Table.empty.insertNew ⟨"edge-4", false⟩, [], .empty⟩
  groups _ := none
  requireApproval := requireApproval
  rows _ := none
  nextId := 1
  partitions := [0]
  dropped _ := none
  alarms := []
  hourly := .empty

def sampleArrival : Event := .deliver "edge-4" 0 [⟨sampleReport 1 10 ["--version"], rfl⟩] 15

def sampleRequest : Event := .request .global ⟨0, .command, .host, none, "a nightly check"⟩ "dana" 20

def sampleHistory : List Event :=
  [sampleArrival, sampleRequest, .deliver "edge-4" 0 [⟨sampleReport 2 30 ["http://198.51.100.7/x"], rfl⟩] 35]

def sampleApproval : Event := .decide ⟨.global, 1, true, none, "erik", 50⟩

theorem sampleDb_sound (approval : Bool) : Sound (sampleDb approval) where
  rows _ _ h := by cases h
  alarms _ h := absurd h not_mem_nil

/-- A request that is active at once closes its alarm, which is of its command. -/
theorem closes_matches_iff_sample :
    ∃ x ∈ sampleRequest.closes id (runAll id (sampleDb false) [sampleArrival]), x.matches id = true :=
  ⟨_, mem_cons_self, (closes_matches_iff (sampleDb_sound false) [sampleArrival] sampleRequest _
    mem_cons_self).1.mpr rfl⟩

/-- **An approval closes another command**: the suppressed command was `--version`, and the alarm that the approval
closes is now of a download. -/
theorem approval_closes_another_command :
    Sound (sampleDb true) ∧ ∃ x ∈ sampleApproval.closes id (runAll id (sampleDb true) sampleHistory),
      x.matches id = false ∧ x.suppression.argsSha256 = some (argsSha256 id ["--version"]) ∧
      command? x.entry.row.alarm.process = some ("/usr/bin/curl", ["http://198.51.100.7/x"]) ∧
      (((sampleApproval.run id (runAll id (sampleDb true) sampleHistory)).alarms[x.id]?).map fun e =>
        e.row.triage.state) = some .falsePositive :=
  ⟨sampleDb_sound true, _, mem_cons_self, rfl, rfl, rfl, rfl⟩

end OpenVibes.Store.Suppressions
