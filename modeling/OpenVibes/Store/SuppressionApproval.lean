import OpenVibes.Store.Suppressions
import OpenVibes.Theory.Commits

/-!
# Approval of suppressions

`request`, `decide`, `withdraw` and `remove` of `crates/platform-store/src/alarm_suppression_writes.rs` and `delete` of
`host_group_writes.rs`, as programs (`Theory.Txn`) at READ COMMITTED. A statement that locks rows chooses them first, on
what is committed then, and takes each one if it still meets the condition. What is read of other tables is given with
the call. The close of alarms is in `Store.SuppressionCloses`.
-/

namespace OpenVibes.Store.Suppressions

open Theory Rust Option Function Cells Cell Bool Txn
open Store.Triage (AgentScope Directory)

/-! ### The tables -/

inductive Action where
  | created
  | requested
  | approved
  | rejected
  | withdrawn
  | removed
deriving DecidableEq

inductive AuditRow where
  | suppression (actor : String) (action : Action) (row : Row) (reason : String)
  /-- `host_group.deleted`, with the number of suppressions that ended. -/
  | groupDeleted (actor : String) (id : String) (group : Group) (ended : ℕ)

variable {r : Row} {call : Call} {s : Db} {p : Option Row × Option Row} {c : DeleteCall}

namespace Approval

structure Db where
  access : Cell ℕ Unit
  groups : Cells ℕ String (Option Group)
  rows : Cells ℕ ℕ (Option Row)
  /-- The sequence of its ids, which no rollback takes back. -/
  nextId : ℕ
  audit : Rows ℕ AuditRow

def Db.groupsSeen (s : Db) (t : ℕ) (id : String) : Option Group := (s.groups id).view t

/-! ### Statements -/

variable (t : ℕ)

/-- A locking read of one row: chosen by what is committed, and taken when it is free. -/
def lockWhere (id : ℕ) (p : Row → Bool) : Txn Db (Option (Row × Bool)) := do
  let chosen ← .query fun s => (((s.rows id).view t).filter p).map fun r =>
    r.hostGroupId.any fun group => (s.groupsSeen t group).isNone
  match chosen with
  | none => pure none
  | some gone =>
    let row ← .stmt fun s => (s.rows.lock t id).map fun r => (r.1, { s with rows := r.2 })
    pure ((row.filter p).map fun r => (r, gone))

/-- `UPDATE alarm_suppressions … WHERE id = …`. -/
def save (r : Row) : Txn Db Unit :=
  .stmt fun s => (s.rows.put t r.id (some r)).map fun rows => ((), { s with rows := rows })

/-- `fetch`. -/
def fetchRow (r : Row) (now : Time) : Txn Db Fetched := .query fun s => fetch (s.groupsSeen t) r now

/-- `INSERT INTO audit_log`. -/
def insertAudit (a : AuditRow) : Txn Db Unit :=
  .stmt fun s => some ((), { s with audit := s.audit.insert t a })

def finish (actor : String) (action : Action) (r : Row) (now : Time) : Txn Db (End (Option Change)) := do
  let made ← fetchRow t r now
  insertAudit t (.suppression actor action r r.note)
  pure (.commit (some (.done made)))

def saveAndFinish (actor : String) (action : Action) (r : Row) (now : Time) : Txn Db (End (Option Change)) :=
  if r.valid then do
    save t r
    finish t actor action r now
  else pure (.rollback none)

/-! ### `request`, `decide`, `withdraw` and `remove` -/

/-- The arguments of `request`, and what it reads of other tables. -/
structure RequestCall where
  suppress : AgentScope
  req : Request
  actor : String
  now : Time
  source : Option Source
  requireApproval : Bool

def RequestCall.row (c : RequestCall) (source : Source) (target : Alarms.SuppressionScope × Option String)
    (id : ℕ) : Row :=
  c.req.newRow id source target c.requireApproval c.actor c.now

/-- The `INSERT` of `request`; the sequence moves on also when it is refused. -/
def insertRow (make : ℕ → Row) : Txn Db (Option Row) :=
  .stmt fun s =>
    if (make s.nextId).valid then
      (s.rows.put t s.nextId (some (make s.nextId))).map fun rows =>
        (some (make s.nextId), { s with rows := rows, nextId := s.nextId + 1 })
    else some (none, { s with nextId := s.nextId + 1 })

def groupGone (group : Option String) : Txn Db Bool :=
  match group with
  | none => pure false
  | some id => .query fun s => (s.groupsSeen t id).isNone

section

variable (sha256 : String → String)

/-- `request` on a group that is there. -/
def requestOn (t : ℕ) (c : RequestCall) : Txn Db (End (Option Change)) :=
  match c.source with
  | none => pure (.rollback (some .notFound))
  | some source =>
    match c.req.target sha256 source with
    | none => pure (.rollback none)
    | some (.error change) => pure (.rollback (some change))
    | some (.ok target) => do
      match ← insertRow t (c.row source target) with
      | none => pure (.rollback none)
      | some r => finish t c.actor (if r.state = .active then .created else .requested) r c.now

def request (t : ℕ) (c : RequestCall) : Txn Db (End (Option Change)) :=
  match c.req.check c.suppress with
  | some change => pure (.rollback (some change))
  | none => do
    if ← groupGone t c.req.group then pure (.rollback (some (.invalid .group)))
    else requestOn sha256 t c

end

def decide (d : Decision) (dir : Directory) : Txn Db (End (Option Change)) := do
  match ← lockWhere t d.id (inReach dir false d.approve) with
  | none => pure (.rollback (some .notFound))
  | some (r, gone) =>
    match d.check r gone with
    | some change => pure (.rollback (some change))
    | none => saveAndFinish t d.actor (if d.approveIt then .approved else .rejected) (d.write r) d.now

def withdraw (id : ℕ) (actor : String) (now : Time) : Txn Db (End (Option Change)) := do
  match ← lockWhere t id fun r => r.createdBy = actor with
  | none => pure (.rollback (some .notFound))
  | some (r, _) =>
    if r.state ≠ .waiting then pure (.rollback (some .wrongState))
    else saveAndFinish t actor .withdrawn (r.withdrawn actor now) now

def remove (id : ℕ) (suppress : AgentScope) (dir : Directory) (actor : String) (now : Time) :
    Txn Db (End (Option Change)) := do
  match ← lockWhere t id fun r => r.state = .active && inReach dir false suppress r with
  | none => pure (.rollback (some .notFound))
  | some (r, _) => saveAndFinish t actor .removed (r.removed actor now) now

/-! ### `delete` of a host group -/

/-- `GroupWrite`, as `delete` returns it. -/
inductive GroupWrite where
  | saved (group : Group)
  | stale
  | notFound
  | inUse (roles : List String)

/-- One row of an `UPDATE` of many, written if it still meets the condition; `none` when the new row breaks a
constraint. -/
def endRow (p : Row → Bool) (f : Row → Row) (ended : Option (List Row)) (id : ℕ) : Txn Db (Option (List Row)) :=
  match ended with
  | none => pure none
  | some ended => do
    match ← lockWhere t id p with
    | none => pure (some ended)
    | some (r, _) =>
      if (f r).valid then do
        save t (f r)
        pure (some (ended ++ [f r]))
      else pure none

/-- `UPDATE alarm_suppressions … WHERE … RETURNING id`. -/
def endWhere (p : Row → Bool) (f : Row → Row) : Txn Db (Option (List Row)) := do
  let ids ← .query fun s => (List.range s.nextId).filter fun id => ((s.rows id).view t).any p
  ids.foldlM (endRow t p f) (some [])

def auditEnded (actor : String) (action : Action) (rows : List Row) : Txn Db Unit :=
  rows.foldlM (fun _ r => insertAudit t (.suppression actor action r "group deleted")) ()

/-- The arguments of `delete`, and the roles that reach the group. -/
structure DeleteCall where
  id : String
  version : ℤ
  actor : String
  now : Time
  roles : List String

def endSuppressions (c : DeleteCall) : Txn Db (Option ℕ) := do
  match ← endWhere t (fun r => r.hostGroupId = some c.id && r.state = .waiting) fun r => r.withdrawn c.actor c.now with
  | none => pure none
  | some withdrawn =>
    auditEnded t c.actor .withdrawn withdrawn
    match ← endWhere t (fun r => r.hostGroupId = some c.id && r.state = .active) fun r => r.removed c.actor c.now with
    | none => pure none
    | some removed =>
      auditEnded t c.actor .removed removed
      pure (some (withdrawn.length + removed.length))

/-- `delete`. -/
def deleteGroup (c : DeleteCall) : Txn Db (End (Option GroupWrite)) := do
  -- the access lock
  .stmt fun s => if s.access.free t then some ((), { s with access := s.access.write t () }) else none
  let current ← .stmt fun s => (s.groups.lock t c.id).map fun r => (r.1, { s with groups := r.2 })
  match current with
  | none => pure (.rollback (some .notFound))
  | some group =>
    if group.version ≠ c.version then pure (.rollback (some .stale))
    else if c.roles ≠ [] then pure (.rollback (some (.inUse c.roles)))
    else do
      match ← endSuppressions t c with
      | none => pure (.rollback none)
      | some ended =>
        .stmt fun s => (s.groups.put t c.id none).map fun groups => ((), { s with groups := groups })
        insertAudit t (.groupDeleted c.actor c.id group ended)
        pure (.commit (some (.saved group)))

/-! ### The system -/

inductive Call where
  | request (c : RequestCall)
  | decide (d : Decision) (dir : Directory)
  | withdraw (id : ℕ) (actor : String) (now : Time)
  | remove (id : ℕ) (suppress : AgentScope) (dir : Directory) (actor : String) (now : Time)
  | deleteGroup (c : DeleteCall)

/-- What a call returns; none is an error of the database. -/
inductive Result where
  | change (c : Option Change)
  | group (g : Option GroupWrite)

def Db.commit (s : Db) : Db :=
  { s with
    access := s.access.commit t, groups := s.groups.commit t, rows := s.rows.commit t, audit := s.audit.commit t }

def Db.abort (s : Db) : Db :=
  { s with access := s.access.abort t, groups := s.groups.abort t, rows := s.rows.abort t, audit := s.audit.abort t }

def prog (sha256 : String → String) (t : ℕ) : Call → Txn Db (End Result)
  | .request c => (request sha256 t c) >>= fun e => pure (e.map .change)
  | .decide d dir => (decide t d dir) >>= fun e => pure (e.map .change)
  | .withdraw id actor now => (withdraw t id actor now) >>= fun e => pure (e.map .change)
  | .remove id suppress dir actor now => (remove t id suppress dir actor now) >>= fun e => pure (e.map .change)
  | .deleteGroup c => (deleteGroup t c) >>= fun e => pure (e.map .group)

/-- Suppressions and groups, with new groups and new versions of them from outside. -/
def system (sha256 : String → String) : System ℕ Call (String × Group) Db (End Result) where
  prog := prog sha256
  close t e s :=
    match e with
    | .commit _ => s.commit t
    | .rollback _ => s.abort t
  abort := Db.abort
  effect op s :=
    if (s.groups op.1).held.isNone then
      some { s with groups := update s.groups op.1 (Cell.settled (some op.2)) }
    else none

/-! ### The changes of a row -/

/-- What a call can make of a row, from what is committed. -/
inductive Moved : Call → ℕ → Option Row → Option Row → Prop where
  | same (call : Call) (id : ℕ) (v : Option Row) : Moved call id v v
  | created (c : RequestCall) (source : Source) (target : Alarms.SuppressionScope × Option String) (id : ℕ) :
    Moved (.request c) id none (some (c.row source target id))
  /-- `decide`, by somebody other than the requester, who reaches it. -/
  | decided (d : Decision) (dir : Directory) (r : Row) (hwtg : r.state = .waiting) (hactor : r.createdBy ≠ d.actor)
    (hrch : inReach dir false d.approve r = true) : Moved (.decide d dir) d.id (some r) (some (d.write r))
  | withdrawn (id : ℕ) (actor : String) (now : Time) (r : Row) (hwtg : r.state = .waiting)
    (hactor : r.createdBy = actor) : Moved (.withdraw id actor now) id (some r) (some (r.withdrawn actor now))
  | removed (id : ℕ) (suppress : AgentScope) (dir : Directory) (actor : String) (now : Time) (r : Row)
    (hatv : r.state = .active) (hrch : inReach dir false suppress r = true) :
    Moved (.remove id suppress dir actor now) id (some r) (some (r.removed actor now))
  | groupWithdrawn (c : DeleteCall) (id : ℕ) (r : Row) (hgrp : r.hostGroupId = some c.id) (hwtg : r.state = .waiting) :
    Moved (.deleteGroup c) id (some r) (some (r.withdrawn c.actor c.now))
  | groupRemoved (c : DeleteCall) (id : ℕ) (r : Row) (hgrp : r.hostGroupId = some c.id) (hatv : r.state = .active) :
    Moved (.deleteGroup c) id (some r) (some (r.removed c.actor c.now))

/-- What holds of a committed row: undecided while it waits, and expiring its days after it became active. -/
structure RowSound (id : ℕ) (r : Row) : Prop where
  id : r.id = id
  undecided : r.state = .waiting → r.decidedBy = none ∧ r.decidedAt = none
  expires : r.state = .active → ∃ t, r.activatedAt = some t ∧
    r.expiresAt = r.forDays.map fun days => t + 24 * days * 3600000000

theorem RowSound.withdrawn {id : ℕ} (h : RowSound id r) (actor : String) (now : Time) :
    RowSound id (r.withdrawn actor now) :=
  ⟨h.id, nofun, nofun⟩

theorem RowSound.removed {id : ℕ} (h : RowSound id r) (actor : String) (now : Time) :
    RowSound id (r.removed actor now) :=
  ⟨h.id, nofun, nofun⟩

theorem RowSound.moved {id : ℕ} {v v' : Option Row} (h : ∀ r, v = some r → RowSound id r) (hmv : Moved call id v v') :
    ∀ r, v' = some r → RowSound id r := by
  intro r' hr'
  cases hmv with
  | same => exact h r' hr'
  | created c source target =>
    cases hr'
    refine ⟨rfl, fun _ => ⟨rfl, rfl⟩, fun hatv => ⟨c.now, ?_, ?_⟩⟩ <;>
      cases happ : c.requireApproval <;> simp_all [RequestCall.row, Request.newRow, expiry]
  | decided d dir r =>
    cases hr'
    refine ⟨(h r rfl).id, fun hwtg => ?_, fun hatv => ⟨d.now, ?_, ?_⟩⟩ <;>
      cases happr : d.approveIt <;> simp_all [Decision.write, expiry]
  | withdrawn id actor now r =>
    cases hr'
    exact (h r rfl).withdrawn actor now
  | removed id suppress dir actor now r =>
    cases hr'
    exact (h r rfl).removed actor now
  | groupWithdrawn c id r =>
    cases hr'
    exact (h r rfl).withdrawn c.actor c.now
  | groupRemoved c id r =>
    cases hr'
    exact (h r rfl).removed c.actor c.now

/-! ### The programs make only these changes -/

/-- The committed rows are sound, and the ids to come are free. -/
structure Consistent (s : Db) : Prop where
  rows : ∀ id r, (s.rows id).committed = some r → RowSound id r
  fresh : ∀ id, s.nextId ≤ id → s.rows id = Cell.settled none

def Steps (s s' : Db) : Prop := s.nextId ≤ s'.nextId ∧ ∀ id, s'.nextId ≤ id → s'.rows id = s.rows id

theorem Steps.refl (s : Db) : Steps s s := ⟨le_rfl, fun _ _ => rfl⟩

/-- A program, from the rows that its transaction has in hand. -/
abbrev Runs {α : Type} (Q : α → (ℕ → Option (Option Row × Option Row)) → Prop) (p : Txn Db α)
    (l : ℕ → Option (Option Row × Option Row)) : Prop :=
  p.Meets Consistent (fun s => s.rows.hand t) (System.Acts Db.rows Steps t) Q l

variable {t} {l : ℕ → Option (Option Row × Option Row)} {β : Type}
  {Q : β → (ℕ → Option (Option Row × Option Row)) → Prop} {f : Row → Row}

theorem query_runs {q : Db → β} (h : ∀ b, Q b l) : Runs t Q (.query q) l :=
  Meets.query (fun s => ⟨Cells.Takes.refl t s.rows, Steps.refl s⟩) fun s _ _ => h (q s)

theorem stmt_runs {act : Db → Option (β × Db)}
    (hact : ∀ s b s', act s = some (b, s') → s'.rows = s.rows ∧ s'.nextId = s.nextId) (h : ∀ b, Q b l) :
    Runs t Q (.stmt act) l := by
  intro s b s' _ hs hs'
  obtain ⟨hrw, hnx⟩ := hact s b s' hs'
  refine ⟨⟨?_, hnx.symm.le, fun id _ => by rw [hrw]⟩, ?_⟩
  · rw [hrw]
    exact .refl t s.rows
  · change Q b (s'.rows.hand t)
    rw [hrw, show s.rows.hand t = l from hs]
    exact h b

variable {Q : Unit → (ℕ → Option (Option Row × Option Row)) → Prop}

theorem insertAudit_runs (a : AuditRow) (h : Q () l) : Runs t Q (insertAudit t a) l := by
  refine stmt_runs (fun s b s' hs' => ?_) fun _ => h
  cases hs'
  exact ⟨rfl, rfl⟩

theorem Consistent.lt_of_own (h : Consistent s) {id : ℕ} (hown : (s.rows id).own t = some p) : id < s.nextId := by
  by_contra hge
  rw [h.fresh id (not_lt.mp hge), own_settled] at hown
  cases hown

theorem Consistent.lt_of_view (h : Consistent s) {id : ℕ} (hvw : (s.rows id).view t = some r) : id < s.nextId := by
  by_contra hge
  rw [h.fresh id (not_lt.mp hge), view_settled] at hvw
  cases hvw

theorem Consistent.acts_write {id : ℕ} (hid : id < s.nextId) (hfr : (s.rows id).free t = true) (v : Option Row) :
    System.Acts Db.rows Steps t s { s with rows := s.rows.write t id v } :=
  ⟨takes_write hfr v, le_rfl, fun j hj => write_of_ne (by rintro rfl; exact absurd hid (not_lt.mpr hj)) t v s.rows⟩

/-- **A locking read** answers a row that meets the condition, and brings it to hand. -/
theorem lockWhere_runs {Q : Option (Row × Bool) → (ℕ → Option (Option Row × Option Row)) → Prop} {id : ℕ} {p : Row →
    Bool} (hnn : Q none l)
    (hmis : ∀ r, l id = none → RowSound id r → Q none (update l id (some (some r, some r))))
    (hhd : ∀ old r gone, l id = some (old, some r) → p r = true → Q (some (r, gone)) l)
    (htak : ∀ r gone, l id = none → RowSound id r → p r = true →
      Q (some (r, gone)) (update l id (some (some r, some r)))) :
    Runs t Q (lockWhere t id p) l := by
  refine .bind (query_runs fun chosen => ?_)
  cases chosen with
  | none => exact hnn
  | some gone =>
    intro s row s' hI hs hact
    obtain ⟨⟨row', rows'⟩, hlk, heq⟩ := map_eq_some_iff.mp hact
    cases heq
    obtain ⟨hvw, ⟨rfl, rfl⟩ | ⟨hso, hfr, rfl⟩⟩ := lock_eq_some_iff.mp hlk
    · refine ⟨⟨.refl t _, .refl s⟩, ?_⟩
      change Q none (s.rows.hand t)
      rw [show s.rows.hand t = l from hs]
      exact hnn
    obtain ⟨r, rfl⟩ := ne_none_iff_exists'.mp hso
    refine ⟨Consistent.acts_write (hI.lt_of_view hvw) hfr _, ?_⟩
    change Q (((some r).filter p).map fun r => (r, gone)) ((s.rows.write t id (some r)).hand t)
    have hl : l id = (s.rows id).own t := (congrFun hs id).symm
    rw [hand_write, show s.rows.hand t = l from hs]
    cases hown : (s.rows id).own t with
    | none =>
      rw [view_of_none hown] at hvw
      rw [hvw, Option.filter]
      split_ifs with hp
      · exact htak r gone (hl.trans hown) (hI.rows id r hvw) hp
      · exact hmis r (hl.trans hown) (hI.rows id r hvw)
    | some o =>
      rw [view_of_own hown] at hvw
      have hupd : update l id (some ((s.rows id).committed, some r)) = l := by
        rw [(own_iff.mp hown).1, ← hvw, update_eq_self_iff, hl, hown]
      rw [hupd, Option.filter]
      split_ifs with hp
      · exact hhd o.1 r gone (hl.trans (hown.trans (by rw [← hvw]))) hp
      · exact hnn

theorem save_runs (hl : l r.id = some p) (h : Q () (update l r.id (some (p.1, some r)))) : Runs t Q (save t r) l := by
  intro s b s' hI hs hact
  obtain ⟨rows', hput, heq⟩ := map_eq_some_iff.mp hact
  obtain ⟨-, rfl⟩ := Prod.mk.inj heq
  obtain ⟨hfr, rfl⟩ := put_eq_some_iff.mp hput
  have hown : (s.rows r.id).own t = some p := (congrFun hs r.id).trans hl
  refine ⟨Consistent.acts_write (hI.lt_of_own hown) hfr _, ?_⟩
  change Q b ((s.rows.write t r.id (some r)).hand t)
  rw [hand_write, show s.rows.hand t = l from hs, committed_of_own hown]
  exact h

theorem insertRow_runs {Q : Option Row → (ℕ → Option (Option Row × Option Row)) → Prop} {make : ℕ → Row}
    (hnn : Q none l) (h : ∀ id, Q (some (make id)) (update l id (some (none, some (make id))))) :
    Runs t Q (insertRow t make) l := by
  intro s b s' hI hs hact
  dsimp only at hact
  split_ifs at hact with hval
  · obtain ⟨rows', hput, heq⟩ := map_eq_some_iff.mp hact
    cases heq
    obtain ⟨hfr, rfl⟩ := put_eq_some_iff.mp hput
    refine ⟨⟨takes_write hfr _, Nat.le_succ _, fun id hid => ?_⟩, ?_⟩
    · exact write_of_ne (Nat.ne_of_gt hid) t _ s.rows
    · dsimp only
      rw [hand_write, show s.rows.hand t = l from hs, hI.fresh s.nextId le_rfl]
      exact h s.nextId
  · cases hact
    refine ⟨⟨.refl t _, Nat.le_succ _, fun _ _ => rfl⟩, ?_⟩
    change Q none (s.rows.hand t)
    rw [show s.rows.hand t = l from hs]
    exact hnn

/-- Every row in hand is changed as the call can change it. -/
def Fine (call : Call) (l : ℕ → Option (Option Row × Option Row)) : Prop := ∀ k p, l k = some p → Moved call k p.1 p.2

theorem fine_nothing (call : Call) : Fine call fun _ => none := fun _ _ h => by cases h

theorem Fine.update (h : Fine call l) {id : ℕ} (hp : Moved call id p.1 p.2) : Fine call (update l id (some p)) := by
  intro k q hq
  rw [update_apply] at hq
  split_ifs at hq with hk
  · cases hq
    exact hk ▸ hp
  · exact h k q hq

theorem finish_runs (h : Fine call l) (actor : String) (action : Action) (r : Row) (now : Time) :
    Runs t (System.Commits Moved call) (finish t actor action r now) l :=
  Meets.bind (query_runs fun _ => Meets.bind (insertAudit_runs _ h))

theorem saveAndFinish_runs {id : ℕ} {r₀ : Row} (hmv : Moved call id (some r₀) (some r)) (hid : r.id = id)
    (actor : String) (action : Action) (now : Time) :
    Runs t (System.Commits Moved call) (saveAndFinish t actor action r now)
      (update (fun _ => none) id (some (some r₀, some r₀))) := by
  subst hid
  rw [saveAndFinish]
  split_ifs
  · refine .bind (save_runs (update_self ..) ?_)
    exact finish_runs (((fine_nothing call).update (.same call r.id (some r₀))).update hmv) actor action r now
  · exact trivial

theorem requestOn_runs (sha256 : String → String) (t : ℕ) (c : RequestCall) :
    Runs t (System.Commits Moved (.request c)) (requestOn sha256 t c) fun _ => none := by
  rw [requestOn]
  cases c.source with
  | none => exact trivial
  | some source =>
    dsimp only
    rcases c.req.target sha256 source with _ | (change | target)
    · exact trivial
    · exact trivial
    · refine .bind (insertRow_runs trivial fun id => ?_)
      exact finish_runs ((fine_nothing _).update (.created c source target id)) _ _ _ _

theorem request_runs (sha256 : String → String) (t : ℕ) (c : RequestCall) :
    Runs t (System.Commits Moved (.request c)) (request sha256 t c) fun _ => none := by
  have hrs : ∀ gone : Bool, Runs t (System.Commits Moved (.request c))
      (if gone then pure (.rollback (some (.invalid .group))) else requestOn sha256 t c) fun _ => none := by
    intro gone
    split_ifs
    · exact trivial
    · exact requestOn_runs sha256 t c
  rw [request]
  split
  · exact trivial
  refine .bind ?_
  cases c.req.group with
  | none => exact hrs false
  | some id => exact query_runs hrs

theorem check_eq_none {d : Decision} {gone : Bool} (h : d.check r gone = none) :
    r.state = .waiting ∧ r.createdBy ≠ d.actor := by
  rw [Decision.check] at h
  split_ifs at h with hstt hactor
  exact ⟨not_not.mp hstt, hactor⟩

theorem decide_runs (t : ℕ) (d : Decision) (dir : Directory) :
    Runs t (System.Commits Moved (.decide d dir)) (decide t d dir) fun _ => none := by
  refine .bind (lockWhere_runs trivial (fun _ _ _ => trivial) (fun _ _ _ h => by cases h)
    fun r gone _ hsnd hrch => ?_)
  dsimp only
  cases hchk : d.check r gone with
  | some change => exact trivial
  | none =>
    obtain ⟨hwtg, hactor⟩ := check_eq_none hchk
    exact saveAndFinish_runs (.decided d dir r hwtg hactor hrch) hsnd.id _ _ _

theorem withdraw_runs (t id : ℕ) (actor : String) (now : Time) :
    Runs t (System.Commits Moved (.withdraw id actor now)) (withdraw t id actor now) fun _ => none := by
  refine .bind (lockWhere_runs trivial (fun _ _ _ => trivial) (fun _ _ _ h => by cases h)
    fun r _ _ hsnd hactor => ?_)
  dsimp only
  split_ifs with hstt
  · exact trivial
  · exact saveAndFinish_runs
      (.withdrawn id actor now r (not_not.mp hstt) (of_decide_eq_true hactor)) hsnd.id _ _ _

theorem remove_runs (t id : ℕ) (suppress : AgentScope) (dir : Directory) (actor : String) (now : Time) :
    Runs t (System.Commits Moved (.remove id suppress dir actor now))
        (remove t id suppress dir actor now) fun _ => none := by
  refine .bind (lockWhere_runs trivial (fun _ _ _ => trivial) (fun _ _ _ h => by cases h)
    fun r _ _ hsnd hp => ?_)
  rw [and_eq_true] at hp
  exact saveAndFinish_runs (.removed id suppress dir actor now r (of_decide_eq_true hp.1) hp.2) hsnd.id _ _ _

/-! ### The deletion of a group -/

/-- What the deletion has in hand: rows as they are committed, and rows that it has ended. -/
def Ended (c : DeleteCall) (l : ℕ → Option (Option Row × Option Row)) : Prop :=
  ∀ k p, l k = some p → (p.1 = p.2 ∧ ∀ r, p.2 = some r → RowSound k r) ∨
    Moved (.deleteGroup c) k p.1 p.2 ∧ ∀ r, p.2 = some r → r.state = .withdrawn ∨ r.state = .removed

theorem Ended.fine (h : Ended c l) : Fine (.deleteGroup c) l := by
  intro k p hp
  rcases h k p hp with ⟨hsm, -⟩ | ⟨hmv, -⟩
  · rw [hsm]
    exact .same _ k p.2
  · exact hmv

theorem Ended.taken (h : Ended c l) {id : ℕ} (hr : RowSound id r) :
    Ended c (update l id (some (some r, some r))) := by
  intro k p hp
  rw [update_apply] at hp
  split_ifs at hp with hk
  · cases hp
    exact .inl ⟨rfl, fun r' hr' => some.inj hr' ▸ hk ▸ hr⟩
  · exact h k p hp

structure Ends (c : DeleteCall) (p : Row → Bool) (f : Row → Row) : Prop where
  moved : ∀ id r, p r = true → Moved (.deleteGroup c) id (some r) (some (f r))
  ended : ∀ r, (f r).state = .withdrawn ∨ (f r).state = .removed
  running : ∀ r, p r = true → r.state = .waiting ∨ r.state = .active
  id : ∀ r, (f r).id = r.id

variable {p : Row → Bool}

theorem Ended.written (hf : Ends c p f) {id : ℕ} (h : Ended c (update l id (some (some r, some r)))) (hp : p r = true) :
    Ended c (update l id (some (some r, some (f r)))) := by
  intro k q hq
  rw [update_apply] at hq
  split_ifs at hq with hk
  · cases hq
    exact .inr ⟨hf.moved k r hp, fun r' hr' => some.inj hr' ▸ hf.ended r⟩
  · exact h k q (by rwa [update_of_ne hk])

theorem Ended.committed (hf : Ends c p f) (h : Ended c l) {id : ℕ} {old : Option Row}
    (hl : l id = some (old, some r)) (hp : p r = true) : old = some r ∧ RowSound id r := by
  rcases h id _ hl with ⟨hsm, hsnd⟩ | ⟨-, hend⟩
  · exact ⟨hsm, hsnd r rfl⟩
  · rcases hend r rfl with hr | hr <;> rcases hf.running r hp with hop | hop <;> rw [hr] at hop <;> cases hop

theorem endRow_runs (hf : Ends c p f) (h : Ended c l) (ended : Option (List Row))
    (id : ℕ) : Runs t (fun _ l => Ended c l) (endRow t p f ended id) l := by
  cases ended with
  | none => exact h
  | some ended =>
    -- the row is in hand as it is committed, and is written
    have hwrt : ∀ (r : Row) (l : ℕ → Option (Option Row × Option Row)), l id = some (some r, some r) → RowSound id r →
        p r = true → Ended c l → Runs t (fun _ l => Ended c l)
          (if (f r).valid then (do save t (f r); pure (some (ended ++ [f r]))) else pure none) l := by
      intro r l hl hsnd hp hend
      split_ifs
      · have hid : (f r).id = id := (hf.id r).trans hsnd.id
        refine .bind (save_runs (hid ▸ hl) ?_)
        rw [hid]
        refine .written hf ?_ hp
        rwa [update_eq_self_iff.mpr hl.symm]
      · exact hend
    refine .bind (lockWhere_runs h (fun r _ hsnd => h.taken hsnd) (fun old r gone hl hp => ?_)
      fun r gone _ hsnd hp => ?_)
    · obtain ⟨rfl, hsnd⟩ := h.committed hf hl hp
      exact hwrt r l hl hsnd hp h
    · exact hwrt r _ (update_self ..) hsnd hp (h.taken hsnd)

theorem endWhere_runs (hf : Ends c p f) (h : Ended c l) : Runs t (fun _ l => Ended c l) (endWhere t p f) l :=
  Meets.bind (query_runs fun _ => Meets.foldlM (J := fun _ _ l => Ended c l)
    (fun id _ ended _ h => endRow_runs hf h ended id) h)

theorem auditEnded_runs (h : Ended c l) (actor : String) (action : Action) (rows : List Row) :
    Runs t (fun _ l => Ended c l) (auditEnded t actor action rows) l :=
  Meets.foldlM (J := fun _ _ l => Ended c l) (fun _ _ _ _ h => insertAudit_runs _ h) h

theorem ends_withdrawn (c : DeleteCall) :
    Ends c (fun r => r.hostGroupId = some c.id && r.state = .waiting) fun r => r.withdrawn c.actor c.now where
  moved id r hp := by
    rw [and_eq_true] at hp
    exact .groupWithdrawn c id r (of_decide_eq_true hp.1) (of_decide_eq_true hp.2)
  ended _ := .inl rfl
  running r hp := by
    rw [and_eq_true] at hp
    exact .inl (of_decide_eq_true hp.2)
  id _ := rfl

theorem ends_removed (c : DeleteCall) :
    Ends c (fun r => r.hostGroupId = some c.id && r.state = .active) fun r => r.removed c.actor c.now where
  moved id r hp := by
    rw [and_eq_true] at hp
    exact .groupRemoved c id r (of_decide_eq_true hp.1) (of_decide_eq_true hp.2)
  ended _ := .inr rfl
  running r hp := by
    rw [and_eq_true] at hp
    exact .inr (of_decide_eq_true hp.2)
  id _ := rfl

theorem endSuppressions_runs (h : Ended c l) : Runs t (fun _ l => Ended c l) (endSuppressions t c) l := by
  refine (endWhere_runs (ends_withdrawn c) h).seq fun withdrawn l h => ?_
  cases withdrawn with
  | none => exact h
  | some withdrawn =>
    refine (auditEnded_runs h _ _ _).seq fun _ l h => ?_
    refine (endWhere_runs (ends_removed c) h).seq fun removed l h => ?_
    cases removed with
    | none => exact h
    | some removed => exact (auditEnded_runs h _ _ _).seq fun _ l h => h

theorem deleteGroup_runs (t : ℕ) (c : DeleteCall) :
    Runs t (System.Commits Moved (.deleteGroup c)) (deleteGroup t c) fun _ => none := by
  refine .bind (stmt_runs (fun s b s' hs' => ?_) fun _ => ?_)
  · rw [ite_none_right_eq_some] at hs'
    obtain ⟨-, rfl⟩ := Prod.mk.inj (some.inj hs'.2)
    exact ⟨rfl, rfl⟩
  refine .bind (stmt_runs (fun s b s' hs' => ?_) fun current => ?_)
  · obtain ⟨r, -, heq⟩ := map_eq_some_iff.mp hs'
    cases heq
    exact ⟨rfl, rfl⟩
  cases current with
  | none => exact trivial
  | some group =>
    dsimp only
    split_ifs
    · exact trivial
    · exact trivial
    have hsta : Ended c fun _ => none := fun _ _ h => by cases h
    refine (endSuppressions_runs hsta).seq fun ended l h => ?_
    cases ended with
    | none => exact trivial
    | some ended =>
      refine .bind (stmt_runs (fun s b s' hs' => ?_) fun _ => ?_)
      · obtain ⟨groups', -, heq⟩ := map_eq_some_iff.mp hs'
        cases heq
        exact ⟨rfl, rfl⟩
      · exact .bind (insertAudit_runs _ h.fine)

/-! ### Schedules -/

theorem commits_map {α β : Type} {f : α → β} {e : End α} (h : System.Commits Moved call e l) :
    System.Commits Moved call (e.map f) l := by
  cases e with
  | commit a => exact h
  | rollback a => exact trivial

theorem prog_runs (sha256 : String → String) (t : ℕ) (call : Call) :
    Runs t (System.Commits Moved call) (prog sha256 t call) fun _ => none := by
  cases call with
  | request c =>
    have hreq := request_runs sha256 t c
    rw [prog]
    -- the check of the request is not to be evaluated again
    generalize request sha256 t c = p at hreq ⊢
    exact hreq.seq fun _ _ h => commits_map h
  | decide d dir => exact (decide_runs t d dir).seq fun _ _ h => commits_map h
  | withdraw id actor now => exact (withdraw_runs t id actor now).seq fun _ _ h => commits_map h
  | remove id suppress dir actor now =>
    exact (remove_runs t id suppress dir actor now).seq fun _ _ h => commits_map h
  | deleteGroup c => exact (deleteGroup_runs t c).seq fun _ _ h => commits_map h

theorem Consistent.commit (h : Consistent s) {t : ℕ} {call : Call} (hfi : Fine call (s.rows.hand t)) :
    Consistent (s.commit t) where
  rows id r hr := by
    change ((s.rows id).commit t).committed = some r at hr
    cases hown : (s.rows id).own t with
    | none =>
      rw [commit_of_none hown] at hr
      exact h.rows id r hr
    | some p =>
      rw [commit_of_own hown] at hr
      have hold : ∀ r, p.1 = some r → RowSound id r := fun r hr =>
        h.rows id r ((own_iff.mp hown).1.trans hr)
      exact .moved hold (hfi id p hown) r hr
  fresh id hid := by
    change (s.rows id).commit t = settled none
    rw [h.fresh id hid, commit_of_none (own_settled t none)]

theorem Consistent.abort (h : Consistent s) (t : ℕ) : Consistent (s.abort t) where
  rows id r hr := h.rows id r ((committed_abort t (s.rows id)).symm.trans hr)
  fresh id hid := by
    change (s.rows id).abort t = settled none
    rw [h.fresh id hid, abort_of_own_none (own_settled t none)]

theorem system_follows (sha256 : String → String) : (system sha256).Follows Db.rows Consistent Steps Moved where
  start := prog_runs sha256
  close t e s := by cases e <;> rfl
  abort _ _ := rfl
  effect op s s' h := by
    rw [system, ite_none_right_eq_some] at h
    rw [← some.inj h.2]
  keeps t s s' hI hac := by
    refine ⟨fun id r hr => hI.rows id r ((hac.1.committed id).symm.trans hr), fun id hid => ?_⟩
    rw [hac.2.2 id hid]
    exact hI.fresh id (hac.2.1.trans hid)
  closes t call e s hI h := by
    cases e with
    | commit a => exact @Consistent.commit s hI t call h
    | rollback a => exact hI.abort t
  aborts t s hI := hI.abort t
  effects op s s' hI h := by
    rw [system, ite_none_right_eq_some] at h
    rw [← some.inj h.2]
    exact ⟨hI.rows, hI.fresh⟩

/-- A database at rest: nobody holds a suppression, and the rows are sound. -/
structure AtRest (s : Db) : Prop where
  settled : ∀ id, (s.rows id).held = none
  rows : ∀ id r, (s.rows id).committed = some r → RowSound id r
  fresh : ∀ id, s.nextId ≤ id → (s.rows id).committed = none

theorem AtRest.consistent (h : AtRest s) : Consistent s where
  rows := h.rows
  fresh id hid := by
    have hhd := h.settled id
    have hcom := h.fresh id hid
    cases hcl : s.rows id
    rw [hcl] at hhd hcom
    cases hhd
    cases hcom
    rfl

def CommitOf (S : Sessions ℕ Call Db (End Result)) (m : Move ℕ Call (String × Group)) (call : Call) : Prop :=
  ∃ t a, m = .advance t ∧ S.running t = some (call, .ret (.commit a))

structure FourEyes (S : Sessions ℕ Call Db (End Result)) (m : Move ℕ Call (String × Group)) (id : ℕ) (r r' : Row) :
    Prop where
  createdBy : r'.createdBy = r.createdBy
  /-- It becomes active only by an approval, by somebody other than the requester who reaches it. -/
  activated : r.state ≠ .active → r'.state = .active → ∃ d dir, CommitOf S m (.decide d dir) ∧ d.id = id ∧
    d.approveIt = true ∧ r.state = .waiting ∧ d.actor ≠ r.createdBy ∧ inReach dir false d.approve r = true
  final : r.state = .rejected ∨ r.state = .withdrawn ∨ r.state = .removed → r' = r
  decidedOnce : r.decidedBy ≠ none ∨ r.decidedAt ≠ none → r'.decidedBy = r.decidedBy ∧ r'.decidedAt = r.decidedAt
  /-- It leaves active only by a removal or with its group. -/
  deactivated : r.state = .active → r'.state ≠ .active →
    (∃ suppress dir actor now, CommitOf S m (.remove id suppress dir actor now)) ∨
      ∃ c, CommitOf S m (.deleteGroup c) ∧ r.hostGroupId = some c.id

theorem fourEyes_same (S : Sessions ℕ Call Db (End Result)) (m : Move ℕ Call (String × Group)) (id : ℕ) (r : Row) :
    FourEyes S m id r r where
  createdBy := rfl
  activated h h' := absurd h' h
  final _ := rfl
  decidedOnce _ := ⟨rfl, rfl⟩
  deactivated h h' := absurd h h'

theorem not_decided {id : ℕ} (h : RowSound id r) (hwtg : r.state = .waiting) :
    ¬(r.decidedBy ≠ none ∨ r.decidedAt ≠ none) := by
  obtain ⟨hby, hat⟩ := h.undecided hwtg
  rintro (hne | hne)
  · exact hne hby
  · exact hne hat

theorem not_final (h : r.state = .waiting ∨ r.state = .active) :
    ¬(r.state = .rejected ∨ r.state = .withdrawn ∨ r.state = .removed) := by
  rcases h with h | h <;> rw [h] <;> decide

theorem fourEyes_of_moved {S : Sessions ℕ Call Db (End Result)} {m : Move ℕ Call (String × Group)}
    (hcmt : CommitOf S m call) {id : ℕ} (hsnd : RowSound id r) {v : Option Row} (h : Moved call id (some r) v) :
    ∃ r', v = some r' ∧ FourEyes S m id r r' := by
  cases h with
  | same => exact ⟨r, rfl, fourEyes_same S m id r⟩
  | decided d dir _ hwtg hactor hrch =>
    refine ⟨d.write r, rfl, rfl, fun _ hatv => ⟨d, dir, hcmt, rfl, ?_, hwtg, .symm hactor, hrch⟩,
      fun h => absurd h (not_final (.inl hwtg)), fun h => absurd h (not_decided hsnd hwtg), fun hatv => ?_⟩
    · by_contra hne
      rw [not_eq_true] at hne
      rw [Decision.write, hne] at hatv
      cases hatv
    · rw [hwtg] at hatv
      cases hatv
  | withdrawn _ actor now _ hwtg =>
    refine ⟨r.withdrawn actor now, rfl, rfl, nofun, fun h => absurd h (not_final (.inl hwtg)),
      fun h => absurd h (not_decided hsnd hwtg), fun hatv => ?_⟩
    rw [hwtg] at hatv
    cases hatv
  | removed _ suppress dir actor now _ hatv =>
    exact ⟨r.removed actor now, rfl, rfl, nofun, fun h => absurd h (not_final (.inr hatv)),
      fun _ => ⟨rfl, rfl⟩, fun _ _ => .inl ⟨suppress, dir, actor, now, hcmt⟩⟩
  | groupWithdrawn c _ _ hgrp hwtg =>
    refine ⟨r.withdrawn c.actor c.now, rfl, rfl, nofun, fun h => absurd h (not_final (.inl hwtg)),
      fun h => absurd h (not_decided hsnd hwtg), fun hatv => ?_⟩
    rw [hwtg] at hatv
    cases hatv
  | groupRemoved c _ _ hgrp hatv =>
    exact ⟨r.removed c.actor c.now, rfl, rfl, nofun, fun h => absurd h (not_final (.inr hatv)),
      fun _ => ⟨rfl, rfl⟩, fun _ _ => .inr ⟨c, hcmt, hgrp⟩⟩

/-- **Four eyes on suppressions.** At every move of every schedule: a new row comes from a request, waiting if approval
was required; a row changes as `FourEyes` says; and an active row expires its days after it became active, or not at
all. -/
theorem four_eyes {sha256 : String → String} {s₀ : Db} (h₀ : AtRest s₀) {moves : List (Move ℕ Call (String × Group))}
    {S S' : Sessions ℕ Call Db (End Result)} {m : Move ℕ Call (String × Group)}
    (hrun : run (system sha256).step (Sessions.quiet s₀) moves = some S) (hst : (system sha256).step S m = some S')
    (id : ℕ) :
    (∀ r', (S.state.rows id).committed = none → (S'.state.rows id).committed = some r' →
      ∃ c, CommitOf S m (.request c) ∧ r'.createdBy = c.actor ∧
        r'.state = if c.requireApproval then .waiting else .active) ∧
      (∀ r, (S.state.rows id).committed = some r → ∃ r', (S'.state.rows id).committed = some r' ∧
      FourEyes S m id r r') ∧
      ∀ r', (S'.state.rows id).committed = some r' → r'.state = .active → ∃ t, r'.activatedAt = some t ∧
        r'.expiresAt = r'.forDays.map fun days => t + 24 * days * 3600000000 := by
  have hfol := system_follows sha256
  have hS := hfol.run (System.following_quiet h₀.consistent h₀.settled) hrun
  have hS' := hfol.run hS (show run (system sha256).step S [m] = some S' from run_cons.mpr ⟨S', hst, rfl⟩)
  have hchg := hfol.step hS hst id
  refine ⟨fun r' hnn hso => ?_, fun r hr => ?_, fun r' hr' => (hS'.state.rows id r' hr').expires⟩
  · rcases hchg with hsm | ⟨t, call, a, hm, hret, hmv⟩
    · rw [hsm, hnn] at hso
      cases hso
    · rw [hnn, hso] at hmv
      cases hmv with
      | created c source target => exact ⟨c, ⟨t, a, hm, hret⟩, rfl, rfl⟩
  · rcases hchg with hsm | ⟨t, call, a, hm, hret, hmv⟩
    · exact ⟨r, hsm.trans hr, fourEyes_same S m id r⟩
    · rw [hr] at hmv
      exact fourEyes_of_moved ⟨t, a, hm, hret⟩ (hS.state.rows id r hr) hmv

/-! ### An approval -/

def sampleTables : Db := ⟨Cell.settled (), fun _ => Cell.settled none, fun _ => Cell.settled none, 1, []⟩

def sampleCall : RequestCall where
  suppress := .global
  req := ⟨7, .program, .all, some 30, "a nightly job"⟩
  actor := "dana"
  now := 20
  source := some ⟨"linux-base", "net.download", "edge-4", some "/usr/bin/wget", some (.arr [])⟩
  requireApproval := true

def sampleDecision : Decision := ⟨.global, 1, true, none, "erik", 50⟩

def sampleMoves : List (Move ℕ Call (String × Group)) :=
  [.start 0 (.request sampleCall), .advance 0, .advance 0, .advance 0, .advance 0,
    .start 1 (.decide sampleDecision ⟨.empty, [], .empty⟩), .advance 1, .advance 1, .advance 1, .advance 1, .advance 1]

theorem sampleTables_atRest : AtRest sampleTables where
  settled _ := rfl
  rows _ _ h := by cases h
  fresh _ _ := rfl

/-- The suppression becomes active by it, for 30 days from then. -/
theorem four_eyes_sample :
    ∃ S S', run (system id).step (Sessions.quiet sampleTables) sampleMoves = some S ∧
      (system id).step S (.advance 1) = some S' ∧ (S.state.rows 1).committed.map Row.state = some .waiting ∧
      ∃ r, (S'.state.rows 1).committed = some r ∧ r.state = .active ∧ r.createdBy = "dana" ∧
        ∃ t, r.activatedAt = some t ∧ r.expiresAt = r.forDays.map fun days => t + 24 * days * 3600000000 :=
  ⟨_, _, rfl, rfl, rfl, _, rfl, rfl, rfl,
    (@four_eyes id sampleTables sampleTables_atRest sampleMoves _ _ (.advance 1) rfl rfl 1).2.2 _ rfl rfl⟩

end Approval

end OpenVibes.Store.Suppressions
