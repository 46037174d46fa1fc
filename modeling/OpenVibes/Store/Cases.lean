import OpenVibes.Store.Triage
import OpenVibes.Theory.Unique

/-!
# Cases

`crates/platform-store/src/console_cases/`: a case holds items that point at alarms, findings, hosts and so on; it is
closed and reopened by hand, and reopened by the platform. Each operation is its transaction, statement by statement, at
READ COMMITTED; an `UPDATE` of several items writes them one after the other. A query that waited for a row looks at it
again, but not at what it read of other rows. Unique indexes are checked at every write (`Theory.Unique`). What is read
elsewhere is a `World` that changes at any time. An id that is no UUID is `none`.
-/

namespace OpenVibes.Store.Cases

open Theory Rust Store.Triage

/-! ### Kinds and texts -/

inductive ItemKind where
  | alarm
  | finding
  | vulnerability
  | host
  | software
  | port
  | service
deriving DecidableEq

def ItemKind.parse (text : String) : Option ItemKind :=
  if text = "alarm" then some .alarm
  else if text = "compliance_finding" then some .finding
  else if text = "vulnerability" then some .vulnerability
  else if text = "host" then some .host
  else if text = "software" then some .software
  else if text = "port" then some .port
  else if text = "service" then some .service
  else none

def ItemKind.exclusive (kind : ItemKind) : Bool := kind = .alarm || kind = .finding || kind = .vulnerability

inductive Outcome where
  | resolved
  | falsePositive
  | acceptedRisk
  | confirmedMalicious
  | expected
deriving DecidableEq

/-- `OUTCOMES`. -/
def Outcome.parse (text : String) : Option Outcome :=
  if text = "resolved" then some .resolved
  else if text = "false_positive" then some .falsePositive
  else if text = "accepted_risk" then some .acceptedRisk
  else if text = "confirmed_malicious" then some .confirmedMalicious
  else if text = "expected" then some .expected
  else none

inductive Status where
  | open
  | investigating
  | closed
deriving DecidableEq

def Status.parse (text : String) : Option Status :=
  if text = "open" then some .open
  else if text = "investigating" then some .investigating
  else if text = "closed" then some .closed
  else none

inductive Severity where
  | critical
  | high
  | medium
  | low
deriving DecidableEq

/-- `severity_ok`. -/
def Severity.parse (text : String) : Option Severity :=
  if text = "critical" then some .critical
  else if text = "high" then some .high
  else if text = "medium" then some .medium
  else if text = "low" then some .low
  else none

def caseSeverityOf (itemSeverity : String) : Option Severity :=
  if itemSeverity = "critical" then some .critical
  else if itemSeverity = "high" || itemSeverity = "important" then some .high
  else if itemSeverity = "medium" || itemSeverity = "moderate" then some .medium
  else if itemSeverity = "low" || itemSeverity = "info" || itemSeverity = "unrated" then some .low
  else none

def Severity.rank : Severity → ℕ
  | .critical => 3
  | .high => 2
  | .medium => 1
  | .low => 0

/-- `default_severity`: the highest; medium when there is none. -/
def defaultSeverity (items : List (Option String)) : Severity :=
  ((items.filterMap fun s => s.bind caseSeverityOf).foldl
    (fun best s => some (best.elim s fun b => if b.rank ≤ s.rank then s else b)) none).getD .medium

/-- `resolution`, of cases that were closed before outcomes. -/
inductive Resolution where
  | mitigated
  | falsePositive
  | acceptedRisk
deriving DecidableEq

def maxItemsPerCase : ℕ := 500

def maxItemsOnCreate : ℕ := 50

/-- `MAX_ACCEPT_DAYS`, in microseconds. -/
def maxAccept : Time := 365 * 86400000000

/-- `EVIDENCE_WATCH_DAYS`, in microseconds. -/
def evidenceWatch : Time := 30 * 86400000000

def identifierOk (text : String) : Bool :=
  text ≠ "" && text.utf8ByteSize ≤ 128 &&
    (asBytes text).all fun b => isAsciiAlphanumeric b || b = 46 || b = 95 || b = 58 || b = 45

def freeTextOk (text : String) (longest : ℕ) : Bool :=
  text ≠ "" && text.toList.length ≤ longest && !text.toList.any isControl

def titleOk (title : String) : Bool := freeTextOk title 120 && trim title = title

def noteOk (text : String) : Bool :=
  trim text ≠ "" && text.toList.length ≤ 4000 &&
    !text.toList.any fun c => isControl c && !(c = '\n' || c = '\r' || c = '\t')

inductive Parsed where
  | alarm (id : ℕ)
  | finding (agent set rule : String)
  | vulnerability (agent advisory : String)
  | host (agent : String)
  | software (manager : Option String) (name : String)
  | port (protocol : String) (port : ℕ)
  | service (unit : String)

/-- `text.parse()` of a number from 1 to `last` that reads back as `text`. -/
def number (text : String) (last : ℕ) : Option ℕ :=
  let n := decimal (asBytes text)
  if 1 ≤ n && n ≤ last && toString n = text then some n else none

/-- `str::split_once`, by a slash. -/
def splitSlash (text : String) : Option (String × String) :=
  (splitOnce '/' text.toList).map fun p => (String.ofList p.1, String.ofList p.2)

def parseRef (kind : ItemKind) (reference : String) : Option Parsed :=
  match kind with
  | .alarm => (number reference (2 ^ 63 - 1)).map .alarm
  | .finding =>
    match split '/' reference with
    | [agent, set, rule] =>
      if identifierOk agent && (set = "" || identifierOk set) && identifierOk rule then some (.finding agent set rule)
      else none
    | _ => none
  | .vulnerability => (splitSlash reference).bind fun (agent, advisory) =>
    if identifierOk agent && freeTextOk advisory 256 then some (.vulnerability agent advisory) else none
  | .host => if identifierOk reference then some (.host reference) else none
  | .software =>
    match splitSlash reference with
    | none => if freeTextOk reference 256 then some (.software none reference) else none
    | some (manager, name) =>
      if identifierOk manager && freeTextOk name 256 then some (.software (some manager) name) else none
  | .port => (splitSlash reference).bind fun (protocol, text) =>
    if protocol = "tcp" || protocol = "udp" then (number text 65535).map (.port protocol) else none
  | .service => if freeTextOk reference 200 then some (.service reference) else none

/-! ### The tables -/

structure CaseRow where
  number : ℕ
  title : String
  status : Status
  severity : Severity
  assignee : Option String
  openedBy : String
  resolution : Option Resolution
  resolutionNote : Option String
  (acceptedUntil closedAt : Option Time)
  version : ℤ
  (createdAt updatedAt : Time)

structure Item where
  caseId : ℕ
  kind : ItemKind
  ref : String
  agentId : Option String
  active : Bool
  outcome : Option Outcome
  outcomeNote : Option String
  outcomeUntil : Option Time
  addedBy : String
  addedAt : Time

/-- The unique indexes: `(case_id, kind, ref)`, and `(kind, ref)` of active exclusive items. -/
def Item.clashes (a b : Item) : Bool :=
  a.kind = b.kind && a.ref = b.ref && (a.caseId = b.caseId || a.active && b.active && a.kind.exclusive)

structure World where
  dir : Directory
  gone : Item → Bool
  /-- The agent and the severity of what an item points at, if someone with this scope sees it. -/
  finds : AgentScope → Parsed → Option (Option String × Option String)
  assignable : String → Bool
  clock : Time

structure Db where
  cases : Cells ℕ ℕ (Option CaseRow)
  nextCase : ℕ
  items : Cells ℕ ℕ (Option Item)
  nextItem : ℕ
  world : World

variable (t : ℕ)

/-- The items of a case, as a transaction sees them, oldest first. -/
def Db.itemsOf (s : Db) (id : ℕ) : List (ℕ × Item) :=
  (List.range s.nextItem).filterMap fun i => (((s.items i).view t).filter fun it => it.caseId = id).map
    fun it => (i, it)

def Db.allItems (s : Db) : List (ℕ × Item) :=
  (List.range s.nextItem).filterMap fun i => ((s.items i).view t).map fun it => (i, it)

/-! ### Who sees what -/

structure Viewer where
  scope : AgentScope
  userId : String

def itemInScope (w : World) (viewer : Viewer) (it : Item) : Bool := it.agentId.any (visible w.dir viewer.scope)

def itemVisible (w : World) (viewer : Viewer) (it : Item) : Bool := it.agentId.isNone || itemInScope w viewer it

variable (viewer : Viewer)

/-- `case_visible`: of the row, on what the database holds otherwise. -/
def caseVisible (id : ℕ) (s : Db) (row : CaseRow) : Bool :=
  row.openedBy = viewer.userId || row.assignee = some viewer.userId ||
    ((s.itemsOf t id).any fun p => itemInScope s.world viewer p.2) ||
    viewer.scope = .global && !(s.itemsOf t id).any fun p => p.2.agentId.isSome

def blockingItem (w : World) (it : Item) : Bool :=
  it.kind.exclusive && (it.outcome.isNone || it.outcome = some .resolved && !w.gone it ||
    it.outcome = some .acceptedRisk && it.outcomeUntil.any fun at_ => at_ ≤ w.clock)

/-! ### Statements -/

inductive Refusal where
  | notFound
  | itemNotFound
  | stale
  | closed
  | invalid (field code : String)
  | assigneeUnavailable
  | itemInCase (number : Option ℕ)
  | alreadyInCase
  | tooManyItems
  | itemsUnresolved (count : ℕ)
  | hiddenItemsUnresolved
  | evidencePresent

inductive Answer where
  | done
  | unchanged
  | refused (r : Refusal)
  | error

def refuse (r : Refusal) : Txn Db (End Answer) := pure (.rollback (.refused r))

/-- `SELECT … FROM cases c WHERE … FOR UPDATE OF c`, and `SKIP LOCKED`. -/
def lockWhere (id : ℕ) (cond : Db → CaseRow → Bool) (skip : Bool) : Txn Db (Option CaseRow) := do
  match ← .query fun s => (((s.cases id).view t).filter (cond s)).map fun _ => cond s with
  | none => pure none
  | some recheck =>
    .stmt fun s =>
      if (s.cases id).free t then
        match (s.cases id).view t with
        | none => some (none, s)
        | some row =>
          if recheck row then some (some row, { s with cases := s.cases.write t id (some row) }) else some (none, s)
      else if skip then some (none, s)
      else none

def lockCase (id : ℕ) : Txn Db (Option CaseRow) :=
  lockWhere t id (caseVisible t viewer id) false

/-- `UPDATE cases SET … WHERE case_id = id`. -/
def updateCase (id : ℕ) (f : CaseRow → CaseRow) : Txn Db Unit :=
  .stmt fun s =>
    match (s.cases id).view t with
    | none => some ((), s)
    | some row => (s.cases.put t id (some (f row))).map fun cases => ((), { s with cases := cases })

def touch (id : ℕ) (now : Time) : Txn Db Unit :=
  updateCase t id fun row => { row with updatedAt := max row.updatedAt now }

/-- A row of `case_items` is written; `none` when a unique index refuses it. -/
def Db.writeItem (i : ℕ) (v : Item) (s : Db) : Option (Bool × Db) :=
  if (s.items i).free t then
    match s.items.check Item.clashes (List.range s.nextItem) t i v with
    | .wait => none
    | .clash => some (false, s)
    | .pass => some (true, { s with items := s.items.write t i (some v) })
  else none

/-- `UPDATE case_items SET … WHERE item_id = i`; whether no unique index refuses it. -/
def updateItem (i : ℕ) (f : Item → Item) : Txn Db Bool :=
  .stmt fun s =>
    match (s.items i).view t with
    | none => some (true, s)
    | some it => s.writeItem t i (f it)

/-- `UPDATE case_items SET … WHERE case_id = id AND …`; whether no unique index refuses it. -/
def updateItems (id : ℕ) (p : ℕ → Item → Bool) (f : ℕ → Item → Item) : Txn Db Bool := do
  let ids ← .query fun s => (List.range s.nextItem).filter fun i =>
    ((s.items i).view t).any fun it => it.caseId = id && p i it
  ids.foldlM (fun ok i => if ok then updateItem t i (f i) else pure false) true

/-- `INSERT INTO case_items`; `none` when a unique index refuses it. -/
def insertItemRow (v : Item) : Txn Db (Option ℕ) :=
  .stmt fun s =>
    (s.writeItem t s.nextItem v).map fun (ok, s') =>
      if ok then (some s.nextItem, { s' with nextItem := s.nextItem + 1 }) else (none, s)

/-- `DELETE FROM case_items WHERE item_id = i`. -/
def deleteItem (i : ℕ) : Txn Db Unit :=
  .stmt fun s =>
    match (s.items i).view t with
    | none => some ((), s)
    | some _ => (s.items.put t i none).map fun items => ((), { s with items := items })

/-- `INSERT INTO cases`. -/
def insertCase (make : ℕ → CaseRow) : Txn Db ℕ :=
  .stmt fun s =>
    (s.cases.put t s.nextCase (some (make s.nextCase))).map fun cases =>
      (s.nextCase, { s with cases := cases, nextCase := s.nextCase + 1 })

/-- `read_detail` before the commit: without the case, an error. -/
def commitDetail (id : ℕ) : Txn Db (End Answer) := do
  if ← .query fun s => ((s.cases id).view t).any (caseVisible t viewer id s) then pure (.commit .done)
  else pure (.rollback .error)

/-- `read_items` of one item before the commit: without it, an error. -/
def commitItem (id i : ℕ) : Txn Db (End Answer) := do
  if ← .query fun s => ((s.items i).view t).any fun it => it.caseId = id && itemVisible s.world viewer it then
    pure (.commit .done)
  else pure (.rollback .error)

/-! ### Items -/

structure Resolved where
  kind : ItemKind
  reference : String
  (agentId severity : Option String)

def resolveItem (kind reference : String) : Txn Db (Except Refusal Resolved) :=
  match ItemKind.parse kind with
  | none => pure (.error (.invalid "kind" "invalid_kind"))
  | some kind =>
    match parseRef kind reference with
    | none => pure (.error (.invalid "ref" "invalid_ref"))
    | some parsed => .query fun s =>
      match s.world.finds viewer.scope parsed with
      | some (agent, severity) => .ok ⟨kind, reference, agent, severity⟩
      | none => .error .itemNotFound

def Resolved.row (item : Resolved) (viewer : Viewer) (id : ℕ) (now : Time) : Item :=
  ⟨id, item.kind, item.reference, item.agentId, true, none, none, none, viewer.userId, now⟩

/-- The other open case that holds an item, with whether the viewer sees it. -/
def Db.otherCase (s : Db) (viewer : Viewer) (id : ℕ) (item : Resolved) : Option (ℕ × Bool) :=
  ((s.allItems t).find? fun p =>
    p.2.kind = item.kind && p.2.ref = item.reference && p.2.active && p.2.caseId ≠ id).bind fun p =>
      ((s.cases p.2.caseId).view t).map fun row => (row.number, caseVisible t viewer p.2.caseId s row)

def insertItem (id : ℕ) (item : Resolved) (now : Time) : Txn Db (Except Refusal ℕ) := do
  if (← .query fun s => (s.itemsOf t id).length) ≥ maxItemsPerCase then pure (.error .tooManyItems)
  else if ← .query fun s => (s.itemsOf t id).any fun p => p.2.kind = item.kind && p.2.ref = item.reference then
    pure (.error .alreadyInCase)
  else
    match ← .query fun s => if item.kind.exclusive then s.otherCase t viewer id item else none with
    | some (number, seen) => pure (.error (.itemInCase (if seen then some number else none)))
    | none =>
      match ← insertItemRow t (item.row viewer id now) with
      | some i => pure (.ok i)
      | none => pure (.error (.itemInCase none))

structure NewCase where
  title : String
  (severity assignee : Option String)
  items : List (String × String)

def resolveItems (items : List (String × String)) : Txn Db (Except Refusal (List Resolved)) :=
  items.foldlM (fun done item =>
    match done with
    | .error r => pure (.error r)
    | .ok done => do
      match ← resolveItem viewer item.1 item.2 with
      | .error r => pure (.error r)
      | .ok x => pure (.ok (done ++ [x]))) (.ok [])

def insertItems (id : ℕ) (items : List Resolved) (now : Time) : Txn Db (Option Refusal) :=
  items.foldlM (fun refused item =>
    match refused with
    | some r => pure (some r)
    | none => do
      match ← insertItem t viewer id item now with
      | .ok _ => pure none
      | .error r => pure (some r)) none

def NewCase.row (new : NewCase) (viewer : Viewer) (severity : Severity) (now : Time) (id : ℕ) : CaseRow where
  number := id + 1
  title := new.title
  status := .open
  severity := severity
  assignee := new.assignee
  openedBy := viewer.userId
  resolution := none
  resolutionNote := none
  acceptedUntil := none
  closedAt := none
  version := 1
  createdAt := now
  updatedAt := now

def unavailable (assignee : Option String) : Txn Db Bool := .query fun s => assignee.any fun a => !s.world.assignable a

def create (new : NewCase) (now : Time) : Txn Db (End Answer) :=
  if !titleOk new.title then refuse (.invalid "title" "invalid_title")
  else if new.severity.any fun s => (Severity.parse s).isNone then refuse (.invalid "severity" "invalid_severity")
  else if new.items.length > maxItemsOnCreate then refuse (.invalid "items" "too_many_items")
  else do
    if ← unavailable new.assignee then refuse .assigneeUnavailable
    else
      match ← resolveItems viewer new.items with
      | .error r => refuse r
      | .ok items =>
        let severity := (new.severity.bind Severity.parse).getD (defaultSeverity (items.map Resolved.severity))
        let id ← insertCase t (new.row viewer severity now)
        match ← insertItems t viewer id items now with
        | some r => refuse r
        | none => commitDetail t viewer id

def withCase (id : Option ℕ) (f : ℕ → CaseRow → Txn Db (End Answer)) : Txn Db (End Answer) :=
  match id with
  | none => refuse .notFound
  | some id => do
    match ← lockCase t viewer id with
    | none => refuse .notFound
    | some current => f id current

def addItem (id : Option ℕ) (kind reference : String) (now : Time) : Txn Db (End Answer) :=
  withCase t viewer id fun id current => do
    if current.status = .closed then refuse .closed
    else
      match ← resolveItem viewer kind reference with
      | .error r => refuse r
      | .ok item =>
        match ← insertItem t viewer id item now with
        | .error r => refuse r
        | .ok i =>
          touch t id now
          commitItem t viewer id i

/-- `lock_item`: the item, and whether its evidence is gone. -/
def lockItem (id : ℕ) (i : Option ℕ) : Txn Db (Option (ℕ × Item × Bool)) :=
  match i with
  | none => pure none
  | some i => .stmt fun s =>
    match ((s.items i).view t).filter fun it => it.caseId = id && itemVisible s.world viewer it with
    | none => some (none, s)
    | some it => (s.items.put t i (some it)).map fun items => (some (i, it, s.world.gone it), { s with items := items })

def removeItem (id i : Option ℕ) (now : Time) : Txn Db (End Answer) :=
  withCase t viewer id fun id current => do
    if current.status = .closed then refuse .closed
    else
      match ← lockItem t viewer id i with
      | none => refuse .itemNotFound
      | some (i, _) =>
        deleteItem t i
        touch t id now
        pure (.commit .done)

/-! ### Outcomes -/

structure OutcomeChange where
  outcome : String
  note : Option String
  outcomeUntil : Option Time

/-- `outcome_valid`: the outcome, or the field that is wrong and its code. -/
def outcomeValid (c : OutcomeChange) (now : Time) : Except (String × String) Outcome :=
  match Outcome.parse c.outcome with
  | none => .error ("outcome", "invalid_outcome")
  | some outcome =>
    if c.note.isNone && outcome ≠ .resolved then .error ("note", "note_required")
    else if c.note.any fun note => !noteOk note then .error ("note", "invalid_note")
    else
      match decide (outcome = .acceptedRisk), c.outcomeUntil with
      | true, none => .error ("outcome_until", "outcome_until_required")
      | true, some until_ =>
        if until_ ≤ now then .error ("outcome_until", "outcome_until_past")
        else if until_ > now + maxAccept then .error ("outcome_until", "outcome_until_too_far")
        else .ok outcome
      | false, some _ => .error ("outcome_until", "outcome_until_not_allowed")
      | false, none => .ok outcome

/-- `set_outcome`, once the change is valid. -/
def setValidOutcome (id i : Option ℕ) (change : Option (OutcomeChange × Outcome)) (now : Time) :
    Txn Db (End Answer) :=
  withCase t viewer id fun id current => do
    if current.status = .closed then refuse .closed
    else
      match ← lockItem t viewer id i with
      | none => refuse .itemNotFound
      | some (i, item, gone) =>
        if !item.kind.exclusive then refuse (.invalid "outcome" "outcome_not_applicable")
        else if (change.any fun c => c.2 = .resolved) && !gone then refuse .evidencePresent
        else if item.outcome ≠ change.map Prod.snd || change.isSome then
          if ← updateItem t i fun it => { it with
              outcome := change.map Prod.snd, outcomeNote := change.bind fun c => c.1.note,
              outcomeUntil := change.bind fun c => c.1.outcomeUntil } then
            touch t id now
            commitItem t viewer id i
          else pure (.rollback .error)
        else commitItem t viewer id i

def setOutcome (id i : Option ℕ) (change : Option OutcomeChange) (now : Time) :
    Txn Db (End Answer) :=
  match change with
  | none => setValidOutcome t viewer id i none now
  | some c =>
    match outcomeValid c now with
    | .error (field, code) => refuse (.invalid field code)
    | .ok outcome => setValidOutcome t viewer id i (some (c, outcome)) now

/-! ### Closing and reopening by hand -/

structure CaseChange where
  expectedVersion : ℤ
  (title severity status : String)
  (assignee closingNote : Option String)

/-- `closing_valid`: the field that is wrong and its code. -/
def closingValid (c : CaseChange) : Option (String × String) :=
  match decide (c.status = "closed"), c.closingNote with
  | false, some _ => some ("closing_note", "closing_note_not_allowed")
  | true, none => some ("closing_note", "closing_note_required")
  | true, some note => if noteOk note then none else some ("closing_note", "invalid_note")
  | false, none => none

/-- `blocking_items`: visible and hidden. -/
def blockingItems (id : ℕ) (s : Db) : ℕ × ℕ :=
  let blocking := ((s.itemsOf t id).map Prod.snd).filter (blockingItem s.world)
  (blocking.countP (itemVisible s.world viewer), blocking.countP fun it => !itemVisible s.world viewer it)

def closeRefusal : ℕ × ℕ → Option Refusal
  | (seen, hidden) => if seen > 0 then some (.itemsUnresolved seen) else if hidden > 0 then some .hiddenItemsUnresolved
    else none

/-- The active items of other cases with which exclusive items of this one would clash. -/
def Db.taken (s : Db) (id : ℕ) : List (Item × Item) :=
  ((s.itemsOf t id).filter fun p => p.2.kind.exclusive).flatMap fun mine =>
    ((s.allItems t).filter fun o => o.2.kind = mine.2.kind && o.2.ref = mine.2.ref && o.2.active && o.2.caseId ≠ id).map
      fun o => (mine.2, o.2)

/-- `reopen_conflict`: the first other case, if the viewer sees it and the item. -/
def reopenConflict (id : ℕ) (s : Db) : Option (Option ℕ) :=
  let found := (s.taken t id).filterMap fun p =>
    ((s.cases p.2.caseId).view t).map fun row =>
      (row.number, caseVisible t viewer p.2.caseId s row && itemVisible s.world viewer p.1)
  (found.mergeSort fun a b => a.1 ≤ b.1).head?.map fun p => if p.2 then some p.1 else none

def CaseRow.changed (row : CaseRow) (c : CaseChange) (severity : Severity) (status : Status) (now : Time) : CaseRow :=
  { row with
    title := c.title, severity := severity, status := status, assignee := c.assignee, resolutionNote := c.closingNote,
    resolution := if status = .closed then row.resolution else none,
    acceptedUntil := if status = .closed then row.acceptedUntil else none,
    closedAt := if status = .closed then some (row.closedAt.getD now) else none,
    version := row.version + 1, updatedAt := now }

/-- `update`, once the case is locked. -/
def updateLocked (c : CaseChange) (severity : Severity) (status : Status) (now : Time)
    (id : ℕ) (current : CaseRow) : Txn Db (End Answer) := do
  if current.version ≠ c.expectedVersion then refuse .stale
  else if current.status = .closed && status = .closed && current.resolutionNote ≠ c.closingNote then refuse .closed
  else if ← unavailable (if current.assignee ≠ c.assignee then c.assignee else none) then refuse .assigneeUnavailable
  else if current.title = c.title && current.severity = severity && current.assignee = c.assignee &&
      current.status = status then
    if ← .query fun s => ((s.cases id).view t).any (caseVisible t viewer id s) then pure (.rollback .unchanged)
    else pure (.rollback .error)
  else
    match ← .query fun s =>
        if current.status ≠ .closed && status = .closed then closeRefusal (blockingItems t viewer id s) else none with
    | some r => refuse r
    | none =>
      match ← .query fun s =>
          if current.status = .closed && status ≠ .closed then reopenConflict t viewer id s else none with
      | some number => refuse (.itemInCase number)
      | none =>
        updateCase t id fun row => row.changed c severity status now
        if decide (current.status = .closed) ≠ decide (status = .closed) then
          if ← updateItems t id (fun _ _ => true) fun _ it => { it with active := status ≠ .closed } then
            commitDetail t viewer id
          else refuse (.itemInCase none)
        else commitDetail t viewer id

def update (id : Option ℕ) (c : CaseChange) (now : Time) : Txn Db (End Answer) :=
  if !titleOk c.title then refuse (.invalid "title" "invalid_title")
  else
    match Severity.parse c.severity with
    | none => refuse (.invalid "severity" "invalid_severity")
    | some severity =>
      match Status.parse c.status with
      | none => refuse (.invalid "status" "invalid_status")
      | some status =>
        match closingValid c with
        | some (field, code) => refuse (.invalid field code)
        | none => withCase t viewer id (updateLocked t viewer c severity status now)

/-! ### Reopening by the platform -/

structure Trigger where
  case : CaseRow → Bool
  item : World → Item → Bool
  now : Time

def evidenceReturned (now : Time) : Trigger where
  case row := row.closedAt.any fun at_ => now - evidenceWatch ≤ at_
  item w it := it.outcome = some .resolved && it.kind.exclusive && !w.gone it
  now := now

def itemAcceptanceExpired (now : Time) : Trigger where
  case _ := true
  item _ it := it.outcome = some .acceptedRisk && it.outcomeUntil.any fun until_ => until_ ≤ now
  now := now

def CaseRow.reopened (row : CaseRow) (now : Time) : CaseRow :=
  { row with
    status := .open, resolution := none, resolutionNote := none, acceptedUntil := none, closedAt := none,
    version := row.version + 1, updatedAt := now }

def Item.reopened (it : Item) (clear : Bool) : Item :=
  if clear then { it with active := true, outcome := none, outcomeNote := none, outcomeUntil := none }
  else { it with active := true }

/-- The items and the case are reopened; not if another case holds an item. -/
def reopen (id : ℕ) (clear : ℕ → Item → Bool) (now : Time) : Txn Db (End Answer) := do
  if ← updateItems t id (fun _ _ => true) fun i it => it.reopened (clear i it) then
    updateCase t id fun row => row.reopened now
    pure (.commit .done)
  else pure (.rollback .unchanged)

def reopenOnItems (tr : Trigger) (id : ℕ) : Txn Db (End Answer) := do
  match ← lockWhere t id (fun s row => row.status = .closed && tr.case row &&
      ((s.itemsOf t id).any fun p => tr.item s.world p.2) && (s.taken t id).isEmpty) true with
  | none => pure (.rollback .unchanged)
  | some _ =>
    let ids ← .query fun s =>
      if ((s.cases id).view t).any tr.case then ((s.itemsOf t id).filter fun p => tr.item s.world p.2).map Prod.fst
        else []
    reopen t id (fun i _ => ids.contains i) tr.now

def reopenExpired (id : ℕ) (now : Time) : Txn Db (End Answer) := do
  match ← lockWhere t id (fun _ row => row.status = .closed && row.resolution = some .acceptedRisk &&
      row.acceptedUntil.any fun until_ => until_ ≤ now) true with
  | none => pure (.rollback .unchanged)
  | some _ =>
    if ← .query fun s => !(s.taken t id).isEmpty then pure (.rollback .unchanged)
    else reopen t id (fun _ it => it.outcome = some .acceptedRisk) now

/-- The step of `clear_open_acceptances_expired` for one case. -/
def clearOpenAcceptancesExpired (id : ℕ) (now : Time) : Txn Db (End Answer) := do
  match ← lockWhere t id (fun _ row => row.status ≠ .closed) true with
  | none => pure (.rollback .unchanged)
  | some _ =>
    if ← updateItems t id
        (fun _ it => it.outcome = some .acceptedRisk && it.outcomeUntil.any fun until_ => until_ ≤ now)
        fun _ it => { it with outcome := none, outcomeNote := none, outcomeUntil := none } then
      touch t id now
      pure (.commit .done)
    else pure (.rollback .error)

/-! ### The system -/

inductive Call where
  | create (viewer : Viewer) (new : NewCase) (now : Time)
  | addItem (viewer : Viewer) (id : Option ℕ) (kind reference : String) (now : Time)
  | removeItem (viewer : Viewer) (id i : Option ℕ) (now : Time)
  | setOutcome (viewer : Viewer) (id i : Option ℕ) (change : Option OutcomeChange) (now : Time)
  | update (viewer : Viewer) (id : Option ℕ) (c : CaseChange) (now : Time)
  | evidenceReturned (id : ℕ) (now : Time)
  | itemAcceptanceExpired (id : ℕ) (now : Time)
  | reopenExpired (id : ℕ) (now : Time)
  | clearOpenAcceptancesExpired (id : ℕ) (now : Time)

def prog : Call → Txn Db (End Answer)
  | .create viewer new now => Cases.create t viewer new now
  | .addItem viewer id kind reference now => Cases.addItem t viewer id kind reference now
  | .removeItem viewer id i now => Cases.removeItem t viewer id i now
  | .setOutcome viewer id i change now => Cases.setOutcome t viewer id i change now
  | .update viewer id c now => Cases.update t viewer id c now
  | .evidenceReturned id now => reopenOnItems t (Cases.evidenceReturned now) id
  | .itemAcceptanceExpired id now => reopenOnItems t (Cases.itemAcceptanceExpired now) id
  | .reopenExpired id now => Cases.reopenExpired t id now
  | .clearOpenAcceptancesExpired id now => Cases.clearOpenAcceptancesExpired t id now

def Db.commit (s : Db) : Db := { s with cases := s.cases.commit t, items := s.items.commit t }

def Db.abort (s : Db) : Db := { s with cases := s.cases.abort t, items := s.items.abort t }

def system : System ℕ Call World Db (End Answer) where
  prog := prog
  close t e s :=
    match e with
    | .commit _ => s.commit t
    | .rollback _ => s.abort t
  abort := Db.abort
  effect w s := some { s with world := w }

end OpenVibes.Store.Cases
