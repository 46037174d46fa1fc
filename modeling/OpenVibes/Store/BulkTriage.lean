import OpenVibes.Store.Triage
import OpenVibes.Theory.Steps

/-!
# Bulk triage of vulnerabilities

`vulnerabilities_open_only` of `crates/platform-store/src/bulk_triage/vulns.rs` expands its items to pairs of host and
advisory, reads the triage of all pairs, and updates one after the other by `vulnerability_triage::update`, each in a
transaction of its own. `step` is its next statement, or what a person or the matcher does in between.
-/

namespace OpenVibes.Store.Triage

open Theory Rust List

/-! ### Data -/

/-- `ListRow`: what a list row adds to its item. -/
structure ListRow where
  openOnly : Bool
  group : Option String

def ListRow.of (rows : List ListRow) (i : ℕ) : Bool × Option String :=
  (rows[i]?.map fun r => (r.openOnly, r.group)).getD (false, none)

/-- `BulkChange`: what a bulk action does to every item. -/
inductive BulkChange where
  /-- A new state; a close needs a note, an accepted risk its expiry. -/
  | state (state : TriageState) (note : Option String) (acceptedUntil : Option Time)
  | assign (assignedTo : Option String)

structure BulkResult where
  changed : ℕ
  skipped : List (String × String)

/-- `BulkRefusal`: why nothing was done. -/
inductive BulkRefusal where
  | count
  | fields
deriving DecidableEq

structure BulkCall where
  scope : AgentScope
  items : List (String × Option String)
  rows : List ListRow
  change : BulkChange
  actor : String
  now : Time

def maxItems : ℕ := 10000

/-! ### `vulnerabilities_open_only` -/

def check (change : BulkChange) (count : ℕ) (now : Time) : Except BulkRefusal Unit :=
  if count = 0 ∨ maxItems < count then .error .count
  else
    match change with
    | .state state note acceptedUntil =>
      if !fieldsValid state note acceptedUntil now || (state ≠ .open && note.isNone) then .error .fields else .ok ()
    | .assign _ => .ok ()

/-- `spared`: why a pair that is not named is left alone. -/
def spared (change : BulkChange) (named : Bool) (current : TriageState) : Option String :=
  match change with
  | .assign _ => none
  | .state state _ _ =>
    match named, decide (state = .open), decide (current = .open) with
    | true, _, _ => none
    | false, false, false => some "already closed"
    | false, true, true => some "already open"
    | _, _, _ => none

def BulkChange.reopen : BulkChange → Bool
  | .state new _ _ => decide (new = .open)
  | .assign _ => false

/-- A close or assign on an advisory-wide or list-row item reaches its open pairs only. -/
def BulkCall.filtered (call : BulkCall) (i : ℕ) (item : String × Option String) : Bool :=
  !call.change.reopen && (item.2.isNone || (ListRow.of call.rows i).1)

/-- A triage is open, or an accepted risk that has expired. -/
def isOpen (state : TriageState) (acceptedUntil : Option Time) (now : Time) : Bool :=
  state = .open || (state = .acceptedRisk && acceptedUntil.any fun u => u ≤ now)

/-- The expansion query's condition for an item and a vulnerability; with `openOnly` only while open. -/
def reaches (db : Db) (call : BulkCall) (openOnly : Bool) (i : ℕ) (item : String × Option String)
    (v : VulnerabilityRow) : Bool :=
  v.advisoryId = item.1 && v.fixedAt.isNone && item.2.all (fun agent => v.agentId = agent) &&
    visible db.dir call.scope v.agentId &&
    (!openOnly || (db.triage.get? v.key).all fun t => isOpen t.state t.acceptedUntil call.now) &&
    (ListRow.of call.rows i).2.all fun group => db.dir.membership.any fun m => m.1 = v.agentId && m.2 = group

/-- `ORDER BY 2, 1`. -/
def orderPairs (pairs : List Pair) : List Pair :=
  pairs.insertionSort fun a b => a.2 < b.2 ∨ a.2 = b.2 ∧ a.1 ≤ b.1

/-- `expand`: the pairs in scope; `none` when they are more than `MAX_ITEMS`. -/
def expand (db : Db) (call : BulkCall) : Option (List Pair) :=
  let found := orderPairs ((call.items.zipIdx.flatMap fun p =>
    (db.vulnerabilities.rows.filter (reaches db call (call.filtered p.2 p.1) p.2 p.1)).map VulnerabilityRow.key).dedup)
  if found.length ≤ maxItems then some found else none

/-- `reaching`: the items with any unfixed pair in scope, open or not. -/
def reaching (db : Db) (call : BulkCall) : List ℕ :=
  (call.items.zipIdx.filter fun p => db.vulnerabilities.rows.any (reaches db call false p.2 p.1)).map Prod.snd

def pairId (pair : Pair) : String := pair.1 ++ "/" ++ pair.2

def missed (call : BulkCall) (pairs : List Pair) : List ((String × Option String) × ℕ) :=
  call.items.zipIdx.filter fun p => !pairs.any fun k => k.2 = p.1.1 && p.1.2.all fun agent => agent = k.1

/-- What is said of the items that matched no pair. -/
def missedResult (db : Db) (call : BulkCall) (pairs : List Pair) : BulkResult :=
  let missed := missed call pairs
  let closed := if missed.any fun p => call.filtered p.2 p.1 then reaching db call else []
  ⟨0, missed.map fun p =>
    (p.1.2.elim p.1.1 fun agent => pairId (agent, p.1.1),
      if call.filtered p.2 p.1 && closed.contains p.2 then "not open" else "not found or out of scope")⟩

def BulkCall.named (call : BulkCall) (pair : Pair) : Bool :=
  call.items.zipIdx.any fun p =>
    p.1.1 = pair.2 && p.1.2 = some pair.1 && (call.change.reopen || !(ListRow.of call.rows p.2).1)

/-- What the loop does with a pair whose triage it read as `seen`. -/
def planned (call : BulkCall) (seen : VulnerabilityTriage) (pair : Pair) : Except String UpdateCall :=
  let reopen := call.change.reopen
  let named := call.named pair
  let seenOpen := isOpen seen.state seen.acceptedUntil call.now
  if !named && !reopen && !seenOpen then .error "not open"
  else
    let effective := if seenOpen && !reopen then .open else seen.state
    match spared call.change named effective with
    | some why => .error why
    | none =>
      match call.change with
      | .state state note acceptedUntil =>
        .ok ⟨call.scope, pair.1, pair.2, none, state, seen.assignedTo, note, acceptedUntil, call.actor, call.now⟩
      | .assign assignedTo =>
        if effective = .open ∧ seen.state ≠ .open then
          .ok ⟨call.scope, pair.1, pair.2, none, .open, assignedTo, seen.note, none, call.actor, call.now⟩
        else
          .ok ⟨call.scope, pair.1, pair.2, none, seen.state, assignedTo, seen.note, seen.acceptedUntil, call.actor,
            call.now⟩

def BulkResult.add (result : BulkResult) (pair : Pair) : VulnerabilityTriageUpdate → BulkResult
  | .updated _ => { result with changed := result.changed + 1 }
  | .notFound => { result with skipped := result.skipped ++ [(pairId pair, "not found or out of scope")] }
  | .stale _ => { result with skipped := result.skipped ++ [(pairId pair, "changed by someone else meanwhile")] }
  | .assigneeUnavailable => { result with skipped := result.skipped ++ [(pairId pair, "assignee unavailable")] }
  | .invalidFields => { result with skipped := result.skipped ++ [(pairId pair, "refused")] }

/-- The triage of a pair among those read; the default without a row. -/
def seenIn (current : List (Pair × VulnerabilityTriage)) (pair : Pair) : VulnerabilityTriage :=
  ((current.find? fun e => e.1 = pair).map Prod.snd).getD defaultTriage

def process (db : Db) (call : BulkCall) (current : List (Pair × VulnerabilityTriage)) (pair : Pair)
    (result : BulkResult) : Db × BulkResult :=
  match planned call (seenIn current pair) pair with
  | .error why => (db, { result with skipped := result.skipped ++ [(pairId pair, why)] })
  | .ok c =>
    let (db', outcome) := update db c
    (db', result.add pair outcome)

/-! ### A run among other people's -/

inductive Phase where
  | start
  | expanded (pairs : List Pair)
  | read (pairs : List Pair) (current : List (Pair × VulnerabilityTriage))
  /-- In the loop: the pairs to come, the triage read, and the result so far. -/
  | updating (pairs : List Pair) (current : List (Pair × VulnerabilityTriage)) (result : BulkResult)
  | done (outcome : Except BulkRefusal BulkResult)

structure State where
  db : Db
  call : BulkCall
  phase : Phase

/-- The matcher finds a vulnerability, or its fix, which clears a triage (`vulnerability_fixed_clears_triage`). -/
def matched (db : Db) (v : VulnerabilityRow) (now : Time) : Db :=
  let cleared := v.fixedAt.isSome && (db.vulnerabilities.get? v.key).any fun old => old.fixedAt.isNone
  { db with
    vulnerabilities := db.vulnerabilities.upsert (fun old new => { old with fixedAt := new.fixedAt }) (fun _ _ => rfl) v
    triage := db.triage.deleteWhere fun t =>
      cleared && decide (t.key = v.key) && (t.state = .mitigated || isOpen t.state t.acceptedUntil now) }

inductive Act where
  | run
  | update (c : UpdateCall)
  | matched (v : VulnerabilityRow) (now : Time)
  | directory (dir : Directory)

/-- The run's next statement or transaction; none after it returned. -/
def advance (s : State) : Option State :=
  match s.phase with
  | .start =>
    match check s.call.change s.call.items.length s.call.now with
    | .error refusal => some { s with phase := .done (.error refusal) }
    | .ok () =>
      match expand s.db s.call with
      | none => some { s with phase := .done (.error .count) }
      | some pairs => some { s with phase := .expanded pairs }
  | .expanded pairs => some { s with phase := .read pairs (states s.db pairs) }
  | .read pairs current => some { s with phase := .updating pairs current (missedResult s.db s.call pairs) }
  | .updating (pair :: rest) current result =>
    let (db, result) := process s.db s.call current pair result
    some { s with db := db, phase := .updating rest current result }
  | .updating [] _ result => some { s with phase := .done (.ok result) }
  | .done _ => none

def step (s : State) : Act → Option State
  | .run => advance s
  | .update c => some { s with db := (update s.db c).1 }
  | .matched v now => some { s with db := matched s.db v now }
  | .directory dir => some { s with db := { s.db with dir := dir } }

/-! ### What the run remembers -/

def seen (db : Db) (pair : Pair) : VulnerabilityTriage :=
  ((db.triage.get? pair).map (fromRow db.dir)).getD defaultTriage

variable {pairs : List Pair}

theorem seenIn_states {db : Db} {k : Pair} (hk : k ∈ pairs) : seenIn (states db pairs) k = seen db k := by
  rw [seenIn, seen, states]
  congr 1
  induction pairs with
  | nil => exact absurd hk not_mem_nil
  | cons p pairs ih =>
    cases hp : db.triage.get? p with
    | none =>
      rw [filterMap_cons_none (by rw [hp]; rfl)]
      rcases mem_cons.mp hk with rfl | hk
      · rw [hp, Option.map_none, Option.map_eq_none_iff, find?_eq_none]
        rintro e he
        obtain ⟨q, -, hq⟩ := mem_filterMap.mp he
        obtain ⟨t, ht, rfl⟩ := Option.map_eq_some_iff.mp hq
        simp only [decide_eq_true_eq]
        rintro rfl
        exact absurd (hp.symm.trans ht) (by simp)
      · exact ih hk
    | some t =>
      rw [filterMap_cons_some (b := (p, fromRow db.dir t)) (by rw [hp]; rfl)]
      by_cases hkp : p = k
      · subst hkp
        rw [find?_cons_of_pos (by simp), hp]
        rfl
      · rw [find?_cons_of_neg (by simpa using hkp)]
        exact ih ((mem_cons.mp hk).resolve_left (Ne.symm hkp))

/-- After its read the run is at those pairs, with the triage it read. -/
def Remembers (call : BulkCall) (pairs : List Pair) (current : List (Pair × VulnerabilityTriage)) (s : State) : Prop :=
  s.call = call ∧
    match s.phase with
    | .start => False
    | .expanded _ => False
    | .read pairs' current' => pairs' = pairs ∧ current' = current
    | .updating rest current' _ => rest <:+ pairs ∧ current' = current
    | .done _ => True

variable {call : BulkCall} {current : List (Pair × VulnerabilityTriage)}

theorem Remembers.advance {s s' : State}
    (h : Remembers call pairs current s) (hs : advance s = some s') : Remembers call pairs current s' := by
  obtain ⟨hcl, hphs⟩ := h
  rw [Triage.advance] at hs
  cases hp : s.phase with
  | start | expanded => rw [hp] at hphs; exact hphs.elim
  | read pairs' current' =>
    rw [hp] at hphs hs
    cases hs
    exact ⟨hcl, hphs.1 ▸ suffix_rfl, hphs.2⟩
  | updating rest current' result =>
    rw [hp] at hphs hs
    cases rest with
    | nil =>
      cases hs
      exact ⟨hcl, trivial⟩
    | cons pair rest =>
      cases hs
      exact ⟨hcl, (suffix_cons pair rest).trans hphs.1, hphs.2⟩
  | done _ => rw [hp] at hs; cases hs

theorem Remembers.step (s : State) (a : Act) (s' : State)
    (h : Remembers call pairs current s) (hs : step s a = some s') : Remembers call pairs current s' := by
  cases a with
  | run => exact h.advance hs
  | update | matched | directory =>
    cases hs
    exact h

/-! ### What the run's own update does -/

/-- `update` refuses to write the decision: for its fields, for a vulnerability that is fixed or not in scope, or for an
assignee who is not available. -/
def Refused (db : Db) (scope : AgentScope) (pair : Pair) (d : Decision) (assignedTo : Option String)
    (now : Time) : Prop :=
  fieldsValid d.1 d.2.1 d.2.2 now = false ∨ (d.1 ≠ .open ∧ d.2.1 = none) ∨ found db scope pair = false ∨
    ∃ username, assignedTo = some username ∧ assignee db.dir username triagePermission = none

theorem accepted_iff {db : Db} {c : UpdateCall} (hver : c.expectedVersion = none) :
    Accepted db c ↔ ¬Refused db c.scope c.pair c.decision c.assignedTo c.now := by
  constructor
  · rintro ⟨⟨hfld, hnt⟩, hfnd, -, hass⟩ (h | ⟨hcls, hnn⟩ | h | ⟨username, hu, hnn⟩)
    · rw [show fieldsValid c.state c.note c.acceptedUntil c.now = false from h] at hfld
      cases hfld
    · exact hnt.elim hcls fun h => h hnn
    · rw [h] at hfnd
      cases hfnd
    · exact hass username hu hnn
  · intro h
    rw [Refused, not_or, not_or, not_or] at h
    obtain ⟨hfld, hnt, hfnd, hass⟩ := h
    refine ⟨⟨Bool.eq_true_of_not_eq_false hfld, ?_⟩, Bool.eq_true_of_not_eq_false hfnd, fun version hv => ?_,
      fun username hu hnn => ?_⟩
    · by_contra hno
      rw [not_or, not_not] at hno
      exact hnt hno
    · rw [hver] at hv
      cases hv
    · exact hass ⟨username, hu, hnn⟩

/-- A pair that no item names is left alone: by a close or an assignment if it was read as closed, by a reopening if it
was read as open. -/
def Spares (call : BulkCall) (read : VulnerabilityTriage) (pair : Pair) : Prop :=
  call.named pair = false ∧
    if call.change.reopen then read.state = .open else isOpen read.state read.acceptedUntil call.now = false

/-- The decision and the assignee that a run asks for, of a pair read as `read`. An assignment asks for the decision
that was read, and for open instead of an expired accepted risk. -/
def asked (call : BulkCall) (read : VulnerabilityTriage) : Decision × Option String :=
  match call.change with
  | .state state note acceptedUntil => ((state, note, acceptedUntil), read.assignedTo)
  | .assign assignedTo =>
    (if isOpen read.state read.acceptedUntil call.now ∧ read.state ≠ .open then (.open, read.note, none)
      else (read.state, read.note, read.acceptedUntil), assignedTo)

/-- **What the loop plans for a pair**: nothing if it spares it, else a write of what it asks for, without a version. -/
theorem planned_eq (call : BulkCall) (read : VulnerabilityTriage) (pair : Pair) :
    Spares call read pair ∧ (∃ why, planned call read pair = .error why) ∨
      ¬Spares call read pair ∧ planned call read pair = .ok ⟨call.scope, pair.1, pair.2, none, (asked call read).1.1,
        (asked call read).2, (asked call read).1.2.1, (asked call read).1.2.2, call.actor, call.now⟩ := by
  rw [planned, Spares, asked]
  cases hchg : call.change with
  | assign assignedTo =>
    cases hnam : call.named pair <;> cases hop : isOpen read.state read.acceptedUntil call.now <;>
      by_cases hstt : read.state = .open <;> simp [BulkChange.reopen, spared, hstt]
  | state state note acceptedUntil =>
    by_cases hnew : state = .open <;> cases hnam : call.named pair <;>
      cases hop : isOpen read.state read.acceptedUntil call.now <;> by_cases hstt : read.state = .open <;>
      simp [BulkChange.reopen, spared, hnew, hstt]

/-- Of the inputs, what was read and what is stored: the run spares the pair, is refused, or asks for what is stored. -/
def Keeps (call : BulkCall) (read : VulnerabilityTriage) (db : Db) (pair : Pair) : Prop :=
  Spares call read pair ∨ Refused db call.scope pair (asked call read).1 (asked call read).2 call.now ∨
    (asked call read).1 = decisionOf db pair

/-- **The loop's body** keeps a pair's decision exactly when it writes none, or the one that is stored. -/
theorem decisionOf_process_iff (db : Db) (call : BulkCall) (current : List (Pair × VulnerabilityTriage)) (pair : Pair)
    (result : BulkResult) :
    decisionOf (process db call current pair result).1 pair = decisionOf db pair ↔
      Keeps call (seenIn current pair) db pair := by
  rw [process, Keeps]
  rcases planned_eq call (seenIn current pair) pair with ⟨hsp, why, hpl⟩ | ⟨hsp, hpl⟩
  · rw [hpl]
    exact iff_of_true rfl (.inl hsp)
  rw [hpl, or_iff_right hsp]
  set c : UpdateCall := ⟨call.scope, pair.1, pair.2, none, (asked call (seenIn current pair)).1.1,
    (asked call (seenIn current pair)).2, (asked call (seenIn current pair)).1.2.1,
    (asked call (seenIn current pair)).1.2.2, call.actor, call.now⟩
  change decisionOf (update db c).1 pair = _ ↔ Refused db c.scope c.pair c.decision c.assignedTo c.now ∨ c.decision = _
  by_cases hrfd : Refused db c.scope c.pair c.decision c.assignedTo c.now
  · have hnot : ¬Accepted db c := fun h => (accepted_iff rfl).mp h hrfd
    exact iff_of_true (congrArg (decisionOf · pair) (update_of_not_accepted hnot)) (.inl hrfd)
  · rw [or_iff_right hrfd, decisionOf_update ((accepted_iff rfl).mpr hrfd) pair, if_pos (show pair = c.pair from rfl)]

/-- **When a bulk run keeps a decision it did not see.** The run reads its pairs in `s₁`, and comes to its own update of
`k` in `s₂`. That keeps what is stored in `s₂` exactly when the run spares the pair as it had read it, is refused, or
asks for that very decision. A pair that it had read as open and that is closed meanwhile stays so only if the run is
refused or is a close that asks for the very decision; an assignment that is not refused replaces it. -/
theorem bulk_keeps_decision_iff {s₁ s₂ s₃ : State} {pairs rest : List Pair} {k : Pair}
    {current : List (Pair × VulnerabilityTriage)} {result : BulkResult} {mid : List Act}
    (hrd : s₁.phase = .expanded pairs) (hmid : run step s₁ (.run :: mid) = some s₂)
    (hown : s₂.phase = .updating (k :: rest) current result) (hst : step s₂ .run = some s₃) :
    (decisionOf s₃.db k = decisionOf s₂.db k ↔ Keeps s₁.call (seen s₁.db k) s₂.db k) ∧
      (s₁.call.change.reopen = false → isOpen (seen s₁.db k).state (seen s₁.db k).acceptedUntil s₁.call.now = true →
        (decisionOf s₂.db k).1 ≠ .open → (decisionOf s₃.db k = decisionOf s₂.db k ↔
            Refused s₂.db s₁.call.scope k (asked s₁.call (seen s₁.db k)).1 (asked s₁.call
            (seen s₁.db k)).2 s₁.call.now ∨
              ∃ state note acceptedUntil, s₁.call.change = .state state note acceptedUntil ∧
                (state, note, acceptedUntil) = decisionOf s₂.db k)) := by
  obtain ⟨s, hs, hmid⟩ := run_cons.mp hmid
  have hs : s = { s₁ with phase := .read pairs (states s₁.db pairs) } := by
    rw [step, advance, hrd] at hs
    exact (Option.some.inj hs).symm
  have hrem : Remembers s₁.call pairs (states s₁.db pairs) s₂ :=
    run_invariant Remembers.step (by rw [hs]; exact ⟨rfl, rfl, rfl⟩) hmid
  rw [Remembers, hown] at hrem
  obtain ⟨hcl, hsuf, rfl⟩ := hrem
  have hse : seenIn (states s₁.db pairs) k = seen s₁.db k := seenIn_states (hsuf.subset mem_cons_self)
  have hiff : decisionOf s₃.db k = decisionOf s₂.db k ↔ Keeps s₁.call (seen s₁.db k) s₂.db k := by
    rw [step, advance, hown] at hst
    cases hst
    rw [← hcl, ← hse]
    exact decisionOf_process_iff s₂.db s₂.call (states s₁.db pairs) k result
  refine ⟨hiff, fun hrpn hop hcls => hiff.trans ?_⟩
  have hsp : ¬Spares s₁.call (seen s₁.db k) k := by
    rintro ⟨-, h⟩
    rw [hrpn, if_neg Bool.false_ne_true, hop] at h
    cases h
  rw [Keeps, or_iff_right hsp]
  refine or_congr_right ?_
  cases hchg : s₁.call.change with
  | state state note acceptedUntil => simp [asked, hchg]
  | assign assignedTo =>
    refine iff_of_false (fun hsm => hcls ?_) (by simp)
    rw [← hsm, asked, hchg]
    by_cases hstt : (seen s₁.db k).state = .open <;> simp [hop, hstt]

/-! ### Two schedules -/

def sampleDb : Db where
  dir := {
    hosts := ⟨[⟨"web-1", false⟩], by decide⟩
    membership := []
    users := ⟨[⟨"u1", "alice", true, [triagePermission]⟩, ⟨"u2", "bob", true, [triagePermission]⟩], by decide⟩ }
  vulnerabilities := ⟨[⟨"web-1", "USN-1", none⟩], by decide⟩
  triage := ⟨[], by decide⟩
  history := []

def samplePair : Pair := ("web-1", "USN-1")

def sampleUpdate : UpdateCall :=
  ⟨.global, "web-1", "USN-1", some 0, .falsePositive, none, some "not affected", none, "bob", 20⟩

def sampleClose : BulkCall :=
  ⟨.global, [("USN-1", none)], [], .state .mitigated (some "patched") none, "alice", 10⟩

def sampleAssign : BulkCall :=
  ⟨.global, [("USN-1", some "web-1")], [⟨true, none⟩], .assign (some "alice"), "alice", 10⟩

def sampleExpanded : State := ⟨sampleDb, sampleClose, .expanded [samplePair]⟩

def sampleBefore : State :=
  ⟨(update sampleDb sampleUpdate).1, sampleClose,
    .updating [samplePair] (states sampleDb [samplePair]) (missedResult sampleDb sampleClose [samplePair])⟩

theorem bulk_keeps_decision_iff_sample :
    sampleExpanded.phase = .expanded [samplePair] ∧
      run step sampleExpanded [.run, .run, .update sampleUpdate] = some sampleBefore ∧
      ∃ s₃, step sampleBefore .run = some s₃ ∧ (decisionOf s₃.db samplePair = decisionOf sampleBefore.db samplePair ↔
          Keeps sampleClose (seen sampleDb samplePair) sampleBefore.db samplePair) :=
  ⟨rfl, rfl, _, rfl,
    (@bulk_keeps_decision_iff sampleExpanded sampleBefore _ [samplePair] [] samplePair _ _ [.run, .update sampleUpdate]
      rfl rfl rfl rfl).1⟩

/-- **A bulk close replaces a false positive, and a bulk assignment reopens it**: both were made after
the run had read the pair as open, and neither item names the pair. -/
theorem bulk_overwrites_decision :
    sampleClose.named samplePair = false ∧ sampleAssign.named samplePair = false ∧
      (∀ call ∈ [sampleClose, sampleAssign],
        (run step ⟨sampleDb, call, .start⟩ [.run, .run, .run, .update sampleUpdate]).map
          (fun s => decisionOf s.db samplePair) = some (.falsePositive, some "not affected", none)) ∧
      (run step ⟨sampleDb, sampleClose, .start⟩ [.run, .run, .run, .update sampleUpdate, .run]).map
        (fun s => decisionOf s.db samplePair) = some (.mitigated, some "patched", none) ∧
      (run step ⟨sampleDb, sampleAssign, .start⟩ [.run, .run, .run, .update sampleUpdate, .run]).map
        (fun s => decisionOf s.db samplePair) = some (.open, none, none) := by
  decide +kernel

end OpenVibes.Store.Triage
