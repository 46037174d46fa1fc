import OpenVibes.Store.FindingTriage

/-!
# Triage of findings loses no update

A write of a finding's triage is based on the version that its caller names, or that it finds under the lock, and raises
it by one; the history leads from `open`, state by state, to the state it is in. A row is only ever inserted under the
lock of its finding (`inHand`). `Moves` is all that a step does to the tables, `Consistent` what it keeps, and
`mine_of_moves` that it does not touch what another has in hand.
-/

namespace OpenVibes.Store.FindingTriage

open Theory Rust List Option Function Cells Cell Txn Sessions
open Store.Triage (TriageState fieldsValid AgentScope Directory visible assignee usernameOf User)

/-! ### What is stored of a finding -/

def stateOf (r : Option TriageRow) : TriageState := (r.map TriageRow.state).getD .open

def versionOf (r : Option TriageRow) : ℤ := (r.map TriageRow.version).getD 0

def decisionOf (r : Option TriageRow) : TriageState × Option String × Option Time :=
  (r.map fun row => (row.state, row.note, row.acceptedUntil)).getD (.open, none, none)

def Change.decision (c : Change) : TriageState × Option String × Option Time := (c.state, c.note, c.acceptedUntil)

def Chain : TriageState → List HistoryRow → TriageState → Prop
  | first, [], last => first = last
  | first, h :: rest, last => h.fromState = first ∧ Chain h.toState rest last

variable {entry : HistoryRow} {f : Option Finding} {latest done : List (String × ℤ)} {prior : Prior}
  {observedAt : Time} {S : Sessions ℕ Call Db (End Result)} {m : Move ℕ Call Directory} {hs : List HistoryRow}

theorem Chain.append {first last : TriageState} (h : Chain first hs last)
    (hent : entry.fromState = last) : Chain first (hs ++ [entry]) entry.toState := by
  induction hs generalizing first with
  | nil =>
    obtain rfl : first = last := h
    exact ⟨hent, rfl⟩
  | cons h' rest ih => exact ⟨h.1, ih h.2⟩

/-- What everyone sees of a finding: its triage, history and audit. -/
def Db.published (s : Db) (k : Key) : Option TriageRow × List HistoryRow × List AuditRow :=
  ((s.triage k).committed, (s.history k).published, (s.audit k).published)

/-! ### What a transaction has in hand -/

/-- The triage row of a finding, before and now, when the transaction locked it or knows it to be absent. -/
def inHand (s : Db) (t : ℕ) (k : Key) : Option (Option TriageRow × Option TriageRow) :=
  match (s.triage k).own t with
  | some p => some p
  | none => if (s.findings k).holds t ∧ s.triage k = Cell.settled none then some (none, none) else none

@[ext]
structure Mine where
  finding : Key → Bool
  row : Key → Option (Option TriageRow × Option TriageRow)
  seen : Key → List HistoryRow

def mine (t : ℕ) (s : Db) : Mine where
  finding k := (s.findings k).holds t
  row k := inHand s t k
  seen k := if inHand s t k = none then [] else (s.history k).seen t

def nothing : Mine := ⟨fun _ => false, fun _ => none, fun _ => []⟩

variable {s : Db} {t : ℕ} {k : Key} {p : Option TriageRow × Option TriageRow}

theorem inHand_of_own (h : (s.triage k).own t = some p) : inHand s t k = some p := by
  rw [inHand, h]

theorem inHand_eq_some_iff :
    inHand s t k = some p ↔ (s.triage k).own t = some p ∨
      p = (none, none) ∧ (s.findings k).holds t = true ∧ s.triage k = settled none := by
  rw [inHand]
  cases hown : (s.triage k).own t with
  | some q =>
    constructor
    · exact .inl
    rintro (h | ⟨-, -, h⟩)
    · exact h
    · rw [h, own_settled] at hown
      cases hown
  | none =>
    split_ifs with hvac
    · constructor
      · intro h
        exact .inr ⟨(some.inj h).symm, hvac⟩
      · rintro (h | ⟨rfl, -⟩)
        · cases h
        · rfl
    · constructor
      · intro h
        cases h
      · rintro (h | ⟨-, h⟩)
        · cases h
        · exact absurd h hvac

theorem seen_of_inHand (h : inHand s t k ≠ none) : (mine t s).seen k = (s.history k).seen t := if_neg h

/-! ### What every step keeps -/

/-- What a transaction makes of a row: it is inserted under the lock of its finding, never deleted, and left or raised
by one version. -/
structure Raises (finding : Cell ℕ (Option Finding)) (t : ℕ) (p : Option TriageRow × Option TriageRow) : Prop where
  kept : p.2 ≠ none
  inserted : p.1 = none → finding.holds t = true
  version : p.2 = p.1 ∨ versionOf p.2 = versionOf p.1 + 1

theorem Raises.imp {f f' : Cell ℕ (Option Finding)} (h : Raises f t p) (hf : f.holds t = true → f'.holds t = true) :
    Raises f' t p :=
  ⟨h.kept, fun hnn => hf (h.inserted hnn), h.version⟩

structure Consistent (s : Db) : Prop where
  /-- History that is not committed is of the transaction that holds the triage row. -/
  history : ∀ k, Guards (s.triage k) (s.history k)
  audit : ∀ k, Guards (s.triage k) (s.audit k)
  chain : ∀ k, Chain .open (s.history k).published (stateOf (s.triage k).committed)
  row : ∀ k t p, (s.triage k).own t = some p → Raises (s.findings k) t p

inductive Moves (t : ℕ) (s : Db) : Db → Prop
  | stay : Moves t s s
  | finding (k : Key) (f : Option Finding) (hfe : (s.findings k).free t = true) :
    Moves t s { s with findings := s.findings.write t k f }
  | lock (k : Key) (hfe : (s.triage k).free t = true) (hvw : (s.triage k).view t ≠ none) :
    Moves t s { s with triage := s.triage.write t k ((s.triage k).view t) }
  /-- It writes a triage row for the first time; an absent one under the lock of its finding. -/
  | save (k : Key) (row : TriageRow) (hfe : (s.triage k).free t = true)
    (hvw : (s.triage k).view t = (s.triage k).committed)
    (hver : row.version = versionOf (s.triage k).committed + 1)
    (hfdg : (s.triage k).committed = none → (s.findings k).holds t = true) :
    Moves t s { s with triage := s.triage.write t k (some row) }
  | history (k : Key) (h : HistoryRow) (hhld : (s.triage k).holds t = true) :
    Moves t s { s with history := Function.update s.history k ((s.history k).insert t h) }
  | audit (k : Key) (a : AuditRow) (hhld : (s.triage k).holds t = true) :
    Moves t s { s with audit := Function.update s.audit k ((s.audit k).insert t a) }

theorem Consistent.finding (h : Consistent s) (hfe : (s.findings k).free t = true) :
    Consistent { s with findings := s.findings.write t k f } where
  history := h.history
  audit := h.audit
  chain := h.chain
  row j u p hp := (h.row j u p hp).imp (holds_write hfe)

variable {r : Option TriageRow}

section

variable (h : Consistent s)

include h

theorem Consistent.write (hfe : (s.triage k).free t = true)
    (hr : Raises (s.findings k) t ((s.triage k).committed, r)) :
    Consistent { s with triage := s.triage.write t k r } where
  history := forall_write (P := fun j c => Guards c (s.history j)) h.history ((h.history k).write hfe r)
  audit := forall_write (P := fun j c => Guards c (s.audit j)) h.audit ((h.audit k).write hfe r)
  chain j := by
    rw [committed_write]
    exact h.chain j
  row := by
    intro j u p hp
    rcases own_write_cases hfe hp with ⟨rfl, rfl, rfl⟩ | hp
    · exact hr
    · exact h.row j u p hp

theorem Consistent.view (hvw : (s.triage k).view t ≠ none) :
    Raises (s.findings k) t ((s.triage k).committed, (s.triage k).view t) := by
  cases hown : (s.triage k).own t with
  | none =>
    rw [view_of_none hown] at hvw ⊢
    exact ⟨hvw, fun hnn => absurd hnn hvw, .inl rfl⟩
  | some p =>
    rw [view_of_own hown, committed_of_own hown]
    exact h.row k t p hown

theorem Consistent.commit
    (hchn : ∀ k p, (s.triage k).own t = some p → Chain .open ((s.history k).seen t) (stateOf p.2)) :
    Consistent (s.commit t) where
  history k := (h.history k).commit t
  audit k := (h.audit k).commit t
  chain k := by
    change Chain .open ((s.history k).commit t).published (stateOf ((s.triage k).commit t).committed)
    rw [committed_commit]
    cases hown : (s.triage k).own t with
    | none =>
      rw [Rows.commit_eq_self ((h.history k).of_own_none hown), view_of_none hown]
      exact h.chain k
    | some p =>
      rw [Rows.published_commit ((h.history k).of_own hown), view_of_own hown]
      exact hchn k p hown
  row k u p hp := by
    obtain ⟨hu, hp⟩ := own_commit_eq_some_iff.mp hp
    exact (h.row k u p hp).imp fun hhld => holds_commit_iff.mpr ⟨hu, hhld⟩

theorem Consistent.abort (t : ℕ) : Consistent (s.abort t) where
  history k := (h.history k).abort t
  audit k := (h.audit k).abort t
  chain k := by
    change Chain .open ((s.history k).abort t).published (stateOf ((s.triage k).abort t).committed)
    rw [Rows.published_abort, committed_abort]
    exact h.chain k
  row k u p hp := by
    obtain ⟨hu, hp⟩ := own_abort_eq_some_iff.mp hp
    exact (h.row k u p hp).imp fun hhld => holds_abort_iff.mpr ⟨hu, hhld⟩

end

variable {s' : Db}

theorem Consistent.moves (h : Consistent s) (hm : Moves t s s') : Consistent s' := by
  cases hm with
  | stay => exact h
  | finding k f hfe => exact h.finding hfe
  | lock k hfe hvw => exact h.write hfe (h.view hvw)
  | save k row hfe hvw hver hfdg =>
    exact h.write hfe ⟨some_ne_none row, hfdg, .inr hver⟩
  | history k entry hhld =>
    refine ⟨?_, h.audit, ?_, h.row⟩
    · exact (forall_update_iff s.history fun j rows => Guards (s.triage j) rows).mpr
        ⟨(h.history k).insert hhld entry, fun j _ => h.history j⟩
    refine (forall_update_iff s.history fun j rows =>
      Chain .open rows.published (stateOf (s.triage j).committed)).mpr ⟨?_, fun j _ => h.chain j⟩
    rw [Rows.published_insert]
    exact h.chain k
  | audit k a hhld =>
    refine ⟨h.history, ?_, h.chain, h.row⟩
    exact (forall_update_iff s.audit fun j rows => Guards (s.triage j) rows).mpr
      ⟨(h.audit k).insert hhld a, fun j _ => h.audit j⟩

/-! ### A step of one transaction does not touch what another has in hand -/

variable {u : ℕ}

/-- What a transaction has in hand depends on its cells, and the history of the rows in hand. -/
theorem mine_congr (hfdg : ∀ k, (s'.findings k).holds u = (s.findings k).holds u)
    (hown : ∀ k, (s'.triage k).own u = (s.triage k).own u)
    (hvac : ∀ k, (s.findings k).holds u = true → (s'.triage k = settled none ↔ s.triage k = settled none))
    (hse : ∀ k, inHand s u k ≠ none → (s'.history k).seen u = (s.history k).seen u) : mine u s' = mine u s := by
  have hrow : ∀ k, inHand s' u k = inHand s u k := by
    intro k
    rw [inHand, inHand, hown k, hfdg k]
    by_cases hf : (s.findings k).holds u = true
    · simp [hvac k hf]
    · simp [hf]
  ext k
  · simp [mine, hfdg]
  · simp [mine, hrow]
  simp only [mine, hrow]
  split_ifs with h
  · rfl
  · rw [hse k h]

theorem own_none_of_inHand (hu : u ≠ t) (h : inHand s u k ≠ none) : (s.triage k).own t = none := by
  obtain ⟨p, hp⟩ := ne_none_iff_exists'.mp h
  rcases inHand_eq_some_iff.mp hp with hown | ⟨-, -, hset⟩
  · exact own_none_of_ne (.symm hu) hown
  · rw [hset, own_settled]

theorem mine_write (hu : u ≠ t) (hfe : (s.triage k).free t = true)
    (hr : Raises (s.findings k) t ((s.triage k).committed, r)) :
    mine u { s with triage := s.triage.write t k r } = mine u s := by
  refine mine_congr (fun _ => rfl) (fun j => own_write hu hfe j) (fun j hj => ?_) fun _ _ => rfl
  by_cases hk : j = k
  · subst hk
    simp only [write_self]
    refine ⟨fun h => absurd (congrArg held h) (some_ne_none _), fun h => ?_⟩
    exact absurd (holds_unique hj (hr.inserted (by rw [h]; rfl))) hu
  · simp [write_of_ne hk]

section

variable (hu : u ≠ t) (h : Consistent s)

include hu h

theorem mine_of_moves (hm : Moves t s s') : mine u s' = mine u s := by
  cases hm with
  | stay => rfl
  | finding k f hfe =>
    refine mine_congr (fun j => holds_congr (own_write hu hfe j)) (fun _ => rfl) (fun _ _ => .rfl) fun _ _ => rfl
  | lock k hfe hvw => exact mine_write hu hfe (h.view hvw)
  | save k row hfe hvw hver hfdg =>
    exact mine_write hu hfe ⟨some_ne_none row, hfdg, .inr hver⟩
  | history k entry hhld =>
    refine mine_congr (fun _ => rfl) (fun _ => rfl) (fun _ _ => .rfl) fun j _ => ?_
    exact (forall_update_iff s.history fun j rows => rows.seen u = (s.history j).seen u).mpr
      ⟨Rows.seen_insert hu entry _, fun _ _ => rfl⟩ j
  | audit k a hhld => rfl

theorem mine_of_commit : mine u (s.commit t) = mine u s := by
  refine mine_congr (fun k => holds_congr (own_commit hu _)) (fun k => own_commit hu _) (fun k hk => ?_)
    fun k hk => ?_
  · change (s.triage k).commit t = settled none ↔ _
    cases hown : (s.triage k).own t with
    | none => rw [commit_of_none hown]
    | some p =>
      rw [commit_of_own hown]
      refine ⟨fun heq => absurd (congrArg committed heq) (h.row k t p hown).kept, fun heq => ?_⟩
      rw [heq] at hown
      cases hown
  · change ((s.history k).commit t).seen u = _
    rw [Rows.commit_eq_self ((h.history k).of_own_none (own_none_of_inHand hu hk))]

theorem mine_of_abort : mine u (s.abort t) = mine u s := by
  refine mine_congr (fun k => holds_congr (own_abort hu _)) (fun k => own_abort hu _) (fun k hk => ?_)
    fun k hk => ?_
  · change (s.triage k).abort t = settled none ↔ _
    cases hown : (s.triage k).own t with
    | none => rw [abort_of_own_none hown]
    | some p =>
      rw [abort_of_own hown]
      refine ⟨fun heq => ?_, fun heq => ?_⟩
      · exact absurd (holds_unique hk ((h.row k t p hown).inserted (congrArg committed heq))) hu
      · rw [heq] at hown
        cases hown
  · change ((s.history k).abort t).seen u = _
    rw [Rows.abort_eq_self ((h.history k).of_own_none (own_none_of_inHand hu hk))]

end

theorem mine_of_own_none (hfdg : ∀ k, (s.findings k).own t = none) (htrg : ∀ k, (s.triage k).own t = none) :
    mine t s = nothing := by
  have hrow : ∀ k, inHand s t k = none := fun k => by
    rw [inHand, htrg k, own_eq_none_iff.mp (hfdg k)]
    simp
  ext k
  · exact own_eq_none_iff.mp (hfdg k)
  · simp [mine, hrow, nothing]
  · simp [mine, hrow, nothing]

theorem mine_commit (t : ℕ) (s : Db) : mine t (s.commit t) = nothing :=
  mine_of_own_none (fun _ => own_commit_self t _) fun _ => own_commit_self t _

theorem mine_abort (t : ℕ) (s : Db) : mine t (s.abort t) = nothing :=
  mine_of_own_none (fun _ => own_abort_self t _) fun _ => own_abort_self t _

/-! ### What the statements of the programs do -/

/-- The history in hand leads to the state of every row in hand. -/
def Mine.Tidy (l : Mine) : Prop := ∀ k p, l.row k = some p → Chain .open (l.seen k) (stateOf p.2)

structure Mine.Extends (l l' : Mine) : Prop where
  finding : ∀ k, l.finding k = true → l'.finding k = true
  kept : ∀ k p, l.row k = some p → l'.row k = some p ∧ l'.seen k = l.seen k
  new : ∀ k p, l'.row k = some p → l.row k = none → p.2 = p.1 ∧ Chain .open (l'.seen k) (stateOf p.2)

theorem Mine.Extends.refl (l : Mine) : l.Extends l :=
  ⟨fun _ h => h, fun _ _ h => ⟨h, rfl⟩, fun _ _ h hnn => absurd (h.symm.trans hnn) (some_ne_none _)⟩

variable {l l' : Mine}

theorem Mine.Extends.trans {l'' : Mine} (h : l.Extends l') (h' : l'.Extends l'') : l.Extends l'' where
  finding k hk := h'.finding k (h.finding k hk)
  kept k p hp := by
    obtain ⟨hp', hse⟩ := h.kept k p hp
    obtain ⟨hp'', hse'⟩ := h'.kept k p hp'
    exact ⟨hp'', hse'.trans hse⟩
  new k p hp hnn := by
    cases hrow : l'.row k with
    | none => exact h'.new k p hp hrow
    | some q =>
      obtain ⟨hq, hse⟩ := h'.kept k q hrow
      obtain rfl := mem_unique hp hq
      rw [hse]
      exact h.new k p hrow hnn

theorem Mine.Extends.tidy (h : l.Extends l') (hl : l.Tidy) : l'.Tidy := by
  intro k p hp
  cases hrow : l.row k with
  | none => exact (h.new k p hp hrow).2
  | some q =>
    obtain ⟨hq, hse⟩ := h.kept k q hrow
    obtain rfl := mem_unique hp hq
    rw [hse]
    exact hl k p hrow

theorem Consistent.chain_of_own_none (h : Consistent s) (hown : (s.triage k).own t = none) :
    Chain .open ((s.history k).seen t) (stateOf (s.triage k).committed) := by
  rw [Rows.seen_eq_published ((h.history k).of_own_none hown)]
  exact h.chain k

theorem inHand_write (j : Key) :
    inHand { s with triage := s.triage.write t k r } t j =
      if j = k then some ((s.triage k).committed, r) else inHand s t j := by
  by_cases hj : j = k
  · subst hj
    rw [if_pos rfl]
    exact inHand_of_own (by simp only [write_self, own_write_self])
  · rw [if_neg hj, inHand, inHand]
    simp [write_of_ne hj]

theorem extends_finding (h : Consistent s) (hfe : (s.findings k).free t = true) :
    (mine t s).Extends (mine t { s with findings := s.findings.write t k f }) := by
  refine ⟨fun j => holds_write hfe, fun j p hp => ?_, fun j p hp hnn => ?_⟩
  · have hp' : inHand { s with findings := s.findings.write t k f } t j = some p := by
      rcases inHand_eq_some_iff.mp hp with hown | ⟨rfl, hj, hvac⟩
      · exact inHand_eq_some_iff.mpr (.inl hown)
      · exact inHand_eq_some_iff.mpr (.inr ⟨rfl, holds_write hfe hj, hvac⟩)
    refine ⟨hp', ?_⟩
    rw [seen_of_inHand (ne_none_iff_exists'.mpr ⟨p, hp'⟩), seen_of_inHand (ne_none_iff_exists'.mpr ⟨p, hp⟩)]
  · rw [seen_of_inHand (ne_none_iff_exists'.mpr ⟨p, hp⟩)]
    rcases inHand_eq_some_iff.mp hp with hown | ⟨rfl, hj, hvac⟩
    · exact absurd ((inHand_of_own (s := s) hown).symm.trans hnn) (some_ne_none p)
    · refine ⟨rfl, ?_⟩
      have hchn := h.chain_of_own_none (t := t) (k := j) (by rw [hvac, own_settled])
      rwa [hvac] at hchn

/-- **A locking read of triage** brings a row to hand, and an absent one when the finding is. -/
theorem lock_triage (h : Consistent s) {triage : Cells ℕ Key (Option TriageRow)}
    (hlk : s.triage.lock t k = some (r, triage)) :
    Moves t s { s with triage := triage } ∧ (mine t s).Extends (mine t { s with triage := triage }) ∧
      ((r ≠ none ∨ (mine t s).finding k = true) → ∃ old, (mine t { s with triage := triage }).row k = some (old, r)) :=
          by
  obtain ⟨hvw, ⟨hnn, rfl⟩ | ⟨hso, hfe, rfl⟩⟩ := lock_eq_some_iff.mp hlk
  · refine ⟨.stay, .refl _, fun hor => ⟨none, ?_⟩⟩
    have hfdg : (s.findings k).holds t = true := hor.resolve_left (absurd hnn)
    rw [hnn] at hvw ⊢
    have hown : (s.triage k).own t = none := by
      cases hp : (s.triage k).own t with
      | none => rfl
      | some p =>
        rw [view_of_own hp] at hvw
        exact absurd hvw (h.row k t p hp).kept
    rw [view_of_none hown] at hvw
    -- nobody else inserts a row under this lock
    have hhd : (s.triage k).held = none := by
      cases hh : (s.triage k).held with
      | none => rfl
      | some q =>
        have hq : (s.triage k).own q.1 = some ((s.triage k).committed, q.2) := own_iff.mpr ⟨rfl, hh⟩
        have hhld := (h.row k q.1 _ hq).inserted hvw
        by_cases ht : q.1 = t
        · rw [ht, hown] at hq
          cases hq
        · exact absurd (holds_unique hhld hfdg) ht
    refine inHand_eq_some_iff.mpr (.inr ⟨rfl, hfdg, ?_⟩)
    rw [settled, ← hvw, ← hhd]
  have hrow : ∀ j, inHand { s with triage := s.triage.write t k r } t j =
      if j = k then some ((s.triage k).committed, r) else inHand s t j := inHand_write
  have hin : ∀ j, inHand s t j ≠ none → inHand { s with triage := s.triage.write t k r } t j = inHand s t j := by
    intro j hj
    rw [hrow j]
    split_ifs with hk
    · subst hk
      obtain ⟨p, hp⟩ := ne_none_iff_exists'.mp hj
      rw [hp]
      rcases inHand_eq_some_iff.mp hp with hown | ⟨-, -, hvac⟩
      · rw [← hvw, view_of_own hown, committed_of_own hown]
      · rw [hvac, view_settled] at hvw
        exact absurd hvw.symm hso
    · rfl
  refine ⟨?_, ⟨fun _ hj => hj, fun j p hp => ?_, fun j p hp hnn => ?_⟩, fun _ => ⟨_, (hrow k).trans (if_pos rfl)⟩⟩
  · subst hvw
    exact .lock k hfe hso
  · have hne : inHand s t j ≠ none := ne_none_iff_exists'.mpr ⟨p, hp⟩
    have hp' := (hin j hne).trans hp
    refine ⟨hp', ?_⟩
    rw [seen_of_inHand (ne_none_iff_exists'.mpr ⟨p, hp'⟩), seen_of_inHand hne]
  rw [seen_of_inHand (ne_none_iff_exists'.mpr ⟨p, hp⟩)]
  have hp' := (hrow j).symm.trans hp
  split_ifs at hp' with hk
  · subst hk
    cases hp'
    have hown : (s.triage j).own t = none := by
      cases hq : (s.triage j).own t with
      | none => rfl
      | some q => exact absurd ((inHand_of_own hq).symm.trans hnn) (some_ne_none q)
    rw [view_of_none hown] at hvw
    refine ⟨hvw.symm, ?_⟩
    rw [← hvw]
    exact h.chain_of_own_none hown
  · exact absurd (hp'.symm.trans hnn) (some_ne_none p)

abbrev Runs {α : Type} (t : ℕ) (p : Txn Db α) (l : Mine) (Q : α → Mine → Prop) : Prop :=
  p.Meets Consistent (mine t) (Moves t) Q l

theorem lockFinding_runs (t : ℕ) (k : Key) (l : Mine) :
    Runs t (lockFinding t k) l fun f l' => l.Extends l' ∧ (f ≠ none → l'.finding k = true) := by
  refine .stmt fun s f s' hI hl hact => ?_
  obtain ⟨⟨f', findings⟩, hlk, heq⟩ := map_eq_some_iff.mp hact
  cases heq
  subst hl
  obtain ⟨hvw, ⟨hnn, rfl⟩ | ⟨hso, hfe, rfl⟩⟩ := lock_eq_some_iff.mp hlk
  · exact ⟨.stay, .refl _, fun h => absurd hnn h⟩
  · refine ⟨.finding k _ hfe, extends_finding hI hfe, fun _ => ?_⟩
    simp [mine, write_self, holds_write_self]

theorem lockTriage_runs (t : ℕ) (k : Key) (l : Mine) :
    Runs t (lockTriage t k) l fun r l' => l.Extends l' ∧
      ((r ≠ none ∨ l.finding k = true) → ∃ old, l'.row k = some (old, r)) := by
  refine .stmt fun s r s' hI hl hact => ?_
  obtain ⟨⟨r', triage⟩, hlk, heq⟩ := map_eq_some_iff.mp hact
  cases heq
  subst hl
  exact lock_triage hI hlk

structure TriageRecord.Shows (record : TriageRecord) (r : Option TriageRow) : Prop where
  version : record.version = versionOf r
  state : record.state = stateOf r
  decision : (record.state, record.note, record.acceptedUntil) = decisionOf r

theorem lockRecord_runs (t : ℕ) (k : Key) (l : Mine) (hfdg : l.finding k = true) :
    Runs t (lockRecord t k) l fun record l' => l.Extends l' ∧
      ∃ old r, l'.row k = some (old, r) ∧ ∀ ruleVersion, (record.getD (unsaved ruleVersion)).Shows r := by
  refine .stmt fun s record s' hI hl hact => ?_
  obtain ⟨⟨r, triage⟩, hlk, heq⟩ := map_eq_some_iff.mp hact
  cases heq
  subst hl
  obtain ⟨hmvs, hext, hrow⟩ := lock_triage hI hlk
  obtain ⟨old, hold⟩ := hrow (.inr hfdg)
  refine ⟨hmvs, hext, old, r, hold, fun ruleVersion => ?_⟩
  cases r with
  | none | some => exact ⟨rfl, rfl, rfl⟩

/-- What is in hand after a row was written with its history. -/
def Mine.written (l : Mine) (k : Key) (old : Option TriageRow) (row : TriageRow) (hs : List HistoryRow) : Mine :=
  ⟨l.finding, Function.update l.row k (some (old, some row)), Function.update l.seen k (l.seen k ++ hs)⟩

section

variable (l : Mine) {j : Key} (old : Option TriageRow) (row : TriageRow) (hs : List HistoryRow)

@[simp] theorem Mine.row_written_self : (l.written k old row hs).row k = some (old, some row) := update_self ..

theorem Mine.row_written (h : j ≠ k) : (l.written k old row hs).row j = l.row j := update_of_ne h ..

@[simp] theorem Mine.seen_written_self : (l.written k old row hs).seen k = l.seen k ++ hs := update_self ..

theorem Mine.seen_written (h : j ≠ k) : (l.written k old row hs).seen j = l.seen j := update_of_ne h ..

end

variable {old : Option TriageRow}

theorem mine_save (hrow : inHand s t k = some (old, old)) (row : TriageRow) :
    mine t { s with triage := s.triage.write t k (some row) } = (mine t s).written k old row [] := by
  have hcom : (s.triage k).committed = old := by
    rcases inHand_eq_some_iff.mp hrow with hown | ⟨heq, -, hvac⟩
    · exact committed_of_own hown
    · cases heq
      rw [hvac]
      rfl
  ext j : 2
  · rfl
  · simp only [mine, inHand_write, hcom]
    by_cases hj : j = k
    · subst hj
      simp
    · rw [if_neg hj, Mine.row_written _ _ _ _ hj]
  · simp only [mine, inHand_write]
    by_cases hj : j = k
    · subst hj
      simp [hrow]
    · rw [if_neg hj, Mine.seen_written _ _ _ _ hj]

variable {row : TriageRow} {c : Change}

theorem saveTriage_runs (hrow : l.row k = some (old, old)) (hver : row.version = versionOf old + 1) :
    Runs t (saveTriage t k row) l fun _ l' => l' = l.written k old row [] := by
  refine .stmt fun s _ s' hI hl hact => ?_
  obtain ⟨hfe, heq⟩ := map_put_iff.mp hact
  cases heq
  subst hl
  refine ⟨?_, mine_save hrow row⟩
  rcases inHand_eq_some_iff.mp hrow with hown | ⟨heq, hfdg, hvac⟩
  · obtain ⟨hcom, -⟩ := own_iff.mp hown
    refine .save k row hfe ?_ (hcom ▸ hver) fun hnn => ?_
    · rw [view_of_own hown, hcom]
    · exact (hI.row k t _ hown).inserted (hcom.symm.trans hnn)
  cases heq
  refine .save k row hfe ?_ ?_ fun _ => hfdg
  · rw [hvac, view_settled]
    rfl
  · rw [hvac]
    exact hver

theorem holds_of_row (h : (mine t s).row k = some (old, some row)) : (s.triage k).holds t = true := by
  rcases inHand_eq_some_iff.mp h with hown | ⟨heq, -⟩
  · exact holds_iff.mpr ⟨_, hown⟩
  · cases heq

theorem insertHistory_runs (entry : HistoryRow) :
    Runs t (insertHistory t k entry) (l.written k old row hs) fun _ l' => l' = l.written k old row (hs ++ [entry]) := by
  refine .stmt fun s _ s' hI hl hact => ?_
  cases hact
  have hrow : (mine t s).row k = some (old, some row) := by rw [hl, Mine.row_written_self]
  refine ⟨.history k entry (holds_of_row hrow), ?_⟩
  have hin : inHand s t k ≠ none := ne_none_iff_exists'.mpr ⟨_, hrow⟩
  have hse : (s.history k).seen t = l.seen k ++ hs := by rw [← seen_of_inHand hin, hl, Mine.seen_written_self]
  ext j : 2
  · exact congrArg (fun m => m.finding j) hl
  · exact congrArg (fun m => m.row j) hl
  have hl' : (mine t s).seen j = (l.written k old row hs).seen j := by rw [hl]
  change (if inHand s t j = none then [] else (Function.update s.history k _ j).seen t) = _
  by_cases hj : j = k
  · subst hj
    rw [if_neg hin, update_self, Rows.seen_insert_self, hse, append_assoc, Mine.seen_written_self]
  · rw [update_of_ne hj, Mine.seen_written _ _ _ _ hj]
    exact hl'.trans (Mine.seen_written _ _ _ _ hj)

theorem insertAudit_runs (hrow : l.row k = some (old, some row)) (a : AuditRow) :
    Runs t (insertAudit t k a) l fun _ l' => l' = l := by
  refine .stmt fun s _ s' hI hl hact => ?_
  cases hact
  subst hl
  exact ⟨.audit k a (holds_of_row hrow), rfl⟩

/-- **The writes of a change** to a row in hand that was not written yet. -/
theorem saveAll_runs (hrow : l.row k = some (old, old)) (hver : row.version = versionOf old + 1)
    (entry : HistoryRow) (a : AuditRow) :
    Runs t (saveAll t k row entry a) l fun _ l' => l' = l.written k old row [entry] := by
  refine (saveTriage_runs hrow hver).seq fun _ l₁ h₁ => ?_
  subst h₁
  refine (insertHistory_runs entry).seq fun _ l₂ h₂ => ?_
  subst h₂
  exact insertAudit_runs (Mine.row_written_self ..) a

theorem Mine.Tidy.written (h : l.Tidy) (hrow : l.row k = some (old, old)) (hfr : entry.fromState = stateOf old)
    (hto : entry.toState = row.state) : (l.written k old row [entry]).Tidy := by
  intro j p hp
  by_cases hj : j = k
  · subst hj
    rw [Mine.row_written_self] at hp
    cases hp
    rw [Mine.seen_written_self]
    have hchn := (h j _ hrow).append hfr
    rwa [hto] at hchn
  · rw [Mine.row_written _ _ _ _ hj] at hp
    rw [Mine.seen_written _ _ _ _ hj]
    exact h j p hp

/-! ### What the calls end with -/

abbrev Decision := TriageState × Option String × Option Time

def TriageUpdate.refused : TriageUpdate → Bool
  | .updated _ => false
  | _ => true

def BulkTriageUpdate.refused : BulkTriageUpdate → Bool
  | .updated _ => false
  | _ => true

/-- What is in hand at the end of a call that asks for versions and decisions: unless it is refused, each finding has
the version and will have the decision. -/
def Ends {α : Type} (refused : α → Bool) (asks : List (Key × ℤ × Decision)) : End α → Mine → Prop
  | .commit a, l => refused a = false ∧ l.Tidy ∧
      ∀ x ∈ asks, ∃ old new, l.row x.1 = some (old, new) ∧ versionOf old = x.2.1 ∧ decisionOf new = x.2.2
  | .rollback a, l => refused a = false →
      ∀ x ∈ asks, ∃ old, l.row x.1 = some (old, old) ∧ versionOf old = x.2.1 ∧ decisionOf old = x.2.2

theorem ends_refused {α : Type} {refused : α → Bool} {a : α} (h : refused a = true) (asks : List (Key × ℤ × Decision))
    (l : Mine) : Ends refused asks (.rollback a) l :=
  fun h' => absurd (h.symm.trans h') Bool.noConfusion

theorem findAssignee_runs (t : ℕ) (username : Option String) (l : Mine) :
    Runs t (findAssignee username) l fun _ l' => l' = l := by
  cases username with
  | none => exact rfl
  | some username => exact .query (fun _ => .stay) fun _ _ _ => rfl

theorem tidy_nothing : nothing.Tidy := fun _ _ h => by cases h

theorem Mine.Extends.row_nothing (h : nothing.Extends l) {new : Option TriageRow} (hrow : l.row k = some (old, new)) :
    new = old := (h.new k _ hrow rfl).1

theorem TriageRecord.Shows.decision_of_not_changed {record : TriageRecord} (h : record.Shows r)
    {assignedTo : Option String} (hsm : changed c assignedTo record = false) : decisionOf r = c.decision := by
  rw [changed] at hsm
  simp only [Bool.or_eq_false_iff, decide_eq_false_iff_not, not_not] at hsm
  obtain ⟨⟨⟨hstt, -⟩, hnt⟩, hunt⟩ := hsm
  rw [← h.decision, Change.decision, hstt, hnt, hunt]

variable {user : Option User} {ruleVersion : ℤ}

theorem save_runs {previous : TriageRecord} {ver : ℤ} (hl : l.Tidy) (hrow : l.row k = some (old, old))
    (hshw : previous.Shows old) (hver : ver = versionOf old + 1) :
    Runs t (save t k c user ruleVersion previous ver) l fun _ l' => l'.Tidy ∧
      ∃ row hs, l' = l.written k old row hs ∧ decisionOf (some row) = c.decision := by
  refine (saveAll_runs hrow (by exact hver) _ _).seq fun _ l' hl' => ?_
  subst hl'
  exact ⟨hl.written hrow hshw.state rfl, _, _, rfl, rfl⟩

theorem updateLocked_runs {c : UpdateCall} (hl : nothing.Extends l) (hfdg : l.finding c.key = true)
    (current : Finding) :
    Runs t (updateLocked t c current) l
      (Ends TriageUpdate.refused [(c.key, c.expectedVersion, c.change.decision)]) := by
  refine (lockRecord_runs t c.key l hfdg).seq fun record l₁ ⟨hext, old, r, hrow, hshw⟩ => ?_
  obtain rfl := (hl.trans hext).row_nothing hrow
  have hshw := hshw current.ruleVersion
  dsimp only
  split_ifs with hver htrn hnt
  · exact ends_refused rfl _ _
  · exact ends_refused rfl _ _
  · exact ends_refused rfl _ _
  rw [not_not] at hver
  have hexp : versionOf r = c.expectedVersion := hshw.version.symm.trans hver
  refine (findAssignee_runs t _ l₁).seq fun user l₂ hl₂ => ?_
  subst hl₂
  split
  · exact ends_refused rfl _ _
  split_ifs with hchd
  · refine fun _ x hx => ?_
    obtain rfl := mem_singleton.mp hx
    exact ⟨r, hrow, hexp, hshw.decision_of_not_changed (by simpa using hchd)⟩
  refine (save_runs ((hl.trans hext).tidy tidy_nothing) hrow hshw (by rw [hexp])).seq ?_
  rintro _ l₃ ⟨htd, row, hs, rfl, hdec⟩
  refine ⟨rfl, htd, fun x hx => ?_⟩
  obtain rfl := mem_singleton.mp hx
  exact ⟨r, some row, Mine.row_written_self .., hexp, hdec⟩

theorem update_runs (t : ℕ) (c : UpdateCall) :
    Runs t (update t c) nothing (Ends TriageUpdate.refused [(c.key, c.expectedVersion, c.change.decision)]) := by
  rw [update]
  split_ifs
  · exact ends_refused rfl _ _
  refine (lockFinding_runs t c.key nothing).seq fun f l ⟨hext, hfdg⟩ => ?_
  cases f with
  | none => exact ends_refused rfl _ _
  | some current => exact updateLocked_runs hext (hfdg (some_ne_none current)) current

/-! #### Many at once -/

/-- A prior shows the row of its host, which is in hand and not written. -/
def Ready (c : BulkCall) (l : Mine) (prior : Prior) : Prop :=
  ∃ r, l.row (c.key prior.agentId) = some (r, r) ∧ prior.record.Shows r

theorem BulkCall.key_injective (c : BulkCall) {a b : String} (h : c.key a = c.key b) : a = b := congrArg Key.agentId h

variable {c : BulkCall}

theorem lockNext_runs (agentId : String) (hl : nothing.Extends l)
    (hlat : ∀ x ∈ latest, l.finding (c.key x.1) = true) : Runs t (c.lockNext t latest agentId) l fun latest l =>
      nothing.Extends l ∧ ∀ x ∈ latest, l.finding (c.key x.1) = true := by
  refine (lockFinding_runs t (c.key agentId) l).seq fun f l' ⟨hext, hfdg⟩ => ?_
  have hlat' : ∀ x ∈ latest, l'.finding (c.key x.1) = true := fun x hx => hext.finding _ (hlat x hx)
  cases f with
  | none => exact ⟨hl.trans hext, hlat'⟩
  | some current =>
    refine ⟨hl.trans hext, fun x hx => ?_⟩
    rcases mem_append.mp hx with hx | hx
    · exact hlat' x hx
    · rw [mem_singleton.mp hx]
      exact hfdg (some_ne_none current)

/-- What is known after the triage of some hosts was read. -/
structure ReadUpTo (c : BulkCall) (done : List (String × ℤ)) (previous : List Prior) (stale : List StaleTriageVersion)
    (l : Mine) : Prop where
  ext : nothing.Extends l
  agents : previous.map Prior.agentId = done.map Prod.fst
  ready : ∀ prior ∈ previous, Ready c l prior
  /-- Unless one is stale, the versions are the ones asked for. -/
  versions : stale = [] → previous.map (fun prior => prior.record.version) = done.map Prod.snd

variable {previous : List Prior} {stale : List StaleTriageVersion}

theorem ReadUpTo.next {stale' : List StaleTriageVersion} (h : ReadUpTo c done previous stale l) (hext : l.Extends l')
    {x : String × ℤ} (hagt : prior.agentId = x.1) (hrdy : Ready c l' prior)
    (hstl : stale' = [] → stale = [] ∧ prior.record.version = x.2) :
    ReadUpTo c (done ++ [x]) (previous ++ [prior]) stale' l' where
  ext := h.ext.trans hext
  agents := by rw [map_append, map_append, h.agents, map_singleton, map_singleton, hagt]
  ready p hp := by
    rcases mem_append.mp hp with hp | hp
    · obtain ⟨r, hr, hs⟩ := h.ready p hp
      exact ⟨r, (hext.kept _ _ hr).1, hs⟩
    · rw [mem_singleton.mp hp]
      exact hrdy
  versions hs := by
    obtain ⟨hs, hver⟩ := hstl hs
    rw [map_append, map_append, h.versions hs, map_singleton, map_singleton, hver]

theorem readAll_runs (rest : List (String × ℤ)) (hlat : ∀ x ∈ latest, l.finding (c.key x.1) = true)
    (hl : ReadUpTo c done previous stale l) : Runs t (c.readAll t latest rest previous stale) l fun r l' =>
      match r with
      | .ok (previous, stale) => ReadUpTo c (done ++ rest) previous stale l'
      | .error e => e.refused = true := by
  induction rest generalizing done previous stale l with
  | nil =>
    rw [BulkCall.readAll, append_nil]
    exact hl
  | cons x rest ih =>
    obtain ⟨agentId, expectedVersion⟩ := x
    rw [BulkCall.readAll]
    split
    · exact rfl
    rename_i found ruleVersion hfi
    have hfdg : l.finding (c.key agentId) = true := by
      have hagt : found = agentId := by simpa using find?_some hfi
      rw [← hagt]
      exact hlat _ (mem_of_find?_eq_some hfi)
    refine (lockRecord_runs t _ l hfdg).seq fun record l₁ ⟨hext, old, r, hrow, hshw⟩ => ?_
    obtain rfl := (hl.ext.trans hext).row_nothing hrow
    by_cases htrn : (!transitionAllowed (record.getD (unsaved ruleVersion)).state c.change.state) = true
    · rw [if_pos htrn]
      exact rfl
    rw [if_neg htrn, append_cons]
    refine ih (fun x hx => hext.finding _ (hlat x hx)) (hl.next hext rfl ⟨r, hrow, hshw ruleVersion⟩ fun hs => ?_)
    split_ifs at hs with hver
    · simp at hs
    · exact ⟨hs, not_not.mp hver⟩

/-- A prior's finding has the version that was read and will have the decision. -/
def Granted (c : BulkCall) (l : Mine) (prior : Prior) : Prop :=
  ∃ old new, l.row (c.key prior.agentId) = some (old, new) ∧ versionOf old = prior.record.version ∧
    decisionOf new = c.change.decision

theorem saveNext_runs {records : List TriageRecord} (hl : l.Tidy) (hrdy : Ready c l prior) :
    Runs t (c.saveNext t user records prior) l fun _ l' => l'.Tidy ∧ Granted c l' prior ∧
      ∀ k, k ≠ c.key prior.agentId → l'.row k = l.row k := by
  obtain ⟨r, hrow, hshw⟩ := hrdy
  rw [BulkCall.saveNext]
  split_ifs with hchd
  · refine ⟨hl, ⟨r, r, hrow, hshw.version.symm, ?_⟩, fun _ _ => rfl⟩
    exact hshw.decision_of_not_changed (by simpa using hchd)
  refine (save_runs hl hrow hshw (by rw [hshw.version])).seq ?_
  rintro _ l' ⟨htd, row, hs, rfl, hdec⟩
  refine ⟨htd, ⟨r, some row, Mine.row_written_self .., hshw.version.symm, hdec⟩, fun k hk => ?_⟩
  exact Mine.row_written _ _ _ _ hk

/-- The loop that writes: hosts done have what is asked for, those left are in hand. -/
structure SavedUpTo (c : BulkCall) (previous rest : List Prior) (l : Mine) : Prop where
  tidy : l.Tidy
  split : ∃ done, previous = done ++ rest ∧ ∀ prior ∈ done, Granted c l prior
  ready : ∀ prior ∈ rest, Ready c l prior

theorem saveAllNext_runs (hnd : (previous.map Prior.agentId).Nodup) (hl : l.Tidy)
    (hrdy : ∀ prior ∈ previous, Ready c l prior) :
    Runs t (previous.foldlM (c.saveNext t user) []) l fun _ l' => SavedUpTo c previous [] l' := by
  refine .foldlM (J := fun rest _ l => SavedUpTo c previous rest l) (fun prior rest records l hl => ?_)
    ⟨hl, ⟨[], rfl, fun _ h => absurd h not_mem_nil⟩, hrdy⟩
  obtain ⟨done, hspl, hdn⟩ := hl.split
  refine (saveNext_runs hl.tidy (hl.ready prior mem_cons_self)).imp fun _ l' ⟨htd, hgrn, hoth⟩ => ?_
  -- no other host has the key that was written
  have hkey : ∀ p ∈ done ++ rest, c.key p.agentId ≠ c.key prior.agentId := by
    rw [hspl, map_append, map_cons] at hnd
    have hne := (nodup_middle.mp hnd)
    intro p hp heq
    refine (nodup_cons.mp hne).1 ?_
    rw [← c.key_injective heq, ← map_append]
    exact mem_map_of_mem hp
  refine ⟨htd, ⟨done ++ [prior], by rw [hspl, append_assoc]; rfl, fun p hp => ?_⟩, fun p hp => ?_⟩
  · rcases mem_append.mp hp with hp | hp
    · obtain ⟨old, new, hrow, hgrn⟩ := hdn p hp
      exact ⟨old, new, (hoth _ (hkey p (mem_append_left _ hp))).trans hrow, hgrn⟩
    · rw [mem_singleton.mp hp]
      exact hgrn
  · obtain ⟨r, hrow, hshw⟩ := hl.ready p (mem_cons_of_mem _ hp)
    exact ⟨r, (hoth _ (hkey p (mem_append_right _ hp))).trans hrow, hshw⟩

def BulkCall.asks (c : BulkCall) : List (Key × ℤ × Decision) :=
  c.changes.map fun change => (c.key change.1, change.2, c.change.decision)

theorem finish_runs (hnd : (c.changes.map Prod.fst).Nodup) (hl : ReadUpTo c c.changes previous stale l) :
    Runs t (c.finish t previous stale) l (Ends BulkTriageUpdate.refused c.asks) := by
  rw [BulkCall.finish]
  split_ifs with hstl
  · exact ends_refused rfl _ _
  refine (findAssignee_runs t _ l).seq fun user l₁ hl₁ => ?_
  subst hl₁
  split
  · exact ends_refused rfl _ _
  refine (saveAllNext_runs (hl.agents ▸ hnd) (hl.ext.tidy tidy_nothing) hl.ready).seq ?_
  intro records l' hl'
  obtain ⟨done, hspl, hdn⟩ := hl'.split
  rw [append_nil] at hspl
  subst hspl
  refine ⟨rfl, hl'.tidy, fun x hx => ?_⟩
  obtain ⟨change, hchg, rfl⟩ := mem_map.mp hx
  obtain ⟨prior, hprr, hagt, hver⟩ : ∃ prior ∈ previous, prior.agentId = change.1 ∧
      prior.record.version = change.2 := by
    obtain ⟨i, hi, rfl⟩ := mem_iff_getElem.mp hchg
    have hlen : previous.length = c.changes.length := by simpa using congrArg length hl.agents
    have hagn := hl.agents
    have hvr := hl.versions (by simpa using hstl)
    refine ⟨previous[i], getElem_mem _, ?_, ?_⟩
    · simpa [hi, hlen] using congrArg (fun l => l[i]?) hagn
    · simpa [hi, hlen] using congrArg (fun l => l[i]?) hvr
  obtain ⟨old, new, hrow, hold, hnew⟩ := hdn prior hprr
  exact ⟨old, new, hagt ▸ hrow, hold.trans hver, hnew⟩

theorem updateMany_runs (t : ℕ) (c : BulkCall) :
    Runs t (updateMany t c) nothing (Ends BulkTriageUpdate.refused c.asks) := by
  rw [updateMany]
  split_ifs with hval
  · exact ends_refused rfl _ _
  have hnd : (c.changes.map Prod.fst).Nodup := by
    rw [Bool.not_eq_true', Bool.not_eq_false] at hval
    simp only [BulkCall.valid, Bool.and_eq_true, decide_eq_true_eq] at hval
    tauto
  refine (Meets.query (fun _ => .stay) (Q := fun _ l => l = nothing) fun _ _ _ => rfl).seq ?_
  rintro selected _ rfl
  refine (Meets.foldlM
    (J := fun _ latest l => nothing.Extends l ∧ ∀ x ∈ latest, l.finding (c.key x.1) = true)
    (fun agentId _ latest l hl => lockNext_runs agentId hl.1 hl.2) ⟨.refl _, nofun⟩).seq ?_
  rintro latest l ⟨hext, hlat⟩
  split_ifs
  · exact ends_refused rfl _ _
  have hrd : ReadUpTo c [] [] [] l := ⟨hext, rfl, fun _ h => absurd h not_mem_nil, fun _ => rfl⟩
  refine (readAll_runs c.changes hlat hrd).seq fun r l' hr => ?_
  cases r with
  | error e => exact ends_refused hr _ _
  | ok r => exact finish_runs hnd hr

/-! #### Reports -/

def Mine.Reopened (l : Mine) : Prop := ∀ k p, l.row k = some p → p.2 = p.1 ∨ stateOf p.2 = .open

theorem Mine.Extends.reopened (h : l.Extends l') (hl : l.Reopened) : l'.Reopened := by
  intro k p hp
  cases hrow : l.row k with
  | none => exact .inl (h.new k p hp hrow).1
  | some q =>
    obtain rfl := some.inj (hp.symm.trans (h.kept k q hrow).1)
    exact hl k p hrow

theorem reopenReason_open (h : reopenReason row ruleVersion observedAt ≠ none) : row.state ≠ .open := by
  intro hop
  rw [reopenReason, hop] at h
  exact h rfl

theorem reopenIfDue_runs {now : Time} (hl : l.Tidy) (hreo : l.Reopened) :
    Runs t (reopenIfDue t k ruleVersion observedAt now) l fun _ l' => l'.Tidy ∧ l'.Reopened := by
  refine (lockTriage_runs t k l).seq fun r l' ⟨hext, hrow⟩ => ?_
  have htd := hext.tidy hl
  have hreo' := hext.reopened hreo
  cases r with
  | none => exact ⟨htd, hreo'⟩
  | some row =>
    dsimp only
    split
    · exact ⟨htd, hreo'⟩
    rename_i reason hrsn
    obtain ⟨old, hold⟩ := hrow (.inl (some_ne_none row))
    -- a row that the report wrote already is open, and has no reason to be opened again
    obtain rfl : some row = old := by
      refine (hreo' k _ hold).resolve_right fun hop => ?_
      exact reopenReason_open (by rw [hrsn]; exact some_ne_none reason) hop
    refine (saveAll_runs hold rfl _ _).imp fun _ l'' hl'' => ?_
    subst hl''
    refine ⟨htd.written hold rfl rfl, fun j p hp => ?_⟩
    by_cases hj : j = k
    · subst hj
      rw [Mine.row_written_self] at hp
      cases hp
      exact .inr rfl
    · rw [Mine.row_written _ _ _ _ hj] at hp
      exact hreo' j p hp

theorem event_runs (e : Event) (hl : l.Tidy) (hreo : l.Reopened) :
    Runs t (e.prog t) l fun _ l' => l'.Tidy ∧ l'.Reopened := by
  cases e with
  | store k f =>
    refine .stmt fun s _ s' hI hs hact => ?_
    obtain ⟨hfe, heq⟩ := map_put_iff.mp hact
    cases heq
    subst hs
    have hext := extends_finding (f := some f) hI hfe
    exact ⟨.finding k _ hfe, hext.tidy hl, hext.reopened hreo⟩
  | observed k findingId observedAt now =>
    refine (lockFinding_runs t k l).seq fun f l' ⟨hext, _⟩ => ?_
    cases f with
    | none => exact ⟨hext.tidy hl, hext.reopened hreo⟩
    | some latest =>
      dsimp only
      split_ifs
      · exact ⟨hext.tidy hl, hext.reopened hreo⟩
      · exact reopenIfDue_runs (hext.tidy hl) (hext.reopened hreo)
  | confirmed k ruleVersion observedAt now => exact reopenIfDue_runs hl hreo

/-! ### Every schedule -/

/-- The findings, versions and decisions that a call asks for. -/
def Call.asks : Call → List (Key × ℤ × Decision)
  | .update c => [(c.key, c.expectedVersion, c.change.decision)]
  | .updateMany c => c.asks
  | .report _ => []

def Result.refused : Result → Bool
  | .update r => r.refused
  | .updateMany r => r.refused
  | .stored => false

theorem ends_map {α β : Type} {refused : α → Bool} {refused' : β → Bool} {f : α → β}
    (h : ∀ a, refused' (f a) = refused a) {asks : List (Key × ℤ × Decision)} {e : End α} (he : Ends refused asks e l) :
    Ends refused' asks (e.map f) l := by
  cases e with
  | commit a => exact ⟨(h a).trans he.1, he.2⟩
  | rollback a => exact fun hr => he ((h a).symm.trans hr)

theorem call_runs (t : ℕ) (call : Call) : Runs t (call.prog t) nothing (Ends Result.refused call.asks) := by
  cases call with
  | update c => exact (update_runs t c).seq fun _ _ h => ends_map (fun _ => rfl) h
  | updateMany c => exact (updateMany_runs t c).seq fun _ _ h => ends_map (fun _ => rfl) h
  | report events =>
    refine (Meets.foldlM (J := fun _ _ l => l.Tidy ∧ l.Reopened)
      (fun e _ _ l hl => event_runs e hl.1 hl.2) ⟨tidy_nothing, fun _ _ h => by cases h⟩).seq fun _ l hl => ?_
    exact ⟨rfl, hl.1, nofun⟩

def Returns (_ : ℕ) (call : Call) : End Result → Mine → Prop := Ends Result.refused call.asks

theorem system_safe : system.Safe Consistent mine nothing Moves Returns where
  start := call_runs
  keeps _ _ _ h hm := h.moves hm
  others _ _ _ _ hu h hm := mine_of_moves hu h hm
  close t call e s h he := by
    cases e with
    | commit r =>
      refine ⟨h.commit fun k p hown => ?_, fun u hu => mine_of_commit hu h, mine_commit t s⟩
      have hin := inHand_of_own hown
      rw [← seen_of_inHand (ne_none_iff_exists'.mpr ⟨p, hin⟩)]
      exact he.2.1 k p hin
    | rollback r => exact ⟨h.abort t, fun u hu => mine_of_abort hu h, mine_abort t s⟩
  abort t s h := ⟨h.abort t, fun u hu => mine_of_abort hu h, mine_abort t s⟩
  effect dir s s' h heq := by
    cases heq
    exact ⟨⟨h.history, h.audit, h.chain, h.row⟩, fun _ => rfl⟩

/-- Nothing runs, and the history of every finding leads to its state. -/
structure AtRest (s : Db) : Prop where
  findings : ∀ k, (s.findings k).held = none
  triage : ∀ k, (s.triage k).held = none
  history : ∀ k, (s.history k).PendingBy fun _ => False
  audit : ∀ k, (s.audit k).PendingBy fun _ => False
  chain : ∀ k, Chain .open (s.history k).published (stateOf (s.triage k).committed)

theorem own_of_held {ν : Type} {c : Cell ℕ ν} (h : c.held = none) (t : ℕ) : c.own t = none := by rw [own, h]

theorem AtRest.sound (h : AtRest s) : System.Sound Consistent mine nothing Moves Returns (quiet s) := by
  refine System.sound_quiet ⟨fun k => (h.history k).imp fun _ => False.elim,
    fun k => (h.audit k).imp fun _ => False.elim, h.chain, fun k t p hp => ?_⟩ fun t => ?_
  · rw [own_of_held (h.triage k)] at hp
    cases hp
  · exact mine_of_own_none (fun k => own_of_held (h.findings k) t) fun k => own_of_held (h.triage k) t

theorem latest_of_moves (hm : Moves t s s') (k : Key) :
    (s'.triage k).latest = (s.triage k).latest ∨ versionOf (s'.triage k).latest = versionOf (s.triage k).latest + 1 :=
        by
  cases hm with
  | stay | finding => exact .inl rfl
  | lock j hfe hvw =>
    left
    by_cases hk : k = j
    · subst hk
      simp only [write_self]
      exact (latest_of_free hfe).symm
    · simp [write_of_ne hk]
  | save j row hfe hvw hver hfdg =>
    by_cases hk : k = j
    · subst hk
      right
      rw [latest_of_free hfe, hvw, ← hver]
      simp only [write_self]
      rfl
    · left
      simp [write_of_ne hk]
  | history | audit => exact .inl rfl

theorem published_of_moves (hm : Moves t s s') (k : Key) : s'.published k = s.published k := by
  cases hm with
  | stay | finding => rfl
  | lock | save => exact congrArg (·, _) (committed_write ..)
  | history j | audit j =>
    simp only [Db.published]
    by_cases hk : k = j
    · subst hk
      rw [update_self, Rows.published_insert]
    · rw [update_of_ne hk]

theorem published_abort (t : ℕ) (s : Db) (k : Key) : (s.abort t).published k = s.published k := by
  simp [Db.published, Db.abort, Cells.abort, committed_abort, Rows.published_abort]

theorem latest_commit (t : ℕ) (s : Db) (k : Key) : ((s.commit t).triage k).latest = (s.triage k).latest := by
  change ((s.triage k).commit t).latest = _
  cases hown : (s.triage k).own t with
  | none => rw [commit_of_none hown]
  | some p =>
    rw [commit_of_own hown, latest_of_free (free_of_own hown), view_of_own hown]
    rfl

theorem Consistent.version_commit (h : Consistent s) (t : ℕ) (k : Key) :
    ((s.commit t).triage k).committed = (s.triage k).committed ∨
      versionOf ((s.commit t).triage k).committed = versionOf (s.triage k).committed + 1 := by
  change ((s.triage k).commit t).committed = _ ∨ versionOf ((s.triage k).commit t).committed = _
  rw [committed_commit]
  cases hown : (s.triage k).own t with
  | none => exact .inl (view_of_none hown)
  | some p =>
    rw [view_of_own hown, committed_of_own hown]
    exact (h.row k t p hown).version

/-- The committed row is the one that came to hand, and the written one is published. -/
theorem committed_of_inHand (h : inHand s t k = some p) :
    (s.triage k).committed = p.1 ∧ ((s.commit t).triage k).committed = p.2 := by
  change _ ∧ ((s.triage k).commit t).committed = _
  rw [committed_commit]
  rcases inHand_eq_some_iff.mp h with hown | ⟨rfl, -, hvac⟩
  · exact ⟨(own_iff.mp hown).1, view_of_own hown⟩
  · rw [hvac]
    exact ⟨rfl, rfl⟩

theorem latest_of_does (h : System.Does system mine Moves Returns S m s) :
    (∃ t, s = S.state.abort t) ∨ ∀ k, (s.triage k).latest = (S.state.triage k).latest ∨
      versionOf (s.triage k).latest = versionOf (S.state.triage k).latest + 1 := by
  cases h with
  | start t call => exact .inr fun k => .inl rfl
  | act t s hm => exact .inr (latest_of_moves hm)
  | close t call e hret hQ =>
    cases e with
    | commit r => exact .inr fun k => .inl (latest_commit t S.state k)
    | rollback r => exact .inl ⟨t, rfl⟩
  | abort t => exact .inl ⟨t, rfl⟩
  | outside dir s hs =>
    cases hs
    exact .inr fun k => .inl rfl

theorem published_of_does (h : System.Does system mine Moves Returns S m s) :
    (∀ k, s.published k = S.state.published k) ∨ ∃ t call r, m = .advance t ∧
      S.running t = some (call, .ret (.commit r)) ∧ r.refused = false ∧ s = S.state.commit t := by
  cases h with
  | start t call => exact .inl fun k => rfl
  | act t s hm => exact .inl (published_of_moves hm)
  | close t call e hret hQ =>
    cases e with
    | commit r => exact .inr ⟨t, call, r, rfl, hret, hQ.1, rfl⟩
    | rollback r => exact .inl (published_abort t S.state)
  | abort t => exact .inl (published_abort t S.state)
  | outside dir s hs =>
    cases hs
    exact .inl fun k => rfl

/-- **Triage loses no update**, in any schedule. At every move: each write raises the version of its row by one; a call
that ends without a refusal finds each row with the version it named, and leaves it with what was asked for; nothing is
published but by the commit of a call that is not refused; and the history of every finding leads from `open` to its
state. -/
theorem triage_loses_no_update {s₀ : Db} (h₀ : AtRest s₀) {moves : List (Move ℕ Call Directory)}
    {S S' : Sessions ℕ Call Db (End Result)} {m : Move ℕ Call Directory}
    (hrun : run system.step (quiet s₀) moves = some S) (hst : system.step S m = some S') :
    ((∃ t, S'.state = S.state.abort t) ∨ ∀ k, (S'.state.triage k).latest = (S.state.triage k).latest ∨
        versionOf (S'.state.triage k).latest = versionOf (S.state.triage k).latest + 1) ∧
      (∀ k, (S'.state.triage k).committed = (S.state.triage k).committed ∨
        versionOf (S'.state.triage k).committed = versionOf (S.state.triage k).committed + 1) ∧
      (∀ t call e, S.running t = some (call, .ret e) → e.result.refused = false → ∀ x ∈ call.asks,
        versionOf (S.state.triage x.1).committed = x.2.1 ∧
          (m = .advance t → decisionOf (S'.state.triage x.1).committed = x.2.2)) ∧
      ((∀ k, S'.state.published k = S.state.published k) ∨ ∃ t call r, m = .advance t ∧
        S.running t = some (call, .ret (.commit r)) ∧ r.refused = false) ∧
      ∀ k, Chain .open (S'.state.history k).published (stateOf (S'.state.triage k).committed) := by
  have hS := system_safe.run h₀.sound hrun
  obtain ⟨hS', hds⟩ := system_safe.step_cases hS hst
  refine ⟨latest_of_does hds, fun k => ?_, fun t call e hret hrfd x hx => ?_, ?_, hS'.state.chain⟩
  · rcases published_of_does hds with hsm | ⟨t, call, r, -, -, -, heq⟩
    · exact .inl (congrArg Prod.fst (hsm k))
    · rw [heq]
      exact hS.state.version_commit t k
  · have hen : Returns t call e (mine t S.state) := hS.returned hret
    cases e with
    | commit r =>
      obtain ⟨old, new, hrow, hver, hdec⟩ := hen.2.2 x hx
      obtain ⟨hold, hnew⟩ := committed_of_inHand hrow
      refine ⟨hold ▸ hver, fun hm => ?_⟩
      rw [System.step_returned hret (hm ▸ hst)]
      exact hnew ▸ hdec
    | rollback r =>
      obtain ⟨old, hrow, hver, hdec⟩ := hen hrfd x hx
      obtain ⟨hold, -⟩ := committed_of_inHand hrow
      refine ⟨hold ▸ hver, fun hm => ?_⟩
      rw [System.step_returned hret (hm ▸ hst)]
      change decisionOf ((S.state.triage x.1).abort t).committed = _
      rw [committed_abort]
      exact hold ▸ hdec
  · rcases published_of_does hds with hsm | ⟨t, call, r, hm, hret, hr, -⟩
    · exact .inl hsm
    · exact .inr ⟨t, call, r, hm, hret, hr⟩

/-! ### Two first writes -/

def sampleKey : Key := ⟨"web-7", "baseline", "sshd.root"⟩

def sampleDb : Db where
  dir := ⟨.empty, [], .empty⟩
  findings k := Cell.settled (if k = sampleKey then some ⟨"f1", 3⟩ else none)
  triage _ := Cell.settled none
  history _ := []
  audit _ := []

def sampleCall (actor : String) : Call :=
  .update ⟨sampleKey, 0, .mitigated, none, some "fixed", none, actor, none, 10⟩

/-- Two people decide at once; the first one is about to commit, and the second one waits. -/
def sampleMoves : List (Move ℕ Call Directory) :=
  [.start 0 (sampleCall "alice"), .start 1 (sampleCall "bob"), .advance 0, .advance 0, .advance 0, .advance 0,
    .advance 0]

theorem sampleDb_atRest : AtRest sampleDb where
  findings _ := rfl
  triage _ := rfl
  history _ _ h := absurd h not_mem_nil
  audit _ _ h := absurd h not_mem_nil
  chain _ := rfl

/-- The first write commits version 1. -/
theorem triage_loses_no_update_sample :
    ∃ S S', run system.step (quiet sampleDb) sampleMoves = some S ∧ system.step S (.advance 1) = none ∧
      system.step S (.advance 0) = some S' ∧ versionOf (S'.state.triage sampleKey).committed = 1 ∧
      Chain .open (S'.state.history sampleKey).published (stateOf (S'.state.triage sampleKey).committed) :=
  ⟨_, _, rfl, rfl, rfl, rfl,
    (@triage_loses_no_update sampleDb sampleDb_atRest sampleMoves _ _ (.advance 0) rfl rfl).2.2.2.2 sampleKey⟩

end OpenVibes.Store.FindingTriage
