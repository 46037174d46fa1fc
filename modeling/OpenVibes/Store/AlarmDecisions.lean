import OpenVibes.Store.Alarms

/-!
# Decisions on alarms against ingest

A version of an alarm that a transaction holds has a history that leads to its state, or lacks the one row that the
transaction is about to write. Ingest decides to reopen an alarm on a row it read without a lock, so a decision that is
committed before its `UPDATE` takes the lock is overwritten.
-/

namespace OpenVibes.Store.Alarms

open Theory Store.Triage List Option

/-! ### Histories -/

def Chained (history : List HistoryRow) : Prop := history.IsChain fun a b => b.fromState = some a.toState

def EndsIn (state : Option TriageState) (history : List HistoryRow) : Prop :=
  ∀ h ∈ history.getLast?, some h.toState = state

theorem endsIn_nil (state : Option TriageState) : EndsIn state [] := fun _ h => by cases h

/-- An alarm whose history is a chain that leads to its state. -/
structure Good (e : Entry) : Prop where
  chained : Chained e.history
  ends : EndsIn (some e.row.triage.state) e.history

/-- An alarm whose state changed, and whose history does not say so yet. -/
structure Owes (before : Option TriageState) (after : TriageState) (e : Entry) : Prop where
  chained : Chained e.history
  ends : EndsIn before e.history
  state : e.row.triage.state = after

variable {e : Entry}

theorem Owes.record {before : Option TriageState} {after : TriageState} (h : Owes before after e) {row : HistoryRow}
    (hbef : row.fromState = before) (haft : row.toState = after) : Good (record row e) := by
  refine ⟨isChain_append.mpr ⟨h.chained, isChain_singleton _, ?_⟩, ?_⟩
  · intro x hx y hy
    cases hy
    rw [hbef, h.ends x hx]
  intro x hx
  rw [Alarms.record, getLast?_concat] at hx
  cases hx
  rw [haft, ← h.state]
  rfl

variable {e' w : Entry}

theorem Good.owes (h : Good e) {before after : TriageState} (hbef : e.row.triage.state = before)
    (hhist : e'.history = e.history) (haft : e'.row.triage.state = after) : Owes (some before) after e' := by
  refine ⟨by rw [hhist]; exact h.chained, ?_, haft⟩
  rw [hhist, ← hbef]
  exact h.ends

theorem Good.of_triage (h : Good e) (htrg : e'.row.triage = e.row.triage) (hhist : e'.history = e.history) :
    Good e' :=
  ⟨by rw [hhist]; exact h.chained, by rw [hhist, htrg]; exact h.ends⟩

/-! ### The invariant -/

/-- A decision that a recurrence does not undo: a false positive, or an accepted risk that has not
expired. -/
def Decided (now : Time) (triage : AlarmTriage) : Prop :=
  triage.state = .falsePositive ∨ triage.state = .acceptedRisk ∧ riskExpired triage now = false

instance (now : Time) (triage : AlarmTriage) : Decidable (Decided now triage) := inferInstanceAs (Decidable (_ ∨ _))

def IngestPhase.expects (now : Time) : IngestPhase → ℕ → Option (Entry → Prop)
  | .reopening known _ _, k =>
    if k = known.id then
      some fun e => Good e ∧ e.row.triage.state = known.state ∧ ¬Decided now e.row.triage
    else none
  | .recording known _ _, k => if k = known.id then some (Owes (some known.state) .open) else none
  | .noting id state _ _ _ _, k => if k = id then some (Owes none state) else none
  | _, _ => none

/-- What a console transaction relies on for its version of an alarm. -/
def ConsolePhase.expects : ConsolePhase → ℕ → Option (Entry → Prop)
  | .locked c previous _, k => if k = c.id then some fun e => Good e ∧ e.row.triage.state = previous else none
  | .updated c previous _, k => if k = c.id then some (Owes (some previous) c.state) else none
  | .closing _ _ closed, k => (closed.lookup k).map fun previous => Owes (some previous) .falsePositive
  | .recording _ closed, k => (closed.lookup k).map fun previous => Owes (some previous) .falsePositive
  | _, _ => none

/-- What a transaction relies on for its version of an alarm. -/
def State.expects (s : State) : Tx → ℕ → Option (Entry → Prop)
  | .ingest, k => s.ingest.bind fun p => p.2.expects p.1.now k
  | .console n, k => s.console[n]?.bind fun p => p.expects k

/-- `close_source` handles an alarm once. -/
def ConsolePhase.Distinct : ConsolePhase → Prop
  | .closing _ rest closed => (rest ++ closed.map Prod.fst).Nodup
  | .recording _ closed => (closed.map Prod.fst).Nodup
  | _ => True

/-- The batch's version `e` against the committed one: the same triage, or reopened and not decided. -/
def Reopened (now : Time) (e committed : Entry) : Prop :=
  e.row.triage = committed.row.triage ∨ e.row.triage.state = .open ∧ ¬Decided now committed.row.triage

theorem Reopened.of_triage {now : Time} (h : Reopened now e w) (htrg : e'.row.triage = e.row.triage) :
    Reopened now e' w := by
  rw [Reopened, htrg]
  exact h

structure Invariant (s : State) : Prop where
  committed : ∀ (k : ℕ) (r : Versioned Tx Entry) (e : Entry), s.rows[k]? = some r → r.committed = some e → Good e
  /-- A transaction holds the rows it relies on, and they are as it expects. -/
  expected : ∀ t k P, s.expects t k = some P → ∃ r e, s.rows[k]? = some r ∧ r.pending = some (t, e) ∧ P e
  settled : ∀ (t : Tx) (k : ℕ) (r : Versioned Tx Entry) (e : Entry), s.rows[k]? = some r → r.pending = some (t, e) →
    s.expects t k = none → Good e
  /-- The batch's versions leave decided alarms as they are. -/
  ingest : ∀ (k : ℕ) (r : Versioned Tx Entry) (e : Entry), s.rows[k]? = some r → r.pending = some (.ingest, e) →
    ∃ b p, s.ingest = some (b, p) ∧ ∀ w, r.committed = some w → Reopened b.now e w
  distinct : ∀ (n : ℕ) (p : ConsolePhase), s.console[n]? = some p → p.Distinct

variable {r : Versioned Tx Entry} {rows : AlarmRows} {P : Entry → Prop}

namespace Invariant

variable {s s' : State} {t : Tx} {k : ℕ}

theorem good_of_free (h : Invariant s) (hr : s.rows[k]? = some r) (hfr : r.Free t) (hvw : r.view t = some e)
    (hnn : s.expects t k = none) : Good e := by
  rcases Versioned.view_of_free hfr hvw with hp | ⟨-, hc⟩
  · exact h.settled t k r e hr hp hnn
  · exact h.committed k r e hr hc

theorem update_held (h : Invariant s) {f : Entry → Entry} (hP : s.expects t k = some P)
    (hu : s.rows.update t k f = some rows) :
    ∃ r e, s.rows[k]? = some r ∧ r.Free t ∧ r.view t = some e ∧ P e ∧ rows = s.rows.set k (r.write t (f e)) := by
  obtain ⟨r, e, hr, hp, he⟩ := h.expected t k P hP
  have hvw : r.view t = some e := by rw [Versioned.view, hp]; exact if_pos rfl
  rcases Rows.update_cases hu with ⟨hnn, -⟩ | ⟨r', v, hr', hfr, hv, hrw⟩
  · rw [Rows.view, hr] at hnn
    exact absurd (hvw.symm.trans hnn) (by simp)
  · obtain rfl := mem_unique hr hr'
    obtain rfl := mem_unique hvw hv
    exact ⟨r, e, hr, hfr, hvw, he, hrw⟩

theorem of_rows (h : Invariant s) (hrw : s'.rows = s.rows) (hexpe : ∀ t k, s'.expects t k = s.expects t k)
    (hing : ∀ b p, s.ingest = some (b, p) → ∃ p', s'.ingest = some (b, p'))
    (hdst : ∀ (n : ℕ) (p : ConsolePhase), s'.console[n]? = some p → p.Distinct) : Invariant s' where
  committed := by rw [hrw]; exact h.committed
  expected := by
    intro t k P hP
    rw [hexpe] at hP
    rw [hrw]
    exact h.expected t k P hP
  settled := by
    intro t k r e hr hp hnn
    rw [hrw] at hr
    rw [hexpe] at hnn
    exact h.settled t k r e hr hp hnn
  ingest := by
    intro k r e hr hp
    rw [hrw] at hr
    obtain ⟨b, p, hb, hw⟩ := h.ingest k r e hr hp
    obtain ⟨p', hp'⟩ := hing b p hb
    exact ⟨b, p', hp', hw⟩
  distinct := hdst

/-- **A step that writes one row** of a transaction, which nobody else holds. -/
theorem write (h : Invariant s) (hr : s.rows[k]? = some r) (hfr : r.Free t)
    (hrw : s'.rows = s.rows.set k (r.write t e)) (hoth : ∀ t' ≠ t, ∀ j, s'.expects t' j = s.expects t' j)
    (hfrm : ∀ j ≠ k, s'.expects t j = s.expects t j) (hkp : (s'.expects t k).getD Good e)
    (hing : ∀ b p, s.ingest = some (b, p) → ∃ p', s'.ingest = some (b, p'))
    (hreo : t = .ingest → ∃ b p, s'.ingest = some (b, p) ∧ ∀ w, r.committed = some w → Reopened b.now e w)
    (hdst : ∀ (n : ℕ) (p : ConsolePhase), s'.console[n]? = some p → p.Distinct) : Invariant s' where
  committed := by
    intro j r' w hr' hw
    rw [hrw, Rows.getElem?_set_iff hr] at hr'
    rcases hr' with ⟨rfl, rfl⟩ | ⟨-, hr'⟩
    · exact h.committed j r w hr hw
    · exact h.committed j r' w hr' hw
  expected := by
    intro t' j P hP
    by_cases ht : t' = t
    · subst ht
      by_cases hj : j = k
      · subst hj
        exact ⟨r.write t' e, e, by rw [hrw, Rows.getElem?_set_iff hr]; exact .inl ⟨rfl, rfl⟩, rfl, by rwa [hP] at hkp⟩
      · rw [hfrm j hj] at hP
        obtain ⟨r', e', hr', hp', he'⟩ := h.expected t' j P hP
        exact ⟨r', e', by rw [hrw, Rows.getElem?_set_iff hr]; exact .inr ⟨hj, hr'⟩, hp', he'⟩
    · rw [hoth t' ht] at hP
      obtain ⟨r', e', hr', hp', he'⟩ := h.expected t' j P hP
      -- the row written is not this one: another transaction holds this one
      have hj : j ≠ k := by
        rintro rfl
        obtain rfl := mem_unique hr hr'
        exact ht (hfr t' (by rw [hp']; rfl))
      exact ⟨r', e', by rw [hrw, Rows.getElem?_set_iff hr]; exact .inr ⟨hj, hr'⟩, hp', he'⟩
  settled := by
    intro t' j r' e' hr' hp' hnn
    rw [hrw, Rows.getElem?_set_iff hr] at hr'
    rcases hr' with ⟨rfl, rfl⟩ | ⟨hj, hr'⟩
    · cases hp'
      rwa [hnn] at hkp
    refine h.settled t' j r' e' hr' hp' ?_
    by_cases ht : t' = t
    · subst ht
      rw [← hfrm j hj]
      exact hnn
    · rw [← hoth t' ht]
      exact hnn
  ingest := by
    intro j r' e' hr' hp'
    rw [hrw, Rows.getElem?_set_iff hr] at hr'
    rcases hr' with ⟨rfl, rfl⟩ | ⟨-, hr'⟩
    · cases hp'
      exact hreo rfl
    · obtain ⟨b, p, hb, hw⟩ := h.ingest j r' e' hr' hp'
      obtain ⟨p', hb'⟩ := hing b p hb
      exact ⟨b, p', hb', hw⟩
  distinct := hdst

section

variable (h : Invariant s) (hoth : ∀ t' ≠ t, ∀ j, s'.expects t' j = s.expects t' j)
  (hnn : ∀ j, s'.expects t j = none) (hing : t = .ingest ∨ s'.ingest = s.ingest)
  (hdst : ∀ (n : ℕ) (p : ConsolePhase), s'.console[n]? = some p → p.Distinct)

include h hoth hnn hing hdst

/-- **A transaction that ends** frees its rows, and leaves good committed versions there. -/
theorem ended {f : Versioned Tx Entry → Versioned Tx Entry} (hrw : s'.rows = s.rows.map f)
    (hf : ∀ (k : ℕ) (r : Versioned Tx Entry), s.rows[k]? = some r →
      ((f r).pending = none ∧ (∃ e, r.pending = some (t, e)) ∧ ∀ w, (f r).committed = some w → Good w) ∨
        (∀ e, r.pending ≠ some (t, e)) ∧ f r = r) : Invariant s' := by
  have hget : ∀ (j : ℕ) (r' : Versioned Tx Entry), s'.rows[j]? = some r' ↔ ∃ r, s.rows[j]? = some r ∧ f r = r' := by
    intro j r'
    rw [hrw, getElem?_map, map_eq_some_iff]
  refine ⟨fun j r' w hr' hw => ?_, fun t' j P hP => ?_, fun t' j r' e hr' hp hexp => ?_, fun j r' e hr' hp => ?_, hdst⟩
  · obtain ⟨r, hr, rfl⟩ := (hget j r').mp hr'
    rcases hf j r hr with ⟨-, -, hgd⟩ | ⟨-, hsm⟩
    · exact hgd w hw
    · rw [hsm] at hw
      exact h.committed j r w hr hw
  · have ht : t' ≠ t := by
      rintro rfl
      rw [hnn j] at hP
      cases hP
    rw [hoth t' ht] at hP
    obtain ⟨r, e, hr, hp, he⟩ := h.expected t' j P hP
    rcases hf j r hr with ⟨-, ⟨e', he'⟩, -⟩ | ⟨-, hsm⟩
    · exact absurd (congrArg Prod.fst (mem_unique hp he')) ht
    · exact ⟨r, e, (hget j r).mpr ⟨r, hr, hsm⟩, hp, he⟩
  · obtain ⟨r, hr, rfl⟩ := (hget j r').mp hr'
    rcases hf j r hr with ⟨hfr, -, -⟩ | ⟨hne, hsm⟩
    · rw [hfr] at hp
      cases hp
    rw [hsm] at hp
    have ht : t' ≠ t := by
      rintro rfl
      exact hne e hp
    rw [hoth t' ht] at hexp
    exact h.settled t' j r e hr hp hexp
  · obtain ⟨r, hr, rfl⟩ := (hget j r').mp hr'
    rcases hf j r hr with ⟨hfr, -, -⟩ | ⟨hne, hsm⟩
    · rw [hfr] at hp
      cases hp
    rw [hsm] at hp ⊢
    rcases hing with rfl | hing
    · exact absurd hp (hne e)
    · rw [hing]
      exact h.ingest j r e hr hp

theorem commit (hstl : ∀ j, s.expects t j = none) (hrw : s'.rows = s.rows.commit t) : Invariant s' := by
  refine h.ended hoth hnn hing hdst hrw fun k r hr => ?_
  rcases Versioned.settle_cases t some r with ⟨e, hp, hr'⟩ | hsm
  · refine .inl ⟨congrArg _ hr', ⟨e, hp⟩, fun w hw => ?_⟩
    obtain rfl := mem_unique (congrArg Versioned.committed hr') hw
    exact h.settled t k r e hr hp (hstl k)
  · exact .inr hsm

theorem abort (hrw : s'.rows = s.rows.abort t) : Invariant s' := by
  refine h.ended hoth hnn hing hdst hrw fun k r hr => ?_
  rcases Versioned.settle_cases t (fun _ => r.committed) r with ⟨e, hp, hr'⟩ | hsm
  · refine .inl ⟨congrArg _ hr', ⟨e, hp⟩, fun w hw => ?_⟩
    exact h.committed k r w hr ((congrArg Versioned.committed hr').symm.trans hw)
  · exact .inr hsm

end

/-! ### Steps of the batch -/

section

variable {b : Batch} {p p' : IngestPhase}

section

variable (h : Invariant s) (hs : s.ingest = some (b, p))

include h hs

theorem ingest_moves
    (hexpe : ∀ j, p'.expects b.now j = p.expects b.now j) : Invariant { s with ingest := some (b, p') } := by
  refine h.of_rows rfl (fun t j => ?_) (fun b' q hq => ?_) h.distinct
  · cases t with
    | ingest =>
      rw [State.expects, State.expects, hs]
      exact hexpe j
    | console n => rfl
  · obtain ⟨rfl, -⟩ := Prod.mk.inj (mem_unique hs hq)
    exact ⟨p', rfl⟩

theorem ingest_writes (hr : s.rows[k]? = some r)
    (hfr : r.Free .ingest) (hfrm : ∀ j ≠ k, p'.expects b.now j = p.expects b.now j)
    (hkp : (p'.expects b.now k).getD Good e) (hreo : ∀ w, r.committed = some w → Reopened b.now e w) :
    Invariant { s with rows := s.rows.set k (r.write .ingest e), ingest := some (b, p') } := by
  refine h.write hr hfr rfl (fun t' ht' j => ?_) (fun j hj => ?_) hkp (fun b' q hq => ?_)
    (fun _ => ⟨b, p', rfl, hreo⟩) h.distinct
  · cases t' with
    | ingest => exact absurd rfl ht'
    | console n => rfl
  · rw [State.expects, State.expects, hs]
    exact hfrm j hj
  · obtain ⟨rfl, -⟩ := Prod.mk.inj (mem_unique hs hq)
    exact ⟨p', rfl⟩

theorem ingest_inserts (hnn : ∀ j, p.expects b.now j = none) (hfrm : ∀ j ≠ s.rows.length, p'.expects b.now j = none)
    (hkp : (p'.expects b.now s.rows.length).getD Good e) :
    Invariant { s with rows := s.rows.insert .ingest e, ingest := some (b, p') } := by
  refine ⟨fun j r w hr hw => ?_, fun t j P hP => ?_, fun t j r e' hr hp hexp => ?_, fun j r e' hr hp => ?_, h.distinct⟩
  · rcases Rows.getElem?_insert_iff.mp hr with ⟨-, rfl⟩ | hr
    · cases hw
    · exact h.committed j r w hr hw
  · cases t with
    | ingest =>
      by_cases hj : j = s.rows.length
      · subst hj
        rw [show p'.expects b.now s.rows.length = some P from hP] at hkp
        exact ⟨_, e, Rows.getElem?_insert_iff.mpr (.inl ⟨rfl, rfl⟩), rfl, hkp⟩
      · exact absurd ((hfrm j hj).symm.trans hP) (by simp)
    | console n =>
      obtain ⟨r, e', hr, hp, he⟩ := h.expected (.console n) j P hP
      exact ⟨r, e', Rows.getElem?_insert_iff.mpr (.inr hr), hp, he⟩
  · rcases Rows.getElem?_insert_iff.mp hr with ⟨rfl, rfl⟩ | hr
    · cases hp
      rwa [show p'.expects b.now s.rows.length = none from hexp] at hkp
    refine h.settled t j r e' hr hp ?_
    cases t with
    | ingest =>
      rw [State.expects, hs]
      exact hnn j
    | console n => exact hexp
  · rcases Rows.getElem?_insert_iff.mp hr with ⟨rfl, rfl⟩ | hr
    · exact ⟨b, p', rfl, fun w hw => by cases hw⟩
    · obtain ⟨b', q, hb', hw⟩ := h.ingest j r e' hr hp
      obtain ⟨rfl, -⟩ := Prod.mk.inj (mem_unique hs hb')
      exact ⟨b, p', rfl, hw⟩

theorem reopened_of_free (hr : s.rows[k]? = some r)
    (hfr : r.Free .ingest) (hvw : r.view .ingest = some e) (hw : r.committed = some w) : Reopened b.now e w := by
  rcases Versioned.view_of_free hfr hvw with hp | ⟨-, hc⟩
  · obtain ⟨b', q, hb', hall⟩ := h.ingest k r e hr hp
    obtain ⟨rfl, -⟩ := Prod.mk.inj (mem_unique hs hb')
    exact hall w hw
  · obtain rfl := mem_unique hc hw
    exact .inl rfl

end

end

end Invariant

/-- The first update of an alarm to reopen finds the state that the batch had read, and a risk that has expired just
if it had when read. -/
def IngestPhase.Fresh (rows : AlarmRows) (now : Time) : IngestPhase → Prop
  | .raising alarm known _ _ => reopens alarm known = true → ∃ e ∈ rows.view .ingest known.id,
      e.row.triage.state = known.state ∧ riskExpired e.row.triage now = known.riskExpired
  | _ => True

instance (rows : AlarmRows) (now : Time) : ∀ p : IngestPhase, Decidable (p.Fresh rows now)
  | .raising _ _ _ _ => inferInstanceAs (Decidable (_ → _))
  | .looking _ _ | .reopening _ _ _ | .recording _ _ _ | .inserting _ _ _ | .noting _ _ _ _ _ _ => isTrue trivial

def Fresh (s : State) : Act → Prop
  | .ingest => ∀ q ∈ s.ingest, q.2.Fresh s.rows q.1.now
  | _ => True

instance (s : State) : ∀ a : Act, Decidable (Fresh s a)
  | .ingest => inferInstanceAs (Decidable (∀ q ∈ s.ingest, q.2.Fresh s.rows q.1.now))
  | .batch _ _ _ | .failIngest | .update _ | .close _ | .console _ | .failConsole _ | .others _ _ => isTrue trivial

/-- **An alarm that is reopened was not decided** when it was read. -/
theorem not_decided_of_reopens {alarm : StoredAlarm} {known : Known} {now : Time} {triage : AlarmTriage}
    (hre : reopens alarm known = true) (hstt : triage.state = known.state)
    (hrs : riskExpired triage now = known.riskExpired) : ¬Decided now triage := by
  rw [reopens, Bool.and_eq_true, Bool.or_eq_true, decide_eq_true_eq, ← hstt, ← hrs] at hre
  rintro (hfa | ⟨hacc, hnot⟩)
  · rcases hre.2 with hmit | hexpi
    · rw [hfa] at hmit
      cases hmit
    · simp [riskExpired, hfa] at hexpi
  · rcases hre.2 with hmit | hexpi
    · rw [hacc] at hmit
      cases hmit
    · rw [hexpi] at hnot
      cases hnot

variable {s : State}

theorem Invariant.ingestStep (h : Invariant s) {b : Batch} {p : IngestPhase} (hs : s.ingest = some (b, p))
    (hfrs : Fresh s .ingest) {p' : Option IngestPhase} (hst : ingestStep s.rows b p = some (rows, p')) :
    Invariant { s with rows := rows, ingest := p'.map fun p => (b, p) } := by
  have hexpe : ∀ j, s.expects .ingest j = p.expects b.now j := fun j => by rw [State.expects, hs]; rfl
  cases p with
  | looking rest done =>
    cases rest with
    | nil =>
      cases hst
      refine h.commit (fun t' ht' j => ?_) (fun j => rfl) (.inl rfl) h.distinct hexpe rfl
      cases t' with
      | ingest => exact absurd rfl ht'
      | console n => rfl
    | cons alarm rest =>
      rw [Alarms.ingestStep] at hst
      split at hst
      · split_ifs at hst
        all_goals
          cases hst
          exact h.ingest_moves hs fun j => rfl
      · cases hst
        exact h.ingest_moves hs fun j => rfl
  | raising alarm known rest done =>
    obtain ⟨rows₁, hu, hst⟩ := bind_eq_some_iff.mp hst
    rcases Rows.update_cases hu with ⟨hnn, rfl⟩ | ⟨r, e, hr, hfr, hvw, rfl⟩
    · split_ifs at hst with hre
      · -- the row that was read is still there
        obtain ⟨e, he, -⟩ := hfrs (b, _) hs hre
        exact absurd (hnn.symm.trans he) (by simp)
      · cases hst
        exact h.ingest_moves hs fun j => rfl
    have hgd : Good (raise alarm e) := (h.good_of_free hr hfr hvw (hexpe known.id)).of_triage rfl rfl
    have hreo : ∀ w, r.committed = some w → Reopened b.now (raise alarm e) w :=
      fun w hw => (h.reopened_of_free hs hr hfr hvw hw).of_triage rfl
    split_ifs at hst with hre
    · cases hst
      refine h.ingest_writes hs hr hfr (fun j hj => if_neg hj) ?_ hreo
      obtain ⟨e', he', hstt, hrs⟩ := hfrs (b, _) hs hre
      rw [Rows.view, hr] at he'
      obtain rfl := mem_unique hvw he'
      rw [IngestPhase.expects, if_pos rfl]
      exact ⟨hgd, hstt, not_decided_of_reopens hre hstt hrs⟩
    · cases hst
      exact h.ingest_writes hs hr hfr (fun j _ => rfl) hgd hreo
  | reopening known rest done =>
    obtain ⟨rows₁, hu, hst⟩ := bind_eq_some_iff.mp hst
    cases hst
    obtain ⟨r, e, hr, hfr, hvw, ⟨hgd, hstt, hdec⟩, rfl⟩ :=
      h.update_held ((hexpe known.id).trans (if_pos rfl)) hu
    refine h.ingest_writes hs hr hfr (fun j hj => (if_neg hj).trans (if_neg hj).symm) ?_
      (fun w hw => .inr ⟨rfl, ?_⟩)
    · rw [IngestPhase.expects, if_pos rfl]
      exact hgd.owes hstt rfl rfl
    rcases h.reopened_of_free hs hr hfr hvw hw with hsm | ⟨-, hw⟩
    · rw [← hsm]
      exact hdec
    · exact hw
  | recording known rest done =>
    obtain ⟨rows₁, hu, hst⟩ := bind_eq_some_iff.mp hst
    cases hst
    obtain ⟨r, e, hr, hfr, hvw, how, rfl⟩ := h.update_held ((hexpe known.id).trans (if_pos rfl)) hu
    exact h.ingest_writes hs hr hfr (fun j hj => (if_neg hj).symm) (how.record rfl rfl)
      fun w hw => (h.reopened_of_free hs hr hfr hvw hw).of_triage rfl
  | inserting alarm rest done =>
    rw [Alarms.ingestStep] at hst
    split at hst
    · rename_i state note harr
      cases hst
      refine h.ingest_inserts hs (fun j => rfl) (fun j hj => if_neg hj) ?_
      rw [IngestPhase.expects, if_pos rfl]
      exact ⟨isChain_nil, endsIn_nil none, congrArg Prod.fst harr⟩
    · cases hst
      exact h.ingest_inserts hs (fun j => rfl) (fun j hj => rfl) ⟨isChain_nil, endsIn_nil _⟩
  | noting id state note suppressed rest done =>
    obtain ⟨rows₁, hu, hst⟩ := bind_eq_some_iff.mp hst
    cases hst
    obtain ⟨r, e, hr, hfr, hvw, how, rfl⟩ := h.update_held ((hexpe id).trans (if_pos rfl)) hu
    exact h.ingest_writes hs hr hfr (fun j hj => (if_neg hj).symm) (how.record rfl rfl)
      fun w hw => (h.reopened_of_free hs hr hfr hvw hw).of_triage rfl

/-! ### Steps of the console -/

namespace Invariant

variable {n k : ℕ} {p p' : ConsolePhase}

theorem expects_console (hs : s.console[n]? = some p) (j : ℕ) : s.expects (.console n) j = p.expects j := by
  rw [State.expects, hs]
  rfl

theorem expects_set (hs : s.console[n]? = some p) (p' : ConsolePhase) (rows : AlarmRows) :
    (∀ j, ({ s with rows := rows, console := s.console.set n p' } : State).expects (.console n) j = p'.expects j) ∧
      ∀ t ≠ .console n, ∀ j,
        ({ s with rows := rows, console := s.console.set n p' } : State).expects t j = s.expects t j := by
  obtain ⟨hlt, -⟩ := List.getElem?_eq_some_iff.mp hs
  refine ⟨fun j => expects_console (getElem?_set_self hlt) j, fun t ht j => ?_⟩
  cases t with
  | ingest => rfl
  | console m =>
    have hm : n ≠ m := fun hnm => ht (by rw [hnm])
    rw [State.expects, State.expects, getElem?_set_ne hm]

section

variable (h : Invariant s)

include h

theorem distinct_set (hp : p'.Distinct) (m : ℕ) (q : ConsolePhase)
    (hq : (s.console.set n p')[m]? = some q) : q.Distinct := by
  rw [getElem?_set] at hq
  split_ifs at hq with hm hlt
  · cases hq
    exact hp
  · exact h.distinct m q hq

theorem console_moves (hs : s.console[n]? = some p) (hexpe : ∀ j, p'.expects j = p.expects j)
    (hp : p'.Distinct) : Invariant { s with console := s.console.set n p' } := by
  obtain ⟨hsf, hoth⟩ := expects_set hs p' s.rows
  refine h.of_rows rfl (fun t j => ?_) (fun b q hq => ⟨q, hq⟩) (h.distinct_set hp)
  by_cases ht : t = .console n
  · subst ht
    exact (hsf j).trans ((hexpe j).trans (expects_console hs j).symm)
  · exact hoth t ht j

theorem console_writes (hs : s.console[n]? = some p) (hr : s.rows[k]? = some r)
    (hfr : r.Free (.console n)) (hfrm : ∀ j ≠ k, p'.expects j = p.expects j)
    (hkp : (p'.expects k).getD Good e) (hp : p'.Distinct) :
    Invariant { s with rows := s.rows.set k (r.write (.console n) e), console := s.console.set n p' } := by
  obtain ⟨hsf, hoth⟩ := expects_set hs p' (s.rows.set k (r.write (.console n) e))
  refine h.write hr hfr rfl hoth (fun j hj => ?_) (hsf k ▸ hkp) (fun b q hq => ⟨q, hq⟩) (nofun)
    (h.distinct_set hp)
  exact (hsf j).trans ((hfrm j hj).trans (expects_console hs j).symm)

theorem called (hnn : ∀ j, p'.expects j = none) (hp : p'.Distinct) :
    Invariant { s with console := s.console ++ [p'] } := by
  refine h.of_rows rfl (fun t j => ?_) (fun b q hq => ⟨q, hq⟩) (fun m q hq => ?_)
  · cases t with
    | ingest => rfl
    | console m =>
      rw [State.expects, State.expects, getElem?_append]
      split_ifs with hm
      · rfl
      have hnil : s.console[m]? = none := getElem?_eq_none (by omega)
      rw [hnil, getElem?_singleton]
      split_ifs
      · exact hnn j
      · rfl
  · rw [getElem?_append] at hq
    split_ifs at hq with hm
    · exact h.distinct m q hq
    rw [getElem?_singleton] at hq
    split_ifs at hq
    cases hq
    exact hp

theorem console_ends (hs : s.console[n]? = some p) (hp : ∀ j, p.expects j = none)
    (outcome : Option TriageOutcome) : Invariant { s with console := s.console.set n (.ended outcome) } :=
  h.console_moves hs (fun j => (hp j).symm) trivial

end

end Invariant

variable {k : ℕ} {closed : List (ℕ × TriageState)}

theorem expects_closing_cons {j : ℕ} {previous : TriageState} (hj : j ≠ k) :
    List.lookup j ((k, previous) :: closed) = closed.lookup j := by
  rw [lookup_cons, beq_eq_false_iff_ne.mpr hj]

theorem lookup_eq_none_of_not_mem (h : k ∉ closed.map Prod.fst) : closed.lookup k = none := by
  rw [lookup_eq_none_iff]
  intro p hp
  refine bne_iff_ne.mpr ?_
  rintro rfl
  exact h (mem_map_of_mem hp)

theorem Invariant.consoleStep (h : Invariant s) {n : ℕ} {p p' : ConsolePhase} (hs : s.console[n]? = some p)
    (hst : consoleStep s.dir s.rows n p = some (rows, p')) :
    Invariant { s with rows := rows, console := s.console.set n p' } := by
  have hexpe := expects_console hs
  have hdst := h.distinct n p hs
  cases p with
  | update c =>
    rw [Alarms.consoleStep] at hst
    split_ifs at hst with hfld
    · cases hst
      exact h.console_ends hs (fun _ => rfl) _
    split at hst
    · cases hst
      exact h.console_ends hs (fun _ => rfl) _
    rename_i r hr
    split at hst
    · cases hst
      exact h.console_ends hs (fun _ => rfl) _
    rename_i e hvw
    split_ifs at hst with hvis hfr
    · cases hst
      exact h.console_ends hs (fun _ => rfl) _
    split at hst
    · cases hst
      exact h.console_ends hs (fun _ => rfl) _
    cases hst
    refine h.console_writes hs hr hfr (fun j hj => if_neg hj) ?_ trivial
    rw [ConsolePhase.expects, if_pos rfl]
    exact ⟨h.good_of_free hr hfr hvw (hexpe c.id), rfl⟩
  | locked c previous assignedId =>
    obtain ⟨rows₁, hu, hst⟩ := bind_eq_some_iff.mp hst
    cases hst
    obtain ⟨r, e, hr, hfr, -, ⟨hgd, hstt⟩, rfl⟩ := h.update_held ((hexpe c.id).trans (if_pos rfl)) hu
    refine h.console_writes hs hr hfr (fun j hj => (if_neg hj).trans (if_neg hj).symm) ?_ trivial
    rw [ConsolePhase.expects, if_pos rfl]
    exact hgd.owes hstt rfl rfl
  | updated c previous assignedId =>
    obtain ⟨rows₁, hu, hst⟩ := bind_eq_some_iff.mp hst
    cases hst
    obtain ⟨r, e, hr, hfr, -, how, rfl⟩ := h.update_held ((hexpe c.id).trans (if_pos rfl)) hu
    exact h.console_writes hs hr hfr (fun j hj => (if_neg hj).symm) (how.record rfl rfl) trivial
  | close c =>
    cases hst
    refine h.console_moves hs (fun j => rfl) ?_
    rw [ConsolePhase.Distinct, map_nil, append_nil]
    exact nodup_range.filter _
  | closing c rest closed =>
    cases rest with
    | nil =>
      cases hst
      exact h.console_moves hs (fun j => rfl) hdst
    | cons k rest =>
      rw [ConsolePhase.Distinct, cons_append, nodup_cons] at hdst
      obtain ⟨hk, hnd⟩ := hdst
      have hcld : closed.lookup k = none := lookup_eq_none_of_not_mem fun hmem => hk (mem_append_right rest hmem)
      rw [Alarms.consoleStep] at hst
      split at hst
      · cases hst
        exact h.console_moves hs (fun j => rfl) hnd
      rename_i r hr
      split at hst
      · cases hst
        exact h.console_moves hs (fun j => rfl) hnd
      rename_i e hvw
      split_ifs at hst with hfr hcv
      · cases hst
        have hgd : Good e := h.good_of_free hr hfr hvw
          ((hexpe k).trans (by rw [ConsolePhase.expects, hcld]; rfl))
        have hlkp : ConsolePhase.expects (.closing c rest ((k, e.row.triage.state) :: closed)) k =
            some (Owes (some e.row.triage.state) .falsePositive) := by
          rw [ConsolePhase.expects, lookup_cons_self]
          rfl
        refine h.console_writes hs hr hfr (fun j hj => ?_) ?_ ?_
        · rw [ConsolePhase.expects, expects_closing_cons hj]
          rfl
        · rw [hlkp]
          exact hgd.owes rfl rfl rfl
        · exact nodup_middle.mpr (nodup_cons.mpr ⟨hk, hnd⟩)
      · cases hst
        exact h.console_moves hs (fun j => rfl) hnd
  | recording c closed =>
    cases closed with
    | nil =>
      cases hst
      exact h.console_moves hs (fun j => rfl) trivial
    | cons head closed =>
      obtain ⟨k, previous⟩ := head
      obtain ⟨hk, hnd⟩ := nodup_cons.mp hdst
      obtain ⟨rows₁, hu, hst⟩ := bind_eq_some_iff.mp hst
      cases hst
      have hlkp : ConsolePhase.expects (.recording c ((k, previous) :: closed)) k =
          some (Owes (some previous) .falsePositive) := by
        rw [ConsolePhase.expects, lookup_cons_self]
        rfl
      obtain ⟨r, e, hr, hfr, -, how, rfl⟩ := h.update_held ((hexpe k).trans hlkp) hu
      refine h.console_writes hs hr hfr (fun j hj => ?_) ?_ hnd
      · rw [ConsolePhase.expects, ConsolePhase.expects, expects_closing_cons hj]
      · rw [ConsolePhase.expects, lookup_eq_none_of_not_mem hk]
        exact how.record rfl rfl
  | settled =>
    cases hst
    obtain ⟨hsf, hoth⟩ := expects_set hs (.ended none) (s.rows.commit (.console n))
    exact h.commit hoth hsf (.inr rfl) (h.distinct_set trivial) hexpe rfl
  | ended outcome => cases hst

/-! ### Runs -/

/-- **One step** keeps the invariant, if ingest acts on what it read. -/
theorem Invariant.step (s : State) (a : Act) (s' : State) (h : Invariant s) (hfrs : Fresh s a)
    (hst : step s a = some s') : Invariant s' := by
  cases a with
  | batch agentId alarms now =>
    rw [Alarms.step] at hst
    split at hst
    · cases hst
    rename_i hnn
    cases hst
    refine h.of_rows rfl (fun t k => ?_) (fun b p hb => by rw [hnn] at hb; cases hb) h.distinct
    cases t with
    | ingest =>
      rw [State.expects, State.expects, hnn]
      rfl
    | console n => rfl
  | ingest =>
    obtain ⟨⟨b, p⟩, hb, hst⟩ := bind_eq_some_iff.mp hst
    obtain ⟨⟨rows, p'⟩, hp', hst⟩ := bind_eq_some_iff.mp hst
    cases hst
    exact h.ingestStep hb hfrs hp'
  | failIngest =>
    cases hst
    refine h.abort (fun t ht j => ?_) (fun j => rfl) (.inl rfl) h.distinct rfl
    cases t with
    | ingest => exact absurd rfl ht
    | console n => rfl
  | update | close =>
    cases hst
    exact h.called (fun _ => rfl) trivial
  | console n =>
    obtain ⟨p, hp, hst⟩ := bind_eq_some_iff.mp hst
    obtain ⟨⟨rows, p'⟩, hp', hst⟩ := bind_eq_some_iff.mp hst
    cases hst
    exact h.consoleStep hp hp'
  | failConsole n =>
    cases hst
    refine h.abort (t := .console n) (fun t ht j => ?_) (fun j => ?_) (.inr rfl) (h.distinct_set trivial) rfl
    · cases t with
      | ingest => rfl
      | console m =>
        have hm : n ≠ m := fun hnm => ht (by rw [hnm])
        rw [State.expects, State.expects, getElem?_set_ne hm]
    · rw [State.expects, getElem?_set, if_pos rfl]
      split_ifs <;> rfl
  | others dir suppressions =>
    cases hst
    exact h.of_rows rfl (fun t k => by cases t <;> rfl) (fun b p hb => ⟨p, hb⟩) h.distinct

/-- Nothing runs, and every history leads to its alarm's state. -/
structure Quiet (s : State) : Prop where
  rows : ∀ r ∈ s.rows, r.pending = none ∧ ∀ e, r.committed = some e → Good e
  ingest : s.ingest = none
  console : s.console = []

theorem Quiet.invariant (h : Quiet s) : Invariant s where
  committed k r e hr he := (h.rows r (mem_of_getElem? hr)).2 e he
  expected t k P hP := by
    cases t with
    | ingest =>
      rw [State.expects, h.ingest] at hP
      cases hP
    | console n =>
      rw [State.expects, h.console] at hP
      cases hP
  settled t k r e hr hp := by
    rw [(h.rows r (mem_of_getElem? hr)).1] at hp
    cases hp
  ingest k r e hr hp := by
    rw [(h.rows r (mem_of_getElem? hr)).1] at hp
    cases hp
  distinct n p hp := by
    rw [h.console] at hp
    cases hp

structure Respects (s : State) : Prop where
  /-- What the batch wrote of a decided alarm has the committed triage. -/
  decisions : ∀ (b : Batch) (p : IngestPhase) (k : ℕ) (r : Versioned Tx Entry) (e w : Entry), s.ingest = some (b, p) →
    s.rows[k]? = some r → r.pending = some (.ingest, e) → r.committed = some w → Decided b.now w.row.triage →
    e.row.triage = w.row.triage
  /-- Every history row starts where the one before it led. -/
  histories : ∀ (k : ℕ) (r : Versioned Tx Entry) (e : Entry), s.rows[k]? = some r →
    (r.committed = some e ∨ ∃ t, r.pending = some (t, e)) → Chained e.history

theorem chained_of_expects {t : Tx} (hP : s.expects t k = some P) (he : P e) : Chained e.history := by
  cases t with
  | ingest =>
    obtain ⟨⟨b, p⟩, -, hp⟩ := bind_eq_some_iff.mp hP
    cases p with
    | looking | raising | inserting => cases hp
    | reopening known =>
      rw [IngestPhase.expects, ite_none_right_eq_some] at hp
      obtain rfl := some.inj hp.2
      exact he.1.chained
    | recording known | noting id =>
      rw [IngestPhase.expects, ite_none_right_eq_some] at hp
      obtain rfl := some.inj hp.2
      exact he.chained
  | console n =>
    obtain ⟨p, -, hp⟩ := bind_eq_some_iff.mp hP
    cases p with
    | update | close | settled | ended => cases hp
    | locked c =>
      rw [ConsolePhase.expects, ite_none_right_eq_some] at hp
      obtain rfl := some.inj hp.2
      exact he.1.chained
    | updated c =>
      rw [ConsolePhase.expects, ite_none_right_eq_some] at hp
      obtain rfl := some.inj hp.2
      exact he.chained
    | closing | recording =>
      obtain ⟨previous, -, rfl⟩ := map_eq_some_iff.mp hp
      exact he.chained

theorem Invariant.respects (h : Invariant s) : Respects s where
  decisions b p k r e w hb hr hp hw hdec := by
    obtain ⟨b', p', hb', hall⟩ := h.ingest k r e hr hp
    obtain ⟨rfl, -⟩ := Prod.mk.inj (mem_unique hb hb')
    exact (hall w hw).resolve_right fun hre => hre.2 hdec
  histories k r e hr he := by
    rcases he with hc | ⟨t, hp⟩
    · exact (h.committed k r e hr hc).chained
    cases hexp : s.expects t k with
    | none => exact (h.settled t k r e hr hp hexp).chained
    | some P =>
      obtain ⟨r', e', hr', hp', he'⟩ := h.expected t k P hexp
      obtain rfl := mem_unique hr hr'
      obtain ⟨-, rfl⟩ := Prod.mk.inj (mem_unique hp hp')
      exact chained_of_expects hexp he'

/-- **Ingest respects the decisions it read**: in every run in which ingest's first update of an alarm that it reopens
finds the decision it had read, it leaves decided alarms alone, and every history row starts where the one before it
led. -/
theorem ingest_respects_decisions {s s' : State} {as : List Act} (h : Quiet s) (hfrs : StepsMeet step Fresh s as)
    (hrun : run step s as = some s') : Respects s' :=
  (run_invariant_of Invariant.step h.invariant hfrs hrun).respects

/-! ### Two schedules -/

def sampleAlarm (count : ℕ) (lastSeen : Time) : StoredAlarm where
  detection := none
  alarmId := "a-1"
  ruleSetId := "baseline-alarms"
  ruleSetVersion := 1
  ruleId := "alarm.shell"
  ruleVersion := 1
  severity := .high
  confidence := 90
  message := "A shell was started."
  firstSeen := 0
  lastSeen := lastSeen
  count := count
  process := .obj [("exe", .str "/bin/sh")]
  ancestors := .arr []
  exe := "/bin/sh"
  argsSha256 := ""

def sampleEntry : Entry :=
  ⟨⟨"db-1", sampleAlarm 1 0, 0, ⟨none, .mitigated, none, some "patched", none, 2, some 5, some "alice"⟩⟩,
    [⟨some .open, .mitigated, none, none, some "patched", 5, "alice"⟩]⟩

def sampleState : State where
  dir := ⟨⟨[⟨"db-1", false⟩], by decide⟩, [], ⟨[], by decide⟩⟩
  suppressions := []
  rows := [⟨some sampleEntry, none⟩]
  ingest := none
  console := []

def sampleUpdate : TriageCall := ⟨.global, 0, 2, .falsePositive, none, some "known job", none, "bob", 10⟩

theorem sampleState_quiet : Quiet sampleState := by
  refine ⟨fun r hr => ?_, rfl, rfl⟩
  obtain rfl := mem_singleton.mp hr
  refine ⟨rfl, fun e he => ?_⟩
  cases he
  refine ⟨isChain_singleton _, fun h hh => ?_⟩
  cases hh
  rfl

def sampleRecurrence : List Act := [.batch "db-1" [sampleAlarm 2 8] 9, .ingest, .ingest, .ingest, .ingest, .ingest]

theorem ingest_respects_decisions_sample :
    Quiet sampleState ∧ StepsMeet step Fresh sampleState sampleRecurrence ∧
      ∃ s', run step sampleState sampleRecurrence = some s' ∧ Respects s' :=
  ⟨sampleState_quiet, by decide +kernel, _, rfl,
    @ingest_respects_decisions sampleState _ sampleRecurrence sampleState_quiet (by decide +kernel) rfl⟩

/-- Bob's decision is committed between the batch's lookup and its first update. -/
def sampleRace : List Act :=
  [.batch "db-1" [sampleAlarm 2 8] 9, .ingest, .update sampleUpdate, .console 0, .console 0, .console 0, .console 0,
    .ingest, .ingest, .ingest, .ingest]

/-- **A decision is overwritten**: the batch reopens an alarm whose committed state is a false positive. -/
theorem ingest_overwrites_decision :
    Quiet sampleState ∧ (∃ s₁, run step sampleState (sampleRace.take 9) = some s₁ ∧
        (s₁.rows.map fun r => (r.committed.map fun e => e.row.triage.state, r.pending.map fun p =>
          (p.1, p.2.row.triage.state))) = [(some .falsePositive, some (.ingest, .open))] ∧ ¬Respects s₁) ∧
      ∃ s₂, run step sampleState sampleRace = some s₂ ∧ (s₂.rows.map fun r => r.committed.map fun e =>
          (e.row.triage.state, e.history.map fun h => (h.fromState, h.toState))) =
            [some (.open, [(some .open, .mitigated), (some .mitigated, .falsePositive), (some .mitigated, .open)])] ∧
        ¬Respects s₂ := by
  refine ⟨sampleState_quiet, ⟨_, rfl, rfl, fun h => ?_⟩, _, rfl, rfl, fun h => ?_⟩
  · exact absurd (h.decisions _ _ 0 _ _ _ rfl rfl rfl rfl (by decide +kernel)) (by decide +kernel)
  · have hchn := h.histories 0 _ _ rfl (.inl rfl)
    exact absurd ((isChain_cons_cons.mp (isChain_cons_cons.mp hchn).2).1) (by decide +kernel)

end OpenVibes.Store.Alarms
