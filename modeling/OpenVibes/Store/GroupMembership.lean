import OpenVibes.Store.HostGroups

/-!
# Stored membership is the rule

The membership that triggers store (`Store.HostGroups`) is what the rule says of the committed hosts and groups. A
transaction that changes what the rule reads takes the lock before its statement is over; meanwhile the others commit
only what the rule does not read. `Quiet` says so of a transaction without the lock, `Ready` that with it the pairs are
by the rule, both but for what is still to be refreshed; `Consistent` that the committed pairs are.
-/

namespace OpenVibes.Store.HostGroups

open Theory List Cells Cell Txn Option

variable (sql : Sql)

/-! ### What the rule reads -/

/-- What is read of a host: nothing, unless it is active. -/
def effective (a : Option Agent) : Option Known :=
  a.bind fun a => if a.status = .active then some (a.known sql) else none

def Facts.admits (f : Facts) (g : ℕ) (id : String) (known : Known) : Bool :=
  (f.groups g).any fun kind =>
    if kind = .manual then f.members (g, id)
    else !(f.conds g).isEmpty && !((f.conds g).any fun c => !conditionHolds sql known c)

structure Facts.Childless (f : Facts) (g : ℕ) : Prop where
  conditions : ∀ p, f.conditions (g, p) = none
  members : ∀ id, f.members (g, id) = false

variable {sql}

theorem Facts.inGroup_eq (f : Facts) (k : ℕ × String) :
    f.inGroup sql k = (effective sql (f.agents k.2)).any (f.admits sql k.1 k.2) := by
  rw [inGroup, effective]
  cases hagt : f.agents k.2 with
  | none => rfl
  | some a =>
    by_cases hatv : a.status = .active
    · cases hgrp : f.groups k.1 with
      | none => simp [hatv, admits, hgrp]
      | some kind => simp [hatv, admits, hgrp, allHold]
    · cases hgrp : f.groups k.1 with
      | none | some => simp [hatv]

variable {f : Facts} {g u : ℕ} {k : ℕ × String} {kind : Kind}

theorem Facts.admits_of_none (h : f.groups g = none) : f.admits sql g = fun _ _ => false := by
  funext id known
  rw [admits, h]
  rfl

theorem Facts.Childless.admits (h : f.Childless g) : f.admits sql g = fun _ _ => false := by
  funext id known
  have hcon : f.conds g = [] := filterMap_eq_nil_iff.mpr fun p _ => h.conditions p
  cases hgrp : f.groups g with
  | none => rw [Facts.admits_of_none hgrp]
  | some kind => simp [Facts.admits, hgrp, hcon, h.members]

variable {f' : Facts} {groups B B' : List ℕ} {sets : List Assignment} {a : Agent} {keys : List (ℕ × String)}
  {gone A A' : List String} {β α : Type} {xs : List α} {l : Mine} {t : ℕ} {s s' : Db}

theorem Facts.admits_congr (hgrps : f'.groups g = f.groups g)
    (hcn : ∀ p, f'.conditions (g, p) = f.conditions (g, p))
    (hmmb : ∀ id, f'.members (g, id) = f.members (g, id)) : f'.admits sql g = f.admits sql g := by
  have hcon : f'.conds g = f.conds g := filterMap_congr fun p _ => hcn p
  funext id known
  rw [admits, admits, hgrps, hcon, hmmb]

/-- A group admits whom it admitted, if its row is the same, or was missing and is childless where it is new. -/
theorem Facts.admits_congr_of_new
    (hgrps : f'.groups g = f.groups g ∨ f.groups g = none ∧ ∀ kind, f'.groups g = some kind → f.Childless g)
    (hcn : ∀ p, f'.conditions (g, p) = f.conditions (g, p))
    (hmmb : ∀ id, f'.members (g, id) = f.members (g, id)) : f'.admits sql g = f.admits sql g := by
  rcases hgrps with hsm | ⟨hnn, hnew⟩
  · exact Facts.admits_congr hsm hcn hmmb
  cases hgrp : f'.groups g with
  | none => exact Facts.admits_congr (hgrp.trans hnn.symm) hcn hmmb
  | some kind =>
    have hold : f.Childless g := hnew kind hgrp
    have hchl : f'.Childless g :=
      ⟨fun p => (hcn p).trans (hold.conditions p), fun id => (hmmb id).trans (hold.members id)⟩
    rw [hchl.admits, hold.admits]

theorem Facts.inGroup_congr (hagt : effective sql (f'.agents k.2) = effective sql (f.agents k.2))
    (hgrp : f'.admits sql k.1 = f.admits sql k.1) : f'.inGroup sql k = f.inGroup sql k := by
  rw [inGroup_eq, inGroup_eq, hagt, hgrp]

theorem Facts.inGroup_of_no_agent (h : f.agents k.2 = none) : f.inGroup sql k = false := by
  rw [inGroup, h]

theorem Facts.inGroup_of_no_group (h : f.groups k.1 = none) : f.inGroup sql k = false := by
  rw [inGroup_eq, admits_of_none h]
  cases effective sql (f.agents k.2) <;> rfl

/-- **The refresh of a group** wants the hosts that the rule says. -/
theorem Facts.wantOfGroup_contains (f : Facts) {ids : List String} {id : String} (hid : id ∈ ids) (g : ℕ) :
    (f.wantOfGroup sql ids g).contains id = f.inGroup sql (g, id) := by
  rw [Bool.eq_iff_iff, contains_iff_mem, wantOfGroup, mem_append, mem_filter, mem_filter, inGroup]
  cases f.agents id with
  | none => simp
  | some a =>
    cases f.groups g with
    | none => simp
    | some kind =>
      by_cases hkd : kind = .manual
      · simp [hid, hkd, and_comm]
      · simp [hid, hkd]

/-- **The refresh of a host** wants the groups that the rule says. -/
theorem Facts.wantOfAgent_contains (f : Facts) (hg : g ∈ groups) (id : String) :
    (f.wantOfAgent sql groups id).contains g = f.inGroup sql (g, id) := by
  rw [Bool.eq_iff_iff, contains_iff_mem, wantOfAgent, mem_append, mem_filter, mem_filter, inGroup]
  cases f.agents id with
  | none => simp
  | some a =>
    cases f.groups g with
    | none => simp
    | some kind =>
      by_cases hkd : kind = .manual
      · simp [hg, hkd, and_comm]
      · simp [hg, hkd]

theorem agentFires_of_effective (h : effective sql (some (assign sets a)) ≠ effective sql (some a)) :
    agentFires sql sets a (assign sets a) = true := by
  have hsets : sets.any (fun x => x ≠ .other) = true := by
    by_contra hoth
    refine h ?_
    have hall : ∀ x ∈ sets, x = .other := by simpa using hoth
    have hass : assign sets a = a := by
      clear h hoth
      induction sets with
      | nil => rfl
      | cons x rest ih =>
        rw [assign, foldl_cons, hall x mem_cons_self]
        exact ih fun y hy => hall y (mem_cons_of_mem x hy)
    rw [hass]
  generalize assign sets a = b at h ⊢
  simp only [effective, bind_some] at h
  rw [agentFires, hsets]
  by_cases ha : a.status = .active
  · by_cases hb : b.status = .active
    · rw [if_pos ha, if_pos hb] at h
      have hkn : ¬(b.known sql = a.known sql) := fun heq => h (congrArg some heq)
      simp only [Agent.known, Known.mk.injEq] at hkn
      simp only [ha, hb, decide_true, Bool.or_true, Bool.and_true, Bool.true_and, Bool.or_eq_true, decide_eq_true_eq]
      by_contra hnot
      push Not at hnot
      exact hkn ⟨hnot.1.1.1.2.symm, hnot.1.1.2.symm, hnot.1.2.symm, hnot.2.symm⟩
    · have hne : ¬Status.active = b.status := fun heq => hb heq.symm
      simp [ha, hne]
  · by_cases hb : b.status = .active
    · simp [ha, hb]
    · rw [if_neg ha, if_neg hb] at h
      exact absurd rfl h

/-! ### What a transaction has in hand -/

/-- The rows that a transaction holds, and with the lock, of each pair, what the rule says and what is stored. -/
structure Mine where
  agents : String → Option (Option Agent × Option Agent)
  groups : ℕ → Option (Option Kind × Option Kind)
  conditions : ℕ × ℕ → Option (Option Condition × Option Condition)
  members : ℕ × String → Option (Bool × Bool)
  pairs : Option (ℕ × String → Bool × Bool)

def nothing : Mine := ⟨fun _ => none, fun _ => none, fun _ => none, fun _ => none, none⟩

variable (sql) in
def Db.mine (t : ℕ) (s : Db) : Mine where
  agents := s.agents.hand t
  groups := s.groups.hand t
  conditions := s.conditions.hand t
  members := s.members.hand t
  pairs := if s.lock.holds t then some fun k => ((s.seen t).inGroup sql k, (s.membership k).view t) else none

variable (sql) in
/-- But for the hosts `A` and the groups `B`, the transaction has changed nothing that the rule reads. -/
structure Quiet (A : List String) (B : List ℕ) (l : Mine) : Prop where
  agents : ∀ id, id ∉ A → ∀ p, l.agents id = some p → effective sql p.1 = effective sql p.2
  groups : ∀ g, g ∉ B → ∀ p, l.groups g = some p → p.1 = p.2 ∨ p.1 = none
  conditions : ∀ g, g ∉ B → ∀ n, l.conditions (g, n) = none
  members : ∀ g, g ∉ B → ∀ id, l.members (g, id) = none

variable (sql) in
/-- Only the hosts `A` and the groups `B` have still to be refreshed. -/
def Ok (A : List String) (B : List ℕ) (l : Mine) : Prop :=
  match l.pairs with
  | none => Quiet sql A B l
  | some w => ∀ k, k.2 ∉ A → k.1 ∉ B → (w k).1 = (w k).2

variable (sql) in
/-- Between two statements: the hosts `A` and the groups `B` have still to be refreshed, and the hosts `C` and groups
`D` are deleted. -/
structure Ready (A : List String) (B : List ℕ) (C : List String) (D : List ℕ) (l : Mine) : Prop where
  ok : Ok sql A B l
  agents : ∀ id ∈ C, ∃ old, l.agents id = some (old, none)
  groups : ∀ g ∈ D, ∃ old, l.groups g = some (old, none)

theorem Ok.mono (h : Ok sql A B l) (hA : A ⊆ A') (hB : B ⊆ B') : Ok sql A' B' l := by
  rw [Ok] at h ⊢
  cases hprs : l.pairs with
  | none =>
    rw [hprs] at h
    exact ⟨fun id hid => h.agents id fun hmem => hid (hA hmem), fun g hg => h.groups g fun hmem => hg (hB hmem),
      fun g hg => h.conditions g fun hmem => hg (hB hmem), fun g hg => h.members g fun hmem => hg (hB hmem)⟩
  | some w =>
    rw [hprs] at h
    exact fun k hk hg => h k (fun hmem => hk (hA hmem)) fun hmem => hg (hB hmem)

theorem Ready.mono {C : List String} {D : List ℕ}
    (h : Ready sql A B C D l) (hA : A ⊆ A') (hB : B ⊆ B') : Ready sql A' B' C D l :=
  ⟨h.ok.mono hA hB, h.agents, h.groups⟩

theorem ready_nothing : Ready sql [] [] [] [] nothing :=
  ⟨⟨fun _ _ _ h => (by cases h), nofun, fun _ _ _ => rfl, fun _ _ _ => rfl⟩, nofun, nofun⟩

/-! ### The invariant -/

variable (sql) in
/-- The committed pairs are by the rule; and what makes it so. -/
structure Consistent (s : Db) : Prop where
  rule : ∀ k, (s.membership k).committed = s.committed.inGroup sql k
  locked : ∀ t k, (s.membership k).holds t = true → s.lock.holds t = true
  hosts : ∀ id, id ∉ s.agentIds → s.agents id = Cell.settled none
  groups : ∀ g, s.nextGroup ≤ g → s.groups g = Cell.settled none
  conditions : ∀ k : ℕ × ℕ, s.nextGroup ≤ k.1 → s.conditions k = Cell.settled none
  members : ∀ k : ℕ × String, s.nextGroup ≤ k.1 → s.members k = Cell.settled false
  pairs : ∀ k, k.2 ∉ s.agentIds ∨ s.nextGroup ≤ k.1 → s.membership k = Cell.settled false
  /-- Only the transaction that inserted a group can have conditions and picked hosts for it. -/
  unborn : ∀ t g kind, (s.groups g).own t = some (none, some kind) →
    s.committed.Childless g ∧ ∀ u, u ≠ t → (s.seen u).Childless g

/-- What a statement of a transaction does to the tables: it takes what is free for it. -/
structure Touches (t : ℕ) (s s' : Db) : Prop where
  lock : s'.lock = s.lock ∨ s.lock.free t = true ∧ s'.lock = s.lock.write t ()
  agents : Cells.Takes t s.agents s'.agents
  groups : Cells.Takes t s.groups s'.groups
  conditions : Cells.Takes t s.conditions s'.conditions
  members : Cells.Takes t s.members s'.members
  membership : Cells.Takes t s.membership s'.membership

theorem Touches.refl (t : ℕ) (s : Db) : Touches t s s :=
  ⟨.inl rfl, .refl t _, .refl t _, .refl t _, .refl t _, .refl t _⟩

theorem Touches.committed (h : Touches t s s') : s'.committed = s.committed := by
  rw [Db.committed, Db.committed, Facts.mk.injEq]
  exact ⟨funext h.agents.committed, funext h.groups.committed, funext h.conditions.committed,
    funext h.members.committed⟩

theorem Touches.seen (hu : u ≠ t) (h : Touches t s s') : s'.seen u = s.seen u := by
  rw [Db.seen, Db.seen, Facts.mk.injEq]
  exact ⟨funext (h.agents.view hu), funext (h.groups.view hu), funext (h.conditions.view hu),
    funext (h.members.view hu)⟩

theorem Touches.own_lock (hu : u ≠ t) (h : Touches t s s') : s'.lock.own u = s.lock.own u := by
  rcases h.lock with heq | ⟨hfr, heq⟩
  · rw [heq]
  · rw [heq, own_write hu hfr]

/-- **What others have in hand** is not changed by a statement. -/
theorem Touches.mine (hu : u ≠ t) (h : Touches t s s') : s'.mine sql u = s.mine sql u := by
  rw [Db.mine, Db.mine, h.agents.hand hu, h.groups.hand hu, h.conditions.hand hu, h.members.hand hu, h.seen hu,
    holds_congr (h.own_lock hu)]
  simp [h.membership.view hu]

abbrev Runs (sql : Sql) (t : ℕ) {α : Type} (Q : α → Mine → Prop) (p : Txn Db α) (l : Mine) : Prop :=
  p.Meets (Consistent sql) (Db.mine sql t) (fun s s' => Consistent sql s' ∧ Touches t s s') Q l

/-! ### Row writes -/

variable (sql) in
/-- What a statement does to one row. What the rule reads of it changes only for the hosts `A` and the groups `B`. -/
inductive RowWrite (t : ℕ) (A : List String) (B : List ℕ) (s : Db) : Db → Prop where
  | agent (id : String) (v : Option Agent) (ids : List String) (hids : s.agentIds ⊆ ids) (hid : id ∈ ids)
    (hfr : (s.agents id).free t = true) (hA : id ∉ A → effective sql v = effective sql ((s.agents id).view t)) :
    RowWrite t A B s { s with agents := s.agents.write t id v, agentIds := ids }
  | newGroup (kind : Kind) :
    RowWrite t A B s { s with groups := s.groups.write t s.nextGroup (some kind), nextGroup := s.nextGroup + 1 }
  | group (g : ℕ) (v : Option Kind) (hthr : (s.groups g).view t ≠ none) (hfr : (s.groups g).free t = true)
    (hB : g ∉ B → v = (s.groups g).view t) : RowWrite t A B s { s with groups := s.groups.write t g v }
  | condition (k : ℕ × ℕ) (v : Option Condition)
    (hthr : (s.groups k.1).view t ≠ none ∨ (s.conditions k).view t ≠ none) (hfr : (s.conditions k).free t = true)
    (hB : k.1 ∈ B) : RowWrite t A B s { s with conditions := s.conditions.write t k v }
  | member (k : ℕ × String) (v : Bool) (hthr : (s.groups k.1).view t ≠ none ∨ (s.members k).view t ≠ false)
    (hfr : (s.members k).free t = true) (hB : k.1 ∈ B) : RowWrite t A B s { s with members := s.members.write t k v }

section

variable {C : List String} {D : List ℕ}

theorem Db.mine_pairs (h : s.lock.holds t = true) :
    (s.mine sql t).pairs = some fun k => ((s.seen t).inGroup sql k, (s.membership k).view t) := by
  simp [Db.mine, h]

theorem Db.mine_pairs_none (h : s.lock.holds t = false) : (s.mine sql t).pairs = none := by
  simp [Db.mine, h]

section

variable (hI : Consistent sql s)

include hI

theorem Consistent.listed {id : String} (h : (s.agents id).view t = some a) : id ∈ s.agentIds := by
  by_contra hnot
  rw [hI.hosts id hnot] at h
  cases h

theorem Consistent.lt_of_group (h : (s.groups g).view t ≠ none) : g < s.nextGroup := by
  by_contra hge
  rw [hI.groups g (not_lt.mp hge)] at h
  exact h rfl

theorem Consistent.lt_of_condition {k : ℕ × ℕ}
    (h : (s.groups k.1).view t ≠ none ∨ (s.conditions k).view t ≠ none) : k.1 < s.nextGroup := by
  rcases h with h | h
  · exact hI.lt_of_group h
  · by_contra hge
    rw [hI.conditions k (not_lt.mp hge)] at h
    exact h rfl

theorem Consistent.lt_of_member
    (h : (s.groups k.1).view t ≠ none ∨ (s.members k).view t ≠ false) : k.1 < s.nextGroup := by
  rcases h with h | h
  · exact hI.lt_of_group h
  · by_contra hge
    rw [hI.members k (not_lt.mp hge)] at h
    exact h rfl

/-- Nobody sees conditions or picked hosts of a group to come. -/
theorem Consistent.childless_next (u : ℕ) : (s.seen u).Childless s.nextGroup :=
  ⟨fun p => congrArg (view u) (hI.conditions (s.nextGroup, p) le_rfl),
    fun id => congrArg (view u) (hI.members (s.nextGroup, id) le_rfl)⟩

/-- A pair of which nothing is listed is false already, and the rule says so. -/
theorem Consistent.unlisted (hk : k.2 ∉ s.agentIds ∨ s.nextGroup ≤ k.1) :
    (s.seen t).inGroup sql k = (s.membership k).view t := by
  rw [hI.pairs k hk, view_settled]
  rcases hk with hk | hk
  · exact Facts.inGroup_of_no_agent (congrArg (view t) (hI.hosts k.2 hk))
  · exact Facts.inGroup_of_no_group (congrArg (view t) (hI.groups k.1 hk))

end

theorem RowWrite.frame (h : RowWrite sql t A B s s') : s'.lock = s.lock ∧ s'.membership = s.membership := by
  cases h <;> exact ⟨rfl, rfl⟩

theorem view_of_unborn (hu : u ≠ t) (h : (s.groups g).own t = some (none, some kind)) : (s.groups g).view u = none := by
  rw [view_of_none (own_none_of_ne hu h)]
  exact committed_of_own h

theorem RowWrite.effective_eq (h : RowWrite sql t A B s s') {id : String} (hid : id ∉ A) :
    effective sql ((s'.agents id).view t) = effective sql ((s.agents id).view t) := by
  cases h with
  | agent j v ids _ _ _ hA =>
    by_cases hj : id = j
    · subst hj
      simp only [write_self, view_write_self]
      exact hA hid
    · simp [write_of_ne hj]
  | newGroup | group | condition | member => rfl

theorem key_ne {γ : Type} {k : ℕ × γ} (hg : g ∉ B) (hB : k.1 ∈ B) (x : γ) : (g, x) ≠ k := by
  rintro rfl
  exact hg hB

theorem Quiet.effective_eq (h : Quiet sql A B (s.mine sql t)) {id : String} (hid : id ∉ A) :
    effective sql ((s.agents id).view t) = effective sql (s.agents id).committed := by
  cases hown : (s.agents id).own t with
  | none => rw [view_of_none hown]
  | some p =>
    rw [view_of_own hown, committed_of_own hown]
    exact (h.agents id hid p hown).symm

variable (hI : Consistent sql s) (h : RowWrite sql t A B s s')

include hI h

theorem RowWrite.touches : Touches t s s' := by
  cases h with
  | agent id v ids _ _ hfr => exact { Touches.refl t s with agents := takes_write hfr v }
  | newGroup kind =>
    refine { Touches.refl t s with groups := takes_write ?_ _ }
    rw [hI.groups s.nextGroup le_rfl]
    rfl
  | group g v _ hfr => exact { Touches.refl t s with groups := takes_write hfr v }
  | condition k v _ hfr => exact { Touches.refl t s with conditions := takes_write hfr v }
  | member k v _ hfr => exact { Touches.refl t s with members := takes_write hfr v }

theorem RowWrite.unborn (hown : (s'.groups g).own u = some (none, some kind)) :
    s'.committed.Childless g ∧ ∀ v, v ≠ u → (s'.seen v).Childless g := by
  have htch := h.touches hI
  -- The others see the same as before. What the writer sees of the group changes only if it sees the group.
  have hold : (∃ kind, (s.groups g).own u = some (none, some kind)) →
      (u ≠ t → (s.seen t).Childless g → (s'.seen t).Childless g) →
      s'.committed.Childless g ∧ ∀ v, v ≠ u → (s'.seen v).Childless g := by
    rintro ⟨kind, hkd⟩ hsf
    obtain ⟨hcom, hse⟩ := hI.unborn u g kind hkd
    rw [htch.committed]
    refine ⟨hcom, fun v hv => ?_⟩
    by_cases ht : v = t
    · subst ht
      exact hsf (.symm hv) (hse v hv)
    · rw [htch.seen ht]
      exact hse v hv
  cases h with
  | agent id v ids => exact hold ⟨kind, hown⟩ fun _ hse => ⟨hse.conditions, hse.members⟩
  | newGroup newKind =>
    by_cases hg : g = s.nextGroup
    · subst hg
      rw [htch.committed]
      refine ⟨⟨fun p => ?_, fun id => ?_⟩, fun v _ => ⟨(hI.childless_next v).conditions, (hI.childless_next v).members⟩⟩
      · exact congrArg committed (hI.conditions (s.nextGroup, p) le_rfl)
      · exact congrArg committed (hI.members (s.nextGroup, id) le_rfl)
    · simp only [write_of_ne hg] at hown
      exact hold ⟨kind, hown⟩ fun _ hse => ⟨hse.conditions, hse.members⟩
  | group j v hthr hfr =>
    by_cases hu : u = t
    · subst hu
      refine hold ?_ fun h => absurd rfl h
      by_cases hg : g = j
      · subst hg
        simp only [write_self, own_write_self, some.injEq, Prod.mk.injEq] at hown
        rcases free_cases hfr with ⟨p, hp⟩ | hnn
        · rw [view_of_own hp] at hthr
          obtain ⟨old, ho⟩ := ne_none_iff_exists'.mp hthr
          refine ⟨old, ?_⟩
          rw [hp, ← ho, ← hown.1, committed_of_own hp]
        · rw [view, own, hnn] at hthr
          exact absurd hown.1 hthr
      · simp only [write_of_ne hg] at hown
        exact ⟨kind, hown⟩
    · rw [own_write hu hfr g] at hown
      exact hold ⟨kind, hown⟩ fun _ hse => ⟨hse.conditions, hse.members⟩
  | condition k v hthr hfr =>
    refine hold ⟨kind, hown⟩ fun hu hse => ⟨fun p => ?_, hse.members⟩
    have hk : (g, p) ≠ k := by
      rintro rfl
      exact hthr.elim (fun h => h (view_of_unborn (.symm hu) hown)) fun h => h (hse.conditions p)
    exact (congrArg (view t) (write_of_ne hk t v s.conditions)).trans (hse.conditions p)
  | member k v hthr hfr =>
    refine hold ⟨kind, hown⟩ fun hu hse => ⟨hse.conditions, fun id => ?_⟩
    have hk : (g, id) ≠ k := by
      rintro rfl
      exact hthr.elim (fun h => h (view_of_unborn (.symm hu) hown)) fun h => h (hse.members id)
    exact (congrArg (view t) (write_of_ne hk t v s.members)).trans (hse.members id)

theorem RowWrite.consistent : Consistent sql s' := by
  obtain ⟨hlk, hmbs⟩ := h.frame
  refine ⟨?_, ?_, ?_, ?_, ?_, ?_, ?_, fun u g kind hown => h.unborn hI hown⟩
  · rw [(h.touches hI).committed, hmbs]
    exact hI.rule
  · rw [hlk, hmbs]
    exact hI.locked
  · cases h with
    | agent id v ids hids hid =>
      exact unused_write (fun j hj => hI.hosts j fun hmem => hj (hids hmem)) (not_not.mpr hid)
    | newGroup | group | condition | member => exact hI.hosts
  · cases h with
    | newGroup kind =>
      exact unused_write (fun j hj => hI.groups j (Nat.le_of_succ_le hj)) (Nat.not_succ_le_self s.nextGroup)
    | group g v hthr => exact unused_write hI.groups (not_le.mpr (hI.lt_of_group hthr))
    | agent | condition | member => exact hI.groups
  · cases h with
    | newGroup kind => exact fun k hk => hI.conditions k (Nat.le_of_succ_le hk)
    | condition k v hthr => exact unused_write hI.conditions (not_le.mpr (hI.lt_of_condition hthr))
    | agent | group | member => exact hI.conditions
  · cases h with
    | newGroup kind => exact fun k hk => hI.members k (Nat.le_of_succ_le hk)
    | member k v hthr => exact unused_write hI.members (not_le.mpr (hI.lt_of_member hthr))
    | agent | group | condition => exact hI.members
  · cases h with
    | agent id v ids hids => exact fun k hk => hI.pairs k (hk.imp_left fun hnot hmem => hnot (hids hmem))
    | newGroup kind => exact fun k hk => hI.pairs k (hk.imp_right Nat.le_of_succ_le)
    | group | condition | member => exact hI.pairs

theorem RowWrite.admits_eq (hg : g ∉ B) : (s'.seen t).admits sql g = (s.seen t).admits sql g := by
  cases h with
  | agent => rfl
  | newGroup kind =>
    by_cases hj : g = s.nextGroup
    · subst hj
      have hbef : (s.seen t).groups s.nextGroup = none := congrArg (view t) (hI.groups s.nextGroup le_rfl)
      rw [Facts.admits_of_none hbef]
      exact Facts.Childless.admits ⟨(hI.childless_next t).conditions, (hI.childless_next t).members⟩
    · exact Facts.admits_congr (congrArg (view t) (write_of_ne hj t _ s.groups)) (fun _ => rfl) fun _ => rfl
  | group j v _ _ hB =>
    refine Facts.admits_congr ?_ (fun _ => rfl) fun _ => rfl
    by_cases hj : g = j
    · subst hj
      change (s.groups.write t g v g).view t = _
      rw [write_self, view_write_self]
      exact hB hg
    · exact congrArg (view t) (write_of_ne hj t v s.groups)
  | condition k v _ _ hB =>
    exact Facts.admits_congr rfl (fun p => congrArg (view t) (write_of_ne (key_ne hg hB p) t v _)) fun _ => rfl
  | member k v _ _ hB =>
    exact Facts.admits_congr rfl (fun _ => rfl) fun id => congrArg (view t) (write_of_ne (key_ne hg hB id) t v _)

theorem RowWrite.quiet (hqu : Quiet sql A B (s.mine sql t)) : Quiet sql A B (s'.mine sql t) := by
  refine ⟨fun id hid p hp => ?_, ?_, ?_, ?_⟩
  · -- The committed value is that of before; and what the rule reads of its own value too.
    have hrd := h.effective_eq hid
    rw [view_of_own hp] at hrd
    rw [hrd, ← committed_of_own hp, (h.touches hI).agents.committed id]
    exact (hqu.effective_eq hid).symm
  · cases h with
    | newGroup kind =>
      intro g hg p hp
      by_cases hj : g = s.nextGroup
      · subst hj
        change (s.groups.write t s.nextGroup (some kind) s.nextGroup).own t = some p at hp
        rw [write_self] at hp
        rw [← committed_of_own hp, Cell.write, hI.groups s.nextGroup le_rfl]
        exact .inr rfl
      · exact hqu.groups g hg p ((congrArg (own t) (write_of_ne hj t _ s.groups)).symm.trans hp)
    | group j v _ _ hB =>
      intro g hg p hp
      by_cases hj : g = j
      · subst hj
        change (s.groups.write t g v g).own t = some p at hp
        rw [write_self, own_write_self, hB hg] at hp
        cases hp
        cases hown : (s.groups g).own t with
        | none => exact .inl (view_of_none hown).symm
        | some q =>
          rw [view_of_own hown, committed_of_own hown]
          exact hqu.groups g hg q hown
      · exact hqu.groups g hg p ((congrArg (own t) (write_of_ne hj t v s.groups)).symm.trans hp)
    | agent | condition | member => exact hqu.groups
  · cases h with
    | condition k v _ _ hB =>
      intro g hg n
      exact (congrArg (own t) (write_of_ne (key_ne hg hB n) t v s.conditions)).trans (hqu.conditions g hg n)
    | agent | newGroup | group | member => exact hqu.conditions
  · cases h with
    | member k v _ _ hB =>
      intro g hg id
      exact (congrArg (own t) (write_of_ne (key_ne hg hB id) t v s.members)).trans (hqu.members g hg id)
    | agent | newGroup | group | condition => exact hqu.members

/-- **A row write** keeps what has still to be refreshed. -/
theorem RowWrite.ok (hok : Ok sql A B (s.mine sql t)) : Ok sql A B (s'.mine sql t) := by
  obtain ⟨hlk, hmbs⟩ := h.frame
  cases hhld : s.lock.holds t with
  | false =>
    rw [Ok, Db.mine_pairs_none hhld] at hok
    rw [Ok, Db.mine_pairs_none (hlk ▸ hhld)]
    exact h.quiet hI hok
  | true =>
    rw [Ok, Db.mine_pairs hhld] at hok
    rw [Ok, Db.mine_pairs (hlk ▸ hhld), hmbs]
    intro k hk hg
    exact (Facts.inGroup_congr (h.effective_eq hk) (h.admits_eq hI hg)).trans (hok k hk hg)

end

/-! ### Without the lock -/

section

theorem Consistent.view_pair (hI : Consistent sql s) (hlk : s.lock.holds t = false) (k : ℕ × String) :
    (s.membership k).own t = none := by
  rw [own_eq_none_iff]
  by_contra hhld
  have := hI.locked t k (by simpa using hhld)
  rw [hlk] at this
  cases this

theorem Quiet.conditions_eq (h : Quiet sql A B (s.mine sql t)) (hg : g ∉ B) (n : ℕ) :
    (s.conditions (g, n)).own t = none := h.conditions g hg n

theorem Quiet.members_eq (h : Quiet sql A B (s.mine sql t)) (hg : g ∉ B) (id : String) :
    (s.members (g, id)).own t = none := h.members g hg id

theorem Quiet.admits_eq (hI : Consistent sql s) (h : Quiet sql A B (s.mine sql t)) (hg : g ∉ B) :
    (s.seen t).admits sql g = s.committed.admits sql g := by
  have hcn : ∀ n, (s.seen t).conditions (g, n) = s.committed.conditions (g, n) := fun n =>
    view_of_none (h.conditions_eq hg n)
  have hmmb : ∀ id, (s.seen t).members (g, id) = s.committed.members (g, id) := fun id =>
    view_of_none (h.members_eq hg id)
  refine Facts.admits_congr_of_new ?_ hcn hmmb
  cases hown : (s.groups g).own t with
  | none => exact .inl (view_of_none hown)
  | some p =>
    have hcom : (s.groups g).committed = p.1 := committed_of_own hown
    have hvw : (s.groups g).view t = p.2 := view_of_own hown
    rcases h.groups g hg p hown with hsm | hnew
    · exact .inl (hvw.trans (hsm.symm.trans hcom.symm))
    · -- A group that it has inserted: nobody has conditions or picked hosts for it.
      refine .inr ⟨hcom.trans hnew, fun kind hkd => (hI.unborn t g kind ?_).1⟩
      rw [hown, ← hnew, ← hvw.symm.trans hkd]

/-- **What is stored is by the rule**, but for what is still to be refreshed. -/
theorem Quiet.rule (hI : Consistent sql s) (h : Quiet sql A B (s.mine sql t)) (hlk : s.lock.holds t = false)
    (hk : k.2 ∉ A) (hg : k.1 ∉ B) : (s.seen t).inGroup sql k = (s.membership k).view t := by
  rw [view_of_none (hI.view_pair hlk k), hI.rule k]
  exact Facts.inGroup_congr (h.effective_eq hk) (h.admits_eq hI hg)

theorem Quiet.others (hI : Consistent sql s) (h : Quiet sql [] [] (s.mine sql t)) (hu : u ≠ t) (k : ℕ × String) :
    ((s.commit t).seen u).inGroup sql k = (s.seen u).inGroup sql k := by
  refine Facts.inGroup_congr ?_ ?_
  · change effective sql (((s.agents k.2).commit t).view u) = effective sql ((s.agents k.2).view u)
    rcases view_commit hu (s.agents k.2) with heq | ⟨hnn, heq⟩
    · rw [heq]
    · rw [heq, view_of_none hnn]
      exact h.effective_eq not_mem_nil
  have hcn : ∀ n, ((s.commit t).seen u).conditions (k.1, n) = (s.seen u).conditions (k.1, n) := fun n =>
    congrArg (view u) (commit_of_none (h.conditions_eq not_mem_nil n))
  have hmmb : ∀ id, ((s.commit t).seen u).members (k.1, id) = (s.seen u).members (k.1, id) := fun id =>
    congrArg (view u) (commit_of_none (h.members_eq not_mem_nil id))
  refine Facts.admits_congr_of_new ?_ hcn hmmb
  cases hown : (s.groups k.1).own t with
  | none => exact .inl (congrArg (view u) (commit_of_none hown))
  | some p =>
    have hvw : (s.groups k.1).view t = p.2 := view_of_own hown
    rcases view_commit hu (s.groups k.1) with heq | ⟨hnn, heq⟩
    · exact .inl heq
    have hbef : (s.groups k.1).view u = p.1 := (view_of_none hnn).trans (committed_of_own hown)
    rcases h.groups k.1 not_mem_nil p hown with hsm | hnew
    · exact .inl (heq.trans (hvw.trans (hsm.symm.trans hbef.symm)))
    · refine .inr ⟨hbef.trans hnew, fun kind hkd => (hI.unborn t k.1 kind ?_).2 u hu⟩
      rw [hown, ← hnew, ← hvw.symm.trans (heq.symm.trans hkd)]

end

/-! ### The programs -/

variable {Q : β → Mine → Prop}

section

variable {C : List String} {D : List ℕ} {f : α → Txn Db Bool}

theorem holds_of_pairs (h : ((s.mine sql t).pairs).isSome = true) : s.lock.holds t = true := by
  by_contra hnot
  rw [Db.mine_pairs_none (by simpa using hnot)] at h
  cases h

theorem takeLock_runs (h : Ready sql A B C D l) :
    Runs sql t (fun _ l' => Ready sql A B C D l' ∧ l'.pairs.isSome = true) (takeLock t) l := by
  refine .stmt fun s b s' hI hs hact => ?_
  subst hs
  split_ifs at hact with hfr
  cases hact
  have hhld : (s.lock.write t ()).holds t = true := holds_write_self t () s.lock
  have hprs := @Db.mine_pairs sql t { s with lock := s.lock.write t () } hhld
  refine ⟨⟨⟨hI.rule, fun u k hu => holds_write hfr (hI.locked u k hu), hI.hosts, hI.groups, hI.conditions, hI.members,
    hI.pairs, hI.unborn⟩, { Touches.refl t s with lock := .inr ⟨hfr, rfl⟩ }⟩, ⟨?_, ?_, ?_⟩, ?_⟩
  · have hok := h.ok
    rw [Ok, hprs]
    cases hbef : s.lock.holds t with
    | false =>
      rw [Ok, Db.mine_pairs_none hbef] at hok
      exact fun k hk hg => Quiet.rule (s := s) hI hok hbef hk hg
    | true =>
      rw [Ok, Db.mine_pairs hbef] at hok
      exact hok
  · exact h.agents
  · exact h.groups
  · rw [hprs]
    rfl

theorem setPairs_spec {v : ℕ × String → Bool} (hI : Consistent sql s) (hlk : s.lock.holds t = true)
    (hv : ∀ k ∈ keys, v k = (s.seen t).inGroup sql k) (h : s.setPairs t keys v = some s') :
    (Consistent sql s' ∧ Touches t s s') ∧ ∃ pairs, s' = { s with membership := pairs } ∧
      ∀ k, (pairs k).view t = if k ∈ keys then v k else (s.membership k).view t := by
  rw [Db.setPairs] at h
  split_ifs at h with hfr
  obtain ⟨pairs, rfl, hcl⟩ : ∃ pairs, s' = { s with membership := pairs } ∧
      ∀ k, (k ∈ keys ∧ (s.membership k).view t ≠ v k) ∧ pairs k = (s.membership k).write t (v k) ∨
        ¬(k ∈ keys ∧ (s.membership k).view t ≠ v k) ∧ pairs k = s.membership k := by
    cases h
    refine ⟨_, rfl, fun k => ?_⟩
    by_cases hk : k ∈ keys ∧ (s.membership k).view t ≠ v k
    · exact .inl ⟨hk, by simp [hk.1, hk.2]⟩
    · exact .inr ⟨hk, if_neg (by simpa using hk)⟩
  refine ⟨⟨⟨fun k => ?_, fun u k hu => ?_, hI.hosts, hI.groups, hI.conditions, hI.members, fun k hk => ?_, hI.unborn⟩,
    { Touches.refl t s with membership := fun k => ?_ }⟩, pairs, rfl, fun k => ?_⟩
  · refine .trans ?_ (hI.rule k)
    rcases hcl k with ⟨-, heq⟩ | ⟨-, heq⟩
    · exact (congrArg committed heq).trans rfl
    · exact congrArg committed heq
  · dsimp only at hu
    rcases hcl k with ⟨hk, heq⟩ | ⟨-, heq⟩
    · by_cases hut : u = t
      · rw [hut]
        exact hlk
      · refine hI.locked u k ?_
        rw [← hu, heq]
        exact (holds_congr (own_write hut (all_eq_true.mp hfr k hk.1))).symm
    · rw [heq] at hu
      exact hI.locked u k hu
  · rcases hcl k with ⟨⟨hmem, hne⟩, -⟩ | ⟨-, heq⟩
    · rw [hv k hmem] at hne
      exact absurd (hI.unlisted hk).symm hne
    · exact heq.trans (hI.pairs k hk)
  · rcases hcl k with ⟨hk, heq⟩ | ⟨-, heq⟩
    · exact .inr ⟨all_eq_true.mp hfr k hk.1, v k, heq⟩
    · exact .inl heq
  · rcases hcl k with ⟨hk, heq⟩ | ⟨hk, heq⟩
    · rw [heq, view_write_self, if_pos hk.1]
    rw [heq]
    by_cases hmem : k ∈ keys
    · rw [if_pos hmem]
      by_contra hne
      exact hk ⟨hmem, hne⟩
    · rw [if_neg hmem]

/-- **A refresh** under the lock: pairs are stored by the rule, and those that it leaves need none. -/
theorem setPairs_runs {keys : Db → List (ℕ × String)} {v : Db → ℕ × String → Bool}
    (h : Ready sql A B C D l) (hlk : l.pairs.isSome = true)
    (hv : ∀ s, Consistent sql s → s.mine sql t = l → ∀ k ∈ keys s, v s k = (s.seen t).inGroup sql k)
    (hky : ∀ s k, k.2 ∉ A' → k.1 ∉ B' → k ∈ keys s ∨ (k.2 ∉ A ∧ k.1 ∉ B) ∨ k.2 ∉ s.agentIds ∨ s.nextGroup ≤ k.1) :
    Runs sql t (fun _ l' => Ready sql A' B' C D l')
      (.stmt fun s => (s.setPairs t (keys s) (v s)).map fun s => ((), s)) l := by
  refine .stmt fun s b s' hI hs hact => ?_
  subst hs
  obtain ⟨s₁, hset, heq⟩ := map_eq_some_iff.mp hact
  cases heq
  have hhld : s.lock.holds t = true := holds_of_pairs hlk
  obtain ⟨hac, pairs, rfl, hvw⟩ := setPairs_spec hI hhld (hv s hI rfl) hset
  have hok := h.ok
  rw [Ok, Db.mine_pairs hhld] at hok
  refine ⟨hac, ?_, h.agents, h.groups⟩
  · rw [Ok, @Db.mine_pairs sql t { s with membership := pairs } hhld]
    intro k hk hg
    change (s.seen t).inGroup sql k = (pairs k).view t
    rw [hvw k]
    by_cases hmem : k ∈ keys s
    · rw [if_pos hmem, hv s hI rfl k hmem]
    rw [if_neg hmem]
    rcases hky s k hk hg with hin | hold | hout
    · exact absurd hin hmem
    · exact hok k hold.1 hold.2
    · exact hI.unlisted hout

variable {id : String}

theorem Ready.no_agent (h : Ready sql A B C D l) (hs : s.mine sql t = l) (hid : id ∈ C) :
    (s.seen t).agents id = none := by
  obtain ⟨old, hold⟩ := h.agents id hid
  rw [← hs] at hold
  exact view_of_own hold

theorem Ready.no_group (h : Ready sql A B C D l) (hs : s.mine sql t = l) (hg : g ∈ D) : (s.seen t).groups g = none := by
  obtain ⟨old, hold⟩ := h.groups g hg
  rw [← hs] at hold
  exact view_of_own hold

theorem refreshGroup_runs (h : Ready sql A (g :: B) C D l) :
    Runs sql t (fun _ => Ready sql A B C D) (refreshGroup sql t g) l := by
  refine (takeLock_runs h).seq fun _ l' hl => setPairs_runs hl.1 hl.2 ?_ fun s k hk hg => ?_
  · intro s _ _ k hk
    obtain ⟨id, hid, rfl⟩ := mem_map.mp hk
    exact (s.seen t).wantOfGroup_contains hid g
  by_cases heq : k.1 = g
  · by_cases hid : k.2 ∈ s.agentIds
    · exact .inl (mem_map.mpr ⟨k.2, hid, Prod.ext heq.symm rfl⟩)
    · exact .inr (.inr (.inl hid))
  · exact .inr (.inl ⟨hk, not_mem_cons_of_ne_of_not_mem heq hg⟩)

theorem refreshAgent_runs (h : Ready sql (id :: A) B C D l) :
    Runs sql t (fun _ => Ready sql A B C D) (refreshAgent sql t id) l := by
  refine (takeLock_runs h).seq fun _ l' hl => setPairs_runs hl.1 hl.2 ?_ fun s k hk hg => ?_
  · intro s _ _ k hk
    obtain ⟨g, hmem, rfl⟩ := mem_map.mp hk
    exact (s.seen t).wantOfAgent_contains hmem id
  by_cases heq : k.2 = id
  · by_cases hlt : k.1 < s.nextGroup
    · exact .inl (mem_map.mpr ⟨k.1, mem_range.mpr hlt, Prod.ext rfl heq.symm⟩)
    · exact .inr (.inr (.inr (not_lt.mp hlt)))
  · exact .inr (.inl ⟨not_mem_cons_of_ne_of_not_mem heq hk, hg⟩)

theorem ruleChanged_runs (h : Ready sql A (groups ++ B) C D l) :
    Runs sql t (fun _ => Ready sql A B C D) (ruleChanged sql t groups) l := by
  refine .foldlM (J := fun rest (_ : Unit) l => Ready sql A (rest ++ B) C D l)
    (fun g rest _ l' hl => refreshGroup_runs hl) ?_
  refine h.mono (.refl A) fun g hg => ?_
  rwa [mem_append, mem_dedup, ← mem_append]

theorem agentsDeleted_runs (h : Ready sql gone [] gone [] l) :
    Runs sql t (fun _ => Ready sql [] [] gone []) (agentsDeleted t gone) l := by
  refine (takeLock_runs h).seq fun _ l' hl => setPairs_runs hl.1 hl.2 ?_ fun s k _ hg => ?_
  · intro s _ hs k hk
    exact (Facts.inGroup_of_no_agent (hl.1.no_agent hs (mem_product.mp hk).2)).symm
  by_cases hgn : k.2 ∈ gone
  · by_cases hlt : k.1 < s.nextGroup
    · exact .inl (mem_product.mpr ⟨mem_range.mpr hlt, hgn⟩)
    · exact .inr (.inr (.inr (not_lt.mp hlt)))
  · exact .inr (.inl ⟨hgn, hg⟩)

theorem groupsDeleted_runs {gone : List ℕ} (h : Ready sql [] gone [] gone l) :
    Runs sql t (fun _ => Ready sql [] [] [] gone) (groupsDeleted t gone) l := by
  refine (takeLock_runs h).seq fun _ l' hl => setPairs_runs hl.1 hl.2 ?_ fun s k hk _ => ?_
  · intro s _ hs k hmem
    exact (Facts.inGroup_of_no_group (hl.1.no_group hs (mem_product.mp hmem).1)).symm
  by_cases hgn : k.1 ∈ gone
  · by_cases hid : k.2 ∈ s.agentIds
    · exact .inl (mem_product.mpr ⟨hgn, hid⟩)
    · exact .inr (.inr (.inl hid))
  · exact .inr (.inl ⟨hk, hgn⟩)

/-- **A statement on one row**: it changes nothing, or writes the row. -/
theorem row_runs {act : Db → Option (β × Db)} (h : Ready sql A B C D l)
    (hact : ∀ s b s', Consistent sql s → s.mine sql t = l → act s = some (b, s') → (s' = s ∧ Q b l) ∨
      ∃ A' B', (A ⊆ A' ∧ B ⊆ B') ∧ RowWrite sql t A' B' s s' ∧ (Ok sql A' B' (s'.mine sql t) → Q b (s'.mine sql t))) :
    Runs sql t Q (.stmt act) l := by
  refine .stmt fun s b s' hI hs h' => ?_
  rcases hact s b s' hI hs h' with ⟨rfl, hQ⟩ | ⟨A', B', ⟨hA, hB⟩, hwrt, hQ⟩
  · exact ⟨⟨hI, .refl t s'⟩, hs ▸ hQ⟩
  · refine ⟨⟨hwrt.consistent hI, hwrt.touches hI⟩, hQ (hwrt.ok hI ?_)⟩
    rw [hs]
    exact h.ok.mono hA hB

theorem insertAgent_runs (a : Agent) (h : Ready sql [] [] [] [] l) :
    Runs sql t (fun b => Ready sql (if b = true ∧ a.status = .active then [id] else []) [] [] [])
        (insertAgent t id a) l := by
  refine row_runs h fun s b s' hI hs hact => ?_
  cases hvw : (s.agents id).view t with
  | some old =>
    rw [hvw] at hact
    cases hact
    exact .inl ⟨rfl, by simpa using h⟩
  | none =>
    rw [hvw] at hact
    obtain ⟨hfr, heq⟩ := map_put_iff.mp hact
    cases heq
    refine .inr ⟨if a.status = .active then [id] else [], [], ⟨nil_subset _, nil_subset _⟩,
      .agent id (some a) _ (subset_cons_self id _) mem_cons_self hfr fun hnot => ?_, fun hok =>
        ⟨by simpa using hok, nofun, nofun⟩⟩
    have hatv : ¬a.status = .active := fun hatv => hnot (by simp [hatv])
    rw [hvw]
    simp [effective, hatv]

theorem updateAgent_runs (h : Ready sql A [] [] [] l) :
    Runs sql t (fun r => Ready sql (if r.any fun r => agentFires sql sets r.1 r.2 then A ++ [id] else A) [] [] [])
      (updateAgent t id (assign sets)) l := by
  refine row_runs h fun s b s' hI hs hact => ?_
  cases hvw : (s.agents id).view t with
  | none =>
    rw [hvw] at hact
    cases hact
    exact .inl ⟨rfl, by simpa using h⟩
  | some a =>
    rw [hvw] at hact
    obtain ⟨hfr, heq⟩ := map_put_iff.mp hact
    cases heq
    refine .inr ⟨if agentFires sql sets a (assign sets a) then A ++ [id] else A, [], ⟨?_, nil_subset _⟩,
      .agent id (some (assign sets a)) _ (.refl _) (hI.listed hvw) hfr fun hnot => ?_, fun hok =>
        ⟨by simpa using hok, nofun, nofun⟩⟩
    · split_ifs
      · exact subset_append_left A _
      · exact .refl A
    · rw [hvw]
      by_contra hne
      rw [if_pos (agentFires_of_effective hne)] at hnot
      exact hnot (mem_append_right A mem_cons_self)

theorem deleteAgent_runs (h : Ready sql gone [] gone [] l) :
    Runs sql t (fun b => Ready sql (if b then gone ++ [id] else gone) [] (if b then gone ++ [id] else gone) [])
      (deleteAgent t id) l := by
  refine row_runs h fun s b s' hI hs hact => ?_
  cases hvw : (s.agents id).view t with
  | none =>
    rw [hvw] at hact
    cases hact
    exact .inl ⟨rfl, h⟩
  | some a =>
    rw [hvw] at hact
    obtain ⟨hfr, heq⟩ := map_put_iff.mp hact
    cases heq
    subst hs
    refine .inr ⟨gone ++ [id], [], ⟨subset_append_left gone _, nil_subset _⟩,
      .agent id none _ (.refl _) (hI.listed hvw) hfr fun hnot => ?_, fun hok =>
        ⟨hok, hand_deleted h.agents, nofun⟩⟩
    exact absurd (mem_append_right gone mem_cons_self) hnot

/-! Groups. -/

theorem insertGroup_runs (kind : Kind) (h : Ready sql [] [] [] [] l) :
    Runs sql t (fun _ => Ready sql [] [] [] []) (insertGroup t kind) l := by
  refine row_runs h fun s b s' hI hs hact => .inr ?_
  obtain ⟨-, heq⟩ := map_put_iff.mp hact
  cases heq
  exact ⟨[], [], ⟨nil_subset _, nil_subset _⟩, .newGroup kind, fun hok =>
    ⟨hok, nofun, nofun⟩⟩

theorem updateGroup_runs (h : Ready sql [] B [] [] l) :
    Runs sql t (fun r => Ready sql [] (if r.any fun old => old ≠ kind then B ++ [g] else B) [] [])
      (updateGroup t g kind) l := by
  refine row_runs h fun s b s' hI hs hact => ?_
  cases hvw : (s.groups g).view t with
  | none =>
    rw [hvw] at hact
    cases hact
    exact .inl ⟨rfl, by simpa using h⟩
  | some old =>
    rw [hvw] at hact
    obtain ⟨hfr, heq⟩ := map_put_iff.mp hact
    cases heq
    refine .inr ⟨[], if old ≠ kind then B ++ [g] else B, ⟨nil_subset _, ?_⟩,
      .group g (some kind) (by simp [hvw]) hfr fun hnot => ?_, fun hok =>
        ⟨by simpa using hok, nofun, nofun⟩⟩
    · split_ifs
      · exact subset_append_left B _
      · exact .refl B
    · rw [hvw]
      by_contra hne
      rw [if_pos fun heq => hne (congrArg some heq.symm)] at hnot
      exact hnot (mem_append_right B mem_cons_self)

theorem deleteGroup_runs {gone : List ℕ} (h : Ready sql [] gone [] gone l) :
    Runs sql t (fun b => Ready sql [] (if b then gone ++ [g] else gone) [] (if b then gone ++ [g] else gone))
      (deleteGroup t g) l := by
  refine row_runs h fun s b s' hI hs hact => ?_
  cases hvw : (s.groups g).view t with
  | none =>
    rw [hvw] at hact
    cases hact
    exact .inl ⟨rfl, h⟩
  | some kind =>
    rw [hvw] at hact
    obtain ⟨hfr, heq⟩ := map_put_iff.mp hact
    cases heq
    subst hs
    refine .inr ⟨[], gone ++ [g], ⟨nil_subset _, subset_append_left gone _⟩,
      .group g none (by simp [hvw]) hfr fun hnot => ?_, fun hok =>
        ⟨hok, nofun, hand_deleted h.groups⟩⟩
    exact absurd (mem_append_right gone mem_cons_self) hnot

/-! Conditions and picked hosts. -/

theorem putCondition_runs {k : ℕ × ℕ} (c : Condition) (h : Ready sql A B C D l) :
    Runs sql t (fun b => Ready sql A (if b then k.1 :: B else B) C D) (putCondition t k c) l := by
  refine row_runs h fun s b s' hI hs hact => ?_
  cases hvw : (s.groups k.1).view t with
  | none =>
    rw [hvw] at hact
    cases hact
    exact .inl ⟨rfl, h⟩
  | some kind =>
    rw [hvw] at hact
    obtain ⟨hfr, heq⟩ := map_put_iff.mp hact
    cases heq
    subst hs
    exact .inr ⟨A, k.1 :: B, ⟨.refl A, subset_cons_self _ B⟩,
      .condition k (some c) (.inl (by simp [hvw])) hfr mem_cons_self,
      fun hok => ⟨hok, h.agents, h.groups⟩⟩

theorem dropCondition_runs {k : ℕ × ℕ} (h : Ready sql A B C D l) :
    Runs sql t (fun b => Ready sql A (if b then k.1 :: B else B) C D) (dropCondition t k) l := by
  refine row_runs h fun s b s' hI hs hact => ?_
  cases hvw : (s.conditions k).view t with
  | none =>
    rw [hvw] at hact
    cases hact
    exact .inl ⟨rfl, h⟩
  | some c =>
    rw [hvw] at hact
    obtain ⟨hfr, heq⟩ := map_put_iff.mp hact
    cases heq
    subst hs
    exact .inr ⟨A, k.1 :: B, ⟨.refl A, subset_cons_self _ B⟩,
      .condition k none (.inr (by simp [hvw])) hfr mem_cons_self,
      fun hok => ⟨hok, h.agents, h.groups⟩⟩

theorem putMember_runs (h : Ready sql A B C D l) :
    Runs sql t (fun b => Ready sql A (if b then k.1 :: B else B) C D) (putMember t k) l := by
  refine row_runs h fun s b s' hI hs hact => ?_
  split at hact
  · next kind a hgrp hagt =>
    obtain ⟨hfr, heq⟩ := map_put_iff.mp hact
    cases heq
    subst hs
    exact .inr ⟨A, k.1 :: B, ⟨.refl A, subset_cons_self _ B⟩,
      .member k true (.inl (by simp [hgrp])) hfr mem_cons_self,
      fun hok => ⟨hok, h.agents, h.groups⟩⟩
  · cases hact
    exact .inl ⟨rfl, h⟩

theorem dropMember_runs (h : Ready sql A B C D l) :
    Runs sql t (fun b => Ready sql A (if b then k.1 :: B else B) C D) (dropMember t k) l := by
  refine row_runs h fun s b s' hI hs hact => ?_
  split_ifs at hact with hvw
  · obtain ⟨hfr, heq⟩ := map_put_iff.mp hact
    cases heq
    subst hs
    exact .inr ⟨A, k.1 :: B, ⟨.refl A, subset_cons_self _ B⟩,
      .member k false (.inr (by rw [hvw]; exact Bool.noConfusion)) hfr mem_cons_self,
      fun hok => ⟨hok, h.agents, h.groups⟩⟩
  · cases hact
    exact .inl ⟨rfl, h⟩

/-! Statements. -/

theorem collect_runs {K : List α → Mine → Prop}
    (h : ∀ done x l, K done l → Runs sql t (fun b => K (if b then done ++ [x] else done)) (f x) l) (hl : K [] l) :
    Runs sql t K (collect f xs) l := by
  refine .foldlM (J := fun _ done l => K done l) (fun x _ done l hK => ?_) hl
  refine (h done x l hK).seq fun b l' hb => ?_
  cases b with
  | true | false => exact hb

theorem collect_ready {group : α → ℕ}
    (h : ∀ x B l, Ready sql A B C D l → Runs sql t (fun b => Ready sql A (if b then group x :: B else B) C D) (f x) l)
    (hl : Ready sql A B C D l) : Runs sql t (fun done => Ready sql A (done.map group ++ B) C D) (collect f xs) l := by
  refine collect_runs (fun done x l hK => (h x _ l hK).imp fun b l' hb => ?_) hl
  cases b with
  | false => exact hb
  | true =>
    refine hb.mono (.refl A) fun g hg => ?_
    simp only [if_true, map_append, map_cons, map_nil, mem_append, mem_cons] at hg ⊢
    tauto

theorem dropConditions_runs {keys : List (ℕ × ℕ)} (h : Ready sql A B C D l) :
    Runs sql t (fun _ => Ready sql A B C D) (dropConditions sql t keys) l :=
  (collect_ready (fun _ _ _ hl => dropCondition_runs hl) h).seq fun _ _ hl => ruleChanged_runs hl

theorem dropMembers_runs (h : Ready sql A B C D l) :
    Runs sql t (fun _ => Ready sql A B C D) (dropMembers sql t keys) l :=
  (collect_ready (fun _ _ _ hl => dropMember_runs hl) h).seq fun _ _ hl => ruleChanged_runs hl

theorem query_runs {q : Db → β} (h : ∀ b, Q b l) : Runs sql t Q (.query q) l := by
  refine .stmt fun s b s' hI hs hact => ?_
  cases hact
  exact ⟨⟨hI, .refl t s⟩, hs ▸ h _⟩

theorem Ready.done (h : Ready sql [] [] C D l) : Ready sql [] [] [] [] l := ⟨h.ok, nofun, nofun⟩

theorem exec_runs (stmt : Stmt) (h : Ready sql [] [] [] [] l) :
    Runs sql t (fun _ => Ready sql [] [] [] []) (stmt.exec sql t) l := by
  cases stmt with
  | insertAgent id a =>
    refine (insertAgent_runs a h).seq fun b l' hl => ?_
    cases b with
    | false => exact (by simpa using hl : Ready sql [] [] [] [] l')
    | true =>
      rw [if_pos rfl]
      by_cases hatv : a.status = .active
      · rw [if_pos ⟨rfl, hatv⟩] at hl
        simp only [if_pos hatv]
        exact (refreshAgent_runs hl).seq fun _ _ hl => hl
      · rw [if_neg fun hand => hatv hand.2] at hl
        simp only [if_neg hatv]
        exact hl
  | updateAgents rows =>
    refine (Meets.foldlM (J := fun _ fired l => Ready sql fired [] [] [] l)
      (fun row _ fired l hl => ?_) h).seq fun fired l' hl => ?_
    · refine (updateAgent_runs hl).seq fun r l' hr => ?_
      cases r with
      | none | some => exact hr
    · exact (Meets.foldlM (J := fun rest (_ : Unit) l => Ready sql rest [] [] [] l)
        (fun id rest _ l hl => refreshAgent_runs hl) hl).seq fun _ _ hl => hl
  | deleteAgents ids =>
    refine (collect_runs (K := fun gone l => Ready sql gone [] gone [] l)
      (fun gone id l hl => (deleteAgent_runs hl).imp fun b l' hb => ?_) h).seq fun gone l' hl => ?_
    · cases b with
      | true | false => exact hb
    · refine Meets.bind (query_runs fun picked => (dropMembers_runs hl).seq fun _ _ hl => ?_)
      exact (agentsDeleted_runs hl).seq fun _ _ hl => hl.done
  | insertGroup kind => exact (insertGroup_runs kind h).seq fun _ _ hl => hl
  | updateGroups rows =>
    refine (Meets.foldlM (J := fun _ fired l => Ready sql [] fired [] [] l)
      (fun row _ fired l hl => ?_) h).seq fun fired l' hl => ?_
    · refine (updateGroup_runs hl).seq fun r l' hr => ?_
      cases r with
      | none => exact hr
      | some old => exact (by simpa using hr : Ready sql [] (if old ≠ row.2 then fired ++ [row.1] else fired) [] [] l')
    · exact (Meets.foldlM (J := fun rest (_ : Unit) l => Ready sql [] rest [] [] l)
        (fun g rest _ l hl => refreshGroup_runs hl) hl).seq fun _ _ hl => hl
  | deleteGroups ids =>
    refine (collect_runs (K := fun gone l => Ready sql [] gone [] gone l)
      (fun gone g l hl => (deleteGroup_runs hl).imp fun b l' hb => ?_) h).seq fun gone l' hl => ?_
    · cases b with
      | true | false => exact hb
    · refine Meets.bind (query_runs fun conditions => (dropConditions_runs hl).seq fun _ _ hl => ?_)
      refine Meets.bind (query_runs fun picked => (dropMembers_runs hl).seq fun _ _ hl => ?_)
      exact (groupsDeleted_runs hl).seq fun _ _ hl => hl.done
  | putConditions rows =>
    refine (collect_ready (fun row _ _ hl => putCondition_runs row.2 hl) h).seq fun put _ hl => ?_
    exact (ruleChanged_runs hl).seq fun _ _ hl => hl
  | dropConditions keys => exact (dropConditions_runs h).seq fun _ _ hl => hl
  | putMembers keys =>
    refine (collect_ready (fun _ _ _ hl => putMember_runs hl) h).seq fun put _ hl => ?_
    exact (ruleChanged_runs hl).seq fun _ _ hl => hl
  | dropMembers keys => exact (dropMembers_runs h).seq fun _ _ hl => hl

/-- **A transaction** that commits leaves nothing to refresh. -/
theorem execAll_runs (stmts : List Stmt) (h : Ready sql [] [] [] [] l) :
    Runs sql t (fun _ => Ok sql [] []) (execAll sql t stmts) l := by
  induction stmts generalizing l with
  | nil => exact h.ok
  | cons stmt rest ih =>
    refine (exec_runs stmt h).seq fun b l' hl => ?_
    cases b with
    | true => exact ih hl
    | false => exact hl.ok

end

/-! ### The system -/

section

theorem committed_commit (t : ℕ) (s : Db) : (s.commit t).committed = s.seen t := by
  rw [Db.committed, Db.seen, Facts.mk.injEq]
  exact ⟨funext fun id => Cell.committed_commit t _, funext fun g => Cell.committed_commit t _,
    funext fun k => Cell.committed_commit t _, funext fun k => Cell.committed_commit t _⟩

theorem committed_abort (t : ℕ) (s : Db) : (s.abort t).committed = s.committed := by
  rw [Db.committed, Db.committed, Facts.mk.injEq]
  exact ⟨funext fun id => Cell.committed_abort t _, funext fun g => Cell.committed_abort t _,
    funext fun k => Cell.committed_abort t _, funext fun k => Cell.committed_abort t _⟩

theorem seen_abort (hu : u ≠ t) (s : Db) : (s.abort t).seen u = s.seen u := by
  rw [Db.seen, Db.seen, Facts.mk.injEq]
  exact ⟨funext fun id => view_abort hu _, funext fun g => view_abort hu _,
    funext fun k => view_abort hu _, funext fun k => view_abort hu _⟩

theorem mine_abort (hu : u ≠ t) (s : Db) : (s.abort t).mine sql u = s.mine sql u := by
  rw [Db.mine, Db.mine, seen_abort hu]
  simp [Db.abort, hand_abort hu, holds_congr (own_abort hu s.lock), Cells.abort, view_abort hu]

theorem mine_self (hagn : s.agents.hand t = fun _ => none) (hgrps : s.groups.hand t = fun _ => none)
    (hcn : s.conditions.hand t = fun _ => none) (hmmb : s.members.hand t = fun _ => none)
    (hlk : s.lock.own t = none) : s.mine sql t = nothing := by
  rw [Db.mine, hagn, hgrps, hcn, hmmb, own_eq_none_iff.mp hlk]
  rfl

theorem childless_commit (hu : u ≠ t) (hbef : (s.seen u).Childless g) (ht : (s.seen t).Childless g) :
    ((s.commit t).seen u).Childless g := by
  refine ⟨fun p => ?_, fun id => ?_⟩
  · rcases view_commit hu (s.conditions (g, p)) with heq | ⟨-, heq⟩
    · exact heq.trans (hbef.conditions p)
    · exact heq.trans (ht.conditions p)
  · rcases view_commit hu (s.members (g, id)) with heq | ⟨-, heq⟩
    · exact heq.trans (hbef.members id)
    · exact heq.trans (ht.members id)

theorem Consistent.commit (hI : Consistent sql s) (hok : Ok sql [] [] (s.mine sql t)) : Consistent sql
    (s.commit t) where
  rule k := by
    rw [committed_commit]
    change ((s.membership k).commit t).committed = _
    rw [Cell.committed_commit]
    cases hlk : s.lock.holds t with
    | false =>
      rw [Ok, Db.mine_pairs_none hlk] at hok
      exact (Quiet.rule hI hok hlk not_mem_nil not_mem_nil).symm
    | true =>
      rw [Ok, Db.mine_pairs hlk] at hok
      exact (hok k not_mem_nil not_mem_nil).symm
  locked u k hu := by
    obtain ⟨ht, hhld⟩ := holds_commit_iff.mp hu
    exact holds_commit_iff.mpr ⟨ht, hI.locked u k hhld⟩
  hosts id hid := commit_of_settled (hI.hosts id hid) t
  groups g hg := commit_of_settled (hI.groups g hg) t
  conditions k hk := commit_of_settled (hI.conditions k hk) t
  members k hk := commit_of_settled (hI.members k hk) t
  pairs k hk := commit_of_settled (hI.pairs k hk) t
  unborn u g kind hown := by
    obtain ⟨ht, hown⟩ := own_commit_eq_some_iff.mp hown
    obtain ⟨-, hse⟩ := hI.unborn u g kind hown
    have hsf := hse t (.symm ht)
    refine ⟨committed_commit t s ▸ hsf, fun v hv => ?_⟩
    by_cases hvt : v = t
    · subst hvt
      exact ⟨fun p => (view_commit_self v _).trans (hsf.conditions p),
        fun id => (view_commit_self v _).trans (hsf.members id)⟩
    · exact childless_commit hvt (hse v hv) hsf

theorem Consistent.abort (hI : Consistent sql s) (t : ℕ) : Consistent sql (s.abort t) where
  rule k := by
    rw [committed_abort]
    exact (Cell.committed_abort t _).trans (hI.rule k)
  locked u k hu := by
    obtain ⟨ht, hhld⟩ := holds_abort_iff.mp hu
    exact holds_abort_iff.mpr ⟨ht, hI.locked u k hhld⟩
  hosts id hid := abort_of_settled (hI.hosts id hid) t
  groups g hg := abort_of_settled (hI.groups g hg) t
  conditions k hk := abort_of_settled (hI.conditions k hk) t
  members k hk := abort_of_settled (hI.members k hk) t
  pairs k hk := abort_of_settled (hI.pairs k hk) t
  unborn u g kind hown := by
    obtain ⟨ht, hown⟩ := own_abort_eq_some_iff.mp hown
    obtain ⟨hcom, hse⟩ := hI.unborn u g kind hown
    rw [committed_abort]
    refine ⟨hcom, fun v hv => ?_⟩
    by_cases hvt : v = t
    · subst hvt
      exact ⟨fun p => (view_abort_self v _).trans (hcom.conditions p),
        fun id => (view_abort_self v _).trans (hcom.members id)⟩
    · rw [seen_abort hvt]
      exact hse v hv

theorem Consistent.left_abort (hI : Consistent sql s) (t : ℕ) :
    System.Left (Consistent sql) (Db.mine sql) nothing t s (s.abort t) :=
  ⟨hI.abort t, fun _ hu => mine_abort hu s, mine_self (hand_abort_self t _) (hand_abort_self t _) (hand_abort_self t _)
    (hand_abort_self t _) (own_abort_self t _)⟩

/-- **What others have in hand** is not changed by a commit that leaves nothing to refresh. -/
theorem mine_commit (hI : Consistent sql s) (hok : Ok sql [] [] (s.mine sql t)) (hu : u ≠ t) :
    (s.commit t).mine sql u = s.mine sql u := by
  have hlk : (s.commit t).lock.holds u = s.lock.holds u := holds_congr (own_commit hu s.lock)
  have hprs : ((s.commit t).mine sql u).pairs = (s.mine sql u).pairs := by
    cases hhld : s.lock.holds u with
    | false => rw [Db.mine_pairs_none (hlk.trans hhld), Db.mine_pairs_none hhld]
    | true =>
      -- It holds the lock, so the transaction that commits does not.
      have hnot : s.lock.holds t = false := Bool.eq_false_iff.mpr fun ht => hu (holds_unique hhld ht)
      rw [Ok, Db.mine_pairs_none hnot] at hok
      rw [Db.mine_pairs (hlk.trans hhld), Db.mine_pairs hhld]
      refine congrArg some (funext fun k => Prod.ext (Quiet.others hI hok hu k) ?_)
      exact congrArg (view u) (commit_of_none (hI.view_pair hnot k))
  rw [Db.mine, Db.mine, Mine.mk.injEq]
  exact ⟨hand_commit hu _, hand_commit hu _, hand_commit hu _, hand_commit hu _, hprs⟩

end

theorem system_safe (sql : Sql) :
    (system sql).Safe (Consistent sql) (Db.mine sql) nothing (fun t s s' => Consistent sql s' ∧ Touches t s s')
      fun _ _ _ => Ok sql [] [] where
  start t stmts := execAll_runs stmts ready_nothing
  keeps t s s' _ hG := hG.1
  others t u s s' hu _ hG := hG.2.mine hu
  close t stmts e s hI hok := by
    cases e with
    | commit a =>
      exact ⟨hI.commit hok, fun u hu => mine_commit hI hok hu, mine_self (hand_commit_self t _)
        (hand_commit_self t _) (hand_commit_self t _) (hand_commit_self t _) (own_commit_self t _)⟩
    | rollback a => exact hI.left_abort t
  abort t s hI := hI.left_abort t
  effect op := op.elim

/-- No transaction is running, and the pairs are by the rule. -/
structure AtRest (sql : Sql) (s : Db) : Prop where
  lock : s.lock.held = none
  agents : ∀ id, (s.agents id).held = none
  groups : ∀ g, (s.groups g).held = none
  conditions : ∀ k, (s.conditions k).held = none
  members : ∀ k, (s.members k).held = none
  membership : ∀ k, (s.membership k).held = none
  hosts : ∀ id, (s.agents id).committed ≠ none → id ∈ s.agentIds
  groupIds : ∀ g, (s.groups g).committed ≠ none → g < s.nextGroup
  conditionIds : ∀ k, (s.conditions k).committed ≠ none → k.1 < s.nextGroup
  memberIds : ∀ k, (s.members k).committed ≠ false → k.1 < s.nextGroup
  rule : ∀ k, (s.membership k).committed = s.committed.inGroup sql k

theorem settled_of {ν : Type} {c : Cell ℕ ν} {v : ν} (hhd : c.held = none) (hcom : c.committed = v) :
    c = settled v := by
  obtain ⟨committed, held⟩ := c
  cases hhd
  cases hcom
  rfl

theorem AtRest.consistent (h : AtRest sql s) : Consistent sql s where
  rule := h.rule
  locked t k hhld := by
    rw [holds, h.membership k] at hhld
    cases hhld
  hosts id hid := settled_of (h.agents id) (not_not.mp fun hne => hid (h.hosts id hne))
  groups g hg := settled_of (h.groups g) (not_not.mp fun hne => absurd (h.groupIds g hne) (not_lt.mpr hg))
  conditions k hk := settled_of (h.conditions k) (not_not.mp fun hne => absurd (h.conditionIds k hne) (not_lt.mpr hk))
  members k hk := settled_of (h.members k) (not_not.mp fun hne => absurd (h.memberIds k hne) (not_lt.mpr hk))
  pairs k hk := by
    refine settled_of (h.membership k) ((h.rule k).trans ?_)
    rcases hk with hk | hk
    · exact Facts.inGroup_of_no_agent (not_not.mp fun hne => hk (h.hosts k.2 hne))
    · exact Facts.inGroup_of_no_group (not_not.mp fun hne => absurd (h.groupIds k.1 hne) (not_lt.mpr hk))
  unborn t g kind hown := by
    rw [own, h.groups g] at hown
    cases hown

theorem AtRest.mine (h : AtRest sql s) (t : ℕ) : s.mine sql t = nothing := by
  refine mine_self (funext fun id => ?_) (funext fun g => ?_) (funext fun k => ?_) (funext fun k => ?_) ?_
  · rw [hand, own, h.agents id]
  · rw [hand, own, h.groups g]
  · rw [hand, own, h.conditions k]
  · rw [hand, own, h.members k]
  · rw [own, h.lock]

/-- **Stored membership is the rule.** In every state of every schedule from a database at rest, a pair is stored
exactly if the rule of migration 53 is true of the committed hosts, groups, conditions and picked hosts. -/
theorem membership_is_the_rule {sql : Sql} {s₀ : Db} (h₀ : AtRest sql s₀) {moves : List (Move ℕ (List Stmt) Empty)}
    {S : Sessions ℕ (List Stmt) Db (End Unit)}
    (hrun : run (system sql).step (Sessions.quiet s₀) moves = some S) (k : ℕ × String) :
    (S.state.membership k).committed = S.state.committed.inGroup sql k :=
  ((system_safe sql).run (System.sound_quiet h₀.consistent h₀.mine) hrun).state.rule k

/-! ### A host that enrols while a group is edited -/

def sampleSql : Sql := ⟨id, fun a b => a == b, fun a b => a == b⟩

def sampleHost : Agent := ⟨.active, some "debian", some "12", some "web-1", none⟩

def sampleDb : Db where
  lock := Cell.settled ()
  agents id := Cell.settled (if id = "h1" then some sampleHost else none)
  agentIds := ["h1"]
  groups g := Cell.settled (if g = 0 then some .manual else none)
  nextGroup := 1
  conditions _ := Cell.settled none
  members _ := Cell.settled false
  membership _ := Cell.settled false

/-- The group becomes that of the Linux hosts, before a second host is refreshed. -/
def sampleMoves : List (Move ℕ (List Stmt) Empty) :=
  [.start 0 (writeGroup 0 .rule [] [] [] [⟨.osFamily, false, ["linux"]⟩]), .start 1 [.insertAgent "h2" sampleHost],
    .advance 0, .advance 1] ++ List.replicate 6 (.advance 0) ++ List.replicate 3 (.advance 1)

theorem sampleDb_atRest : AtRest sampleSql sampleDb where
  lock := rfl
  agents _ := rfl
  groups _ := rfl
  conditions _ := rfl
  members _ := rfl
  membership _ := rfl
  hosts id h := by
    by_cases hid : id = "h1"
    · exact hid ▸ mem_cons_self
    · exact absurd (if_neg hid) h
  groupIds g h := by
    by_cases hg : g = 0
    · exact hg ▸ Nat.one_pos
    · exact absurd (if_neg hg) h
  conditionIds _ h := absurd rfl h
  memberIds _ h := absurd rfl h
  rule k := by
    have hchl : sampleDb.committed.Childless k.1 := ⟨fun _ => rfl, fun _ => rfl⟩
    rw [Facts.inGroup_eq, hchl.admits]
    cases effective sampleSql (sampleDb.committed.agents k.2) <;> rfl

/-- Both hosts are in it in the end. -/
theorem membership_is_the_rule_sample :
    ∃ S, run (system sampleSql).step (Sessions.quiet sampleDb) sampleMoves = some S ∧
      (∀ id ∈ ["h1", "h2"], (S.state.membership (0, id)).committed = true) ∧
      ∀ k, (S.state.membership k).committed = S.state.committed.inGroup sampleSql k :=
  ⟨_, rfl, by decide, @membership_is_the_rule sampleSql sampleDb sampleDb_atRest sampleMoves _ rfl⟩

end OpenVibes.Store.HostGroups
