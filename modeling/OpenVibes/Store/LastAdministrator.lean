import OpenVibes.Store.SsoPrograms

/-!
# The last Administrator

`remove_role` and `disable_local_user` count Administrators under one lock, and that count holds until they commit: what
takes no lock only adds Administrators. Single sign-on does not count: a sign-in revokes the binding that its groups no
longer give, and the cleanup takes roles, whoever else is left. Each has the rows of one person in hand when it commits,
so that an Administrator stays if there is another one before that commit.
-/

namespace OpenVibes.Store.ConsoleSso

open Theory Cells Option Sessions

/-! ### The console's own programs commit only at their end -/

def Db.Keeps (s s' : Db) : Prop :=
  (∀ u, (s'.users u).committed = (s.users u).committed) ∧ ∀ k, (s'.bindings k).committed = (s.bindings k).committed

theorem Db.Keeps.refl (s : Db) : s.Keeps s := ⟨fun _ => rfl, fun _ => rfl⟩

variable {u : ℕ} {s : Db} {S : Running} {lower : String → String}

variable {k : BindingKey} {roleId : String} {p : Principal} {call : Call} {s' : Db} {t : ℕ}

section

theorem only_takeLock : (takeLock t).Only Db.Keeps := by
  refine .stmt fun s b s' hact => ?_
  split_ifs at hact
  cases hact
  exact .refl s

theorem only_updateUser {cond : User → Bool} {f : User → User} : (updateUser t u cond f).Only Db.Keeps := by
  refine .stmt fun s b s' hact => ?_
  split at hact
  · cases hact
    exact .refl s
  split_ifs at hact
  · cases hact
    exact .refl s
  · obtain ⟨-, heq⟩ := map_put_iff.mp hact
    cases heq
    exact ⟨fun _ => committed_write .., fun _ => rfl⟩

theorem only_insertBinding {source : Source} : (insertBinding t k source).Only Db.Keeps := by
  refine .stmt fun s b s' hact => ?_
  split at hact
  · cases hact
    exact .refl s
  · obtain ⟨-, heq⟩ := map_put_iff.mp hact
    cases heq
    exact ⟨fun _ => rfl, fun _ => committed_write ..⟩

theorem only_revokeBinding {id : ℕ} : (revokeBinding t k id).Only Db.Keeps := by
  refine .stmt fun s b s' hact => ?_
  split at hact
  · cases hact
    exact .refl s
  split_ifs at hact
  · cases hact
    exact .refl s
  · obtain ⟨-, heq⟩ := map_put_iff.mp hact
    cases heq
    exact ⟨fun _ => rfl, fun _ => committed_write ..⟩

theorem keeps_count (s : Db) (c : Option Counted) : s.Keeps (s.count t c) := by
  cases c <;> exact .refl s

theorem only_countAdministrators {target : Option ℕ} : (countAdministrators t target).Only Db.Keeps := by
  refine .stmt fun s b s' hact => ?_
  cases hact
  split_ifs
  · exact keeps_count s _
  · exact .refl s

theorem only_giveRole : (giveRole t p roleId).Only Db.Keeps := by
  refine .bind only_takeLock fun _ => .bind (.bind (.query .refl) fun b => ?_) fun b => ?_
  · split_ifs
    · exact only_insertBinding
    · trivial
  · split_ifs
    · trivial
    · refine .bind (.query .refl) fun b => ?_
      split_ifs <;> trivial

theorem only_removeRole : (removeRole t p roleId).Only Db.Keeps := by
  refine .bind only_takeLock fun _ => .bind (.stmt fun s b s' hact => ?_) fun b => ?_
  · cases hact
    exact keeps_count s _
  match b with
  | none => trivial
  | some (id, enabledUser) =>
    dsimp only
    split_ifs
    · refine .bind only_countAdministrators fun n => ?_
      split_ifs
      · trivial
      · exact .bind only_revokeBinding fun _ => trivial
    · exact .bind only_revokeBinding fun _ => trivial

theorem only_disableLocalUser : (disableLocalUser t u).Only Db.Keeps := by
  have hdis : (disableUser t u).Only Db.Keeps := .bind only_updateUser fun b => by split_ifs <;> trivial
  refine .bind only_takeLock fun _ => .bind (.stmt fun s b s' hact => ?_) fun b => ?_
  · cases hact
    exact keeps_count s _
  split_ifs
  · refine .bind only_countAdministrators fun n => ?_
    split_ifs
    · trivial
    · exact hdis
  · exact hdis

theorem only_startRequest {n : NewRequest} : (startRequest n).Only Db.Keeps := by
  refine .bind (.stmt fun s b s' hact => ?_) fun _ => .bind (.stmt fun s b s' hact => ?_) fun _ =>
    .bind (.query .refl) fun k => ?_
  · cases hact
    exact .refl s
  · cases hact
    exact .refl s
  split_ifs
  · trivial
  refine .bind (.stmt fun s b s' hact => ?_) fun b => by split_ifs <;> trivial
  split at hact <;>
  · cases hact
    exact .refl s

theorem only_takeRequest {relay browser : ℕ} {now : ℤ} : (takeRequest relay browser now).Only Db.Keeps := by
  refine .stmt fun s b s' hact => ?_
  split at hact
  · cases hact
    exact .refl s
  · split_ifs at hact <;>
    · cases hact
      exact .refl s

/-- **A statement of a call of the console itself commits nothing.** -/
theorem only_of_guarded (lower : String → String) (h : call.guarded = true) : (call.prog lower t).Only Db.Keeps := by
  cases call with
  | giveRole p roleId => exact .bind only_giveRole fun _ => trivial
  | removeRole p roleId => exact .bind only_removeRole fun _ => trivial
  | disableLocalUser u => exact .bind only_disableLocalUser fun _ => trivial
  | enableUser u => exact .bind (.bind only_updateUser fun b => by split_ifs <;> trivial) fun _ => trivial
  | startRequest n => exact .bind only_startRequest fun _ => trivial
  | takeRequest relay browser now => exact .bind only_takeRequest fun _ => trivial
  | signIn | clean => cases h

end

/-! ### The invariant -/

/-- Somebody is an Administrator, besides whoever has been counted. -/
structure Db.Spare (s : Db) : Prop where
  administrator : ∃ u, s.Administrator u
  counted : ∀ t u, s.counted t = some (.administrators u) → ∃ u', u' ≠ u ∧ s.Administrator u'

theorem Db.Spare.mono (h : s.Spare) (hadmi : ∀ u, s.Administrator u → s'.Administrator u)
    (hcnt : ∀ t u, s'.counted t = some (.administrators u) → s.counted t = some (.administrators u)) :
    s'.Spare := by
  obtain ⟨u, hu⟩ := h.administrator
  refine ⟨⟨u, hadmi u hu⟩, fun t v hv => ?_⟩
  obtain ⟨u', hne, hu'⟩ := h.counted t v (hcnt t v hv)
  exact ⟨u', hne, hadmi u' hu'⟩

theorem Db.Keeps.administrator (h : s.Keeps s') (hu : s.Administrator u) : s'.Administrator u := by
  rw [Db.Administrator, h.1, h.2]
  exact hu

theorem Db.Spare.keeps (h : s.Spare) (hkee : s.Keeps s') (hcnt : s'.counted = s.counted) : s'.Spare :=
  h.mono (fun _ => hkee.administrator) fun t u ht => by rwa [hcnt] at ht

theorem counted_of_update {t r : ℕ} (h : Function.update s.counted t none r = some (Counted.administrators u)) :
    r ≠ t ∧ s.counted r = some (.administrators u) := by
  rcases update_cases h with ⟨-, h⟩ | ⟨hr, h⟩
  · cases h
  · exact ⟨hr, h⟩

theorem keeps_abort (s : Db) (t : ℕ) : s.Keeps (s.abort t) :=
  ⟨fun u => committed_abort t s.users u, fun k => committed_abort t s.bindings k⟩

theorem Db.Spare.abort (h : s.Spare) (t : ℕ) : (s.abort t).Spare :=
  h.mono (fun _ => (keeps_abort s t).administrator) fun _ _ hv => (counted_of_update hv).2

theorem Db.Spare.record (h : s.Spare) (a : Answer) : (s.record a).Spare := by
  unfold Db.record
  split <;> exact ⟨h.administrator, h.counted⟩

/-- The transaction is about to take Administrator from the person: it has disabled or deleted the user or ended the
binding, and has not committed. -/
def Hand.Takes (m : Hand) (u : ℕ) : Prop :=
  (∃ old new, m.users u = some (old, new) ∧ new.any User.enabled = false) ∨
    ∃ old, m.bindings ⟨.user u, "admin"⟩ = some (old, none)

/-- **Whoever is not concerned** by a commit stays an Administrator. -/
theorem administrator_commit (hnot : ¬(s.hand t).Takes u) (hu : s.Administrator u) : (s.commit t).Administrator u := by
  refine ⟨?_, ?_⟩
  · cases hown : (s.users u).own t with
    | none =>
      rw [show ((s.commit t).users u).committed = _ from committed_commit_of_none hown]
      exact hu.1
    | some p =>
      rw [show ((s.commit t).users u).committed = _ from committed_commit t s.users u, Cell.view_of_own hown]
      exact Bool.eq_true_of_not_eq_false fun h => hnot (.inl ⟨p.1, p.2, hown, h⟩)
  · cases hown : (s.bindings ⟨.user u, "admin"⟩).own t with
    | none =>
      rw [show ((s.commit t).bindings _).committed = _ from committed_commit_of_none hown]
      exact hu.2
    | some p =>
      rw [show ((s.commit t).bindings _).committed = _ from committed_commit t s.bindings _, Cell.view_of_own hown]
      refine isSome_iff_ne_none.mpr fun h => hnot (.inr ⟨p.1, hown.trans ?_⟩)
      rw [← h]

theorem Hand.Guarded.counted (hgrd : (s.hand t).Guarded) (hu : s.Administrator u) (htak : (s.hand t).Takes u) :
    s.counted t = some (.administrators u) := by
  rcases htak with ⟨old, new, hown, hnew⟩ | ⟨old, hown⟩
  · have hcom : (s.users u).committed = old := Cell.committed_of_own hown
    have hold : old.any User.enabled = true := by
      rw [← hcom]
      exact hu.1
    refine (hgrd.users u old new hown hold).resolve_left fun h => ?_
    rw [hnew] at h
    cases h
  · exact (hgrd.bindings u old none hown).resolve_left nofun

theorem Hand.Of.not_takes {m : Hand} {u' : ℕ} (h : m.Of u) (hne : u' ≠ u) : ¬m.Takes u' := by
  rintro (⟨old, new, hown, -⟩ | ⟨old, hown⟩)
  · exact hne (h.users u' (by simp [hown]))
  · exact hne (h.bindings u' "admin" (by simp [hown]))

/-- **What the console commits** leaves an Administrator. -/
theorem Db.Spare.commit (h : s.Spare) (hs : Valid s) (hgrd : (s.hand t).Guarded) : (s.commit t).Spare := by
  by_cases hcnt : ∃ u, s.counted t = some (.administrators u)
  · obtain ⟨u, hu⟩ := hcnt
    obtain ⟨u', hne, hu'⟩ := h.counted t u hu
    have hsty : (s.commit t).Administrator u' := administrator_commit (fun htak => hne ?_) hu'
    · refine ⟨⟨u', hsty⟩, fun r v hv => ?_⟩
      -- the lock is one
      obtain ⟨hr, hv⟩ := counted_of_update hv
      exact absurd (Cell.holds_unique (hs.counted r v hv) (hs.counted t u hu)) hr
    · have hcnt := hgrd.counted hu' htak
      rw [hu] at hcnt
      exact (Counted.administrators.inj (some.inj hcnt)).symm
  · exact h.mono (fun u hu => administrator_commit (fun htak => hcnt ⟨u, hgrd.counted hu htak⟩) hu)
      fun r v hv => (counted_of_update hv).2

/-! ### What single sign-on has to spare -/

/-- Besides this person somebody is an Administrator, and besides them and whoever has been counted, too. -/
structure Db.SpareBesides (s : Db) (u : ℕ) : Prop where
  administrator : ∃ u', u' ≠ u ∧ s.Administrator u'
  counted : ∀ t v, s.counted t = some (.administrators v) → ∃ u', u' ≠ u ∧ u' ≠ v ∧ s.Administrator u'

/-- The next statement of the program is its commit. -/
def Commits (t : ℕ) (s : Db) : Txn Db (End Answer) → Prop
  | .ret e => ∃ a, e = .commit a
  | .step act _ => ∃ b, act s = some (b, s.commit t)

/-- Before a sign-in or the cleanup commits what takes Administrator from a person, there is another Administrator. -/
def Spares (S : Running) (m : Move ℕ Call Outside) : Prop :=
  ∀ t call p u, m = .advance t → S.running t = some (call, p) → call.guarded = false → Commits t S.state p →
    (S.state.hand t).Takes u → S.state.Administrator u → S.state.SpareBesides u

/-- **What single sign-on commits** leaves an Administrator: it has rows of one person in hand, and another is there. -/
theorem Db.Spare.signOn (h : s.Spare) (hof : ∃ u, (s.hand t).Of u)
    (hsp : ∀ u, (s.hand t).Takes u → s.Administrator u → s.SpareBesides u) : (s.commit t).Spare := by
  by_cases hls : ∃ u, (s.hand t).Takes u ∧ s.Administrator u
  · obtain ⟨u, htak, hadm⟩ := hls
    obtain ⟨v, hof⟩ := hof
    obtain rfl : u = v := by
      by_contra hne
      exact hof.not_takes hne htak
    obtain ⟨⟨u', hne, hu'⟩, hcnt⟩ := hsp u htak hadm
    refine ⟨⟨u', administrator_commit (hof.not_takes hne) hu'⟩, fun r w hw => ?_⟩
    obtain ⟨u', hne, hnew, hu'⟩ := hcnt r w (counted_of_update hw).2
    exact ⟨u', hnew, administrator_commit (hof.not_takes hne) hu'⟩
  · exact h.mono (fun u hu => administrator_commit (fun htak => hls ⟨u, htak, hu⟩) hu)
      fun r v hv => (counted_of_update hv).2

/-- **A statement leaves in hand rows of one person**, if there were none of another. -/
theorem Acts.of (hac : Acts t s s') (hof : ∃ u, (s.hand t).Of u) : ∃ u, (s'.hand t).Of u := by
  obtain ⟨u, hu⟩ := hof
  cases hac with
  | @user v new ids next hfr hnx hv hof =>
    rw [hand_writeUser]
    exact ⟨v, hof.user rfl rfl⟩
  | @binding k new keys next hfr hnx hcnt hof =>
    rw [hand_writeBinding]
    obtain ⟨principal, roleId⟩ := k
    cases principal with
    | user v => exact ⟨v, (hof v rfl).binding (fun w h => (Principal.user.inj h).symm) _⟩
    | serviceAccount a => exact ⟨u, hu.binding (fun _ h => by cases h) _⟩
  | commit =>
    rw [(ends_commit t s).hand_self]
    exact ⟨u, Hand.of_bare rfl rfl u⟩
  | abort =>
    rw [(ends_abort t s).hand_self]
    exact ⟨u, Hand.of_bare rfl rfl u⟩
  | _ => exact ⟨u, hu.users, hu.bindings⟩

structure Attended (S : Running) : Prop where
  reached : Reached S
  keeping : System.Keeping (fun call : Call => call.guarded = true) Db.Keeps S
  person : ∀ t, ∃ u, (S.state.hand t).Of u
  spare : S.state.Spare

theorem Outside.administrator_iff {op : Outside} (h : op.apply s = some s') (u : ℕ) :
    s'.Administrator u ↔ s.Administrator u := by
  cases op with
  | signedIn u' now =>
    unfold Outside.apply at h
    dsimp only at h
    split_ifs at h
    cases h
    exact and_congr_left fun _ => by rw [committed_signedIn]
  | _ =>
    cases h
    exact .rfl

/-- **A program that has returned** leaves an Administrator, if one of single sign-on has another one to spare. -/
theorem Attended.close (hS : Attended S) {e : End Answer} (hret : S.running t = some (call, .ret e))
    (hsp : Spares S (.advance t)) : ((system lower).close t e S.state).Spare := by
  have hcls := hS.reached.returned hret
  cases e with
  | rollback a => exact hS.spare.abort t
  | commit a =>
    cases hgrd : call.guarded with
    | true => exact (hS.spare.commit hS.reached.state (hcls.1 hgrd)).record a
    | false =>
      exact (hS.spare.signOn (hS.person t) fun u => hsp t call _ u rfl hret hgrd ⟨a, rfl⟩).record a

theorem Db.Spare.count (h : s.Spare) {c : Counted} (hcts : s.Counts t c) :
    Db.Spare { s with counted := Function.update s.counted t (some c) } := by
  refine ⟨h.administrator, fun r v hv => ?_⟩
  rcases update_cases hv with ⟨rfl, hc⟩ | ⟨-, hv⟩
  · cases hc
    rcases hcts.2 with hnot | hoth
    · obtain ⟨u, hu⟩ := h.administrator
      exact ⟨u, fun heq => hnot (heq ▸ hu), hu⟩
    · exact hoth
  · exact h.counted r v hv

/-- **Every move keeps an Administrator**, if single sign-on spares one. -/
theorem Attended.step {S' : Running} {m : Move ℕ Call Outside} (hS : Attended S) (hsp : Spares S m)
    (hst : (system lower).step S m = some S') : Attended S' := by
  obtain ⟨hrch, hds⟩ := (system_safe lower).step_cases hS.reached hst
  refine ⟨hrch, .step (fun t call h => only_of_guarded lower h) hS.keeping hst,
    (system_safe lower).hand_step hS.reached (P := fun m => ∃ u, m.Of u) ⟨0, Hand.of_bare rfl rfl 0⟩
      (fun t s s' hof hac => hac.of hof) hS.person hst, ?_⟩
  by_cases hret : ∃ t call e, m = .advance t ∧ S.running t = some (call, .ret e)
  · obtain ⟨t, call, e, rfl, hret⟩ := hret
    rw [System.step_returned hret hst]
    exact hS.close hret hsp
  have hacte : ∀ t call β act next, m = .advance t → S.running t = some (call, .step (β := β) act next) →
      (call.guarded = true → S.state.Keeps S'.state) ∧ ∃ b, act S.state = some (b, S'.state) :=
    fun t call β act next hm hr => by
      subst hm
      refine ⟨fun hgrd => hS.keeping.act hr hgrd hst, ?_⟩
      rw [System.step, hr] at hst
      obtain ⟨⟨b, s⟩, hact, rfl⟩ := map_eq_some_iff.mp hst
      exact ⟨b, hact⟩
  generalize S'.state = s' at hds hacte ⊢
  have h := hS.spare
  cases hds with
  | start t call => exact h
  | close t call e hrtr => exact absurd ⟨t, call, e, rfl, hrtr⟩ hret
  | abort t => exact h.abort t
  | outside op _ heff =>
    refine h.mono (fun u hu => (Outside.administrator_iff heff u).mpr hu) fun r v hv => ?_
    rwa [(Outside.kept heff).2.2.2.2] at hv
  | act t _ hac =>
    cases hac with
    | count c hcts => exact h.count hcts
    | abort => exact h.abort t
    | user new ids hfr => exact h.keeps ⟨fun _ => committed_write .., fun _ => rfl⟩ rfl
    | binding new keys hfr => exact h.keeps ⟨fun _ => rfl, fun _ => committed_write ..⟩ rfl
    | commit =>
      -- a commit in the middle of a program is one of the cleanup
      cases hr : S.running t with
      | none =>
        rw [System.step, hr] at hst
        cases hst
      | some q =>
        obtain ⟨call, p⟩ := q
        cases p with
        | ret e => exact absurd ⟨t, call, e, rfl, hr⟩ hret
        | step act next =>
          obtain ⟨hkps, hact⟩ := hacte t call _ act next rfl hr
          cases hgrd : call.guarded with
          | true => exact h.mono (fun u => (hkps hgrd).administrator) fun r u hv => (counted_of_update hv).2
          | false => exact h.signOn (hS.person t) fun u => hsp t call _ u rfl hr hgrd hact
    | _ => exact h.keeps (.refl _) rfl

/-- **The last Administrator stays**, in every run of the console and of single sign-on, from a database with an
Administrator, in which there is another one before single sign-on takes it from a person. And every program has rows of
one person only in hand. -/
theorem administrator_stays (lower : String → String) {s : Db} {moves : List (Move ℕ Call Outside)} {S : Running}
    (hs : AtRest s) (hadmi : ∃ u, s.Administrator u)
    (hsp : StepsMeet (system lower).step Spares (quiet s) moves)
    (hrun : run (system lower).step (quiet s) moves = some S) :
    (∃ u, S.state.Administrator u) ∧ ∀ t, ∃ u, (S.state.hand t).Of u := by
  have hsta : Attended (.quiet s) := by
    refine ⟨hs.reached, System.programs_quiet s, fun t => ⟨0, ?_⟩, hadmi, fun t u ht => ?_⟩
    · rw [show (quiet s : Running).state.hand t = .nothing from hs.hand t]
      exact Hand.of_bare rfl rfl 0
    · rw [show (quiet s : Running).state.counted t = none from hs.counted t] at ht
      cases ht
  have h := run_invariant_of (fun _ _ _ hS hC hst => hS.step hC hst) hsta hsp hrun
  exact ⟨h.spare.administrator, h.person⟩

theorem spares_of_two {m : Move ℕ Call Outside} (h₁ : S.state.Administrator 1) (h₂ : S.state.Administrator 2)
    (hcnt : ∀ t v, S.state.counted t ≠ some (.administrators v)) : Spares S m := by
  intro t call p u _ _ _ _ _ _
  refine ⟨?_, fun t v h => absurd h (hcnt t v)⟩
  by_cases hu : u = 1
  · exact ⟨2, by simp [hu], h₂⟩
  · exact ⟨1, .symm hu, h₁⟩

/-- One of two Administrators loses the role by a sign-in, the other stays. -/
theorem administrator_stays_sample : ∃ S : Running, run (system id).step (quiet (sampleDb [1, 2]))
      (.start 0 (.signIn (samplePerson 0 [])) :: List.replicate 8 (.advance 0)) = some S ∧
    ¬S.state.Administrator 1 ∧ ∃ u, S.state.Administrator u := by
  refine ⟨_, rfl, fun h => ?_, ?_⟩
  · cases h.2
  refine (@administrator_stays id (sampleDb [1, 2])
    (.start 0 (.signIn (samplePerson 0 [])) :: List.replicate 8 (.advance 0)) _
    (sampleDb_atRest (by decide) (by decide)) ⟨1, rfl, rfl⟩ ?_ rfl).1
  iterate 9
    refine stepsMeet_cons.mpr ⟨spares_of_two ⟨rfl, rfl⟩ ⟨rfl, rfl⟩ (by intro t v h; cases h), fun S hS => ?_⟩
    cases hS
  exact stepsMeet_nil

/-- **A sign-in takes the last Administrator**: the only one holds the role by their groups, which no longer name it. -/
theorem administrator_is_lost : ∃ (s : Db) (moves : List (Move ℕ Call Outside)) (S : Running),
    AtRest s ∧ (∃ u, s.Administrator u) ∧ run (system id).step (quiet s) moves = some S ∧
      ¬∃ u, S.state.Administrator u := by
  refine ⟨sampleDb [1], .start 0 (.signIn (samplePerson 0 [])) :: List.replicate 8 (.advance 0), _,
    sampleDb_atRest (by decide) (by decide), ⟨1, rfl, rfl⟩, rfl, ?_⟩
  rintro ⟨u, -, hu⟩
  -- the binding was revoked, and there is no other
  change (((sampleDb [1]).bindings.write 0 ⟨.user 1, "admin"⟩ none).commit 0 ⟨.user u, "admin"⟩).committed.isSome =
    true at hu
  by_cases h : u = 1
  · subst h
    cases hu
  have hkey : (⟨.user u, "admin"⟩ : BindingKey) ≠ ⟨.user 1, "admin"⟩ := by simp [h]
  rw [Cells.commit, write_of_ne hkey] at hu
  obtain ⟨b, hb⟩ := isSome_iff_exists.mp hu
  change ((sampleDb [1]).bindings _).committed = some b at hb
  have hmem := mem_of_table hb
  simp [h] at hmem

end OpenVibes.Store.ConsoleSso
