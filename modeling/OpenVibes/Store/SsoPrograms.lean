import OpenVibes.Store.SsoLocks

/-!
# The programs on people and roles keep their rules

* `Hand.Guarded` — what the console's own calls commit: whoever loses Administrator has been counted.
* `Hand.LetsIn` — what a sign-in has in hand when it lets a person in.
* `system_safe` — `Theory.System.Safe` for the whole system.
-/

namespace OpenVibes.Store.ConsoleSso

open Theory List Option Function Cells Cell

/-! ### What a call commits -/

structure Hand.Guarded (m : Hand) : Prop where
  users : ∀ u old new, m.users u = some (old, new) → old.any User.enabled = true →
    new.any User.enabled = true ∨ m.counted = some (.administrators u)
  bindings : ∀ u old new, m.bindings ⟨.user u, "admin"⟩ = some (old, new) →
    new.isSome = true ∨ m.counted = some (.administrators u)

/-- A sign-in has a new assertion, and an enabled user whose subject is the person's. -/
structure Hand.Ready (m : Hand) (p : Person) (u : ℕ) : Prop where
  seen : m.seen p.assertion = some (none, some p.assertionExpiresAt)
  user : ∃ old user, m.users u = some (old, some user) ∧ user.enabled = true
  link : m.links p.who = some (none, some u) ∨ m.links p.who = none ∧ m.known u p.who

/-- A sign-in lets a person in: it has counted a role of theirs, too. -/
structure Hand.LetsIn (m : Hand) (p : Person) (u : ℕ) : Prop extends Hand.Ready m p u where
  counted : m.counted = some (.roles u)

/-- The calls of the console itself, not of single sign-on. -/
def Call.guarded : Call → Bool
  | .signIn _ => false
  | .clean _ _ _ => false
  | _ => true

def Closes (call : Call) : End Answer → Hand → Prop
  | .rollback _, _ => True
  | .commit a, m => (call.guarded = true → m.Guarded) ∧
      ∀ p u g created, a = .signIn p (.allowed u g created) → call = .signIn p ∧ m.LetsIn p u

variable {m : Hand}

theorem Hand.Guarded.closes (h : m.Guarded) {call : Call} {a : Answer} (ha : ∀ p r, a ≠ .signIn p r) :
    Closes call (.commit a) m :=
  ⟨fun _ => h, fun p _ _ _ heq => absurd heq (ha p _)⟩

theorem Hand.guarded_of_bare (hux : m.users = fun _ => none) (hbnd : m.bindings = fun _ => none) :
    m.Guarded := by
  refine ⟨fun u old new h => ?_, fun u old new h => ?_⟩
  · rw [hux] at h
    cases h
  · rw [hbnd] at h
    cases h

theorem Hand.of_bare (hux : m.users = fun _ => none) (hbnd : m.bindings = fun _ => none) (u : ℕ) : m.Of u :=
  ⟨fun v h => absurd (congrFun hux v) h, fun _ _ h => absurd (congrFun hbnd _) h⟩

theorem Hand.Of.user {u : ℕ} (h : m.Of u) {m' : Hand} {row : Option (Option User × Option User)}
    (hux : m'.users = update m.users u row) (hbnd : m'.bindings = m.bindings) : m'.Of u := by
  refine ⟨fun v hv => ?_, fun v roleId hv => h.bindings v roleId (hbnd ▸ hv)⟩
  by_contra hne
  rw [hux, update_of_ne hne] at hv
  exact hne (h.users v hv)

theorem Hand.Of.binding {u : ℕ} (h : m.Of u) {k : BindingKey} (hk : ∀ v, k.principal = .user v → v = u)
    (row : Option (Option Binding × Option Binding)) :
    Hand.Of { m with bindings := update m.bindings k row } u := by
  refine ⟨h.users, fun v roleId hv => ?_⟩
  by_cases heq : (⟨.user v, roleId⟩ : BindingKey) = k
  · exact hk v (congrArg BindingKey.principal heq).symm
  · dsimp only at hv
    rw [update_of_ne heq] at hv
    exact h.bindings v roleId hv

/-! ### Hands after a write -/

section

variable {s : Db} {t : ℕ}

theorem hand_writeUser (u : ℕ) (new : Option User) (ids : List ℕ) (next : ℕ) :
    Db.hand t { s with users := s.users.write t u new, userIds := ids, nextId := next } = { s.hand t with
        users := update (s.hand t).users u (some ((s.users u).committed, new))
        known := update (s.hand t).known u fun who => (s.links who).Has (some u) } := by
  refine Hand.ext rfl (hand_write t u new s.users) rfl rfl rfl (funext fun j => ?_) rfl
  by_cases hj : j = u
  · subst hj
    dsimp only
    rw [update_self]
    funext who
    simp [Db.hand]
  · dsimp only
    rw [update_of_ne hj]
    funext who
    simp only [Db.hand]
    rw [write_of_ne hj]

theorem hand_writeBinding (k : BindingKey) (new : Option Binding) (keys : List BindingKey) (next : ℕ) :
    Db.hand t { s with bindings := s.bindings.write t k new, bindingKeys := keys, nextId := next } = { s.hand t with
        bindings := update (s.hand t).bindings k (some ((s.bindings k).committed, new)) } :=
  Hand.ext rfl rfl rfl (hand_write t k new s.bindings) rfl rfl rfl

theorem hand_count (c : Counted) :
    Db.hand t { s with counted := update s.counted t (some c) } = { s.hand t with counted := some c } :=
  Hand.ext rfl rfl rfl rfl rfl rfl (update_self ..)

end

/-! ### Statements -/

variable {u : ℕ} {k : BindingKey} {s : Db}

variable {Q : Unit → Hand → Prop}

section

variable {t : ℕ} {l : Hand}

/-- What a program of transaction `t` meets from the hand `l`. -/
abbrev Runs {α : Type} (t : ℕ) (Q : α → Hand → Prop) (p : Txn Db α) (l : Hand) : Prop :=
  p.Meets Valid (Db.hand t) (Acts t) Q l

theorem takeLock_meets (hQ : Q () { l with lock := some ((), ()) }) : Runs t Q (takeLock t) l := by
  refine .stmt fun s b s' hs hl hact => ?_
  split_ifs at hact with hfr
  cases hact
  refine ⟨.lock hfr, ?_⟩
  have hhn : Db.hand t { s with lock := s.lock.write t () } = { s.hand t with lock := some ((), ()) } :=
    Hand.ext (own_write_self t () s.lock) rfl rfl rfl rfl rfl rfl
  rw [hhn, hl]
  exact hQ

theorem updateUser_meets {cond : User → Bool} {f : User → User} {Q : Bool → Hand →
    Prop} (hof : l.Of u) (hno : Q false l)
    (hyes : ∀ old row K, Sees (l.users u) old row → cond row = true → (∀ who, l.known u who → K who) → Q true { l with
        users := update l.users u (some (old, some (f row))), known := update l.known u K }) :
    Runs t Q (updateUser t u cond f) l := by
  refine .stmt fun s b s' hs hl hact => ?_
  split at hact
  · cases hact
    exact ⟨.idle, hl ▸ hno⟩
  rename_i row hvw
  split_ifs at hact with hcd
  · cases hact
    exact ⟨.idle, hl ▸ hno⟩
  obtain ⟨hfr, heq⟩ := map_put_iff.mp hact
  cases heq
  subst hl
  refine ⟨.user _ s.userIds hfr le_rfl (hs.lt_of_has (hvw ▸ has_view t _)) hof, ?_⟩
  rw [hand_writeUser u _ s.userIds s.nextId]
  exact hyes _ row _ (sees_of_view hvw) (by simpa using hcd) fun who h => h.2

theorem insertBinding_meets {source : Source} {Q : Bool → Hand → Prop} (hof : ∀ u, k.principal = .user u → l.Of u)
    (hcnt : ∀ u, l.counted ≠ some (.roles u)) (hno : Q false l)
    (hyes : ∀ old b, Q true { l with bindings := update l.bindings k (some (old, some b)) }) :
    Runs t Q (insertBinding t k source) l := by
  refine .stmt fun s b s' hs hl hact => ?_
  split at hact
  · cases hact
    exact ⟨.idle, hl ▸ hno⟩
  obtain ⟨hfr, heq⟩ := map_put_iff.mp hact
  cases heq
  refine ⟨.binding _ (k :: s.bindingKeys) hfr (Nat.le_succ _) (by subst hl; exact hcnt) (by subst hl; exact hof), ?_⟩
  rw [hand_writeBinding, hl]
  exact hyes _ _

theorem endBinding_meets {b : Unit} {s' : Db} (hl : s.hand t = l) (hof : ∀ u, k.principal = .user u → l.Of u)
    (hcnt : ∀ u, l.counted ≠ some (.roles u))
    (hyes : ∀ old, Q () { l with bindings := update l.bindings k (some (old, none)) })
    (hact : ((s.bindings.put t k none).map fun bindings => ((), { s with bindings := bindings })) = some (b, s')) :
    Acts t s s' ∧ Q b (s'.hand t) := by
  obtain ⟨hfr, heq⟩ := map_put_iff.mp hact
  cases heq
  refine ⟨.binding none s.bindingKeys hfr le_rfl (by subst hl; exact hcnt) (by subst hl; exact hof), ?_⟩
  rw [hand_writeBinding k none s.bindingKeys s.nextId, hl]
  exact hyes _

theorem revokeBinding_meets {id : ℕ} (hof : ∀ u, k.principal = .user u → l.Of u)
    (hcnt : ∀ u, l.counted ≠ some (.roles u)) (hno : Q () l)
    (hyes : ∀ old, Q () { l with bindings := update l.bindings k (some (old, none)) }) :
    Runs t Q (revokeBinding t k id) l := by
  refine .stmt fun s b s' hs hl hact => ?_
  split at hact
  · cases hact
    exact ⟨.idle, hl ▸ hno⟩
  split_ifs at hact with hid
  · cases hact
    exact ⟨.idle, hl ▸ hno⟩
  · exact endBinding_meets hl hof hcnt hyes hact

theorem clearBinding_meets (hof : ∀ u, k.principal = .user u → l.Of u)
    (hcnt : ∀ u, l.counted ≠ some (.roles u)) (hno : Q () l)
    (hyes : ∀ old, Q () { l with bindings := update l.bindings k (some (old, none)) }) :
    Runs t Q (clearBinding t k) l := by
  refine .stmt fun s b s' hs hl hact => ?_
  split at hact
  · cases hact
    exact ⟨.idle, hl ▸ hno⟩
  · exact endBinding_meets hl hof hcnt hyes hact

end

/-! ### Administrators -/

variable {roleId : String}

section

variable {t : ℕ} {l : Hand} {p : Principal}

theorem isAdministrator_iff (hux : (s.hand t).users = fun _ => none)
    (hbnd : (s.hand t).bindings = fun _ => none) (u : ℕ) : s.isAdministrator t u = true ↔ s.Administrator u := by
  rw [Db.isAdministrator, view_of_none (congrFun hux u), view_of_none (congrFun hbnd _), Bool.and_eq_true]
  rfl

theorem holds_of_hand (h : (s.hand t).lock = some ((), ())) : s.lock.holds t = true := holds_iff.mpr ⟨_, h⟩

theorem exists_ne_of_two {us : List ℕ} {P : ℕ → Prop} (hP : ∀ u ∈ us, P u) (hnd : us.Nodup) (htwo : 2 ≤ us.length)
    (u : ℕ) : ∃ u', u' ≠ u ∧ P u' := by
  rw [← toFinset_card_of_nodup hnd] at htwo
  obtain ⟨u', hu', hne⟩ := Finset.exists_mem_ne htwo u
  exact ⟨u', hne, hP u' (mem_toFinset.mp hu')⟩

/-- **Counting Administrators** under the lock: with two of them, there is somebody else. -/
theorem countAdministrators_meets {target : Option ℕ} {Q : ℕ → Hand → Prop} (hlk : l.lock = some ((), ()))
    (hux : l.users = fun _ => none) (hbnd : l.bindings = fun _ => none) (hno : ∀ n ≤ 1, Q n l)
    (hyes : ∀ n, Q n (match target with
      | none => l
      | some u => { l with counted := some (.administrators u) })) :
    Runs t Q (countAdministrators t target) l := by
  refine .stmt fun s b s' hs hl hact => ?_
  cases hact
  subst hl
  split_ifs with htwo
  · cases target with
    | none => exact ⟨.idle, hyes _⟩
    | some u =>
      have hothe : ∃ u', u' ≠ u ∧ s.Administrator u' :=
        exists_ne_of_two (fun u' hu' => (isAdministrator_iff hux hbnd u').mp
          (mem_filter.mp (mem_dedup.mp hu')).2) (nodup_dedup _) htwo u
      refine ⟨.count (.administrators u) ⟨holds_of_hand hlk, .inr hothe⟩, ?_⟩
      change Q _ (Db.hand t { s with counted := update s.counted t (some (.administrators u)) })
      rw [hand_count]
      exact hyes _
  · exact ⟨.idle, hno _ (by omega)⟩

theorem giveRole_meets :
    Runs t (fun e => Closes (.giveRole p roleId) (e.map .gift)) (giveRole t p roleId) .nothing := by
  have hrs : Runs t (fun e => Closes (.giveRole p roleId) (e.map .gift))
      (do
        if ← .query fun s => (s.activeBinding t p roleId).isSome then pure (.rollback .alreadyHeld)
        else pure (.rollback .notFound) : Txn Db (End RoleGift)) { Hand.nothing with lock := some ((), ()) } := by
    refine .bind (.query (fun _ => .idle) fun s hs hl => ?_)
    split_ifs <;> trivial
  refine .bind (takeLock_meets (.bind (.bind (.query (fun _ => .idle) fun s hs hl => ?_))))
  split_ifs
  · refine insertBinding_meets (fun u _ => Hand.of_bare rfl rfl u) (nofun) hrs fun old b => ?_
    refine Hand.Guarded.closes ⟨fun u old' new h => (by cases h), fun u old' new h => ?_⟩ (nofun)
    obtain ⟨-, heq⟩ := single_cases h
    cases heq
    exact .inl rfl
  · exact hrs

theorem counts_losing {c : Counted} (hlk : (s.hand t).lock = some ((), ()))
    (hux : (s.hand t).users = fun _ => none) (h : losing p roleId (s.activeBinding t p roleId) = some c) :
    s.Counts t c := by
  unfold losing at h
  split at h
  · rename_i id hatv
    split_ifs at h
    cases p with
    | serviceAccount a => cases h
    | user u =>
      cases h
      refine ⟨holds_of_hand hlk, .inl fun hadm => ?_⟩
      obtain ⟨b, -, hb⟩ := map_eq_some_iff.mp hatv
      have hen := (Prod.mk.inj hb).2
      rw [Principal.user?, any_some, view_of_none (congrFun hux u), hadm.1] at hen
      cases hen
  · cases h

theorem removeRole_meets :
    Runs t (fun e => Closes (.removeRole p roleId) (e.map .revocation)) (removeRole t p roleId) .nothing := by
  -- the binding of an Administrator ends only if they have been counted
  have hrev : ∀ (l : Hand) (id : ℕ), l.users = (fun _ => none) → l.bindings = (fun _ => none) →
      (∀ u, l.counted ≠ some (.roles u)) → (∀ u, p = .user u → roleId = "admin" →
      l.counted = some (.administrators u)) →
      Runs t (fun e => Closes (.removeRole p roleId) (e.map .revocation))
        (do revokeBinding t ⟨p, roleId⟩ id; pure (.commit .revoked) : Txn Db (End BindingRevocation)) l := by
    intro l id hux hbnd hrls hcnt
    refine .bind (revokeBinding_meets (fun u _ => Hand.of_bare hux hbnd u) hrls ((Hand.guarded_of_bare hux hbnd).closes
      nofun) fun old => ?_)
    refine Hand.Guarded.closes ⟨fun u old' new h => ?_, fun u old' new h => ?_⟩ (nofun)
    · rw [hux] at h
      cases h
    rw [hbnd] at h
    obtain ⟨hk, -⟩ := single_cases h
    obtain ⟨hp, hrl⟩ := BindingKey.mk.inj hk
    exact .inr (hcnt u hp.symm hrl.symm)
  refine .bind (takeLock_meets (.bind (.stmt fun s b s' hs hl hact => ?_)))
  cases hact
  have hux : (s.hand t).users = fun _ => none := by rw [hl]; rfl
  have hbnd : (s.hand t).bindings = fun _ => none := by rw [hl]; rfl
  have hlk : (s.hand t).lock = some ((), ()) := by rw [hl]
  have hrls : ∀ u, (s.hand t).counted ≠ some (.roles u) := fun u h => by rw [hl] at h; cases h
  have hrls' : ∀ u' u, (some (Counted.administrators u') : Option Counted) ≠ some (.roles u) := nofun
  have hhn : (s.count t (losing p roleId (s.activeBinding t p roleId))).hand t =
      (losing p roleId (s.activeBinding t p roleId)).elim (s.hand t) fun c => { s.hand t with counted := some c } := by
    cases losing p roleId (s.activeBinding t p roleId) with
    | none => rfl
    | some c => exact hand_count c
  refine ⟨?_, ?_⟩
  · cases hlos : losing p roleId (s.activeBinding t p roleId) with
    | none => exact .idle
    | some c => exact .count c (counts_losing hlk hux hlos)
  rw [hhn]
  cases hatv : s.activeBinding t p roleId with
  | none => trivial
  | some b =>
    obtain ⟨id, enabledUser⟩ := b
    cases enabledUser with
    | true =>
      simp only [losing]
      by_cases hrl : roleId = "admin"
      · rw [decide_eq_true hrl]
        refine .bind (countAdministrators_meets hlk hux hbnd (fun n hn => ?_) fun n => ?_)
        · rw [if_pos hn]
          trivial
        split_ifs
        · trivial
        · cases p with
          | serviceAccount a => exact hrev _ id hux hbnd hrls nofun
          | user u => exact hrev _ id hux hbnd (hrls' u) fun u' hp _ => by cases hp; rfl
      · rw [decide_eq_false hrl]
        exact hrev _ id hux hbnd hrls fun u _ h => absurd h hrl
    | false =>
      simp only [losing, Bool.and_false]
      by_cases hrl : roleId = "admin"
      · rw [if_pos hrl]
        cases p with
        | serviceAccount a => exact hrev _ id hux hbnd hrls nofun
        | user u => exact hrev _ id hux hbnd (hrls' u) fun u' hp _ => by cases hp; rfl
      · rw [if_neg hrl]
        exact hrev _ id hux hbnd hrls fun u _ h => absurd h hrl

theorem disableLocalUser_meets :
    Runs t (fun e => Closes (.disableLocalUser u) (e.map .disable)) (disableLocalUser t u) .nothing := by
  have hdis : ∀ l : Hand, l.users = (fun _ => none) → l.bindings = (fun _ => none) →
      l.counted = some (.administrators u) → Runs t (fun e => Closes (.disableLocalUser u) (e.map .disable))
        (disableUser t u) l := fun l hux hbnd hcnt => by
    refine .bind (updateUser_meets (Hand.of_bare hux hbnd u) trivial fun old row K hss _ _ => ?_)
    refine Hand.Guarded.closes ⟨fun u' old' new h _ => ?_, fun u' old' new h => ?_⟩ (nofun)
    · rw [hux] at h
      obtain ⟨rfl, -⟩ := single_cases h
      exact .inr hcnt
    · rw [hbnd] at h
      cases h
  refine .bind (takeLock_meets (.bind (.stmt fun s b s' hs hl hact => ?_)))
  cases hact
  have hux : (s.hand t).users = fun _ => none := by rw [hl]; rfl
  have hbnd : (s.hand t).bindings = fun _ => none := by rw [hl]; rfl
  have hlk : (s.hand t).lock = some ((), ()) := by rw [hl]
  cases hadm : s.isAdministrator t u with
  | true =>
    refine ⟨.idle, ?_⟩
    refine .bind (countAdministrators_meets hlk hux hbnd (fun n hn => ?_) fun n => ?_)
    · rw [if_pos hn]
      trivial
    by_cases hn : n ≤ 1
    · rw [if_pos hn]
      trivial
    · rw [if_neg hn]
      exact hdis _ hux hbnd rfl
  | false =>
    have hnot : ¬s.Administrator u := fun h => by
      rw [(isAdministrator_iff hux hbnd u).mpr h] at hadm
      cases hadm
    refine ⟨.count _ ⟨holds_of_hand hlk, .inl hnot⟩, ?_⟩
    change (disableUser t u).Meets _ _ _ _ (Db.hand t { s with
      counted := update s.counted t (some (.administrators u)) })
    rw [hand_count]
    exact hdis _ hux hbnd rfl

theorem enableUser_meets : Runs t (fun e => Closes (.enableUser u) (e.map .updated)) (enableUser t u) .nothing := by
  refine .bind (updateUser_meets (Hand.of_bare rfl rfl u) trivial fun old row K hss _ _ => ?_)
  refine Hand.Guarded.closes ⟨fun u' old' new h _ => ?_, fun u' old' new h => (by cases h)⟩ (nofun)
  obtain ⟨-, heq⟩ := single_cases h
  cases heq
  exact .inl rfl

end

/-! ### Requests -/

variable {now : ℤ}

section

variable {t : ℕ} {l : Hand}

theorem forgetRequests_meets (hQ : Q () l) : Runs t Q (forgetRequests now) l := by
  refine .stmt fun s b s' hs hl hact => ?_
  cases hact
  subst hl
  exact ⟨.forgetRequests now, hQ⟩

theorem forgetSeen_meets (hQ : Q () l) : Runs t Q (forgetSeen now) l := by
  refine .stmt fun s b s' hs hl hact => ?_
  cases hact
  refine ⟨.forgetSeen now, ?_⟩
  rw [hand_forgetSeen, hl]
  exact hQ

theorem startRequest_meets {n : NewRequest} :
    Runs t (fun e => Closes (.startRequest n) (e.map .start)) (startRequest n) .nothing := by
  have hbr : ∀ a : Start, Closes (.startRequest n) (.commit (.start a)) .nothing := fun a =>
    (Hand.guarded_of_bare rfl rfl).closes nofun
  refine .bind (forgetRequests_meets (.bind (forgetSeen_meets (.bind (.query (fun _ => .idle) fun s hs hl => ?_)))))
  split_ifs
  · exact hbr .refused
  refine .bind (.stmt fun s b s' hs hl hact => ?_)
  split at hact
  · cases hact
    exact ⟨.idle, trivial⟩
  rename_i hnn
  cases hact
  refine ⟨.start n _ hnn, ?_⟩
  change Closes (.startRequest n) (.commit (.start .started)) (s.hand t)
  rw [hl]
  exact hbr .started

theorem takeRequest_meets {relay browser : ℕ} :
    Runs t (fun r => Closes (.takeRequest relay browser now) (.commit (.taken r)))
      (takeRequest relay browser now) .nothing := by
  have hbr : ∀ r, Closes (.takeRequest relay browser now) (.commit (.taken r)) .nothing := fun r =>
    (Hand.guarded_of_bare rfl rfl).closes nofun
  refine .stmt fun s b s' hs hl hact => ?_
  split at hact
  · cases hact
    exact ⟨.idle, hl ▸ hbr none⟩
  rename_i r hrow
  split_ifs at hact with htakeable
  · cases hact
    refine ⟨.take browser now hrow htakeable, ?_⟩
    change Closes _ _ (s.hand t)
    rw [hl]
    exact hbr _
  · cases hact
    exact ⟨.idle, hl ▸ hbr none⟩

end

/-! ### Signing in -/

variable {who : Subject} {p : Person}

variable {wanted : List String} {g pages : ℕ} {created : Bool} {cutoff : ℤ}

section

variable {t : ℕ} {l : Hand} {Q : Bool → Hand → Prop}

theorem insertSeen_meets {a : Assertion} {expiresAt : ℤ} (hnn : l.seen a = none)
    (hno : Q false l) (hyes : Q true { l with seen := update l.seen a (some (none, some expiresAt)) }) :
    Runs t Q (insertSeen t a expiresAt) l := by
  refine .stmt fun s b s' hs hl hact => ?_
  split at hact
  · cases hact
    exact ⟨.idle, hl ▸ hno⟩
  rename_i hvw
  obtain ⟨hfr, heq⟩ := map_put_iff.mp hact
  cases heq
  refine ⟨.seen expiresAt hfr hvw, ?_⟩
  have hcom : (s.seen a).committed = none := by
    rw [← view_of_none ((congrFun (congrArg Hand.seen hl) a).trans hnn), hvw]
  have hhn : Db.hand t { s with seen := s.seen.write t a (some expiresAt) } =
      { s.hand t with seen := update (s.hand t).seen a (some ((s.seen a).committed, some expiresAt)) } :=
    Hand.ext rfl rfl rfl rfl (hand_write t a (some expiresAt) s.seen) rfl rfl
  rw [hhn, hl, hcom]
  exact hyes

theorem existingUser_meets {Q : Option (ℕ × User) → Hand → Prop} (hof : ∀ u, l.Of u) (hno : Q none l)
    (hyes : ∀ u old user K, K who → Q (some (u, user)) { l with
      users := update l.users u (some (old, some user)), known := update l.known u K }) :
    Runs t Q (existingUser t who) l := by
  refine .stmt fun s b s' hs hl hact => ?_
  split at hact
  · cases hact
    exact ⟨.idle, hl ▸ hno⟩
  rename_i u hln
  obtain ⟨⟨row, users⟩, hlk, heq⟩ := map_eq_some_iff.mp hact
  cases heq
  obtain ⟨hvw, ⟨rfl, rfl⟩ | ⟨hrow, hfr, rfl⟩⟩ := lock_eq_some_iff.mp hlk
  · exact ⟨.idle, hl ▸ hno⟩
  obtain ⟨user, rfl⟩ := ne_none_iff_exists'.mp hrow
  refine ⟨.user _ s.userIds hfr le_rfl (hs.lt_of_has (hvw ▸ has_view t _)) (hl ▸ hof u), ?_⟩
  rw [hand_writeUser u _ s.userIds s.nextId, hl]
  exact hyes u _ user _ (hln ▸ has_view t _)

theorem insertUser_meets {Q : ℕ → Hand → Prop} (hof : ∀ u, l.Of u) (hyes : ∀ u old user, user.enabled = true →
    Q u { l with
      users := update l.users u (some (old, some user))
      known := update l.known u fun _ => False }) : Runs t Q (insertUser t p) l := by
  refine .stmt fun s b s' hs hl hact => ?_
  obtain ⟨hfr, heq⟩ := map_put_iff.mp hact
  cases heq
  refine ⟨.user _ (s.nextId :: s.userIds) hfr (Nat.le_succ _) (Nat.lt_succ_self _) (hl ▸ hof _), ?_⟩
  have hnn : (fun who => (s.links who).Has (some s.nextId)) = fun _ => False := funext fun who =>
    eq_false fun h => (hs.ids who _ h).false
  rw [hand_writeUser, hnn, hl]
  exact hyes _ _ _ rfl

theorem insertLink_meets (hnn : l.links who = none) (hu : (l.users u).isSome = true)
    (hkn : ∀ who', ¬l.known u who') (hno : Q false l)
    (hyes : ∀ K, Q true { l with links := update l.links who (some (none, some u)), known := K }) :
    Runs t Q (insertLink t u who) l := by
  refine .stmt fun s b s' hs hl hact => ?_
  subst hl
  split at hact
  · cases hact
    exact ⟨.idle, hno⟩
  rename_i hvw
  obtain ⟨hfr, heq⟩ := map_put_iff.mp hact
  cases heq
  have hhld : (s.users u).holds t = true := holds_iff.mpr (isSome_iff_exists.mp hu)
  have hcom : (s.links who).committed = none := by rw [← view_of_none hnn, hvw]
  obtain ⟨q, hq⟩ := holds_iff.mp hhld
  refine ⟨.link _ hfr (fun u' h => ?_) (fun u' h => ?_), ?_⟩
  · rcases h with h | h
    · rw [hcom] at h
      cases h
    · exact some.inj h ▸ hhld
  · cases h
    refine ⟨hs.users u (.inr ?_), fun who' hhas => absurd ⟨hhld, hhas⟩ (hkn who')⟩
    rw [(own_iff.mp hq).2]
    rfl
  have hlks := hand_write t who (some u) s.links
  rw [hcom] at hlks
  have hhn := hyes (Db.hand t { s with
    links := s.links.write t who (some u), subjects := who :: s.subjects }).known
  convert hhn using 1
  exact Hand.ext rfl rfl hlks rfl rfl rfl rfl

theorem syncRoles_meets (hof : l.Of u) (hcnt : ∀ u, l.counted ≠ some (.roles u))
    (hQ : ∀ ok bindings, Q ok { l with bindings := bindings }) : Runs t Q (syncRoles t u wanted) l := by
  have hkey : ∀ {m : Hand} (roleId : String), m.Of u → ∀ v, (⟨.user u, roleId⟩ : BindingKey).principal = .user v →
      m.Of v := fun roleId hm v h => Principal.user.inj h ▸ hm
  have hsf : ∀ (roleId : String) (v : ℕ), (⟨.user u, roleId⟩ : BindingKey).principal = .user v → v = u :=
    fun roleId v h => (Principal.user.inj h).symm
  refine .bind (.query (fun _ => .idle) fun s hs hl => ?_)
  have hl₀ : ∃ bindings, l = { l with bindings := bindings } ∧ l.Of u := ⟨l.bindings, rfl, hof⟩
  refine (Txn.Meets.foldlM (J := fun _ _ m => ∃ bindings, m = { l with bindings := bindings } ∧ m.Of u)
    (fun c rest _ m hm => ?_) hl₀).seq fun _ m hm => ?_
  · obtain ⟨bindings, rfl, hm⟩ := hm
    split_ifs
    · exact ⟨bindings, rfl, hm⟩
    · exact revokeBinding_meets (hkey c.2 hm) hcnt ⟨bindings, rfl, hm⟩ fun old => ⟨_, rfl, hm.binding (hsf c.2) _⟩
  refine (Txn.Meets.foldlM (J := fun _ _ m => ∃ bindings, m = { l with bindings := bindings } ∧ m.Of u)
    (fun roleId rest ok m hm => ?_) hm).imp fun ok m hm => ?_
  · obtain ⟨bindings, rfl, hm⟩ := hm
    split_ifs
    · exact ⟨bindings, rfl, hm⟩
    refine .bind (.query (fun _ => .idle) fun s hs hl => ?_)
    split_ifs
    · exact ⟨bindings, rfl, hm⟩
    · exact insertBinding_meets (hkey roleId hm) hcnt ⟨bindings, rfl, hm⟩ fun old b =>
        ⟨_, rfl, hm.binding (hsf roleId) _⟩
  · obtain ⟨bindings, rfl, -⟩ := hm
    exact hQ ok bindings

theorem countRoles_meets {Q : ℕ → Hand → Prop} (hno : Q 0 l) (hyes : ∀ n, Q n { l with counted := some (.roles u) }) :
    Runs t Q (countRoles t u) l := by
  refine .stmt fun s b s' hs hl hact => ?_
  cases hact
  split_ifs with hnil
  · rw [hnil]
    exact ⟨.idle, hl ▸ hno⟩
  obtain ⟨k, hk⟩ := exists_mem_of_ne_nil _ hnil
  have hmem := (mem_filter.mp (mem_dedup.mp hk)).2
  rw [Bool.and_eq_true] at hmem
  refine ⟨.count (.roles u) ⟨k, of_decide_eq_true hmem.1, hmem.2⟩, ?_⟩
  change Q _ (Db.hand t { s with counted := update s.counted t (some (.roles u)) })
  rw [hand_count, hl]
  exact hyes _

theorem Hand.LetsIn.closes (h : m.LetsIn p u) : Closes (.signIn p) (.commit (.signIn p (.allowed u g created))) m := by
  refine ⟨nofun, fun p' u' g' created' heq => ?_⟩
  obtain ⟨rfl, halw⟩ := Answer.signIn.inj heq
  obtain ⟨rfl, -, -⟩ := SignIn.allowed.inj halw
  exact ⟨rfl, h⟩

theorem finishSignIn_meets (hl : l.Ready p u) (hof : l.Of u) (hcnt : l.counted = none) :
    Runs t (fun e => Closes (.signIn p) (e.map (.signIn p))) (finishSignIn t u g created wanted) l := by
  have hnoRole : ∀ m, Closes (.signIn p) (.commit (.signIn p .noRole)) m := fun m =>
    ⟨nofun, fun p' u' g' created' heq => by cases (Answer.signIn.inj heq).2⟩
  refine .bind (syncRoles_meets hof (fun u h => by rw [hcnt] at h; cases h) fun ok bindings => ?_)
  split_ifs
  · trivial
  refine .bind (countRoles_meets (hnoRole _) fun n => ?_)
  split_ifs
  · exact hnoRole _
  · exact Hand.LetsIn.closes ⟨⟨hl.seen, hl.user, hl.link⟩, rfl⟩

theorem signIn_meets {lower : String → String} :
    Runs t (fun e => Closes (.signIn p) (e.map (.signIn p))) (signIn lower t p) .nothing := by
  refine .bind (insertSeen_meets rfl trivial ?_)
  refine .bind (.query (fun _ => .idle) fun s hs hl => ?_)
  refine .bind (existingUser_meets (Hand.of_bare rfl rfl) ?_ fun u old user K hK => ?_)
  · -- a new person
    split_ifs
    · trivial
    refine .bind (insertUser_meets (Hand.of_bare rfl rfl) fun u old user hen => ?_)
    refine .bind (insertLink_meets rfl (by simp) (fun who' h => ?_) trivial fun K => ?_)
    · dsimp only at h
      rw [update_self] at h
      exact h
    · exact finishSignIn_meets ⟨update_self .., ⟨old, user, update_self .., hen⟩, .inl (update_self ..)⟩
        ((Hand.of_bare (m := .nothing) rfl rfl u).user rfl rfl) rfl
  dsimp only
  split_ifs with hen
  · trivial
  have hrow : user.enabled = true := by simpa using hen
  have hof : ∀ {m : Hand}, m.users = update Hand.nothing.users u (some (old, some user)) →
      m.bindings = Hand.nothing.bindings → m.Of u := fun hux hbnd => (Hand.of_bare rfl rfl u).user hux hbnd
  refine .bind (updateUser_meets (hof rfl rfl) ?_ fun old' row K' hss _ hkps => ?_)
  · refine finishSignIn_meets ⟨update_self .., ⟨old, user, update_self .., hrow⟩, .inr ⟨rfl, ?_⟩⟩ (hof rfl rfl) rfl
    dsimp only
    rw [update_self]
    exact hK
  dsimp only at hss hkps
  rw [update_self] at hss hkps
  obtain ⟨hnn, -⟩ | hown := hss
  · cases hnn
  obtain ⟨rfl, hrow'⟩ := Prod.mk.inj (some.inj hown)
  cases hrow'
  refine finishSignIn_meets ⟨update_self .., ⟨old, _, update_self .., hrow⟩, .inr ⟨rfl, ?_⟩⟩
    ((hof (m := { Hand.nothing with users := update Hand.nothing.users u (some (old, some user)) }) rfl rfl).user
      rfl rfl) rfl
  dsimp only
  rw [update_self]
  exact hkps _ hK

end

/-! ### The daily cleanup -/

section

variable {t : ℕ} {l : Hand}

theorem clearBindings_meets (hof : l.Of u) (hl : l.counted = none) :
    Runs t (fun _ m => m.counted = none) (clearBindings t u) l := by
  refine .bind (.query (fun _ => .idle) fun s hs _ => ?_)
  have hky : ∀ k ∈ s.bindingsOf t u, k.principal = .user u := fun k hk =>
    of_decide_eq_true (Bool.and_eq_true_iff.mp (mem_filter.mp (mem_dedup.mp hk)).2).1
  refine (Txn.Meets.foldlM (J := fun rest _ (m : Hand) => (∀ k ∈ rest, k.principal = .user u) ∧ m.Of u ∧
    m.counted = none) (fun k rest _ m hm => ?_) ⟨hky, hof, hl⟩).imp fun _ m hm => hm.2.2
  obtain ⟨hk, hof, hm⟩ := hm
  obtain ⟨hk, hrs⟩ := forall_mem_cons.mp hk
  refine clearBinding_meets (fun v h => ?_) (fun u h => by rw [hm] at h; cases h) ⟨hrs, hof, hm⟩ fun old =>
    ⟨hrs, hof.binding (fun v h => ?_) _, hm⟩
  · exact Principal.user.inj (hk.symm.trans h) ▸ hof
  · exact Principal.user.inj (h.symm.trans hk)

theorem deleteLink_meets (hu : (l.users u).isSome = true) (hof : l.Of u) (hl : l.counted = none) :
    Runs t (fun _ m => (m.users u).isSome = true ∧ m.Of u ∧ m.counted = none) (deleteLink t u who) l := by
  refine .stmt fun s b s' hs hhn hact => ?_
  subst hhn
  split_ifs at hact with hvw
  · obtain ⟨hfr, heq⟩ := map_put_iff.mp hact
    cases heq
    refine ⟨.link s.subjects hfr (fun u' h => ?_) (nofun), hu, ⟨hof.users, hof.bindings⟩, hl⟩
    have hcom := h.resolve_right nofun
    cases hown : (s.links who).own t with
    | none =>
      rw [view_of_none hown, hcom] at hvw
      cases hvw
      exact holds_iff.mpr (isSome_iff_exists.mp hu)
    | some p => exact hs.links who t p.2 (own_iff.mp hown).2 u' (.inl hcom)
  · cases hact
    exact ⟨.idle, hu, hof, hl⟩

theorem deleteUser_meets (hu : (l.users u).isSome = true) (hof : l.Of u) (hcnt : l.counted = none) :
    Runs t (fun _ m => m.counted = none) (deleteUser t u) l := by
  refine .bind (.stmt fun s b s' hs hl hact => ?_)
  subst hl
  obtain ⟨hfr, heq⟩ := map_put_iff.mp hact
  cases heq
  obtain ⟨q, hq⟩ := isSome_iff_exists.mp hu
  refine ⟨.user none s.userIds hfr le_rfl (hs.users u (.inr ?_)) hof, ?_⟩
  · rw [(own_iff.mp hq).2]
    rfl
  refine .bind (.query (fun _ => .idle) fun s₁ hs₁ hl₁ => ?_)
  refine (Txn.Meets.foldlM (J := fun _ _ m => (m.users u).isSome = true ∧ m.Of u ∧ m.counted = none)
    (fun who rest _ m hm => deleteLink_meets hm.1 hm.2.1 hm.2.2) ?_).seq fun _ m hm => clearBindings_meets hm.2.1 hm.2.2
  rw [hand_writeUser u none s.userIds s.nextId]
  exact ⟨by simp, hof.user rfl rfl, hcnt⟩

theorem commitNow_meets (hQ : Q () .nothing) : Runs t Q (commitNow t) l := by
  refine .stmt fun s b s' hs hl hact => ?_
  cases hact
  refine ⟨.commit, ?_⟩
  rw [(ends_commit t s).hand_self]
  exact hQ

theorem abortNow_meets (hQ : Q () .nothing) : Runs t Q (abortNow t) l := by
  refine .stmt fun s b s' hs hl hact => ?_
  cases hact
  refine ⟨.abort, ?_⟩
  rw [(ends_abort t s).hand_self]
  exact hQ

theorem cleanUser_meets : Runs t (fun _ m => m = .nothing) (cleanUser t u cutoff) .nothing := by
  have hof : Hand.nothing.Of u := Hand.of_bare rfl rfl u
  refine .bind (.stmt fun s b s' hs hl hact => ?_)
  split_ifs at hact with hidl
  · obtain ⟨⟨row, users⟩, hlk, heq⟩ := map_eq_some_iff.mp hact
    cases heq
    obtain ⟨hvw, ⟨rfl, rfl⟩ | ⟨hrow, hfr, rfl⟩⟩ := lock_eq_some_iff.mp hlk
    · rw [hvw] at hidl
      cases hidl
    obtain ⟨user, rfl⟩ := ne_none_iff_exists'.mp hrow
    refine ⟨.user _ s.userIds hfr le_rfl (hs.lt_of_has (hvw ▸ has_view t _)) (hl ▸ hof), ?_⟩
    rw [hand_writeUser u _ s.userIds s.nextId, hl]
    refine .bind (.query (fun _ => .idle) fun s₁ hs₁ hl₁ => ?_)
    split_ifs
    · exact .bind (abortNow_meets ((clearBindings_meets hof rfl).seq fun _ m _ => commitNow_meets rfl))
    · refine (deleteUser_meets ?_ ?_ rfl).seq fun _ m _ =>
        commitNow_meets (Q := fun _ m => m = .nothing) rfl
      · simp
      · exact hof.user rfl rfl
  · cases hact
    exact ⟨.idle, abortNow_meets rfl⟩

theorem cleanPages_meets {after : Option ℕ} :
    Runs t (fun _ m => m = .nothing) (cleanPages t cutoff pages after) .nothing := by
  induction pages generalizing after with
  | zero => rfl
  | succ pages ih =>
    refine .bind (.query (fun _ => .idle) fun s hs hl => ?_)
    cases (s.idlePage t cutoff after).getLast? with
    | none => rfl
    | some last =>
      refine (Txn.Meets.foldlM (J := fun _ _ (m : Hand) => m = .nothing) (fun u rest _ m hm => ?_) rfl).seq
        fun _ m hm => ?_
      · subst hm
        exact cleanUser_meets
      · subst hm
        exact ih

theorem clean_meets {inactiveDays : ℤ} :
    Runs t (fun _ m => m = .nothing) (clean t pages inactiveDays now) .nothing :=
  .bind (forgetRequests_meets (.bind (forgetSeen_meets cleanPages_meets)))

end

/-! ### The system -/

theorem system_safe (lower : String → String) : (system lower).Safe Valid Db.hand .nothing Acts fun _ => Closes where
  start t call := by
    cases call with
    | giveRole p roleId => exact .bind giveRole_meets
    | removeRole p roleId => exact .bind removeRole_meets
    | disableLocalUser u => exact .bind disableLocalUser_meets
    | enableUser u => exact .bind enableUser_meets
    | startRequest n => exact .bind startRequest_meets
    | takeRequest relay browser now => exact .bind takeRequest_meets
    | signIn p => exact .bind signIn_meets
    | clean pages inactiveDays now =>
      exact clean_meets.seq fun _ m _ => ⟨nofun, nofun⟩
  keeps t s s' hs hac := hs.acts hac
  others t r s s' hr hs hac := hs.hand_acts hac hr
  close t call e s hs hcls := by
    cases e with
    | commit a =>
      obtain ⟨hval, hoth, hsf⟩ := hs.closed (ends_commit t s)
      exact ⟨hval.record a, fun r hr => (hand_record a).trans (hoth r hr), (hand_record a).trans hsf⟩
    | rollback a => exact hs.closed (ends_abort t s)
  abort t s hs := hs.closed (ends_abort t s)
  effect op s s' hs h := hs.outside h

/-! ### Runs -/

abbrev Running := Sessions ℕ Call Db (End Answer)

/-- A state that a schedule can reach: programs keep their rules from where they stand. -/
abbrev Reached (S : Running) : Prop := System.Sound Valid Db.hand .nothing Acts (fun _ => Closes) S

structure AtRest (s : Db) : Prop where
  lock : s.lock.held = none
  users : ∀ u, (s.users u).held = none
  links : ∀ who, (s.links who).held = none
  bindings : ∀ k, (s.bindings k).held = none
  seen : ∀ a, (s.seen a).held = none
  counted : ∀ t, s.counted t = none
  ids : ∀ u, (s.users u).committed.isSome → u < s.nextId
  user : ∀ who u, (s.links who).committed = some u → (s.users u).committed.isSome
  one : ∀ who who' u, (s.links who).committed = some u → (s.links who').committed = some u → who' = who

theorem AtRest.committed_of_has (h : AtRest s) {v : Option ℕ} (hhas : (s.links who).Has v) :
    (s.links who).committed = v := by
  rcases hhas with hv | ⟨t, ht⟩
  · exact hv
  · rw [h.links who] at ht
    cases ht

theorem AtRest.valid (h : AtRest s) : Valid s where
  users u hu := h.ids u (hu.resolve_right fun hhd => by rw [h.users u] at hhd; cases hhd)
  ids who u hu := h.ids u (h.user who u (h.committed_of_has hu))
  one who who' u hu hu' := h.one who who' u (h.committed_of_has hu) (h.committed_of_has hu')
  links who t v hv := by rw [h.links who] at hv; cases hv
  counted t u ht := by rw [h.counted t] at ht; cases ht

theorem AtRest.hand (h : AtRest s) (t : ℕ) : s.hand t = .nothing := by
  refine Hand.ext (own_of_held_none h.lock) (funext fun u => own_of_held_none (h.users u))
    (funext fun who => own_of_held_none (h.links who)) (funext fun k => own_of_held_none (h.bindings k))
    (funext fun a => own_of_held_none (h.seen a)) (funext fun u => funext fun who => eq_false fun hk => ?_)
    (h.counted t)
  obtain ⟨p, hp⟩ := holds_iff.mp hk.1
  rw [own_of_held_none (h.users u)] at hp
  cases hp

theorem AtRest.reached (h : AtRest s) : Reached (Sessions.quiet s) := System.sound_quiet h.valid h.hand

/-! ### A database to start from -/

def table {κ ν : Type} [DecidableEq κ] (rows : List (κ × ν)) : Cells ℕ κ (Option ν) := fun k =>
  .settled ((rows.find? fun r => r.1 = k).map Prod.snd)

theorem mem_of_table {κ ν : Type} [DecidableEq κ] {rows : List (κ × ν)} {k : κ} {v : ν}
    (h : (table rows k).committed = some v) : (k, v) ∈ rows := by
  obtain ⟨⟨k', v'⟩, hfi, rfl⟩ := map_eq_some_iff.mp h
  have hk := find?_some hfi
  obtain rfl : k' = k := of_decide_eq_true hk
  exact mem_of_find?_eq_some hfi

/-- People who are Administrators by their groups, the first of them with a subject. -/
def sampleDb (people : List ℕ) : Db where
  lock := .settled ()
  users := table (people.map fun u => (u, ⟨true, 0, "Alice", none, 0, none⟩))
  links := table [(⟨"idp", "alice"⟩, 1)]
  bindings := table (people.map fun u => (⟨.user u, "admin"⟩, ⟨u, .sso⟩))
  seen := fun _ => .settled none
  requests := fun _ => none
  roles := [⟨"admin", "administrator"⟩]
  serviceAccounts := []
  referenced := fun _ => true
  userIds := people
  subjects := [⟨"idp", "alice"⟩]
  bindingKeys := people.map fun u => ⟨.user u, "admin"⟩
  relays := []
  nextId := 10
  counted := fun _ => none
  log := []

def samplePerson (now : ℤ) (groups : List String) : Person :=
  ⟨"idp", "alice", "Alice", none, "a", rememberUntil now, groups, now⟩

theorem sampleDb_atRest {people : List ℕ} (hids : ∀ u ∈ people, u < 10)
    (hone : ((table (people.map fun u => (u, (⟨true, 0, "Alice", none, 0, none⟩ : User))) 1).committed).isSome = true) :
    AtRest (sampleDb people) where
  lock := rfl
  users _ := rfl
  links _ := rfl
  bindings _ := rfl
  seen _ := rfl
  counted _ := rfl
  ids u h := by
    obtain ⟨user, hus⟩ := isSome_iff_exists.mp h
    obtain ⟨u', hu', heq⟩ := mem_map.mp (mem_of_table hus)
    exact (Prod.mk.inj heq).1 ▸ hids u' hu'
  user who u h := by
    have hmem := mem_singleton.mp (mem_of_table h)
    rw [(Prod.mk.inj hmem).2]
    exact hone
  one who who' u h h' := by
    have hmem := mem_singleton.mp (mem_of_table h)
    have hmem' := mem_singleton.mp (mem_of_table h')
    exact (Prod.mk.inj hmem').1.trans (Prod.mk.inj hmem).1.symm

end OpenVibes.Store.ConsoleSso
