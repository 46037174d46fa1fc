import OpenVibes.Store.SsoPrograms

/-!
# What a sign-in does to a person's bindings

`sign_in` of `Store.ConsoleSso` on its own: afterwards the bindings of the identity provider are the wanted ones that
are not held by hand, and those by hand are as they were (`Synced`).
-/

namespace OpenVibes.Store.ConsoleSso

open Theory List Option Function

/-! ### A program on its own -/

/-- The program, with no other between its statements, returns with `Q`. -/
abbrev Alone {α : Type} (p : Txn Db α) (Q : α → Db → Prop) (s : Db) : Prop :=
  p.Meets (fun _ => True) id (fun _ _ => True) Q s

section

variable {α : Type} {s : Db} {Q : α → Db → Prop}

theorem alone_stmt {act : Db → Option (α × Db)} (h : ∀ a s', act s = some (a, s') → Q a s') :
    Alone (.stmt act) Q s := by
  intro s₀ a s' _ hs hact
  subst hs
  exact ⟨trivial, h a s' hact⟩

theorem alone_query {q : Db → α} (h : Q (q s) s) : Alone (.query q) Q s := by
  refine .query (fun _ => trivial) fun s₀ _ hs => ?_
  subst hs
  exact h

end

def Db.bound (s : Db) (t : ℕ) (k : BindingKey) : Option Binding := (s.bindings k).view t

def Db.Lists (s : Db) (t : ℕ) : Prop := ∀ k, (s.bound t k).isSome = true → k ∈ s.bindingKeys

variable {s : Db}

theorem bound_write {t : ℕ} (k : BindingKey) (new : Option Binding) (keys : List BindingKey) (next : ℕ) :
    Db.bound { s with bindings := s.bindings.write t k new, bindingKeys := keys, nextId := next } t =
      update (s.bound t) k new := by
  funext j
  by_cases hj : j = k
  · subst hj
    simp [Db.bound]
  · rw [update_of_ne hj]
    simp only [Db.bound]
    rw [Cells.write_of_ne hj]

/-! ### The two loops -/

structure Synced (before : BindingKey → Option Binding) (u : ℕ) (wanted : List String)
    (after : BindingKey → Option Binding) : Prop where
  sso : ∀ roleId, (∃ b, after ⟨.user u, roleId⟩ = some b ∧ b.source = .sso) ↔
    roleId ∈ wanted ∧ ¬∃ b, before ⟨.user u, roleId⟩ = some b ∧ b.source = .manual
  manual : ∀ k b, b.source = .manual → (after k = some b ↔ before k = some b)

variable {k : BindingKey} {c : ℕ × String} {rest : List (ℕ × String)} {r : String} {who : Subject} {p : Person}

section

variable {t u : ℕ} {wanted : List String} {before now : BindingKey → Option Binding}

/-- A binding of the identity provider that is no longer wanted. -/
def Stale (before : BindingKey → Option Binding) (u : ℕ) (wanted : List String) (k : BindingKey) : Prop :=
  k.principal = .user u ∧ (∃ b, before k = some b ∧ b.source = .sso) ∧ k.roleId ∉ wanted

theorem revokeBinding_alone {id : ℕ} {Q : Unit → Db → Prop}
    (hno : (∀ b, s.bound t k = some b → b.bindingId ≠ id) → Q () s)
    (hyes : ∀ s', (∃ b, s.bound t k = some b ∧ b.bindingId = id) → s'.bound t = update (s.bound t) k none →
      Q () s') : Alone (revokeBinding t k id) Q s := by
  refine alone_stmt fun b s' hact => ?_
  split at hact
  · rename_i hvw
    cases hact
    refine hno fun b hb => ?_
    cases hvw.symm.trans hb
  rename_i b hvw
  split_ifs at hact with hid
  · cases hact
    refine hno fun b' hb' => ?_
    obtain rfl := mem_unique hvw hb'
    exact hid
  · obtain ⟨-, heq⟩ := Cells.map_put_iff.mp hact
    cases heq
    exact hyes _ ⟨b, hvw, not_not.mp hid⟩ (bound_write k none s.bindingKeys s.nextId)

theorem insertBinding_alone {Q : Bool → Db → Prop} (hno : ∀ s', Q false s')
    (hyes : ∀ s' b, s.bound t k = none → b.source = .sso → s'.bound t = update (s.bound t) k (some b) →
      Q true s') : Alone (insertBinding t k .sso) Q s := by
  refine alone_stmt fun b s' hact => ?_
  split at hact
  · cases hact
    exact hno s
  rename_i hvw
  obtain ⟨-, heq⟩ := Cells.map_put_iff.mp hact
  cases heq
  exact hyes _ _ hvw rfl (bound_write k _ (k :: s.bindingKeys) (s.nextId + 1))

structure Revoking (before : BindingKey → Option Binding) (u : ℕ) (wanted : List String) (rest : List (ℕ × String))
    (now : BindingKey → Option Binding) : Prop where
  listed : ∀ c ∈ rest, ∃ b, before ⟨.user u, c.2⟩ = some b ∧ b.bindingId = c.1 ∧ b.source = .sso
  only : ∀ k, now k = before k ∨ now k = none ∧ Stale before u wanted k
  all : ∀ k b, Stale before u wanted k → before k = some b → now k = none ∨ (b.bindingId, k.roleId) ∈ rest

theorem revoking_start (hlis : s.Lists t) : Revoking (s.bound t) u wanted (s.ssoBindings t u) (s.bound t) where
  listed c hc := by
    obtain ⟨k, hk, hbn⟩ := mem_filterMap.mp hc
    obtain ⟨b, hb, hif⟩ := bind_eq_some_iff.mp hbn
    have hpr := (mem_filter.mp (List.mem_dedup.mp hk)).2
    rw [Bool.and_eq_true] at hpr
    split_ifs at hif with hsrc
    cases hif
    refine ⟨b, ?_, rfl, hsrc⟩
    rw [← of_decide_eq_true hpr.1]
    exact hb
  only k := .inl rfl
  all k b hstl hb := by
    obtain ⟨hpr, ⟨b', hb', hsrc⟩, -⟩ := hstl
    obtain rfl := mem_unique hb hb'
    refine .inr (mem_filterMap.mpr ⟨k, List.mem_dedup.mpr (mem_filter.mpr ⟨hlis k ?_, ?_⟩), ?_⟩)
    · rw [hb]
      rfl
    · rw [Bool.and_eq_true]
      exact ⟨decide_eq_true hpr, by rw [show (s.bindings k).view t = some b from hb]; rfl⟩
    · rw [show (s.bindings k).view t = some b from hb, bind_some, if_pos hsrc]

theorem Revoking.skip (h : Revoking before u wanted (c :: rest) now)
    (hc : ∀ k b, Stale before u wanted k → before k = some b → (b.bindingId, k.roleId) = c → now k = none) :
    Revoking before u wanted rest now where
  listed c' hc' := h.listed c' (mem_cons_of_mem c hc')
  only := h.only
  all k b hstl hb := by
    rcases h.all k b hstl hb with hnn | hmem
    · exact .inl hnn
    · rcases mem_cons.mp hmem with heq | hmem
      · exact .inl (hc k b hstl hb heq)
      · exact .inr hmem

theorem Revoking.revoke (h : Revoking before u wanted (c :: rest) now)
    (hc : c.2 ∉ wanted) : Revoking before u wanted rest (update now ⟨.user u, c.2⟩ none) := by
  obtain ⟨b, hb, -, hsrc⟩ := h.listed c mem_cons_self
  have hstl : Stale before u wanted ⟨.user u, c.2⟩ := ⟨rfl, ⟨b, hb, hsrc⟩, hc⟩
  have hupd : Revoking before u wanted (c :: rest) (update now ⟨.user u, c.2⟩ none) := by
    refine ⟨h.listed, fun k => ?_, fun k b hk hb => ?_⟩
    · by_cases hkey : k = ⟨.user u, c.2⟩
      · subst hkey
        exact .inr ⟨update_self .., hstl⟩
      · rw [update_of_ne hkey]
        exact h.only k
    · by_cases hkey : k = ⟨.user u, c.2⟩
      · subst hkey
        exact .inl (update_self ..)
      · rw [update_of_ne hkey]
        exact h.all k b hk hb
  refine hupd.skip fun k b hk _ heq => ?_
  have hkey : k = ⟨.user u, c.2⟩ := by
    obtain ⟨principal, roleId⟩ := k
    rw [BindingKey.mk.injEq]
    exact ⟨hk.1, (Prod.mk.inj heq).2 ▸ rfl⟩
  rw [hkey, update_self]

structure Adding (before : BindingKey → Option Binding) (u : ℕ) (wanted rest : List String)
    (now : BindingKey → Option Binding) : Prop where
  listed : ∀ r ∈ rest, r ∈ wanted
  /-- Only wanted bindings are added, where there was none. -/
  only : ∀ k, now k = before k ∨
    before k = none ∧ k.principal = .user u ∧ k.roleId ∈ wanted ∧ ∃ b, now k = some b ∧ b.source = .sso
  all : ∀ r ∈ wanted, r ∈ rest ∨ (now ⟨.user u, r⟩).isSome = true

theorem Adding.skip {rest : List String}
    (h : Adding before u wanted (r :: rest) now) (hr : (now ⟨.user u, r⟩).isSome = true) :
    Adding before u wanted rest now where
  listed r' hr' := h.listed r' (mem_cons_of_mem r hr')
  only := h.only
  all r' hr' := by
    rcases h.all r' hr' with hmem | hso
    · rcases mem_cons.mp hmem with rfl | hmem
      · exact .inr hr
      · exact .inl hmem
    · exact .inr hso

theorem Adding.add {rest : List String}
    (h : Adding before u wanted (r :: rest) now) (hnn : now ⟨.user u, r⟩ = none) {b : Binding}
    (hb : b.source = .sso) : Adding before u wanted rest (update now ⟨.user u, r⟩ (some b)) := by
  have hupd : Adding before u wanted (r :: rest) (update now ⟨.user u, r⟩ (some b)) := by
    refine ⟨h.listed, fun k => ?_, fun r' hr' => ?_⟩
    · by_cases hkey : k = ⟨.user u, r⟩
      · subst hkey
        refine .inr ⟨?_, rfl, h.listed r mem_cons_self, b, update_self .., hb⟩
        rcases h.only ⟨.user u, r⟩ with heq | ⟨hbef, -⟩
        · rw [← heq, hnn]
        · exact hbef
      · rw [update_of_ne hkey]
        exact h.only k
    · by_cases hkey : r' = r
      · exact .inl (hkey ▸ mem_cons_self)
      · rw [update_of_ne (by simp [hkey])]
        exact h.all r' hr'
  exact hupd.skip (by rw [update_self]; rfl)

theorem synced_of_loops {before middle after : BindingKey → Option Binding} (hrvk : Revoking before u wanted [] middle)
    (hadd : Adding middle u wanted [] after) : Synced before u wanted after := by
  -- what a manual binding was, it is
  have hman : ∀ k b, before k = some b → b.source = .manual → after k = some b := fun k b hb hsrc => by
    have hmid : middle k = some b := by
      rcases hrvk.only k with heq | ⟨-, -, ⟨b', hb', hsso⟩, -⟩
      · rw [heq, hb]
      · obtain rfl := mem_unique hb hb'
        cases hsrc.symm.trans hsso
    rcases hadd.only k with heq | ⟨hnn, -⟩
    · rw [heq, hmid]
    · cases hnn.symm.trans hmid
  refine ⟨fun roleId => ⟨?_, ?_⟩, fun k b hsrc => ⟨fun haft => ?_, fun hb => hman k b hb hsrc⟩⟩
  · rintro ⟨b, haft, hsso⟩
    refine ⟨?_, ?_⟩
    · rcases hadd.only ⟨.user u, roleId⟩ with heq | ⟨-, -, hwan, -⟩
      · by_contra hnot
        rw [heq] at haft
        have hbef : before ⟨.user u, roleId⟩ = some b := by
          rcases hrvk.only ⟨.user u, roleId⟩ with heq' | ⟨hnn, -⟩
          · rw [← heq', haft]
          · cases hnn.symm.trans haft
        rcases hrvk.all _ b ⟨rfl, ⟨b, hbef, hsso⟩, hnot⟩ hbef with hnn | hmem
        · cases hnn.symm.trans haft
        · cases hmem
      · exact hwan
    · rintro ⟨b', hb', hsrc⟩
      obtain rfl := mem_unique (hman _ b' hb' hsrc) haft
      cases hsrc.symm.trans hsso
  · rintro ⟨hwan, hnot⟩
    obtain ⟨b, hb⟩ := isSome_iff_exists.mp ((hadd.all roleId hwan).resolve_left not_mem_nil)
    rcases hadd.only ⟨.user u, roleId⟩ with heq | ⟨-, -, -, hnew⟩
    · refine ⟨b, hb, ?_⟩
      cases hsrc : b.source with
      | sso => rfl
      | manual =>
        rw [heq] at hb
        rcases hrvk.only ⟨.user u, roleId⟩ with heq' | ⟨hnn, -⟩
        · exact absurd ⟨b, heq'.symm.trans hb, hsrc⟩ hnot
        · cases hnn.symm.trans hb
    · exact hnew
  · rcases hadd.only k with heq | ⟨-, -, -, b', hb', hsso⟩
    · rw [heq] at haft
      rcases hrvk.only k with heq' | ⟨hnn, -⟩
      · exact heq'.symm.trans haft
      · cases hnn.symm.trans haft
    · obtain rfl := mem_unique haft hb'
      cases hsrc.symm.trans hsso

theorem syncRoles_alone (hlis : s.Lists t) :
    Alone (syncRoles t u wanted) (fun ok s' => ok = true → Synced (s.bound t) u wanted (s'.bound t)) s := by
  refine .bind (alone_query ?_)
  refine (Txn.Meets.foldlM (J := fun rest _ s' => Revoking (s.bound t) u wanted rest (s'.bound t))
    (fun c rest _ s₁ h₁ => ?_) (revoking_start hlis)).seq fun _ s₁ h₁ => ?_
  · split_ifs with hc
    · exact h₁.skip fun k b hk _ heq => absurd ((Prod.mk.inj heq).2 ▸ hc) hk.2.2
    refine revokeBinding_alone (fun hno => h₁.skip fun k b hk hb heq => ?_) fun s₂ _ h₂ => ?_
    · -- the binding is gone already, or it would be the one of the list
      have hkey : k = ⟨.user u, c.2⟩ := by
        obtain ⟨principal, roleId⟩ := k
        rw [BindingKey.mk.injEq]
        exact ⟨hk.1, (Prod.mk.inj heq).2 ▸ rfl⟩
      rcases h₁.only k with hsm | ⟨hnn, -⟩
      · rw [hkey] at hsm hb
        exact absurd ((Prod.mk.inj heq).1) (hno b (hsm.trans hb))
      · exact hnn
    · rw [h₂]
      exact h₁.revoke hc
  · have hsta : Adding (s₁.bound t) u wanted wanted (s₁.bound t) :=
      ⟨fun _ hr => hr, fun _ => .inl rfl, fun _ hr => .inl hr⟩
    refine (Txn.Meets.foldlM
      (J := fun rest ok s' => ok = true → Adding (s₁.bound t) u wanted rest (s'.bound t))
      (fun r rest ok s₂ h₂ => ?_) (fun _ => hsta)).imp fun ok s₂ h₂ hok => synced_of_loops h₁ (h₂ hok)
    cases ok with
    | false => exact fun h => absurd h Bool.false_ne_true
    | true =>
      refine .bind (alone_query ?_)
      split_ifs with hhd
      · exact fun _ => (h₂ rfl).skip hhd
      · refine insertBinding_alone (fun _ h => absurd h Bool.false_ne_true) fun s₃ b hnn hb h₃ _ => ?_
        rw [h₃]
        exact (h₂ rfl).add hnn hb

end

/-! ### The sign-in -/

def Db.Same (s s' : Db) : Prop := s'.bindings = s.bindings ∧ s'.bindingKeys = s.bindingKeys ∧ s'.roles = s.roles

theorem Db.Same.trans {s s₁ s₂ : Db} (h : s.Same s₁) (h' : s₁.Same s₂) : s.Same s₂ :=
  ⟨h'.1.trans h.1, h'.2.1.trans h.2.1, h'.2.2.trans h.2.2⟩

theorem Db.Same.bound {s s' : Db} (h : s.Same s') (t : ℕ) : s'.bound t = s.bound t := by
  funext k
  rw [Db.bound, Db.bound, h.1]

section

variable {t u : ℕ}

theorem insertSeen_same {a : Assertion} {expiresAt : ℤ} : Alone (insertSeen t a expiresAt) (fun _ s' => s.Same s') s :=
    by
  refine alone_stmt fun b s' hact => ?_
  split at hact
  · cases hact
    exact ⟨rfl, rfl, rfl⟩
  · obtain ⟨seen, -, heq⟩ := map_eq_some_iff.mp hact
    cases heq
    exact ⟨rfl, rfl, rfl⟩

theorem existingUser_same : Alone (existingUser t who) (fun _ s' => s.Same s') s := by
  refine alone_stmt fun b s' hact => ?_
  split at hact
  · cases hact
    exact ⟨rfl, rfl, rfl⟩
  · obtain ⟨r, -, heq⟩ := map_eq_some_iff.mp hact
    cases heq
    exact ⟨rfl, rfl, rfl⟩

theorem updateUser_same {cond : User → Bool} {f : User → User} :
    Alone (updateUser t u cond f) (fun _ s' => s.Same s') s := by
  refine alone_stmt fun b s' hact => ?_
  split at hact
  · cases hact
    exact ⟨rfl, rfl, rfl⟩
  split_ifs at hact
  · cases hact
    exact ⟨rfl, rfl, rfl⟩
  · obtain ⟨users, -, heq⟩ := map_eq_some_iff.mp hact
    cases heq
    exact ⟨rfl, rfl, rfl⟩

theorem insertUser_same : Alone (insertUser t p) (fun _ s' => s.Same s') s := by
  refine alone_stmt fun b s' hact => ?_
  obtain ⟨users, -, heq⟩ := map_eq_some_iff.mp hact
  cases heq
  exact ⟨rfl, rfl, rfl⟩

theorem insertLink_same : Alone (insertLink t u who) (fun _ s' => s.Same s') s := by
  refine alone_stmt fun b s' hact => ?_
  split at hact
  · cases hact
    exact ⟨rfl, rfl, rfl⟩
  · obtain ⟨links, -, heq⟩ := map_eq_some_iff.mp hact
    cases heq
    exact ⟨rfl, rfl, rfl⟩

def SyncedBy (t : ℕ) (before : BindingKey → Option Binding) (wanted : List String) (e : End SignIn) (s' : Db) : Prop :=
  ∀ u g created, e = .commit (.allowed u g created) → Synced before u wanted (s'.bound t)

theorem finishSignIn_alone {s₁ : Db} (hs : s.Same s₁) (hlis : s.Lists t) {u g : ℕ} {created : Bool}
    {wanted : List String} : Alone (finishSignIn t u g created wanted) (SyncedBy t (s.bound t) wanted) s₁ := by
  have hlis₁ : s₁.Lists t := fun k hk => by
    rw [hs.bound] at hk
    rw [hs.2.1]
    exact hlis k hk
  refine (syncRoles_alone hlis₁).seq fun ok s₂ h₂ => ?_
  cases ok with
  | false => exact nofun
  | true =>
    refine .bind (alone_stmt fun n s₃ hact => ?_)
    cases hact
    have hbnd : (if s₂.bindingsOf t u = [] then s₂ else s₂.count t (some (.roles u))).bound t = s₂.bound t := by
      split_ifs <;> rfl
    split_ifs with hzr hnil
    · exact nofun
    · exact nofun
    · exact absurd (length_eq_zero_iff.mpr ‹_›) hzr
    intro u' g' created' heq
    obtain ⟨rfl, -, -⟩ := SignIn.allowed.inj (End.commit.inj heq)
    have h := h₂ rfl
    rw [hs.bound] at h
    exact h

theorem signIn_alone {lower : String → String} (hlis : s.Lists t) :
    Alone (signIn lower t p) (SyncedBy t (s.bound t) (s.wanted lower p.groups)) s := by
  have hrfd : ∀ r s', SyncedBy t (s.bound t) (s.wanted lower p.groups) (.rollback r) s' := nofun
  refine insertSeen_same.seq fun fresh s₁ h₁ => ?_
  cases fresh with
  | false => exact hrfd _ _
  | true =>
    refine .bind (alone_query ?_)
    have hwan : s₁.wanted lower p.groups = s.wanted lower p.groups := by rw [Db.wanted, Db.wanted, h₁.2.2]
    rw [hwan]
    refine existingUser_same.seq fun r s₂ h₂ => ?_
    match r with
    | some (u, user) =>
      dsimp only
      split_ifs
      · exact hrfd _ _
      · exact updateUser_same.seq fun _ s₃ h₃ => finishSignIn_alone ((h₁.trans h₂).trans h₃) hlis
    | none =>
      split_ifs
      · exact hrfd _ _
      refine insertUser_same.seq fun u s₃ h₃ => insertLink_same.seq fun ok s₄ h₄ => ?_
      split_ifs
      · exact finishSignIn_alone (((h₁.trans h₂).trans h₃).trans h₄) hlis
      · exact hrfd _ _

end

end OpenVibes.Store.ConsoleSso
