import OpenVibes.Console.AccessWrites
import OpenVibes.Theory.Sharing

/-!
# No privilege escalation through access writes

Whatever an editor who is not an Administrator writes, nobody may do more afterwards than they and the editor might
before. A role that someone holds after a write was held before and gives no more, or gives nothing beyond the editor
(`handle_shares`); `Theory.Grants` is the rule for any number of writes.
-/

namespace OpenVibes.Console

open Theory List Option Table

/-! ### Rights -/

def Db.sharing (db : Db) : Theory.Grants Principal String (Permission × Place) where
  holds principal := {id | ⟨principal, id⟩ ∈ db.bindings}
  gives id := {t | ∃ role, db.roles.get? id = some role ∧ role.grant.gives t.1 t.2}

variable {db : Db} {principal : Principal} {role : Role}

theorem mem_rolesOf :
    role ∈ db.rolesOf principal ↔ ⟨principal, role.roleId⟩ ∈ db.bindings ∧ db.roles.get? role.roleId = some role := by
  simp only [Db.rolesOf, mem_filterMap, mem_filter, decide_eq_true_eq]
  constructor
  · rintro ⟨⟨holder, id⟩, ⟨hb, rfl⟩, hrl⟩
    obtain rfl := key_of_get? hrl
    exact ⟨hb, hrl⟩
  · rintro ⟨hb, hrl⟩
    exact ⟨_, ⟨hb, rfl⟩, hrl⟩

variable {p : Permission} {place : Place}

theorem mem_rights_iff : (p, place) ∈ db.sharing.rights principal ↔ Allows (db.capabilities principal) p place := by
  rw [Db.capabilities, allows_resolveCapabilities_iff]
  constructor
  · rintro ⟨id, hid, role, hrl, hgiv⟩
    obtain rfl := key_of_get? hrl
    exact ⟨role.grant, mem_map.mpr ⟨role, mem_rolesOf.mpr ⟨hid, hrl⟩, rfl⟩, hgiv⟩
  · rintro ⟨grant, hgra, hgiv⟩
    obtain ⟨role, hrl, rfl⟩ := mem_map.mp hgra
    obtain ⟨hb, hrl⟩ := mem_rolesOf.mp hrl
    exact ⟨role.roleId, hb, role, hrl, hgiv⟩

/-- Administrator's row is as it is shipped, and the editor does not hold it. -/
structure Ordinary (db : Db) (actor : String) : Prop where
  full : ∃ role, db.roles.get? adminRole = some role ∧ role.Full
  notAdmin : ⟨.user actor, adminRole⟩ ∉ db.bindings

variable {actor : String}

theorem admin_editor :
    (db.editor actor).admin = true ↔
      ∃ role, db.roles.get? adminRole = some role ∧ ⟨.user actor, adminRole⟩ ∈ db.bindings := by
  simp only [Db.editor, Db.grants, List.any_map, List.any_eq_true, mem_rolesOf, Function.comp, Role.grant]
  constructor
  · rintro ⟨role, ⟨hb, hrl⟩, hadm⟩
    have hid := of_decide_eq_true hadm
    exact ⟨role, hid ▸ hrl, hid ▸ hb⟩
  · rintro ⟨role, hrl, hb⟩
    have hid := key_of_get? hrl
    exact ⟨role, ⟨hid ▸ hb, hid ▸ hrl⟩, decide_eq_true hid⟩

section

variable (h : Ordinary db actor)

include h

theorem Ordinary.editor_eq : db.editor actor = ⟨actor, resolveCapabilities (db.grants (.user actor)), false⟩ := by
  have hadm : (db.editor actor).admin = false := by
    rw [Bool.eq_false_iff]
    intro hadm
    obtain ⟨-, -, hb⟩ := admin_editor.mp hadm
    exact h.notAdmin hb
  rw [← hadm]
  rfl

theorem Ordinary.full_of_admin (hrl : db.roles.get? role.roleId = some role) (hid : role.roleId = adminRole) :
    role.Full := by
  obtain ⟨admin, hadm, hfu⟩ := h.full
  rw [hid, hadm] at hrl
  exact some.inj hrl ▸ hfu

theorem Ordinary.gives_of_roleFits (hrl : db.roles.get? role.roleId = some role)
    (hft : roleFits (db.editor actor) role = .ok ()) :
    db.sharing.gives role.roleId ⊆ db.sharing.rights (.user actor) := by
  rintro ⟨p, place⟩ ⟨role', hrl', hgiv⟩
  obtain rfl := some.inj (hrl.symm.trans hrl')
  rw [h.editor_eq] at hft
  exact mem_rights_iff.mpr (allows_of_roleFits (h.full_of_admin hrl) hft hgiv)

theorem Ordinary.gives_of_rolesFit (hft : rolesFit (db.editor actor) (db.rolesOf principal) = true)
    (hrl : role ∈ db.rolesOf principal) (hgiv : role.grant.gives p place) :
    Allows (db.capabilities (.user actor)) p place := by
  rw [h.editor_eq] at hft
  exact allows_of_rolesFit (h.full_of_admin (mem_rolesOf.mp hrl).2) hft hrl hgiv

end

/-! ### What a change of the tables shares -/

variable {db' : Db}

variable {e holder : Principal} {payload : Option SaveRole} {give : Bool} {phc : String}

/-- A change that shares only the editor's rights, and leaves them no Administrator. -/
abbrev Fair (actor : String) (db db' : Db) : Prop :=
  Grants.Shares (.user actor) db.sharing db'.sharing ∧ Ordinary db' actor

theorem shares_of_bindings (hrls : db'.roles = db.roles)
    (hbnd : ∀ b ∈ db'.bindings, b ∈ db.bindings ∨ db.sharing.gives b.roleId ⊆ db.sharing.rights e) :
    Grants.Shares e db.sharing db'.sharing := by
  have hgiv : db'.sharing.gives = db.sharing.gives := by simp only [Db.sharing, hrls]
  intro principal id hid
  rw [hgiv]
  exact (hbnd ⟨principal, id⟩ hid).imp_left fun hb => ⟨hb, subset_rfl⟩

theorem shares_of_roles (hbnd : db'.bindings = db.bindings)
    (hrls : ∀ b ∈ db.bindings, db'.sharing.gives b.roleId ⊆ db.sharing.gives b.roleId ∨ db'.sharing.gives b.roleId
      ⊆ db.sharing.rights e) : Grants.Shares e db.sharing db'.sharing := by
  intro principal id hid
  have hb : ⟨principal, id⟩ ∈ db.bindings := hbnd ▸ hid
  exact (hrls ⟨principal, id⟩ hb).imp_left fun hsub => ⟨hb, hsub⟩

theorem gives_of_get? {id : String} (h : db'.roles.get? id = db.roles.get? id) :
    db'.sharing.gives id ⊆ db.sharing.gives id := by
  simp only [Db.sharing, h]
  exact subset_rfl

theorem reach_write (input : RoleInput) (r : Role) :
    (Role.write input r).reach = input.reach ∨ (Role.write input r).reach = .none := by
  cases hrch : input.reach with
  | none => exact .inr (by simp [Role.reach, Role.write, Reach.groupIds, hrch])
  | all => exact .inl (by simp [Role.reach, Role.write, hrch])
  | groups ids =>
    cases ids with
    | nil => exact .inr (by simp [Role.reach, Role.write, Reach.groupIds, hrch])
    | cons id ids => exact .inl (by simp [Role.reach, Role.write, Reach.groupIds, hrch])

theorem gives_write {grants : List Grant} {role : Checked} {r : Role} (hid : r.roleId ≠ adminRole)
    (h : fits (resolveCapabilities grants) role.ids role.reach = none)
    (hgiv : (Role.write role.input r).grant.gives p place) : Allows (resolveCapabilities grants) p place := by
  rcases hgiv with hadm | ⟨hp, hgiv⟩
  · exact absurd hadm hid
  have hmem : p ∈ role.ids := by
    obtain ⟨q, hq, hqp⟩ := mem_map.mp hp
    have heq := Permission.fromId_id q
    rw [hqp, Permission.fromId_id] at heq
    exact some.inj heq ▸ hq
  have hrch' : (Role.write role.input r).grant.reach = (Role.write role.input r).reach := rfl
  rcases reach_write role.input r with hrch | hrch
  · have h : fits (resolveCapabilities grants) role.ids (Role.write role.input r).grant.reach = none := by
      rw [hrch', hrch]
      exact h
    exact allows_of_fits h hmem hgiv
  · -- a role that reaches no host gives its platform permissions only
    rcases hgiv with hglb | ⟨id, hin, -⟩
    · exact allows_of_fits_global h hmem (.inl (by simpa [Grant.isGlobal, hrch', hrch] using hglb)) place
    · simp [Grant.groupsOf, hrch', hrch] at hin

/-! ### The statements -/

theorem Ordinary.of_eq (h : Ordinary db actor) (hrls : db'.roles.get? adminRole = db.roles.get? adminRole)
    (hbnd : ⟨.user actor, adminRole⟩ ∈ db'.bindings → ⟨.user actor, adminRole⟩ ∈ db.bindings) :
    Ordinary db' actor where
  full := hrls ▸ h.full
  notAdmin := fun hb => h.notAdmin (hbnd hb)

/-- Every role that is bound anew is one of a list, to one principal. -/
structure Binds (db db' : Db) (principal : Principal) (ids : List String) : Prop where
  roles : db'.roles = db.roles
  bindings : ∀ b ∈ db'.bindings, b ∈ db.bindings ∨ b.holder = principal ∧ b.roleId ∈ ids

theorem binds_refl (db : Db) (principal : Principal) (ids : List String) : Binds db db principal ids :=
  ⟨rfl, fun _ hb => .inl hb⟩

theorem binds_of_bind {id : String} (h : db.bind principal id = some db') : Binds db db' principal [id] := by
  rw [Db.bind] at h
  split_ifs at h
  cases h
  refine ⟨rfl, fun b hb => (mem_append.mp hb).imp_right fun hb => ?_⟩
  rw [mem_singleton.mp hb]
  exact ⟨rfl, mem_singleton_self id⟩

variable {ids : List String}

theorem Binds.trans {db₁ db₂ db₃ : Db} {ids' : List String} (h : Binds db₁ db₂ principal ids)
    (h' : Binds db₂ db₃ principal ids') : Binds db₁ db₃ principal (ids ++ ids') where
  roles := h'.roles.trans h.roles
  bindings := fun b hb => by
    rcases h'.bindings b hb with hb | ⟨hhol, hid⟩
    · exact (h.bindings b hb).imp_right fun ⟨hhol, hid⟩ => ⟨hhol, mem_append_left _ hid⟩
    · exact .inr ⟨hhol, mem_append_right _ hid⟩

theorem binds_foldl (db : Db) (principal : Principal) (ids : List String) :
    Binds db (ids.foldl (fun db id => (db.bind principal id).getD db) db) principal ids := by
  induction ids generalizing db with
  | nil => exact binds_refl db principal []
  | cons id ids ih =>
    have hone : Binds db ((db.bind principal id).getD db) principal [id] := by
      cases hbn : db.bind principal id with
      | none => exact binds_refl db principal [id]
      | some db' => exact binds_of_bind hbn
    exact hone.trans (ih _)

theorem binds_foldlM (h : ids.foldlM (fun db id => db.bind principal id) db = some db') :
    Binds db db' principal ids := by
  induction ids generalizing db with
  | nil =>
    obtain rfl := some.inj h
    exact binds_refl db principal []
  | cons id ids ih =>
    rw [foldlM_cons] at h
    obtain ⟨db₁, hbn, h⟩ := bind_eq_some_iff.mp h
    exact (binds_of_bind hbn).trans (ih h)

theorem Binds.shares (h : Ordinary db actor) (hbs : Binds db db' principal ids)
    (hpr : principal ≠ .user actor) (hids : ∀ id ∈ ids, db.sharing.gives id ⊆ db.sharing.rights (.user actor)) :
    Fair actor db db' := by
  refine ⟨shares_of_bindings hbs.roles fun b hb => (hbs.bindings b hb).imp_right fun hid => hids _ hid.2, ?_⟩
  refine h.of_eq (by rw [hbs.roles]) fun hb => (hbs.bindings _ hb).resolve_right fun hnew => ?_
  exact hpr hnew.1.symm

/-! ### The handlers -/

variable {roleId userId : String}

section

variable {lower : String → String} {status : ℕ}

theorem answer_eq_ok {code : ℕ} {x : Except RoleWrite Db} (h : answer code x = .ok (status, db')) : x = .ok db' := by
  cases x with
  | error e => cases h
  | ok db'' => exact congrArg Except.ok (Prod.mk.inj (Except.ok.inj h)).2

theorem createRole_shares (h : Ordinary db actor) {hex : String}
    (hw : createRole lower db actor hex payload = .ok (status, db')) : Fair actor db db' := by
  obtain ⟨_, -, hw⟩ := bind_eq_ok hw
  obtain ⟨_, -, hw⟩ := bind_eq_ok hw
  obtain ⟨role, -, hw⟩ := bind_eq_ok hw
  obtain ⟨_, -, hw⟩ := bind_eq_ok hw
  have hcre := answer_eq_ok hw
  rw [Db.createRole] at hcre
  split_ifs at hcre
  split at hcre
  · cases hcre
  cases hcre
  refine ⟨shares_of_roles rfl fun b hb => .inl (gives_of_get? ?_), h.of_eq ?_ id⟩
  · obtain ⟨r, hr⟩ := isSome_iff_exists.mp (db.bound b hb)
    rw [hr]
    exact get?_insertNew_of_some hr
  · obtain ⟨admin, hadm, -⟩ := h.full
    rw [hadm]
    exact get?_insertNew_of_some hadm

theorem updateRole_shares (h : Ordinary db actor) (hw : updateRole lower db actor roleId payload = .ok (status, db')) :
    Fair actor db db' := by
  obtain ⟨editor, hclr, hw⟩ := bind_eq_ok hw
  obtain ⟨rfl, -⟩ := callerWith_eq_ok hclr
  obtain ⟨_, hadm, hw⟩ := bind_eq_ok hw
  obtain ⟨_, -, hw⟩ := bind_eq_ok hw
  obtain ⟨_, -, hw⟩ := bind_eq_ok hw
  obtain ⟨role, -, hw⟩ := bind_eq_ok hw
  obtain ⟨_, -, hw⟩ := bind_eq_ok hw
  obtain ⟨_, hsha, hw⟩ := bind_eq_ok hw
  have hne : roleId ≠ adminRole := of_decide_eq_false (refuse_eq_ok hadm)
  have hsv := answer_eq_ok hw
  rw [Db.saveRole, if_neg hne] at hsv
  split at hsv
  · cases hsv
  split_ifs at hsv
  split at hsv
  · cases hsv
  cases hsv
  have hget := fun id => db.roles.get?_updateWhere_key roleId
    (fun r => .write role.input { r with version := r.version + 1 }) (fun _ => rfl) id
  refine ⟨shares_of_roles rfl fun b hb => ?_, h.of_eq ((hget adminRole).trans (if_neg hne)) id⟩
  by_cases hb' : roleId = b.roleId
  · refine .inr ?_
    rintro ⟨p, place⟩ ⟨r, hr, hgiv⟩
    have hr' := (hget b.roleId).symm.trans hr
    rw [if_pos hb'] at hr'
    obtain ⟨r₀, hr₀, rfl⟩ := map_eq_some_iff.mp hr'
    refine mem_rights_iff.mpr (gives_write ?_ (fits_of_withinShare hsha) hgiv)
    exact (key_of_get? hr₀).trans_ne (hb' ▸ hne)
  · exact .inl (gives_of_get? ((hget b.roleId).trans (if_neg hb')))

theorem deleteRole_shares (h : Ordinary db actor) (hw : deleteRole db actor roleId = .ok (status, db')) :
    Fair actor db db' := by
  obtain ⟨_, -, hw⟩ := bind_eq_ok hw
  obtain ⟨_, hadm, hw⟩ := bind_eq_ok hw
  obtain ⟨_, -, hw⟩ := bind_eq_ok hw
  have hne : roleId ≠ adminRole := of_decide_eq_false (refuse_eq_ok hadm)
  have hdel := answer_eq_ok hw
  rw [Db.deleteRole, if_neg hne] at hdel
  split at hdel
  · cases hdel
  split_ifs at hdel with hhd
  cases hdel
  have hget : ∀ id, roleId ≠ id → (db.removeRole roleId hhd).roles.get? id = db.roles.get? id := by
    intro id hid
    rw [Db.removeRole, get?_deleteWhere]
    cases hr : db.roles.get? id with
    | none => rfl
    | some r => exact filter_some_pos (by simpa [key_of_get? hr] using hid.symm)
  refine ⟨shares_of_roles rfl fun b hb => .inl (gives_of_get? (hget _ (hhd b hb).symm)), ?_⟩
  exact h.of_eq (hget _ hne) id

theorem holder_ne {editor : Editor} (h : db.holder editor give holder = .ok principal) :
    principal ≠ .user editor.actor := by
  cases holder with
  | user id =>
    obtain ⟨person, -, h⟩ := bind_eq_ok h
    obtain ⟨_, hsf, h⟩ := bind_eq_ok h
    obtain ⟨_, -, h⟩ := bind_eq_ok h
    cases h
    exact fun heq => of_decide_eq_false (refuse_eq_ok hsf) (Principal.user.inj heq)
  | serviceAccount id =>
    obtain ⟨account, -, h⟩ := bind_eq_ok h
    cases h
    exact nofun

section

variable (h : Ordinary db actor)

include h

theorem changeRole_shares (hw : changeRole db actor holder roleId give = .ok (status, db')) : Fair actor db db' := by
  obtain ⟨editor, hclr, hw⟩ := bind_eq_ok hw
  obtain ⟨rfl, -⟩ := callerWith_eq_ok hclr
  obtain ⟨principal, hhol, hw⟩ := bind_eq_ok hw
  obtain ⟨role, hrl, hw⟩ := bind_eq_ok hw
  obtain ⟨_, hft, hw⟩ := bind_eq_ok hw
  have hrl := body_eq_ok hrl
  have hid := key_of_get? hrl
  have hsf : Fair actor db db := ⟨.refl _ _, h⟩
  cases give with
  | true =>
    rw [if_pos rfl, Db.giveBinding] at hw
    split at hw
    · rename_i db₁ hbn
      cases hw
      refine (binds_of_bind hbn).shares h (holder_ne hhol) fun id' hid' => ?_
      rw [mem_singleton.mp hid', ← hid]
      exact h.gives_of_roleFits (hid ▸ hrl) hft
    · split_ifs at hw
      cases hw
      exact hsf
  | false =>
    rw [if_neg (by simp), Db.removeBinding] at hw
    split_ifs at hw
    · cases hw
      refine ⟨shares_of_bindings rfl fun b hb => .inl (mem_filter.mp hb).1, h.of_eq rfl fun hb => ?_⟩
      exact (mem_filter.mp hb).1
    · cases hw
      exact hsf

theorem gives_of_rolesGiven (hids : db.rolesGiven (db.editor actor) ids = .ok ()) :
    ∀ id ∈ ids, db.sharing.gives id ⊆ db.sharing.rights (.user actor) := by
  induction ids with
  | nil => exact nofun
  | cons id ids ih =>
    obtain ⟨role, hrl, hids⟩ := bind_eq_ok hids
    obtain ⟨_, hft, hids⟩ := bind_eq_ok hids
    have hrl := body_eq_ok hrl
    have hid := key_of_get? hrl
    intro id' hid'
    rcases mem_cons.mp hid' with rfl | hid'
    · rw [← hid]
      exact h.gives_of_roleFits (hid ▸ hrl) hft
    · exact ih hids id' hid'

theorem createPerson_shares {payload : Option CreateUserRequest}
    (hw : createPerson db actor userId phc payload = .ok (status, db')) : Fair actor db db' := by
  obtain ⟨editor, hclr, hw⟩ := bind_eq_ok hw
  obtain ⟨rfl, hactor⟩ := callerWith_eq_ok hclr
  obtain ⟨request, -, hw⟩ := bind_eq_ok hw
  obtain ⟨username, -, hw⟩ := bind_eq_ok hw
  obtain ⟨displayName, -, hw⟩ := bind_eq_ok hw
  obtain ⟨email, -, hw⟩ := bind_eq_ok hw
  obtain ⟨_, -, hw⟩ := bind_eq_ok hw
  obtain ⟨_, hrls, hw⟩ := bind_eq_ok hw
  obtain ⟨_, -, hw⟩ := bind_eq_ok hw
  obtain ⟨db₁, hcre, hw⟩ := bind_eq_ok hw
  cases hw
  have hcre := body_eq_ok hcre
  rw [Db.createUser] at hcre
  split_ifs at hcre with htak
  have hne : Principal.user userId ≠ .user actor := by
    rintro heq
    rw [Principal.user.inj heq] at htak
    simp [hactor] at htak
  cases hids : sortDedup request.roleIds with
  | nil => simp [hids] at hcre
  | cons first more =>
    simp only [hids] at hcre
    obtain ⟨db₂, hbn, rfl⟩ := map_eq_some_iff.mp hcre
    have hbs := (binds_of_bind hbn).trans (binds_foldl db₂ (.user userId) more)
    have hfst : db.rolesGiven (db.editor actor) ([first] ++ more) = .ok () := by
      rw [hids] at hrls
      exact hrls
    exact Binds.shares h ⟨hbs.roles, hbs.bindings⟩ hne (gives_of_rolesGiven h hfst)

theorem createServiceAccount_shares {accountId : String} {payload : Option CreateServiceAccountRequest}
    (hw : createServiceAccount db actor accountId payload = .ok (status, db')) : Fair actor db db' := by
  obtain ⟨editor, hclr, hw⟩ := bind_eq_ok hw
  obtain ⟨rfl, -⟩ := callerWith_eq_ok hclr
  obtain ⟨request, -, hw⟩ := bind_eq_ok hw
  obtain ⟨_, -, hw⟩ := bind_eq_ok hw
  obtain ⟨_, hrls, hw⟩ := bind_eq_ok hw
  obtain ⟨db₁, hcre, hw⟩ := bind_eq_ok hw
  cases hw
  have hcre := body_eq_ok hcre
  rw [Db.createServiceAccount] at hcre
  split_ifs at hcre
  have hbs := binds_foldlM hcre
  exact Binds.shares h ⟨hbs.roles, hbs.bindings⟩ Principal.noConfusion (gives_of_rolesGiven h hrls)

end

theorem resetPassword_eq_ok (hw : resetPassword db actor userId phc = .ok (status, db')) :
    ∃ person, db.visiblePerson (db.editor actor) userId = .ok person ∧ person.userId ≠ actor ∧
      db' = db.resetPassword person.userId phc := by
  obtain ⟨editor, hclr, hw⟩ := bind_eq_ok hw
  obtain ⟨rfl, -⟩ := callerWith_eq_ok hclr
  obtain ⟨person, hper, hw⟩ := bind_eq_ok hw
  obtain ⟨_, hsf, hw⟩ := bind_eq_ok hw
  obtain ⟨_, -, hw⟩ := bind_eq_ok hw
  obtain ⟨_, -, hw⟩ := bind_eq_ok hw
  cases hw
  exact ⟨person, hper, of_decide_eq_false (refuse_eq_ok hsf), rfl⟩

/-- **Every write shares only the editor's rights.** -/
theorem handle_shares (h : Ordinary db actor) {w : Write} (hw : w.handle lower db actor = .ok (status, db')) :
    Fair actor db db' := by
  cases w with
  | createRole hex payload => exact createRole_shares h hw
  | updateRole roleId payload => exact updateRole_shares h hw
  | deleteRole roleId => exact deleteRole_shares h hw
  | changeRole holder roleId give => exact changeRole_shares h hw
  | createPerson userId phc payload => exact createPerson_shares h hw
  | createServiceAccount accountId payload => exact createServiceAccount_shares h hw
  | resetPassword userId phc =>
    obtain ⟨person, -, -, rfl⟩ := resetPassword_eq_ok hw
    exact ⟨shares_of_bindings rfl fun b hb => .inl hb, h.of_eq rfl id⟩

end

/-! ### Sequences of writes -/

theorem run_shares (lower : String → String) (h : Ordinary db actor) (w : Write) :
    Fair actor db (w.run lower actor db) := by
  rw [Write.run]
  cases hw : w.handle lower db actor with
  | error e => exact ⟨.refl _ _, h⟩
  | ok answer => exact handle_shares h hw

theorem runWrites_shares (lower : String → String) (h : Ordinary db actor) (ws : List Write) :
    Relation.ReflTransGen (Grants.Shares (.user actor)) db.sharing (runWrites lower actor db ws).sharing ∧
      Ordinary (runWrites lower actor db ws) actor := by
  induction ws generalizing db with
  | nil => exact ⟨.refl, h⟩
  | cons w ws ih =>
    obtain ⟨hshr, hw⟩ := run_shares lower h w
    obtain ⟨hrs, hws⟩ := ih hw
    exact ⟨.head hshr hrs, hws⟩

theorem Ordinary.allows_of_visible (h : Ordinary db actor) {person : User}
    (hper : db.visiblePerson (db.editor actor) userId = .ok person) (hsf : person.userId ≠ actor)
    (hrl : role ∈ db.rolesOf (.user person.userId)) (hgiv : role.grant.gives p place) :
    Allows (db.capabilities (.user actor)) p place := by
  rw [Db.visiblePerson] at hper
  split_ifs at hper
  split at hper
  · cases hper
  split_ifs at hper with hhid
  cases hper
  refine h.gives_of_rolesFit ?_ hrl hgiv
  by_contra hft
  refine hhid ?_
  rw [Bool.and_eq_true, Bool.not_eq_true', ← Bool.not_eq_true]
  exact ⟨decide_eq_true hsf, hft⟩

/-- **No privilege escalation.** After any sequence of writes of an editor who does not hold Administrator, what any
principal is allowed, it or the editor was allowed before; the editor is allowed nothing new, and a person whose
password is reset had no role beyond the editor. -/
theorem no_escalation (lower : String → String) (db : Db) (actor : String)
    (hfu : ∃ role, db.roles.get? adminRole = some role ∧ role.Full) (hadm : (db.editor actor).admin = false)
    (ws : List Write) :
    (∀ principal p place, Allows ((runWrites lower actor db ws).capabilities principal) p place →
        Allows (db.capabilities principal) p place ∨ Allows (db.capabilities (.user actor)) p place) ∧
      (∀ p place, Allows ((runWrites lower actor db ws).capabilities (.user actor)) p place →
        Allows (db.capabilities (.user actor)) p place) ∧
      ∀ before after userId phc status db', ws = before ++ .resetPassword userId phc :: after →
        resetPassword (runWrites lower actor db before) actor userId phc = .ok (status, db') →
        ∃ person : User, (runWrites lower actor db before).users.get? person.userId = some person ∧
          db' = (runWrites lower actor db before).resetPassword person.userId phc ∧
          ∀ role ∈ (runWrites lower actor db before).rolesOf (.user person.userId), ∀ p place,
            role.grant.gives p place → Allows (db.capabilities (.user actor)) p place := by
  have h : Ordinary db actor := by
    refine ⟨hfu, fun hb => ?_⟩
    obtain ⟨role, hrl, -⟩ := hfu
    exact absurd (admin_editor.mpr ⟨role, hrl, hb⟩) (by simp [hadm])
  have hrig := fun ws => Grants.rights_subset_of_shares (runWrites_shares lower h ws).1
  refine ⟨fun principal p place hall => ?_, fun p place hall => ?_, ?_⟩
  · exact ((hrig ws).2 principal (mem_rights_iff.mpr hall)).imp mem_rights_iff.mp mem_rights_iff.mp
  · exact mem_rights_iff.mp ((hrig ws).1 (mem_rights_iff.mpr hall))
  rintro before after userId phc status db' - hres
  obtain ⟨person, hper, hsf, rfl⟩ := resetPassword_eq_ok hres
  refine ⟨person, ?_, rfl, fun role hrl p place hgiv => ?_⟩
  · rw [Db.visiblePerson] at hper
    split_ifs at hper
    split at hper
    · cases hper
    rename_i found hfnd
    split_ifs at hper
    cases hper
    rwa [key_of_get? hfnd]
  · have hnow := (runWrites_shares lower h before).2.allows_of_visible hper hsf hrl hgiv
    exact mem_rights_iff.mp ((hrig before).1 (mem_rights_iff.mpr hnow))

def dana : User :=
  ⟨"6f1d0c5e-0b7e-4c58-9a36-0d2f4c1b7a01", "dana", "Dana", none, true, .password, some "a", false, 0⟩

def erik : User :=
  ⟨"6f1d0c5e-0b7e-4c58-9a36-0d2f4c1b7a02", "erik", "Erik", none, true, .password, some "b", false, 0⟩

def lab : String := "2b9c1f34-5d1e-4a6f-8f0a-3f6f1d5c9e10"

/-- A console with Administrator and the help desk's role. -/
def helpDesk : Db where
  roles := ⟨[⟨adminRole, "Administrator", "", true, Permission.all.map Permission.id, true, [], 1⟩,
    ⟨"r_1", "Help desk", "", false, ["access.grant", "access.read", "access.roles", "access.users", "hosts.read"],
      false, [lab], 1⟩], by decide⟩
  users := ⟨[dana, erik], by decide⟩
  accounts := Table.empty
  bindings := [⟨.user dana.userId, "r_1"⟩]
  groups := [lab]
  permissionIds := Permission.all.map Permission.id
  bound := by decide

/-- Dana makes a role for the lab's hosts, gives it to Erik and resets Erik's password. -/
def helpDeskWrites : List Write :=
  [.createRole "2" (some ⟨"Readers", "", [.hostsRead], .groups [lab], none⟩),
    .changeRole (.user erik.userId) "r_2" true, .resetPassword erik.userId "c"]

theorem no_escalation_sample :
    Allows ((runWrites id dana.userId helpDesk helpDeskWrites).capabilities (.user erik.userId)) .hostsRead
    (.group lab) ∧
      ¬Allows ((runWrites id dana.userId helpDesk helpDeskWrites).capabilities (.user erik.userId)) .hostsRead
        .everywhere := by
  have hfu : ∃ role, helpDesk.roles.get? adminRole = some role ∧ role.Full :=
    ⟨_, rfl, rfl, fun p => mem_map.mpr ⟨p, Permission.mem_all p, rfl⟩⟩
  refine ⟨by decide +kernel, fun h => ?_⟩
  refine ((no_escalation id helpDesk dana.userId hfu (by decide +kernel) helpDeskWrites).1 _ _ _ h).elim ?_ ?_
  · decide +kernel
  · decide +kernel

end OpenVibes.Console
