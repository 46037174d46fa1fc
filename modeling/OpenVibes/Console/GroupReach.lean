import OpenVibes.Console.GroupUpdate

/-!
# A group edit and the roles that reach the group

A membership change is checked against the roles that reach the group. The store's write compares the ids of these only:
the contents of a role can change between its check and the commit.
-/

namespace OpenVibes.Console

open Theory List Option

/-- Every host permission of every role that reaches the group is held by the person on all hosts. -/
def Db.ReachFits (db : Db) (actor groupId : String) : Prop :=
  ∀ role ∈ db.reaching groupId, ∀ p : Permission, p.scope = .host → p.id ∈ role.permissions →
    Allows (db.capabilities (.user actor)) p .everywhere

def Db.givesOnHosts (db : Db) (roleId : String) (p : Permission) : Bool :=
  p.scope = .host && (db.roles.get? roleId).any fun role => role.permissions.contains p.id

/-- What the handler relies on: the editor it read, and the roles that passed its check. -/
def Phase.relied : Phase → Option (Editor × List String)
  | .called | .answered _ => none
  | .admitted editor _ => some (editor, [])
  | .checking editor _ current waiting => some (editor, current.roleIds.filter fun id => !waiting.contains id)
  | .writing editor _ current _ => some (editor, current.roleIds)

/-- A role write takes nothing from the editor, and gives no host permission to a role that passed. -/
def Undisturbed (env : GroupEnv) (call : GroupCall) (s : EditState) : EditEvent → Prop
  | .edit => True
  | .roleWrite change => ∀ r ∈ s.phase.relied,
      (∀ p ∈ Permission.all, Allows (s.db.access.capabilities (.user call.actor)) p .everywhere →
        Allows ((change.apply env.lower s.db.access).capabilities (.user call.actor)) p .everywhere) ∧
      ∀ id ∈ r.2, ∀ p ∈ Permission.all, (change.apply env.lower s.db.access).givesOnHosts id p = true →
        s.db.access.givesOnHosts id p = true

instance (env : GroupEnv) (call : GroupCall) (s : EditState) (event : EditEvent) :
    Decidable (Undisturbed env call s event) :=
  match event with
  | .edit => .isTrue trivial
  | .roleWrite _ => inferInstanceAs (Decidable (∀ r ∈ s.phase.relied, _))

/-! ### What a passed check says -/

/-- The editor was read, and holds still what they held everywhere. -/
structure Held (actor : String) (db : Db) (editor : Editor) : Prop where
  resolved : ∃ grants, editor.capabilities = resolveCapabilities grants
  admin : editor.admin = true → ∀ p, Allows editor.capabilities p .everywhere
  kept : ∀ p, Allows editor.capabilities p .everywhere → Allows (db.capabilities (.user actor)) p .everywhere

/-- The host permissions of a role lie within what the editor holds everywhere. -/
def Covered (editor : Editor) (db : Db) (roleId : String) : Prop :=
  ∀ p, db.givesOnHosts roleId p = true → Allows editor.capabilities p .everywhere

def EditState.Sound (call : GroupCall) (s : EditState) : Prop :=
  ∀ r ∈ s.phase.relied, Held call.actor s.db.access r.1 ∧ ∀ id ∈ r.2, Covered r.1 s.db.access id

theorem held_editor (db : Db) (actor : String) : Held actor db (db.editor actor) where
  resolved := ⟨_, rfl⟩
  admin hadm p := by
    obtain ⟨grant, hgra, hid⟩ := any_eq_true.mp hadm
    exact allows_resolveCapabilities_iff.mpr ⟨grant, hgra, .inl (of_decide_eq_true hid)⟩
  kept _ h := h

variable {db : GroupDb} {editor : Editor}

theorem enter_eq_ok {call : GroupCall} {request : UpdateHostGroup} (h : call.enter db = .ok (editor, request)) :
    editor = db.access.editor call.actor ∧ call.payload = some request := by
  obtain ⟨read, hwrt, h⟩ := bind_eq_ok h
  obtain ⟨sent, hsn, h⟩ := bind_eq_ok h
  cases h
  obtain ⟨caller, hclr, hwrt⟩ := bind_eq_ok hwrt
  obtain ⟨_, -, hwrt⟩ := bind_eq_ok hwrt
  exact ⟨Except.ok.inj hwrt ▸ (callerWith_eq_ok hclr).1, body_eq_ok hsn⟩

theorem mem_hostPermissions {ids : List String} {host : List Permission} {p : Permission}
    (h : hostPermissions ids = .ok host) (hscp : p.scope = .host) (hp : p.id ∈ ids) : p ∈ host := by
  induction ids generalizing host with
  | nil => cases hp
  | cons id ids ih =>
    rw [hostPermissions] at h
    split at h
    · rename_i q hq
      cases hrs : hostPermissions ids with
      | error e => simp [hrs, Except.map] at h
      | ok rest =>
        obtain rfl : (if q.scope = .host then q :: rest else rest) = host := by simpa [hrs, Except.map] using h
        rcases mem_cons.mp hp with rfl | hp
        · obtain rfl : p = q := by rwa [Permission.fromId_id, some.injEq] at hq
          simp [hscp]
        have hmem := ih hrs hp
        split_ifs
        · exact mem_cons_of_mem _ hmem
        · exact hmem
    · cases h

variable {actor groupId : String} {exp : List String} {input : GroupInput} {db' : GroupDb} {written : GroupWrite}

theorem covered_of_check {db : Db} {id : String} (hhd : Held actor db editor)
    (h : (db.roles.get? id).elim (.ok ()) (reachingRoleFits editor) = .ok ()) : Covered editor db id := by
  intro p hp
  obtain ⟨hscp, hany⟩ := Bool.and_eq_true_iff.mp hp
  obtain ⟨role, hrl, hid⟩ := (Option.any_eq_true ..).mp hany
  rw [hrl, elim_some] at h
  obtain ⟨host, hhs, h⟩ := bind_eq_ok h
  obtain ⟨grants, hgrn⟩ := hhd.resolved
  have hmem := mem_hostPermissions hhs (of_decide_eq_true hscp) (contains_iff_mem.mp hid)
  have hft := fits_of_withinShare h
  rw [hgrn] at hft ⊢
  exact allows_of_fits_global hft hmem (.inr rfl) .everywhere

theorem covered_of_admin {db : Db} (hhd : Held actor db editor) (hadm : editor.admin = true) (id : String) :
    Covered editor db id :=
  fun p _ => hhd.admin hadm p

/-! ### Runs -/

variable {s s' : EditState} {saved : GroupSummary}

section

variable {env : GroupEnv} {call : GroupCall}

def GroupCall.ChangesMembership (call : GroupCall) : Prop :=
  ∀ request ∈ call.payload, request.membershipChanges = true

def Phase.request : Phase → Option UpdateHostGroup
  | .called | .answered _ => none
  | .admitted _ request => some request
  | .checking _ request _ _ => some request
  | .writing _ request _ _ => some request

structure EditState.Inv (call : GroupCall) (s : EditState) : Prop where
  request : ∀ request ∈ s.phase.request, call.payload = some request
  sound : s.Sound call

theorem EditState.Inv.roleWrite (h : s.Inv call) {change : RoleChange}
    (hund : Undisturbed env call s (.roleWrite change)) :
    EditState.Inv call { s with db := { s.db with access := change.apply env.lower s.db.access } } := by
  refine ⟨h.request, fun r hr => ?_⟩
  obtain ⟨hhd, hcov⟩ := h.sound r hr
  obtain ⟨hkp, hrls⟩ := hund r hr
  refine ⟨⟨hhd.resolved, hhd.admin, fun p hp => ?_⟩, fun id hid p hp => ?_⟩
  · exact hkp p (Permission.mem_all p) (hhd.kept p hp)
  · exact hcov id hid p (hrls id hid p (Permission.mem_all p) hp)

theorem inv_answered (db : GroupDb) (answer : Except ProblemDetails GroupSummary) :
    EditState.Inv call ⟨db, .answered answer⟩ :=
  ⟨fun _ h => (not_mem_none _ h).elim, fun _ h => (not_mem_none _ h).elim⟩

theorem inv_after {α : Type} {next : α → Phase} {result : Except ProblemDetails α}
    (h : ∀ a, result = .ok a → EditState.Inv call ⟨db, next a⟩) : EditState.Inv call ⟨db, .after next result⟩ := by
  cases result with
  | error why => exact inv_answered db _
  | ok a => exact h a rfl

theorem EditState.Inv.edit (hmbr : call.ChangesMembership) (h : s.Inv call)
    (hst : s.step env call .edit = some s') : s'.Inv call := by
  obtain ⟨⟨phase, db'⟩, hnx, rfl⟩ := map_eq_some_iff.mp hst
  obtain ⟨db, now⟩ := s
  obtain ⟨hreq, hsnd⟩ := h
  match now, hreq, hsnd, hnx with
  | .called, _, _, hnx =>
    cases hnx
    refine inv_after fun (editor, request) hent => ?_
    obtain ⟨rfl, hpay⟩ := enter_eq_ok hent
    refine ⟨fun _ hr => some.inj hr ▸ hpay, fun r hr => ?_⟩
    cases hr
    exact ⟨held_editor _ _, nofun⟩
  | .admitted editor request, hreq, hsnd, hnx =>
    cases hnx
    refine inv_after fun current _ => ⟨hreq, fun r hr => ?_⟩
    cases hr
    obtain ⟨hhd, -⟩ := hsnd _ rfl
    refine ⟨hhd, fun id hid => ?_⟩
    -- nothing is checked yet, or nothing needs to be
    obtain ⟨hid, hwtg⟩ := mem_filter.mp hid
    rw [toCheck, hmbr request (hreq request rfl), Bool.true_and] at hwtg
    by_cases hadm : editor.admin = true
    · exact covered_of_admin hhd hadm id
    · simp [hadm, hid] at hwtg
  | .checking editor request current (id :: waiting), hreq, hsnd, hnx =>
    cases hnx
    refine inv_after fun _ hchk => ⟨hreq, fun r hr => ?_⟩
    cases hr
    obtain ⟨hhd, hcov⟩ := hsnd _ rfl
    refine ⟨hhd, fun id' hid' => ?_⟩
    obtain ⟨hmem, hwtg⟩ := mem_filter.mp hid'
    by_cases heq : id' = id
    · rw [heq]
      exact covered_of_check hhd hchk
    · exact hcov id' (mem_filter.mpr ⟨hmem, by simpa [heq] using hwtg⟩)
  | .checking editor request current [], hreq, hsnd, hnx =>
    cases hnx
    refine inv_after fun _ _ => ⟨hreq, fun r hr => ?_⟩
    cases hr
    obtain ⟨hhd, hcov⟩ := hsnd _ rfl
    exact ⟨hhd, fun id hid => hcov id (mem_filter.mpr ⟨hid, rfl⟩)⟩
  | .writing _ _ _ _, _, _, hnx =>
    cases hnx
    exact inv_answered _ _
  | .answered _, _, _, hnx => cases hnx

/-- **What was checked stays true** while nothing that the handler relies on changes. -/
theorem sound_step (hmbr : call.ChangesMembership) (s : EditState) (event : EditEvent) (s' : EditState)
    (h : s.Inv call) (hund : Undisturbed env call s event) (hst : s.step env call event = some s') :
    s'.Inv call := by
  cases event with
  | edit => exact h.edit hmbr hst
  | roleWrite change =>
    cases hst
    exact h.roleWrite hund

/-! ### The commit -/

theorem mem_of_sameRoles {db : Db} {role : Role} (h : db.sameRoles groupId exp = true)
    (hrl : role ∈ db.reaching groupId) : role.roleId ∈ exp := by
  have hsrt := of_decide_eq_true h
  have hmem : role.roleId ∈ ((db.reaching groupId).map Role.roleId).insertionSort (· ≤ ·) :=
    (mem_insertionSort _).mpr (mem_map.mpr ⟨role, hrl, rfl⟩)
  rw [hsrt, sortDedup, mem_insertionSort, mem_dedup] at hmem
  exact hmem

theorem update_eq_saved {version : ℤ} (h : db.update env groupId version (some exp) input = (.saved saved, db')) :
    db.access.sameRoles groupId exp = true ∧ db'.access = db.access := by
  rw [GroupDb.update] at h
  split at h
  · cases h
  split at h
  · cases h
  split at h
  · cases h
  split at h
  · cases h
  rename_i hrls
  split at h
  · cases h
  split at h
  · cases h
  split at h
  · cases h
  · cases h
    exact ⟨by simpa using hrls, rfl⟩

theorem GroupWrite.eq_saved (h : written.answer = .ok saved) : written = .saved saved := by
  cases written with
  | saved group => rw [Except.ok.inj h]
  | _ => cases h

theorem next_writing {request : UpdateHostGroup} {current : GroupSummary} (hmbr : request.membershipChanges = true)
    (h : db.update env call.groupId request.version (some current.roleIds) input = (written, db')) :
    Phase.next env call db (.writing editor request current input) = some (.answered written.answer, db') := by
  simp [Phase.next, hmbr, h]

theorem writing_of_saved (hst : s.step env call .edit = some s') (hsav : s'.phase = .answered (.ok saved)) :
    ∃ editor request current input, s.phase = .writing editor request current input := by
  obtain ⟨⟨phase, db'⟩, hnx, rfl⟩ := map_eq_some_iff.mp hst
  have haft : ∀ {α : Type} {next : α → Phase} {result : Except ProblemDetails α},
      (∀ a, next a ≠ .answered (.ok saved)) → Phase.after next result ≠ .answered (.ok saved) := by
    rintro α next (why | a) hne
    · intro h
      cases Phase.answered.inj h
    · exact hne a
  obtain ⟨db, now⟩ := s
  match now, hnx with
  | .called, hnx =>
    cases hnx
    exact absurd hsav (haft nofun)
  | .admitted _ _, hnx =>
    cases hnx
    exact absurd hsav (haft nofun)
  | .checking _ _ _ (_ :: _), hnx =>
    cases hnx
    exact absurd hsav (haft nofun)
  | .checking _ _ _ [], hnx =>
    cases hnx
    exact absurd hsav (haft nofun)
  | .writing editor request current input, _ => exact ⟨editor, request, current, input, rfl⟩
  | .answered _, hnx => cases hnx

theorem reachFits_of_commit (hmbr : call.ChangesMembership) (h : s.Inv call)
    (hst : s.step env call .edit = some s') (hsav : s'.phase = .answered (.ok saved)) :
    s'.db.access.ReachFits call.actor call.groupId := by
  obtain ⟨editor, request, current, input, hphs⟩ := writing_of_saved hst hsav
  obtain ⟨db, now⟩ := s
  obtain rfl : now = _ := hphs
  obtain ⟨hhd, hcov⟩ := h.sound _ rfl
  rcases hupd : db.update env call.groupId request.version (some current.roleIds) input with ⟨written, db'⟩
  rw [EditState.step, next_writing (hmbr request (h.request request rfl)) hupd] at hst
  cases hst
  obtain rfl := GroupWrite.eq_saved (Phase.answered.inj hsav)
  obtain ⟨hsm, hacc⟩ := update_eq_saved hupd
  rw [hacc]
  intro role hrl p hscp hp
  refine hhd.kept p (hcov role.roleId (mem_of_sameRoles hsm hrl) p ?_)
  have hget := Table.get?_eq_some_iff.mpr ⟨(mem_filter.mp hrl).1, rfl⟩
  simp [Db.givesOnHosts, hget, hscp, hp]

end

/-- **A group edit does not widen a role beyond the editor** in any run whose role writes leave alone what the handler
relies on: when the change commits, every host permission of every role that then reaches the group is held by the
editor on all hosts. -/
theorem group_edit_fits (env : GroupEnv) (call : GroupCall) (hmbr : call.ChangesMembership) (db : GroupDb)
    (events : List EditEvent) (hund : StepsMeet (EditState.step env call) (Undisturbed env call) ⟨db, .called⟩ events)
    (s s' : EditState) (hrun : run (EditState.step env call) ⟨db, .called⟩ events = some s)
    (saved : GroupSummary) (hcmt : s.step env call .edit = some s') (hsav : s'.phase = .answered (.ok saved)) :
    s'.db.access.ReachFits call.actor call.groupId := by
  have hsta : EditState.Inv call ⟨db, .called⟩ :=
    ⟨fun _ h => (not_mem_none _ h).elim, fun _ h => (not_mem_none _ h).elim⟩
  exact reachFits_of_commit hmbr (run_invariant_of (sound_step hmbr) hsta hund hrun) hcmt hsav

/-! ### Two runs -/

def frida : User :=
  ⟨"1c0e5a7d-9f32-4b41-8a53-7d1e0c2b9f11", "frida", "Frida", none, true, .password, some "d", false, 0⟩

def olga : User :=
  ⟨"1c0e5a7d-9f32-4b41-8a53-7d1e0c2b9f12", "olga", "Olga", none, true, .password, some "e", false, 0⟩

def plant : String := "7a44e0b2-1f6d-4d0c-b1a5-92c7e8d03f21"

def plantRole (permissions : List String) : RoleInput := ⟨"Plant", "", permissions, .groups [plant]⟩

/-- A console with a role that reaches the plant's hosts. -/
def plantConsole : GroupDb where
  access :=
    { roles := ⟨[⟨adminRole, "Administrator", "", true, Permission.all.map Permission.id, true, [], 1⟩,
        ⟨"r_g", "Groups", "", false, ["access.read", "host_groups.manage", "hosts.read"], true, [], 1⟩,
        ⟨"r_p", "Plant", "", false, ["hosts.read"], false, [plant], 1⟩], by decide⟩
      users := ⟨[frida, olga], by decide⟩
      accounts := Table.empty
      bindings := [⟨.user frida.userId, "r_g"⟩, ⟨.user olga.userId, adminRole⟩]
      groups := [plant]
      permissionIds := Permission.all.map Permission.id
      bound := by decide }
  groups := ⟨[⟨plant, "Plant", "", .manual, none, [], [], 1⟩], by decide⟩
  dismissed := []
  activeHosts := ["press-1"]

def addPress : GroupCall := ⟨frida.userId, plant, some ⟨none, none, none, some ["press-1"], 1⟩⟩

def plainEnv : GroupEnv := ⟨id, fun _ => none⟩

def editAround (change : RoleChange) : List EditEvent := [.edit, .edit, .edit, .edit, .roleWrite change]

def EditState.saved? (s : EditState) : Bool :=
  match s.phase with
  | .answered (.ok _) => true
  | _ => false

theorem EditState.exists_of_saved? (h : s.saved? = true) : ∃ saved, s.phase = .answered (.ok saved) := by
  rw [EditState.saved?] at h
  split at h
  · exact ⟨_, ‹_›⟩
  · cases h

instance (db : Db) (actor groupId : String) : Decidable (db.ReachFits actor groupId) :=
  decidable_of_iff (∀ role ∈ db.reaching groupId, ∀ p ∈ Permission.all, p.scope = .host → p.id ∈ role.permissions →
      Allows (db.capabilities (.user actor)) p .everywhere)
    ⟨fun h role hrl p => h role hrl p (Permission.mem_all p), fun h role hrl p _ => h role hrl p⟩

/-- Somebody gives the role a description meanwhile. -/
theorem group_edit_fits_sample :
    ∃ s s', run (EditState.step plainEnv addPress) ⟨plantConsole, .called⟩
        (editAround (.save "r_p" 1 ⟨"Plant", "Presses", ["hosts.read"], .groups [plant]⟩)) = some s ∧
      s.step plainEnv addPress .edit = some s' ∧ s'.saved? = true ∧
      s'.db.access.ReachFits addPress.actor addPress.groupId := by
  have hrun : ((run (EditState.step plainEnv addPress) ⟨plantConsole, .called⟩
      (editAround (.save "r_p" 1 ⟨"Plant", "Presses", ["hosts.read"], .groups [plant]⟩) ++ [.edit])).any
        EditState.saved?) = true := by decide +kernel
  obtain ⟨s', hs', hsav⟩ := (Option.any_eq_true ..).mp hrun
  obtain ⟨s, hs, hla⟩ := run_append.mp hs'
  obtain ⟨_, hst, hnil⟩ := run_cons.mp hla
  cases hnil
  obtain ⟨saved, hphs⟩ := EditState.exists_of_saved? hsav
  have hmbr : addPress.ChangesMembership := fun _ h => some.inj h ▸ rfl
  refine ⟨s, _, hs, hst, hsav, ?_⟩
  exact group_edit_fits plainEnv addPress hmbr plantConsole _ (by decide +kernel) s _ hs saved hst hphs

/-- **A role that passed its check can get another host permission before the commit**: an Administrator adds one that
the editor does not hold, and the edit is saved. -/
theorem edited_role_is_widened :
    ∃ s s', run (EditState.step plainEnv addPress) ⟨plantConsole, .called⟩
        (editAround (.save "r_p" 1 (plantRole ["hosts.read", "hosts.revoke"]))) = some s ∧
      s.step plainEnv addPress .edit = some s' ∧ s'.saved? = true ∧
      (plantConsole.access.editor addPress.actor).admin = false ∧
      (updateRole id plantConsole.access olga.userId "r_p"
        (some ⟨"Plant", "", [.hostsRead, .hostsRevoke], .groups [plant], some 1⟩)).toOption.map
          (fun r => r.2.roles.rows) = some s'.db.access.roles.rows ∧
      ¬s'.db.access.ReachFits addPress.actor addPress.groupId := by
  refine ⟨_, _, rfl, rfl, ?_⟩
  decide +kernel

end OpenVibes.Console
