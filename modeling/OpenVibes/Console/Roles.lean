import OpenVibes.Console.Catalogue
import OpenVibes.Theory.Fallible

/-!
# Roles, what they give, and the share check

`crates/openvibes-console/src/access/rbac.rs` (`resolve_capabilities`): the roles a principal holds become permissions,
each with the hosts it applies on. `share.rs` (`fits`) and `editor.rs` (`role_fits`, `roles_fit`): nobody gives or edits
a role beyond what they hold themselves.
-/

namespace OpenVibes.Console

open Theory List

/-! ### Problems -/

structure FieldError where
  (field code message : String)

/-- `ProblemDetails`, without the number of the request. -/
structure ProblemDetails where
  status : ℕ
  (code title : String)
  fieldErrors : List FieldError
  /-- With `missing_needs`: the permission whose need is missing. -/
  (permission needs : Option String)

/-- `ProblemDetails::new`. -/
def problem (status : ℕ) (code title : String) : ProblemDetails := ⟨status, code, title, [], none, none⟩

/-! ### Roles -/

/-- `Reach`: the hosts a role's host permissions apply on. -/
inductive Reach where
  | none
  | all
  | groups (ids : List String)
deriving DecidableEq

/-- A row of `console_roles`, with its permissions and groups. -/
structure Role where
  (roleId name description : String)
  builtin : Bool
  permissions : List String
  allHosts : Bool
  groups : List String
  version : ℤ
deriving DecidableEq

def Role.reach (role : Role) : Reach :=
  if role.allHosts then .all else if role.groups.isEmpty then .none else .groups role.groups

/-- `Grant`: one role a principal holds. -/
structure Grant where
  roleId : String
  permissions : List String
  reach : Reach

def Role.grant (role : Role) : Grant := ⟨role.roleId, role.permissions, role.reach⟩

inductive PermissionScope where
  | global
  | assetGroups (ids : List String)
deriving DecidableEq

structure EffectiveCapability where
  permission : Permission
  scope : PermissionScope

def adminRole : String := "admin"

/-! ### `resolve_capabilities` -/

def Grant.groupsOf (grant : Grant) (p : Permission) : List String :=
  match p.scope, grant.reach with
  | .host, .groups ids => ids
  | _, _ => []

def Grant.isGlobal (grant : Grant) (p : Permission) : Bool := p.scope = .platform || grant.reach = .all

def holders (grants : List Grant) (p : Permission) : List Grant :=
  grants.filter fun grant => grant.permissions.any fun id => id = p.id

/-- A permission is global: for Administrator, or by a grant that holds it. -/
def isGlobal (grants : List Grant) (p : Permission) : Bool :=
  (grants.any fun grant => grant.roleId = adminRole) || (holders grants p).any fun grant => grant.isGlobal p

def groupsOf (grants : List Grant) (p : Permission) : List String :=
  ((holders grants p).flatMap fun grant => grant.groupsOf p).dedup.insertionSort (· ≤ ·)

def capabilityOf (grants : List Grant) (p : Permission) : Option EffectiveCapability :=
  if isGlobal grants p then some ⟨p, .global⟩
  else if (groupsOf grants p).isEmpty then none
  else some ⟨p, .assetGroups (groupsOf grants p)⟩

def resolveCapabilities (grants : List Grant) : List EffectiveCapability :=
  Permission.all.filterMap (capabilityOf grants)

/-! ### The share check -/

structure ShareRefusal where
  permission : Permission
  reason : String

def refusal (editor : List EffectiveCapability) (reach : Reach) (p : Permission) : Option ShareRefusal :=
  let held := editor.filter fun c => c.permission = p
  let covers (g : String) := held.any fun c => match c.scope with
    | .assetGroups ids => ids.contains g
    | .global => true
  if held.isEmpty then some ⟨p, "you do not hold this permission"⟩
  else if p.scope = .platform then none
  else if held.any fun c => c.scope = .global then none
  else
    match reach with
    | .none => none
    | .all => some ⟨p, "you hold it only on some asset groups"⟩
    | .groups ids => if ids.all covers then none else some ⟨p, "the role reaches asset groups you do not"⟩

/-- `fits`: the first permission outside the editor's share. -/
def fits (editor : List EffectiveCapability) (permissions : List Permission) (reach : Reach) : Option ShareRefusal :=
  permissions.findSome? (refusal editor reach)

/-- `refusal_message`. -/
def ShareRefusal.message (r : ShareRefusal) : String :=
  "You can only give roles that fit inside your own access (" ++ r.permission.row.label ++ " is outside it)"

structure Editor where
  actor : String
  capabilities : List EffectiveCapability
  admin : Bool

def Editor.holds (editor : Editor) (p : Permission) : Bool := editor.capabilities.any fun c => c.permission = p

/-- `Editor::denied`. -/
def Editor.requires (editor : Editor) (p : Permission) : Except ProblemDetails Unit :=
  if editor.holds p then .ok () else .error (problem 403 "permission_denied" "Access is not available")

def withinShare (editor : List EffectiveCapability) (permissions : List Permission) (reach : Reach) :
    Except ProblemDetails Unit :=
  match fits editor permissions reach with
  | none => .ok ()
  | some r => .error (problem 403 "permission_denied" r.message)

def typedPermissions (admin : Bool) : List String → Except ProblemDetails (List Permission)
  | [] => .ok []
  | id :: ids =>
    match Permission.fromId id with
    | some p => (typedPermissions admin ids).map (p :: ·)
    | none =>
      if admin then typedPermissions admin ids
      else .error (problem 403 "permission_denied"
        ("The role holds a permission this console does not know (" ++ id ++ ")"))

/-- `role_fits`: the whole stored role fits inside the editor's share. -/
def roleFits (editor : Editor) (role : Role) : Except ProblemDetails Unit := do
  let permissions ← typedPermissions editor.admin role.permissions
  withinShare editor.capabilities permissions role.reach

/-- `roles_fit`: all these roles do. -/
def rolesFit (editor : Editor) (roles : List Role) : Bool :=
  if editor.admin then true
  else
    match roles.mapM fun role => role.permissions.mapM Permission.fromId with
    | none => false
    | some typed => (typed.zip roles).all fun (permissions, role) =>
        (fits editor.capabilities permissions role.reach).isNone

/-! ### Places -/

inductive Place where
  | everywhere
  | group (id : String)

def PermissionScope.includes : PermissionScope → Place → Prop
  | .global, _ => True
  | .assetGroups ids, .group id => id ∈ ids
  | .assetGroups _, .everywhere => False

def Allows (capabilities : List EffectiveCapability) (p : Permission) (place : Place) : Prop :=
  ∃ c ∈ capabilities, c.permission = p ∧ c.scope.includes place

instance (scope : PermissionScope) (place : Place) : Decidable (scope.includes place) :=
  match scope, place with
  | .global, _ => .isTrue trivial
  | .assetGroups ids, .group id => inferInstanceAs (Decidable (id ∈ ids))
  | .assetGroups _, .everywhere => .isFalse id

instance (capabilities : List EffectiveCapability) (p : Permission) (place : Place) :
    Decidable (Allows capabilities p place) :=
  inferInstanceAs (Decidable (∃ c ∈ capabilities, _))

/-- What one grant gives: Administrator everything, another role its permissions. -/
def Grant.gives (grant : Grant) (p : Permission) (place : Place) : Prop :=
  grant.roleId = adminRole ∨ p.id ∈ grant.permissions ∧
    (grant.isGlobal p = true ∨ ∃ id ∈ grant.groupsOf p, place = .group id)

/-! ### Resolving is a union -/

variable {grants : List Grant} {p : Permission}

variable {grant : Grant} {id : String}

theorem mem_holders : grant ∈ holders grants p ↔ grant ∈ grants ∧ p.id ∈ grant.permissions := by
  simp [holders]

theorem isGlobal_iff :
    isGlobal grants p = true ↔
      ∃ grant ∈ grants, grant.roleId = adminRole ∨ p.id ∈ grant.permissions ∧ grant.isGlobal p = true := by
  simp only [isGlobal, Bool.or_eq_true, any_eq_true, decide_eq_true_eq, mem_holders]
  constructor
  · rintro (⟨grant, hgra, hadm⟩ | ⟨grant, ⟨hgra, hp⟩, hglb⟩)
    · exact ⟨grant, hgra, .inl hadm⟩
    · exact ⟨grant, hgra, .inr ⟨hp, hglb⟩⟩
  · rintro ⟨grant, hgra, hadm | ⟨hp, hglb⟩⟩
    · exact .inl ⟨grant, hgra, hadm⟩
    · exact .inr ⟨grant, ⟨hgra, hp⟩, hglb⟩

theorem mem_groupsOf : id ∈ groupsOf grants p ↔ ∃ grant ∈ grants, p.id ∈ grant.permissions ∧ id ∈ grant.groupsOf p := by
  simp [groupsOf, mem_insertionSort, mem_holders, and_assoc]

variable {c : EffectiveCapability}

theorem permission_of_capabilityOf (h : capabilityOf grants p = some c) : c.permission = p := by
  rw [capabilityOf] at h
  split_ifs at h <;> exact Option.some.inj h ▸ rfl

theorem mem_resolveCapabilities : c ∈ resolveCapabilities grants ↔ capabilityOf grants c.permission = some c := by
  rw [resolveCapabilities, mem_filterMap]
  constructor
  · rintro ⟨p, -, hp⟩
    rwa [permission_of_capabilityOf hp]
  · exact fun h => ⟨c.permission, Permission.mem_all _, h⟩

variable {place : Place}

/-- **Resolving is a union** of what the grants give. -/
theorem allows_resolveCapabilities_iff :
    Allows (resolveCapabilities grants) p place ↔ ∃ grant ∈ grants, grant.gives p place := by
  constructor
  · rintro ⟨c, hc, rfl, hplc⟩
    rw [mem_resolveCapabilities, capabilityOf] at hc
    split_ifs at hc with hglb hemp
    · obtain ⟨grant, hgra, hadm | ⟨hp, hg⟩⟩ := isGlobal_iff.mp hglb
      · exact ⟨grant, hgra, .inl hadm⟩
      · exact ⟨grant, hgra, .inr ⟨hp, .inl hg⟩⟩
    rw [← Option.some.inj hc] at hplc
    cases place with
    | everywhere => exact hplc.elim
    | group id =>
      obtain ⟨grant, hgra, hp, hid⟩ := mem_groupsOf.mp hplc
      exact ⟨grant, hgra, .inr ⟨hp, .inr ⟨id, hid, rfl⟩⟩⟩
  · rintro ⟨grant, hgra, hgiv⟩
    by_cases hglb : isGlobal grants p = true
    · exact ⟨⟨p, .global⟩, mem_resolveCapabilities.mpr (if_pos hglb), rfl, trivial⟩
    rcases hgiv with hadm | ⟨hp, hg | ⟨id, hid, rfl⟩⟩
    · exact absurd (isGlobal_iff.mpr ⟨grant, hgra, .inl hadm⟩) hglb
    · exact absurd (isGlobal_iff.mpr ⟨grant, hgra, .inr ⟨hp, hg⟩⟩) hglb
    have hmem : id ∈ groupsOf grants p := mem_groupsOf.mpr ⟨grant, hgra, hp, hid⟩
    have hne : ¬(groupsOf grants p).isEmpty = true := by
      rw [List.isEmpty_iff]
      exact ne_nil_of_mem hmem
    refine ⟨⟨p, .assetGroups (groupsOf grants p)⟩, ?_, rfl, hmem⟩
    rw [mem_resolveCapabilities, capabilityOf, if_neg hglb, if_neg hne]

theorem scope_of_platform (hc : c ∈ resolveCapabilities grants) (hplt : c.permission.scope = .platform) :
    c.scope = .global := by
  rw [mem_resolveCapabilities, capabilityOf] at hc
  split_ifs at hc with hglb hemp
  · exact Option.some.inj hc ▸ rfl
  · obtain ⟨id, hid⟩ := exists_mem_of_ne_nil _ (mt isEmpty_iff.mpr hemp)
    obtain ⟨grant, -, -, hid⟩ := mem_groupsOf.mp hid
    simp [Grant.groupsOf, hplt] at hid

/-! ### The share check is sound -/

variable {editor : List EffectiveCapability} {ids : List String} {actor : String}

section

variable {permissions : List Permission} {reach : Reach}

theorem refusal_of_fits (h : fits editor permissions reach = none) (hp : p ∈ permissions) :
    refusal editor reach p = none :=
  findSome?_eq_none_iff.mp h p hp

theorem allows_of_fits_global (h : fits (resolveCapabilities grants) permissions reach = none) (hp : p ∈ permissions)
    (hglb : p.scope = .platform ∨ reach = .all) (place : Place) : Allows (resolveCapabilities grants) p place := by
  have hnn := refusal_of_fits h hp
  simp only [refusal] at hnn
  split_ifs at hnn with hhd hplt hany
  · obtain ⟨c, hc⟩ := exists_mem_of_ne_nil _ (mt isEmpty_iff.mpr hhd)
    obtain ⟨hmem, hcp⟩ := mem_filter.mp hc
    obtain rfl : c.permission = p := of_decide_eq_true hcp
    exact ⟨c, hmem, rfl, by rw [scope_of_platform hmem hplt]; trivial⟩
  · obtain ⟨c, hc, hscp⟩ := any_eq_true.mp hany
    obtain ⟨hc, hcp⟩ := mem_filter.mp hc
    exact ⟨c, hc, of_decide_eq_true hcp, by rw [of_decide_eq_true hscp]; trivial⟩
  · rcases hglb with hplt' | rfl
    · exact absurd hplt' hplt
    · cases hnn

theorem allows_of_fits_group (h : fits (resolveCapabilities grants) permissions (.groups ids) = none)
    (hp : p ∈ permissions) (hid : id ∈ ids) : Allows (resolveCapabilities grants) p (.group id) := by
  by_cases hplt : p.scope = .platform
  · exact allows_of_fits_global h hp (.inl hplt) _
  have hnn := refusal_of_fits h hp
  simp only [refusal, if_neg hplt] at hnn
  split_ifs at hnn with hhd hany hall
  · obtain ⟨c, hc, hscp⟩ := any_eq_true.mp hany
    obtain ⟨hc, hcp⟩ := mem_filter.mp hc
    exact ⟨c, hc, of_decide_eq_true hcp, by rw [of_decide_eq_true hscp]; trivial⟩
  obtain ⟨c, hc, hcv⟩ := any_eq_true.mp (all_eq_true.mp hall id hid)
  obtain ⟨hc, hcp⟩ := mem_filter.mp hc
  refine ⟨c, hc, of_decide_eq_true hcp, ?_⟩
  cases hscp : c.scope with
  | global => trivial
  | assetGroups ids' => simpa [PermissionScope.includes, hscp] using hcv

/-- **The share check is sound**: what fits is allowed to the editor there. -/
theorem allows_of_fits (h : fits (resolveCapabilities grants) permissions grant.reach = none) (hp : p ∈ permissions)
    (hgiv : grant.isGlobal p = true ∨ ∃ id ∈ grant.groupsOf p, place = .group id) :
    Allows (resolveCapabilities grants) p place := by
  rcases hgiv with hglb | ⟨id, hid, rfl⟩
  · exact allows_of_fits_global h hp (by simpa [Grant.isGlobal] using hglb) place
  rw [Grant.groupsOf] at hid
  split at hid
  · rename_i ids hscp hrch
    rw [hrch] at h
    exact allows_of_fits_group h hp hid
  · cases hid

end

variable {permissions : List Permission}

theorem mem_of_typedPermissions (h : typedPermissions false ids = .ok permissions) (hp : p.id ∈ ids) :
    p ∈ permissions := by
  induction ids generalizing permissions with
  | nil => cases hp
  | cons id ids ih =>
    rw [typedPermissions] at h
    split at h
    · rename_i q hq
      cases hrs : typedPermissions false ids with
      | error e => simp [hrs, Except.map] at h
      | ok rest =>
        obtain rfl : q :: rest = permissions := by simpa [hrs, Except.map] using h
        rcases mem_cons.mp hp with rfl | hp
        · rw [Permission.fromId_id] at hq
          exact Option.some.inj hq ▸ mem_cons_self
        · exact mem_cons_of_mem _ (ih hrs hp)
    · cases h

/-- Administrator's row holds every permission on every host. -/
def Role.Full (role : Role) : Prop := role.reach = .all ∧ ∀ p : Permission, p.id ∈ role.permissions

variable {role : Role}

/-- **A stored role that fits gives nothing that the editor does not have.** -/
theorem allows_of_fits_role (hfu : role.roleId = adminRole → role.Full)
    (hids : ∀ p : Permission, p.id ∈ role.permissions → p ∈ permissions)
    (h : fits (resolveCapabilities grants) permissions role.reach = none) (hgiv : role.grant.gives p place) :
    Allows (resolveCapabilities grants) p place := by
  rcases hgiv with hadm | ⟨hp, hgiv⟩
  · obtain ⟨hrch, hall⟩ := hfu hadm
    exact allows_of_fits_global h (hids p (hall p)) (.inr hrch) place
  · have h : fits (resolveCapabilities grants) permissions role.grant.reach = none := h
    exact allows_of_fits h (hids p hp) hgiv

theorem fits_of_withinShare {reach : Reach} (h : withinShare editor permissions reach = .ok ()) :
    fits editor permissions reach = none := by
  rw [withinShare] at h
  split at h
  · assumption
  · cases h

theorem allows_of_roleFits (hfu : role.roleId = adminRole → role.Full)
    (h : roleFits ⟨actor, resolveCapabilities grants, false⟩ role = .ok ()) (hgiv : role.grant.gives p place) :
    Allows (resolveCapabilities grants) p place := by
  rw [roleFits] at h
  cases htyp : typedPermissions false role.permissions with
  | error e => simp [htyp, bind, Except.bind] at h
  | ok permissions =>
    rw [htyp] at h
    exact allows_of_fits_role hfu (fun p hp => mem_of_typedPermissions htyp hp) (fits_of_withinShare h) hgiv

theorem allows_of_rolesFit {roles : List Role} (hfu : role.roleId = adminRole → role.Full)
    (h : rolesFit ⟨actor, resolveCapabilities grants, false⟩ roles = true) (hrl : role ∈ roles)
    (hgiv : role.grant.gives p place) : Allows (resolveCapabilities grants) p place := by
  simp only [rolesFit, Bool.false_eq_true, if_false] at h
  split at h
  · cases h
  rename_i typed htyp
  -- the typed permissions that stand beside the role
  obtain ⟨permissions, hzip, hpr⟩ := mem_zip_of_forall₂ (forall₂_of_mapM htyp) hrl
  refine allows_of_fits_role hfu (fun q hq => ?_) (by simpa using all_eq_true.mp h (permissions, role) hzip) hgiv
  obtain ⟨q', hq', hid⟩ := mem_zip_of_forall₂ (forall₂_of_mapM hpr) hq
  rw [Permission.fromId_id] at hid
  exact Option.some.inj hid ▸ (of_mem_zip hq').1

end OpenVibes.Console
