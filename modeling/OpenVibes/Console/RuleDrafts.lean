import OpenVibes.Theory.Steps
import OpenVibes.Theory.Table

/-!
# Versions of the site's own rules

People save, delete and publish the draft rules of a site rule set. A save reads the drafts, gives the rule a version
and writes it. A publish reads the drafts, compares them with the last bundle, has them signed and stores the new
bundle. Between any two of these others act. The signer answers with the rules it is sent, under a version of its own
for the bundle. Left out are permissions, audit rows and the trust check, for which a request can fail at any step; what
`rule_json` and `check` do is a parameter, and versions have no upper bound.
-/

namespace OpenVibes.Console.RuleDrafts

open Theory List Option

/-- A rule as `rule_json` makes it of what the editor sends. -/
structure Rule (I : Type) where
  id : String
  version : ℕ
  input : I
  deriving DecidableEq

variable {I : Type}

/-- `ON CONFLICT … DO UPDATE`: the new rule under the old key. -/
def Rule.replace (old new : Rule I) : Rule I := { new with id := old.id }

theorem Rule.id_replace (old new : Rule I) : (old.replace new).id = old.id := rfl

/-- A published bundle. -/
structure Bundle (I : Type) where
  version : ℤ
  rules : List (Rule I)

/-- A request between two of its statements. -/
inductive Request (I : Type) where
  /-- A save has read the earlier draft of its rule. -/
  | save (rule : Rule I) (earlier : Option (Rule I))
  /-- A publish has read the drafts. -/
  | publish (rules : List (Rule I)) (compared : Bool)

/-- A rule set. -/
structure State (I : Type) where
  drafts : Table (Rule I) Rule.id
  /-- The published bundles, the last one first. -/
  bundles : List (Bundle I)
  /-- The requests under way, the last one first. -/
  requests : List (Request I)

inductive Action (I : Type) where
  | save (id : String) (input : I)
  | put (request : ℕ)
  | delete (id : String)
  | publish
  | compare (request : ℕ)
  | store (request : ℕ) (version : ℤ)
  /-- A request ends with an error. -/
  | fail (request : ℕ)

section

variable [DecidableEq I] (check : List (Rule I) → String → I → Bool)

/-- 1 for a new rule; the earlier version when nothing changed; else one more. -/
def nextVersion (id : String) (input : I) : Option (Rule I) → ℕ
  | none => 1
  | some earlier => if ⟨id, earlier.version, input⟩ = earlier then earlier.version else earlier.version + 1

def maxDrafts : ℕ := 512

/-- The drafts differ from what is published: a rule was added, changed or removed. -/
def changes (published : Option (Bundle I)) (rules : List (Rule I)) : Bool :=
  let before := (published.map Bundle.rules).getD []
  rules.any (· ∉ before) || before.any fun old => rules.all (·.id ≠ old.id)

/-- A step of a handler; `none` if it is refused. -/
def step (s : State I) : Action I → Option (State I)
  | .save id input =>
    let earlier := s.drafts.get? id
    if check s.drafts.rows id input && (earlier.isSome || s.drafts.rows.length < maxDrafts) then
      some { s with requests := .save ⟨id, nextVersion id input earlier, input⟩ earlier :: s.requests }
    else none
  | .put request =>
    match s.requests[request]? with
    | some (.save rule _) =>
      some { s with
        drafts := s.drafts.upsert Rule.replace Rule.id_replace rule
        requests := s.requests.eraseIdx request }
    | _ => none
  | .delete id => some { s with drafts := s.drafts.deleteWhere (·.id = id) }
  | .publish => some { s with requests := .publish s.drafts.rows false :: s.requests }
  | .compare request =>
    match s.requests[request]? with
    | some (.publish rules false) =>
      -- `serve` answers with a version above 0
      if rules ≠ [] ∧ changes (s.bundles.head?.filter (0 < ·.version)) rules then
        some { s with requests := s.requests.set request (.publish rules true) }
      else none
    | _ => none
  | .store request version =>
    match s.requests[request]? with
    | some (.publish rules true) =>
      if s.bundles.all (·.version < version) then
        some { s with bundles := ⟨version, rules⟩ :: s.bundles, requests := s.requests.eraseIdx request }
      else none
    | _ => none
  | .fail request => some { s with requests := s.requests.eraseIdx request }

end

/-- A later rule of the same id has no lower version, and with the same version it is the same rule. -/
def Follows (old new : Rule I) : Prop :=
  old.id = new.id → old.version ≤ new.version ∧ (old.version = new.version → old = new)

def AllFollow (later earlier : List (Rule I)) : Prop := ∀ old ∈ earlier, ∀ new ∈ later, Follows old new

/-- The rules of a bundle follow those of the bundles before it. -/
def VersionsName (s : State I) : Prop := (s.bundles.map Bundle.rules).Pairwise AllFollow

def Request.published : Request I → Option (List (Rule I))
  | .save .. => none
  | .publish rules _ => some rules

/-- What is published, and before it what is about to be. -/
def State.out (s : State I) : List (List (Rule I)) := s.requests.filterMap Request.published ++
    s.bundles.map Bundle.rules

/-- Nobody came between: a save writes over the draft it read, a draft that is deleted is not out, and a publish that
read the drafts earlier is over when a bundle is stored. -/
def undisturbed [DecidableEq I] (s : State I) : Action I → Bool
  | .put request =>
    match s.requests[request]? with
    | some (.save rule earlier) => s.drafts.get? rule.id = earlier
    | _ => true
  | .delete id => s.out.all fun rules => rules.all (·.id ≠ id)
  | .store request _ => (s.requests.drop (request + 1)).filterMap Request.published = []
  | _ => true

structure Valid (s : State I) : Prop where
  saves : ∀ rule earlier, .save rule earlier ∈ s.requests → ∀ e ∈ earlier, e = rule ∨ e.version < rule.version
  /-- What is out has a draft that follows it. -/
  drafted : ∀ rules ∈ s.out, ∀ rule ∈ rules, ∃ draft ∈ s.drafts.get? rule.id, Follows rule draft
  named : s.out.Pairwise AllFollow

variable {s s' : State I} {rule : Rule I} {earlier : Option (Rule I)} {request : ℕ} {rules : List (Rule I)}

theorem get?_put (drafts : Table (Rule I) Rule.id) (rule : Rule I) (id : String) :
    (drafts.upsert Rule.replace Rule.id_replace rule).get? id = if rule.id = id then some rule else drafts.get? id := by
  rw [Table.get?_upsert]
  split_ifs with h
  · cases hold : drafts.get? id with
    | none => rfl
    | some old =>
      have hid : old.id = rule.id := (Table.key_of_get? hold).trans h.symm
      simp [Rule.replace, hid]
  · rfl

theorem Valid.put (h : Valid s) (hmem : .save rule earlier ∈ s.requests) (hrd : s.drafts.get? rule.id = earlier) :
    Valid { s with drafts := s.drafts.upsert Rule.replace Rule.id_replace rule } := by
  refine { h with drafted := fun rules hrls r hr => ?_ }
  obtain ⟨draft, hdft, hfol⟩ := h.drafted rules hrls r hr
  dsimp only
  rw [get?_put]
  split_ifs with hid
  · refine ⟨rule, rfl, fun _ => ?_⟩
    obtain ⟨hle, heq⟩ := hfol (Table.key_of_get? hdft).symm
    -- the earlier draft is the one that follows what is out
    rcases h.saves rule earlier hmem draft (hrd ▸ hid ▸ hdft) with rfl | hlt
    · exact ⟨hle, heq⟩
    · exact ⟨Nat.le_of_lt (Nat.lt_of_le_of_lt hle hlt), fun h => absurd (h ▸ hle) (Nat.not_le.mpr hlt)⟩
  · exact ⟨draft, hdft, hfol⟩

theorem Valid.delete {id : String} (h : Valid s) (hout : ∀ rules ∈ s.out, ∀ rule ∈ rules, rule.id ≠ id) :
    Valid { s with drafts := s.drafts.deleteWhere (·.id = id) } := by
  refine { h with drafted := fun rules hrls r hr => ?_ }
  obtain ⟨draft, hdft, hfol⟩ := h.drafted rules hrls r hr
  refine ⟨draft, ?_, hfol⟩
  dsimp only
  rw [Table.get?_deleteWhere, mem_def, filter_eq_some_iff]
  exact ⟨hdft, by simpa [Table.key_of_get? hdft] using hout rules hrls r hr⟩

theorem Valid.publish (h : Valid s) : Valid { s with requests := .publish s.drafts.rows false :: s.requests } where
  saves rule earlier hmem := h.saves rule earlier ((mem_cons.mp hmem).resolve_left nofun)
  drafted rules hrls rule hr := by
    rcases mem_cons.mp hrls with rfl | hrls
    · exact ⟨rule, Table.get?_eq_some_iff.mpr ⟨hr, rfl⟩, fun _ => ⟨Nat.le_refl _, fun _ => rfl⟩⟩
    · exact h.drafted rules hrls rule hr
  named := by
    refine pairwise_cons.mpr ⟨fun rules hrls old hold new hnew hid => ?_, h.named⟩
    obtain ⟨draft, hdft, hfol⟩ := h.drafted rules hrls old hold
    have hsm : s.drafts.get? old.id = some new := Table.get?_eq_some_iff.mpr ⟨hnew, hid.symm⟩
    exact mem_unique hdft hsm ▸ hfol (Table.key_of_get? hdft).symm

/-- The other steps leave the drafts, and bring nothing out. -/
theorem Valid.of_sublist (h : Valid s) (hdrf : s'.drafts = s.drafts) (hout : s'.out.Sublist s.out)
    (hsav : ∀ rule earlier, .save rule earlier ∈ s'.requests →
      .save rule earlier ∈ s.requests ∨ ∀ e ∈ earlier, e = rule ∨ e.version < rule.version) : Valid s' where
  saves rule earlier hmem := (hsav rule earlier hmem).elim (h.saves rule earlier) id
  drafted rules hrls := hdrf ▸ h.drafted rules (hout.subset hrls)
  named := h.named.sublist hout

theorem Valid.eraseIdx (h : Valid s) (request : ℕ) : Valid { s with requests := s.requests.eraseIdx request } :=
  h.of_sublist rfl (((eraseIdx_sublist ..).filterMap _).append_right _) fun _ _ hmem => .inl (mem_of_mem_eraseIdx hmem)

theorem requests_eq {r : Request I} (h : s.requests[request]? = some r) :
    s.requests = s.requests.take request ++ r :: s.requests.drop (request + 1) := by
  obtain ⟨hlt, rfl⟩ := List.getElem?_eq_some_iff.mp h
  rw [← drop_eq_getElem_cons hlt, take_append_drop]

/-- A bundle that is stored was the last of those about to be. -/
theorem out_store {compared : Bool} {ver : ℤ} (hreq : s.requests[request]? = some (.publish rules compared))
    (hla : (s.requests.drop (request + 1)).filterMap Request.published = []) :
    State.out { s with bundles := ⟨ver, rules⟩ :: s.bundles, requests := s.requests.eraseIdx request } = s.out := by
  rw [State.out, State.out, eraseIdx_eq_take_drop_succ]
  conv_rhs => rw [requests_eq hreq]
  simp [hla, Request.published]

theorem out_compare (hreq : s.requests[request]? = some (.publish rules false)) :
    State.out { s with requests := s.requests.set request (.publish rules true) } = s.out := by
  rw [State.out, State.out, set_eq_take_append_cons_drop, if_pos (List.getElem?_eq_some_iff.mp hreq).1]
  conv_rhs => rw [requests_eq hreq]
  simp [Request.published]

variable [DecidableEq I] {check : List (Rule I) → String → I → Bool}

theorem Valid.step {a : Action I} (h : Valid s) (ha : undisturbed s a) (hst : step check s a = some s') : Valid s' := by
  cases a with
  | save id input =>
    obtain ⟨-, hst⟩ := ite_none_right_eq_some.mp hst
    cases hst
    refine h.of_sublist rfl (.refl _) fun rule earlier hmem => ?_
    rcases mem_cons.mp hmem with heq | hmem
    · cases heq
      refine .inr fun e he => ?_
      rw [mem_def.mp he, nextVersion]
      split_ifs with hsm
      · exact .inl hsm.symm
      · exact .inr (Nat.lt_succ_self _)
    · exact .inl hmem
  | put request =>
    rw [RuleDrafts.step] at hst
    split at hst
    · rename_i rule earlier hreq
      cases hst
      rw [undisturbed, hreq] at ha
      exact (h.put (mem_of_getElem? hreq) (of_decide_eq_true ha)).eraseIdx request
    · cases hst
  | delete id =>
    cases hst
    exact h.delete (by simpa [undisturbed] using ha)
  | publish =>
    cases hst
    exact h.publish
  | compare request =>
    rw [RuleDrafts.step] at hst
    split at hst
    · rename_i rules hreq
      obtain ⟨-, hst⟩ := ite_none_right_eq_some.mp hst
      cases hst
      refine h.of_sublist rfl (out_compare hreq ▸ Sublist.refl _) fun _ _ hmem => ?_
      exact .inl ((mem_or_eq_of_mem_set hmem).resolve_right nofun)
    · cases hst
  | store request ver =>
    rw [RuleDrafts.step] at hst
    split at hst
    · rename_i rules hreq
      obtain ⟨-, hst⟩ := ite_none_right_eq_some.mp hst
      cases hst
      exact h.of_sublist rfl (out_store hreq (of_decide_eq_true ha) ▸ Sublist.refl _) fun _ _ hmem => .inl
        (mem_of_mem_eraseIdx hmem)
    · cases hst
  | fail request =>
    cases hst
    exact h.eraseIdx request

/-- **A published rule's version names its content**, in every run in which nobody came between. -/
theorem version_names_content {start : State I} {actions : List (Action I)} (hbun : start.bundles = [])
    (hrq : start.requests = []) (hrun : run (step check) start actions = some s)
    (hstp : StepsMeet (step check) (undisturbed · ·) start actions) : VersionsName s := by
  have hout : start.out = [] := by rw [State.out, hbun, hrq]; rfl
  have hsta : Valid start := ⟨by simp [hrq], by simp [hout], by simp [hout]⟩
  exact (run_invariant_of (fun s a s' h ha hst => h.step ha hst) hsta hstp hrun).named.sublist
    (sublist_append_right ..)

def nothing : State Bool := ⟨Table.empty, [], []⟩

def firstRule : List (Action Bool) := [.save "a" false, .put 0, .publish, .compare 0, .store 0 1]

/-- The rule is written anew and published again. -/
def secondRule : List (Action Bool) := firstRule ++ [.save "a" true, .put 0, .publish, .compare 0, .store 0 2]

theorem second_rule_named :
    ∃ s, run (step fun _ _ _ => true) nothing secondRule = some s ∧
      s.bundles.map (fun b => (b.version, b.rules)) = [(2, [⟨"a", 2, true⟩]), (1, [⟨"a", 1, false⟩])] ∧
          VersionsName s :=
  ⟨_, rfl, by decide, version_names_content rfl rfl rfl (by decide : StepsMeet (step fun _ _ _ => true)
    (undisturbed · ·) nothing secondRule)⟩

/-- A deleted rule that is written again starts again with version 1. -/
theorem deleted_rule_published_again :
    ∃ s, run (step fun _ _ _ => true) nothing (firstRule ++
      [.delete "a", .save "a" true, .put 0, .publish, .compare 0, .store 0 2]) = some s ∧ ¬VersionsName s := by
  refine ⟨_, rfl, fun h => ?_⟩
  have := (pairwise_cons.mp h).1 _ mem_cons_self ⟨"a", 1, false⟩ (by decide) ⟨"a", 1, true⟩ (by decide) rfl
  exact absurd (this.2 rfl) (by decide)

end OpenVibes.Console.RuleDrafts
