import Mathlib
import OpenVibes.Rust.Bytes
import OpenVibes.Store.RoleSync

/-!
# What a sign-in takes from an assertion

`facts` of `crates/openvibes-console/src/sso/signin.rs`, and what the handler passes on to the store. Rust's
`str::to_lowercase` and PostgreSQL's `lower` are parameters; "ignoring case" is up to any one fold that they agree with.
-/

namespace OpenVibes.Console.Sso

open Theory Rust Store.ConsoleSso List Sessions

/-- `AttributeStatement`'s attributes. -/
structure Attribute where
  (name friendlyName : Option String)
  values : List (Option String)

structure Conditions where
  notOnOrAfter : Option ℤ
  audienceRestrictions : Option (List (List String))

/-- `Subject`. -/
structure AssertionSubject where
  nameId : Option String

structure SamlAssertion where
  id : String
  subject : Option AssertionSubject
  conditions : Option Conditions
  attributeStatements : Option (List (List Attribute))

structure Config where
  (idpEntityId groupAttribute nameAttribute emailAttribute : String)

inductive Refusal where
  | invalidResponse
  | wrongAudience
deriving DecidableEq

/-- Who signs in. -/
structure Facts where
  (subject displayName : String)
  email : Option String
  groups : List String

def maxGroups : ℕ := 200

def entityId (publicOrigin : String) : String :=
  String.ofList (publicOrigin.toList.reverse.dropWhile (· = '/')).reverse ++ "/auth/saml/metadata"

def SamlAssertion.texts (assertion : SamlAssertion) (name : String) : List String :=
  ((((assertion.attributeStatements.getD []).flatten).filter fun a =>
    a.name = some name || a.friendlyName = some name).flatMap Attribute.values).reduceOption

/-- `values`: the texts, trimmed, without empty ones. -/
def SamlAssertion.values (assertion : SamlAssertion) (name : String) : List String :=
  ((assertion.texts name).map trim).filter fun value => !value.isEmpty

def plausibleEmail (email : String) : Bool :=
  (asBytes email).length ≤ 254 && !email.toList.any isWhitespace &&
    (splitOnce '@' email.toList).any fun p => !p.1.isEmpty && !p.2.isEmpty && !p.2.contains '@'

/-- The groups: values that are not too long, in lower case, sorted, each once. -/
def foldGroups (toLowercase : String → String) (values : List String) : List String :=
  Rust.dedup (((values.filter fun group => group.length ≤ 256).map toLowercase).insertionSort (· ≤ ·))

def SamlAssertion.subjectText (assertion : SamlAssertion) : Option String :=
  ((assertion.subject.bind AssertionSubject.nameId).map trim).filter fun value => !value.isEmpty && value.length ≤ 512

/-- Who signs in, if the assertion is for us and names somebody. -/
def facts (toLowercase : String → String) (config : Config) (assertion : SamlAssertion) (publicOrigin : String) :
    Except Refusal Facts :=
  match assertion.conditions with
  | none => .error .invalidResponse
  | some conditions =>
    let restrictions := conditions.audienceRestrictions.getD []
    if conditions.notOnOrAfter.isNone then .error .invalidResponse
    -- every restriction must name us
    else if restrictions.isEmpty || !restrictions.all fun audience => audience.contains (entityId publicOrigin) then
      .error .wrongAudience
    else
      match assertion.subjectText with
      | none => .error .invalidResponse
      | some subject =>
        let groups := (foldGroups toLowercase (assertion.values config.groupAttribute)).take maxGroups
        let email := (assertion.values config.emailAttribute).head?.filter plausibleEmail
        let displayName := ((assertion.values config.nameAttribute).head?.or email).getD subject
        .ok ⟨subject, String.ofList (displayName.toList.take 160), email, groups⟩

/-- What the handler gives the store. -/
def Facts.person (f : Facts) (config : Config) (assertion : SamlAssertion) (notOnOrAfter now : ℤ) : Person where
  issuer := config.idpEntityId
  subject := f.subject
  displayName := f.displayName
  email := f.email
  assertionId := assertion.id
  assertionExpiresAt := rememberUntil notOnOrAfter
  groups := f.groups
  now := now

variable {toLowercase lower : String → String} {assertion : SamlAssertion} {s : Store.ConsoleSso.Db} {n : ℕ}

theorem groups_of_facts {config : Config} {origin : String} {f : Facts}
    (h : facts toLowercase config assertion origin = .ok f) :
    f.groups = (foldGroups toLowercase (assertion.values config.groupAttribute)).take maxGroups := by
  unfold facts at h
  split at h
  · cases h
  dsimp only at h
  split_ifs at h
  split at h
  · cases h
  · cases h
    rfl

theorem mem_foldGroups {name group : String} (h : group ∈ foldGroups toLowercase (assertion.values name)) :
    ∃ text ∈ assertion.texts name, toLowercase (trim text) = group := by
  rw [foldGroups, Rust.mem_dedup, mem_insertionSort] at h
  obtain ⟨value, hval, rfl⟩ := mem_map.mp h
  obtain ⟨text, htx, rfl⟩ := mem_map.mp (mem_filter.mp (mem_filter.mp hval).1).1
  exact ⟨text, htx, rfl⟩

/-! ### Roles -/

/-- The role's name is one of the texts, trimmed and ignoring case. -/
def Named (fold : String → String) (texts : List String) (r : Store.ConsoleSso.Role) : Prop :=
  ∃ text ∈ texts, fold (trim text) = fold r.displayName

/-- The two folds of the code, of a text and of a role's name, say what the one fold says. -/
def Agree (fold toLowercase lower : String → String) (texts : List String) (roles : List Store.ConsoleSso.Role) :
    Prop :=
  ∀ text ∈ texts, ∀ r ∈ roles, toLowercase (trim text) = lower r.displayName ↔ fold (trim text) = fold r.displayName

/-- The person has the role, from this source. -/
def Holds (s : Store.ConsoleSso.Db) (u : ℕ) (source : Source) (roleId : String) : Prop :=
  ∃ b, (s.bindings ⟨.user u, roleId⟩).committed = some b ∧ b.source = source

/-- Roles follow the texts: the provider's bindings are those of the named roles that are not held by hand, and those by
hand are as they were. -/
structure Follow (named : Store.ConsoleSso.Role → Prop) (s s' : Store.ConsoleSso.Db) (u : ℕ) : Prop where
  sso : ∀ roleId, Holds s' u .sso roleId ↔ (∃ r ∈ s.roles, r.roleId = roleId ∧ named r) ∧ ¬Holds s u .manual roleId
  manual : ∀ k b, b.source = .manual → ((s'.bindings k).committed = some b ↔ (s.bindings k).committed = some b)

theorem mem_wanted {groups : List String} {roleId : String} :
    roleId ∈ s.wanted lower groups ↔ ∃ r ∈ s.roles, r.roleId = roleId ∧ lower r.displayName ∈ groups := by
  simp only [Store.ConsoleSso.Db.wanted, mem_map, mem_filter, decide_eq_true_eq]
  constructor
  · rintro ⟨r, ⟨hr, hgrp⟩, rfl⟩
    exact ⟨r, hr, rfl, hgrp⟩
  · rintro ⟨r, hr, rfl, hgrp⟩
    exact ⟨r, ⟨hr, hgrp⟩, rfl⟩

theorem follow_groups (hs : AtRest s) (hlis : ∀ k, (s.bindings k).committed.isSome = true → k ∈ s.bindingKeys)
    {t : ℕ} {p : Person} {S S' : Running}
    (hrun : run (system lower).step (quiet s) (.start t (.signIn p) :: replicate n (.advance t)) = some S)
    {call : Call} {u g : ℕ} {created : Bool}
    (hret : S.running t = some (call, .ret (.commit (.signIn p (.allowed u g created)))))
    (hst : (system lower).step S (.advance t) = some S') :
    Follow (fun r => lower r.displayName ∈ p.groups) s S'.state u := by
  obtain ⟨S₁, hS₁, hrun⟩ := run_cons.mp hrun
  cases hS₁
  have hvw : ∀ k, s.bound t k = (s.bindings k).committed := fun k =>
    Cell.view_of_none (Cell.own_of_held_none (hs.bindings k))
  have halo : Alone ((system lower).prog t (.signIn p)) (fun e s' => ∀ u g created,
      e = .commit (.signIn p (.allowed u g created)) → Synced (s.bound t) u (s.wanted lower p.groups)
          (s'.bound t)) s := by
    refine .bind ((signIn_alone fun k hk => hlis k (hvw k ▸ hk)).imp fun e s' hsyn u g created heq => ?_)
    cases e with
    | rollback r => cases heq
    | commit r =>
      obtain ⟨-, rfl⟩ := Answer.signIn.inj (End.commit.inj heq)
      exact hsyn u g created rfl
  have hsyn := System.run_alone (Function.update_self ..) halo hrun hret u g created rfl
  have hstt : ∀ k, (S'.state.bindings k).committed = S.state.bound t k := fun k => by
    rw [System.step_returned hret hst]
    exact Cells.committed_commit t S.state.bindings k
  refine ⟨fun roleId => ?_, fun k b hsrc => ?_⟩
  · have h := hsyn.sso roleId
    rw [mem_wanted, hvw] at h
    rw [Holds, hstt]
    exact h
  · rw [hstt, ← hvw]
    exact hsyn.manual k b hsrc

theorem Follow.congr {named named' : Store.ConsoleSso.Role → Prop} {s' : Store.ConsoleSso.Db} {u : ℕ}
    (h : Follow named s s' u) (hsub : ∀ r ∈ s.roles, named r → named' r) :
    Follow named' s s' u ↔ ∀ r ∈ s.roles, named' r → ¬Holds s u .manual r.roleId →
      ∃ r' ∈ s.roles, r'.roleId = r.roleId ∧ named r' := by
  constructor
  · intro h' r hr hnam hman
    exact ((h.sso r.roleId).mp ((h'.sso r.roleId).mpr ⟨⟨r, hr, rfl, hnam⟩, hman⟩)).1
  intro hnn
  refine ⟨fun roleId => ⟨fun hhld => ?_, ?_⟩, h.manual⟩
  · obtain ⟨⟨r, hr, hid, hnam⟩, hman⟩ := (h.sso roleId).mp hhld
    exact ⟨⟨r, hr, hid, hsub r hr hnam⟩, hman⟩
  · rintro ⟨⟨r, hr, rfl, hnam⟩, hman⟩
    exact (h.sso r.roleId).mpr ⟨hnn r hr hnam hman, hman⟩

/-- **Roles follow the identity provider** exactly if no role that a group value names, and that the person does not
hold by hand, is lost: it is named by one of the first two hundred values that are not too long. -/
theorem roles_follow_groups_iff (fold toLowercase lower : String → String) {config : Config}
    {assertion : SamlAssertion} {origin : String} {f : Facts}
    (hfac : facts toLowercase config assertion origin = .ok f) {s : Store.ConsoleSso.Db} (hs : AtRest s)
    (hagr : Agree fold toLowercase lower (assertion.texts config.groupAttribute) s.roles)
    (hlis : ∀ k, (s.bindings k).committed.isSome = true → k ∈ s.bindingKeys) {t n : ℕ} {notOnOrAfter now : ℤ}
    {S S' : Running}
    (hrun : run (system lower).step (quiet s)
      (.start t (.signIn (f.person config assertion notOnOrAfter now)) :: replicate n (.advance t)) = some S)
    {call : Call} {u g : ℕ} {created : Bool}
    (hret : S.running t =
      some (call, .ret (.commit (.signIn (f.person config assertion notOnOrAfter now) (.allowed u g created)))))
    (hst : (system lower).step S (.advance t) = some S') :
    Follow (Named fold (assertion.texts config.groupAttribute)) s S'.state u ↔
      ∀ r ∈ s.roles, Named fold (assertion.texts config.groupAttribute) r → ¬Holds s u .manual r.roleId →
        ∃ r' ∈ s.roles, r'.roleId = r.roleId ∧ lower r'.displayName ∈
          (foldGroups toLowercase (assertion.values config.groupAttribute)).take maxGroups := by
  have hfol := follow_groups hs hlis hrun hret hst
  have hgrps : (f.person config assertion notOnOrAfter now).groups = _ := groups_of_facts hfac
  rw [hgrps] at hfol
  refine hfol.congr fun r hr hgrp => ?_
  obtain ⟨text, htx, heq⟩ := mem_foldGroups (mem_of_mem_take hgrp)
  exact ⟨text, htx, (hagr text htx r hr).mp heq⟩

def sampleRoles (roles : List Store.ConsoleSso.Role) : Store.ConsoleSso.Db := { sampleDb [1] with roles := roles }

theorem sampleRoles_atRest (roles : List Store.ConsoleSso.Role) : AtRest (sampleRoles roles) := by
  have h : AtRest (sampleDb [1]) := sampleDb_atRest (by decide) (by decide)
  exact ⟨h.lock, h.users, h.links, h.bindings, h.seen, h.counted, h.ids, h.user, h.one⟩

theorem sampleDb_lists (people : List ℕ) (k : BindingKey)
    (hk : ((sampleDb people).bindings k).committed.isSome = true) : k ∈ (sampleDb people).bindingKeys := by
  obtain ⟨b, hb⟩ := Option.isSome_iff_exists.mp hk
  obtain ⟨u, hu, heq⟩ := mem_map.mp (mem_of_table hb)
  exact mem_map.mpr ⟨u, hu, (Prod.mk.inj heq).1⟩

def sampleConfig : Config := ⟨"idp", "groups", "name", "mail"⟩

def sampleAssertion (groups : List String) : SamlAssertion where
  id := "a"
  subject := some ⟨some "alice"⟩
  conditions := some ⟨some 0, some [["https://console/auth/saml/metadata"]]⟩
  attributeStatements := some [[⟨some "groups", none, groups.map some⟩]]

def sampleFacts (groups : List String) : Facts where
  subject := "alice"
  displayName := "alice"
  email := none
  groups := (foldGroups id ((sampleAssertion groups).values "groups")).take maxGroups

theorem facts_sample (groups : List String) :
    facts id sampleConfig (sampleAssertion groups) "https://console/" = .ok (sampleFacts groups) := by
  have hent : entityId "https://console/" = "https://console/auth/saml/metadata" := by decide
  have hsbj : (sampleAssertion groups).subjectText = some "alice" := by
    change (((some "alice").map trim).filter fun value => !value.isEmpty && value.length ≤ 512) = some "alice"
    decide
  have hnn : ∀ name, name ≠ "groups" → (sampleAssertion groups).values name = [] := fun name hnm => by
    simp [SamlAssertion.values, SamlAssertion.texts, sampleAssertion, hnm.symm, reduceOption]
  unfold facts
  rw [hent, hsbj, show sampleConfig.emailAttribute = "mail" from rfl, show sampleConfig.nameAttribute = "name" from rfl,
    hnn "mail" (by decide), hnn "name" (by decide)]
  rfl

def sampleSignIn (groups : List String) : Person :=
  (sampleFacts groups).person sampleConfig (sampleAssertion groups) 0 0

def twoRoles : List Store.ConsoleSso.Role := [⟨"admin", "administrator"⟩, ⟨"viewer", "viewer"⟩]

/-- The person's role is revoked and another is given. -/
theorem roles_follow_groups_iff_sample : ∃ S S' : Running,
    run (system id).step (quiet (sampleRoles twoRoles))
      (.start 0 (.signIn (sampleSignIn [" viewer "])) :: replicate 9 (.advance 0)) = some S ∧
    (system id).step S (.advance 0) = some S' ∧
    Follow (Named id ((sampleAssertion [" viewer "]).texts "groups")) (sampleRoles twoRoles) S'.state 1 ∧
    Holds (sampleRoles twoRoles) 1 .sso "admin" ∧ ¬Holds S'.state 1 .sso "admin" ∧ Holds S'.state 1 .sso "viewer" := by
  refine ⟨_, _, rfl, rfl, ?_, ⟨_, rfl, rfl⟩, ?_, ⟨_, rfl, rfl⟩⟩
  · refine (roles_follow_groups_iff id id id (facts_sample [" viewer "]) (s := sampleRoles twoRoles) (t := 0) (n := 9)
      (sampleRoles_atRest twoRoles) (fun _ _ _ _ => .rfl) (sampleDb_lists [1]) rfl rfl rfl).mpr ?_
    rintro r hr ⟨text, htx, heq⟩ -
    obtain rfl := mem_singleton.mp htx
    refine ⟨r, hr, rfl, ?_⟩
    rw [← heq]
    decide +kernel
  · rintro ⟨b, hb, -⟩
    cases hb

def letter (n : ℕ) : String := String.ofList [Char.ofNat (0x4E00 + n)]

theorem toList_letter (n : ℕ) : (letter n).toList = [Char.ofNat (0x4E00 + n)] := by simp [letter]

theorem toNat_letter (hn : n < 201) : (Char.ofNat (0x4E00 + n)).toNat = 0x4E00 + n := by
  have hvld : Nat.isValidChar (0x4E00 + n) := .inl (by omega)
  rw [Char.ofNat, dif_pos hvld]
  rfl

theorem letter_lt {m : ℕ} (hm : m < n) (hn : n < 201) : letter m < letter n := by
  rw [String.lt_iff_toList_lt, toList_letter, toList_letter, cons_lt_cons_iff, Char.lt_def, UInt32.lt_iff_toNat_lt]
  have hm' := toNat_letter (hm.trans hn)
  have hn' := toNat_letter hn
  simp only [Char.toNat] at hm' hn'
  omega

theorem trim_letter (hn : n < 201) : trim (letter n) = letter n := by
  have hspc : isWhitespace (Char.ofNat (0x4E00 + n)) = false := by
    simp only [isWhitespace, toNat_letter hn, Bool.or_eq_false_iff, Bool.and_eq_false_iff, decide_eq_false_iff_not]
    omega
  rw [trim, toList_letter]
  simp [hspc, letter]

def manyGroups : List String := (List.range 201).map letter

theorem pairwise_manyGroups : manyGroups.Pairwise (· < ·) := by
  refine pairwise_map.mpr ((pairwise_lt_range (n := 201)).imp_of_mem fun _ hn hlt => ?_)
  exact letter_lt hlt (mem_range.mp hn)

theorem texts_manyGroups : (sampleAssertion manyGroups).texts "groups" = manyGroups := by
  simp [SamlAssertion.texts, sampleAssertion, reduceOption]

theorem foldGroups_manyGroups : foldGroups id ((sampleAssertion manyGroups).values "groups") = manyGroups := by
  have hlet : ∀ value ∈ manyGroups, trim value = value ∧ value.isEmpty = false ∧ value.length = 1 := by
    intro value hval
    obtain ⟨n, hn, rfl⟩ := mem_map.mp hval
    refine ⟨trim_letter (mem_range.mp hn), ?_, ?_⟩
    · simp [letter]
    · rw [← String.length_toList, toList_letter]
      rfl
  have hvls : (sampleAssertion manyGroups).values "groups" = manyGroups := by
    rw [SamlAssertion.values, texts_manyGroups, map_congr_left fun value hval => (hlet value hval).1, map_id']
    exact filter_eq_self.mpr fun value hval => by rw [(hlet value hval).2.1]; rfl
  have hshr : (manyGroups.filter fun group => group.length ≤ 256) = manyGroups :=
    filter_eq_self.mpr fun value hval => by rw [(hlet value hval).2.2]; rfl
  rw [foldGroups, hvls, hshr, map_id, (pairwise_manyGroups.imp fun h => le_of_lt h).insertionSort_eq]
  exact destutter_of_isChain _ _ (pairwise_manyGroups.imp fun h => ne_of_lt h).isChain

def farRoles : List Store.ConsoleSso.Role := [⟨"admin", letter 0⟩, ⟨"viewer", letter 200⟩]

theorem sampleSignIn_manyGroups :
    sampleSignIn manyGroups = { sampleSignIn [] with groups := manyGroups.take maxGroups } := by
  rw [sampleSignIn, sampleSignIn, sampleFacts, foldGroups_manyGroups]
  rfl

theorem answer_sample : ((run (system id).step (quiet (sampleRoles farRoles))
    (.start 0 (.signIn (sampleSignIn manyGroups)) :: replicate 7 (.advance 0))).bind (Sessions.answer 0)) =
    some (.signIn (sampleSignIn manyGroups), .commit (.signIn (sampleSignIn manyGroups) (.allowed 1 0 false))) := by
  rw [sampleSignIn_manyGroups]
  decide +kernel

/-- **A group is cut off**: of two hundred and one groups the last names a role, which the person does not get. -/
theorem group_is_cut_off : ∃ (config : Config) (assertion : SamlAssertion) (origin : String) (f : Facts)
    (s : Store.ConsoleSso.Db) (S S' : Running) (call : Call) (u g : ℕ) (created : Bool),
    facts id config assertion origin = .ok f ∧ AtRest s ∧
    (∀ k, (s.bindings k).committed.isSome = true → k ∈ s.bindingKeys) ∧
    run (system id).step (quiet s)
      (.start 0 (.signIn (f.person config assertion 0 0)) :: replicate 7 (.advance 0)) = some S ∧
    S.running 0 = some (call, .ret (.commit (.signIn (f.person config assertion 0 0) (.allowed u g created)))) ∧
    (system id).step S (.advance 0) = some S' ∧
    ¬Follow (Named id (assertion.texts config.groupAttribute)) s S'.state u := by
  obtain ⟨S, hrun, hans⟩ := Option.bind_eq_some_iff.mp answer_sample
  have hret := running_of_answer hans
  have hst : ∃ S', (system id).step S (.advance 0) = some S' := by
    rw [System.step, hret]
    exact ⟨_, rfl⟩
  obtain ⟨S', hst⟩ := hst
  have hs := sampleRoles_atRest farRoles
  refine ⟨sampleConfig, sampleAssertion manyGroups, "https://console/", sampleFacts manyGroups, _, S, S', _, 1, 0,
    false, facts_sample manyGroups, hs, sampleDb_lists [1], hrun, hret, hst, fun hfol => ?_⟩
  have hvwr : Holds S'.state 1 .sso "viewer" := by
    refine (hfol.sso "viewer").mpr ⟨⟨⟨"viewer", letter 200⟩, by simp [sampleRoles, farRoles], rfl, letter 200, ?_,
      trim_letter (by omega)⟩, ?_⟩
    · change letter 200 ∈ (sampleAssertion manyGroups).texts "groups"
      rw [texts_manyGroups]
      exact mem_map_of_mem (mem_range.mpr (by decide))
    · rintro ⟨b, hb, -⟩
      cases hb
  obtain ⟨⟨r, hr, hid, hgrp⟩, -⟩ := ((follow_groups hs (sampleDb_lists [1]) hrun hret hst).sso "viewer").mp hvwr
  obtain rfl : r = ⟨"viewer", letter 200⟩ := by
    rcases mem_cons.mp hr with rfl | hr
    · exact absurd hid (by decide)
    · exact mem_singleton.mp hr
  rw [sampleSignIn_manyGroups] at hgrp
  -- two hundred different ones are before it
  have hla : letter 200 ∉ manyGroups.take maxGroups := fun hmem => by
    obtain ⟨n, hn, heq⟩ := mem_map.mp (map_take (f := letter) ▸ hmem)
    rw [maxGroups, take_range, mem_range] at hn
    exact absurd heq (letter_lt (by omega) (by omega)).ne
  exact hla hgrp

end OpenVibes.Console.Sso
