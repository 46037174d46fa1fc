import OpenVibes.Store.Inventory
import OpenVibes.Vulns.Matching

/-!
# The marker of a matched inventory

`agents.vulnerability_match_version` says which matcher version evaluated the stored inventory. Ingest resets it;
`match_host` and `match_release` read the inventory in several statements and set the marker in one more, without
checking that the inventory is still the one they read. A pool (`Theory.Pool`) runs any number of them, with ingest's
transactions in between. `Current`: a host's open records are what `evaluate` gives; `MarkerTrue`: marked hosts are.
-/

namespace OpenVibes.Vulns

open Rust Store Theory List Prog

/-! ### What the marker should say -/

/-- What `evaluate` gives for a host's stored inventory; nothing without a reported release. -/
def evaluatedFor (db : Db) (agent : String) : List Found :=
  match hostRelease db agent with
  | none => []
  | some (osId, osVersion) => evaluate (allCandidates db osId osVersion [agent])

def expectedRecord (db : Db) (agent advisory : String) : Option (List PackageEntry × Bool) :=
  ((evaluatedFor db agent).find? fun f => f.advisoryId = advisory).map Found.content

/-- The host's open records are those `evaluate` gives for its inventory. -/
def Current (db : Db) (agent : String) : Prop :=
  ∀ advisory, openRecord db (agent, advisory) = expectedRecord db agent advisory

/-- **The marker is true**: every host it is set for is current. -/
def MarkerTrue (db : Db) : Prop :=
  ∀ g ∈ db.agents.rows, g.vulnerabilityMatchVersion = matcherVersion → Current db g.agentId

/-- The host's open records are of advisories for the release it runs. -/
def OwnRelease (db : Db) (agent : String) : Prop :=
  ∀ advisory, openRecord db (agent, advisory) ≠ none →
    ∃ osId osVersion, hostRelease db agent = some (osId, osVersion) ∧ db.advisoryOf osId osVersion advisory

/-! ### Matches among transactions of ingest -/

inductive Job where
  | host (agentId : String) (now : Time)
  | release (osId osVersion : String) (now : Time)

def Job.prog : Job → Prog Db (Except StoreError ℕ)
  | .host agentId now => matchHost agentId now
  | .release osId osVersion now => matchRelease osId osVersion now

def Job.covers (db : Db) (agent : String) : Job → Prop
  | .host agentId _ => agent = agentId
  | .release osId osVersion _ => hostRelease db agent = some (osId, osVersion)

abbrev Matches := Pool Job Db (Except StoreError ℕ)

/-- What happens after a schedule of matches and ingest's transactions. -/
def Matches.after (fingerprint : Fingerprint) (P : Matches) (schedule : List (Act Job Ingest)) : Matches :=
  P.acts Job.prog (fun op db => op.effect fingerprint db) schedule

/-- No running match covers a host whose inventory ingest changes; and the hosts of a release to be matched have no open
record of another. -/
def Undisturbed (fingerprint : Fingerprint) (P : Matches) : Act Job Ingest → Prop
  | .start (.release osId osVersion _) =>
    ∀ agent, hostRelease P.state agent = some (osId, osVersion) → OwnRelease P.state agent
  | .outside op =>
    op.effect fingerprint P.state = P.state ∨ ∀ x ∈ P.running, x.2.isRet = false →
        ¬ x.1.covers P.state op.agentId ∧ ¬ x.1.covers (op.effect fingerprint P.state) op.agentId
  | _ => True

/-! ### What a change keeps of a host -/

/-- The host runs the same release with the same candidates, and stays current if it was. -/
structure Keeps (agent : String) (db db' : Db) : Prop where
  release : hostRelease db' agent = hostRelease db agent
  candidates : ∀ osId osVersion, allCandidates db' osId osVersion [agent] = allCandidates db osId osVersion [agent]
  current : Current db agent → Current db' agent
  ownRelease : OwnRelease db agent → OwnRelease db' agent

variable {agent : String} {db db' : Db}

theorem evaluatedFor_congr (hrel : hostRelease db' agent = hostRelease db agent)
    (hcds : ∀ osId osVersion, allCandidates db' osId osVersion [agent] = allCandidates db osId osVersion [agent]) :
    evaluatedFor db' agent = evaluatedFor db agent := by
  simp [evaluatedFor, hrel, hcds]

theorem Keeps.evaluatedFor_eq (h : Keeps agent db db') : evaluatedFor db' agent = evaluatedFor db agent :=
  evaluatedFor_congr h.release h.candidates

theorem keeps_of_sameHost (h : SameHost agent db db')
    (hop : ∀ advisory, openRecord db' (agent, advisory) = openRecord db (agent, advisory)) : Keeps agent db db' where
  release := h.hostRelease_eq
  candidates := h.allCandidates_eq
  current hc advisory := by
    rw [hop, hc advisory, expectedRecord, expectedRecord, evaluatedFor_congr h.hostRelease_eq h.allCandidates_eq]
  ownRelease ho advisory hne := by
    rw [hop] at hne
    simpa [h.hostRelease_eq, h.advisoryOf_eq] using ho advisory hne

theorem sameHost_of_eq (hrow : (db'.agents.get? agent).map unmarked = (db.agents.get? agent).map unmarked)
    (hlks : db'.hostPackages = db.hostPackages) (hvr : db'.packageVersions = db.packageVersions)
    (hadvi : db'.advisories = db.advisories) (hpk : db'.advisoryPackages = db.advisoryPackages) :
    SameHost agent db db' :=
  ⟨hrow, by rw [hlks], ⟨[], by rw [hvr, append_nil], fun _ _ _ _ h => nomatch h⟩, hadvi, hpk⟩

/-! ### What each step of a match guarantees -/

/-- What every step of a match does: hosts keep what is read of them, and one that is marked is current. -/
structure Guarantee (db db' : Db) : Prop where
  keeps : ∀ agent, Keeps agent db db'
  linked : Linked db → Linked db'
  /-- A marker is the one there was, or was set for a current host. -/
  marks : ∀ g' ∈ db'.agents.rows,
    (∃ g ∈ db.agents.rows, g.agentId = g'.agentId ∧ g.vulnerabilityMatchVersion = g'.vulnerabilityMatchVersion) ∨
      (g'.vulnerabilityMatchVersion = matcherVersion ∧ Current db' g'.agentId)

/-- What a match relies on: the hosts it covers, before or after, keep their inventories. -/
def Rely (job : Job) (db db' : Db) : Prop :=
  ∀ agent, job.covers db agent ∨ job.covers db' agent → Keeps agent db db'

theorem Guarantee.rely (h : Guarantee db db') (job : Job) : Rely job db db' := fun agent _ => h.keeps agent

theorem guarantee_of_agents_eq (hagn : db'.agents = db.agents) (hlks : db'.hostPackages = db.hostPackages)
    (hvr : db'.packageVersions = db.packageVersions) (hkps : ∀ agent, Keeps agent db db') :
    Guarantee db db' where
  keeps := hkps
  linked h := by
    rw [Linked, hlks, hvr]
    exact h
  marks g' hg' := .inl ⟨g', hagn ▸ hg', rfl, rfl⟩

theorem Guarantee.refl (db : Db) : Guarantee db db :=
  guarantee_of_agents_eq rfl rfl rfl fun _ => keeps_of_sameHost (sameHost_of_eq rfl rfl rfl rfl rfl) fun _ => rfl

variable {now : Time}

variable {n : ℕ} {fp : Fingerprint} {g : Agent}

theorem guarantee_applyVersions {evaluated : List ℕ} {found : List VersionFound}
    (h : applyVersions db evaluated found now = .ok (db', n)) : Guarantee db db' := by
  obtain rfl := applyVersions_eq_ok h
  exact guarantee_of_agents_eq rfl rfl rfl fun _ => keeps_of_sameHost (sameHost_of_eq rfl rfl rfl rfl rfl) fun _ => rfl

theorem guarantee_markMatched {p : Agent → Bool} (h : ∀ g ∈ db.agents.rows, p g → Current db g.agentId) :
    Guarantee db (markMatched db p matcherVersion) := by
  have hkps : ∀ agent, Keeps agent db (markMatched db p matcherVersion) := by
    intro agent
    refine keeps_of_sameHost (sameHost_of_eq ?_ rfl rfl rfl rfl) fun _ => rfl
    rw [markMatched, Table.get?_updateWhere, Option.map_map]
    congr 1
    funext g
    simp only [Function.comp]
    split_ifs <;> rfl
  refine ⟨hkps, fun hl => hl, fun g' hg' => ?_⟩
  obtain ⟨g, hg, rfl⟩ := mem_map.mp hg'
  by_cases hp : p g ∧ g.inventorySha256.isSome
  · rw [if_pos (decide_eq_true hp)]
    exact .inr ⟨rfl, (hkps g.agentId).current (h g hg hp.1)⟩
  · rw [if_neg (by simpa using hp)]
    exact .inl ⟨g, hg, rfl, rfl⟩

/-! ### Recording what was found -/

def scopeHosts : Scope → List String
  | .release _ _ agents => agents
  | .host agentId => [agentId]

/-- What was found is what `evaluate` gives for the hosts of the scope. -/
structure Fits (db : Db) (scope : Scope) (found : List Found) : Prop where
  only : ∀ f ∈ found, f.agentId ∈ scopeHosts scope
  own : ∀ agent ∈ scopeHosts scope, (found.filter fun f => f.agentId = agent) = evaluatedFor db agent

variable {scope : Scope}

theorem mem_scopeHosts_of_covers {k : String × String} (h : scope.covers db k) : k.1 ∈ scopeHosts scope := by
  cases scope with
  | release osId osVersion agents => exact (of_decide_eq_true h).1
  | host agentId => exact mem_singleton.mpr (of_decide_eq_true h)

variable {found : List Found} {osId osVersion : String}

theorem Fits.find?_key (h : Fits db scope found) (ha : agent ∈ scopeHosts scope) (advisory : String) :
    (found.find? fun f => f.key = (agent, advisory)) =
      (evaluatedFor db agent).find? fun f => f.advisoryId = advisory := by
  rw [← h.own agent ha, find?_filter]
  congr 1
  funext f
  simp [Found.key]

/-- **What is open after recording**: on the hosts of the scope what their inventories give. -/
theorem openRecord_of_fits (h : Fits db scope found) (hnd : (found.map Found.key).Nodup) (now : Time)
    (agent advisory : String) :
    openRecord { db with vulnerabilities := recorded db scope found now } (agent, advisory) =
      if agent ∈ scopeHosts scope then
        (expectedRecord db agent advisory).or
          (if scope.covers db (agent, advisory) then none else openRecord db (agent, advisory))
      else openRecord db (agent, advisory) := by
  rw [openRecord_recorded hnd]
  by_cases ha : agent ∈ scopeHosts scope
  · rw [if_pos ha, h.find?_key ha, expectedRecord]
    cases (evaluatedFor db agent).find? fun f => f.advisoryId = advisory <;> rfl
  have hnn : (found.find? fun f => f.key = (agent, advisory)) = none := by
    refine find?_key_eq_none.mpr fun hk => ha ?_
    obtain ⟨f, hf, hkey⟩ := mem_map.mp hk
    have hid : f.agentId = agent := congrArg Prod.fst hkey
    exact hid ▸ h.only f hf
  rw [if_neg ha, hnn]
  exact if_neg fun hcov => ha (mem_scopeHosts_of_covers hcov)

theorem advisoryOf_of_mem_evaluatedFor {f : Found} (h : f ∈ evaluatedFor db agent) :
    ∃ osId osVersion, hostRelease db agent = some (osId, osVersion) ∧ db.advisoryOf osId osVersion f.advisoryId := by
  rw [evaluatedFor] at h
  cases hrel : hostRelease db agent with
  | none =>
    rw [hrel] at h
    exact absurd h not_mem_nil
  | some r =>
    rw [hrel] at h
    obtain ⟨c, hc, hk⟩ := exists_of_mem_evaluate h
    obtain ⟨ap, pv, g, hm, -, rfl⟩ := mem_allCandidates.mp hc
    obtain ⟨⟨a, ha, hr, hid⟩, -⟩ := mem_matchFrom.mp hm
    have hadv : ap.advisoryId = f.advisoryId := congrArg Prod.snd hk
    exact ⟨r.1, r.2, rfl, any_eq_true.mpr ⟨a, ha, by simpa [← hadv, hid] using of_decide_eq_true hr⟩⟩

section

variable (h : Fits db scope found)

include h

theorem keeps_recorded (hnd : (found.map Found.key).Nodup) (now : Time) (agent : String) :
    Keeps agent db { db with vulnerabilities := recorded db scope found now } := by
  refine ⟨rfl, fun _ _ => rfl, fun hc advisory => ?_, fun ho advisory hne => ?_⟩
  · show _ = expectedRecord db agent advisory
    rw [openRecord_of_fits h hnd, hc advisory]
    cases expectedRecord db agent advisory <;> simp
  show ∃ osId osVersion, hostRelease db agent = some (osId, osVersion) ∧ db.advisoryOf osId osVersion advisory
  rw [openRecord_of_fits h hnd] at hne
  cases hexp : (evaluatedFor db agent).find? fun f => f.advisoryId = advisory with
  | some f =>
    have hid : f.advisoryId = advisory := by simpa using find?_some hexp
    exact hid ▸ advisoryOf_of_mem_evaluatedFor (mem_of_find?_eq_some hexp)
  | none =>
    refine ho advisory fun hnn => hne ?_
    rw [expectedRecord, hexp, hnn]
    simp

theorem current_recorded (hnd : (found.map Found.key).Nodup) (now : Time) (ha : agent ∈ scopeHosts scope)
    (hcov : ∀ advisory, openRecord db (agent, advisory) ≠ none → scope.covers db (agent, advisory)) :
    Current { db with vulnerabilities := recorded db scope found now } agent := by
  intro advisory
  show _ = expectedRecord db agent advisory
  rw [openRecord_of_fits h hnd, if_pos ha]
  by_cases hop : openRecord db (agent, advisory) = none
  · rw [hop, ite_self, Option.or_none]
  · rw [if_pos (hcov advisory hop), Option.or_none]

theorem guarantee_apply (happ : apply db scope found now = .ok (db', n)) :
    Guarantee db db' ∧ ∀ agent ∈ scopeHosts scope,
      (∀ advisory, openRecord db (agent, advisory) ≠ none → scope.covers db (agent, advisory)) → Current db' agent := by
  obtain ⟨hacc, rfl⟩ := apply_eq_ok happ
  exact ⟨guarantee_of_agents_eq rfl rfl rfl (keeps_recorded h hacc.1 now),
    fun agent ha hcov => current_recorded h hacc.1 now ha hcov⟩

/-! ### Reading what is there to find -/

theorem Fits.of_keeps (hkps : ∀ agent ∈ scopeHosts scope, Keeps agent db db') : Fits db' scope found :=
  ⟨h.only, fun agent ha => by rw [h.own agent ha, (hkps agent ha).evaluatedFor_eq]⟩

end

theorem mem_allCandidates_own {agents : List String} {c : Candidate} (h : c ∈ allCandidates db osId osVersion agents) :
    c.agentId ∈ agents ∧ c ∈ allCandidates db osId osVersion [c.agentId] := by
  have ha : c.agentId ∈ agents := by
    obtain ⟨ap, pv, g, -, hg, rfl⟩ := mem_allCandidates.mp h
    exact (of_decide_eq_true (mem_installedOn.mp hg).2.1).2
  refine ⟨ha, ?_⟩
  rw [allCandidates_filter db osId osVersion (cons_subset.mpr ⟨ha, nil_subset _⟩)]
  exact mem_filter.mpr ⟨h, by simp⟩

/-- **What is found in the pairs of the versions looked at fits**, when the versions of every host
of the scope were. -/
theorem fits_evaluate {vs : List Candidate}
    (hrel : ∀ agent ∈ scopeHosts scope, hostRelease db agent = some (osId, osVersion))
    (hvs : ∀ agent ∈ scopeHosts scope, ∀ c ∈ allCandidates db osId osVersion [agent], c.perVersion ∈ vs) :
    Fits db scope (evaluate (candidates db osId osVersion (scopeHosts scope) (perVersion vs).pairs)) := by
  have hall : evaluate (candidates db osId osVersion (scopeHosts scope) (perVersion vs).pairs) =
      evaluate (allCandidates db osId osVersion (scopeHosts scope)) := by
    rw [candidates_eq_filter]
    refine evaluate_prefiltered fun c hc => ?_
    obtain ⟨ha, hown⟩ := mem_allCandidates_own hc
    exact hvs c.agentId ha c hown
  rw [hall]
  refine ⟨fun f hf => agentId_mem_of_evaluate hf, fun agent ha => ?_⟩
  have hown := evaluate_filter_agents (allCandidates db osId osVersion (scopeHosts scope)) fun a => a ∈ [agent]
  rw [← allCandidates_filter db osId osVersion (cons_subset.mpr ⟨ha, nil_subset _⟩)] at hown
  rw [evaluatedFor, hrel agent ha]
  simpa using hown.symm

/-! ### A match of one host -/

variable {agentId : String}

theorem Rely.host (h : Rely (.host agentId now) db db') : Keeps agentId db db' := h agentId (.inl rfl)

/-- **`match_host` among others**: while its host keeps its inventory, it marks the host only when it is current. -/
theorem matchHost_meets (agentId : String) (now : Time) (db : Db) :
    Meets (Rely (.host agentId now)) Guarantee (OnOk fun _ _ => True) (matchHost agentId now) db := by
  refine .query_bind (P := fun _ => True) (fun _ _ _ _ => trivial) Guarantee.refl trivial fun db₀ _ => ?_
  cases hrel : hostRelease db₀ agentId with
  | none => exact meets_pure 0 db₀
  | some r =>
    obtain ⟨osId, osVersion⟩ := r
    have hstb : ∀ s s', Rely (.host agentId now) s s' → hostRelease s agentId = some (osId, osVersion) →
        hostRelease s' agentId = some (osId, osVersion) := fun s s' h hs => h.host.release.trans hs
    refine .query_bind hstb Guarantee.refl hrel fun db₁ h₁ => ?_
    -- From here on: the versions that were looked at are those of the host's candidates.
    let Looked : Db → Prop := fun s => hostRelease s agentId = some (osId, osVersion) ∧
      ∀ c ∈ allCandidates s osId osVersion [agentId],
        c.perVersion ∈ versionCandidates db₁ osId osVersion (some agentId)
    have hlkd : ∀ s s', Keeps agentId s s' → Looked s → Looked s' := fun s s' h hs =>
      ⟨h.release.trans hs.1, by rw [h.candidates]; exact hs.2⟩
    refine .transaction_bind (fun s s' h => hlkd s s' h.host) Guarantee.refl
      ⟨h₁, fun c hc => perVersion_mem_some hc⟩ fun db₂ db₂' _ h₂ happ => ?_
    have hg₂ := guarantee_applyVersions happ
    refine ⟨hg₂, .query_bind (fun s s' h => hlkd s s' h.host) Guarantee.refl
      (hlkd _ _ (hg₂.keeps agentId) h₂) fun db₃ h₃ => ?_⟩
    -- Then: what was found is what the host's inventory gives.
    let found := evaluate (candidates db₃ osId osVersion [agentId]
      (perVersion (versionCandidates db₁ osId osVersion (some agentId))).pairs)
    have hft : Fits db₃ (.host agentId) found := by
      refine fits_evaluate (fun agent ha => ?_) fun agent ha => ?_
      · rw [mem_singleton.mp ha]
        exact h₃.1
      · rw [mem_singleton.mp ha]
        exact h₃.2
    refine .transaction_bind (P := fun s => Fits s (.host agentId) found)
      (fun s s' h hs => hs.of_keeps fun agent ha => mem_singleton.mp ha ▸ h.host) Guarantee.refl
      hft fun db₄ db₄' _ h₄ happ => ?_
    obtain ⟨hg₄, hcur⟩ := guarantee_apply h₄ happ
    -- And then: the host is current.
    refine ⟨hg₄, .transaction_bind (P := fun s => Current s agentId) (fun s s' h => h.host.current)
      Guarantee.refl (hcur agentId (mem_singleton.mpr rfl) fun _ _ => decide_eq_true rfl)
      fun db₅ db₅' _ h₅ hmk => ?_⟩
    cases hmk
    exact ⟨guarantee_markMatched fun g _ hg => of_decide_eq_true hg ▸ h₅, meets_pure _ _⟩

/-! ### A match of a release -/

section

variable {vs : List Candidate} {hosts : List String}

theorem Rely.release_iff (h : Rely (.release osId osVersion now) db db') (agent : String) :
    hostRelease db' agent = some (osId, osVersion) ↔ hostRelease db agent = some (osId, osVersion) :=
  ⟨fun h' => (h agent (.inr h')).release.symm.trans h', fun h' => (h agent (.inl h')).release.trans h'⟩

theorem Rely.keeps (h : Rely (.release osId osVersion now) db db')
    (ha : hostRelease db' agent = some (osId, osVersion)) : Keeps agent db db' :=
  h agent (.inr ha)

/-- The hosts of a release have no open record of another, and their candidates' versions were looked at. -/
def Watched (osId osVersion : String) (vs : List Candidate) (db : Db) : Prop :=
  ∀ agent, hostRelease db agent = some (osId, osVersion) →
    OwnRelease db agent ∧ ∀ c ∈ allCandidates db osId osVersion [agent], c.perVersion ∈ vs

theorem Watched.of_rely (hw : Watched osId osVersion vs db) (h : Rely (.release osId osVersion now) db db') :
    Watched osId osVersion vs db' := by
  intro agent ha
  obtain ⟨hown, hlkd⟩ := hw agent ((h.release_iff agent).mp ha)
  refine ⟨(h.keeps ha).ownRelease hown, ?_⟩
  rw [(h.keeps ha).candidates]
  exact hlkd

/-- Some batches of the release's hosts are done: their hosts are current. -/
structure Turn (osId osVersion : String) (vs : List Candidate) (hosts : List String) (done : List (List String))
    (db : Db) : Prop where
  watched : Watched osId osVersion vs db
  hosts : ∀ agent, agent ∈ hosts ↔ hostRelease db agent = some (osId, osVersion)
  current : ∀ batch ∈ done, ∀ agent ∈ batch, hostRelease db agent = some (osId, osVersion) → Current db agent

theorem Turn.of_rely {done : List (List String)} (ht : Turn osId osVersion vs hosts done db)
    (h : Rely (.release osId osVersion now) db db') : Turn osId osVersion vs hosts done db' where
  watched := ht.watched.of_rely h
  hosts agent := (ht.hosts agent).trans (h.release_iff agent).symm
  current batch hb agent ha hr := (h.keeps hr).current (ht.current batch hb agent ha ((h.release_iff agent).mp hr))

/-- **A batch among others**: its hosts are current when it is done. -/
theorem matchHosts_meets {batch : List String} (hbat : batch ⊆ hosts) (done : List (List String)) (n : ℕ)
    (htr : Turn osId osVersion vs hosts done db) :
    Meets (Rely (.release osId osVersion now)) Guarantee
      (OnOk fun _ => Turn osId osVersion vs hosts (done ++ [batch]))
      (matchHosts osId osVersion (perVersion vs).pairs now n batch) db := by
  refine .query_bind (fun _ _ h ht => .of_rely ht h) Guarantee.refl htr fun db₁ h₁ => ?_
  let found := evaluate (candidates db₁ osId osVersion batch (perVersion vs).pairs)
  let scope := Scope.release osId osVersion batch
  have hrel : ∀ {s}, Turn osId osVersion vs hosts done s → ∀ agent ∈ batch,
      hostRelease s agent = some (osId, osVersion) := fun ht agent ha => (ht.hosts agent).mp (hbat ha)
  have hft : Fits db₁ scope found :=
    fits_evaluate (hrel h₁) fun agent ha => (h₁.watched agent (hrel h₁ agent ha)).2
  refine .transaction_bind (P := fun s => Turn osId osVersion vs hosts done s ∧ Fits s scope found)
    (fun s s' h hs => ?_) Guarantee.refl ⟨h₁, hft⟩ fun db₂ db₂' m h₂ happ => ?_
  · have ht := hs.1.of_rely h
    exact ⟨ht, hs.2.of_keeps fun agent ha => h.keeps (hrel ht agent ha)⟩
  obtain ⟨hg, hcur⟩ := guarantee_apply h₂.2 happ
  have ht := h₂.1.of_rely (hg.rely (.release osId osVersion now))
  refine ⟨hg, .pure (fun _ _ h ht => .of_rely ht h) ⟨ht.watched, ht.hosts, ?_⟩ fun _ hs => hs⟩
  intro b hb agent ha hr
  rcases mem_append.mp hb with hb | hb
  · exact ht.current b hb agent ha hr
  obtain rfl := mem_singleton.mp hb
  -- Open records of the host are of the release, so all are in scope.
  refine hcur agent ha fun advisory hop => decide_eq_true ⟨ha, ?_⟩
  have hr₂ := hrel h₂.1 agent ha
  obtain ⟨osId', osVersion', hr', hadv⟩ := (h₂.1.watched agent hr₂).1 advisory hop
  obtain ⟨rfl, rfl⟩ := Prod.mk.inj (Option.mem_unique hr₂ hr')
  exact hadv

/-- **`match_release` among others**: as long as the hosts of the release keep their inventories, it marks only current
hosts. -/
theorem matchRelease_meets (osId osVersion : String) (now : Time)
    (hown : ∀ agent, hostRelease db agent = some (osId, osVersion) → OwnRelease db agent) :
    Meets (Rely (.release osId osVersion now)) Guarantee (OnOk fun _ _ => True)
      (matchRelease osId osVersion now) db := by
  refine .query_bind
    (P := fun s => ∀ agent, hostRelease s agent = some (osId, osVersion) → OwnRelease s agent)
    (fun s s' h hs agent ha => (h.keeps ha).ownRelease (hs agent ((h.release_iff agent).mp ha)))
    Guarantee.refl hown fun db₁ h₁ => ?_
  let vs := versionCandidates db₁ osId osVersion none
  have hwat : Watched osId osVersion vs db₁ := fun agent ha => ⟨h₁ agent ha, fun c hc => perVersion_mem_none hc⟩
  refine .transaction_bind (fun _ _ h hw => .of_rely hw h) Guarantee.refl hwat
    fun db₂ db₂' _ h₂ happ => ?_
  have hg₂ := guarantee_applyVersions happ
  refine ⟨hg₂, .query_bind (fun _ _ h hw => .of_rely hw h) Guarantee.refl
    (h₂.of_rely (hg₂.rely (.release osId osVersion now))) fun db₃ h₃ => ?_⟩
  let hosts := releaseHosts db₃ osId osVersion
  have htr : Turn osId osVersion vs hosts [] db₃ := ⟨h₃, fun agent => mem_releaseHosts, forall_mem_nil _⟩
  have hflt : (chunks (max matchBatch 1) hosts).flatten = hosts := flatten_chunks (by decide) hosts
  have hsub : ∀ batch ∈ chunks (max matchBatch 1) hosts, batch ⊆ hosts := fun batch hb agent ha =>
    hflt ▸ mem_flatten.mpr ⟨batch, hb, ha⟩
  refine .except_bind (.foldlM (I := Turn osId osVersion vs hosts)
    (fun _ _ _ h ht => ht.of_rely h) (fun done batch hb n s hs => matchHosts_meets (hsub batch hb) done n hs) [] 0
    htr) fun n db₄ h₄ => ?_
  refine .transaction_bind (fun _ _ h ht => .of_rely ht h) Guarantee.refl h₄ fun db₅ db₅' _ h₅ hmk => ?_
  cases hmk
  refine ⟨guarantee_markMatched fun g hg hon => ?_, meets_pure n _⟩
  have hr : hostRelease db₅ g.agentId = some (osId, osVersion) :=
    hostRelease_eq_some_iff.mpr ⟨g, Table.get?_eq_some_iff.mpr ⟨hg, rfl⟩, hon⟩
  obtain ⟨batch, hb, ha⟩ := mem_flatten.mp (hflt.symm ▸ (h₅.hosts g.agentId).mpr hr)
  exact h₅.current batch hb g.agentId ha hr

end

/-! ### Every schedule -/

/-- What holds throughout: the marker is true and of no later matcher, and links are to
stored versions. -/
structure MarkerInv (db : Db) : Prop where
  markerTrue : MarkerTrue db
  marker_le : ∀ g ∈ db.agents.rows, g.vulnerabilityMatchVersion ≤ matcherVersion
  linked : Linked db

theorem Guarantee.markerInv (h : Guarantee db db') (hi : MarkerInv db) : MarkerInv db' where
  markerTrue g' hg' hm := by
    rcases h.marks g' hg' with ⟨g, hg, hid, hmk⟩ | ⟨-, hc⟩
    · exact hid ▸ (h.keeps g.agentId).current (hi.markerTrue g hg (hmk.trans hm))
    · exact hc
  marker_le g' hg' := by
    rcases h.marks g' hg' with ⟨g, hg, -, hmk⟩ | ⟨hmk, -⟩
    · exact hmk ▸ hi.marker_le g hg
    · exact hmk.le
  linked := h.linked hi.linked

theorem keeps_of_rewrites (h : Rewrites agentId db db') (hlnk : Linked db) (ha : agent ≠ agentId) :
    Keeps agent db db' :=
  keeps_of_sameHost (h.sameHost hlnk ha) fun _ => by rw [openRecord, openRecord, h.vulnerabilities]

theorem markerInv_of_rewrites (h : Rewrites agentId db db') (hi : MarkerInv db) : MarkerInv db' := by
  -- The host's own marker is reset, and another host's row is as it was.
  have hrow : ∀ g ∈ db'.agents.rows,
      g.vulnerabilityMatchVersion = 0 ∨ (g.agentId ≠ agentId ∧ g ∈ db.agents.rows) := by
    intro g hg
    have hget : db'.agents.get? g.agentId = some g := Table.get?_eq_some_iff.mpr ⟨hg, rfl⟩
    by_cases hid : g.agentId = agentId
    · exact .inl (h.marker g (hid ▸ hget))
    · rw [h.agents g.agentId hid] at hget
      exact .inr ⟨hid, (Table.get?_eq_some_iff.mp hget).1⟩
  refine ⟨fun g hg hm => ?_, fun g hg => ?_, h.linked hi.linked⟩
  · rcases hrow g hg with h0 | ⟨hid, hold⟩
    · exact absurd (h0.symm.trans hm) (by decide)
    · exact (keeps_of_rewrites h hi.linked hid).current (hi.markerTrue g hold hm)
  · rcases hrow g hg with h0 | ⟨-, hold⟩
    · exact h0.le.trans (Nat.zero_le _)
    · exact hi.marker_le g hold

variable {P : Matches}

theorem Undisturbed.outside {op : Ingest} (h : Undisturbed fp P (.outside op)) (hi : MarkerInv P.state) :
    MarkerInv (op.effect fp P.state) ∧
      ∀ x ∈ P.running, x.2.isRet = false → Rely x.1 P.state (op.effect fp P.state) := by
  have hsm : op.effect fp P.state = P.state → MarkerInv (op.effect fp P.state) ∧
      ∀ x ∈ P.running, x.2.isRet = false → Rely x.1 P.state (op.effect fp P.state) := by
    intro heq
    rw [heq]
    exact ⟨hi, fun x _ _ => (Guarantee.refl P.state).rely x.1⟩
  rcases ingest_rewrites fp P.state op with heq | hrw
  · exact hsm heq
  rcases h with heq | hcov
  · exact hsm heq
  refine ⟨markerInv_of_rewrites hrw hi, fun x hx hret agent ha => keeps_of_rewrites hrw hi.linked ?_⟩
  rintro rfl
  obtain ⟨hbef, haft⟩ := hcov x hx hret
  exact ha.elim hbef haft

theorem Undisturbed.start {job : Job} (h : Undisturbed fp P (.start job)) :
    job.prog.Meets (Rely job) Guarantee (fun _ _ => True) P.state := by
  cases job with
  | host agentId now => exact (matchHost_meets agentId now P.state).imp fun _ _ _ => trivial
  | release osId osVersion now => exact (matchRelease_meets osId osVersion now h).imp fun _ _ _ => trivial

theorem mem_hostsNeedingMatch {ver : ℕ} (hg : g ∈ db.agents.rows) (hinve : g.inventorySha256.isSome)
    (hid : g.osId.isSome) (hver : g.osVersion.isSome) (hmk : g.vulnerabilityMatchVersion < ver) :
    g.agentId ∈ hostsNeedingMatch db ver := by
  rw [hostsNeedingMatch, mem_insertionSort]
  exact mem_map_of_mem (mem_filter.mpr ⟨hg, decide_eq_true ⟨hinve, hid, hver, hmk⟩⟩)

/-- **The marker is true in every schedule that disturbs no match**: if ingest changes no inventory of a host that a
running match covers, and a release is matched only when its hosts have no open record of another, then every marked
host is current, and every host that is not current is listed for a match. -/
theorem marker_true (fp : Fingerprint) (db : Db) (hinv : MarkerInv db) (schedule : List (Act Job Ingest))
    (h : Pool.Each Job.prog (fun op db => op.effect fp db) (Undisturbed fp) ⟨db, []⟩ schedule) :
    MarkerTrue (Matches.after fp ⟨db, []⟩ schedule).state ∧
      ∀ g ∈ (Matches.after fp ⟨db, []⟩ schedule).state.agents.rows,
        g.inventorySha256.isSome → g.osId.isSome → g.osVersion.isSome →
        ¬ Current (Matches.after fp ⟨db, []⟩ schedule).state g.agentId →
        g.agentId ∈ hostsNeedingMatch (Matches.after fp ⟨db, []⟩ schedule).state matcherVersion := by
  have hend : MarkerInv (Matches.after fp ⟨db, []⟩ schedule).state :=
    Pool.acts_invariant (R := Rely) (G := Guarantee) (fun _ _ hok _ => hok.start) (fun _ _ hok hi => hok.outside hi)
      (fun _ _ hg hi => hg.markerInv hi) (fun job _ _ hg => hg.rely job)
      (fun _ hx => absurd hx not_mem_nil) hinv h
  refine ⟨hend.markerTrue, fun g hg hinve hid hver hstl => ?_⟩
  refine mem_hostsNeedingMatch hg hinve hid hver (lt_of_le_of_ne (hend.marker_le g hg) fun hm => ?_)
  exact hstl (hend.markerTrue g hg hm)

theorem markerInv_of_unmarked (hmk : ∀ g ∈ db.agents.rows, g.vulnerabilityMatchVersion = 0) (hlnk : Linked db) :
    MarkerInv db where
  markerTrue g hg hm := absurd ((hmk g hg).symm.trans hm) (by decide)
  marker_le g hg := (hmk g hg).le.trans (Nat.zero_le _)
  linked := hlnk

/-- A Fedora host with a package, and for two releases an advisory that is fixed by version 3.5.2. -/
def opensslHost (osVersion version : String) : Db :=
  { Db.empty with
    agents := Table.empty.insertNew ⟨"a", some "fedora", some osVersion, some [1], none, 0⟩
    packageVersions := Table.empty.insertNew ⟨1, "rpm", "openssl", 0, version, "1", "x86_64", none, none⟩
    hostPackages := Table.empty.insertNew ⟨"a", 1⟩
    advisories := Table.empty.insertAllNew [⟨"FEDORA-43", "fedora", "43"⟩, ⟨"FEDORA-44", "fedora", "44"⟩]
    advisoryPackages := Table.empty.insertAllNew
      [⟨"FEDORA-43", "openssl", "x86_64", .rpm, .binary, none, some "0:3.5.2-1", none⟩,
       ⟨"FEDORA-44", "openssl", "x86_64", .rpm, .binary, none, some "0:3.5.2-1", none⟩] }

/-- The host reports a version of the package, on Fedora 44. -/
def reports (version : String) : Ingest :=
  .replace "a" "fedora" "44" none [⟨"rpm", "openssl", 0, version, "1", "x86_64", none, none⟩] [2]

/-- A fingerprint; the schedules below have no change sets. -/
def noFingerprint : Fingerprint := fun _ _ _ _ => []

/-- The release is matched, the host reports the vulnerable version, and is matched. -/
def rematched : List (Act Job Ingest) :=
  [.start (.release "fedora" "44" 1), .advance 0 true, .advance 0 true, .advance 0 true, .advance 0 true,
   .advance 0 true, .advance 0 true, .outside (reports "3.5.1"), .start (.host "a" 2), .advance 1 true, .advance 1 true,
   .advance 1 true, .advance 1 true, .advance 1 true, .advance 1 true]

/-- The host is current after the schedule, marked, and has the vulnerability open. -/
theorem marker_true_rematched :
    MarkerTrue (Matches.after noFingerprint ⟨opensslHost "44" "3.5.2", []⟩ rematched).state ∧
      hostsNeedingMatch (Matches.after noFingerprint ⟨opensslHost "44" "3.5.2", []⟩ rematched).state matcherVersion =
        [] ∧
      openRecord (Matches.after noFingerprint ⟨opensslHost "44" "3.5.2", []⟩ rematched).state ("a", "FEDORA-44") =
        some ([⟨"openssl", "0:3.5.1-1", some "0:3.5.2-1", none⟩], false) := by
  refine ⟨(marker_true noFingerprint (opensslHost "44" "3.5.2")
    (markerInv_of_unmarked (by decide) (by unfold Linked; decide)) rematched ?_).1, by decide, by decide⟩
  refine ⟨fun agent _ advisory hop => absurd rfl hop, trivial, trivial, trivial, trivial, trivial, trivial,
    .inr fun x hx hret => ?_, trivial, trivial, trivial, trivial, trivial, trivial, trivial, trivial⟩
  -- The match of the release has returned when the host reports.
  have hdn : ∀ x ∈ (Matches.after noFingerprint ⟨opensslHost "44" "3.5.2", []⟩ (rematched.take 7)).running,
      x.2.isRet = true := by decide
  exact absurd (hdn x hx) (by simp [hret])

/-- Ingest stores the vulnerable version after `match_host` read the fixed one, before it marks. -/
def raced : List (Act Job Ingest) :=
  [.start (.host "a" 1), .advance 0 true, .advance 0 true, .advance 0 true, .advance 0 true,
   .outside (reports "3.5.1"), .advance 0 true, .advance 0 true]

/-- A host is matched, reports another release with the fixed version, and that release is matched. -/
def upgraded : List (Act Job Ingest) :=
  [.start (.host "a" 1), .advance 0 true, .advance 0 true, .advance 0 true, .advance 0 true, .advance 0 true,
   .advance 0 true, .outside (reports "3.5.2"), .start (.release "fedora" "44" 2), .advance 1 true, .advance 1 true,
   .advance 1 true, .advance 1 true, .advance 1 true, .advance 1 true]

theorem not_markerTrue (advisory : String) (hg : g ∈ db.agents.rows)
    (hm : g.vulnerabilityMatchVersion = matcherVersion)
    (h : openRecord db (g.agentId, advisory) ≠ expectedRecord db g.agentId advisory) : ¬ MarkerTrue db :=
  fun ht => h (ht g hg hm advisory)

/-- **The marker can lie.** An inventory stored while `match_host` runs is marked as matched; and a host that changed
its release is marked with a record of the old one still open. -/
theorem marker_lies :
    (MarkerInv (opensslHost "44" "3.5.2") ∧
      openRecord (Matches.after noFingerprint ⟨opensslHost "44" "3.5.2", []⟩ raced).state ("a", "FEDORA-44") = none ∧
      expectedRecord (Matches.after noFingerprint ⟨opensslHost "44" "3.5.2", []⟩ raced).state "a" "FEDORA-44" =
        some ([⟨"openssl", "0:3.5.1-1", some "0:3.5.2-1", none⟩], false) ∧
      hostsNeedingMatch (Matches.after noFingerprint ⟨opensslHost "44" "3.5.2", []⟩ raced).state matcherVersion = [] ∧
      ¬ MarkerTrue (Matches.after noFingerprint ⟨opensslHost "44" "3.5.2", []⟩ raced).state) ∧
    (MarkerInv (opensslHost "43" "3.5.1") ∧
      openRecord (Matches.after noFingerprint ⟨opensslHost "43" "3.5.1", []⟩ upgraded).state ("a", "FEDORA-43") =
        some ([⟨"openssl", "0:3.5.1-1", some "0:3.5.2-1", none⟩], false) ∧
      expectedRecord (Matches.after noFingerprint ⟨opensslHost "43" "3.5.1", []⟩ upgraded).state "a" "FEDORA-43" =
        none ∧
      hostsNeedingMatch (Matches.after noFingerprint ⟨opensslHost "43" "3.5.1", []⟩ upgraded).state matcherVersion =
        [] ∧
      ¬ MarkerTrue (Matches.after noFingerprint ⟨opensslHost "43" "3.5.1", []⟩ upgraded).state) := by
  refine ⟨⟨markerInv_of_unmarked (by decide) (by unfold Linked; decide), by decide, by decide, by decide, ?_⟩,
    markerInv_of_unmarked (by decide) (by unfold Linked; decide), by decide, by decide, by decide, ?_⟩
  · exact not_markerTrue (g := ⟨"a", some "fedora", some "44", some [2], none, 1⟩) "FEDORA-44" (by decide) rfl
      (by decide)
  · exact not_markerTrue (g := ⟨"a", some "fedora", some "44", some [2], none, 1⟩) "FEDORA-43" (by decide) rfl
      (by decide)

end OpenVibes.Vulns
