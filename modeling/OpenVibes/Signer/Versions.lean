import OpenVibes.Theory.Files
import OpenVibes.Theory.Steps

/-!
# The signer's versions

`State` of `crates/openvibes-signer/src/state.rs`, and the part of `check_and_sign` (`lib.rs`) that works on it: the
last version signed of each set is in memory and in `versions.json`. A `World` is the state directory (`Theory.Files`),
the signer with its requests, of which one at a time has the lock, and the runs of `openvibes-signer seed`; a move is a
step of one of them, or a crash. What the other checks decide is whether a request goes on (`refuse`).
-/

namespace OpenVibes.Signer

open Theory

/-! ### Files -/

/-- `SITE` and `SITE_ALARMS`. -/
inductive RuleSetId where
  | site
  | siteAlarms
deriving DecidableEq

structure SetState where
  version : ℕ
  expiresAtUnixMs : Option ℤ

structure Sets where
  site : SetState
  siteAlarms : SetState

def Sets.get (sets : Sets) : RuleSetId → SetState
  | .site => sets.site
  | .siteAlarms => sets.siteAlarms

def Sets.insert (sets : Sets) (state : SetState) : RuleSetId → Sets
  | .site => { sets with site := state }
  | .siteAlarms => { sets with siteAlarms := state }

inductive Name where
  | versions
  | rules (set : RuleSetId)
deriving DecidableEq

inductive Path where
  | file (name : Name)
  | temp (name : Name)
deriving DecidableEq

inductive Content where
  | versions (sets : Sets)
  | rules (payload : String)
  | unreadable

abbrev Disk := Files Path Content

/-- `State::open`: a version state, or none. -/
def openState (disk : Disk) : Option Sets :=
  match disk.read (.file .versions) with
  | some (.versions sets) => some sets
  | _ => none

def nextVersion (sets : Option Sets) (set : RuleSetId) : Option ℕ :=
  match sets with
  | none => none
  | some sets => if (sets.get set).version + 1 < 2 ^ 64 then some ((sets.get set).version + 1) else none

def writeAtomic (name : Name) (bytes : Content) : ExceptT Unit (Prog Disk) Unit :=
  Files.writeAtomic (.temp name) (.file name) .unreadable bytes

/-- `record_signed`, with the version state that it writes. -/
def recordSigned (set : RuleSetId) (sets : Sets) (payload : String) : ExceptT Unit (Prog Disk) Unit := do
  writeAtomic (.rules set) (.rules payload)
  writeAtomic .versions (.versions sets)

def seedSets (minVersion : ℕ) : Sets := ⟨⟨minVersion - 1, none⟩, ⟨minVersion - 1, none⟩⟩

/-! ### Processes -/

/-- A request that has the lock and records its signature. -/
structure Recording where
  set : RuleSetId
  version : ℕ
  sets : Sets
  rest : Prog Disk (Except Unit Unit)

inductive Seed where
  | begun (minVersion : ℕ)
  | found (minVersion : ℕ)
  /-- It has found no version state; what is left of `write_atomic`. -/
  | writing (rest : Prog Disk (Except Unit Unit))
  | ended

def Seed.isWriting : Seed → Bool
  | .writing _ => true
  | _ => false

structure World where
  disk : Disk
  /-- The signer, if it runs, with the version state it has. -/
  memory : Option (Option Sets)
  requests : ℕ → Option RuleSetId
  recording : Option Recording
  seeds : List Seed
  /-- The versions in the envelopes handed out, in the order they were recorded. -/
  handedOut : List (RuleSetId × ℕ)

inductive Move where
  /-- The signer starts, and reads the version state or fails to. -/
  | start (ok : Bool)
  | arrive (r : ℕ) (set : RuleSetId)
  | refuse (r : ℕ)
  /-- A request has passed all checks, takes the lock and is signed. -/
  | sign (r : ℕ) (payload : String) (expiresAtUnixMs : ℤ)
  | record (ok : Bool)
  /-- Its record has ended: the envelope is handed out, or the request refused. -/
  | answer
  | kill
  | crash (pick : Path → ℕ) (torn : ℕ → Content)
  | seed (minVersion : ℕ)
  | seedLook (i : ℕ) (ok : Bool)
  | seedOpen (i : ℕ) (ok : Bool)
  | seedWrite (i : ℕ) (ok : Bool)
  | seedEnd (i : ℕ)
  | spoil (n : ℕ)

def World.stop (W : World) : World := { W with memory := none, requests := fun _ => none, recording := none }

def World.setSeed (W : World) (i : ℕ) (seed : Seed) : World := { W with seeds := W.seeds.set i seed }

/-- `seed` has found no version state, and writes one. -/
def writeSeed (minVersion : ℕ) : Seed := .writing (writeAtomic .versions (.versions (seedSets minVersion)))

def step (W : World) : Move → Option World
  | .start ok =>
    match W.memory with
    | some _ => none
    | none => some { W with memory := some (if ok then openState W.disk else none) }
  | .arrive r set =>
    match W.memory, W.requests r with
    | some sets, none =>
      -- fail fast without state
      if (nextVersion sets set).isNone then some W
      else some { W with requests := Function.update W.requests r (some set) }
    | _, _ => none
  | .refuse r => some { W with requests := Function.update W.requests r none }
  | .sign r payload expiresAtUnixMs =>
    match W.memory, W.requests r, W.recording with
    | some sets, some set, none =>
      let W := { W with requests := Function.update W.requests r none }
      match sets, nextVersion sets set with
      | some sets, some version =>
        let new := sets.insert ⟨version, some expiresAtUnixMs⟩ set
        some { W with recording := some ⟨set, version, new, recordSigned set new payload⟩ }
      | _, _ => some W
    | _, _, _ => none
  | .record ok =>
    match W.recording with
    | none => none
    | some rec =>
      let (rest, disk) := rec.rest.advance ok W.disk
      some { W with disk := disk, recording := some { rec with rest := rest } }
  | .answer =>
    match W.recording with
    | some ⟨set, version, sets, .ret (.ok ())⟩ =>
      some { W with memory := some (some sets), recording := none, handedOut := W.handedOut ++ [(set, version)] }
    | some ⟨_, _, _, .ret (.error ())⟩ => some { W with recording := none }
    | _ => none
  | .kill => some W.stop
  | .crash pick torn => some { W.stop with disk := W.disk.crash pick torn, seeds := [] }
  | .seed minVersion => if minVersion = 0 then some W else some { W with seeds := W.seeds ++ [.begun minVersion] }
  | .seedLook i ok =>
    match W.seeds[i]? with
    | some (.begun minVersion) =>
      if ok && (W.disk.names (.file .versions)).isSome then some (W.setSeed i (.found minVersion))
      else some (W.setSeed i (writeSeed minVersion))
    | _ => none
  | .seedOpen i ok =>
    match W.seeds[i]? with
    | some (.found minVersion) =>
      -- a readable file is kept
      if ok && (openState W.disk).isSome then some (W.setSeed i .ended)
      else some (W.setSeed i (writeSeed minVersion))
    | _ => none
  | .seedWrite i ok =>
    match W.seeds[i]? with
    | some (.writing rest) =>
      let (rest, disk) := rest.advance ok W.disk
      some { W with disk := disk, seeds := W.seeds.set i (.writing rest) }
    | _ => none
  | .seedEnd i => some (W.setSeed i .ended)
  | .spoil n => some { W with disk := W.disk.spoil n .unreadable }

/-- A state directory on which nothing runs, before anything was handed out. -/
def World.initial (disk : Disk) : World := ⟨disk, none, fun _ => none, none, [], []⟩

end OpenVibes.Signer
