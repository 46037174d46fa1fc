import OpenVibes.Vulns.FeedVerify
import OpenVibes.Vulns.Sources

/-!
# Building a feed

`crates/openvibes-feed/src/build.rs` and `nvd.rs`: a build stores each upstream file as a blob, signs and writes
`feed.json`, prunes the blobs that no kept manifest names, and writes `state.json`, from which the next build takes the
sequence and the files and blobs to keep.

`build` is a program of steps of the file system, each of which can fail or be the last. A blob is its name. What the
upstreams answer (`Upstream`) and the surroundings (`Env`) are parameters. The tree also remembers every `feed.json`
written to it and how often `state.json` was; the builder reads neither.
-/

namespace OpenVibes.Feed

open Rust Theory Vulns

/-! ### The tree -/

/-- `Held`: one file the last build held. -/
structure Held where
  (name sha256 : String)
  size : ℕ
  fetchedAt : ℤ
  upstream : String
  etag : Option String
  releases : Option (List String)

/-- `BTreeMap<String, Held>`, from `source/kind`. -/
abbrev Files := Std.TreeMap String Held

/-- `State`: what `state.json` keeps between builds. -/
structure State where
  sequence : ℕ
  files : Files
  /-- Their blobs, kept for readers when the next manifest is published. -/
  previous : List String

/-- `State::default`. -/
def State.empty : State := ⟨0, ∅, []⟩

/-- `nvd::State`: what `nvd-state.json` keeps between builds. -/
structure NvdState where
  cursor : Option ℤ
  complete : Bool
  years : Std.TreeMap ℕ Held

structure Tree where
  feed : Option Manifest
  state : Option State
  nvd : Option NvdState
  blobs : List String
  published : List Manifest
  saves : ℕ

structure Env where
  (out ioError : String)
  sha256 : Bytes → String
  checkSourceUrl : String → Except String Unit
  /-- `Fetcher::new`, of the metalink's URL, the proxy and the limit. -/
  fetcher : String → Option String → ℕ → Except String Unit
  /-- Whether the envelope made of a manifest passes the first part of `verify`. -/
  envelopeOk : Manifest → Bool
  slimOk : Bytes → Bool
  formatDay : ℤ → String

abbrev BuildM (α : Type) := ExceptT String (Prog Tree) α

def orFail {α : Type} (x : Except String α) : BuildM α := .ret x

def fileStep {α : Type} (error : String) (act : Tree → Tree) (q : Tree → α) : BuildM α := Prog.stmt error act q

def blobExists (sha256 : String) : Prog Tree Bool :=
  .step id fun
    | some t => .ret (decide (sha256 ∈ t.blobs))
    | none => .ret false

def Tree.addBlob (t : Tree) (sha256 : String) : Tree := { t with blobs := t.blobs.insert sha256 }

def putBlob (env : Env) (sha256 : String) : BuildM Unit := do
  let there ← ExceptT.lift (blobExists sha256)
  if there then return () else fileStep ("cannot write a blob: " ++ env.ioError) (fun t => t.addBlob sha256) fun _ => ()

/-- `store`: writes the blob named by its hash. -/
def store (env : Env) (bytes : Bytes) : BuildM String := do
  putBlob env (env.sha256 bytes)
  return env.sha256 bytes

def usable : Option Held → Prog Tree (Option Held)
  | none => return none
  | some held => do
    let there ← blobExists held.sha256
    return if there then some held else none

def writeAtomic (env : Env) (file : String) (act : Tree → Tree) : BuildM Unit :=
  fileStep ("cannot write " ++ env.out ++ "/" ++ file ++ ": " ++ env.ioError) act fun _ => ()

/-! ### Upstreams -/

/-- `Config`: which upstream data a feed carries. -/
structure Config where
  (fedora osvReleases : List String)
  (metalinkUrl osvUrl kevUrl epssUrl euvdUrl nvdUrl : String)
  proxyUrl : Option String
  (maxFileBytes maxOsvBytes : ℕ)

structure Options where
  only : List String
  validDays : ℕ

structure FedoraFiles where
  name : String
  (repomd updateinfo : Bytes)

structure NvdWindow where
  cves : ℕ
  /-- The years whose records changed, in order, or why a page could not be read. -/
  years : Except String (List ℕ)
  yearFile : ℕ → Option Held → Except String Bytes

structure Upstream where
  /-- A small file by URL, unless it is the one with this tag: its content and tag. -/
  small : Kind → String → Option String → Except String (Option (Bytes × Option String))
  euvd : String → Except String Bytes
  /-- `Fetcher::fedora_files`: nothing if the updateinfo file has this hash. -/
  fedora : SourceId → Option Bytes → Except String (Option FedoraFiles)
  /-- `Fetcher::download_if_changed`: the hash, the length and the tag. -/
  osv : String → ℕ → Option String → Except String (Option (String × ℕ × Option String))
  apiKey : Except String Unit
  nvd : ℤ → ℤ → NvdWindow

def wants (only : List String) (source : String) : Bool := only = [] || only.contains source

/-- The value of two hexadecimal digits; `u8::from_str_radix` allows a sign in place of the first. -/
def hexPair (pair : Bytes) : Option UInt8 :=
  let digit := fun b : UInt8 => isAsciiDigit b || (97 ≤ b && b ≤ 102) || (65 ≤ b && b ≤ 70)
  match pair with
  | [a, b] =>
    if digit b then
      if digit a then some (UInt8.ofNat (16 * hexDigit a + hexDigit b))
      else if a = 43 then some (UInt8.ofNat (hexDigit b))
      else none
    else none
  | _ => none

def parseHex (text : String) : Option Bytes :=
  if (asBytes text).length = 64 then (chunks 2 (asBytes text)).mapM hexPair else none

section

variable (env : Env) (up : Upstream)

/-- `finish`: stores a file that was fetched. -/
def finish (body : Bytes) (kind : Kind) (name url : String) (etag : Option String) (now : ℤ) : BuildM Held :=
  if body.length = 0 ∨ kind.maxSize < body.length then
    throw (name ++ " is " ++ toString body.length ++ " bytes, outside the format's limit")
  else do
    let sha256 ← store env body
    return ⟨name, sha256, body.length, now, url, etag, none⟩

def unchanged (kept : Option Held) (now : ℤ) : BuildM Held :=
  match kept with
  | none => throw "not modified, but no earlier copy"
  | some kept => return { kept with fetchedAt := now }

/-- `small`: a small file fetched by URL. -/
def small (url : String) (kind : Kind) (name : String) (prev : Option Held) (now : ℤ) : BuildM Held := do
  let kept ← ExceptT.lift (usable prev)
  match ← orFail (up.small kind url (kept.bind Held.etag)) with
  | none => unchanged kept now
  | some (body, etag) => finish env body kind name url etag now

def updateinfoName (name : String) : String :=
  let compression := ((rsplitOnce '.' name.toList).map Prod.snd).getD []
  if compression ∈ ["zst".toList, "gz".toList, "xz".toList, "bz2".toList] then
    "updateinfo.xml." ++ String.ofList compression
  else "updateinfo.xml"

/-- `fedora`: a repository's index and its updateinfo file. -/
def fedora (config : Config) (source : String) (prevRepomd prevInfo : Option Held) (now : ℤ) :
    BuildM (Held × Held) := do
  let id ← orFail (SourceId.parse source)
  let repomd ← ExceptT.lift (usable prevRepomd)
  let info ← ExceptT.lift (usable prevInfo)
  let known := (repomd.bind fun _ => info).bind fun held => parseHex held.sha256
  let upstream := (config.metalinkUrl.replace "\x7brelease\x7d" id.osVersion).replace "\x7barch\x7d" id.arch
  match ← orFail (up.fedora id known) with
  | none =>
    match repomd, info with
    | some repomd, some info => return ({ repomd with fetchedAt := now }, { info with fetchedAt := now })
    | _, _ => throw "unchanged without a copy"
  | some files => do
    let repomd ← finish env files.repomd .repomd "repomd.xml" upstream none now
    let info ← finish env files.updateinfo .updateinfo (updateinfoName files.name) upstream none now
    return (repomd, info)

def osvUrlOf (config : Config) (ecosystem : String) : String :=
  String.ofList (config.osvUrl.toList.reverse.dropWhile (· = '/')).reverse ++ "/" ++
    String.ofList (ecosystem.toList.flatMap fun c => if c = ' ' then "%20".toList else [c]) ++ "/all.zip"

/-- `osv`: an ecosystem's file. -/
def osv (config : Config) (ecosystem : String) (releases : List String) (prev : Option Held) (now : ℤ) :
    BuildM Held := do
  let url := osvUrlOf config ecosystem
  let kept ← ExceptT.lift (usable prev)
  match ← orFail (up.osv url (min config.maxOsvBytes Kind.osv.maxSize) (kept.bind Held.etag)) with
  | none => do
    let kept ← unchanged kept now
    return { kept with releases := some releases }
  | some (sha256, size, etag) => do
    fileStep ("cannot read the download: " ++ env.ioError) id fun _ => ()
    if size = 0 then throw "the download is empty"
    else do
      putBlob env sha256
      return ⟨"all.zip", sha256, size, now, url, etag, some releases⟩

end

/-! ### NVD -/

section

variable (env : Env) (up : Upstream)

/-- `nvd::load`. -/
def loadNvd : BuildM NvdState :=
  fileStep ("cannot read nvd-state.json: " ++ env.ioError) id fun t => t.nvd.getD ⟨none, false, ∅⟩

/-- `nvd::save`. -/
def saveNvd (state : NvdState) : BuildM Unit := writeAtomic env "nvd-state.json" fun t => { t with nvd := some state }

/-- The earlier file of a year, which must be there: a year is not started over. -/
def earlierYear (state : NvdState) (year : ℕ) : BuildM (Option Held) :=
  match state.years[year]? with
  | none => return none
  | some held => do
    let there ← ExceptT.lift (blobExists held.sha256)
    if there then return some held
    else throw ("the file for " ++ toString year ++ " is missing from blobs/; remove nvd-state.json to read NVD again")

def flushYear (window : NvdWindow) (now : ℤ) (upstream : String) (state : NvdState) (year : ℕ) : BuildM NvdState := do
  let earlier ← earlierYear state year
  let bytes ← orFail (window.yearFile year earlier)
  if Kind.nvd.maxSize < bytes.length then
    throw ("the NVD file for " ++ toString year ++ " is larger than the format allows")
  else if !env.slimOk bytes then
    throw ("the NVD file for " ++ toString year ++ " is not accepted by the platform's reader")
  else do
    let sha256 ← store env bytes
    if (state.years[year]?).any fun held => held.sha256 = sha256 then return state
    else
      let held : Held := ⟨"nvd-" ++ toString year ++ ".json.gz", sha256, bytes.length, now, upstream, none, none⟩
      return { state with years := state.years.insert year held }

/-- `flush`: merges a window into the years' files. An error leaves the years before it changed. -/
def flush (window : NvdWindow) (now : ℤ) (upstream : String) :
    List ℕ → NvdState → Prog Tree (Except String Unit × NvdState)
  | [], state => return (.ok (), state)
  | year :: years, state => do
    match ← (flushYear env window now upstream state year).run with
    | .error e => return (.error e, state)
    | .ok state => flush window now upstream years state

structure NvdProgress where
  state : NvdState
  (windows cves : ℕ)

/-- The loop of `sync`, in microseconds. `turns` bounds the number of windows. -/
def syncWindows (now : ℤ) (upstream : String) : ℕ → ℤ → NvdProgress → Prog Tree (Except String Unit × NvdProgress)
  | 0, _, p => return (.ok (), p)
  | turns + 1, start, p =>
    if start < now * 1000000 then
      let stop := min (start + maxWindow) (now * 1000000)
      let window := up.nvd start stop
      let p := { p with cves := p.cves + window.cves }
      match window.years with
      | .error e => return (.error e, p)
      | .ok years => do
        let (result, state) ← flush env window now upstream years p.state
        match result with
        | .error e => return (.error e, { p with state := state })
        | .ok () => do
          let p := { p with state := { state with cursor := some (stop / 1000000) } }
          match ← (saveNvd env p.state).run with
          | .error e => return (.error e, p)
          | .ok () => syncWindows now upstream turns stop { p with windows := p.windows + 1 }
    else return (.ok (), p)

def present {κ : Type} : List (κ × Held) → Prog Tree (List (κ × Held))
  | [] => return []
  | (key, held) :: files => do
    let there ← blobExists held.sha256
    let rest ← present files
    return if there then (key, held) :: rest else rest

/-- `Synced`: what a run of `sync` leaves for the manifest. -/
structure Synced where
  /-- The years' files; none until a first pass is complete. -/
  files : List (String × Held)
  line : String
  fresh : Bool
  error : Option String

def synced (p : NvdProgress) (fresh : Bool) (error : Option String) : Prog Tree Synced :=
  let read := toString p.windows ++ " windows, " ++ toString p.cves ++ " CVEs this run"
  if p.state.complete then do
    let years ← present p.state.years.toList
    let files := years.map fun x => ("nvd/nvd#" ++ toString x.1, x.2)
    return ⟨files, "nvd " ++ toString files.length ++ " year files; read " ++ read, fresh, error⟩
  else
    let reached := (p.state.cursor.map env.formatDay).getD "nothing"
    return ⟨[], "nvd not published yet: the first read reached " ++ reached ++ " (" ++ read ++ ")", fresh, error⟩

/-- `sync`: reads NVD up to `now`. -/
def sync (config : Config) (now : ℤ) : BuildM Synced := do
  let state ← loadNvd env
  orFail up.apiKey
  let start := (state.cursor.map (· * 1000000)).getD applicabilityStart
  let (result, p) ← ExceptT.lift
    (syncWindows env up now config.nvdUrl (windowsBetween start (now * 1000000)) start ⟨state, 0, 0⟩)
  match result with
  | .ok () => do
    let p := { p with state := { p.state with complete := true } }
    saveNvd env p.state
    ExceptT.lift (synced env p true none)
  | .error e => ExceptT.lift (synced env p false (some e))

/-- `held_hashes`: the blobs NVD's saved state needs. -/
def heldHashes : Prog Tree (List String) :=
  .step id fun
    | some t => .ret ((t.nvd.elim [] fun state => state.years.values).map Held.sha256)
    | none => .ret []

end

/-! ### Collecting -/

/-- `Collected`: files gathered during a build, with the lines that describe them. -/
structure Collected where
  fetched : ℕ
  current : Files
  lines : List String
  failed : ℕ

/-- `Collected::default`. -/
def Collected.empty : Collected := ⟨0, ∅, [], 0⟩

def Collected.keep (got : Collected) (key : String) (earlier : Option Held) : Prog Tree Collected := do
  match ← usable earlier with
  | none => return got
  | some held =>
    return { got with
      lines := got.lines ++ [key ++ " kept from an earlier build"]
      current := got.current.insert key held }

/-- `Collected::one`: records a file, or why it is missing and whether an earlier copy stands in. -/
def Collected.one (got : Collected) (tag key : String) (result : Except String Held) (earlier : Option Held) :
    Prog Tree Collected :=
  match result with
  | .ok held =>
    let how := if earlier.any fun e => e.sha256 = held.sha256 then "unchanged" else "new"
    return { got with
      lines := got.lines ++ [key ++ " " ++ how ++ " " ++ toString held.size ++ " bytes"]
      fetched := got.fetched + 1
      current := got.current.insert key held }
  | .error e =>
    { got with failed := got.failed + 1, lines := got.lines ++ [tag ++ " FAILED: " ++ e] }.keep key earlier

structure Job where
  env : Env
  up : Upstream
  config : Config
  options : Options
  now : ℤ

section

variable (job : Job)

def addOne (source : String) (kind : Kind) (url : String) (fetch : BuildM Held) (state : State) (got : Collected) :
    Prog Tree Collected :=
  let key := source ++ "/" ++ kind.asStr
  if wants job.options.only source && url ≠ "" then do
    let result ← fetch.run
    got.one source key result state.files[key]?
  else return got

def addKev (state : State) : Collected → Prog Tree Collected :=
  let url := job.config.kevUrl
  addOne job "kev" .kev url
    (small job.env job.up url .kev "known_exploited_vulnerabilities.json" state.files["kev/kev"]? job.now) state

def addEpss (state : State) : Collected → Prog Tree Collected :=
  let url := job.config.epssUrl
  addOne job "epss" .epss url
    (small job.env job.up url .epss "epss_scores-current.csv.gz" state.files["epss/epss"]? job.now) state

def addEuvd (state : State) : Collected → Prog Tree Collected :=
  let url := job.config.euvdUrl
  addOne job "euvd" .euvd url
    (do
      let body ← orFail (job.up.euvd url)
      finish job.env body .euvd "exploited.json" url none job.now)
    state

def addFedora (state : State) (got : Collected) (source : String) : Prog Tree Collected :=
  let rk := source ++ "/repomd"
  let uk := source ++ "/updateinfo"
  if wants job.options.only source then do
    match ← (fedora job.env job.up job.config source state.files[rk]? state.files[uk]? job.now).run with
    | .ok (repomd, info) => do
      let got ← got.one source rk (.ok repomd) state.files[rk]?
      got.one source uk (.ok info) state.files[uk]?
    | .error e => do
      let got ← got.one source uk (.error e) state.files[uk]?
      got.keep rk state.files[rk]?
  else return got

/-- NVD. Its files stand even if it could not be read. -/
def addNvd (got : Collected) : BuildM Collected :=
  if wants job.options.only "nvd" && job.config.nvdUrl ≠ "" then do
    let synced ← sync job.env job.up job.config job.now
    let got := { got with lines := got.lines ++ [synced.line] }
    let got :=
      match synced.error with
      | some e => { got with failed := got.failed + 1, lines := got.lines ++ ["nvd FAILED: " ++ e] }
      | none => got
    return { got with
      fetched := if synced.fresh then got.fetched + 1 else got.fetched
      current := synced.files.foldl (fun files x => files.insert x.1 x.2) got.current }
  else return got

/-- The releases by ecosystem, in the order of the ecosystems' names. -/
def groups (releases : List Release) : List (String × List String) :=
  (group compare Release.ecosystem (fun release names => some (names.getD [] ++ [release.name])) releases).toList

def addOsv (state : State) (got : Collected) (ecosystem : String × List String) : Prog Tree Collected :=
  let source := String.ofList (ecosystem.1.toList.map fun c => if c = ' ' then '-' else c.toLower)
  let releases := (Std.TreeSet.ofList ecosystem.2).toList
  let key := source ++ "/osv"
  if wants job.options.only source && job.config.osvUrl ≠ "" then do
    let result ← (osv job.env job.up job.config ecosystem.1 releases state.files[key]? job.now).run
    got.one source key result state.files[key]?
  else return got

def sourceOf (key : String) : String := ((rsplitOnce '/' key.toList).map fun p => String.ofList p.1).getD ""

/-- Sources a run did not ask for stay as the last build had them. -/
def carryOver (state : State) (got : Collected) : Prog Tree Collected :=
  if job.options.only = [] then return got
  else do
    let files ← present (state.files.toList.filter fun x => !wants job.options.only (sourceOf x.1))
    return { got with current := files.foldl (fun files x => files.insertIfNew x.1 x.2) got.current }

/-- `run` up to the manifest: the files of the feed. -/
def collect (state : State) : BuildM Collected := do
  let got ← ExceptT.lift (addKev job state .empty)
  let got ← ExceptT.lift (addEpss job state got)
  let got ← ExceptT.lift (addEuvd job state got)
  let got ← ExceptT.lift (job.config.fedora.foldlM (addFedora job state) got)
  let got ← addNvd job got
  let releases ← orFail (job.config.osvReleases.mapM Release.parse)
  let got ← ExceptT.lift ((groups releases).foldlM (addOsv job state) got)
  -- signing earlier copies only would make an outage look fresh
  if got.fetched = 0 then
    throw ("no source could be fetched; nothing published\n" ++ "\n".intercalate got.lines)
  else ExceptT.lift (carryOver job state got)

/-! ### Publishing -/

def kindOf (text : String) : Option Kind :=
  [Kind.repomd, .updateinfo, .osv, .kev, .epss, .euvd, .nvd].find? fun kind => kind.asStr = text

/-- A file as the manifest spells it; several files of one kind carry `#` and a name. -/
def outFile (key : String) (held : Held) : Option (String × (Kind → ManifestEntry)) :=
  (rsplitOnce '/' key.toList).map fun p =>
    (String.ofList ((p.2.splitOn '#').headD []),
      fun kind => ⟨String.ofList p.1, kind, held.name, held.sha256, held.size, held.fetchedAt, held.upstream,
        held.releases⟩)

/-- The files of the manifest, if their kinds can be read back. -/
def outFiles (current : Files) : Option (List ManifestEntry) :=
  (current.toList.filterMap fun x => outFile x.1 x.2).mapM fun x => (kindOf x.1).map x.2

/-- The next sequence: after the last one, and not before the clock. -/
def nextSequence (state : State) : ℕ :=
  max ((state.sequence + 1) % 2 ^ 64) (if 0 ≤ job.now then job.now.toNat else 1)

/-- `feedfmt::verify` of the manifest built. -/
def verifyBuilt (files : Option (List ManifestEntry)) (sequence : ℕ) : Except Refusal Manifest := do
  let files ← orRefuse files .badManifest
  let manifest : Manifest := ⟨sequence, job.now, job.now + job.options.validDays * 86400, files⟩
  refuseIf (!job.env.envelopeOk manifest) .badFormat
  refuseIf (!manifestOk manifest) .badManifest
  refuseIf (min (job.now + createdSkew) (2 ^ 63 - 1) < manifest.createdAt) .notYetValid
  refuseIf (manifest.expiresAt ≤ job.now) .expired
  return manifest

/-- The loop of `prune`. A blob that cannot be removed stays. -/
def removeAll : List String → Prog Tree Unit
  | [] => return ()
  | name :: names =>
    .step (fun t => { t with blobs := t.blobs.filter fun blob => blob ≠ name }) fun _ => removeAll names

/-- `prune`: removes blobs no kept manifest names. -/
def prune (keep : List String) : Prog Tree Unit :=
  .step id fun
    | none => .ret ()
    | some t => removeAll (t.blobs.filter fun blob => blob ∉ keep)

/-- `feed.json` is written. -/
def Tree.publish (t : Tree) (manifest : Manifest) : Tree :=
  { t with feed := some manifest, published := t.published ++ [manifest] }

/-- `state.json` is written. -/
def Tree.save (t : Tree) (state : State) : Tree := { t with state := some state, saves := t.saves + 1 }

/-- `Report`: what a build did. -/
structure Report where
  lines : List String
  (failed sequence : ℕ)

/-- `run` once `feed.json` is written. -/
def conclude (state : State) (got : Collected) (sequence : ℕ) : BuildM Report := do
  let published := (Std.TreeSet.ofList (got.current.toList.map fun x => x.2.sha256)).toList
  let nvdHeld ← ExceptT.lift heldHashes
  ExceptT.lift (prune (published ++ state.previous ++ nvdHeld))
  writeAtomic job.env "state.json" fun t => t.save ⟨sequence, got.current, published⟩
  return ⟨got.lines, got.failed, sequence⟩

/-- `run` from the manifest on. -/
def publish (state : State) (got : Collected) : BuildM Report := do
  let sequence := nextSequence job state
  let manifest ← orFail ((verifyBuilt job (outFiles got.current) sequence).mapError fun why =>
    "the feed built does not verify (" ++ why.text ++ "); nothing published")
  writeAtomic job.env "feed.json" fun t => t.publish manifest
  conclude job state got sequence

/-- The checks before a build, and what `state.json` says. -/
def prepare : BuildM State := do
  orFail (if 1 ≤ job.options.validDays ∧ job.options.validDays ≤ 30 then .ok () else .error "valid days is 1 to 30")
  -- the lock is taken, and the directory of the blobs made
  fileStep ("cannot lock " ++ job.env.out ++ "/.build.lock: " ++ job.env.ioError) id fun _ => ()
  fileStep ("cannot create " ++ job.env.out ++ ": " ++ job.env.ioError) id fun _ => ()
  let state ← fileStep ("cannot read state.json: " ++ job.env.ioError) id fun t => t.state.getD .empty
  let config := job.config
  orFail (([config.kevUrl, config.epssUrl, config.euvdUrl, config.osvUrl, config.nvdUrl].filter (· ≠ "")).forM
    job.env.checkSourceUrl)
  orFail (job.env.fetcher config.metalinkUrl config.proxyUrl config.maxFileBytes)
  return state

/-- `run`: builds and publishes one feed. -/
def build : BuildM Report := do
  let state ← prepare job
  let got ← collect job state
  publish job state got

end

end OpenVibes.Feed
