import OpenVibes.Store.Feeds
import OpenVibes.Theory.Prog

/-!
# Import runs

What the importers of feeds share: the database, and `ensure_products` (`crates/openvibes-vulns/src/cpe.rs`), which
makes sure that NVD's ranges are kept for every product an installed package could be. An import is a program of
database steps (`Theory.Prog`). Beside the database stands a log of what the importers did (`World`), which none reads.
-/

namespace OpenVibes.Vulns

open Rust Store Theory Prog

inductive Event where
  | productsAdded (products : List String)
  /-- A page of an NVD window is stored: the `count` records from index `start`, of `total`. -/
  | pageStored (start stop : Time) (index count total : ℕ)
  | cursorSaved (t : Time)
  | advisoriesStored (ids : List String)
  | fileApplied (file : AppliedFile)
  | staleMarked (kind : String)
deriving DecidableEq

/-- The database, and what imports did to it, first to last. -/
structure World where
  db : Db
  log : List Event

/-- The inventories of the hosts, which others change between the runs of importers. -/
structure Inventories where
  agents : Table Agent Agent.agentId
  packageVersions : PackageVersions
  hostPackages : Table HostPackage id

def Inventories.empty : Inventories := ⟨.empty, .empty, .empty⟩

def curlHost : Inventories where
  agents := Table.empty.insertNew ⟨"a", some "fedora", some "44", some [1], none, 0⟩
  packageVersions := Table.empty.insertNew ⟨1, "rpm", "curl", 0, "8.15.0", "1.fc44", "x86_64", none, none⟩
  hostPackages := Table.empty.insertNew ⟨"a", 1⟩

def World.withInventories (w : World) (inventories : Inventories) : World :=
  { w with db := { w.db with
    agents := inventories.agents
    packageVersions := inventories.packageVersions
    hostPackages := inventories.hostPackages } }

abbrev ImportM := ExceptT String (Prog World)

def ask {α : Type} (q : Db → α) : ImportM α := Prog.query StoreError.unavailable.text fun w => q w.db

/-- A statement that acts on the database, is told by `events` and returns `q`. -/
def write {α : Type} (act : Db → Db) (events : Db → List Event) (q : Db → α) : ImportM α :=
  Prog.stmt StoreError.unavailable.text (fun w => ⟨act w.db, w.log ++ events w.db⟩) fun w => q w.db

/-- A transaction that is told by `events` if it commits. -/
def commit {α : Type} (t : Db → Except StoreError (Db × α)) (events : List Event) : ImportM α :=
  Prog.transaction StoreError.unavailable.text fun w =>
    match t w.db with
    | .ok (db, a) => .ok (⟨db, w.log ++ events⟩, a)
    | .error e => .error e.text

def onDb {α : Type} (p : Prog Db α) : Prog World α := p.zoom World.db fun w db => ⟨db, w.log⟩

section

variable {α β : Type} {I : World → Prop} {Q : Except String β → World → Prop} {w : World} {q : Db → α}
  {f : α → ImportM β} {act : Db → Db} {events : Db → List Event}

theorem always_ask_bind (hI : I w) (hok : Always I Q (f (q w.db)) w)
    (herr : ∀ e, Q (.error e) w) : Always I Q (ask q >>= f : ImportM β) w :=
  Always.except_bind ⟨hI, hok, herr _⟩

theorem always_write_bind (hI : I ⟨act w.db, w.log ++ events w.db⟩)
    (hok : Always I Q (f (q w.db)) ⟨act w.db, w.log ++ events w.db⟩) (herr : ∀ e, Q (.error e) w) :
    Always I Q (write act events q >>= f : ImportM β) w :=
  Always.except_bind ⟨hI, hok, herr _⟩

variable {G : World → World → Prop}

theorem within_ask (hG : ∀ w, G w w) (q : Db → α) : Within G (ask q) := Within.query hG _ _

theorem within_write (h : ∀ w, G w ⟨act w.db, w.log ++ events w.db⟩) : Within G (write act events q) :=
  Within.stmt _ h _

theorem within_commit (hG : ∀ w, G w w) {t : Db → Except StoreError (Db × α)} {events : List Event}
    (h : ∀ w db a, t w.db = .ok (db, a) → G w ⟨db, w.log ++ events⟩) : Within G (commit t events) := by
  refine Within.transaction hG _ fun w w' a ht => ?_
  cases hdb : t w.db with
  | ok r =>
    rw [hdb] at ht
    cases ht
    exact h w r.1 r.2 hdb
  | error e =>
    rw [hdb] at ht
    cases ht

end

theorem append_eq_append_cons {log new pre post : List Event} {e : Event} (h : log ++ new = pre ++ e :: post) :
    (∃ mid, log = pre ++ e :: mid ∧ post = mid ++ new) ∨ ∃ mid, pre = log ++ mid ∧ new = mid ++ e :: post := by
  rcases List.append_eq_append_iff.mp h with ⟨mid, rfl, hnew⟩ | ⟨mid, rfl, hcn⟩
  · exact .inr ⟨mid, rfl, hnew⟩
  · rcases List.cons_eq_append_iff.mp hcn with ⟨rfl, hnew⟩ | ⟨mid, rfl, rfl⟩
    · exact .inr ⟨[], by simp, by simpa using hnew⟩
    · exact .inl ⟨mid, rfl, rfl⟩

/-! ### Products -/

/-- `ALIASES`: names of packages, or source packages, that are not their CPE product's. -/
def aliases : List (String × String) :=
  [("curl", "libcurl"), ("libcurl", "curl"), ("httpd", "http_server"), ("python3", "python"),
   ("python3-libs", "python"), ("python3-devel", "python"), ("qemu-kvm", "qemu"), ("qemu-system-x86", "qemu"),
   ("vim-minimal", "vim"), ("vim-enhanced", "vim"), ("java-17-openjdk", "openjdk"), ("java-21-openjdk", "openjdk"),
   ("openssh-server", "openssh"), ("openssh-clients", "openssh"), ("libxml2", "libxml2"), ("pcre2", "pcre2"),
   ("sqlite-libs", "sqlite"), ("openssl-libs", "openssl"), ("glibc-common", "glibc"), ("gnutls", "gnutls")]

/-- `SUFFIXES` of subpackages named after their source. -/
def suffixes : List String :=
  ["-libs", "-devel", "-common", "-static", "-tools", "-data", "-core", "-utils", "-minimal", "-server", "-client",
   "-clients"]

/-- `Tie`: how a package was tied to a CPE product. -/
inductive Tie where
  | derived
  | exact
deriving DecidableEq

def Tie.max : Tie → Tie → Tie
  | .derived, .derived => .derived
  | _, _ => .exact

/-- `product_key`: a name as CPE products spell it. -/
def productKey (name : String) : String :=
  String.ofList ((toAsciiLowercase name).toList.map fun c => if c = '-' then '_' else c)

abbrev Products := Std.TreeMap String Tie compare

def Products.add (found : Products) (product : String) (tie : Tie) : Products :=
  found.alter product fun slot => some ((slot.getD tie).max tie)

/-- A turn of the loop of `products_of`, for the name itself or its source. -/
def Products.addOwn (name : String) (source : Option String) (found : Products) (own : String) : Products :=
  let found := match source with
    | some source => if own = name then found.add (productKey source) .exact else found
    | none => found
  let found := suffixes.foldl (fun found suffix =>
    match stripSuffix own.toList suffix.toList with
    | some base => found.add (productKey (String.ofList base)) .derived
    | none => found) found
  aliases.foldl (fun found x => if own = x.1 then found.add x.2 .derived else found) found

/-- `products_of`: the CPE products a package could be, and how each is tied to it. -/
def productsOf (name : String) (source : Option String) : Products :=
  (name :: source.toList).foldl (Products.addOwn name source) ((∅ : Products).add (productKey name) .exact)

/-- `is_kernel` of `cpe.rs`. -/
def isKernelName (name : String) : Bool := name == "kernel" || "kernel-".toList.isPrefixOf name.toList

/-- `wanted_products`: every CPE product some installed package could be. -/
def wantedProducts (installed : List InstalledName) : List String :=
  (Std.TreeSet.ofList ((installed.filter fun p => !isKernelName p.name).flatMap fun p =>
    (productsOf p.name p.source).toList.map Prod.fst) compare).toList

/-- `ensure_products`: ranges are to be kept for every product an installed package could be. Returns whether one is
new. -/
def ensureProducts (osId : String) : ImportM Bool := do
  let installed ← ask fun db => installedNames db osId
  let products := wantedProducts installed
  let added ← write (fun db => addProducts db products) (fun db => [.productsAdded (newProducts db products)])
    fun db => (newProducts db products).length
  return added > 0

end OpenVibes.Vulns
