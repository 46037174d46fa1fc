import OpenVibes.Theory.Fallible
import OpenVibes.Vulns.FeedImport

/-!
# Verifying a signed feed

`crates/openvibes-vulns/src/feedfmt.rs`: the envelope, the Ed25519 signature, the manifest, time and sequence of a
`feed.json`, in this order; the sequence is compared with the one the caller read from the store earlier. JSON, base64,
the signature scheme and the hash function are parameters (`Formats`). `ManifestEntry.entry` is an entry with its hash
decoded. Times are in seconds.
-/

namespace OpenVibes.Vulns

open Rust Store Theory List

/-! ### Limits and refusals -/

def maxEnvelope : ℕ := 2 ^ 20

def maxFiles : ℕ := 64

def createdSkew : ℤ := 600

/-- `LATEST`: the year 2100. -/
def latest : ℤ := 4102444800

/-- `Refusal`: why a feed is refused. -/
inductive Refusal where
  /-- The envelope is oversized, unreadable, or not format 1. -/
  | badFormat
  | unknownKey
  | badSignature
  | badManifest
  | notYetValid
  | expired
  | sequenceReplay
  | sequenceConflict
deriving DecidableEq

def Refusal.asStr : Refusal → String
  | .badFormat => "bad_format"
  | .unknownKey => "unknown_key"
  | .badSignature => "bad_signature"
  | .badManifest => "bad_manifest"
  | .notYetValid => "not_yet_valid"
  | .expired => "expired"
  | .sequenceReplay => "sequence_replay"
  | .sequenceConflict => "sequence_conflict"

def Refusal.text : Refusal → String
  | .badFormat => "not a readable feed (bad format)"
  | .unknownKey => "signed by a key this platform does not trust"
  | .badSignature => "the signature does not verify"
  | .badManifest => "the manifest is unreadable or breaks a rule"
  | .notYetValid => "created more than 10 minutes in the future"
  | .expired => "the feed has expired"
  | .sequenceReplay => "older than a feed already accepted"
  | .sequenceConflict => "same sequence as an accepted feed but different content"

/-! ### Envelopes and manifests -/

/-- `TrustedKey`: a key a site trusts for one feed. -/
structure TrustedKey where
  (feedId keyId : String)
  publicKey : Bytes

/-- `FileEntry`, as the manifest spells it. -/
structure ManifestEntry where
  source : String
  kind : Kind
  (name sha256 : String)
  size : ℕ
  fetchedAt : ℤ
  upstream : String
  releases : Option (List String)
deriving DecidableEq

structure Manifest where
  sequence : ℕ
  (createdAt expiresAt : ℤ)
  files : List ManifestEntry
deriving DecidableEq

structure Envelope where
  format : ℕ
  (feedId keyId signature manifest : String)

structure Formats where
  envelope : Bytes → Option Envelope
  manifest : String → Option Manifest
  base64Decode : String → Option Bytes
  base64Encode : Bytes → String
  /-- The public key is one, is not weak, and `verify_strict` holds of the text and the signature. -/
  signed : (publicKey pre signature : Bytes) → Bool

/-- `identifier`: 1 to 128 of `A-Za-z0-9._:-`. -/
def identifier (text : String) : Bool :=
  let bytes := asBytes text
  1 ≤ bytes.length && bytes.length ≤ 128 &&
    bytes.all fun b => isAsciiAlphanumeric b || b = 46 || b = 95 || b = 58 || b = 45

/-- `canonical_b64`: re-encoding must give the same text. -/
def canonicalB64 (formats : Formats) (text : String) : Option Bytes :=
  (formats.base64Decode text).filter fun bytes => formats.base64Encode bytes = text

def toBeBytes : ℕ → ℕ → Bytes
  | 0, _ => []
  | width + 1, n => UInt8.ofNat (n / 256 ^ width) :: toBeBytes width n

/-- `preimage`: the bytes that are signed. -/
def preimage (feedId keyId manifest : String) : Bytes :=
  let field text := toBeBytes 4 (min (asBytes text).length (2 ^ 32 - 1)) ++ asBytes text
  asBytes "OPENVIBES-FEED-MANIFEST-V1" ++ [0] ++ toBeBytes 2 1 ++ field feedId ++ field keyId ++
    toBeBytes 8 (asBytes manifest).length ++ asBytes manifest

def isAsciiLowercase (c : UInt8) : Bool := 97 ≤ c && c ≤ 122

def hexLower (text : String) : Bool :=
  (asBytes text).length = 64 && (asBytes text).all fun b => isAsciiDigit b || (97 ≤ b && b ≤ 102)

/-- `within`. -/
def withinTimes (time : ℤ) : Bool := 1 ≤ time && time ≤ latest

/-- `source_fits` for a Fedora source. -/
def fedoraSource (source : String) : Bool :=
  match (asBytes "fedora-").isPrefixOf (asBytes source), splitOnce 45 ((asBytes source).drop 7) with
  | true, some (release, arch) =>
    1 ≤ release.length && release.length ≤ 3 && release.all isAsciiDigit && 1 ≤ arch.length && arch.length ≤ 16 &&
      arch.all fun b => isAsciiLowercase b || isAsciiDigit b || b = 95
  | _, _ => false

def sourceFits (entry : ManifestEntry) : Bool :=
  match entry.kind with
  | .repomd | .updateinfo => fedoraSource entry.source
  | .osv => entry.source ∈ ["debian", "ubuntu", "rocky-linux", "almalinux"]
  | .kev => entry.source = "kev"
  | .epss => entry.source = "epss"
  | .euvd => entry.source = "euvd"
  | .nvd => entry.source = "nvd"

/-- The releases of an entry: an OSV file names some, and no other file does. -/
def releasesOk (entry : ManifestEntry) : Bool :=
  match entry.releases, entry.kind with
  | some list, .osv =>
    1 ≤ list.length && list.length ≤ 64 && list.Nodup &&
      list.all fun release => 1 ≤ (asBytes release).length && (asBytes release).length ≤ 32 &&
        (asBytes release).all fun b => isAsciiLowercase b || isAsciiDigit b || b = 46 || b = 45
  | none, .osv => false
  | some _, _ => false
  | none, _ => true

def entryOk (entry : ManifestEntry) : Bool :=
  releasesOk entry && sourceFits entry &&
    1 ≤ (asBytes entry.name).length && (asBytes entry.name).length ≤ 64 &&
    (asBytes entry.name).all (fun b => isAsciiAlphanumeric b || b = 46 || b = 95 || b = 45) &&
    hexLower entry.sha256 && 1 ≤ entry.size && entry.size ≤ entry.kind.maxSize && withinTimes entry.fetchedAt &&
    (asBytes entry.upstream).length ≤ 2048 &&
    ((asBytes "https://").isPrefixOf (asBytes entry.upstream) || (asBytes "http://").isPrefixOf
      (asBytes entry.upstream)) &&
    !entry.upstream.toList.any isControl

def manifestOk (manifest : Manifest) : Bool :=
  1 ≤ manifest.sequence && withinTimes manifest.createdAt && withinTimes manifest.expiresAt &&
    manifest.createdAt < manifest.expiresAt && 1 ≤ manifest.files.length && manifest.files.length ≤ maxFiles &&
    manifest.files.all entryOk && (manifest.files.map fun file => (file.source, file.name)).Nodup

/-- The digit a hexadecimal character spells; 0 for another character. -/
def hexDigit (b : UInt8) : ℕ :=
  if isAsciiDigit b then b.toNat - 48
  else if 97 ≤ b ∧ b ≤ 102 then b.toNat - 87
  else if 65 ≤ b ∧ b ≤ 70 then b.toNat - 55
  else 0

/-- `decode`: the hash that 64 hexadecimal digits spell. -/
def decodeHex (hex : String) : Sha256 :=
  (chunks 2 (asBytes hex)).map fun pair => UInt8.ofNat (pair.foldl (fun n b => 16 * n + hexDigit b) 0)

def ManifestEntry.entry (e : ManifestEntry) : FileEntry :=
  ⟨e.source, e.kind, e.name, decodeHex e.sha256, e.size, e.fetchedAt, e.releases⟩

/-! ### `verify` -/

section

variable (formats : Formats)

def refuseIf (condition : Bool) (why : Refusal) : Except Refusal Unit := if condition then .error why else .ok ()

def orRefuse {α : Type} (x : Option α) (why : Refusal) : Except Refusal α := x.elim (.error why) .ok

/-- The first part of `verify`: the envelope, its form, and its signature by a trusted key. -/
def verifyEnvelope (bytes : Bytes) (trusted : List TrustedKey) : Except Refusal Envelope := do
  refuseIf (maxEnvelope < bytes.length) .badFormat
  let envelope ← orRefuse (formats.envelope bytes) .badFormat
  let signature ← orRefuse ((canonicalB64 formats envelope.signature).filter fun raw => raw.length = 64) .badFormat
  refuseIf (envelope.format ≠ 1 || !identifier envelope.feedId || !identifier envelope.keyId ||
    envelope.manifest.toList.length < 2 || maxEnvelope < envelope.manifest.toList.length) .badFormat
  let key ← orRefuse (trusted.find? fun key => key.feedId = envelope.feedId ∧ key.keyId = envelope.keyId) .unknownKey
  refuseIf (!formats.signed key.publicKey (preimage envelope.feedId envelope.keyId envelope.manifest) signature)
    .badSignature
  return envelope

def verifyManifest (text : String) (now : ℤ) : Except Refusal Manifest := do
  let manifest ← orRefuse (formats.manifest text) .badManifest
  refuseIf (!manifestOk manifest) .badManifest
  refuseIf (min (now + createdSkew) (2 ^ 63 - 1) < manifest.createdAt) .notYetValid
  refuseIf (manifest.expiresAt ≤ now) .expired
  return manifest

/-- The sequence against the one accepted before; whether the same manifest was accepted. -/
def verifySequence (sequence : ℕ) (digest : Sha256) : Option FeedState → Except Refusal Bool
  | none => .ok false
  | some known =>
    if sequence < known.sequence then .error .sequenceReplay
    else if sequence = known.sequence then
      if digest ≠ known.manifestDigest then .error .sequenceConflict else .ok true
    else .ok false

/-- `verify`: the verified feed, and whether the same manifest was accepted before. -/
def verify (readers : Readers) (bytes : Bytes) (trusted : List TrustedKey) (applied : List FeedState) (now : ℤ) :
    Except Refusal (AcceptedFeed × Bool) := do
  let envelope ← verifyEnvelope formats bytes trusted
  let manifest ← verifyManifest formats envelope.manifest now
  let digest := readers.sha256 (preimage envelope.feedId envelope.keyId envelope.manifest)
  let again ← verifySequence manifest.sequence digest
    (applied.find? fun known => known.feedId = envelope.feedId ∧ known.keyId = envelope.keyId)
  return (⟨envelope.feedId, envelope.keyId, manifest.sequence, manifest.files.map ManifestEntry.entry, digest⟩, again)

end

/-! ### What an accepted feed is -/

def AcceptedFeed.state (a : AcceptedFeed) : FeedState := ⟨a.feedId, a.keyId, a.sequence, a.digest⟩

variable {why : Refusal}

theorem of_orRefuse_eq_ok {α : Type} {x : Option α} {a : α} (h : orRefuse x why = .ok a) : x = some a := by
  cases x with
  | none => cases h
  | some b => exact congrArg some (Except.ok.inj h)

theorem of_refuseIf_eq_ok {cond : Bool} {u : Unit} (h : refuseIf cond why = .ok u) : cond = false := by
  cases cond with
  | false => rfl
  | true => cases h

variable {bytes : Bytes} {trusted : List TrustedKey} {now : ℤ} {text : String} {again : Bool} {formats : Formats}

theorem verifyEnvelope_ok {envelope : Envelope}
    (h : verifyEnvelope formats bytes trusted = .ok envelope) : formats.envelope bytes = some envelope := by
  obtain ⟨_, -, h⟩ := bind_eq_ok h
  obtain ⟨e, he, h⟩ := bind_eq_ok h
  obtain ⟨_, -, h⟩ := bind_eq_ok h
  obtain ⟨_, -, h⟩ := bind_eq_ok h
  obtain ⟨_, -, h⟩ := bind_eq_ok h
  obtain ⟨_, -, h⟩ := bind_eq_ok h
  cases h
  exact of_orRefuse_eq_ok he

theorem verifyManifest_ok {manifest : Manifest} (h : verifyManifest formats text now = .ok manifest) :
    formats.manifest text = some manifest ∧ manifestOk manifest = true := by
  obtain ⟨m, hm, h⟩ := bind_eq_ok h
  obtain ⟨_, hok, h⟩ := bind_eq_ok h
  obtain ⟨_, -, h⟩ := bind_eq_ok h
  obtain ⟨_, -, h⟩ := bind_eq_ok h
  cases h
  exact ⟨of_orRefuse_eq_ok hm, by simpa using of_refuseIf_eq_ok hok⟩

theorem verifySequence_ok {sequence : ℕ} {digest : Sha256} {known : FeedState}
    (h : verifySequence sequence digest (some known) = .ok again) :
    known.sequence < sequence ∨ known.sequence = sequence ∧ known.manifestDigest = digest := by
  rw [verifySequence] at h
  split_ifs at h with hlt heq hne
  · exact .inr ⟨heq.symm, (not_not.mp hne).symm⟩
  · exact .inl (by omega)

variable {a : AcceptedFeed} {readers : Readers} {applied : List FeedState}

/-- **An accepted feed, unpacked**: its envelope, its well-formed manifest, and the sequence. -/
theorem verify_ok (h : verify formats readers bytes trusted applied now = .ok (a, again)) :
    (∃ envelope manifest, formats.envelope bytes = some envelope ∧ formats.manifest envelope.manifest = some manifest ∧
      manifestOk manifest = true ∧ a = ⟨envelope.feedId, envelope.keyId, manifest.sequence,
        manifest.files.map ManifestEntry.entry,
        readers.sha256 (preimage envelope.feedId envelope.keyId envelope.manifest)⟩) ∧
      ∀ known, applied.find? (fun known => known.feedId = a.feedId ∧ known.keyId = a.keyId) = some known →
        known.sequence < a.sequence ∨ known.sequence = a.sequence ∧ known.manifestDigest = a.digest := by
  obtain ⟨envelope, henv, h⟩ := bind_eq_ok h
  obtain ⟨manifest, hmft, h⟩ := bind_eq_ok h
  obtain ⟨again', hagn, h⟩ := bind_eq_ok h
  cases h
  obtain ⟨hpar, hok⟩ := verifyManifest_ok hmft
  refine ⟨⟨envelope, manifest, verifyEnvelope_ok henv, hpar, hok, rfl⟩, fun known hkn => ?_⟩
  rw [hkn] at hagn
  exact verifySequence_ok hagn

/-- **No two files of an accepted feed are recorded under one key.** -/
theorem verify_nodup (h : verify formats readers bytes trusted applied now = .ok (a, again)) :
    (a.files.map fun e => e.row.key).Nodup := by
  obtain ⟨⟨envelope, manifest, -, -, hok, rfl⟩, -⟩ := verify_ok h
  have hnd : (manifest.files.map fun file => (file.source, file.name)).Nodup := by
    simp only [manifestOk, Bool.and_eq_true, decide_eq_true_eq] at hok
    exact hok.2
  rw [map_map]
  refine .of_map (fun k : String × String × String => (k.1, k.2.2)) ?_
  rw [map_map]
  exact hnd

/-! ### The signature is of one feed, key and manifest -/

theorem length_toBeBytes (width n : ℕ) : (toBeBytes width n).length = width := by
  induction width with
  | zero => rfl
  | succ width ih => exact congrArg Nat.succ ih

theorem length_le_of_identifier (h : identifier text = true) : (asBytes text).length ≤ 128 := by
  simp only [identifier, Bool.and_eq_true, decide_eq_true_eq] at h
  exact h.1.2

/-- **A field of the preimage ends where its length says**, so that what follows it is known too. -/
theorem field_inj {text' : String} {rest rest' : Bytes} (h : identifier text = true) (h' : identifier text' = true)
    (heq : toBeBytes 4 (min (asBytes text).length (2 ^ 32 - 1)) ++ (asBytes text ++ rest) =
      toBeBytes 4 (min (asBytes text').length (2 ^ 32 - 1)) ++ (asBytes text' ++ rest')) :
    text = text' ∧ rest = rest' := by
  have hle := length_le_of_identifier h
  have hle' := length_le_of_identifier h'
  rw [min_eq_left (by omega), min_eq_left (by omega)] at heq
  obtain ⟨hlen, htl⟩ := append_inj heq (by rw [length_toBeBytes, length_toBeBytes])
  -- the last byte of the length is the length
  have hby : UInt8.ofNat (asBytes text).length = UInt8.ofNat (asBytes text').length := by
    simpa [toBeBytes] using congrArg List.getLast? hlen
  have hsm : (asBytes text).length = (asBytes text').length := by
    have hnat := congrArg UInt8.toNat hby
    rw [UInt8.toNat_ofNat', UInt8.toNat_ofNat'] at hnat
    omega
  obtain ⟨htx, hrs⟩ := append_inj htl hsm
  exact ⟨asBytes_injective htx, hrs⟩

/-- **The signature preimage is unambiguous**: it says which feed, key and manifest it is of. -/
theorem preimage_inj {feedId keyId manifest feedId' keyId' manifest' : String} (hfd : identifier feedId = true)
    (hkey : identifier keyId = true) (hfd' : identifier feedId' = true) (hkey' : identifier keyId' = true) :
    (preimage feedId keyId manifest = preimage feedId' keyId' manifest' →
      feedId = feedId' ∧ keyId = keyId' ∧ manifest = manifest') ∧
    ∀ (formats : Formats) (publicKey signature : Bytes),
      (∀ pre, formats.signed publicKey pre signature = true → pre = preimage feedId keyId manifest) →
      formats.signed publicKey (preimage feedId' keyId' manifest') signature = true →
      feedId' = feedId ∧ keyId' = keyId ∧ manifest' = manifest := by
  have hinj : preimage feedId keyId manifest = preimage feedId' keyId' manifest' →
      feedId = feedId' ∧ keyId = keyId' ∧ manifest = manifest' := by
    intro heq
    simp only [preimage, append_assoc, append_cancel_left_eq] at heq
    obtain ⟨rfl, hrs⟩ := field_inj hfd hfd' heq
    obtain ⟨rfl, hla⟩ := field_inj hkey hkey' hrs
    obtain ⟨-, hmft⟩ := append_inj hla (by rw [length_toBeBytes, length_toBeBytes])
    exact ⟨rfl, rfl, asBytes_injective hmft⟩
  refine ⟨hinj, fun formats publicKey signature hunq hsig => ?_⟩
  obtain ⟨rfl, rfl, rfl⟩ := hinj (hunq _ hsig).symm
  exact ⟨rfl, rfl, rfl⟩

/-- Two feeds of one key, where the one id is the start of the other. -/
theorem preimage_inj_sample : identifier "feed" = true ∧ identifier "feed-1" = true ∧ identifier "k" = true ∧
    preimage "feed" "k" "\x7b\x7d" ≠ preimage "feed-1" "k" "\x7b\x7d" := by
  have hfd : identifier "feed" = true := by decide +kernel
  have hfd' : identifier "feed-1" = true := by decide +kernel
  have hkey : identifier "k" = true := by decide +kernel
  exact ⟨hfd, hfd', hkey, fun h => absurd ((preimage_inj hfd hkey hfd' hkey).1 h).1 (by decide)⟩

end OpenVibes.Vulns
