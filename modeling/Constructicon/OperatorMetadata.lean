import Constructicon.Identity
import Constructicon.Commands

/-!
# The metadata of an operator store

A bundle holds three kinds of metadata file, each one canonical JSON object: the anchor
names the bundle, a descriptor binds one generation to physical objects, and the active
file is a selection of one generation or the withdrawal of every generation up to a
floor. The readers accept no other keys, so a text is at most one of these, and what a
writer prints is read back as what it meant.
-/

namespace Constructicon

open PyJson Transaction

inductive StoreFault where
  /-- `FileNotFoundError` -/
  | notFound
  /-- `FileExistsError` -/
  | fileExists
  /-- Any other `OSError`. -/
  | os
  /-- `ContractViolation` -/
  | contract
deriving DecidableEq

/-- `FileHandleV1` -/
structure FileHandle where
  bootId : String
  mountId : ℕ
  handleType : ℕ
  handleHex : String
  dev : ℕ
  ino : ℕ
  mode : ℕ
  uid : ℕ
  nlink : ℕ
deriving DecidableEq

namespace FileHandle

/-- `model_dump` -/
def dump (h : FileHandle) : Json :=
  .obj [("boot_id", .str h.bootId), ("mount_id", .int h.mountId), ("handle_type", .int h.handleType),
    ("handle_hex", .str h.handleHex), ("dev", .int h.dev), ("ino", .int h.ino), ("mode", .int h.mode),
    ("uid", .int h.uid), ("nlink", .int h.nlink)]

/-- `_across_reboot` -/
def acrossReboot (anchored live : FileHandle) : Bool :=
  anchored.bootId ≠ live.bootId ∧ anchored.handleType = live.handleType ∧
    anchored.handleHex = live.handleHex ∧ anchored.dev = live.dev ∧ anchored.ino = live.ino ∧
    anchored.mode = live.mode ∧ anchored.uid = live.uid ∧ anchored.nlink = live.nlink

/-- `_same_object_across_boots` -/
def sameObjectAcrossBoots (left right : FileHandle) : Bool :=
  left.handleType = right.handleType ∧ left.handleHex = right.handleHex ∧ left.dev = right.dev ∧
    left.ino = right.ino

/-- `_same_store_identity` -/
def sameStoreIdentity (left right : FileHandle) : Bool :=
  left.bootId = right.bootId ∧ left.mountId = right.mountId ∧ left.handleType = right.handleType ∧
    left.handleHex = right.handleHex ∧ left.dev = right.dev ∧ left.ino = right.ino ∧
    left.mode = right.mode ∧ left.uid = right.uid

end FileHandle

/-- `_Anchor` -/
structure StoreAnchor where
  key : String
  bundle : FileHandle
deriving DecidableEq

/-- `_Descriptor` -/
structure StoreDescriptor where
  key : String
  generation : ℕ
  storeInstanceId : String
  bindingDigest : String
  bundle : FileHandle
  store : FileHandle
  lock : FileHandle
  layoutLawDigest : String
  mountLockLawDigest : String

/-- `_Active` -/
structure ActiveSelection where
  key : String
  generation : ℕ
  bindingDigest : String
  descriptorDigest : String

/-- `_Withdrawal` -/
structure Withdrawal where
  key : String
  generationFloor : ℕ

/-! ## Printing -/

namespace StoreAnchor

def body (a : StoreAnchor) : Json :=
  .obj [("schema_version", .int 1), ("key", .str a.key), ("bundle", a.bundle.dump)]

end StoreAnchor

namespace StoreDescriptor

def body (d : StoreDescriptor) : Json :=
  .obj [("schema_version", .int 1), ("key", .str d.key), ("generation", .int d.generation),
    ("store_instance_id", .str d.storeInstanceId), ("binding_digest", .str d.bindingDigest),
    ("bundle", d.bundle.dump), ("store", d.store.dump), ("lock", d.lock.dump),
    ("layout_law_digest", .str d.layoutLawDigest), ("mount_lock_law_digest", .str d.mountLockLawDigest)]

end StoreDescriptor

/-- The entries `activate_offline` prints. -/
def ActiveSelection.entries (a : ActiveSelection) : List (String × Json) :=
  [("schema_version", .int 1), ("key", .str a.key), ("generation", .int a.generation),
    ("binding_digest", .str a.bindingDigest), ("descriptor_digest", .str a.descriptorDigest)]

/-- The entries `maintain_offline` prints. -/
def Withdrawal.entries (w : Withdrawal) : List (String × Json) :=
  [("schema_version", .int 1), ("key", .str w.key), ("generation_floor", .int w.generationFloor)]

/-! ## Reading -/

def utf8Width (c : ℕ) : ℕ :=
  if c < 0x80 then 1 else if c < 0x800 then 2 else if c < 0x10000 then 3 else 4

def utf8Length (text : PyStr) : ℕ := (text.map utf8Width).sum

def maxMetadataBytes : ℕ := 64 * 1024

/-- `_require_token` -/
def requireToken : Json → Except StoreFault String
  | .str value =>
    if value ≠ "" ∧ stripped value ∧ Char.ofNat 0 ∉ value.toList then .ok value else .error .contract
  | _ => .error .contract

/-- `_require_int` -/
def requireInt (value : Json) (minimum : ℕ) : Except StoreFault ℕ :=
  match value with
  | .int n => if (minimum : ℤ) ≤ n then .ok n.toNat else .error .contract
  | _ => .error .contract

/-- `Digest.model_validate` of a JSON value. -/
def requireDigest : Json → Except StoreFault String
  | .str value =>
    if "sha256:".toList <+: value.toList ∧ (value.toList.drop 7).length = 64 ∧
        (value.toList.drop 7).all (fun c => "0123456789abcdef".toList.contains c) then .ok value
    else .error .contract
  | _ => .error .contract

/-- `set(body) == expected` -/
def hasKeys (body : List (String × Json)) (expected : List String) : Bool :=
  (body.map Prod.fst).all (fun k => expected.contains k) && expected.all (fun k => (body.map Prod.fst).contains k)

/-- `body[name]` where the keys have been checked. -/
def member (body : List (String × Json)) (name : String) : Json := (Dict.find body name).getD .null

/-- `_file_handle` -/
def readHandle : Json → Except StoreFault FileHandle
  | .obj value => do
    require (hasKeys value ["boot_id", "mount_id", "handle_type", "handle_hex", "dev", "ino", "mode",
      "uid", "nlink"]) .contract
    let handleHex ← requireToken (member value "handle_hex")
    require (handleHex.length ≤ 256 ∧ handleHex.length % 2 = 0 ∧
      handleHex.toList.all (fun c => "0123456789abcdef".toList.contains c)) .contract
    let bootId ← requireToken (member value "boot_id")
    let mountId ← requireInt (member value "mount_id") 1
    let handleType ← requireInt (member value "handle_type") 0
    let dev ← requireInt (member value "dev") 0
    let ino ← requireInt (member value "ino") 1
    let mode ← requireInt (member value "mode") 0
    let uid ← requireInt (member value "uid") 0
    let nlink ← requireInt (member value "nlink") 1
    return ⟨bootId, mountId, handleType, handleHex, dev, ino, mode, uid, nlink⟩
  | _ => .error .contract

variable {φ : Type} (F : FloatText φ)

def canonicalObject (raw : PyStr) : Json → Except StoreFault (List (String × Json))
  | .obj body => if canonicalText (.obj body) = raw then .ok body else .error .contract
  | _ => .error .contract

/-- `_metadata` -/
def readMetadata (raw : PyStr) : Except StoreFault (List (String × Json)) := do
  require (raw ≠ [] ∧ utf8Length raw ≤ maxMetadataBytes) .contract
  let parsed ← (parseJsonValue F raw).mapError (fun _ => StoreFault.contract)
  canonicalObject raw parsed

/-- `_anchor` -/
def readAnchor (raw : PyStr) : Except StoreFault StoreAnchor := do
  let body ← readMetadata F raw
  require (hasKeys body ["schema_version", "key", "bundle"] ∧ member body "schema_version" = .int 1) .contract
  let key ← requireToken (member body "key")
  let bundle ← readHandle (member body "bundle")
  return ⟨key, bundle⟩

/-- `_descriptor` -/
def readDescriptor (raw : PyStr) : Except StoreFault StoreDescriptor := do
  let body ← readMetadata F raw
  require (hasKeys body ["schema_version", "key", "generation", "store_instance_id", "binding_digest",
    "bundle", "store", "lock", "layout_law_digest", "mount_lock_law_digest"] ∧
    member body "schema_version" = .int 1) .contract
  let key ← requireToken (member body "key")
  let generation ← requireInt (member body "generation") 1
  let storeInstanceId ← requireToken (member body "store_instance_id")
  let bindingDigest ← requireDigest (member body "binding_digest")
  let bundle ← readHandle (member body "bundle")
  let store ← readHandle (member body "store")
  let lock ← readHandle (member body "lock")
  let layoutLawDigest ← requireDigest (member body "layout_law_digest")
  let mountLockLawDigest ← requireDigest (member body "mount_lock_law_digest")
  return ⟨key, generation, storeInstanceId, bindingDigest, bundle, store, lock, layoutLawDigest,
    mountLockLawDigest⟩

def activeKeys : List String := ["schema_version", "key", "generation", "binding_digest", "descriptor_digest"]

def withdrawalKeys : List String := ["schema_version", "key", "generation_floor"]

/-- `_active` -/
def readActive (raw : PyStr) : Except StoreFault ActiveSelection := do
  let body ← readMetadata F raw
  require (hasKeys body activeKeys ∧ member body "schema_version" = .int 1) .contract
  let key ← requireToken (member body "key")
  let generation ← requireInt (member body "generation") 1
  let bindingDigest ← requireDigest (member body "binding_digest")
  let descriptorDigest ← requireDigest (member body "descriptor_digest")
  return ⟨key, generation, bindingDigest, descriptorDigest⟩

/-- `_withdrawal` -/
def readWithdrawal (raw : PyStr) : Except StoreFault Withdrawal := do
  let body ← readMetadata F raw
  require (hasKeys body withdrawalKeys ∧ member body "schema_version" = .int 1) .contract
  let key ← requireToken (member body "key")
  let generationFloor ← requireInt (member body "generation_floor") 0
  return ⟨key, generationFloor⟩

/-! ## What a text says -/

theorem mem_keys_of_hasKeys {body : List (String × Json)} {expected : List String}
    (same : hasKeys body expected = true) {k : String} : k ∈ body.map Prod.fst ↔ k ∈ expected := by
  simp only [hasKeys, Bool.and_eq_true, List.all_eq_true, List.contains_iff_mem] at same
  exact ⟨same.1 k, same.2 k⟩

theorem readActive_keys {raw : PyStr} {a : ActiveSelection} (h : readActive F raw = .ok a) :
    ∃ body, readMetadata F raw = .ok body ∧ hasKeys body activeKeys = true := by
  simp only [readActive, bind_eq_ok, require_eq_ok] at h
  obtain ⟨body, read, -, keys, -⟩ := h
  exact ⟨body, read, keys.1⟩

theorem readWithdrawal_keys {raw : PyStr} {w : Withdrawal} (h : readWithdrawal F raw = .ok w) :
    ∃ body, readMetadata F raw = .ok body ∧ hasKeys body withdrawalKeys = true := by
  simp only [readWithdrawal, bind_eq_ok, require_eq_ok] at h
  obtain ⟨body, read, -, keys, -⟩ := h
  exact ⟨body, read, keys.1⟩

theorem active_not_withdrawal {raw : PyStr} {a : ActiveSelection} {w : Withdrawal}
    (active : readActive F raw = .ok a) (withdrawn : readWithdrawal F raw = .ok w) : False := by
  obtain ⟨body, read, keys⟩ := readActive_keys F active
  obtain ⟨body', read', keys'⟩ := readWithdrawal_keys F withdrawn
  rw [read] at read'
  cases read'
  have inside : "generation" ∈ body.map Prod.fst := (mem_keys_of_hasKeys keys).mpr (by decide)
  have outside : "generation" ∈ withdrawalKeys := (mem_keys_of_hasKeys keys').mp inside
  exact absurd outside (by decide)

theorem find_canonical {entries : List (String × Json)} (keys : (entries.map Prod.fst).Nodup) {k : String}
    {v : Json} (mem : (k, v) ∈ entries) :
    Dict.find (Json.sortKeys (entries.map (fun p => (p.1, p.2.canonical)))) k = some v.canonical := by
  have perm := Json.sortKeys_perm (entries.map (fun p : String × Json => (p.1, p.2.canonical)))
  apply Dict.find_of_mem
  · rw [(perm.map Prod.fst).nodup_iff, List.map_map]
    exact keys
  · rw [perm.mem_iff]
    exact List.mem_map_of_mem mem

theorem readMetadata_canonical {entries body : List (String × Json)}
    (wire : WireValue F (.obj entries)) (h : readMetadata F (canonicalText (.obj entries)) = .ok body) :
    body = Json.sortKeys (entries.map (fun p => (p.1, p.2.canonical))) := by
  simp only [readMetadata, bind_eq_ok] at h
  obtain ⟨-, -, parsed, read, whole⟩ := h
  have back : parseJsonValue F (canonicalText (.obj entries)) = .ok (Json.obj entries).canonical :=
    parseJsonValue_dumps F wire.canonical
  rw [back] at read
  have same : (Json.obj entries).canonical = parsed := by simpa [Except.mapError] using read
  rw [← same, Json.canonical_obj, canonicalObject] at whole
  split at whole
  · exact (Except.ok.inj whole).symm
  · cases whole

theorem wire_withdrawal (w : Withdrawal) : WireValue F (.obj w.entries) := by
  refine .obj ?_ ?_
  · simp only [Withdrawal.entries, List.map_cons, List.map_nil]
    decide
  · intro e mem
    simp only [Withdrawal.entries, List.mem_cons, List.not_mem_nil, or_false] at mem
    rcases mem with rfl | rfl | rfl
    · exact .int _
    · exact .str _
    · exact .int _

theorem wire_active (a : ActiveSelection) : WireValue F (.obj a.entries) := by
  refine .obj ?_ ?_
  · simp only [ActiveSelection.entries, List.map_cons, List.map_nil]
    decide
  · intro e mem
    simp only [ActiveSelection.entries, List.mem_cons, List.not_mem_nil, or_false] at mem
    rcases mem with rfl | rfl | rfl | rfl | rfl
    · exact .int _
    · exact .str _
    · exact .int _
    · exact .str _
    · exact .str _

theorem member_printed {entries body : List (String × Json)} (wire : WireValue F (.obj entries))
    (h : readMetadata F (canonicalText (.obj entries)) = .ok body) {k : String} {v : Json}
    (mem : (k, v) ∈ entries) : member body k = v.canonical := by
  cases wire with
  | obj keys wired =>
    rw [readMetadata_canonical F (.obj keys wired) h, member, find_canonical keys mem]
    rfl

theorem requireInt_natCast {n m minimum : ℕ} (h : requireInt (.int n) minimum = .ok m) : m = n := by
  rw [requireInt] at h
  split at h
  · have same := Except.ok.inj h
    omega
  · cases h

theorem readWithdrawal_printed {w r : Withdrawal}
    (h : readWithdrawal F (canonicalText (.obj w.entries)) = .ok r) :
    r.generationFloor = w.generationFloor := by
  simp only [readWithdrawal, bind_eq_ok] at h
  obtain ⟨body, read, -, -, key, -, floor, number, h⟩ := h
  cases h
  rw [member_printed F (wire_withdrawal F w) read
    (v := .int w.generationFloor) (by simp [Withdrawal.entries]), Json.canonical] at number
  exact requireInt_natCast number

theorem readActive_printed {a r : ActiveSelection}
    (h : readActive F (canonicalText (.obj a.entries)) = .ok r) : r.generation = a.generation := by
  simp only [readActive, bind_eq_ok] at h
  obtain ⟨body, read, -, -, key, -, generation, number, binding, -, descriptor, -, h⟩ := h
  cases h
  rw [member_printed F (wire_active F a) read
    (v := .int a.generation) (by simp [ActiveSelection.entries]), Json.canonical] at number
  exact requireInt_natCast number

end Constructicon
