import Constructicon.Library.Locked
import Constructicon.OperatorMetadata

/-!
# The offline helpers of an operator store

A bundle has two directories of metadata: its own, with the anchor and the active file,
and the inventory of descriptors, one file for each generation. Publication adds the
next descriptor, maintenance withdraws every generation there is, and activation selects
one that was published since. Each helper is a program of single file operations that
may fail or be the last one before a crash. A file is written under a name of its own
first and then linked or renamed, so it appears whole.
-/

namespace Constructicon

open PyJson Transaction Locked Locked.Program

/-! ## Files -/

structure Directory where
  entries : Dict PyStr ℕ
  blobs : List PyStr

namespace Directory

def empty : Directory := ⟨Dict.empty, []⟩

/-- What the file `name` holds. -/
def text? (d : Directory) (name : PyStr) : Option PyStr :=
  (d.entries.get? name).bind (fun ino => d.blobs[ino]?)

/-- `st_nlink` -/
def links (d : Directory) (ino : ℕ) : ℕ := d.entries.values.count ino

def create (d : Directory) (name : PyStr) : Directory :=
  ⟨d.entries.insert name d.blobs.length, d.blobs ++ [[]]⟩

def write (d : Directory) (fd : ℕ) (part : PyStr) : Directory :=
  { d with blobs := d.blobs.modify fd (· ++ part) }

def link (d : Directory) (ino : ℕ) (name : PyStr) : Directory :=
  { d with entries := d.entries.insert name ino }

def unlink (d : Directory) (name : PyStr) : Directory :=
  { d with entries := d.entries.erase name }

end Directory

/-- The objects `_open_bundle` identifies. -/
structure OpenedBundle where
  bundle : FileHandle
  store : FileHandle
  lock : FileHandle
deriving DecidableEq

structure StoreBundle where
  bundle : Directory
  descriptors : Directory
  live : OpenedBundle

inductive Place where
  | bundle
  | descriptors
deriving DecidableEq

namespace StoreBundle

def dir (s : StoreBundle) : Place → Directory
  | .bundle => s.bundle
  | .descriptors => s.descriptors

def setDir (s : StoreBundle) (p : Place) (d : Directory) : StoreBundle :=
  match p with
  | .bundle => { s with bundle := d }
  | .descriptors => { s with descriptors := d }

def fresh (live : OpenedBundle) : StoreBundle := ⟨Directory.empty, Directory.empty, live⟩

end StoreBundle

/-! ## Names -/

def anchorName : PyStr := points "anchor.json"

def activeName : PyStr := points "active.json"

/-- `f"{generation}.json"` -/
def generationFile (generation : ℕ) : PyStr := decimal generation ++ points ".json"

/-- `_GENERATION.fullmatch` -/
def isGeneration (name : PyStr) : Bool :=
  name.head?.all (· ≠ 48) && !(name.takeWhile isDigit).isEmpty && name.dropWhile isDigit = points ".json"

/-- `int(name.removesuffix(".json"))` -/
def generationOf (name : PyStr) : ℕ := ofDigits (name.takeWhile isDigit)

def pendingFile (token : PyStr) : PyStr := points ".pending-" ++ token

def placeOf (name : PyStr) : Option Place :=
  if name = anchorName ∨ name = activeName then some .bundle
  else if isGeneration name then some .descriptors
  else none

/-! ## File operations -/

/-- `bundle_presence` -/
inductive BundlePresence where
  | either
  | fresh
  | existing
deriving DecidableEq

inductive FileOp where
  /-- Create or verify the fixed children of the bundle. -/
  | provision (presence : BundlePresence)
  /-- `_open_bundle` -/
  | openBundle
  /-- `_read_metadata` -/
  | read (name : PyStr)
  /-- `os.scandir` of the inventory -/
  | scan
  /-- `secrets.token_hex` -/
  | token
  | create (p : Place) (name : PyStr)
  | write (p : Place) (fd : ℕ) (part : PyStr)
  /-- `fchown`, `fchmod`, `fsync` and `close` -/
  | upkeep
  | link (p : Place) (temporary name : PyStr)
  | unlink (p : Place) (name : PyStr)
  | replace (p : Place) (temporary name : PyStr)
  /-- What runs inside a maintenance. -/
  | lane

@[reducible] def FileAnswer : FileOp → Type
  | .provision _ => Unit
  | .openBundle => OpenedBundle
  | .read _ => PyStr
  | .scan => List PyStr
  | .token => PyStr
  | .create _ _ => ℕ
  | .write _ _ _ => ℕ
  | .upkeep => Unit
  | .link _ _ _ => Unit
  | .unlink _ _ => Unit
  | .replace _ _ _ => Unit
  | .lane => Unit

structure FileChoice where
  /-- The failure it raises instead. -/
  refused : Option StoreFault
  /-- How much of a write is taken. -/
  count : ℕ
  token : PyStr

abbrev FileResult (i : FileOp) : Type := StoreBundle × Except StoreFault (FileAnswer i)

def readFile (s : StoreBundle) (name : PyStr) : Except StoreFault PyStr := do
  let p ← expect (placeOf name) .contract
  let ino ← expect ((s.dir p).entries.get? name) .notFound
  let text ← expect (s.dir p).blobs[ino]? .notFound
  require ((s.dir p).links ino = 1 ∧ utf8Length text ≤ maxMetadataBytes) .contract
  return text

def createFile (s : StoreBundle) (p : Place) (name : PyStr) : FileResult (.create p name) :=
  if (s.dir p).entries.contains name then (s, .error .fileExists)
  else (s.setDir p ((s.dir p).create name), .ok (s.dir p).blobs.length)

def writeFile (s : StoreBundle) (p : Place) (fd : ℕ) (part : PyStr) (count : ℕ) :
    FileResult (.write p fd part) :=
  (s.setDir p ((s.dir p).write fd (part.take count)), .ok (part.take count).length)

def linkFile (s : StoreBundle) (p : Place) (temporary name : PyStr) : FileResult (.link p temporary name) :=
  match (s.dir p).entries.get? temporary with
  | none => (s, .error .notFound)
  | some ino =>
    if (s.dir p).entries.contains name then (s, .error .fileExists)
    else (s.setDir p ((s.dir p).link ino name), .ok ())

def unlinkFile (s : StoreBundle) (p : Place) (name : PyStr) : FileResult (.unlink p name) :=
  if (s.dir p).entries.contains name then (s.setDir p ((s.dir p).unlink name), .ok ())
  else (s, .error .notFound)

def replaceFile (s : StoreBundle) (p : Place) (temporary name : PyStr) :
    FileResult (.replace p temporary name) :=
  match (s.dir p).entries.get? temporary with
  | none => (s, .error .notFound)
  | some ino => (s.setDir p (((s.dir p).unlink temporary).link ino name), .ok ())

def performOp (i : FileOp) (s : StoreBundle) (c : FileChoice) : FileResult i :=
  match i with
  | .provision _ => (s, .ok ())
  | .openBundle => (s, .ok s.live)
  | .read name => (s, readFile s name)
  | .scan => (s, .ok s.descriptors.entries.keys)
  | .token => (s, .ok c.token)
  | .create p name => createFile s p name
  | .write p fd part => writeFile s p fd part c.count
  | .upkeep => (s, .ok ())
  | .link p temporary name => linkFile s p temporary name
  | .unlink p name => unlinkFile s p name
  | .replace p temporary name => replaceFile s p temporary name
  | .lane => (s, .ok ())

def performFile (i : FileOp) (s : StoreBundle) (c : FileChoice) : FileResult i :=
  match c.refused with
  | some e => (s, .error e)
  | none => performOp i s c

/-! ## The writers of one file -/

abbrev FileProgram : Type → Type := Program FileAnswer StoreFault

def askFile (i : FileOp) : FileProgram (FileAnswer i) := request i

/-- The loop of `os.write`, which makes progress or raises: `fuel` is the length of the text. -/
def writeAll (p : Place) (fd : ℕ) : ℕ → PyStr → FileProgram Unit
  | _, [] => pure ()
  | 0, _ :: _ => raise .os
  | fuel + 1, c :: cs => do
    let count ← askFile (.write p fd (c :: cs))
    if count = 0 then raise .os else writeAll p fd fuel ((c :: cs).drop count)

/-- Write the temporary file, seal and `fsync` it, and close it in any case. -/
def fillTemporary (p : Place) (fd : ℕ) (raw : PyStr) : FileProgram Unit :=
  finallyDo
    (do
      writeAll p fd raw.length raw
      askFile .upkeep
      askFile .upkeep)
    (askFile .upkeep)

def linkFault (e : StoreFault) : StoreFault := if e = .fileExists then .contract else e

def retire (p : Place) (temporary : PyStr) : FileProgram Unit := do
  askFile (.unlink p temporary)
  askFile .upkeep

/-- `_publish_new` -/
def publishNew (p : Place) (name raw : PyStr) : FileProgram Unit := do
  let token ← askFile .token
  let fd ← askFile (.create p (pendingFile token))
  finallyDo
    (do
      fillTemporary p fd raw
      rescue (askFile (.link p (pendingFile token) name)) (fun e => raise (linkFault e)))
    (retire p (pendingFile token))

/-- `with suppress(FileNotFoundError): os.unlink(temporary)` -/
def discardFile (p : Place) (temporary : PyStr) : FileProgram Unit :=
  rescue (askFile (.unlink p temporary)) (fun e => if e = .notFound then pure () else raise e)

/-- `_replace_metadata` -/
def replaceMetadata (p : Place) (name raw : PyStr) : FileProgram Unit := do
  let token ← askFile .token
  let fd ← askFile (.create p (pendingFile token))
  rescue
    (do
      fillTemporary p fd raw
      askFile (.replace p (pendingFile token) name))
    (fun e => finish (discardFile p (pendingFile token)) (.error e))
  askFile .upkeep

/-! ## Checks -/

variable {φ : Type} (F : FloatText φ)

structure StoreLaw where
  digest : String → Json → String
  layout : String
  mountLock : String

/-- `NativeOperatorStoreIdentityV1` -/
structure SealedStore where
  operatorBindingDigest : String
  layoutLawDigest : String
  mountLockLawDigest : String
  subscriptionModeAdapterRevision : String
  storeConformanceRevision : String

namespace StoreLaw

variable (law : StoreLaw)

/-- `_identity_instance` -/
def instanceOf (h : FileHandle) : String :=
  law.digest "native-operator-store-instance" (.obj [("boot_id", .str h.bootId), ("dev", .int h.dev),
    ("mount_id", .int h.mountId), ("handle_type", .int h.handleType), ("handle_hex", .str h.handleHex)])

/-- `not text.strip()` -/
def blank (text : String) : Bool := text.toList.all isSpace

/-- `operator_binding_digest` -/
def bindingDigest (key : String) (generation : ℕ) (storeInstance : String) : Except StoreFault String := do
  require (blank key = false ∧ blank storeInstance = false ∧ 1 ≤ generation) .contract
  return law.digest "native-operator-binding" (.obj [("key", .str key), ("generation", .int generation),
    ("store_instance", .str storeInstance)])

/-- `descriptor_digest` -/
def descriptorDigest (d : StoreDescriptor) : String := law.digest "native-operator-store-descriptor" d.body

/-- `store_identity_for` -/
def storeIdentityFor (key : String) (generation : ℕ) (storeInstance adapterRevision conformanceRevision : String) :
    Except StoreFault SealedStore := do
  let binding ← law.bindingDigest key generation storeInstance
  return ⟨binding, law.layout, law.mountLock, adapterRevision, conformanceRevision⟩

end StoreLaw

/-- `_require_same_objects` -/
def requireSameObjects (current original : OpenedBundle) : Except StoreFault Unit :=
  require (current.bundle = original.bundle ∧ current.store.sameStoreIdentity original.store = true ∧
    current.lock = original.lock) .contract

def nameRound (names : List PyStr) (entry : PyStr) : Except StoreFault (List PyStr) := do
  require (names.length < 1024 ∧ isGeneration entry = true) .contract
  return names ++ [entry]

/-- `_descriptor_names` -/
def descriptorNames : FileProgram (List PyStr) := do
  let found ← askFile .scan
  let names ← lift (found.foldlM nameRound [])
  return names.insertionSort (fun a b => generationOf a ≤ generationOf b)

/-- The highest generation of a sorted inventory, `0` for an empty one. -/
def highest (names : List PyStr) : ℕ :=
  match names.getLast? with
  | some name => generationOf name
  | none => 0

def SameHistory (old descriptor : StoreDescriptor) : Prop :=
  (old.storeInstanceId = descriptor.storeInstanceId →
    old.store.sameStoreIdentity descriptor.store = true ∧ old.lock = descriptor.lock) ∧
  (old.store.sameObjectAcrossBoots descriptor.store = true →
    old.lock.sameObjectAcrossBoots descriptor.lock = true)

instance (old descriptor : StoreDescriptor) : Decidable (SameHistory old descriptor) :=
  inferInstanceAs (Decidable (_ ∧ _))

def checkHistory (descriptor : StoreDescriptor) : List PyStr → FileProgram Unit
  | [] => pure ()
  | name :: names => do
    let raw ← askFile (.read name)
    let old ← lift (readDescriptor F raw)
    lift (require (SameHistory old descriptor) .contract)
    checkHistory descriptor names

/-- What ties a descriptor to the sealed identity and to the live objects. -/
def SealedDescriptor (law : StoreLaw) (opened : OpenedBundle) (d : StoreDescriptor) (sealed : SealedStore)
    (binding : String) : Prop :=
  d.bindingDigest = binding ∧ d.bindingDigest = sealed.operatorBindingDigest ∧
    d.layoutLawDigest = law.layout ∧ d.mountLockLawDigest = law.mountLock ∧
    d.layoutLawDigest = sealed.layoutLawDigest ∧ d.mountLockLawDigest = sealed.mountLockLawDigest ∧
    d.storeInstanceId = law.instanceOf opened.store ∧ d.bundle = opened.bundle ∧
    d.store.sameStoreIdentity opened.store = true ∧ d.lock = opened.lock

instance (law : StoreLaw) (opened : OpenedBundle) (d : StoreDescriptor) (sealed : SealedStore)
    (binding : String) : Decidable (SealedDescriptor law opened d sealed binding) :=
  inferInstanceAs (Decidable (_ ∧ _))

/-- `_check_descriptor` -/
def checkDescriptor (law : StoreLaw) (opened : OpenedBundle) (d : StoreDescriptor) (key : String)
    (generation : ℕ) (sealed : SealedStore) : FileProgram Unit := do
  lift (require (d.key = key ∧ d.generation = generation) .contract)
  let binding ← lift (law.bindingDigest d.key d.generation d.storeInstanceId)
  lift (require (SealedDescriptor law opened d sealed binding) .contract)
  let names ← descriptorNames
  checkHistory F d names

/-! ## The helpers -/

/-- `_hold_offline`, which polls the lock `waits` times after the first attempt. -/
def holdOffline (opened : OpenedBundle) (waits : ℕ) : FileProgram Unit := do
  take .contract waits
  let current ← askFile .openBundle
  lift (requireSameObjects current opened)

def anchorCurrent (opened : OpenedBundle) (key : String) (afterReboot : Bool) (anchor : StoreAnchor) :
    Except StoreFault Bool := do
  require (anchor.key = key) .contract
  if anchor.bundle = opened.bundle then return true
  else if afterReboot = true ∧ anchor.bundle.acrossReboot opened.bundle = true then return false
  else .error .contract

/-- `_anchor_is_current` -/
def anchorIsCurrent (opened : OpenedBundle) (key : String) (afterReboot : Bool) : FileProgram Bool := do
  let raw ← askFile (.read anchorName)
  let anchor ← lift (readAnchor F raw)
  lift (anchorCurrent opened key afterReboot anchor)

/-- What `_open_offline` does before it takes the lock. -/
def findOffline (key : String) (afterReboot : Bool) : FileProgram OpenedBundle := do
  let _ ← lift (requireToken (.str key))
  let opened ← askFile .openBundle
  let _ ← anchorIsCurrent F opened key afterReboot
  return opened

def settleAnchor (opened : OpenedBundle) (key : String) (raw : PyStr) :
    Except StoreFault PyStr → FileProgram Unit
  | .ok found => do
    let anchor ← lift (readAnchor F found)
    lift (require (anchor = ⟨key, opened.bundle⟩) .contract)
  | .error .notFound => publishNew .bundle anchorName raw
  | .error e => raise e

def publishHeld (law : StoreLaw) (key : String) (generation : ℕ) (adapterRevision conformanceRevision : String)
    (requireNext : Bool) (opened : OpenedBundle) : FileProgram SealedStore := do
  let sealed ← lift (law.storeIdentityFor key generation (law.instanceOf opened.store) adapterRevision
    conformanceRevision)
  let anchorRaw := canonicalText (StoreAnchor.mk key opened.bundle).body
  let descriptor : StoreDescriptor := ⟨key, generation, law.instanceOf opened.store,
    sealed.operatorBindingDigest, opened.bundle, opened.store, opened.lock, sealed.layoutLawDigest,
    sealed.mountLockLawDigest⟩
  let _ ← lift (readAnchor F anchorRaw)
  let _ ← lift (readDescriptor F (canonicalText descriptor.body))
  (askFile (.read anchorName)).after (settleAnchor F opened key anchorRaw)
  let names ← descriptorNames
  lift (require (requireNext = true → generation = highest names + 1) .contract)
  checkHistory F descriptor names
  publishNew .descriptors (generationFile generation) (canonicalText descriptor.body)
  return sealed

/-- `if bundle_presence == "existing"` -/
def requirePresence : BundlePresence → FileProgram Unit
  | .either => pure ()
  | .fresh => pure ()
  | .existing => do
    let _ ← askFile .openBundle

/-- `publish_descriptor_offline` -/
def publishDescriptorOffline (law : StoreLaw) (key : String) (generation : ℕ)
    (adapterRevision conformanceRevision : String) (presence : BundlePresence) (requireNext : Bool)
    (waits : ℕ) : FileProgram SealedStore :=
  rescue
    (do
      lift (require (1 ≤ generation) .contract)
      let _ ← lift (requireToken (.str key))
      requirePresence presence
      askFile (.provision presence)
      let opened ← askFile .openBundle
      holdOffline opened waits
      publishHeld F law key generation adapterRevision conformanceRevision requireNext opened)
    (fun _ => raise .contract)

def maintainHeld (key : String) (opened : OpenedBundle) : FileProgram ℕ := do
  let anchored ← anchorIsCurrent F opened key true
  let names ← descriptorNames
  let raw := canonicalText (.obj (Withdrawal.mk key (highest names)).entries)
  let _ ← lift (readWithdrawal F raw)
  replaceMetadata .bundle activeName raw
  if anchored = true then
    askFile .lane
    return highest names
  else
    let anchorRaw := canonicalText (StoreAnchor.mk key opened.bundle).body
    let _ ← lift (readAnchor F anchorRaw)
    replaceMetadata .bundle anchorName anchorRaw
    askFile .lane
    return highest names

/-- `maintain_offline` -/
def maintainOffline (key : String) (waits : ℕ) : FileProgram ℕ :=
  rescue
    (do
      let opened ← findOffline F key true
      holdOffline opened waits
      maintainHeld F key opened)
    (fun _ => raise .contract)

/-- `_current_withdrawal` -/
def currentWithdrawal (key : String) : FileProgram Withdrawal := do
  let raw ← askFile (.read activeName)
  let withdrawal ← lift (readWithdrawal F raw)
  lift (require (withdrawal.key = key) .contract)
  return withdrawal

def activateHeld (law : StoreLaw) (key : String) (generation : ℕ) (qualified : SealedStore)
    (opened : OpenedBundle) : FileProgram Unit := do
  let withdrawal ← currentWithdrawal F key
  lift (require (withdrawal.generationFloor < generation) .contract)
  let found ← askFile (.read (generationFile generation))
  let descriptor ← lift (readDescriptor F found)
  checkDescriptor F law opened descriptor key generation qualified
  let raw := canonicalText (.obj (ActiveSelection.mk key generation descriptor.bindingDigest
    (law.descriptorDigest descriptor)).entries)
  let _ ← lift (readActive F raw)
  replaceMetadata .bundle activeName raw

/-- `activate_offline` -/
def activateOffline (law : StoreLaw) (key : String) (generation : ℕ) (qualified : SealedStore)
    (waits : ℕ) : FileProgram Unit :=
  rescue
    (do
      lift (require (1 ≤ generation) .contract)
      let opened ← findOffline F key false
      holdOffline opened waits
      activateHeld F law key generation qualified opened)
    (fun _ => raise .contract)

/-! ## Calls of one bundle -/

inductive CustodyCall where
  | publish (generation : ℕ) (adapterRevision conformanceRevision : String) (presence : BundlePresence)
      (waits : ℕ)
  | maintain (waits : ℕ)
  | activate (generation : ℕ) (qualified : SealedStore) (waits : ℕ)
  /-- A provider that holds the lock of its acquisition. -/
  | retain (waits : ℕ)

inductive CustodyReceipt where
  | published (sealed : SealedStore)
  | maintained (floor : ℕ)
  | activated
  | retained

variable (law : StoreLaw) (key : String)

def custodyProgram : CustodyCall → FileProgram CustodyReceipt
  | .publish generation adapterRevision conformanceRevision presence waits => do
    let sealed ← publishDescriptorOffline F law key generation adapterRevision conformanceRevision presence
      true waits
    return .published sealed
  | .maintain waits => do
    let floor ← maintainOffline F key waits
    return .maintained floor
  | .activate generation qualified waits => do
    activateOffline F law key generation qualified waits
    return .activated
  | .retain waits => do
    take .contract waits
    return .retained

def rebooted (live : OpenedBundle) (s : StoreBundle) : StoreBundle := { s with live := live }

abbrev CustodyAction : Type := Locked.Action CustodyCall FileChoice OpenedBundle

abbrev CustodySite : Type := Locked.Site StoreBundle CustodyCall FileAnswer StoreFault CustodyReceipt

def custodyRun (live : OpenedBundle) (acts : List CustodyAction) : CustodySite :=
  Locked.run performFile (custodyProgram F law key) rebooted (StoreBundle.fresh live) acts

end Constructicon
