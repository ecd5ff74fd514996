import Constructicon.Journal
import Constructicon.OperatorMetadata
import Constructicon.Library.Base64

/-!
# Cursors

A page that is not the last gives a cursor: the actor, the kind of query and a digest of the query, how
far the first page reached, and where the page ended, with a digest of it all. The cursor of a page is
read back by the next one as what was written.
-/

namespace Constructicon

open PyJson Transaction

structure Sha256 where
  hex : PyStr → String
  width : ∀ text, (hex text).toList.length = 64
  digits : ∀ text, ∀ c ∈ (hex text).toList, c ∈ "0123456789abcdef".toList

/-- `digest` -/
def Sha256.digest (sha : Sha256) (domain : String) (version : ℤ) (payload : Json) : Digest :=
  "sha256:" ++ sha.hex (points "constructicon" ++ 0 :: (points domain ++ 0 :: (integer version ++ 0 ::
    canonicalText payload)))

def utf8 (text : PyStr) : List ℕ := ((text.map Char.ofNat).flatMap String.utf8EncodeChar).map UInt8.toNat

/-- The reader of JSON behind `model_validate_json`: it reads what `canonical_json` prints. -/
structure JsonReader where
  read : List ℕ → Option Json
  reads : ∀ {j : Json}, WireValue noFloats j → read (utf8 (canonicalText j)) = some j.canonical

structure CursorPayload where
  actorId : String
  kind : String
  queryHash : Digest
  upperBound : Json
  lastKey : Json
  checksum : Digest

inductive CursorFault where
  /-- `CURSOR_INVALID` -/
  | cursorInvalid
  /-- `CURSOR_QUERY_MISMATCH` -/
  | cursorQueryMismatch
deriving DecidableEq

def cursorSchemaVersion : ℤ := 2

def CursorPayload.body (p : CursorPayload) : List (String × Json) :=
  [("schema_version", .int cursorSchemaVersion), ("actor_id", .str p.actorId), ("kind", .str p.kind),
    ("query_hash", .str p.queryHash), ("upper_bound", p.upperBound), ("last_key", p.lastKey)]

def cursorKeys : List String :=
  ["schema_version", "actor_id", "kind", "query_hash", "upper_bound", "last_key", "checksum"]

/-- `CursorPayload.model_validate`, strict and with no other key. -/
def CursorPayload.validate : Json → Option CursorPayload
  | .obj body => do
    guard (hasKeys body cursorKeys ∧ member body "schema_version" = .int cursorSchemaVersion)
    let actorId ← (member body "actor_id").text
    let kind ← (member body "kind").text
    let queryHash ← (requireDigest (member body "query_hash")).toOption
    let checksum ← (requireDigest (member body "checksum")).toOption
    return ⟨actorId, kind, queryHash, member body "upper_bound", member body "last_key", checksum⟩
  | _ => none

namespace CursorCodec

variable (sha : Sha256) (reader : JsonReader)

def queryHash (query : Json) : Digest := sha.digest "control-cursor-query" 1 query

def checksum (p : CursorPayload) : Digest := sha.digest "control-cursor" cursorSchemaVersion (.obj p.body)

def payload (actorId kind : String) (query upperBound lastKey : Json) : CursorPayload :=
  let p : CursorPayload := ⟨actorId, kind, queryHash sha query, upperBound, lastKey, ""⟩
  { p with checksum := checksum sha p }

def written (p : CursorPayload) : Json := .obj (p.body ++ [("checksum", .str p.checksum)])

def encode (actorId kind : String) (query upperBound lastKey : Json) : String :=
  String.ofList (Base64.strip (Base64.encode (utf8 (canonicalText
    (written (payload sha actorId kind query upperBound lastKey))))))

def parse (value : String) : Option CursorPayload := do
  let raw ← Base64.decode (Base64.pad value.toList)
  let json ← reader.read raw
  CursorPayload.validate json

def decode (value actorId kind : String) (query : Json) : Except CursorFault CursorPayload := do
  let payload ← (parse reader value).elim (.error .cursorInvalid) .ok
  require (payload.checksum = checksum sha payload) .cursorInvalid
  require (payload.actorId = actorId ∧ payload.kind = kind ∧ payload.queryHash = queryHash sha query)
    .cursorQueryMismatch
  return payload

end CursorCodec

/-! ## What is written is read back -/

theorem requireDigest_digest (sha : Sha256) (domain : String) (version : ℤ) (payload : Json) :
    requireDigest (.str (sha.digest domain version payload)) = .ok (sha.digest domain version payload) := by
  unfold Sha256.digest
  generalize points "constructicon" ++ 0 :: (points domain ++ 0 :: (integer version ++ 0 ::
    canonicalText payload)) = text
  have split : ("sha256:" ++ sha.hex text).toList = "sha256:".toList ++ (sha.hex text).toList := String.toList_append
  have rest : ("sha256:" ++ sha.hex text).toList.drop 7 = (sha.hex text).toList := by
    rw [split]
    exact List.drop_left' (by decide)
  have digits : (sha.hex text).toList.all (fun c => "0123456789abcdef".toList.contains c) = true := by
    rw [List.all_eq_true]
    intro c held
    exact List.contains_iff_mem.mpr (sha.digits text c held)
  rw [requireDigest, if_pos]
  rw [rest]
  exact ⟨⟨_, split.symm⟩, sha.width text, digits⟩

theorem hasKeys_of_perm {body : List (String × Json)} {keys : List String} (perm : (body.map Prod.fst).Perm keys) :
    hasKeys body keys = true := by
  simp only [hasKeys, Bool.and_eq_true, List.all_eq_true, List.contains_iff_mem]
  exact ⟨fun k held => perm.mem_iff.mp held, fun k held => perm.mem_iff.mpr held⟩

theorem digest_canonical (sha : Sha256) (domain : String) (version : ℤ) {j j' : Json}
    (same : j.canonical = j'.canonical) : sha.digest domain version j = sha.digest domain version j' := by
  unfold Sha256.digest canonicalText
  rw [same]

theorem utf8_small (text : PyStr) : ∀ b ∈ utf8 text, b < 256 := by
  intro b held
  obtain ⟨u, -, rfl⟩ := List.mem_map.mp held
  exact u.toNat_lt

namespace CursorCodec

variable {sha : Sha256} {reader : JsonReader}

def canonical (p : CursorPayload) : CursorPayload :=
  { p with upperBound := p.upperBound.canonical, lastKey := p.lastKey.canonical }

theorem checksum_canonical (p : CursorPayload) : checksum sha (canonical p) = checksum sha p := by
  apply digest_canonical
  rw [Json.canonical_obj, Json.canonical_obj]
  simp [CursorPayload.body, canonical, Json.canonical_canonical]

theorem wire_written {p : CursorPayload} (upper : WireValue noFloats p.upperBound)
    (last : WireValue noFloats p.lastKey) : WireValue noFloats (written p) := by
  refine .obj ?_ ?_
  · change cursorKeys.Nodup
    decide
  · intro e held
    simp only [CursorPayload.body, List.cons_append, List.nil_append, List.mem_cons, List.not_mem_nil,
      or_false] at held
    rcases held with rfl | rfl | rfl | rfl | rfl | rfl | rfl
    · exact .int _
    · exact .str _
    · exact .str _
    · exact .str _
    · exact upper
    · exact last
    · exact .str _

theorem parse_written {p : CursorPayload} (upper : WireValue noFloats p.upperBound)
    (last : WireValue noFloats p.lastKey) (hash : requireDigest (.str p.queryHash) = .ok p.queryHash)
    (sum : requireDigest (.str p.checksum) = .ok p.checksum) :
    parse reader (String.ofList (Base64.strip (Base64.encode (utf8 (canonicalText (written p)))))) =
      some (canonical p) := by
  have keys : ((p.body ++ [("checksum", Json.str p.checksum)]).map Prod.fst).Nodup := by
    change cursorKeys.Nodup
    decide
  have found : ∀ k v, (k, v) ∈ p.body ++ [("checksum", Json.str p.checksum)] →
      member (Json.sortKeys ((p.body ++ [("checksum", Json.str p.checksum)]).map
        fun e => (e.1, e.2.canonical))) k = v.canonical := by
    intro k v held
    rw [member, find_canonical keys held]
    rfl
  have all : hasKeys (Json.sortKeys ((p.body ++ [("checksum", Json.str p.checksum)]).map
      fun e => (e.1, e.2.canonical))) cursorKeys = true := by
    apply hasKeys_of_perm
    exact ((Json.sortKeys_perm _).map Prod.fst).trans (.of_eq (by rw [List.map_map]; rfl))
  unfold parse
  rw [String.toList_ofList, Base64.decode_stripped _ (utf8_small _)]
  change (reader.read _).bind CursorPayload.validate = _
  rw [reader.reads (wire_written upper last), Option.bind_some, written, Json.canonical_obj]
  unfold CursorPayload.validate
  dsimp only
  rw [all, found "schema_version" (.int cursorSchemaVersion) (by simp [CursorPayload.body]),
    found "actor_id" (.str p.actorId) (by simp [CursorPayload.body]),
    found "kind" (.str p.kind) (by simp [CursorPayload.body]),
    found "query_hash" (.str p.queryHash) (by simp [CursorPayload.body]),
    found "checksum" (.str p.checksum) (by simp [CursorPayload.body]),
    found "upper_bound" p.upperBound (by simp [CursorPayload.body]),
    found "last_key" p.lastKey (by simp [CursorPayload.body])]
  simp [Json.canonical, Json.text, hash, sum, Except.toOption, canonical]

theorem decode_encode (actorId kind : String) (query : Json) {upperBound lastKey : Json}
    (upper : WireValue noFloats upperBound) (last : WireValue noFloats lastKey) :
    decode sha reader (encode sha actorId kind query upperBound lastKey) actorId kind query =
      .ok (canonical (payload sha actorId kind query upperBound lastKey)) := by
  have read : parse reader (encode sha actorId kind query upperBound lastKey) =
      some (canonical (payload sha actorId kind query upperBound lastKey)) :=
    parse_written upper last (requireDigest_digest ..) (requireDigest_digest ..)
  have sum : (canonical (payload sha actorId kind query upperBound lastKey)).checksum =
      checksum sha (canonical (payload sha actorId kind query upperBound lastKey)) := by
    rw [checksum_canonical]
    rfl
  unfold decode
  rw [read]
  change (require _ _ >>= fun _ => _) = _
  rw [require_of sum, ok_bind, require_of ⟨rfl, rfl, rfl⟩]
  rfl

theorem decode_eq_ok {value actorId kind : String} {query : Json} {p : CursorPayload} :
    decode sha reader value actorId kind query = .ok p ↔
      parse reader value = some p ∧ p.checksum = checksum sha p ∧ p.actorId = actorId ∧ p.kind = kind ∧
        p.queryHash = queryHash sha query := by
  unfold decode
  cases parse reader value with
  | none =>
    constructor
    · intro read
      cases read
    · rintro ⟨found, -⟩
      cases found
  | some q =>
    change (require _ _ >>= fun _ => require _ _ >>= fun _ => Except.ok q) = _ ↔ _
    simp only [bind_eq_ok, require_eq_ok, exists_const, Except.ok.injEq, Option.some.injEq]
    constructor
    · rintro ⟨sum, own, rfl⟩
      exact ⟨rfl, sum, own⟩
    · rintro ⟨rfl, sum, own⟩
      exact ⟨sum, own, rfl⟩

theorem decode_encode_other {actorId kind actorId' kind' : String} {query query' upperBound lastKey : Json}
    (upper : WireValue noFloats upperBound) (last : WireValue noFloats lastKey)
    (other : ¬(actorId = actorId' ∧ kind = kind' ∧ queryHash sha query = queryHash sha query')) :
    decode sha reader (encode sha actorId kind query upperBound lastKey) actorId' kind' query' =
      .error .cursorQueryMismatch := by
  have own := @decode_encode sha reader actorId kind query _ _ upper last
  obtain ⟨read, sum, -⟩ := decode_eq_ok.mp own
  unfold decode
  rw [read]
  change (require _ _ >>= fun _ => require (actorId = actorId' ∧ kind = kind' ∧
    queryHash sha query = queryHash sha query') _ >>= fun _ => _) = _
  rw [require_of sum, ok_bind, require_of_not other]
  rfl

def bodyText (p : CursorPayload) : PyStr := points "constructicon" ++ 0 :: (points "control-cursor" ++
  0 :: (integer cursorSchemaVersion ++ 0 :: canonicalText (.obj p.body)))

theorem wire_body {p : CursorPayload} (upper : WireValue noFloats p.upperBound)
    (last : WireValue noFloats p.lastKey) : WireValue noFloats (.obj p.body) := by
  refine .obj ?_ ?_
  · change ["schema_version", "actor_id", "kind", "query_hash", "upper_bound", "last_key"].Nodup
    decide
  · intro e held
    simp only [CursorPayload.body, List.mem_cons, List.not_mem_nil, or_false] at held
    rcases held with rfl | rfl | rfl | rfl | rfl | rfl
    · exact .int _
    · exact .str _
    · exact .str _
    · exact .str _
    · exact upper
    · exact last

theorem canonical_of_bodyText {p q : CursorPayload} (upper : WireValue noFloats p.upperBound)
    (last : WireValue noFloats p.lastKey) (upper' : WireValue noFloats q.upperBound)
    (last' : WireValue noFloats q.lastKey) (same : bodyText p = bodyText q) :
    p.actorId = q.actorId ∧ p.kind = q.kind ∧ p.queryHash = q.queryHash ∧
      p.upperBound.canonical = q.upperBound.canonical ∧ p.lastKey.canonical = q.lastKey.canonical := by
  have text : canonicalText (.obj p.body) = canonicalText (.obj q.body) := by
    simpa [bodyText] using same
  have read := parseJsonValue_dumps noFloats (wire_body upper last).canonical
  have read' := parseJsonValue_dumps noFloats (wire_body upper' last').canonical
  rw [← canonicalText, text, canonicalText, read', Json.canonical_obj, Json.canonical_obj] at read
  have entries := Json.obj.inj (Except.ok.inj read)
  have keys : ∀ r : CursorPayload, (r.body.map Prod.fst).Nodup := by
    intro r
    change ["schema_version", "actor_id", "kind", "query_hash", "upper_bound", "last_key"].Nodup
    decide
  have field : ∀ k v w, (k, v) ∈ p.body → (k, w) ∈ q.body → v.canonical = w.canonical := by
    intro k v w here there
    have found := find_canonical (keys p) here
    have found' := find_canonical (keys q) there
    rw [entries, found] at found'
    exact Option.some.inj found'
  refine ⟨?_, ?_, ?_, ?_, ?_⟩
  · have actor := field "actor_id" (.str p.actorId) (.str q.actorId) (by simp [CursorPayload.body]) (by simp [CursorPayload.body])
    exact Json.str.inj actor
  · have kind := field "kind" (.str p.kind) (.str q.kind) (by simp [CursorPayload.body]) (by simp [CursorPayload.body])
    exact Json.str.inj kind
  · have hash := field "query_hash" (.str p.queryHash) (.str q.queryHash) (by simp [CursorPayload.body])
      (by simp [CursorPayload.body])
    exact Json.str.inj hash
  · exact field "upper_bound" _ _ (by simp [CursorPayload.body]) (by simp [CursorPayload.body])
  · exact field "last_key" _ _ (by simp [CursorPayload.body]) (by simp [CursorPayload.body])

theorem decode_altered {value actorId kind : String} {query : Json} {p issued : CursorPayload}
    (read : parse reader value = some p) (upper : WireValue noFloats p.upperBound)
    (last : WireValue noFloats p.lastKey) (upper' : WireValue noFloats issued.upperBound)
    (last' : WireValue noFloats issued.lastKey) (kept : p.checksum = checksum sha issued)
    (free : sha.hex (bodyText p) = sha.hex (bodyText issued) → bodyText p = bodyText issued)
    (changed : ¬(p.actorId = issued.actorId ∧ p.kind = issued.kind ∧ p.queryHash = issued.queryHash ∧
      p.upperBound.canonical = issued.upperBound.canonical ∧ p.lastKey.canonical = issued.lastKey.canonical)) :
    decode sha reader value actorId kind query = .error .cursorInvalid := by
  have broken : p.checksum ≠ checksum sha p := by
    intro sum
    rw [kept] at sum
    have hex : sha.hex (bodyText issued) = sha.hex (bodyText p) := by
      have whole : "sha256:" ++ sha.hex (bodyText issued) = "sha256:" ++ sha.hex (bodyText p) := sum
      apply String.toList_inj.mp
      have chars := congrArg String.toList whole
      rw [String.toList_append, String.toList_append] at chars
      exact List.append_cancel_left chars
    exact changed (canonical_of_bodyText upper last upper' last' (free hex.symm))
  unfold decode
  rw [read]
  change (require _ _ >>= fun _ => _) = _
  rw [require_of_not broken]
  rfl

end CursorCodec

/-! ## A reader of JSON -/

def Valid (text : PyStr) : Prop := ∀ c ∈ text, c.isValidChar

theorem valid_points (s : String) : Valid (points s) := by
  intro c held
  obtain ⟨d, -, rfl⟩ := List.mem_map.mp held
  exact d.valid

theorem valid_ascii {text : PyStr} (small : ∀ c ∈ text, c < 128) : Valid text :=
  fun c held => Or.inl ((small c held).trans (by decide))

theorem Valid.append {s t : PyStr} (hs : Valid s) (ht : Valid t) : Valid (s ++ t) := by
  intro c held
  rcases List.mem_append.mp held with first | second
  · exact hs c first
  · exact ht c second

theorem Valid.cons {c : ℕ} {t : PyStr} (small : c < 128) (ht : Valid t) : Valid (c :: t) :=
  Valid.append (s := [c]) (valid_ascii (by simpa using small)) ht

theorem valid_integer (n : ℤ) : Valid (integer n) := by
  have digits : ∀ m, Valid (decimal m) := by
    intro m
    apply valid_ascii
    intro c held
    have digit := decimal_digits m c held
    simp only [isDigit, Bool.and_eq_true, decide_eq_true_eq] at digit
    omega
  cases n with
  | ofNat m => exact digits m
  | negSucc m => exact Valid.cons (by omega) (digits _)

theorem valid_escape {c : ℕ} (valid : c.isValidChar) : Valid (escape c) := by
  have hex : ∀ n, n < 16 → hexChar n < 128 := by
    intro n small
    unfold hexChar
    split_ifs <;> omega
  unfold escape
  split_ifs with quoted back tab line page return' control
  · refine valid_ascii fun d held => ?_
    simp only [List.mem_cons, List.not_mem_nil, or_false] at held
    omega
  · exact valid_ascii (by decide)
  · exact valid_ascii (by decide)
  · exact valid_ascii (by decide)
  · exact valid_ascii (by decide)
  · exact valid_ascii (by decide)
  · have high := hex (c / 16) (by omega)
    have low := hex (c % 16) (by omega)
    refine valid_ascii fun d held => ?_
    simp only [List.mem_cons, List.not_mem_nil, or_false] at held
    omega
  · intro d held
    rwa [List.mem_singleton.mp held]

theorem valid_quote (s : String) : Valid (quote (points s)) := by
  refine Valid.cons (by omega) (Valid.append ?_ (valid_ascii (by decide)))
  intro c held
  obtain ⟨d, inside, held⟩ := List.mem_flatMap.mp held
  exact valid_escape (valid_points s d inside) c held

theorem valid_items {items : List Json} (each : ∀ j ∈ items, Valid (dumps j)) : Valid (dumpsItems items) := by
  induction items with
  | nil => exact valid_ascii (by simp [dumpsItems])
  | cons item items ih =>
    have rest := ih fun j held => each j (List.mem_cons_of_mem _ held)
    have first := each item List.mem_cons_self
    cases items with
    | nil => exact first
    | cons next items => exact Valid.append first (Valid.cons (by omega) rest)

theorem valid_members {entries : List (String × Json)} (each : ∀ e ∈ entries, Valid (dumps e.2)) :
    Valid (dumpsMembers entries) := by
  induction entries with
  | nil => exact valid_ascii (by simp [dumpsMembers])
  | cons entry entries ih =>
    obtain ⟨key, value⟩ := entry
    have rest := ih fun e held => each e (List.mem_cons_of_mem _ held)
    have first := each (key, value) List.mem_cons_self
    cases entries with
    | nil => exact Valid.append (valid_quote key) (Valid.cons (by omega) first)
    | cons next entries =>
      refine Valid.append (valid_quote key) (Valid.cons (by omega) ?_)
      exact Valid.append first (Valid.cons (by omega) rest)

theorem valid_dumps {j : Json} (wire : WireValue noFloats j) : Valid (dumps j) := by
  induction wire with
  | null => exact valid_ascii (by decide)
  | bool b => cases b <;> exact valid_ascii (by decide)
  | int n => exact valid_integer n
  | float f => exact f.elim
  | str s => exact valid_quote s
  | arr wired ih => exact Valid.cons (by omega) (Valid.append (valid_items ih) (valid_ascii (by decide)))
  | obj keys wired ih => exact Valid.cons (by omega) (Valid.append (valid_members ih) (valid_ascii (by decide)))

/-- Reads UTF-8, and the text with `json.loads`. -/
def jsonReader : JsonReader where
  read bytes := do
    let text ← (bytes.map UInt8.ofNat).toByteArray.utf8Decode?
    (parseJsonValue noFloats (text.toList.map Char.toNat)).toOption
  reads {j} wire := by
    have bytes : (utf8 (canonicalText j)).map UInt8.ofNat =
        ((canonicalText j).map Char.ofNat).flatMap String.utf8EncodeChar := by
      unfold utf8
      rw [List.map_map]
      have back : UInt8.ofNat ∘ UInt8.toNat = id := funext fun u => UInt8.ofNat_toNat
      rw [back, List.map_id]
    have text : ((canonicalText j).map Char.ofNat).map Char.toNat = canonicalText j := by
      rw [List.map_map]
      conv_rhs => rw [← List.map_id (canonicalText j)]
      apply List.map_congr_left
      intro c held
      have valid := valid_dumps wire.canonical c held
      have same : Char.ofNat c = Char.ofNatAux c valid := dif_pos valid
      change (Char.ofNat c).toNat = c
      rw [same]
      rfl
    rw [bytes]
    change (((canonicalText j).map Char.ofNat).utf8Encode.utf8Decode?).bind _ = _
    rw [List.utf8Decode?_utf8Encode, Option.bind_some, List.toList_toArray, text, canonicalText,
      parseJsonValue_dumps noFloats wire.canonical]
    rfl

end Constructicon
