import Constructicon.ControlQueries
import Constructicon.Library.Utf8

/-!
# Reading a detail in chunks

A detail is read as slices of the UTF-8 bytes of its canonical JSON, each as long as the request
allows and ending between two characters; the cursor of a chunk says where the next one starts.
Whatever limits the requests choose, following the cursors ends and the chunks are the document.
A cursor is checked against damage, and against being used for another query, but anyone can
write one.
-/

namespace Constructicon

open PyJson Transaction

-- A condition on an optional byte is decided at the byte.
local instance (priority := 2000) byteDecidable {α : Type} (p : α → Prop) [DecidablePred p] (o : Option α) :
    Decidable (∀ x ∈ o, p x) := Option.decidableForallMem o

/-! ## The resolver -/

inductive DetailFault where
  /-- `REQUEST_INVALID` -/
  | requestInvalid
  /-- `AUTH_REQUIRED_SCOPE` -/
  | authRequiredScope
  /-- `DETAIL_DIGEST_MISMATCH` -/
  | detailDigestMismatch
  | cursor (f : CursorFault)
  /-- A refusal of `_canonical_uri` or `_resolve`. -/
  | unresolved (code : String)
deriving DecidableEq

structure DetailRef where
  uri : String
  digest : Digest
deriving DecidableEq

structure DetailChunk where
  uri : String
  mediaType : String := "application/json"
  digest : Digest
  text : String
  offset : ℕ
  totalBytes : ℕ
  nextCursor : Option String := none
deriving DecidableEq

def minDetailBytes : ℤ := 4

def maxDetailBytes : ℤ := 64000

structure DetailSource where
  /-- The network location of the URI is `channels`. -/
  channels : String → Bool
  /-- `_canonical_uri` -/
  canonicalUri : String → Except DetailFault String
  /-- `_resolve`, normalized -/
  resolve : AuthenticatedActor → String → Except DetailFault Json

def renderedDetail (document : Json) : List Char := (canonicalText document).map Char.ofNat

/-- The longest decodable slice from `offset` that ends at `stop` or before, and where it ends. -/
def decodableSlice (raw : List UInt8) (offset : ℕ) : ℕ → ℕ × List Char
  | 0 => (0, [])
  | stop + 1 =>
    if stop + 1 ≤ offset then (stop + 1, [])
    else
      match Utf8.decode ((raw.take (stop + 1)).drop offset) with
      | some text => (stop + 1, text)
      | none => decodableSlice raw offset stop

namespace DetailResolver

variable (sha : Sha256) (reader : JsonReader) (actor : AuthenticatedActor) (source : DetailSource)

/-- `_family_lock` -/
def familyLock (uri : String) : Except DetailFault Unit :=
  require (source.channels uri ∨ actor.Allows readScope) .authRequiredScope

/-- `reference` -/
def refer (uri : String) : Except DetailFault DetailRef := do
  let canonical ← source.canonicalUri uri
  let resolved ← source.resolve actor canonical
  return ⟨canonical, sha.digest "detail" 1 resolved⟩

def referenceOf : DetailRef ⊕ String → Except DetailFault DetailRef
  | .inl reference => .ok reference
  | .inr uri => refer sha actor source uri

def uriOf : DetailRef ⊕ String → String
  | .inl reference => reference.uri
  | .inr uri => uri

def detailQuery (uri : String) (digest : Digest) : Json := .obj [("uri", .str uri), ("digest", .str digest)]

def startOf (query : Json) (total : ℕ) : Option String → Except DetailFault ℤ
  | none => .ok 0
  | some cursor => do
    let payload ← (CursorCodec.decode sha reader cursor actor.actorId "detail" query).mapError .cursor
    require (payload.upperBound.integer = some (total : ℤ)) (.cursor .cursorInvalid)
    expect payload.lastKey.integer (.cursor .cursorInvalid)

def chunkAt (uri : String) (digest : Digest) (raw : List UInt8) (offset maxBytes : ℕ) : DetailChunk :=
  let slice := decodableSlice raw offset (min raw.length (offset + maxBytes))
  { uri := uri, digest := digest, text := String.ofList slice.2, offset := offset, totalBytes := raw.length
    nextCursor := if slice.1 < raw.length then
        some (CursorCodec.encode sha actor.actorId "detail" (detailQuery uri digest) (.int raw.length) (.int slice.1))
      else none }

/-- The rest of `read`, once the bytes of the detail are known. -/
def readBytes (uri : String) (digest : Digest) (raw : List UInt8) (cursor : Option String) (maxBytes : ℤ) :
    Except DetailFault DetailChunk := do
  let offset ← startOf sha reader actor (detailQuery uri digest) raw.length cursor
  require (0 ≤ offset ∧ offset ≤ raw.length) (.cursor .cursorInvalid)
  -- the byte at the offset decides whether a character starts there
  require (∀ b ∈ raw[offset.toNat]?, b &&& 0xC0 ≠ 0x80) (.cursor .cursorInvalid)
  return chunkAt sha actor uri digest raw offset.toNat maxBytes.toNat

/-- `read` -/
def read (reference : DetailRef ⊕ String) (cursor : Option String) (maxBytes : ℤ) :
    Except DetailFault DetailChunk := do
  require (minDetailBytes ≤ maxBytes ∧ maxBytes ≤ maxDetailBytes) .requestInvalid
  familyLock actor source (uriOf reference)
  let reference ← referenceOf sha actor source reference
  let uri ← source.canonicalUri reference.uri
  let resolved ← source.resolve actor uri
  require (sha.digest "detail" 1 resolved = reference.digest) .detailDigestMismatch
  readBytes sha reader actor uri reference.digest (Utf8.encode (renderedDetail resolved)) cursor maxBytes

end DetailResolver

/-! ## Slices -/

/-- From a boundary before more text, the slice takes at least one character and at most `room` bytes. -/
theorem decodableSlice_takes {front rest : List Char} {room : ℕ} (enough : 4 ≤ room) (more : rest ≠ []) :
    ∃ text after, rest = text ++ after ∧ text ≠ [] ∧ (Utf8.encode text).length ≤ room ∧
      decodableSlice (Utf8.encode (front ++ rest)) (Utf8.encode front).length
          (min (Utf8.encode (front ++ rest)).length ((Utf8.encode front).length + room)) =
        ((Utf8.encode (front ++ text)).length, text) := by
  obtain ⟨c, tail, rfl⟩ := List.exists_cons_of_ne_nil more
  have total : (Utf8.encode (front ++ c :: tail)).length =
      (Utf8.encode front).length + (Utf8.encode (c :: tail)).length := by simp
  -- the search never goes below the end of the first character
  have found : ∀ stop, (Utf8.encode front).length + (String.utf8EncodeChar c).length ≤ stop →
      stop ≤ (Utf8.encode (front ++ c :: tail)).length → stop ≤ (Utf8.encode front).length + room →
      ∃ text after, c :: tail = text ++ after ∧ text ≠ [] ∧ (Utf8.encode text).length ≤ room ∧
        decodableSlice (Utf8.encode (front ++ c :: tail)) (Utf8.encode front).length stop =
          ((Utf8.encode (front ++ text)).length, text) := by
    have pos := Utf8.size_pos c
    intro stop
    induction stop with
    | zero =>
      intro low
      omega
    | succ stop ih =>
      intro low high within
      have slice : ((Utf8.encode (front ++ c :: tail)).take (stop + 1)).drop (Utf8.encode front).length =
          (Utf8.encode (c :: tail)).take (stop + 1 - (Utf8.encode front).length) := by
        rw [List.drop_take, Utf8.encode_append, List.drop_left]
      rw [decodableSlice, if_neg (by omega), slice]
      cases read : Utf8.decode ((Utf8.encode (c :: tail)).take (stop + 1 - (Utf8.encode front).length)) with
      | some text =>
        obtain ⟨after, split, size⟩ := Utf8.decode_take read
        have length : (Utf8.encode text).length = stop + 1 - (Utf8.encode front).length := by
          rw [size]
          omega
        refine ⟨text, after, split, ?_, by omega, ?_⟩
        · rintro rfl
          rw [Utf8.encode_nil, List.length_nil] at length
          omega
        · have stops : (Utf8.encode (front ++ text)).length = stop + 1 := by
            rw [Utf8.encode_append, List.length_append, length]
            omega
          rw [stops]
      | none =>
        have lower : (Utf8.encode front).length + (String.utf8EncodeChar c).length ≠ stop + 1 := by
          intro same
          have first := Utf8.decode_first c tail
          rw [show stop + 1 - (Utf8.encode front).length = (String.utf8EncodeChar c).length by omega, first] at read
          cases read
        exact ih (by omega) (by omega) (by omega)
  have size := Utf8.size_le c
  have whole : (Utf8.encode (c :: tail)).length = (String.utf8EncodeChar c).length + (Utf8.encode tail).length := by
    simp
  exact found _ (by omega) (by omega) (by omega)

/-! ## The text of a document -/

mutual

theorem valid_json : ∀ j : Json, Valid (dumps j)
  | .null => valid_ascii (by decide)
  | .bool true => valid_ascii (by decide)
  | .bool false => valid_ascii (by decide)
  | .int n => valid_integer n
  | .float token => valid_points token
  | .str s => valid_quote s
  | .arr items => .cons (by omega) ((valid_items (valid_each items)).append (valid_ascii (by decide)))
  | .obj entries => .cons (by omega) ((valid_members (valid_values entries)).append (valid_ascii (by decide)))

theorem valid_each : ∀ items : List Json, ∀ j ∈ items, Valid (dumps j)
  | [] => by simp
  | item :: items => by
    intro j held
    cases held with
    | head => exact valid_json item
    | tail _ held => exact valid_each items j held

theorem valid_values : ∀ entries : List (String × Json), ∀ e ∈ entries, Valid (dumps e.2)
  | [] => by simp
  | (k, value) :: entries => by
    intro e held
    cases held with
    | head => exact valid_json value
    | tail _ held => exact valid_values entries e held

end

theorem points_rendered (document : Json) : (renderedDetail document).map Char.toNat = canonicalText document := by
  rw [renderedDetail, List.map_map]
  conv_rhs => rw [← List.map_id (canonicalText document)]
  apply List.map_congr_left
  intro c held
  have valid := valid_json document.canonical c held
  have same : Char.ofNat c = Char.ofNatAux c valid := dif_pos valid
  change (Char.ofNat c).toNat = c
  rw [same]
  rfl

variable {φ : Type} {F : FloatText φ}

theorem rendered_ne_nil {document : Json} (wire : WireValue F document) : renderedDetail document ≠ [] := by
  intro empty
  have text : canonicalText document = [] := by rw [← points_rendered, empty]; rfl
  have read := parseJsonValue_dumps F wire.canonical
  rw [← canonicalText, text] at read
  cases read

/-! ## Following the cursors -/

namespace DetailResolver

variable {sha : Sha256} {reader : JsonReader} {actor : AuthenticatedActor} {source : DetailSource}
  {reference : DetailRef ⊕ String} {uri : String} {document : Json}

/-- At this request the actor may read the reference, and it names this document at this URI. -/
structure Serves (sha : Sha256) (actor : AuthenticatedActor) (source : DetailSource) (reference : DetailRef ⊕ String)
    (uri : String) (document : Json) : Prop where
  unlocked : familyLock actor source (uriOf reference) = .ok ()
  named : ∃ ref, referenceOf sha actor source reference = .ok ref ∧ source.canonicalUri ref.uri = .ok uri ∧
    ref.digest = sha.digest "detail" 1 document
  resolved : source.resolve actor uri = .ok document

/-- The cursor of a request that goes on after `front`: none at the beginning. -/
def Resumes (sha : Sha256) (actor : AuthenticatedActor) (uri : String) (document : Json) (front : List Char)
    (cursor : Option String) : Prop :=
  (front = [] ∧ cursor = none) ∨
    cursor = some (CursorCodec.encode sha actor.actorId "detail" (detailQuery uri (sha.digest "detail" 1 document))
      (.int (Utf8.encode (renderedDetail document)).length) (.int (Utf8.encode front).length))

theorem startOf_resumes {front : List Char} {cursor : Option String}
    (resumes : Resumes sha actor uri document front cursor) :
    startOf sha reader actor (detailQuery uri (sha.digest "detail" 1 document))
      (Utf8.encode (renderedDetail document)).length cursor = .ok ((Utf8.encode front).length : ℤ) := by
  rcases resumes with ⟨rfl, rfl⟩ | rfl
  · rfl
  · have upper : (CursorCodec.canonical (CursorCodec.payload sha actor.actorId "detail"
        (detailQuery uri (sha.digest "detail" 1 document)) (.int (Utf8.encode (renderedDetail document)).length)
        (.int (Utf8.encode front).length))).upperBound.integer =
        some ((Utf8.encode (renderedDetail document)).length : ℤ) := rfl
    unfold startOf
    dsimp only
    rw [CursorCodec.decode_encode _ _ _ (.int _) (.int _)]
    change (require _ _ >>= fun _ => _) = _
    rw [require_of upper, ok_bind]
    rfl

theorem chunkAt_eq {digest : Digest} {raw : List UInt8} {offset maxBytes stop : ℕ} {text : List Char}
    (slice : decodableSlice raw offset (min raw.length (offset + maxBytes)) = (stop, text)) :
    chunkAt sha actor uri digest raw offset maxBytes =
      { uri := uri, digest := digest, text := String.ofList text, offset := offset, totalBytes := raw.length
        nextCursor := if stop < raw.length then
            some (CursorCodec.encode sha actor.actorId "detail" (detailQuery uri digest) (.int raw.length) (.int stop))
          else none } := by
  simp only [chunkAt, slice]

theorem read_resumes (serves : Serves sha actor source reference uri document) {front rest : List Char}
    {cursor : Option String} {maxBytes : ℤ} (limit : minDetailBytes ≤ maxBytes ∧ maxBytes ≤ maxDetailBytes)
    (split : renderedDetail document = front ++ rest) (more : rest ≠ [])
    (resumes : Resumes sha actor uri document front cursor) :
    ∃ text after chunk, rest = text ++ after ∧ text ≠ [] ∧ ((Utf8.encode text).length : ℤ) ≤ maxBytes ∧
      read sha reader actor source reference cursor maxBytes = .ok chunk ∧ chunk.text = String.ofList text ∧
      chunk.offset = (Utf8.encode front).length ∧
      (after = [] → chunk.nextCursor = none) ∧
      (after ≠ [] → ∃ next, chunk.nextCursor = some next ∧
        Resumes sha actor uri document (front ++ text) (some next)) := by
  obtain ⟨ref, named, canonical, digest⟩ := serves.named
  have enough : 4 ≤ maxBytes.toNat := by
    have low := limit.1
    unfold minDetailBytes at low
    omega
  obtain ⟨text, after, whole, some_text, short, slice⟩ := decodableSlice_takes enough more
  have opens : ∀ b ∈ (Utf8.encode (renderedDetail document))[((Utf8.encode front).length : ℤ).toNat]?,
      b &&& 0xC0 ≠ 0x80 := by
    intro b found
    rw [Int.toNat_natCast] at found
    obtain ⟨c, tail, rfl⟩ := List.exists_cons_of_ne_nil more
    rw [split] at found
    exact Utf8.boundary front c tail found
  have inside : (0 : ℤ) ≤ (Utf8.encode front).length ∧
      ((Utf8.encode front).length : ℤ) ≤ (Utf8.encode (renderedDetail document)).length := by
    rw [split, Utf8.encode_append, List.length_append]
    omega
  have answer : read sha reader actor source reference cursor maxBytes =
      .ok (chunkAt sha actor uri ref.digest (Utf8.encode (renderedDetail document)) (Utf8.encode front).length
        maxBytes.toNat) := by
    unfold read
    rw [require_of limit, ok_bind, serves.unlocked, ok_bind, named, ok_bind, canonical, ok_bind, serves.resolved,
      ok_bind, require_of digest.symm, ok_bind, digest, readBytes, startOf_resumes resumes, ok_bind,
      require_of inside, ok_bind, require_of opens, ok_bind]
    rfl
  rw [← split] at slice
  rw [digest, chunkAt_eq slice] at answer
  refine ⟨text, after, _, whole, some_text, by omega, answer, rfl, rfl, ?_, ?_⟩
  · rintro rfl
    have all : (Utf8.encode (renderedDetail document)).length = (Utf8.encode (front ++ text)).length := by
      rw [split, whole, List.append_nil]
    exact if_neg (by omega)
  · intro left
    have later : (Utf8.encode (front ++ text)).length < (Utf8.encode (renderedDetail document)).length := by
      obtain ⟨c, tail, rfl⟩ := List.exists_cons_of_ne_nil left
      have size := Utf8.size_pos c
      rw [split, whole, ← List.append_assoc, Utf8.encode_append (front ++ text), List.length_append]
      simp only [Utf8.encode_cons, List.length_append]
      omega
    exact ⟨_, if_pos later, .inr rfl⟩

/-- The chunks of a series of requests that starts with the `i`-th one and follows each cursor it is given. -/
inductive Followed (request : ℕ → Option String → Except DetailFault DetailChunk) :
    ℕ → Option String → List DetailChunk → Prop
  | last {i : ℕ} {cursor : Option String} {chunk : DetailChunk} (answer : request i cursor = .ok chunk)
      (done : chunk.nextCursor = none) : Followed request i cursor [chunk]
  | more {i : ℕ} {cursor : Option String} {chunk : DetailChunk} {next : String} {chunks : List DetailChunk}
      (answer : request i cursor = .ok chunk) (goes : chunk.nextCursor = some next)
      (followed : Followed request (i + 1) (some next) chunks) : Followed request i cursor (chunk :: chunks)

/-- The chunks of a text: each holds at least one character, at most as many bytes as its request
allows, and stands where the ones before it end. -/
inductive Covers (limits : ℕ → ℤ) : ℕ → List Char → List Char → List DetailChunk → Prop
  | nil {i : ℕ} {front : List Char} : Covers limits i front [] []
  | cons {i : ℕ} {front text after : List Char} {chunk : DetailChunk} {chunks : List DetailChunk}
      (some_text : text ≠ []) (short : ((Utf8.encode text).length : ℤ) ≤ limits i)
      (holds : chunk.text = String.ofList text) (starts : chunk.offset = (Utf8.encode front).length)
      (rest : Covers limits (i + 1) (front ++ text) after chunks) :
      Covers limits i front (text ++ after) (chunk :: chunks)

theorem Covers.concat {limits : ℕ → ℤ} {i : ℕ} {front text : List Char} {chunks : List DetailChunk}
    (covers : Covers limits i front text chunks) : chunks.flatMap (fun c => c.text.toList) = text := by
  induction covers with
  | nil => rfl
  | cons _ _ holds _ _ ih => rw [List.flatMap_cons, ih, holds, String.toList_ofList]

theorem Covers.length_le {limits : ℕ → ℤ} {i : ℕ} {front text : List Char} {chunks : List DetailChunk}
    (covers : Covers limits i front text chunks) : chunks.length ≤ text.length := by
  induction covers with
  | nil => exact le_refl _
  | cons some_text _ _ _ _ ih =>
    have pos := List.length_pos_of_ne_nil some_text
    simp only [List.length_cons, List.length_append]
    omega

theorem follow (sources : ℕ → DetailSource) (limits : ℕ → ℤ)
    (serves : ∀ i, Serves sha actor (sources i) reference uri document)
    (admitted : ∀ i, minDetailBytes ≤ limits i ∧ limits i ≤ maxDetailBytes) {front rest : List Char}
    (split : renderedDetail document = front ++ rest) (more : rest ≠ []) {cursor : Option String}
    (resumes : Resumes sha actor uri document front cursor) (i : ℕ) :
    ∃ chunks, Followed (fun i cursor => read sha reader actor (sources i) reference cursor (limits i)) i cursor chunks ∧
      Covers limits i front rest chunks := by
  induction size : rest.length using Nat.strongRecOn generalizing front rest cursor i with
  | ind n ih =>
    obtain ⟨text, after, chunk, rfl, some_text, short, answer, holds, starts, last, goes⟩ :=
      read_resumes (serves i) (admitted i) split more resumes
    by_cases left : after = []
    · subst left
      exact ⟨[chunk], .last answer (last rfl), .cons some_text short holds starts .nil⟩
    · obtain ⟨next, found, resumed⟩ := goes left
      have pos := List.length_pos_of_ne_nil some_text
      have shorter : after.length < n := by
        rw [← size, List.length_append]
        omega
      have again : renderedDetail document = (front ++ text) ++ after := by rw [split, List.append_assoc]
      obtain ⟨chunks, followed, covers⟩ := ih after.length shorter again left resumed (i + 1) rfl
      exact ⟨chunk :: chunks, .more answer found followed, .cons some_text short holds starts covers⟩

end DetailResolver

namespace DetailSample

def zeros (n : ℕ) : String := String.ofList (List.replicate n '0')

theorem zeros_width (n : ℕ) : (zeros n).toList.length = n := by
  rw [zeros, String.toList_ofList, List.length_replicate]

theorem zeros_digits (n : ℕ) (c : Char) (held : c ∈ (zeros n).toList) : c ∈ "0123456789abcdef".toList := by
  rw [zeros, String.toList_ofList] at held
  rw [List.eq_of_mem_replicate held]
  decide

def sha : Sha256 where
  hex _ := zeros 64
  width _ := zeros_width 64
  digits _ := zeros_digits 64

def actor : AuthenticatedActor where
  actorId := "static:reader"
  authMethod := .static
  scopes := {readScope}

def document : Json := .str "𝄞a"

def source : DetailSource where
  channels _ := false
  canonicalUri uri := .ok uri
  resolve _ _ := .ok document

def uri : String := "constructicon://commands/c"

def cursor (offset : ℤ) : String :=
  CursorCodec.encode sha actor.actorId "detail" (DetailResolver.detailQuery uri (sha.digest "detail" 1 document))
    (.int 7) (.int offset)

end DetailSample

section

open DetailSample DetailResolver

end

end Constructicon
