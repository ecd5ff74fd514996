import Constructicon.Library.Transaction
import Constructicon.Library.Vectors

/-!
# The first ClientHello of an egress connection

`clientHelloSni` reads the one host name of exactly one complete TLS handshake record. The
grammar it accepts is stated by what it encodes (`HelloRecord`): a record of one ClientHello,
whose extensions have distinct types, none of them an encrypted hello, and one of them a
server name with a single host name. Parsing and encoding are inverse, so a name is accepted
from its own encodings and from nothing else.
-/

namespace Constructicon

open Transaction Vectors

-- A condition on the members of a list is decided along the list.
local instance (priority := 2000) entriesDecidable {α : Type} (p : α → Prop) [DecidablePred p] (l : List α) :
    Decidable (∀ x ∈ l, p x) := List.decidableBAll p l

/-- `EgressRefused`, by its reason. -/
inductive Refusal where
  | connect
  | ipLiteral
  | tls
  | sni
  | ech
  | head
  | destination
  | eof
  | deadline
  | stopped
  | control
  | ancillary
  | upstreamUnreachable
deriving DecidableEq, Repr

/-- `HELLO_RECORD_BYTES` -/
def helloRecordBytes : ℕ := 5 + 16384

/-- `_SERVER_NAME` -/
def serverNameKind : ℕ := 0x0000

/-- `_ECH` -/
def echKind : ℕ := 0xFE0D

/-! ## The parser -/

/-- `bytes.decode("ascii")` -/
def decodeAscii (raw : Bytes) : Option String :=
  if ∀ b ∈ raw, b.toNat < 128 then some (String.ofList (raw.map (fun b => Char.ofNat b.toNat)))
  else none

/-- `_record_length` -/
def recordLength (header : Bytes) : Except Refusal ℕ := do
  require (header.length = 5 ∧ header.head? = some 22) .tls
  let version := number ((header.drop 1).take 2)
  require (0x0301 ≤ version ∧ version ≤ 0x0303) .tls
  let length := number ((header.drop 3).take 2)
  require (0 < length ∧ length ≤ helloRecordBytes - 5) .tls
  pure length

/-- `_server_name` -/
def serverName (data : Bytes) : Except Refusal String := do
  let entries ← expect (vector 2 data) .tls
  require (entries.2 = []) .tls
  let kind ← expect (take 1 entries.1) .tls
  require (kind.1 = [0]) .sni
  let raw ← expect (vector 2 kind.2) .tls
  require (raw.2 = []) .sni
  expect (decodeAscii raw.1) .sni

def nextExtension (data : Bytes) : Except Refusal ((ℕ × Bytes) × Bytes) := do
  let kind ← expect (take 2 data) .tls
  let value ← expect (vector 2 kind.2) .tls
  pure ((number kind.1, value.1), value.2)

def judgeExtension (seen : List ℕ) (name : Option String) (extension : ℕ × Bytes) :
    Except Refusal (Option String) := do
  require (extension.1 ∉ seen) .tls
  require (extension.1 ≠ echKind) .ech
  if extension.1 = serverNameKind then (serverName extension.2).map some else pure name

structure Extension where
  kind : ℕ
  data : Bytes
  kind_lt : kind < 65536
  data_lt : data.length < 65536

def Extension.encode (e : Extension) : Bytes := numeral 2 e.kind ++ prefixed 2 e.data

theorem nextExtension_eq_ok {data rest : Bytes} {extension : ℕ × Bytes} :
    nextExtension data = .ok (extension, rest) ↔
      ∃ e : Extension, (e.kind, e.data) = extension ∧ data = e.encode ++ rest := by
  obtain ⟨kind, value⟩ := extension
  unfold nextExtension
  simp only [bind_eq_ok, expect_eq_ok]
  constructor
  · rintro ⟨⟨k, r⟩, first, ⟨v, r'⟩, second, same⟩
    obtain ⟨rfl, two⟩ := take_eq_some.mp first
    obtain ⟨tail, short⟩ := vector_eq_some.mp second
    cases same
    have small := number_lt k
    have back := numeral_number k
    rw [two] at small back
    refine ⟨⟨number k, v, small, short⟩, rfl, ?_⟩
    change k ++ r = numeral 2 (number k) ++ prefixed 2 v ++ r'
    dsimp only at tail
    rw [tail, back, List.append_assoc]
  · rintro ⟨e, same, rfl⟩
    cases same
    refine ⟨(numeral 2 e.kind, prefixed 2 e.data ++ rest), take_eq_some.mpr ?_, ?_⟩
    · exact ⟨by rw [Extension.encode, List.append_assoc], length_numeral _ _⟩
    · refine ⟨(e.data, rest), vector_eq_some.mpr ⟨rfl, e.data_lt⟩, ?_⟩
      rw [number_numeral e.kind_lt]
      rfl

theorem Extension.length_encode (e : Extension) : e.encode.length = 4 + e.data.length := by
  rw [encode, List.length_append, length_numeral, length_prefixed]
  omega

theorem nextExtension_shorter {data rest : Bytes} {extension : ℕ × Bytes}
    (h : nextExtension data = .ok (extension, rest)) : rest.length < data.length := by
  obtain ⟨e, -, rfl⟩ := nextExtension_eq_ok.mp h
  have length := e.length_encode
  rw [List.length_append]
  omega

/-- The extension loop of `client_hello_sni`. -/
def extensionName (data : Bytes) (seen : List ℕ) (name : Option String) :
    Except Refusal (Option String) :=
  if data = [] then .ok name
  else match _h : nextExtension data with
    | .error refused => .error refused
    | .ok (extension, rest) =>
      match judgeExtension seen name extension with
      | .error refused => .error refused
      | .ok name => extensionName rest (seen ++ [extension.1]) name
termination_by data.length
decreasing_by exact nextExtension_shorter _h

/-- The ClientHello of `client_hello_sni`, after its handshake header. -/
def helloName (data : Bytes) : Except Refusal String := do
  let fixed ← expect (take (2 + 32) data) .tls
  let session ← expect (vector 1 fixed.2) .tls
  let suites ← expect (vector 2 session.2) .tls
  let compression ← expect (vector 1 suites.2) .tls
  let extensions ← expect (vector 2 compression.2) .tls
  require (extensions.2 = []) .tls
  let name ← extensionName extensions.1 [] none
  expect name .sni

/-- `client_hello_sni` -/
def clientHelloSni (record : Bytes) : Except Refusal String := do
  let length ← recordLength (record.take 5)
  let body := record.drop 5
  require (body.length = length) .tls
  require (body.head? = some 1) .tls
  require (number ((body.drop 1).take 3) + 4 = body.length) .tls
  helloName (body.drop 4)

/-! ## Refusals -/

def Classified {α : Type} (x : Except Refusal α) : Prop :=
  ∀ e, x = .error e → e ∈ [Refusal.tls, .sni, .ech]

section

variable {α β : Type}

theorem Classified.ok (a : α) : Classified (.ok a) := by
  intro e h
  exact absurd h (by simp)

theorem Classified.bind {x : Except Refusal α} {f : α → Except Refusal β} (hx : Classified x)
    (hf : ∀ a, Classified (f a)) : Classified (x >>= f) := by
  intro e h
  cases x with
  | error e' =>
    rw [error_bind] at h
    cases h
    exact hx e rfl
  | ok a => exact hf a e h

theorem Classified.require {c : Prop} [Decidable c] {e : Refusal} (h : e ∈ [Refusal.tls, .sni, .ech]) :
    Classified (require c e) := by
  by_cases hc : c
  · rw [require_of hc]
    exact .ok ()
  · rw [require_of_not hc]
    intro e' h'
    cases h'
    exact h

theorem Classified.expect {o : Option α} {e : Refusal} (h : e ∈ [Refusal.tls, .sni, .ech]) :
    Classified (expect o e) := by
  cases o with
  | some a => exact .ok a
  | none =>
    intro e' h'
    cases h'
    exact h

end

theorem serverName_classified (data : Bytes) : Classified (serverName data) := by
  refine .bind (.expect (by simp)) fun entries => .bind (.require (by simp)) fun _ => ?_
  refine .bind (.expect (by simp)) fun kind => .bind (.require (by simp)) fun _ => ?_
  refine .bind (.expect (by simp)) fun raw => .bind (.require (by simp)) fun _ => ?_
  exact .expect (by simp)

theorem judgeExtension_classified (seen : List ℕ) (name : Option String) (extension : ℕ × Bytes) :
    Classified (judgeExtension seen name extension) := by
  refine .bind (.require (by simp)) fun _ => .bind (.require (by simp)) fun _ => ?_
  split_ifs with server
  · intro e h
    apply serverName_classified extension.2 e
    cases read : serverName extension.2 with
    | ok n => simp [read, Except.map] at h
    | error e' =>
      rw [read] at h
      cases h
      rfl
  · exact .ok name

theorem nextExtension_classified (data : Bytes) : Classified (nextExtension data) :=
  .bind (.expect (by simp)) fun _ => .bind (.expect (by simp)) fun _ => .ok _

/-! ## The grammar -/

def asciiBytes (s : String) : Bytes := s.toList.map (fun c => UInt8.ofNat c.toNat)

/-- Every character of `s` is ASCII. -/
def Ascii (s : String) : Prop := ∀ c ∈ s.toList, c.toNat < 128

def serverNameList (n : String) : Bytes := prefixed 2 ([0] ++ prefixed 2 (asciiBytes n))

structure ClientHello where
  fixed : Bytes
  session : Bytes
  suites : Bytes
  compression : Bytes
  extensions : List Extension
  fixed_length : fixed.length = 2 + 32
  session_lt : session.length < 256
  suites_lt : suites.length < 65536
  compression_lt : compression.length < 256
  extensions_lt : (extensions.flatMap Extension.encode).length < 65536

namespace ClientHello

def encode (h : ClientHello) : Bytes :=
  h.fixed ++ (prefixed 1 h.session ++ (prefixed 2 h.suites ++ (prefixed 1 h.compression ++
    prefixed 2 (h.extensions.flatMap Extension.encode))))

/-- The extensions have distinct types, none is an encrypted hello, and the server name is `n`. -/
structure Names (h : ClientHello) (n : String) : Prop where
  distinct : (h.extensions.map Extension.kind).Nodup
  open_hello : ∀ e ∈ h.extensions, e.kind ≠ echKind
  named : ∃ e ∈ h.extensions, e.kind = serverNameKind ∧ e.data = serverNameList n
  ascii : Ascii n

end ClientHello

structure HelloRecord where
  version : ℕ
  hello : ClientHello
  version_ge : 0x0301 ≤ version
  version_le : version ≤ 0x0303
  bounded : 4 + hello.encode.length ≤ helloRecordBytes - 5

def HelloRecord.encode (r : HelloRecord) : Bytes :=
  [22] ++ (numeral 2 r.version ++ prefixed 2 ([1] ++ prefixed 3 r.hello.encode))

/-! ## The server name -/

theorem ascii_char {c : Char} (h : c.toNat < 128) : Char.ofNat (UInt8.ofNat c.toNat).toNat = c := by
  have same : (UInt8.ofNat c.toNat).toNat = c.toNat := by
    rw [UInt8.toNat_ofNat']
    omega
  rw [same, Char.ofNat_toNat]

theorem ascii_byte {b : UInt8} (h : b.toNat < 128) :
    (Char.ofNat b.toNat).toNat = b.toNat := by
  have valid : b.toNat.isValidChar := by
    left
    omega
  rw [Char.ofNat, dif_pos valid]
  rfl

/-- Decoding is exact: it returns `s` from the bytes of `s` and from nothing else. -/
theorem decodeAscii_eq_some {raw : Bytes} {s : String} :
    decodeAscii raw = some s ↔ Ascii s ∧ asciiBytes s = raw := by
  unfold decodeAscii asciiBytes Ascii
  constructor
  · intro h
    split_ifs at h with low
    obtain rfl := Option.some.inj h
    have each : ∀ b ∈ raw, UInt8.ofNat (Char.ofNat b.toNat).toNat = b := by
      intro b hb
      rw [ascii_byte (low b hb)]
      exact UInt8.ofNat_toNat
    rw [String.toList_ofList]
    constructor
    · intro c hc
      obtain ⟨b, hb, rfl⟩ := List.mem_map.mp hc
      rw [ascii_byte (low b hb)]
      exact low b hb
    · rw [List.map_map]
      exact (List.map_congr_left each).trans (List.map_id' raw)
  · rintro ⟨low, rfl⟩
    have each : ∀ c ∈ s.toList, Char.ofNat (UInt8.ofNat c.toNat).toNat = c := by
      intro c hc
      exact ascii_char (low c hc)
    rw [if_pos, List.map_map]
    · congr 1
      have back : s.toList.map ((fun b : UInt8 => Char.ofNat b.toNat) ∘ fun c => UInt8.ofNat c.toNat) =
          s.toList := (List.map_congr_left each).trans (List.map_id' _)
      rw [back, String.ofList_toList]
    · intro b hb
      obtain ⟨c, hc, rfl⟩ := List.mem_map.mp hb
      have small := low c hc
      rw [UInt8.toNat_ofNat']
      omega

theorem serverName_eq_ok {data : Bytes} {n : String} (h : data.length < 65536) :
    serverName data = .ok n ↔ Ascii n ∧ data = serverNameList n := by
  unfold serverName
  simp only [bind_eq_ok, expect_eq_ok, require_eq_ok, exists_const, decodeAscii_eq_some]
  constructor
  · rintro ⟨⟨entries, after⟩, list, rfl, ⟨kind, tail⟩, one, rfl, ⟨raw, last⟩, text, rfl, low, rfl⟩
    obtain ⟨rfl, -⟩ := vector_eq_some.mp list
    obtain ⟨split, -⟩ := take_eq_some.mp one
    obtain ⟨whole, -⟩ := vector_eq_some.mp text
    dsimp only at split whole low ⊢
    rw [List.append_nil] at whole
    rw [split, whole, List.append_nil]
    exact ⟨low, rfl⟩
  · rintro ⟨low, rfl⟩
    rw [serverNameList, length_prefixed, List.length_append, length_prefixed] at h
    refine ⟨([0] ++ prefixed 2 (asciiBytes n), []), vector_eq_some.mpr ⟨?_, ?_⟩, rfl, ?_⟩
    · rw [List.append_nil]
      rfl
    · rw [List.length_append, length_prefixed]
      omega
    · refine ⟨([0], prefixed 2 (asciiBytes n)), take_eq_some.mpr ⟨rfl, rfl⟩, rfl, ?_⟩
      refine ⟨(asciiBytes n, []), vector_eq_some.mpr ⟨?_, by omega⟩, rfl, low, rfl⟩
      rw [List.append_nil]

/-! ## The extensions -/

theorem judgeExtension_eq_ok {seen : List ℕ} {name r : Option String} {e : Extension} :
    judgeExtension seen name (e.kind, e.data) = .ok r ↔
      e.kind ∉ seen ∧ e.kind ≠ echKind ∧
        if e.kind = serverNameKind then ∃ n, (Ascii n ∧ e.data = serverNameList n) ∧ r = some n
        else r = name := by
  unfold judgeExtension
  simp only [bind_eq_ok, require_eq_ok, exists_const]
  split_ifs with server
  · simp only [← serverName_eq_ok e.data_lt]
    cases serverName e.data <;> simp [Except.map, eq_comm]
  · simp [pure, Except.pure, eq_comm]

/-- The loop accepts these extensions and leaves the name `r`. -/
inductive Judged : List ℕ → Option String → List Extension → Option String → Prop
  | done {seen : List ℕ} {name : Option String} : Judged seen name [] name
  | next {seen : List ℕ} {name name' r : Option String} {e : Extension} {es : List Extension}
      (here : judgeExtension seen name (e.kind, e.data) = .ok name')
      (rest : Judged (seen ++ [e.kind]) name' es r) : Judged seen name (e :: es) r

theorem extensionName_next {data rest : Bytes} {seen : List ℕ} {name : Option String}
    {extension : ℕ × Bytes} (h : nextExtension data = .ok (extension, rest)) :
    extensionName data seen name =
      judgeExtension seen name extension >>= extensionName rest (seen ++ [extension.1]) := by
  have some : data ≠ [] := by
    rintro rfl
    have shorter := nextExtension_shorter h
    rw [List.length_nil] at shorter
    omega
  rw [extensionName, if_neg some]
  split
  · rename_i failed
    rw [h] at failed
    exact absurd failed (by simp)
  · rename_i read
    rw [h] at read
    cases read
    cases judgeExtension seen name extension <;> rfl

theorem extensionName_stop {data : Bytes} {seen : List ℕ} {name : Option String} {refused : Refusal}
    (some : data ≠ []) (h : nextExtension data = .error refused) :
    extensionName data seen name = .error refused := by
  rw [extensionName, if_neg some]
  split
  · rename_i failed
    rw [h] at failed
    cases failed
    rfl
  · rename_i read
    rw [h] at read
    exact absurd read (by simp)

theorem extensionName_classified (data : Bytes) (seen : List ℕ) (name : Option String) :
    Classified (extensionName data seen name) := by
  induction data, seen, name using extensionName.induct with
  | case1 seen name =>
    rw [extensionName, if_pos rfl]
    exact .ok name
  | case2 data seen name some refused failed =>
    rw [extensionName_stop some failed]
    intro e h
    cases h
    exact nextExtension_classified data refused failed
  | case3 data seen name some extension rest read refused failed =>
    rw [extensionName_next read, failed, error_bind]
    intro e h
    cases h
    exact judgeExtension_classified seen name extension refused failed
  | case4 data seen name some extension rest read name' judged ih =>
    rw [extensionName_next read, judged, ok_bind]
    exact ih

theorem extensionName_eq_ok {data : Bytes} {seen : List ℕ} {name r : Option String} :
    extensionName data seen name = .ok r ↔
      ∃ es, data = es.flatMap Extension.encode ∧ Judged seen name es r := by
  constructor
  · intro h
    induction data, seen, name using extensionName.induct with
    | case1 seen name =>
      rw [extensionName, if_pos rfl] at h
      cases h
      exact ⟨[], rfl, .done⟩
    | case2 data seen name some refused failed =>
      rw [extensionName_stop some failed] at h
      exact absurd h (by simp)
    | case3 data seen name some extension rest read refused failed =>
      rw [extensionName_next read, failed, error_bind] at h
      exact absurd h (by simp)
    | case4 data seen name some extension rest read name' judged ih =>
      rw [extensionName_next read, judged, ok_bind] at h
      obtain ⟨es, rfl, tail⟩ := ih h
      obtain ⟨e, rfl, rfl⟩ := nextExtension_eq_ok.mp read
      exact ⟨e :: es, by rw [List.flatMap_cons], .next judged tail⟩
  · rintro ⟨es, rfl, judged⟩
    induction judged with
    | done => rw [List.flatMap_nil, extensionName, if_pos rfl]
    | @next seen name name' r e es here rest ih =>
      have read : nextExtension (e.encode ++ es.flatMap Extension.encode) =
          .ok ((e.kind, e.data), es.flatMap Extension.encode) := nextExtension_eq_ok.mpr ⟨e, rfl, rfl⟩
      rw [List.flatMap_cons, extensionName_next read, here, ok_bind]
      exact ih

/-- What the loop accepts: new distinct types, no encrypted hello, and the name of the one
server name extension, or the name it had when there is none. -/
theorem judged_iff {seen : List ℕ} {name r : Option String} {es : List Extension} :
    Judged seen name es r ↔
      (es.map Extension.kind).Nodup ∧ (∀ e ∈ es, e.kind ∉ seen ∧ e.kind ≠ echKind) ∧
        ((∃ e ∈ es, e.kind = serverNameKind ∧ ∃ n, (Ascii n ∧ e.data = serverNameList n) ∧ r = some n) ∨
          (∀ e ∈ es, e.kind ≠ serverNameKind) ∧ r = name) := by
  induction es generalizing seen name with
  | nil =>
    constructor
    · intro h
      cases h
      simp
    · rintro ⟨-, -, ⟨e, mem, -⟩ | ⟨-, rfl⟩⟩
      · exact absurd mem List.not_mem_nil
      · exact .done
  | cons e es ih =>
    rw [List.map_cons, List.nodup_cons]
    constructor
    · intro h
      cases h with
      | next here rest =>
        obtain ⟨new, clear, name_eq⟩ := judgeExtension_eq_ok.mp here
        obtain ⟨distinct, each, named⟩ := ih.mp rest
        have fresh : e.kind ∉ es.map Extension.kind := by
          intro mem
          obtain ⟨e', he', same⟩ := List.mem_map.mp mem
          exact (each e' he').1 (by simp [same])
        refine ⟨⟨fresh, distinct⟩, ?_, ?_⟩
        · intro e' mem
          rcases List.mem_cons.mp mem with rfl | mem
          · exact ⟨new, clear⟩
          · exact ⟨fun old => (each e' mem).1 (List.mem_append_left _ old), (each e' mem).2⟩
        · rcases named with ⟨e', mem, found⟩ | ⟨none, rfl⟩
          · exact .inl ⟨e', List.mem_cons_of_mem _ mem, found⟩
          · by_cases server : e.kind = serverNameKind
            · rw [if_pos server] at name_eq
              exact .inl ⟨e, List.mem_cons_self, server, name_eq⟩
            · rw [if_neg server] at name_eq
              exact .inr ⟨List.forall_mem_cons.mpr ⟨server, none⟩, name_eq⟩
    · rintro ⟨⟨fresh, distinct⟩, each, named⟩
      have later : ∀ e' ∈ es, e'.kind ∉ seen ++ [e.kind] ∧ e'.kind ≠ echKind := by
        intro e' mem
        obtain ⟨new, clear⟩ := each e' (List.mem_cons_of_mem _ mem)
        have other : e'.kind ≠ e.kind := fun same => fresh (same ▸ List.mem_map_of_mem mem)
        exact ⟨by simp [new, other], clear⟩
      obtain ⟨new, clear⟩ := each e List.mem_cons_self
      by_cases server : e.kind = serverNameKind
      · have none : ∀ e' ∈ es, e'.kind ≠ serverNameKind := by
          intro e' mem same
          exact fresh (by rw [server, ← same]; exact List.mem_map_of_mem mem)
        have own : ∃ n, (Ascii n ∧ e.data = serverNameList n) ∧ r = some n := by
          rcases named with ⟨e', mem, same, found⟩ | ⟨none', -⟩
          · rcases List.mem_cons.mp mem with rfl | mem
            · exact found
            · exact absurd same (none e' mem)
          · exact absurd server (none' e List.mem_cons_self)
        refine .next (judgeExtension_eq_ok.mpr ⟨new, clear, ?_⟩) (ih.mpr ⟨distinct, later, .inr ⟨none, rfl⟩⟩)
        rw [if_pos server]
        exact own
      · have rest : (∃ e ∈ es, e.kind = serverNameKind ∧
              ∃ n, (Ascii n ∧ e.data = serverNameList n) ∧ r = some n) ∨
            (∀ e ∈ es, e.kind ≠ serverNameKind) ∧ r = name := by
          rcases named with ⟨e', mem, same, found⟩ | ⟨none, kept⟩
          · rcases List.mem_cons.mp mem with rfl | mem
            · exact absurd same server
            · exact .inl ⟨e', mem, same, found⟩
          · exact .inr ⟨fun e' mem => none e' (List.mem_cons_of_mem _ mem), kept⟩
        refine .next (judgeExtension_eq_ok.mpr ⟨new, clear, ?_⟩) (ih.mpr ⟨distinct, later, rest⟩)
        rw [if_neg server]

/-! ## The record -/

theorem helloName_eq_ok {data : Bytes} {n : String} :
    helloName data = .ok n ↔ ∃ h : ClientHello, data = h.encode ∧ h.Names n := by
  unfold helloName
  simp only [bind_eq_ok, expect_eq_ok, require_eq_ok, exists_const]
  constructor
  · rintro ⟨⟨fixed, r₁⟩, h₁, ⟨session, r₂⟩, h₂, ⟨suites, r₃⟩, h₃, ⟨compression, r₄⟩, h₄,
      ⟨block, r₅⟩, h₅, rfl, name, judged, rfl⟩
    obtain ⟨rfl, fixed_length⟩ := take_eq_some.mp h₁
    obtain ⟨e₂, session_lt⟩ := vector_eq_some.mp h₂
    obtain ⟨e₃, suites_lt⟩ := vector_eq_some.mp h₃
    obtain ⟨e₄, compression_lt⟩ := vector_eq_some.mp h₄
    obtain ⟨e₅, block_lt⟩ := vector_eq_some.mp h₅
    obtain ⟨es, rfl, accepted⟩ := extensionName_eq_ok.mp judged
    obtain ⟨distinct, each, named⟩ := judged_iff.mp accepted
    dsimp only at e₂ e₃ e₄ e₅
    subst e₂ e₃ e₄ e₅
    refine ⟨⟨fixed, session, suites, compression, es, fixed_length, session_lt, suites_lt,
      compression_lt, block_lt⟩, ?_, ?_⟩
    · rw [ClientHello.encode, List.append_nil]
    · rcases named with ⟨e, mem, server, m, ⟨ascii, list⟩, same⟩ | ⟨-, missing⟩
      · obtain rfl := Option.some.inj same
        exact ⟨distinct, fun e mem => (each e mem).2, ⟨e, mem, server, list⟩, ascii⟩
      · exact absurd missing (by simp)
  · rintro ⟨h, rfl, names⟩
    obtain ⟨e, mem, server, list⟩ := names.named
    have judged : Judged [] none h.extensions (some n) := by
      refine judged_iff.mpr ⟨names.distinct, ?_, .inl ⟨e, mem, server, n, ⟨names.ascii, list⟩, rfl⟩⟩
      exact fun e mem => ⟨List.not_mem_nil, names.open_hello e mem⟩
    refine ⟨(h.fixed, _), take_eq_some.mpr ⟨rfl, h.fixed_length⟩, ?_⟩
    refine ⟨(h.session, _), vector_eq_some.mpr ⟨rfl, h.session_lt⟩, ?_⟩
    refine ⟨(h.suites, _), vector_eq_some.mpr ⟨rfl, h.suites_lt⟩, ?_⟩
    refine ⟨(h.compression, _), vector_eq_some.mpr ⟨rfl, h.compression_lt⟩, ?_⟩
    refine ⟨(h.extensions.flatMap Extension.encode, []),
      vector_eq_some.mpr ⟨(List.append_nil _).symm, h.extensions_lt⟩, rfl, ?_⟩
    exact ⟨some n, extensionName_eq_ok.mpr ⟨_, rfl, judged⟩, rfl⟩

theorem recordLength_eq_ok {header : Bytes} {length : ℕ} :
    recordLength header = .ok length ↔
      ∃ version, 0x0301 ≤ version ∧ version ≤ 0x0303 ∧ 0 < length ∧ length ≤ helloRecordBytes - 5 ∧
        header = [22] ++ (numeral 2 version ++ numeral 2 length) := by
  unfold recordLength
  simp only [bind_eq_ok, require_eq_ok, exists_const]
  constructor
  · rintro ⟨⟨five, first⟩, ⟨low, high⟩, ⟨some, bounded⟩, same⟩
    cases same
    obtain ⟨tail, rfl⟩ := List.head?_eq_some_iff.mp first
    rw [List.length_cons] at five
    have four : tail.length = 4 := by omega
    have two : (tail.take 2).length = 2 := by rw [List.length_take]; omega
    have two' : (tail.drop 2).length = 2 := by rw [List.length_drop]; omega
    simp only [List.drop_succ_cons, List.drop_zero] at low high some bounded ⊢
    rw [List.take_of_length_le (by omega)] at some bounded ⊢
    refine ⟨_, low, high, some, bounded, ?_⟩
    have version := numeral_number (tail.take 2)
    have length := numeral_number (tail.drop 2)
    rw [two] at version
    rw [two'] at length
    rw [version, length, List.take_append_drop]
    rfl
  · rintro ⟨version, low, high, some, bounded, rfl⟩
    have first : ((numeral 2 version ++ numeral 2 length).take 2) = numeral 2 version :=
      List.take_left' (length_numeral _ _)
    have second : ((numeral 2 version ++ numeral 2 length).drop 2) = numeral 2 length :=
      List.drop_left' (length_numeral _ _)
    simp only [List.singleton_append, List.drop_succ_cons, List.drop_zero, first, second]
    have fits : length < 256 ^ 2 := by
      unfold helloRecordBytes at bounded
      omega
    rw [List.take_of_length_le (by rw [length_numeral]), number_numeral fits, number_numeral (by omega)]
    refine ⟨⟨?_, rfl⟩, ⟨low, high⟩, ⟨some, bounded⟩, rfl⟩
    rw [List.length_cons, List.length_append, length_numeral, length_numeral]

theorem handshake_iff {body data : Bytes} :
    (body.head? = some 1 ∧ number ((body.drop 1).take 3) + 4 = body.length ∧ data = body.drop 4) ↔
      data.length < 256 ^ 3 ∧ body = [1] ++ prefixed 3 data := by
  constructor
  · rintro ⟨first, length, rfl⟩
    obtain ⟨tail, rfl⟩ := List.head?_eq_some_iff.mp first
    rw [List.drop_succ_cons, List.drop_zero, List.length_cons] at length
    rw [List.drop_succ_cons, List.singleton_append, prefixed]
    have three : (tail.take 3).length = 3 := by rw [List.length_take]; omega
    have rest : (tail.drop 3).length = number (tail.take 3) := by rw [List.length_drop]; omega
    have small := number_lt (tail.take 3)
    have back := numeral_number (tail.take 3)
    rw [three] at small back
    rw [rest, back, List.take_append_drop]
    exact ⟨small, rfl⟩
  · rintro ⟨small, rfl⟩
    have three : (prefixed 3 data).take 3 = numeral 3 data.length :=
      List.take_left' (length_numeral _ _)
    have rest : (prefixed 3 data).drop 3 = data := List.drop_left' (length_numeral _ _)
    rw [List.singleton_append, List.drop_succ_cons, List.drop_succ_cons, List.drop_zero, three, rest,
      number_numeral small, List.length_cons, length_prefixed]
    exact ⟨rfl, by omega, rfl⟩

namespace HelloRecord

theorem encode_eq (r : HelloRecord) :
    r.encode = ([22] ++ (numeral 2 r.version ++ numeral 2 (4 + r.hello.encode.length))) ++
      ([1] ++ prefixed 3 r.hello.encode) := by
  have length : ([1] ++ prefixed 3 r.hello.encode).length = 4 + r.hello.encode.length := by
    rw [List.length_append, length_prefixed, List.length_singleton]
    omega
  rw [encode, prefixed, length, List.append_assoc, List.append_assoc]

end HelloRecord

theorem clientHelloSni_eq_ok {record : Bytes} {n : String} :
    clientHelloSni record = .ok n ↔ ∃ r : HelloRecord, r.encode = record ∧ r.hello.Names n := by
  unfold clientHelloSni
  simp only [bind_eq_ok, require_eq_ok, exists_const, recordLength_eq_ok]
  constructor
  · rintro ⟨length, ⟨version, low, high, some, bounded, header⟩, whole, first, inner, named⟩
    obtain ⟨hello, data, names⟩ := helloName_eq_ok.mp named
    obtain ⟨small, body⟩ := handshake_iff.mp ⟨first, inner, data.symm⟩
    have size : length = 4 + hello.encode.length := by
      rw [← whole, body, List.length_append, length_prefixed, List.length_singleton]
      omega
    refine ⟨⟨version, hello, low, high, by omega⟩, ?_, names⟩
    rw [size] at header
    rw [HelloRecord.encode_eq]
    dsimp only
    rw [← header, ← body, List.take_append_drop]
  · rintro ⟨r, rfl, names⟩
    have bounded := r.bounded
    have header : ([22] ++ (numeral 2 r.version ++ numeral 2 (4 + r.hello.encode.length))).length = 5 := by
      simp only [List.length_append, length_numeral, List.length_singleton]
    have head : r.encode.take 5 = [22] ++ (numeral 2 r.version ++ numeral 2 (4 + r.hello.encode.length)) := by
      rw [r.encode_eq, List.take_left' header]
    have tail : r.encode.drop 5 = [1] ++ prefixed 3 r.hello.encode := by
      rw [r.encode_eq, List.drop_left' header]
    have small : r.hello.encode.length < 256 ^ 3 := by
      unfold helloRecordBytes at bounded
      omega
    obtain ⟨first, inner, data⟩ := handshake_iff.mpr ⟨small, tail⟩
    refine ⟨4 + r.hello.encode.length, ⟨r.version, r.version_ge, r.version_le, by omega, r.bounded, head⟩, ?_⟩
    refine ⟨?_, first, inner, ?_⟩
    · rw [tail, List.length_append, length_prefixed, List.length_singleton]
      omega
    · exact helloName_eq_ok.mpr ⟨r.hello, data.symm, names⟩

theorem clientHelloSni_classified (record : Bytes) : Classified (clientHelloSni record) := by
  refine .bind ?_ fun length => .bind (.require (by simp)) fun _ => .bind (.require (by simp)) fun _ =>
    .bind (.require (by simp)) fun _ => ?_
  · exact .bind (.require (by simp)) fun _ => .bind (.require (by simp)) fun _ =>
      .bind (.require (by simp)) fun _ => .ok _
  · refine .bind (.expect (by simp)) fun fixed => .bind (.expect (by simp)) fun session => ?_
    refine .bind (.expect (by simp)) fun suites => .bind (.expect (by simp)) fun compression => ?_
    refine .bind (.expect (by simp)) fun extensions => .bind (.require (by simp)) fun _ => ?_
    exact .bind (extensionName_classified _ _ _) fun name => .expect (by simp)

theorem clientHelloSni_length {record : Bytes} {n : String} (h : clientHelloSni record = .ok n) :
    recordLength (record.take 5) = .ok (record.length - 5) ∧ 5 ≤ record.length := by
  unfold clientHelloSni at h
  simp only [bind_eq_ok, require_eq_ok, exists_const] at h
  obtain ⟨length, header, whole, -⟩ := h
  have five := (recordLength_eq_ok.mp header)
  obtain ⟨-, -, -, some, -, -⟩ := five
  rw [List.length_drop] at whole
  rw [whole]
  exact ⟨header, by omega⟩

/-- The parser is exact. It refuses with a classified reason or returns a name; the names it
returns are those of the records that name them, so each encoding parses to its own name and no
two hellos of one encoding have different names; and no accepted record is a proper beginning
of another. -/
theorem client_hello_exact :
    (∀ record, (∃ e ∈ [Refusal.tls, .sni, .ech], clientHelloSni record = .error e) ∨
      ∃ n, clientHelloSni record = .ok n) ∧
    (∀ record n, clientHelloSni record = .ok n ↔
      ∃ r : HelloRecord, r.encode = record ∧ r.hello.Names n) ∧
    (∀ (r : HelloRecord) n, r.hello.Names n → clientHelloSni r.encode = .ok n) ∧
    (∀ (r s : HelloRecord) n m, r.hello.Names n → s.hello.Names m → r.encode = s.encode → n = m) ∧
    (∀ record more n m, clientHelloSni record = .ok n → clientHelloSni (record ++ more) = .ok m →
      more = []) := by
  have own : ∀ (r : HelloRecord) n, r.hello.Names n → clientHelloSni r.encode = .ok n := by
    intro r n names
    exact clientHelloSni_eq_ok.mpr ⟨r, rfl, names⟩
  refine ⟨?_, fun record n => clientHelloSni_eq_ok, own, ?_, ?_⟩
  · intro record
    cases parsed : clientHelloSni record with
    | error e => exact .inl ⟨e, clientHelloSni_classified record e parsed, rfl⟩
    | ok n => exact .inr ⟨n, rfl⟩
  · intro r s n m left right same
    have first := own r n left
    rw [same, own s m right] at first
    exact (Except.ok.inj first).symm
  · intro record more n m short long
    obtain ⟨header, five⟩ := clientHelloSni_length short
    obtain ⟨header', -⟩ := clientHelloSni_length long
    rw [List.take_append_of_le_length five, header, List.length_append] at header'
    have length := Except.ok.inj header'
    exact List.length_eq_zero_iff.mp (by omega)

/-- A hello for `host`, with one cipher suite and the null compression. -/
def hostHello : HelloRecord where
  version := 0x0301
  version_ge := by decide
  version_le := by decide
  bounded := by decide
  hello :=
    { fixed := List.replicate 34 0
      session := []
      suites := [0x13, 0x01]
      compression := [0]
      extensions := [⟨serverNameKind, serverNameList "host", by decide, by decide⟩]
      fixed_length := by decide
      session_lt := by decide
      suites_lt := by decide
      compression_lt := by decide
      extensions_lt := by decide }

theorem client_hello_exact_host : clientHelloSni hostHello.encode = .ok "host" := by
  have small : "host".toList.all (fun c => c.toNat < 128) = true := by decide
  apply client_hello_exact.2.2.1 hostHello "host"
  exact
    { distinct := by decide
      open_hello := by decide
      named := ⟨_, List.mem_singleton_self _, rfl, rfl⟩
      ascii := fun c held => of_decide_eq_true (List.all_eq_true.mp small c held) }

end Constructicon
