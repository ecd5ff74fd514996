import Constructicon.Egress
import Constructicon.Library.Emit

/-!
# The egress relay

`_open` cuts the CONNECT head, the first record and what follows out of one buffered stream;
`_pump` moves the rest. A read may return any nonempty part of what the client has sent, so the
relay is stated over a stream and the sizes of its reads, and shown to decide and to forward by
the stream alone. What the relay does is logged, and no byte is sent before every check of the
approach has passed.
-/

namespace Constructicon

open Transaction Vectors

-- A condition on the members of a list is decided along the list.
local instance (priority := 2000) relayedDecidable {α : Type} (p : α → Prop) [DecidablePred p] (l : List α) :
    Decidable (∀ x ∈ l, p x) := List.decidableBAll p l

local instance (priority := 2000) headDecidable {α : Type} (p : α → Prop) [DecidablePred p] (o : Option α) :
    Decidable (∃ x ∈ o, p x) := Option.decidableExistsMem o

/-- `CONNECT_HEAD_BYTES` -/
def connectHeadBytes : ℕ := 8192

/-- `CHUNK_BYTES` -/
def chunkBytes : ℕ := 8192

def headEnd : Bytes := [13, 10, 13, 10]

structure EgressDestination where
  host : String
  port : ℕ
  address : String
deriving DecidableEq, Repr

/-- `EgressPolicy` -/
structure EgressPolicy where
  destinations : List EgressDestination
  nonempty : destinations ≠ []
  distinct : (destinations.map (fun item => (item.host, item.port))).Nodup

/-- `EgressPolicy.destination` -/
def EgressPolicy.destination (policy : EgressPolicy) (host : String) (port : ℕ) :
    Option EgressDestination :=
  policy.destinations.find? (fun item => item.host = host ∧ item.port = port)

theorem EgressPolicy.destination_eq {policy : EgressPolicy} {host : String} {port : ℕ}
    {d : EgressDestination} (h : policy.destination host port = some d) :
    d ∈ policy.destinations ∧ d.host = host ∧ d.port = port := by
  have found := List.find?_some h
  exact ⟨List.mem_of_find?_eq_some h, of_decide_eq_true found⟩

/-! ## The CONNECT line -/

def isDecimalDigit (c : Char) : Bool := 48 ≤ c.toNat ∧ c.toNat ≤ 57

/-- `_LETTERS` -/
def isLowercase (c : Char) : Bool := 97 ≤ c.toNat ∧ c.toNat ≤ 122

/-- `_LABEL.fullmatch` -/
def isLabel (label : List Char) : Bool :=
  label.length ≤ 63 ∧ (∀ c ∈ label, isLowercase c ∨ isDecimalDigit c ∨ c = '-') ∧
    ∃ first ∈ label.head?, ∃ last ∈ label.getLast?, (isLowercase first ∨ isDecimalDigit first) ∧
      (isLowercase last ∨ isDecimalDigit last)

/-- `_is_host` -/
def isHost (host : List Char) : Bool :=
  0 < host.length ∧ host.length ≤ 253 ∧ (∀ label ∈ host.splitOn '.', isLabel label) ∧
    ∃ last ∈ (host.splitOn '.').getLast?, ∃ first ∈ last.head?, isLowercase first

/-- `_PORT.fullmatch` -/
def isPort (port : List Char) : Bool :=
  port.length ≤ 5 ∧ (∀ c ∈ port, isDecimalDigit c) ∧ ∃ first ∈ port.head?, first ≠ '0'

/-- `int` of decimal digits -/
def portNumber (port : List Char) : ℕ := port.foldl (fun n c => n * 10 + (c.toNat - 48)) 0

/-- `text.split("\r\n", 1)[0]` -/
def firstLine : List Char → List Char
  | [] => []
  | c :: text => if ['\r', '\n'] <+: c :: text then [] else c :: firstLine text

section

variable (isLiteral : List Char → Bool)

/-- The target of `parse_connect`, after `rpartition(":")`; `isLiteral` tells what
`ipaddress.ip_address` reads. -/
def parseTarget (target : List Char) : Except Refusal (String × ℕ) := do
  let host := if ':' ∈ target then (target.reverse.dropWhile (· ≠ ':')).tail.reverse else []
  let port := (target.reverse.takeWhile (· ≠ ':')).reverse
  require (¬(host.head? = some '[' ∨ isLiteral host)) .ipLiteral
  require (':' ∈ target ∧ isPort port ∧ portNumber port ≤ 65535 ∧ isHost host) .connect
  pure (String.ofList host, portNumber port)

/-- `parse_connect` -/
def parseConnect (head : Bytes) : Except Refusal (String × ℕ) := do
  let text ← expect (decodeAscii head) .connect
  require (['\r', '\n', '\r', '\n'] <:+ text.toList) .connect
  let parts := (firstLine text.toList).splitOn ' '
  require (parts.length = 3 ∧ parts[0]? = some "CONNECT".toList ∧ parts[2]? = some "HTTP/1.1".toList)
    .connect
  let target ← expect parts[1]? .connect
  parseTarget isLiteral target

end

/-! ## Reading -/

/-- What a connection meets besides the bytes of its client: how much each read returns, and how
each check, read and send goes. -/
structure Conditions where
  /-- The `k`-th read returns at most this many bytes and one more. -/
  size : ℕ → ℕ
  /-- The `k`-th read, and the check after it. -/
  read : ℕ → Except Refusal Unit
  /-- The answer to the CONNECT, and the check after it. -/
  established : Except Refusal Unit
  /-- `_admit`, before the dial and after it. -/
  admission : Bool → Except Refusal Unit
  connect : Except Refusal Unit
  /-- The send after the `k`-th read fails after this many bytes. -/
  send : ℕ → Option (ℕ × Refusal)

structure Client where
  rest : Bytes
  reads : ℕ

/-- `_receive` -/
def receive (env : Conditions) (count : ℕ) (client : Client) : Bytes × Client :=
  let data := client.rest.take (min (env.size client.reads + 1) count)
  (data, ⟨client.rest.drop data.length, client.reads + 1⟩)

/-- `_fill` -/
def fill (env : Conditions) (limit : ℕ) (buffer : Bytes) (client : Client) :
    Except Refusal (Bytes × Client) := do
  let data := receive env (limit - buffer.length) client
  env.read client.reads
  require (data.1 ≠ []) .eof
  pure (buffer ++ data.1, data.2)

theorem receive_split (env : Conditions) (count : ℕ) (client : Client) :
    (receive env count client).1 ++ (receive env count client).2.rest = client.rest := by
  unfold receive
  dsimp only
  rw [List.length_take]
  rcases Nat.le_total (min (env.size client.reads + 1) count) client.rest.length with within | beyond
  · rw [Nat.min_eq_left within, List.take_append_drop]
  · rw [Nat.min_eq_right beyond, List.drop_length, List.take_of_length_le beyond, List.append_nil]

theorem length_receive_le (env : Conditions) (count : ℕ) (client : Client) :
    (receive env count client).1.length ≤ count := by
  unfold receive
  dsimp only
  rw [List.length_take]
  omega

theorem receive_eq_nil (env : Conditions) {count : ℕ} {client : Client} (h : 0 < count) :
    (receive env count client).1 = [] ↔ client.rest = [] := by
  unfold receive
  dsimp only
  rw [List.take_eq_nil_iff]
  constructor
  · rintro (none | nil)
    · omega
    · exact nil
  · exact .inr

theorem fill_eq_ok {env : Conditions} {limit : ℕ} {buffer : Bytes} {client : Client}
    {next : Bytes × Client} (h : fill env limit buffer client = .ok next) :
    ∃ data, data ≠ [] ∧ next.1 = buffer ++ data ∧ client.rest = data ++ next.2.rest ∧
      data.length ≤ limit - buffer.length := by
  unfold fill at h
  simp only [bind_eq_ok, require_eq_ok, exists_const] at h
  obtain ⟨-, -, some, same⟩ := h
  cases same
  exact ⟨_, some, rfl, (receive_split _ _ _).symm, length_receive_le _ _ _⟩

theorem fill_longer {env : Conditions} {limit : ℕ} {buffer : Bytes} {client : Client}
    {next : Bytes × Client} (h : fill env limit buffer client = .ok next) :
    buffer.length < next.1.length := by
  obtain ⟨data, some, same, -⟩ := fill_eq_ok h
  have positive := List.length_pos_iff.mpr some
  rw [same, List.length_append]
  omega

/-- The loops of `_open`: fill the buffer until it is `done`, up to a limit. -/
def gather {γ : Type} (env : Conditions) (done : Bytes → Option γ) (limit : ℕ) (full : Refusal)
    (buffer : Bytes) (client : Client) : Except Refusal (γ × Bytes × Client) :=
  match done buffer with
  | some v => .ok (v, buffer, client)
  | none =>
    if limit ≤ buffer.length then .error full
    else match _h : fill env limit buffer client with
      | .error refused => .error refused
      | .ok next => gather env done limit full next.1 next.2
termination_by limit - buffer.length
decreasing_by
  have longer := fill_longer _h
  omega

def readHead (env : Conditions) : Bytes → Client → Except Refusal (ℕ × Bytes × Client) :=
  gather env (find headEnd) connectHeadBytes .head

def holds (total : ℕ) (buffer : Bytes) : Option Unit :=
  if total ≤ buffer.length then some () else none

/-- The loop to `total` bytes, which a full buffer has reached. -/
def readTo (env : Conditions) (total : ℕ) : Bytes → Client → Except Refusal (Unit × Bytes × Client) :=
  gather env (holds total) total .eof

/-! ## The relay -/

inductive RelayEvent where
  | allowed (destination : EgressDestination)
  | established
  | named (host : String)
  | admitted
  | connected (destination : EgressDestination)
  | sent (data : Bytes)
deriving DecidableEq, Repr

section

variable (isLiteral : List Char → Bool) (policy : EgressPolicy)

/-- `sock_sendall` to the upstream -/
def sendAll (env : Conditions) (reads : ℕ) (data : Bytes) : Emit Refusal RelayEvent Unit :=
  match env.send reads with
  | none => Emit.tell (.sent data)
  | some (count, refused) => do
    Emit.tell (.sent (data.take count))
    Emit.raise refused

/-- `_open`, up to what it sends upstream -/
def approach (env : Conditions) (client : Client) :
    Emit Refusal RelayEvent (EgressDestination × Bytes × Client) := do
  let head ← Emit.lift (readHead env [] client)
  let target ← Emit.lift (parseConnect isLiteral (head.2.1.take (head.1 + 4)))
  let buffer := head.2.1.drop (head.1 + 4)
  let destination ← Emit.lift (expect (policy.destination target.1 target.2) .destination)
  Emit.tell (.allowed destination)
  Emit.lift env.established
  Emit.tell .established
  let five ← Emit.lift (readTo env 5 buffer head.2.2)
  let length ← Emit.lift (recordLength (five.2.1.take 5))
  let hello ← Emit.lift (readTo env (5 + length) five.2.1 five.2.2)
  let name ← Emit.lift (clientHelloSni (hello.2.1.take (5 + length)))
  Emit.lift (require (name = target.1) .sni)
  Emit.tell (.named name)
  Emit.lift (env.admission false)
  Emit.tell .admitted
  Emit.lift env.connect
  Emit.tell (.connected destination)
  Emit.lift (env.admission true)
  Emit.tell .admitted
  pure (destination, hello.2.1, hello.2.2)

/-- `_open` -/
def openTunnel (env : Conditions) (client : Client) :
    Emit Refusal RelayEvent (EgressDestination × Client) := do
  let ready ← approach isLiteral policy env client
  sendAll env ready.2.2.reads ready.2.1
  pure (ready.1, ready.2.2)

/-- `_pump`, from the client to the upstream -/
def pump (env : Conditions) (client : Client) : Emit Refusal RelayEvent Unit :=
  match env.read client.reads with
  | .error refused => Emit.raise refused
  | .ok () =>
    let data := receive env chunkBytes client
    if _h : data.1 = [] then pure ()
    else do
      sendAll env data.2.reads data.1
      pump env data.2
termination_by client.rest.length
decreasing_by
  have split := congrArg List.length (receive_split env chunkBytes client)
  have positive : 0 < (receive env chunkBytes client).1.length := List.length_pos_iff.mpr _h
  rw [List.length_append] at split
  omega

def relay (env : Conditions) (stream : Bytes) : Emit Refusal RelayEvent Unit := do
  let opened ← openTunnel isLiteral policy env ⟨stream, 0⟩
  pump env opened.2

/-- What `_open` decides: the destination of the tunnel, or a refusal. -/
def decision (env : Conditions) (stream : Bytes) : Except Refusal EgressDestination :=
  (openTunnel isLiteral policy env ⟨stream, 0⟩).result.map Prod.fst

end

def RelayEvent.bytes : RelayEvent → Bytes
  | .sent data => data
  | _ => []

def forwarded (log : List RelayEvent) : Bytes := log.flatMap RelayEvent.bytes

@[simp] theorem forwarded_nil : forwarded [] = [] := rfl

@[simp] theorem forwarded_append (log log' : List RelayEvent) :
    forwarded (log ++ log') = forwarded log ++ forwarded log' := List.flatMap_append

@[simp] theorem forwarded_sent (data : Bytes) : forwarded [.sent data] = data := by
  simp [forwarded, RelayEvent.bytes]

/-! ## The loops -/

section

variable {γ : Type} {env : Conditions} {done : Bytes → Option γ} {limit : ℕ} {full : Refusal}
  {buffer : Bytes} {client : Client}

def Settled (done : Bytes → Option γ) : Prop :=
  ∀ buffer v more, done buffer = some v → done (buffer ++ more) = some v

theorem settled_find : Settled (find headEnd) := by
  intro buffer v more h
  exact find_append (by decide) h more

theorem settled_holds (total : ℕ) : Settled (holds total) := by
  intro buffer v more h
  unfold holds at h ⊢
  split_ifs at h with enough
  rw [if_pos (by rw [List.length_append]; omega)]

structure Steady (env : Conditions) : Prop where
  read : ∀ k, env.read k = .ok ()
  send : ∀ k, env.send k = none

theorem gather_done {v : γ} (h : done buffer = some v) :
    gather env done limit full buffer client = .ok (v, buffer, client) := by
  rw [gather]
  split
  · rename_i found
    rw [h] at found
    cases found
    rfl
  · rename_i missing
    rw [h] at missing
    exact absurd missing (by simp)

theorem gather_full (h : done buffer = none) (beyond : limit ≤ buffer.length) :
    gather env done limit full buffer client = .error full := by
  rw [gather]
  split
  · rename_i found
    rw [h] at found
    exact absurd found (by simp)
  · rw [if_pos beyond]

theorem gather_fill (h : done buffer = none) (within : buffer.length < limit) :
    gather env done limit full buffer client =
      fill env limit buffer client >>= fun next => gather env done limit full next.1 next.2 := by
  rw [gather]
  split
  · rename_i found
    rw [h] at found
    exact absurd found (by simp)
  · rw [if_neg (by omega)]
    split
    · rename_i refused failed
      rw [failed]
      rfl
    · rename_i next filled
      rw [filled]
      rfl

theorem gather_ok {v : γ} {buffer' : Bytes} {client' : Client}
    (h : gather env done limit full buffer client = .ok (v, buffer', client')) :
    done buffer' = some v ∧ buffer' ++ client'.rest = buffer ++ client.rest := by
  induction buffer, client using gather.induct env done limit with
  | case1 buffer client v' found =>
    rw [gather_done found] at h
    cases h
    exact ⟨found, rfl⟩
  | case2 buffer client missing beyond =>
    rw [gather_full missing beyond] at h
    exact absurd h (by simp)
  | case3 buffer client missing within refused failed =>
    rw [gather_fill missing (by omega), failed] at h
    exact absurd h (by simp)
  | case4 buffer client missing within next filled ih =>
    rw [gather_fill missing (by omega), filled, ok_bind] at h
    obtain ⟨found, whole⟩ := ih h
    obtain ⟨data, -, same, split, -⟩ := fill_eq_ok filled
    rw [whole, same, split, List.append_assoc]
    exact ⟨found, rfl⟩

def seek (done : Bytes → Option γ) (limit : ℕ) (full : Refusal) (stream : Bytes) : Except Refusal γ :=
  expect (done (stream.take limit)) (if limit ≤ stream.length then full else .eof)

theorem gather_steady (settled : Settled done) (steady : Steady env) (fits : buffer.length ≤ limit) :
    (gather env done limit full buffer client).map Prod.fst =
      seek done limit full (buffer ++ client.rest) := by
  induction buffer, client using gather.induct env done limit with
  | case1 buffer client v found =>
    have whole : (buffer ++ client.rest).take limit = buffer ++ client.rest.take (limit - buffer.length) := by
      rw [List.take_append, List.take_of_length_le fits]
    rw [gather_done found, seek, whole, settled _ _ _ found]
    rfl
  | case2 buffer client missing beyond =>
    have whole : (buffer ++ client.rest).take limit = buffer := by
      rw [List.take_append_of_le_length (by omega), List.take_of_length_le fits]
    rw [gather_full missing beyond, seek, whole, missing, if_pos (by rw [List.length_append]; omega)]
    rfl
  | case3 buffer client missing within refused failed =>
    have ended : client.rest = [] := by
      by_contra more
      have some := (receive_eq_nil env (by omega : 0 < limit - buffer.length)).not.mpr more
      unfold fill at failed
      rw [steady.read, ok_bind, require_of some] at failed
      exact absurd failed (by simp)
    have nothing := (receive_eq_nil env (by omega : 0 < limit - buffer.length)).mpr ended
    have eof : refused = .eof := by
      unfold fill at failed
      rw [steady.read, ok_bind, require_of_not (by simp [nothing])] at failed
      cases failed
      rfl
    rw [gather_fill missing (by omega), failed, eof, seek, ended, List.append_nil,
      List.take_of_length_le fits, missing, if_neg within]
    rfl
  | case4 buffer client missing within next filled ih =>
    obtain ⟨data, -, same, split, room⟩ := fill_eq_ok filled
    have fits' : next.1.length ≤ limit := by
      rw [same, List.length_append]
      omega
    rw [gather_fill missing (by omega), filled, ok_bind, ih fits', same, split, List.append_assoc]

/-- The loop to `total` bytes gets there when the stream holds them. -/
theorem readTo_steady {total : ℕ} (steady : Steady env) :
    (readTo env total buffer client).map Prod.fst =
      require (total ≤ (buffer ++ client.rest).length) .eof := by
  by_cases enough : total ≤ buffer.length
  · rw [readTo, gather_done (if_pos enough), require_of (by rw [List.length_append]; omega)]
    rfl
  · rw [readTo, gather_steady (settled_holds total) steady (by omega), seek, ite_self]
    by_cases whole : total ≤ (buffer ++ client.rest).length
    · rw [require_of whole, holds, if_pos (by rw [List.length_take]; omega)]
      rfl
    · rw [require_of_not whole, holds, if_neg (by rw [List.length_take]; omega)]
      rfl

end

/-! ## The approach -/

section

variable {isLiteral : List Char → Bool} {policy : EgressPolicy} {env : Conditions} {client client' : Client}
  {d : EgressDestination} {buffer stream : Bytes}

/-- What has passed before a byte of `rest`, the stream after the head, is sent to `d`. -/
structure Cleared (isLiteral : List Char → Bool) (policy : EgressPolicy) (env : Conditions)
    (stream : Bytes) (d : EgressDestination) (rest : Bytes) : Prop where
  head : ∃ size, find headEnd stream = some size ∧ stream.drop (size + 4) = rest ∧
    parseConnect isLiteral (stream.take (size + 4)) = .ok (d.host, d.port)
  destination : policy.destination d.host d.port = some d
  named : ∃ length, recordLength (rest.take 5) = .ok length ∧
    clientHelloSni (rest.take (5 + length)) = .ok d.host
  established : env.established = .ok ()
  admitted : ∀ dialled, env.admission dialled = .ok ()
  connected : env.connect = .ok ()

def approached (d : EgressDestination) : List RelayEvent :=
  [.allowed d, .established, .named d.host, .admitted, .connected d, .admitted]

theorem readTo_ok {total : ℕ} {buffer' : Bytes} {u : Unit}
    (h : readTo env total buffer client = .ok (u, buffer', client')) :
    total ≤ buffer'.length ∧ buffer' ++ client'.rest = buffer ++ client.rest := by
  obtain ⟨held, whole⟩ := gather_ok h
  unfold holds at held
  split_ifs at held with enough
  exact ⟨enough, whole⟩

theorem readHead_ok {size : ℕ} {buffer' : Bytes}
    (h : readHead env [] client = .ok (size, buffer', client')) :
    find headEnd client.rest = some size ∧ client.rest.take (size + 4) = buffer'.take (size + 4) ∧
      client.rest.drop (size + 4) = buffer'.drop (size + 4) ++ client'.rest := by
  obtain ⟨found, whole⟩ := gather_ok h
  have inside : size + 4 ≤ buffer'.length := find_le (by decide) found
  rw [List.nil_append] at whole
  rw [← whole]
  exact ⟨find_append (by decide) found _, List.take_append_of_le_length inside,
    List.drop_append_of_le_length inside⟩

theorem approach_ok (h : (approach isLiteral policy env client).result = .ok (d, buffer, client')) :
    Cleared isLiteral policy env client.rest d (buffer ++ client'.rest) ∧
      (approach isLiteral policy env client).log = approached d := by
  unfold approach at h
  simp only [Emit.result_bind, Emit.result_lift, Emit.result_tell, Emit.result_pure, bind_eq_ok,
    require_eq_ok, expect_eq_ok, exists_const, true_and] at h
  obtain ⟨⟨size, b, c⟩, head, ⟨host, port⟩, parsed, d', allowed, _, established, ⟨_, b₅, c₅⟩, five, length,
    header, ⟨_, b', c'⟩, hello, name, sni, named, _, before, _, connected, _, after, same⟩ := h
  cases same
  dsimp only at parsed allowed five header hello sni named
  obtain ⟨found, front, back⟩ := readHead_ok head
  obtain ⟨enough, whole⟩ := readTo_ok five
  obtain ⟨enough', whole'⟩ := readTo_ok hello
  obtain ⟨-, host_eq, port_eq⟩ := EgressPolicy.destination_eq allowed
  subst named
  constructor
  · constructor
    · exact ⟨size, found, by rw [back, ← whole, ← whole'], by rw [front, parsed, host_eq, port_eq]⟩
    · rw [host_eq, port_eq]
      exact allowed
    · refine ⟨length, ?_, ?_⟩
      · rw [whole', List.take_append_of_le_length enough]
        exact header
      · rw [List.take_append_of_le_length enough', host_eq]
        exact sni
    · exact established
    · intro dialled
      cases dialled
      · exact before
      · exact after
    · exact connected
  · unfold approach
    simp only [head, parsed, allowed, expect_some, established, five, header, hello, sni, require_of, before,
      connected, after, Emit.lift_ok_bind, Emit.log_tell_bind, Emit.log_pure, approached, host_eq]

def RelayEvent.Sends (event : RelayEvent) : Prop := ∃ data, event = .sent data

theorem forwarded_of_silent {log : List RelayEvent} (h : ∀ e ∈ log, ¬ e.Sends) : forwarded log = [] := by
  rw [forwarded, List.flatMap_eq_nil_iff]
  intro e mem
  cases e with
  | sent data => exact absurd ⟨data, rfl⟩ (h _ mem)
  | _ => rfl

theorem approach_silent : ∀ e ∈ (approach isLiteral policy env client).log, ¬ e.Sends := by
  unfold approach
  refine Emit.forall_log_lift_bind fun head => Emit.forall_log_lift_bind fun target => ?_
  refine Emit.forall_log_lift_bind fun destination => ?_
  refine Emit.forall_log_tell_bind (by simp [RelayEvent.Sends]) (Emit.forall_log_lift_bind fun _ => ?_)
  refine Emit.forall_log_tell_bind (by simp [RelayEvent.Sends]) (Emit.forall_log_lift_bind fun five => ?_)
  refine Emit.forall_log_lift_bind fun length => Emit.forall_log_lift_bind fun hello => ?_
  refine Emit.forall_log_lift_bind fun name => Emit.forall_log_lift_bind fun _ => ?_
  refine Emit.forall_log_tell_bind (by simp [RelayEvent.Sends]) (Emit.forall_log_lift_bind fun _ => ?_)
  refine Emit.forall_log_tell_bind (by simp [RelayEvent.Sends]) (Emit.forall_log_lift_bind fun _ => ?_)
  refine Emit.forall_log_tell_bind (by simp [RelayEvent.Sends]) (Emit.forall_log_lift_bind fun _ => ?_)
  refine Emit.forall_log_tell_bind (by simp [RelayEvent.Sends]) fun e mem => ?_
  exact absurd mem List.not_mem_nil

/-! ## Sending -/

theorem sendAll_log (env : Conditions) (reads : ℕ) (data : Bytes) :
    ∃ part, (sendAll env reads data).log = [.sent part] ∧ part <+: data ∧
      ((sendAll env reads data).result = .ok () → part = data) := by
  unfold sendAll
  cases env.send reads with
  | none => exact ⟨data, rfl, List.prefix_rfl, fun _ => rfl⟩
  | some failure =>
    refine ⟨data.take failure.1, rfl, List.take_prefix _ _, fun sent => ?_⟩
    exact absurd sent (by simp [Emit.raise])

theorem pump_stop {refused : Refusal} (h : env.read client.reads = .error refused) :
    pump env client = Emit.raise refused := by
  rw [pump]
  split
  · rename_i failed
    rw [h] at failed
    cases failed
    rfl
  · rename_i passed
    rw [h] at passed
    exact absurd passed (by simp)

theorem pump_end (h : env.read client.reads = .ok ())
    (ended : (receive env chunkBytes client).1 = []) : pump env client = pure () := by
  rw [pump]
  split
  · rename_i failed
    rw [h] at failed
    exact absurd failed (by simp)
  · rw [dif_pos ended]

theorem pump_move (h : env.read client.reads = .ok ())
    (more : (receive env chunkBytes client).1 ≠ []) :
    pump env client =
      sendAll env (receive env chunkBytes client).2.reads (receive env chunkBytes client).1 >>= fun _ =>
        pump env (receive env chunkBytes client).2 := by
  rw [pump]
  split
  · rename_i failed
    rw [h] at failed
    exact absurd failed (by simp)
  · rw [dif_neg more]

theorem pump_forwards : (∀ e ∈ (pump env client).log, e.Sends) ∧
    forwarded (pump env client).log <+: client.rest := by
  induction client using pump.induct env with
  | case1 client refused failed =>
    rw [pump_stop failed]
    exact ⟨fun e mem => absurd mem List.not_mem_nil, List.nil_prefix⟩
  | case2 client passed data ended =>
    rw [pump_end passed ended]
    exact ⟨fun e mem => absurd mem List.not_mem_nil, List.nil_prefix⟩
  | case3 client passed data more ih =>
    obtain ⟨part, log, leading, whole⟩ := sendAll_log env data.2.reads data.1
    have split := receive_split env chunkBytes client
    rw [pump_move passed more]
    cases sent : (sendAll env data.2.reads data.1).result with
    | error refused =>
      rw [Emit.log_bind_error sent, log, forwarded_sent, ← split]
      exact ⟨List.forall_mem_singleton.mpr ⟨part, rfl⟩, leading.trans (List.prefix_append _ _)⟩
    | ok u =>
      rw [Emit.log_bind_ok sent, log, forwarded_append, forwarded_sent, whole sent, ← split]
      exact ⟨List.forall_mem_append.mpr ⟨List.forall_mem_singleton.mpr ⟨_, rfl⟩, ih.1⟩,
        (List.prefix_append_right_inj _).mpr ih.2⟩

theorem sendAll_steady (steady : Steady env) (reads : ℕ) (data : Bytes) :
    sendAll env reads data = Emit.tell (.sent data) := by
  unfold sendAll
  rw [steady.send]

theorem pump_steady (steady : Steady env) : forwarded (pump env client).log = client.rest := by
  induction client using pump.induct env with
  | case1 client refused failed =>
    rw [steady.read] at failed
    exact absurd failed (by simp)
  | case2 client passed data ended =>
    have nothing := (receive_eq_nil env (by decide)).mp ended
    rw [pump_end passed ended, nothing]
    rfl
  | case3 client passed data more ih =>
    rw [pump_move passed more, sendAll_steady steady, Emit.log_bind_ok rfl, forwarded_append, Emit.log_tell,
      forwarded_sent, ih, receive_split]

/-! ## What the stream decides -/

/-- The decision on a whole stream: the destination, and the bytes after the head. -/
def verdict (isLiteral : List Char → Bool) (policy : EgressPolicy) (env : Conditions) (stream : Bytes) :
    Except Refusal (EgressDestination × Bytes) := do
  let size ← seek (find headEnd) connectHeadBytes .head stream
  let target ← parseConnect isLiteral (stream.take (size + 4))
  let rest := stream.drop (size + 4)
  let destination ← expect (policy.destination target.1 target.2) .destination
  env.established
  require (5 ≤ rest.length) .eof
  let length ← recordLength (rest.take 5)
  require (5 + length ≤ rest.length) .eof
  let name ← clientHelloSni (rest.take (5 + length))
  require (name = target.1) .sni
  env.admission false
  env.connect
  env.admission true
  pure (destination, rest)

theorem verdict_rest {r : EgressDestination × Bytes} (h : verdict isLiteral policy env stream = .ok r) :
    ∃ size, find headEnd stream = some size ∧ r.2 = stream.drop (size + 4) := by
  unfold verdict at h
  simp only [bind_eq_ok, require_eq_ok] at h
  obtain ⟨size, sought, target, -, destination, -, _, -, _, -, length, -, _, -, name, -, _, -, _, -, _, -, _, -,
    same⟩ := h
  cases same
  have found := find_append (by decide) (expect_eq_ok.mp sought) (stream.drop connectHeadBytes)
  rw [List.take_append_drop] at found
  exact ⟨size, found, rfl⟩

theorem approach_steady (steady : Steady env) :
    (approach isLiteral policy env client).result.map (fun r => (r.1, r.2.1 ++ r.2.2.rest)) =
      verdict isLiteral policy env client.rest := by
  unfold approach verdict
  simp only [Emit.result_bind, Emit.result_lift, Emit.result_tell, Emit.result_pure, ok_bind]
  refine map_bind_eq (gather_steady settled_find steady (Nat.zero_le _)) fun head cut => ?_
  obtain ⟨-, front, back⟩ := readHead_ok cut
  rw [front, back]
  refine map_bind_same fun target _ => map_bind_same fun destination _ => map_bind_same fun _ _ => ?_
  refine map_bind_eq (readTo_steady steady) fun five filled => ?_
  obtain ⟨enough, whole⟩ := readTo_ok filled
  rw [← whole, List.take_append_of_le_length enough]
  refine map_bind_same fun length _ => map_bind_eq (readTo_steady steady) fun hello filled' => ?_
  obtain ⟨enough', whole'⟩ := readTo_ok filled'
  rw [← whole', List.take_append_of_le_length enough']
  refine map_bind_same fun name _ => map_bind_same fun _ _ => map_bind_same fun _ _ => ?_
  exact map_bind_same fun _ _ => map_bind_same fun _ _ => rfl

theorem relay_steady (isLiteral : List Char → Bool) (policy : EgressPolicy) (steady : Steady env)
    (stream : Bytes) :
    decision isLiteral policy env stream = (verdict isLiteral policy env stream).map Prod.fst ∧
      forwarded (relay isLiteral policy env stream).log =
        ((verdict isLiteral policy env stream).toOption.map Prod.snd).getD [] := by
  have agree : (approach isLiteral policy env ⟨stream, 0⟩).result.map (fun r => (r.1, r.2.1 ++ r.2.2.rest)) =
      verdict isLiteral policy env stream := approach_steady steady
  have silent : ∀ e ∈ (approach isLiteral policy env ⟨stream, 0⟩).log, ¬ e.Sends := approach_silent
  unfold decision relay openTunnel
  cases ready : (approach isLiteral policy env ⟨stream, 0⟩).result with
  | error refused =>
    rw [ready] at agree
    rw [← agree]
    constructor
    · rw [Emit.result_bind, ready]
      rfl
    · rw [Emit.log_bind_error, Emit.log_bind_error ready, forwarded_of_silent silent]
      · rfl
      · rw [Emit.result_bind, ready]
        rfl
  | ok r =>
    obtain ⟨d, buffer, client⟩ := r
    rw [ready] at agree
    rw [← agree]
    have sent : ((approach isLiteral policy env ⟨stream, 0⟩ >>= fun ready =>
        sendAll env ready.2.2.reads ready.2.1 >>= fun _ => pure (ready.1, ready.2.2)).result) =
        .ok (d, client) := by
      rw [Emit.result_bind, ready, ok_bind, sendAll_steady steady]
      rfl
    constructor
    · rw [sent]
      rfl
    · rw [Emit.log_bind_ok sent, Emit.log_bind_ok ready, sendAll_steady steady, Emit.log_bind_ok rfl,
        forwarded_append, forwarded_append, forwarded_append, forwarded_of_silent silent, Emit.log_tell,
        forwarded_sent, Emit.log_pure, forwarded_nil, List.append_nil, List.nil_append, pump_steady steady]
      rfl

/-- The checks of the approach go the same way, wherever the reads end. -/
structure SameAnswers (env env' : Conditions) : Prop where
  established : env.established = env'.established
  admission : env.admission = env'.admission
  connect : env.connect = env'.connect

theorem verdict_same {env' : Conditions} (same : SameAnswers env env') (stream : Bytes) :
    verdict isLiteral policy env stream = verdict isLiteral policy env' stream := by
  unfold verdict
  rw [same.established, same.admission, same.connect]

theorem relay_log (isLiteral : List Char → Bool) (policy : EgressPolicy) (env : Conditions)
    (stream : Bytes) :
    (∀ e ∈ (relay isLiteral policy env stream).log, ¬ e.Sends) ∨
      ∃ d rest sents, Cleared isLiteral policy env stream d rest ∧
        (relay isLiteral policy env stream).log = approached d ++ sents ∧ (∀ e ∈ sents, e.Sends) ∧
          forwarded sents <+: rest := by
  have silent : ∀ e ∈ (approach isLiteral policy env ⟨stream, 0⟩).log, ¬ e.Sends := approach_silent
  unfold relay openTunnel
  cases ready : (approach isLiteral policy env ⟨stream, 0⟩).result with
  | error refused =>
    left
    rw [Emit.log_bind_error, Emit.log_bind_error ready]
    · exact silent
    · rw [Emit.result_bind, ready]
      rfl
  | ok r =>
    obtain ⟨d, buffer, client⟩ := r
    right
    obtain ⟨cleared, log⟩ := approach_ok ready
    obtain ⟨part, sent, leading, whole⟩ := sendAll_log env client.reads buffer
    cases done : (sendAll env client.reads buffer).result with
    | error refused =>
      refine ⟨d, buffer ++ client.rest, [.sent part], cleared, ?_, ?_, ?_⟩
      · rw [Emit.log_bind_error (e := refused), Emit.log_bind_ok ready, Emit.log_bind_error done, log, sent]
        rw [Emit.result_bind, ready, ok_bind, Emit.result_bind, done]
        rfl
      · exact List.forall_mem_singleton.mpr ⟨part, rfl⟩
      · rw [forwarded_sent]
        exact leading.trans (List.prefix_append _ _)
    | ok u =>
      have ⟨sends, moved⟩ : (∀ e ∈ (pump env client).log, e.Sends) ∧
          forwarded (pump env client).log <+: client.rest := pump_forwards
      refine ⟨d, buffer ++ client.rest, .sent part :: (pump env client).log, cleared, ?_, ?_, ?_⟩
      · rw [Emit.log_bind_ok (a := (d, client)), Emit.log_bind_ok ready, Emit.log_bind_ok done, log, sent,
          Emit.log_pure, List.append_nil, List.append_assoc, List.singleton_append]
        rw [Emit.result_bind, ready, ok_bind, Emit.result_bind, done]
        rfl
      · exact List.forall_mem_cons.mpr ⟨⟨part, rfl⟩, sends⟩
      · rw [← List.singleton_append, forwarded_append, forwarded_sent, whole done]
        exact (List.prefix_append_right_inj _).mpr moved

theorem decision_cleared (h : decision isLiteral policy env stream = .ok d) :
    ∃ rest, Cleared isLiteral policy env stream d rest := by
  unfold decision openTunnel at h
  rw [Emit.result_bind] at h
  cases ready : (approach isLiteral policy env ⟨stream, 0⟩).result with
  | error refused =>
    rw [ready] at h
    exact absurd h (by simp [Except.map])
  | ok r =>
    obtain ⟨d', buffer, client⟩ := r
    rw [ready, ok_bind, Emit.result_bind] at h
    cases done : (sendAll env client.reads buffer).result with
    | error refused =>
      dsimp only at h
      rw [done] at h
      exact absurd h (by simp [Except.map])
    | ok u =>
      dsimp only at h
      rw [done] at h
      cases h
      exact ⟨_, (approach_ok ready).1⟩

theorem Cleared.unique {env' : Conditions} {d' : EgressDestination} {rest rest' : Bytes}
    (h : Cleared isLiteral policy env stream d rest) (h' : Cleared isLiteral policy env' stream d' rest') :
    d = d' ∧ rest = rest' := by
  obtain ⟨size, found, rfl, parsed⟩ := h.head
  obtain ⟨size', found', rfl, parsed'⟩ := h'.head
  obtain rfl : size = size' := Option.some.inj (found.symm.trans found')
  have target := Prod.mk.inj (Except.ok.inj (parsed.symm.trans parsed'))
  have here := h.destination
  rw [target.1, target.2] at here
  exact ⟨Option.some.inj (here.symm.trans h'.destination), rfl⟩

end

/-- The relay decides and forwards by the client's stream, not by how it is split into reads.
Steady connections with the same answers reach one decision and forward the same bytes: all that
follows the head when there is a tunnel, nothing when there is none. In any surroundings a byte is
sent only after an approach whose destination, server name and control checks have all passed, what
is sent is a leading part of what follows the head, and two tunnels of one stream have one
destination. -/
theorem relay_exact (isLiteral : List Char → Bool) (policy : EgressPolicy) :
    (∀ env env' stream, Steady env → Steady env' → SameAnswers env env' →
      decision isLiteral policy env stream = decision isLiteral policy env' stream ∧
        forwarded (relay isLiteral policy env stream).log =
          forwarded (relay isLiteral policy env' stream).log) ∧
    (∀ env stream d, Steady env → decision isLiteral policy env stream = .ok d →
      ∃ size, find headEnd stream = some size ∧
        forwarded (relay isLiteral policy env stream).log = stream.drop (size + 4)) ∧
    (∀ env stream refused, Steady env → decision isLiteral policy env stream = .error refused →
      forwarded (relay isLiteral policy env stream).log = []) ∧
    (∀ env stream before data after,
      (relay isLiteral policy env stream).log = before ++ .sent data :: after →
        ∃ d rest, Cleared isLiteral policy env stream d rest ∧ approached d <+: before ∧
          forwarded (relay isLiteral policy env stream).log <+: rest) ∧
    (∀ env env' stream d d', decision isLiteral policy env stream = .ok d →
      decision isLiteral policy env' stream = .ok d' → d = d') := by
  refine ⟨?_, ?_, ?_, ?_, ?_⟩
  · intro env env' stream steady steady' same
    obtain ⟨decided, sent⟩ := relay_steady isLiteral policy steady stream
    obtain ⟨decided', sent'⟩ := relay_steady isLiteral policy steady' stream
    rw [decided, decided', sent, sent', verdict_same same stream]
    exact ⟨rfl, rfl⟩
  · intro env stream d steady tunnel
    obtain ⟨decided, sent⟩ := relay_steady isLiteral policy steady stream
    rw [tunnel] at decided
    cases judged : verdict isLiteral policy env stream with
    | error refused =>
      rw [judged] at decided
      exact absurd decided (by simp [Except.map])
    | ok r =>
      obtain ⟨size, found, rest⟩ := verdict_rest judged
      rw [judged] at sent
      exact ⟨size, found, sent.trans rest⟩
  · intro env stream refused steady denied
    obtain ⟨decided, sent⟩ := relay_steady isLiteral policy steady stream
    rw [denied] at decided
    cases judged : verdict isLiteral policy env stream with
    | error refused' =>
      rw [judged] at sent
      exact sent
    | ok r =>
      rw [judged] at decided
      exact absurd decided (by simp [Except.map])
  · intro env stream before data after log
    rcases relay_log isLiteral policy env stream with silent | ⟨d, rest, sents, cleared, whole, sends, leading⟩
    · rw [log] at silent
      exact absurd ⟨data, rfl⟩ (silent _ (List.mem_append_right _ List.mem_cons_self))
    · refine ⟨d, rest, cleared, ?_, ?_⟩
      · rw [whole] at log
        rcases List.append_eq_append_iff.mp log with ⟨more, same, -⟩ | ⟨more, same, split⟩
        · rw [same]
          exact List.prefix_append _ _
        · cases more with
          | nil =>
            rw [List.append_nil] at same
            rw [same]
          | cons e more =>
            -- The event would stand inside the approach, which sends nothing.
            rw [List.cons_append] at split
            have first := (List.cons.inj split).1
            have inside : RelayEvent.sent data ∈ approached d := by
              rw [same, first]
              exact List.mem_append_right _ List.mem_cons_self
            simp [approached] at inside
      · rw [whole, forwarded_append]
        exact leading
  · intro env env' stream d d' tunnel tunnel'
    obtain ⟨rest, cleared⟩ := decision_cleared tunnel
    obtain ⟨rest', cleared'⟩ := decision_cleared tunnel'
    exact (cleared.unique cleared').1

/-- Surroundings that let everything pass and return this many bytes and one more at a time. -/
def passing (size : ℕ) : Conditions where
  size _ := size
  read _ := .ok ()
  established := .ok ()
  admission _ := .ok ()
  connect := .ok ()
  send _ := none

def onlyHost : EgressPolicy where
  destinations := [⟨"host", 443, "192.0.2.1"⟩]
  nonempty := by simp
  distinct := by simp

theorem relay_exact_bytewise (stream : Bytes) :
    decision (fun _ => false) onlyHost (passing 0) stream =
      decision (fun _ => false) onlyHost (passing 8191) stream := by
  have steady : ∀ size, Steady (passing size) := fun size => ⟨fun _ => rfl, fun _ => rfl⟩
  exact ((relay_exact (fun _ => false) onlyHost).1 (passing 0) (passing 8191) stream (steady 0) (steady 8191)
    ⟨rfl, rfl, rfl⟩).1

end Constructicon
