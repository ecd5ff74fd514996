import Constructicon.EgressRelay
import Constructicon.Library.IpLiteral

/-!
# The CONNECT line of an egress connection

`parse_connect` accepts a head exactly when it is `CONNECT host:port HTTP/1.1` with lines of
ASCII after it (`ConnectHead`): the host a lowercase DNS name, the port a decimal number
without leading zeros. Such a host is no address in any spelling, so the literal test only
decides how a refused head is classified.
-/

namespace Constructicon

open Transaction Vectors

-- A condition on the members of a list is decided along the list.
local instance (priority := 2000) spelledDecidable {α : Type} (p : α → Prop) [DecidablePred p] (l : List α) :
    Decidable (∀ x ∈ l, p x) := List.decidableBAll p l

/-! ## Ports -/

theorem portNumber_eq (port : List Char) : portNumber port = Nat.ofDigitChars 10 port 0 := by
  unfold portNumber
  rw [Nat.ofDigitChars_eq_foldl]
  congr 1
  funext n c
  rw [Nat.mul_comm]
  rfl

theorem portNumber_toDigits (n : ℕ) : portNumber (Nat.toDigits 10 n) = n := by
  rw [portNumber_eq]
  exact Nat.ofDigitChars_ten_toDigits

theorem digitChar_of_digit {c : Char} (h : isDecimalDigit c = true) : Nat.digitChar (c.toNat - 48) = c := by
  simp only [isDecimalDigit, decide_eq_true_eq] at h
  have bound : c.toNat - 48 < 10 := by omega
  have same : (Nat.digitChar (c.toNat - 48)).toNat = c.toNat := by
    rw [Nat.toNat_digitChar_of_lt_ten bound]
    omega
  exact Char.toNat_inj.mp same

theorem digit_lt {c : Char} (h : isDecimalDigit c = true) : c.toNat - 48 < 10 := by
  simp only [isDecimalDigit, decide_eq_true_eq] at h
  omega

/-- Digits that do not begin with `0` are the digits of the number they read as. -/
theorem toDigits_portNumber {port : List Char} (digits : ∀ c ∈ port, isDecimalDigit c = true) {first : Char}
    (head : port.head? = some first) (nonzero : first ≠ '0') :
    0 < portNumber port ∧ Nat.toDigits 10 (portNumber port) = port := by
  induction port using List.reverseRecOn with
  | nil => cases head
  | append_singleton front c ih =>
    have last : isDecimalDigit c = true := digits c (by simp)
    have value : portNumber (front ++ [c]) = portNumber front * 10 + (c.toNat - 48) := by
      simp [portNumber, List.foldl_append]
    rw [value]
    cases front with
    | nil =>
      obtain rfl : c = first := Option.some.inj head
      have pos : 0 < c.toNat - 48 := by
        rcases Nat.eq_zero_or_pos (c.toNat - 48) with zero | pos
        · have same := digitChar_of_digit last
          rw [zero] at same
          exact absurd same.symm nonzero
        · exact pos
      change 0 < 0 * 10 + (c.toNat - 48) ∧ Nat.toDigits 10 (0 * 10 + (c.toNat - 48)) = [c]
      rw [Nat.zero_mul, Nat.zero_add, Nat.toDigits_of_lt_base (digit_lt last), digitChar_of_digit last]
      exact ⟨pos, rfl⟩
    | cons d rest =>
      obtain ⟨pos, same⟩ := ih (fun x hx => digits x (List.mem_append_left _ hx)) head
      refine ⟨by omega, ?_⟩
      rw [Nat.mul_comm, ← Nat.toDigits_append_toDigits (by decide) pos (digit_lt last), same,
        Nat.toDigits_of_lt_base (digit_lt last), digitChar_of_digit last]

theorem head_toDigits {n : ℕ} (pos : 0 < n) : ∃ first, (Nat.toDigits 10 n).head? = some first ∧ first ≠ '0' := by
  induction n using Nat.strongRecOn with
  | ind n ih =>
    rw [Nat.toDigits_eq_if (by decide)]
    split_ifs with small
    · exact ⟨_, rfl, by simp; omega⟩
    · obtain ⟨first, head, nonzero⟩ := ih (n / 10) (by omega) (by omega)
      exact ⟨first, by rw [List.head?_append, head]; rfl, nonzero⟩

theorem length_toDigits_le {n k : ℕ} (h : n < 10 ^ (k + 1)) : (Nat.toDigits 10 n).length ≤ k + 1 := by
  induction k generalizing n with
  | zero =>
    rw [Nat.toDigits_of_lt_base (by omega)]
    simp
  | succ k ih =>
    rw [Nat.toDigits_eq_if (by decide)]
    split_ifs with small
    · simp
    · have := ih (n := n / 10) (by omega)
      simp only [List.length_append, List.length_singleton]
      omega

theorem decimal_of_toDigits {n : ℕ} {c : Char} (h : c ∈ Nat.toDigits 10 n) : isDecimalDigit c = true := by
  have digit := Nat.isDigit_of_mem_toDigits (by decide) (by decide) h
  simp only [Char.isDigit, ge_iff_le, Bool.and_eq_true, decide_eq_true_eq] at digit
  simp only [isDecimalDigit, decide_eq_true_eq]
  exact digit

/-- A port in range is printed as `_PORT` reads it. -/
theorem isPort_toDigits {n : ℕ} (pos : 0 < n) (bound : n ≤ 65535) : isPort (Nat.toDigits 10 n) = true := by
  simp only [isPort, decide_eq_true_eq]
  have short := length_toDigits_le (n := n) (k := 4) (by omega)
  obtain ⟨first, head, nonzero⟩ := head_toDigits pos
  exact ⟨short, fun c hc => decimal_of_toDigits hc, first, head, nonzero⟩

/-! ## Hosts -/

theorem mem_part {a c : Char} {text : List Char} (mem : c ∈ text) (other : c ≠ a) :
    ∃ part ∈ text.splitOn a, c ∈ part := by
  induction text with
  | nil => cases mem
  | cons x rest ih =>
    rw [List.splitOn_cons_eq_if_modifyHead]
    obtain ⟨first, parts, split⟩ := List.exists_cons_of_ne_nil (List.splitOn_ne_nil a rest)
    rcases List.mem_cons.mp mem with rfl | mem
    · rw [if_neg (by simpa using other), split]
      exact ⟨c :: first, List.mem_cons_self, List.mem_cons_self⟩
    · obtain ⟨part, among, has⟩ := ih mem
      split_ifs with separator
      · exact ⟨part, List.mem_cons_of_mem _ among, has⟩
      · rw [split] at among ⊢
        rcases List.mem_cons.mp among with rfl | among
        · exact ⟨x :: part, List.mem_cons_self, List.mem_cons_of_mem _ has⟩
        · exact ⟨part, List.mem_cons_of_mem _ among, has⟩

def IsHostChar (c : Char) : Prop := c = '.' ∨ isLowercase c = true ∨ isDecimalDigit c = true ∨ c = '-'

theorem isHostChar_of_mem {host : List Char} (named : isHost host = true) {c : Char} (mem : c ∈ host) :
    IsHostChar c := by
  by_cases dot : c = '.'
  · exact .inl dot
  · obtain ⟨label, among, has⟩ := mem_part mem dot
    simp only [isHost, decide_eq_true_eq] at named
    have spelled := named.2.2.1 label among
    simp only [isLabel, decide_eq_true_eq] at spelled
    exact .inr (spelled.2.1 c has)

theorem not_mem_host {host : List Char} (named : isHost host = true) {c : Char} (other : ¬ IsHostChar c) :
    c ∉ host := fun mem => other (isHostChar_of_mem named mem)

theorem host_no_literal {host : List Char} (named : isHost host = true) :
    IpLiteral.isAddress host = false ∧ IpLiteral.isNumeric host = false := by
  apply IpLiteral.no_spelling
  · exact not_mem_host named (by unfold IsHostChar; decide)
  · rintro ⟨last, final, first, head, digit⟩
    simp only [isHost, decide_eq_true_eq] at named
    obtain ⟨last', final', first', head', letter⟩ := named.2.2.2
    cases Option.mem_unique final final'
    cases Option.mem_unique head head'
    simp only [isLowercase, decide_eq_true_eq] at letter
    simp only [IpLiteral.isDigit, decide_eq_true_eq] at digit
    omega

/-- A label of a DNS name: letters, digits and inner hyphens, at most 63 of them. -/
structure Label (label : List Char) : Prop where
  length_le : label.length ≤ 63
  spelled : ∀ c ∈ label, isLowercase c = true ∨ isDecimalDigit c = true ∨ c = '-'
  opens : ∃ first, label.head? = some first ∧ first ≠ '-'
  closes : ∃ last, label.getLast? = some last ∧ last ≠ '-'

theorem isLabel_iff {label : List Char} : isLabel label = true ↔ Label label := by
  have plain : ∀ c, (isLowercase c = true ∨ isDecimalDigit c = true) → c ≠ '-' := by
    rintro c (lower | digit) rfl
    · exact absurd lower (by decide)
    · exact absurd digit (by decide)
  simp only [isLabel, decide_eq_true_eq]
  constructor
  · rintro ⟨short, spelled, first, head, last, final, opens, closes⟩
    exact ⟨short, spelled, ⟨first, head, plain first opens⟩, ⟨last, final, plain last closes⟩⟩
  · rintro ⟨short, spelled, ⟨first, head, opens⟩, ⟨last, final, closes⟩⟩
    have opened := spelled first (List.mem_of_mem_head? head)
    have closed := spelled last (List.mem_of_getLast? final)
    exact ⟨short, spelled, first, head, last, final, opened.imp_right fun or => or.resolve_right opens,
      closed.imp_right fun or => or.resolve_right closes⟩

/-- A DNS name: labels between dots, at most 253 characters, the final label beginning with a letter. -/
structure DnsName (host : List Char) (labels : List (List Char)) : Prop where
  dotted : host = ['.'].intercalate labels
  each : ∀ label ∈ labels, Label label
  length_le : host.length ≤ 253
  lettered : ∃ last first, labels.getLast? = some last ∧ last.head? = some first ∧ isLowercase first = true

theorem isHost_iff {host : List Char} : isHost host = true ↔ ∃ labels, DnsName host labels := by
  simp only [isHost, decide_eq_true_eq]
  constructor
  · rintro ⟨-, short, each, last, final, first, head, letter⟩
    exact ⟨host.splitOn '.', (List.intercalate_splitOn '.').symm, fun label mem => isLabel_iff.mp (each label mem),
      short, last, first, final, head, letter⟩
  · rintro ⟨labels, rfl, each, short, last, first, final, head, letter⟩
    have dotless : ∀ label ∈ labels, '.' ∉ label := by
      intro label among mem
      rcases (each label among).spelled '.' mem with lower | digit | same
      · exact absurd lower (by decide)
      · exact absurd digit (by decide)
      · exact absurd same (by decide)
    have some_label : labels ≠ [] := by
      rintro rfl
      cases final
    have split : (['.'].intercalate labels).splitOn '.' = labels := List.splitOn_intercalate '.' dotless some_label
    rw [split]
    refine ⟨?_, short, fun label mem => isLabel_iff.mpr (each label mem), last, final, first, head, letter⟩
    rcases Nat.eq_zero_or_pos (['.'].intercalate labels).length with empty | pos
    · rw [List.length_eq_zero_iff.mp empty] at split
      have same : labels = [[]] := split.symm
      rw [same] at final
      cases final
      cases head
    · exact pos

theorem ascii_host {host : List Char} (named : isHost host = true) : ∀ c ∈ host, c.toNat < 128 := by
  intro c mem
  rcases isHostChar_of_mem named mem with rfl | lower | digit | rfl
  · decide
  · simp only [isLowercase, decide_eq_true_eq] at lower
    omega
  · simp only [isDecimalDigit, decide_eq_true_eq] at digit
    omega
  · decide

/-! ## The target -/

theorem colon_partition (front : List Char) {back : List Char} (none : ':' ∉ back) :
    ((front ++ ':' :: back).reverse.dropWhile (· ≠ ':')).tail.reverse = front ∧
      ((front ++ ':' :: back).reverse.takeWhile (· ≠ ':')).reverse = back := by
  have clear : ∀ c ∈ back.reverse, decide (c ≠ ':') = true := by
    intro c mem
    apply decide_eq_true
    rintro rfl
    exact none (List.mem_reverse.mp mem)
  have turned : (front ++ ':' :: back).reverse = back.reverse ++ ':' :: front.reverse := by simp
  rw [turned, List.dropWhile_append_of_pos clear, List.takeWhile_append_of_pos clear]
  simp

theorem exists_colon_partition {target : List Char} (mem : ':' ∈ target) :
    ∃ front back, target = front ++ ':' :: back ∧ ':' ∉ back := by
  induction target with
  | nil => cases mem
  | cons c rest ih =>
    by_cases later : ':' ∈ rest
    · obtain ⟨front, back, rfl, none⟩ := ih later
      exact ⟨c :: front, back, rfl, none⟩
    · rcases List.mem_cons.mp mem with rfl | mem
      · exact ⟨[], rest, rfl, later⟩
      · exact absurd mem later

theorem parseTarget_eq_ok {target : List Char} {host : String} {port : ℕ} :
    parseTarget IpLiteral.isAddress target = .ok (host, port) ↔
      isHost host.toList = true ∧ 0 < port ∧ port ≤ 65535 ∧
        target = host.toList ++ ':' :: Nat.toDigits 10 port := by
  constructor
  · intro read
    unfold parseTarget at read
    simp only [bind_eq_ok] at read
    obtain ⟨_, -, _, accepted, same⟩ := read
    have accepted := require_eq_ok.mp accepted
    obtain ⟨colon, number, bound, named⟩ := accepted
    obtain ⟨front, back, rfl, none⟩ := exists_colon_partition colon
    obtain ⟨hostPart, portPart⟩ := colon_partition front none
    rw [if_pos colon, hostPart] at named same
    rw [portPart] at number bound same
    cases same
    simp only [isPort, decide_eq_true_eq] at number
    obtain ⟨first, head, nonzero⟩ := number.2.2
    obtain ⟨pos, digits⟩ := toDigits_portNumber number.2.1 head nonzero
    rw [String.toList_ofList, digits]
    exact ⟨named, pos, bound, rfl⟩
  · rintro ⟨named, pos, bound, rfl⟩
    have none : ':' ∉ Nat.toDigits 10 port := by
      intro mem
      exact absurd (decimal_of_toDigits mem) (by decide)
    obtain ⟨hostPart, portPart⟩ := colon_partition host.toList none
    have colon : ':' ∈ host.toList ++ ':' :: Nat.toDigits 10 port := by simp
    have bracket : host.toList.head? ≠ some '[' := by
      intro head
      exact not_mem_host named (c := '[') (by unfold IsHostChar; decide) (List.mem_of_mem_head? head)
    unfold parseTarget
    simp only [if_pos colon, hostPart, portPart]
    rw [require_of, require_of]
    · rw [String.ofList_toList, portNumber_toDigits]
      rfl
    · exact ⟨colon, isPort_toDigits pos bound, by rwa [portNumber_toDigits], named⟩
    · rintro (head | literal)
      · exact bracket head
      · rw [(host_no_literal named).1] at literal
        cases literal

/-! ## The head -/

/-- `CONNECT target HTTP/1.1` -/
def connectLine (target : List Char) : List Char :=
  "CONNECT".toList ++ ' ' :: (target ++ ' ' :: "HTTP/1.1".toList)

/-- A head of the grammar: its target, and what follows the first line. -/
structure ConnectHead where
  host : String
  port : ℕ
  headers : String
  named : isHost host.toList = true
  port_pos : 0 < port
  port_le : port ≤ 65535
  ascii : Ascii headers
  /-- The head ends with an empty line, which may be the first one after the CONNECT line. -/
  ended : ['\r', '\n', '\r', '\n'] <:+ '\r' :: '\n' :: headers.toList

namespace ConnectHead

/-- `host:port` -/
def authority (h : ConnectHead) : List Char := h.host.toList ++ ':' :: Nat.toDigits 10 h.port

def line (h : ConnectHead) : List Char := connectLine h.authority

def text (h : ConnectHead) : String := String.ofList (h.line ++ '\r' :: '\n' :: h.headers.toList)

def encode (h : ConnectHead) : Bytes := asciiBytes h.text

theorem mem_authority {h : ConnectHead} {c : Char} (mem : c ∈ h.authority) :
    IsHostChar c ∨ c = ':' ∨ isDecimalDigit c = true := by
  rcases List.mem_append.mp mem with host | rest
  · exact .inl (isHostChar_of_mem h.named host)
  · rcases List.mem_cons.mp rest with rfl | digit
    · exact .inr (.inl rfl)
    · exact .inr (.inr (decimal_of_toDigits digit))

theorem not_mem_authority (h : ConnectHead) {c : Char} (other : ¬ (IsHostChar c ∨ c = ':' ∨ isDecimalDigit c = true)) :
    c ∉ h.authority := fun mem => other (mem_authority mem)

theorem ascii_word (word : String) (low : (word.toList.all fun c => c.toNat < 128) = true) {c : Char}
    (mem : c ∈ word.toList) : c.toNat < 128 := of_decide_eq_true (List.all_eq_true.mp low c mem)

theorem ascii_authority {h : ConnectHead} {c : Char} (mem : c ∈ h.authority) : c.toNat < 128 := by
  rcases List.mem_append.mp mem with host | rest
  · exact ascii_host h.named c host
  · rcases List.mem_cons.mp rest with rfl | digit
    · decide
    · have digit := decimal_of_toDigits digit
      simp only [isDecimalDigit, decide_eq_true_eq] at digit
      omega

theorem ascii_line {h : ConnectHead} {c : Char} (mem : c ∈ h.line) : c.toNat < 128 := by
  rcases List.mem_append.mp mem with word | rest
  · exact ascii_word "CONNECT" (by decide) word
  · rcases List.mem_cons.mp rest with rfl | rest
    · decide
    · rcases List.mem_append.mp rest with target | rest
      · exact ascii_authority target
      · rcases List.mem_cons.mp rest with rfl | word
        · decide
        · exact ascii_word "HTTP/1.1" (by decide) word

theorem ascii_text (h : ConnectHead) : Ascii h.text := by
  intro c mem
  rw [text, String.toList_ofList, List.mem_append, List.mem_cons, List.mem_cons] at mem
  rcases mem with first | rfl | rfl | header
  · exact ascii_line first
  · decide
  · decide
  · exact h.ascii c header

end ConnectHead

theorem firstLine_append {line rest : List Char} (none : '\r' ∉ line) :
    firstLine (line ++ '\r' :: '\n' :: rest) = line := by
  induction line with
  | nil => simp [firstLine]
  | cons c line ih =>
    have other : ¬ ['\r', '\n'] <+: c :: (line ++ '\r' :: '\n' :: rest) := by
      rintro ⟨after, same⟩
      obtain ⟨rfl, -⟩ := List.cons.inj same
      exact none List.mem_cons_self
    rw [List.cons_append, firstLine, if_neg other, ih (fun mem => none (List.mem_cons_of_mem _ mem))]

theorem firstLine_spec {text : List Char} (has : ['\r', '\n'] <:+: text) :
    ∃ rest, text = firstLine text ++ '\r' :: '\n' :: rest := by
  induction text with
  | nil => simp at has
  | cons c text ih =>
    rw [firstLine]
    by_cases here : ['\r', '\n'] <+: c :: text
    · obtain ⟨rest, same⟩ := here
      exact ⟨rest, by rw [if_pos ⟨rest, same⟩]; exact same.symm⟩
    · rw [if_neg here]
      obtain ⟨rest, same⟩ := ih ((List.infix_cons_iff.mp has).resolve_left here)
      exact ⟨rest, by rw [List.cons_append, ← same]⟩

theorem suffix_after {line rest : List Char} {last : Char} (other : last ≠ '\n')
    (closed : line.getLast? = some last) :
    ['\r', '\n', '\r', '\n'] <:+ line ++ '\r' :: '\n' :: rest ↔
      ['\r', '\n', '\r', '\n'] <:+ '\r' :: '\n' :: rest := by
  constructor
  · intro ended
    by_cases enough : 2 ≤ rest.length
    · exact List.suffix_of_suffix_length_le ended (List.suffix_append _ _) (by simp; omega)
    · obtain ⟨before, rfl⟩ := List.getLast?_eq_some_iff.mp closed
      obtain ⟨front, same⟩ := ended
      have turned := congrArg List.reverse same
      rcases rest with _ | ⟨c, _ | ⟨d, rest⟩⟩
      · simp at turned
        exact absurd turned.1.symm other
      · simp at turned
      · simp at enough
  · exact fun ended => ended.trans (List.suffix_append _ _)

theorem not_mem_word (word : String) (c : Char) (none : (word.toList.all fun d => d ≠ c) = true) :
    c ∉ word.toList := fun mem => of_decide_eq_true (List.all_eq_true.mp none c mem) rfl

namespace ConnectHead

theorem splitOn_line (h : ConnectHead) :
    h.line.splitOn ' ' = ["CONNECT".toList, h.authority, "HTTP/1.1".toList] := by
  have method : ' ' ∉ "CONNECT".toList := not_mem_word "CONNECT" ' ' (by decide)
  have version : ' ' ∉ "HTTP/1.1".toList := not_mem_word "HTTP/1.1" ' ' (by decide)
  have target : ' ' ∉ h.authority := h.not_mem_authority (by unfold IsHostChar; decide)
  unfold line connectLine
  rw [List.splitOn_append_cons_self_of_not_mem method, List.splitOn_append_cons_self_of_not_mem target,
    List.splitOn_eq_singleton version]

theorem no_return (h : ConnectHead) : '\r' ∉ h.line := by
  intro mem
  rcases List.mem_append.mp mem with word | rest
  · exact not_mem_word "CONNECT" '\r' (by decide) word
  · rcases List.mem_cons.mp rest with same | rest
    · exact absurd same (by decide)
    · rcases List.mem_append.mp rest with target | rest
      · exact h.not_mem_authority (by unfold IsHostChar; decide) target
      · rcases List.mem_cons.mp rest with same | word
        · exact absurd same (by decide)
        · exact not_mem_word "HTTP/1.1" '\r' (by decide) word

end ConnectHead

theorem getLast?_connectLine (target : List Char) : (connectLine target).getLast? = some '1' := by
  have version : (' ' :: "HTTP/1.1".toList).getLast? = some '1' := by decide
  have shape : connectLine target = ("CONNECT".toList ++ ' ' :: target) ++ ' ' :: "HTTP/1.1".toList := by
    unfold connectLine
    generalize "CONNECT".toList = method
    generalize "HTTP/1.1".toList = version
    simp
  rw [shape, List.getLast?_append, version]
  rfl

theorem three_words {line : List Char} {target : List Char} (three : (line.splitOn ' ').length = 3)
    (method : (line.splitOn ' ')[0]? = some "CONNECT".toList)
    (version : (line.splitOn ' ')[2]? = some "HTTP/1.1".toList) (middle : (line.splitOn ' ')[1]? = some target) :
    line = connectLine target := by
  obtain ⟨a, b, c, parts⟩ := List.length_eq_three.mp three
  have whole : [' '].intercalate (line.splitOn ' ') = line := List.intercalate_splitOn ' '
  rw [parts] at method version middle whole
  cases Option.some.inj method
  cases Option.some.inj middle
  cases Option.some.inj version
  rw [← whole]
  unfold connectLine
  generalize "CONNECT".toList = method
  generalize "HTTP/1.1".toList = version
  simp [List.intercalate]

/-- A refusal of `parse_connect` is `connect` or `ip_literal`. -/
theorem parseConnect_refused {isLiteral : List Char → Bool} {head : Bytes} {e : Refusal}
    (refused : parseConnect isLiteral head = .error e) : e = .connect ∨ e = .ipLiteral := by
  simp only [parseConnect, parseTarget, bind_eq_error, require_eq_error, expect_eq_error] at refused
  rcases refused with ⟨-, rfl⟩ | ⟨_, -, ⟨-, rfl⟩ | ⟨_, -, ⟨-, rfl⟩ | ⟨_, -, ⟨-, rfl⟩ | ⟨_, -, ⟨-, rfl⟩ | ⟨_, -, ⟨-, rfl⟩ | ⟨_, -, same⟩⟩⟩⟩⟩⟩
  · exact .inl rfl
  · exact .inl rfl
  · exact .inl rfl
  · exact .inl rfl
  · exact .inr rfl
  · exact .inl rfl
  · cases same

theorem parseConnect_eq_ok {head : Bytes} {host : String} {port : ℕ} :
    parseConnect IpLiteral.isAddress head = .ok (host, port) ↔
      ∃ h : ConnectHead, h.host = host ∧ h.port = port ∧ h.encode = head := by
  simp only [parseConnect, bind_eq_ok, expect_eq_ok, require_eq_ok, exists_const, decodeAscii_eq_some,
    parseTarget_eq_ok]
  constructor
  · rintro ⟨text, ⟨low, rfl⟩, ended, ⟨three, method, version⟩, target, middle, named, pos, bound, rfl⟩
    have line := three_words three method version middle
    have broken : ['\r', '\n'] <:+: text.toList :=
      List.IsInfix.trans ⟨[], ['\r', '\n'], rfl⟩ ended.isInfix
    obtain ⟨rest, whole⟩ := firstLine_spec broken
    rw [line] at whole
    rw [whole] at ended
    have after := (suffix_after (by decide) (getLast?_connectLine _)).mp ended
    obtain ⟨headers, rfl⟩ : ∃ headers : String, headers.toList = rest := ⟨_, String.toList_ofList⟩
    have low_headers : Ascii headers := by
      intro c mem
      apply low c
      rw [whole]
      simp [mem]
    refine ⟨⟨host, port, headers, named, pos, bound, low_headers, after⟩, rfl, rfl, ?_⟩
    change asciiBytes (String.ofList (connectLine (host.toList ++ ':' :: Nat.toDigits 10 port) ++
      '\r' :: '\n' :: headers.toList)) = asciiBytes text
    rw [← whole, String.ofList_toList]
  · rintro ⟨h, rfl, rfl, rfl⟩
    have first : firstLine h.text.toList = h.line := by
      rw [ConnectHead.text, String.toList_ofList]
      exact firstLine_append h.no_return
    refine ⟨h.text, ⟨h.ascii_text, rfl⟩, ?_, ?_, h.authority, ?_, h.named, h.port_pos, h.port_le, rfl⟩
    · rw [ConnectHead.text, String.toList_ofList]
      exact (suffix_after (by decide) (getLast?_connectLine _)).mpr h.ended
    · rw [first, h.splitOn_line]
      exact ⟨rfl, rfl, rfl⟩
    · rw [first, h.splitOn_line]
      rfl

/-- `parse_connect` answers every head, accepts the heads of the grammar and no others, and
returns the host and port their authority spells. -/
theorem connect_grammar (head : Bytes) :
    ((∃ target, parseConnect IpLiteral.isAddress head = .ok target) ∨
        parseConnect IpLiteral.isAddress head = .error .connect ∨
        parseConnect IpLiteral.isAddress head = .error .ipLiteral) ∧
      (∀ host port, parseConnect IpLiteral.isAddress head = .ok (host, port) ↔
        ∃ h : ConnectHead, h.host = host ∧ h.port = port ∧ h.encode = head) ∧
      ∀ host port, parseConnect IpLiteral.isAddress head = .ok (host, port) →
        (∃ labels, DnsName host.toList labels) ∧ IpLiteral.isAddress host.toList = false ∧
          IpLiteral.isNumeric host.toList = false ∧ 1 ≤ port ∧ port ≤ 65535 ∧
          ∃ headers : String, head = asciiBytes (String.ofList
            (connectLine (host.toList ++ ':' :: Nat.toDigits 10 port) ++ '\r' :: '\n' :: headers.toList)) := by
  refine ⟨?_, fun host port => parseConnect_eq_ok, ?_⟩
  · cases read : parseConnect IpLiteral.isAddress head with
    | ok target => exact .inl ⟨target, rfl⟩
    | error e =>
      rcases parseConnect_refused read with rfl | rfl
      · exact .inr (.inl rfl)
      · exact .inr (.inr rfl)
  · intro host port read
    obtain ⟨h, rfl, rfl, rfl⟩ := parseConnect_eq_ok.mp read
    obtain ⟨literal, numeric⟩ := host_no_literal h.named
    exact ⟨isHost_iff.mp h.named, literal, numeric, h.port_pos, h.port_le, h.headers, rfl⟩

def tunnelHead : ConnectHead where
  host := "api.example"
  port := 443
  headers := "\r\n"
  named := by decide
  port_pos := by decide
  port_le := by decide
  ascii := by
    unfold Ascii
    decide
  ended := by decide

theorem connect_grammar_tunnel :
    parseConnect IpLiteral.isAddress tunnelHead.encode = .ok ("api.example", 443) ∧
      ∃ labels, DnsName "api.example".toList labels := by
  have read : parseConnect IpLiteral.isAddress tunnelHead.encode = .ok ("api.example", 443) :=
    ((connect_grammar _).2.1 _ _).mpr ⟨tunnelHead, rfl, rfl, rfl⟩
  exact ⟨read, ((connect_grammar _).2.2 _ _ read).1⟩

end Constructicon
