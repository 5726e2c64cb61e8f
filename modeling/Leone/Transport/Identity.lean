import Leone.Transport.Address
import Leone.Transport.Request

/-!
# Client identity

A trusted proxy appends the address of its peer to the addresses that it was forwarded. The client
is the last address in the list that is not a proxy.
-/

namespace Leone.Transport

open Framework Utf8

/-! ## Addresses as text -/

/-- `char::to_digit`. -/
def toDigit (radix : Nat) (byte : UInt8) : Option Nat :=
  if 0x30 ≤ byte ∧ byte ≤ 0x39 then some (byte.toNat - 0x30)
  else if radix = 16 ∧ 0x41 ≤ byte ∧ byte ≤ 0x46 then some (byte.toNat - 0x41 + 10)
  else if radix = 16 ∧ 0x61 ≤ byte ∧ byte ≤ 0x66 then some (byte.toNat - 0x61 + 10)
  else none

/-- The value and the count of the digits that a text begins with, and the text after them. -/
def readDigits (radix maxDigits : Nat) : Bytes → Nat → Nat → Option (Nat × Nat × Bytes)
  | [], value, count => some (value, count, [])
  | byte :: rest, value, count =>
    match toDigit radix byte with
    | none => some (value, count, byte :: rest)
    | some digit =>
      if maxDigits < count + 1 then none
      else readDigits radix maxDigits rest (value * radix + digit) (count + 1)

def readNumber (radix maxDigits : Nat) (allowZeroPrefix : Bool) (bound : Nat) (text : Bytes) :
    Option (Nat × Bytes) :=
  match readDigits radix maxDigits text 0 0 with
  | none => none
  | some (value, count, rest) =>
    if count = 0 then none
    else if !allowZeroPrefix && text.head? = some 0x30 && 1 < count then none
    else if value < bound then some (value, rest)
    else none

/-- A part after its separator. The first part has none. -/
def readSeparator {α : Type} (separator : UInt8) (index : Nat)
    (inner : Bytes → Option (α × Bytes)) (text : Bytes) : Option (α × Bytes) :=
  if 0 < index then
    match text with
    | [] => none
    | byte :: rest => if byte = separator then inner rest else none
  else inner text

def readIpv4Addr (text : Bytes) : Option ({octets : List UInt8 // octets.length = 4} × Bytes) := do
  let group := fun index => readSeparator 0x2E index (readNumber 10 3 false 256)
  let (first, text) ← group 0 text
  let (second, text) ← group 1 text
  let (third, text) ← group 2 text
  let (fourth, text) ← group 3 text
  return (⟨[first, second, third, fourth].map UInt8.ofNat, rfl⟩, text)

/-- The segments of four octets. -/
def segmentPair (octets : {octets : List UInt8 // octets.length = 4}) : List UInt16 :=
  [octets.val[0].toUInt16 <<< 8 ||| octets.val[1].toUInt16,
    octets.val[2].toUInt16 <<< 8 ||| octets.val[3].toUInt16]

/-- The groups that a text begins with, whether an IPv4 address ends them, and the text after
them. -/
def readGroups : Nat → Nat → Bytes → List UInt16 × Bool × Bytes
  | 0, _, text => ([], false, text)
  | remaining + 1, index, text =>
    match if 0 < remaining then readSeparator 0x3A index readIpv4Addr text else none with
    | some (octets, rest) => (segmentPair octets, true, rest)
    | none =>
      match readSeparator 0x3A index (readNumber 16 4 true 65536) text with
      | none => ([], false, text)
      | some (group, rest) =>
        let (groups, ipv4, rest) := readGroups remaining (index + 1) rest
        (UInt16.ofNat group :: groups, ipv4, rest)

theorem readGroups_length (remaining index : Nat) (text : Bytes) :
    (readGroups remaining index text).1.length ≤ remaining := by
  induction remaining generalizing index text with
  | zero => exact Nat.le_refl 0
  | succ remaining ih =>
    rw [readGroups]
    split
    · rename_i hread
      have hremaining : 0 < remaining := by
        by_contra hzero
        rw [if_neg hzero] at hread
        cases hread
      show 2 ≤ remaining + 1
      omega
    · split
      · exact Nat.zero_le _
      · exact Nat.succ_le_succ (ih _ _)

/-- The eight segments around `::`, which stands for at least one zero. -/
def expand (head tail : List UInt16) (h : head.length < 8)
    (htail : tail.length ≤ 8 - (head.length + 1)) : {segments : List UInt16 // segments.length = 8} :=
  ⟨head ++ List.replicate (8 - head.length - tail.length) 0 ++ tail, by
    simp only [List.length_append, List.length_replicate]
    omega⟩

def readIpv6Addr (text : Bytes) :
    Option ({segments : List UInt16 // segments.length = 8} × Bytes) :=
  let head := readGroups 8 0 text
  if hhead : head.1.length = 8 then some (⟨head.1, hhead⟩, head.2.2)
  else if head.2.1 then none
  else
    match head.2.2 with
    | 0x3A :: 0x3A :: rest =>
      let tail := readGroups (8 - (head.1.length + 1)) 0 rest
      some (expand head.1 tail.1
        (Nat.lt_of_le_of_ne (readGroups_length 8 0 text) hhead) (readGroups_length _ 0 rest), tail.2.2)
    | _ => none

def readIpAddr (text : Bytes) : Option (IpAddr × Bytes) :=
  match readIpv4Addr text with
  | some (octets, rest) => some (.v4 octets, rest)
  | none => (readIpv6Addr text).map (Prod.map .v6 id)

/-- `str::parse::<IpAddr>`. -/
def parseIpAddr (text : Bytes) : Option IpAddr :=
  match readIpAddr text with
  | some (ip, []) => some ip
  | _ => none

/-! ## The forwarded addresses -/

def forwardedName : Bytes := ascii "x-forwarded-for"

/-- The first address from the right that is not trusted. -/
def scanForwarded (trusted : List IpAddr) (peer : IpAddr) : List Bytes → IpAddr
  | [] => peer
  | value :: values =>
    match parseIpAddr (trim value) with
    | none => peer
    | some identity =>
      if canonicalIp identity ∈ trusted then scanForwarded trusted peer values
      else canonicalIp identity

def requestClientIdentity (request : HttpRequest) (peerAddr : IpAddr)
    (trustedProxyIps : List IpAddr) : IpAddr :=
  let peer := canonicalIp peerAddr
  let trusted := trustedProxyIps.map canonicalIp
  if peer ∈ trusted then
    match request.headers.get? forwardedName with
    | none => peer
    | some forwarded => scanForwarded trusted peer (split [0x2C] forwarded).reverse
  else peer

/-- The value of a header line that has a name. -/
def headerValue (name line : Bytes) : Option Bytes :=
  (splitOnce 0x3A line).bind fun parts =>
    if toAsciiLowercase (trim parts.1) = name then some (trim parts.2) else none

/-- The entries of the forwarded addresses, over all lines that name them. -/
def forwardedEntries (lines : List Bytes) : List Bytes :=
  (lines.filterMap (headerValue forwardedName)).flatMap fun value => (split [0x2C] value).map trim

/-! ## Splitting -/

theorem splitBy_comma (text rest piece : Bytes) :
    splitBy (fun text => if ([0x2C] : Bytes).isPrefixOf text then ([0x2C] : Bytes).length else 0)
        (text ++ 0x2C :: rest) piece 0 =
      splitBy (fun text => if ([0x2C] : Bytes).isPrefixOf text then ([0x2C] : Bytes).length else 0)
        text piece 0 ++ split [0x2C] rest := by
  induction text generalizing piece with
  | nil => rfl
  | cons byte text ih =>
    rw [List.cons_append]
    by_cases hbyte : 0x2C = byte
    · simp only [splitBy, List.isPrefixOf, hbyte, beq_self_eq_true, Bool.and_self, if_true,
        List.length_cons, List.length_nil, List.cons_append]
      rw [← hbyte]
      exact congrArg _ (ih [])
    · have hbeq : ((0x2C : UInt8) == byte) = false := beq_eq_false_iff_ne.mpr hbyte
      simp only [splitBy, List.isPrefixOf, hbeq, Bool.false_and, Bool.false_eq_true, if_false]
      exact ih (byte :: piece)

theorem split_comma (value rest : Bytes) :
    split [0x2C] (value ++ 0x2C :: rest) = split [0x2C] value ++ split [0x2C] rest :=
  splitBy_comma value rest []

theorem split_single {text : Bytes} (htext : 0x2C ∉ text) : split [0x2C] text = [text] := by
  have hrun : ∀ piece : Bytes, splitBy
      (fun text => if ([0x2C] : Bytes).isPrefixOf text then ([0x2C] : Bytes).length else 0)
      text piece 0 = [piece.reverse ++ text] := by
    induction text with
    | nil =>
      intro piece
      rw [splitBy, List.append_nil]
    | cons byte text ih =>
      intro piece
      have hbeq : ((0x2C : UInt8) == byte) = false :=
        beq_eq_false_iff_ne.mpr fun heq => htext (heq ▸ List.mem_cons_self)
      simp only [splitBy, List.isPrefixOf, hbeq, Bool.false_and, Bool.false_eq_true, if_false]
      rw [ih fun hmem => htext (List.mem_cons_of_mem byte hmem), List.reverse_cons,
        List.append_assoc, List.singleton_append]
  exact hrun []

/-! ## The joined value -/

/-- The value of a header after the values of its lines. -/
def joined : Option Bytes → List Bytes → Option Bytes
  | current, [] => current
  | none, value :: values => joined (some value) values
  | some current, value :: values => joined (some (current ++ 0x2C :: value)) values

theorem joined_split (current : Bytes) (values : List Bytes) :
    ∃ text, joined (some current) values = some text ∧
      split [0x2C] text = split [0x2C] current ++ values.flatMap (split [0x2C]) := by
  induction values generalizing current with
  | nil => exact ⟨current, rfl, (List.append_nil _).symm⟩
  | cons value values ih =>
    rcases ih (current ++ 0x2C :: value) with ⟨text, hjoined, hsplit⟩
    refine ⟨text, hjoined, ?_⟩
    rw [hsplit, split_comma, List.flatMap_cons, List.append_assoc]

/-- One header line. -/
theorem parseRequestHeader_get {headers headers' : Headers} {line : Bytes}
    (h : parseRequestHeader headers line = .ok headers') (name : Bytes) :
    headers'.get? name = joined (headers.get? name) (headerValue name line).toList := by
  cases hline : splitOnce 0x3A line with
  | none =>
    simp only [parseRequestHeader, hline] at h
    cases h
  | some parts =>
    simp only [parseRequestHeader, hline] at h
    by_cases hname : toAsciiLowercase (trim parts.1) = name
    · have hvalue : headerValue name line = some (trim parts.2) := by
        rw [headerValue, hline, Option.bind_some, if_pos hname]
      rw [hname] at h
      cases hcurrent : headers.get? name with
      | none =>
        simp only [hcurrent] at h
        cases h
        rw [hvalue, SortedMap.get?_insert_self]
        rfl
      | some current =>
        simp only [hcurrent] at h
        split at h
        · cases h
        · cases h
          rw [hvalue, SortedMap.get?_insert_self]
          rfl
    · have hvalue : headerValue name line = none := by
        rw [headerValue, hline, Option.bind_some, if_neg hname]
      have hother : ∀ value,
          (headers.insert (toAsciiLowercase (trim parts.1)) value).get? name = headers.get? name :=
        fun value => SortedMap.get?_insert_of_ne fun heq => hname heq.symm
      rw [hvalue]
      show headers'.get? name = headers.get? name
      cases hcurrent : headers.get? (toAsciiLowercase (trim parts.1)) with
      | none =>
        simp only [hcurrent] at h
        cases h
        exact hother _
      | some current =>
        simp only [hcurrent] at h
        split at h
        · cases h
        · cases h
          exact hother _

theorem joined_append (current : Option Bytes) (values others : List Bytes) :
    joined current (values ++ others) = joined (joined current values) others := by
  induction values generalizing current with
  | nil => cases current <;> rfl
  | cons value values ih =>
    cases current with
    | none => exact ih (some value)
    | some current => exact ih (some (current ++ 0x2C :: value))

/-- Empty lines have no value. -/
theorem headerValue_filter (name : Bytes) (lines : List Bytes) :
    (lines.filter (· ≠ [])).filterMap (headerValue name) = lines.filterMap (headerValue name) := by
  induction lines with
  | nil => rfl
  | cons line lines ih =>
    cases line with
    | nil => exact ih
    | cons byte rest =>
      rw [List.filter_cons_of_pos (by simp), List.filterMap_cons, List.filterMap_cons, ih]

theorem foldlM_get {headers headers' : Headers} {lines : List Bytes}
    (h : lines.foldlM parseRequestHeader headers = .ok headers') (name : Bytes) :
    headers'.get? name = joined (headers.get? name) (lines.filterMap (headerValue name)) := by
  induction lines generalizing headers with
  | nil =>
    cases h
    cases headers'.get? name <;> rfl
  | cons line lines ih =>
    rw [List.foldlM_cons] at h
    cases hline : parseRequestHeader headers line with
    | error error =>
      rw [hline] at h
      cases h
    | ok next =>
      rw [hline] at h
      rw [ih h, parseRequestHeader_get hline, List.filterMap_cons]
      cases headerValue name line with
      | none => cases headers.get? name <;> rfl
      | some value => exact (joined_append _ [value] _).symm

theorem parseRequestHeaders_get {headers : Headers} {lines : List Bytes}
    (h : parseRequestHeaders lines = .ok headers) (name : Bytes) :
    headers.get? name = joined none (lines.filterMap (headerValue name)) := by
  rw [foldlM_get h, headerValue_filter, SortedMap.get?_empty]

/-! ## The scan -/

/-- The scan of entries that are trimmed. -/
def scanEntries (trusted : List IpAddr) (peer : IpAddr) : List Bytes → IpAddr
  | [] => peer
  | entry :: entries =>
    match (parseIpAddr entry).map canonicalIp with
    | none => peer
    | some identity => if identity ∈ trusted then scanEntries trusted peer entries else identity

theorem scanForwarded_entries (trusted : List IpAddr) (peer : IpAddr) (values : List Bytes) :
    scanForwarded trusted peer values = scanEntries trusted peer (values.map trim) := by
  induction values with
  | nil => rfl
  | cons value values ih =>
    rw [scanForwarded, List.map_cons, scanEntries]
    cases parseIpAddr (trim value) with
    | none => rfl
    | some identity => simp only [Option.map_some, ih]

/-- The identity by the entries of the header lines, the last entry first. -/
theorem requestClientIdentity_entries {request : HttpRequest} {lines : List Bytes}
    (hheaders : parseRequestHeaders lines = .ok request.headers) {peer : IpAddr}
    {trusted : List IpAddr} (hpeer : canonicalIp peer ∈ trusted.map canonicalIp) :
    requestClientIdentity request peer trusted =
      scanEntries (trusted.map canonicalIp) (canonicalIp peer) (forwardedEntries lines).reverse := by
  have hget := parseRequestHeaders_get hheaders forwardedName
  simp only [requestClientIdentity, if_pos hpeer, hget]
  rw [forwardedEntries]
  cases hvalues : lines.filterMap (headerValue forwardedName) with
  | nil => rfl
  | cons value values =>
    rcases joined_split value values with ⟨text, hjoined, hsplit⟩
    rw [show joined none (value :: values) = some text from hjoined]
    show scanForwarded _ _ (split [0x2C] text).reverse = _
    rw [scanForwarded_entries, hsplit, List.map_reverse, List.map_append, List.map_flatMap,
      List.flatMap_cons]

/-! ## The chain of proxies -/

/-- A proxy appends the address of its peer, written in any way that is read back as that address. -/
def Appends (lines : List Bytes) (peer : IpAddr) (lines' : List Bytes) : Prop :=
  ∃ text, forwardedEntries lines' = forwardedEntries lines ++ [text] ∧
    (parseIpAddr text).map canonicalIp = some (canonicalIp peer)

/-- The requests that a chain of trusted proxies makes of a client's request, each with its sender. -/
inductive Forwarded (trusted : List IpAddr) (client : IpAddr) (sent : List Bytes) :
    IpAddr → List Bytes → Prop
  | client {proxy lines} (hproxy : canonicalIp proxy ∈ trusted.map canonicalIp)
      (happends : Appends sent client lines) : Forwarded trusted client sent proxy lines
  | proxy {peer proxy lines lines'} (hforwarded : Forwarded trusted client sent peer lines)
      (hproxy : canonicalIp proxy ∈ trusted.map canonicalIp)
      (happends : Appends lines peer lines') : Forwarded trusted client sent proxy lines'

/-- A proxy may append a line of its own. -/
theorem Appends.line (lines : List Bytes) {text : Bytes} {peer : IpAddr} (htext : trim text = text)
    (hcomma : 0x2C ∉ text) (hparse : (parseIpAddr text).map canonicalIp = some (canonicalIp peer)) :
    Appends lines peer (lines ++ [ascii "X-Forwarded-For: " ++ text]) := by
  have hvalue : headerValue forwardedName (ascii "X-Forwarded-For: " ++ text) = some text := by
    have htrim : trim (0x20 :: text) = text := by
      rw [trim, Chat.trimStart, dif_neg]
      · exact htext
      · simp [Chat.whitespaceLength]
    have hname : toAsciiLowercase (trim (ascii "X-Forwarded-For")) = forwardedName := by
      decide +kernel
    have hsplit : splitOnce 0x3A (ascii "X-Forwarded-For: " ++ text) =
        some (ascii "X-Forwarded-For", 0x20 :: text) := rfl
    rw [headerValue, hsplit, Option.bind_some, if_pos hname, htrim]
  refine ⟨text, ?_, hparse⟩
  rw [forwardedEntries, forwardedEntries, List.filterMap_append, List.flatMap_append,
    List.filterMap_cons, hvalue, List.filterMap_nil, List.flatMap_cons, List.flatMap_nil,
    split_single hcomma, List.map_singleton, htext, List.append_nil]

theorem Forwarded.trusted {trusted : List IpAddr} {client proxy : IpAddr} {sent lines : List Bytes}
    (h : Forwarded trusted client sent proxy lines) :
    canonicalIp proxy ∈ trusted.map canonicalIp := by
  cases h with
  | client hproxy _ => exact hproxy
  | proxy _ hproxy _ => exact hproxy

/-- The scan skips the proxies and stops at the client, whatever the client has sent. -/
theorem Forwarded.scan {trusted : List IpAddr} {client proxy : IpAddr} {sent lines : List Bytes}
    (h : Forwarded trusted client sent proxy lines)
    (hclient : canonicalIp client ∉ trusted.map canonicalIp) (peer : IpAddr) :
    scanEntries (trusted.map canonicalIp) peer (forwardedEntries lines).reverse =
      canonicalIp client := by
  induction h with
  | client hproxy happends =>
    rcases happends with ⟨text, hentries, hparse⟩
    rw [hentries, List.reverse_append, List.reverse_singleton, List.singleton_append, scanEntries,
      hparse]
    exact if_neg hclient
  | proxy hforwarded hproxy happends ih =>
    rcases happends with ⟨text, hentries, hparse⟩
    rw [hentries, List.reverse_append, List.reverse_singleton, List.singleton_append, scanEntries,
      hparse]
    simp only [if_pos hforwarded.trusted]
    exact ih

/-- A peer that is not trusted is identified by its own address, and a client behind trusted proxies
by the address that the first of them has seen. -/
theorem client_identified (trusted : List IpAddr) :
    (∀ (request : HttpRequest) (peer : IpAddr), canonicalIp peer ∉ trusted.map canonicalIp →
      requestClientIdentity request peer trusted = canonicalIp peer) ∧
    ∀ (client : IpAddr) (sent : List Bytes) (proxy : IpAddr) (lines : List Bytes)
      (request : HttpRequest), canonicalIp client ∉ trusted.map canonicalIp →
      Forwarded trusted client sent proxy lines → parseRequestHeaders lines = .ok request.headers →
      requestClientIdentity request proxy trusted = canonicalIp client := by
  constructor
  · intro request peer hpeer
    exact if_neg hpeer
  · intro client sent proxy lines request hclient hforwarded hheaders
    rw [requestClientIdentity_entries hheaders hforwarded.trusted]
    exact hforwarded.scan hclient _

/-- Two proxies forward the request of a client that names another address. The first extends the
line of the client, the second adds one. -/
theorem client_identified_chain :
    let client : IpAddr := .v4 ⟨[203, 0, 113, 7], rfl⟩
    let first : IpAddr := .v4 ⟨[10, 0, 0, 1], rfl⟩
    let second : IpAddr := .v6 ⟨[0, 0, 0, 0, 0, 0xFFFF, 0x0A00, 2], rfl⟩
    let headers : Headers := (∅ : Headers).insert forwardedName
      (ascii "198.51.100.9, junk, 203.0.113.7,10.0.0.1")
    let request : HttpRequest := ⟨ascii "GET", ascii "/", headers, []⟩
    requestClientIdentity request client [first, second] = client ∧
      requestClientIdentity request second [first, second] = client := by
  intro client first second headers request
  have hclient : canonicalIp client ∉ [first, second].map canonicalIp := by decide +kernel
  have hfirst : Forwarded [first, second] client
      [ascii "X-Forwarded-For: 198.51.100.9, junk"] first
      [ascii "X-Forwarded-For: 198.51.100.9, junk, 203.0.113.7"] :=
    .client (by decide +kernel) ⟨ascii "203.0.113.7", by decide +kernel, by decide +kernel⟩
  have hsecond : Forwarded [first, second] client
      [ascii "X-Forwarded-For: 198.51.100.9, junk"] second
      [ascii "X-Forwarded-For: 198.51.100.9, junk, 203.0.113.7",
        ascii "x-forwarded-for:10.0.0.1 "] :=
    .proxy hfirst (by decide +kernel) ⟨ascii "10.0.0.1", by decide +kernel, by decide +kernel⟩
  constructor
  · exact (client_identified [first, second]).1 request client hclient
  · exact (client_identified [first, second]).2 client _ second _ request hclient hsecond
      (by decide +kernel)

end Leone.Transport
