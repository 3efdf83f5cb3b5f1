import MetaDigi.NetlinkLinks

/-!
# Datagrams as they are sent

A datagram is put together from messages, and a message about a link from its
attributes, with padding up to a multiple of four behind each of them. What
`parse_message` does for such a datagram is told from the messages: it reads
nothing that it should not, prints the names of the first link and raises its
event with what is behind the `ifinfomsg`.
-/

namespace MetaDigi.NetlinkFormat

open CheckedMemory CStrings LittleEndian NetlinkLinks

section Format

/-- Bytes with padding behind them. -/
def padded (bytes : Bytes) : Bytes :=
  bytes ++ List.replicate (align bytes.length - bytes.length) 0

/-- Padding goes to the next multiple of four. -/
@[simp] theorem length_padded (bytes : Bytes) : (padded bytes).length = align bytes.length := by
  have hle := le_align bytes.length
  rw [padded, List.length_append, List.length_replicate]
  omega

/-- An attribute of a link. -/
structure Attribute where
  /-- `rta_type`. -/
  type : ℕ
  /-- What is behind the `rtattr`. -/
  data : Bytes

/-- The bytes of an attribute. -/
def Attribute.encode (a : Attribute) : Bytes :=
  padded (lowBytes 2 (4 + a.data.length) ++ lowBytes 2 a.type ++ a.data)

/-- An attribute that can be sent. A name ends with a NUL. -/
structure Attribute.Sendable (a : Attribute) : Prop where
  /-- Its type fits. -/
  type : a.type < 256 ^ 2
  /-- Its length fits. -/
  length : 4 + a.data.length < 256 ^ 2
  /-- Its name ends. -/
  name : a.type = iflaIfname → (0 : UInt8) ∈ a.data

/-- What a message about a link tells. -/
structure Link where
  /-- `ifi_family` and `ifi_type`, with the byte between them. -/
  family : ℕ
  /-- `ifi_index`. -/
  index : ℕ
  /-- `ifi_flags`. -/
  flags : ℕ
  /-- `ifi_change`. -/
  change : ℕ
  /-- The attributes. -/
  attributes : List Attribute

/-- The bytes of the attributes. -/
def Link.tail (l : Link) : Bytes := l.attributes.flatMap Attribute.encode

/-- The bytes of the `ifinfomsg`, and of the attributes. -/
def Link.encode (l : Link) : Bytes :=
  lowBytes 4 l.family ++ lowBytes 4 l.index ++ lowBytes 4 l.flags ++ lowBytes 4 l.change ++ l.tail

/-- A message, behind its `nlmsghdr`. -/
inductive Content where
  /-- A message of the type `RTM_NEWLINK`. -/
  | link (l : Link)
  /-- Another message. -/
  | other (type : ℕ) (data : Bytes)

/-- `nlmsg_type`. -/
def Content.type : Content → ℕ
  | .link _ => rtmNewlink
  | .other type _ => type

/-- What is behind the `nlmsghdr`. -/
def Content.data : Content → Bytes
  | .link l => l.encode
  | .other _ data => data

/-- A message. -/
structure Message where
  /-- `nlmsg_flags`. -/
  flags : ℕ
  /-- `nlmsg_seq`. -/
  seq : ℕ
  /-- `nlmsg_pid`. -/
  pid : ℕ
  /-- The rest of it. -/
  content : Content

/-- The bytes of a message. -/
def Message.encode (m : Message) : Bytes :=
  padded (lowBytes 4 (16 + m.content.data.length) ++ lowBytes 2 m.content.type ++
    lowBytes 2 m.flags ++ lowBytes 4 m.seq ++ lowBytes 4 m.pid ++ m.content.data)

/-- The bytes of a datagram. -/
def encode (ms : List Message) : Bytes := ms.flatMap Message.encode

/-- What a message tells can be sent. -/
def Content.Sendable : Content → Prop
  | .link l => l.index < 256 ^ 4 ∧ l.flags < 256 ^ 4 ∧ ∀ a ∈ l.attributes, a.Sendable
  | .other type _ => type < 256 ^ 2 ∧ type ≠ rtmNewlink

/-- A message that can be sent. -/
structure Message.Sendable (m : Message) : Prop where
  /-- Its length fits. -/
  length : 16 + m.content.data.length < 256 ^ 4
  /-- So does what it tells. -/
  content : m.content.Sendable

end Format

section Report

variable (debug : Bool)

/-- The line for an attribute. -/
def Attribute.lines (l : Link) (up : Bool) (a : Attribute) : List Act :=
  if a.type = iflaIfname && debug then [.aDebug (toInt l.index) (a.data.takeWhile (· ≠ 0)) up]
  else []

/-- The link is up. -/
def Link.up (l : Link) : Bool := l.flags &&& iffRunning ≠ 0

/-- The event of a link, with the place of its message. -/
def Link.event (l : Link) (msg_ptr : ℕ) : Act :=
  if l.up then .newLinkEvent msg_ptr l.tail.length else .delLinkEvent msg_ptr l.tail.length

/-- What is done for some messages from a place on. -/
def report : ℕ → List Message → List Act
  | _, [] => []
  | msg_ptr, m :: ms =>
    match m.content with
    | .link l => l.attributes.flatMap (Attribute.lines debug l l.up) ++ [l.event msg_ptr]
    | .other type _ =>
      if type = nlmsgDone then []
      else if type = nlmsgError then [.aErr]
      else report (msg_ptr + m.encode.length) ms

variable {debug}

/-- A link message ends the report with its event. -/
theorem report_link {msg_ptr : ℕ} {m : Message} {l : Link} (h : m.content = .link l)
    (ms : List Message) : report debug msg_ptr (m :: ms) =
      l.attributes.flatMap (Attribute.lines debug l l.up) ++ [l.event msg_ptr] := by
  rw [report, h]

/-- Another message is passed over or ends it. -/
theorem report_other {msg_ptr : ℕ} {m : Message} {type : ℕ} {data : Bytes}
    (h : m.content = .other type data) (ms : List Message) : report debug msg_ptr (m :: ms) =
      if type = nlmsgDone then []
      else if type = nlmsgError then [.aErr]
      else report debug (msg_ptr + m.encode.length) ms := by
  rw [report, h]

end Report

section Reading

variable {debug : Bool} {buf : Bytes}

/-- A number that stands at a place. -/
theorem numberAt_of_drop {p n value : ℕ} (front : Bytes) {rest : Bytes}
    (hdrop : buf.drop p = front ++ (lowBytes n value ++ rest)) (hfits : value < 256 ^ n) :
    numberAt buf n (p + front.length) = value := by
  rw [numberAt, ← List.drop_drop, hdrop, List.drop_left, List.take_left' (length_lowBytes n value),
    valueOf_lowBytes hfits]

/-- What stands behind something that stands at a place. -/
theorem drop_behind {p : ℕ} (front : Bytes) {rest : Bytes} (hdrop : buf.drop p = front ++ rest) :
    buf.drop (p + front.length) = rest := by
  rw [← List.drop_drop, hdrop, List.drop_left]

/-- What stands at a place is inside the datagram. -/
theorem length_of_drop {p : ℕ} {front rest : Bytes} (hp : p ≤ buf.length)
    (hdrop : buf.drop p = front ++ rest) : p + front.length + rest.length = buf.length := by
  have hlength := congrArg List.length hdrop
  rw [List.length_drop, List.length_append] at hlength
  omega

/-- A name that stands at a place. -/
theorem loadString_of_drop {p : ℕ} (hp : p ≤ buf.length) {data rest : Bytes}
    (hdrop : buf.drop p = data ++ rest) (hnul : (0 : UInt8) ∈ data) :
    loadString buf p = .ok (data.takeWhile (· ≠ 0)) := by
  obtain ⟨s, more, hdata, hs⟩ := List.eq_append_cons_of_mem hnul
  have hbuf : buf = buf.take p ++ s ++ 0 :: (more ++ rest) := by
    calc buf = buf.take p ++ buf.drop p := (List.take_append_drop p buf).symm
      _ = buf.take p ++ s ++ 0 :: (more ++ rest) := by simp [hdrop, hdata]
  have hname : data.takeWhile (· ≠ 0) = s := by
    rw [hdata, List.takeWhile_append_of_pos fun b hb => by
      simpa using ne_of_mem_of_not_mem hb hs]
    simp
  have hstring := loadString_string (buf.take p) s (more ++ rest) hs
  rwa [← hbuf, List.length_take_of_le hp, ← hname] at hstring

end Reading

section Attributes

variable {debug : Bool} {buf : Bytes}

/-- The length of an attribute. -/
@[simp] theorem Attribute.length_encode (a : Attribute) :
    a.encode.length = align (4 + a.data.length) := by
  have hsize : 2 + (2 + a.data.length) = 4 + a.data.length := by omega
  simp [Attribute.encode, hsize]

/-- What is read of an attribute that stands at a place. -/
theorem attribute_read {attrib : ℕ} (hp : attrib ≤ buf.length) {a : Attribute} (ha : a.Sendable)
    {rest : Bytes} (hdrop : buf.drop attrib = a.encode ++ rest) :
    numberAt buf 2 attrib = 4 + a.data.length ∧ numberAt buf 2 (attrib + 2) = a.type ∧
      (a.type = iflaIfname → loadString buf (attrib + 4) = .ok (a.data.takeWhile (· ≠ 0))) := by
  have hlength := length_of_drop hp hdrop
  have hle := le_align (4 + a.data.length)
  rw [Attribute.length_encode] at hlength
  rw [Attribute.encode, padded] at hdrop
  refine ⟨numberAt_of_drop [] (by simpa using hdrop) ha.length,
    numberAt_of_drop (p := attrib) (lowBytes 2 (4 + a.data.length)) (by simpa using hdrop) ha.type,
    fun hname => ?_⟩
  have hdata := drop_behind (p := attrib)
    (lowBytes 2 (4 + a.data.length) ++ lowBytes 2 a.type) (by simpa using hdrop)
  rw [List.length_append, length_lowBytes, length_lowBytes] at hdata
  exact loadString_of_drop (by omega) hdata (ha.name hname)

/-- The line for an attribute. -/
theorem printAttribute_encode {ifi attrib : ℕ} {l : Link} {up : Bool} (hifi : ifi + 8 ≤ buf.length)
    (hindex : numberAt buf 4 (ifi + 4) = l.index) {a : Attribute}
    (hname : a.type = iflaIfname → loadString buf (attrib + 4) = .ok (a.data.takeWhile (· ≠ 0))) :
    printAttribute debug buf ifi up attrib a.type = .ok (a.lines debug l up) := by
  rw [printAttribute, Attribute.lines]
  by_cases hprint : (a.type = iflaIfname && debug) = true
  · have hstring := hname (by simp_all)
    rw [if_pos hprint, if_pos hprint, field_inside (by omega), hindex, hstring]
    rfl
  · rw [if_neg hprint, if_neg hprint]
    rfl

/-- The lines for the attributes, to the end of them. -/
theorem printAttributes_encode {ifi attrib : ℕ} {l : Link} {up : Bool} {as : List Attribute}
    (hifi : ifi + 8 ≤ buf.length) (hindex : numberAt buf 4 (ifi + 4) = l.index)
    (has : ∀ a ∈ as, a.Sendable) {rest : Bytes} (hp : attrib ≤ buf.length)
    (hdrop : buf.drop attrib = as.flatMap Attribute.encode ++ rest) :
    printAttributes debug buf ifi up attrib (as.flatMap Attribute.encode).length =
      .ok (as.flatMap (Attribute.lines debug l up)) := by
  induction as generalizing attrib with
  | nil => exact printAttributes_nil (by simpa using hp) (by simp)
  | cons a as ih =>
    rw [List.flatMap_cons, List.append_assoc] at hdrop
    obtain ⟨hsize, htype, hname⟩ := attribute_read hp (has a List.mem_cons_self) hdrop
    have hbehind := drop_behind _ hdrop
    have hlength := length_of_drop hp hdrop
    have hle := le_align (4 + a.data.length)
    rw [Attribute.length_encode] at hbehind
    rw [List.length_append, Attribute.length_encode] at hlength
    have hrest := ih (fun b hb => has b (List.mem_cons_of_mem a hb))
      (show attrib + align (4 + a.data.length) ≤ buf.length by omega) hbehind
    have hroom : ((a.encode.length + (as.flatMap Attribute.encode).length : ℕ) : ℤ) -
        align (4 + a.data.length) = (as.flatMap Attribute.encode).length := by
      rw [Attribute.length_encode]
      omega
    rw [List.flatMap_cons, List.flatMap_cons, List.length_append,
      printAttributes_cons (by push_cast; omega) (by push_cast; omega) (by push_cast; omega), htype,
      hsize, printAttribute_encode hifi hindex hname, hroom, hrest]
    rfl

end Attributes

section Messages

variable {debug : Bool} {buf : Bytes}

/-- The length of a message. -/
@[simp] theorem Message.length_encode (m : Message) :
    m.encode.length = align (16 + m.content.data.length) := by
  have hsize : 4 + (2 + (2 + (4 + (4 + m.content.data.length)))) = 16 + m.content.data.length := by
    omega
  simp [Message.encode, hsize]

/-- The length of a link message. -/
@[simp] theorem Link.length_encode (l : Link) : l.encode.length = 16 + l.tail.length := by
  simp [Link.encode]
  omega

/-- The type of a message fits its field. -/
theorem Content.type_fits {c : Content} (hc : c.Sendable) : c.type < 256 ^ 2 := by
  cases c with
  | link l => simp [Content.type, rtmNewlink]
  | other type data => exact hc.1

/-- What is read of the `nlmsghdr` of a message that stands at a place, and what
stands behind it. -/
theorem message_read {msg_ptr : ℕ} {m : Message} (hm : m.Sendable) {rest : Bytes}
    (hdrop : buf.drop msg_ptr = m.encode ++ rest) :
    numberAt buf 4 msg_ptr = 16 + m.content.data.length ∧
      numberAt buf 2 (msg_ptr + 4) = m.content.type ∧
      ∃ more, buf.drop (msg_ptr + 16) = m.content.data ++ more := by
  rw [Message.encode, padded] at hdrop
  refine ⟨numberAt_of_drop [] (by simpa using hdrop) hm.length,
    numberAt_of_drop (p := msg_ptr) (lowBytes 4 (16 + m.content.data.length))
      (by simpa using hdrop) (Content.type_fits hm.content), ?_⟩
  have hdata := drop_behind (p := msg_ptr)
    (lowBytes 4 (16 + m.content.data.length) ++ lowBytes 2 m.content.type ++
      lowBytes 2 m.flags ++ lowBytes 4 m.seq ++ lowBytes 4 m.pid) (by simpa using hdrop)
  simp only [List.length_append, length_lowBytes] at hdata
  exact ⟨_, hdata⟩

/-- What is done for a message about a link that stands at a place. -/
theorem newLink_encode {msg_ptr : ℕ} {l : Link} (hl : (Content.link l).Sendable) {rest : Bytes}
    (hp : msg_ptr + 16 ≤ buf.length) (hdrop : buf.drop (msg_ptr + 16) = l.encode ++ rest) :
    newLink debug buf msg_ptr (16 + l.encode.length) =
      .ok (l.attributes.flatMap (Attribute.lines debug l l.up) ++ [l.event msg_ptr]) := by
  obtain ⟨hindex, hflags, has⟩ := hl
  have hlength := length_of_drop hp hdrop
  rw [Link.length_encode] at hlength
  rw [Link.encode] at hdrop
  have hindexAt := numberAt_of_drop (p := msg_ptr + 16) (lowBytes 4 l.family)
    (by simpa using hdrop) hindex
  have hflagsAt := numberAt_of_drop (p := msg_ptr + 16) (lowBytes 4 l.family ++ lowBytes 4 l.index)
    (by simpa using hdrop) hflags
  have htail := drop_behind (p := msg_ptr + 16)
    (lowBytes 4 l.family ++ lowBytes 4 l.index ++ lowBytes 4 l.flags ++
      lowBytes 4 l.change) (by simpa using hdrop)
  simp only [List.length_append, length_lowBytes] at hindexAt hflagsAt htail
  have hlines (up : Bool) : printLink debug buf (msg_ptr + 16)
      ((16 + l.encode.length : ℕ) - 32) up =
        .ok (l.attributes.flatMap (Attribute.lines debug l up)) := by
    have hroom : ((16 + l.encode.length : ℕ) : ℤ) - 32 = l.tail.length := by
      rw [Link.length_encode]
      omega
    rw [hroom]
    have hplace : align 16 = 16 := rfl
    exact printAttributes_encode (by omega) hindexAt has (by omega) htail
  have hcovers : ¬ 16 + l.encode.length < 32 := by
    rw [Link.length_encode]
    omega
  have hfields : linkField buf msg_ptr (16 + l.encode.length) (msg_ptr + 16 + 8) = .ok l.flags := by
    rw [linkField, if_neg hcovers, field_inside (by omega), hflagsAt]
  have hlen : ((16 + l.encode.length : ℕ) : ℤ) - 32 = l.tail.length := by
    rw [Link.length_encode]
    omega
  rw [newLink, hfields, hlines, hlines, hlen, Link.event]
  by_cases hup : l.flags &&& iffRunning ≠ 0
  · have hstate : l.up = true := decide_eq_true hup
    rw [hstate]
    exact if_pos hup
  · have hstate : l.up = false := decide_eq_false hup
    rw [hstate]
    exact if_neg hup

/-- What is done for the messages from a place on. -/
theorem parseMessages_encode {msg_ptr : ℕ} {ms : List Message} (hms : ∀ m ∈ ms, m.Sendable)
    (hp : msg_ptr ≤ buf.length) (hdrop : buf.drop msg_ptr = encode ms) :
    parseMessages debug buf msg_ptr (encode ms).length = .ok (report debug msg_ptr ms) := by
  induction ms generalizing msg_ptr with
  | nil => exact parseMessages_nil (by simpa [encode] using hp) (by simp [encode])
  | cons m ms ih =>
    have hm := hms m List.mem_cons_self
    have hcons : encode (m :: ms) = m.encode ++ encode ms := List.flatMap_cons
    rw [hcons] at hdrop
    obtain ⟨hsize, htype, more, hdata⟩ := message_read hm hdrop
    have hbehind := drop_behind _ hdrop
    have hlength := length_of_drop hp hdrop
    have hle := le_align (16 + m.content.data.length)
    rw [Message.length_encode] at hlength
    have hrest := ih (fun q hq => hms q (List.mem_cons_of_mem m hq)) (by simp; omega) hbehind
    have hroom : ((m.encode.length + (encode ms).length : ℕ) : ℤ) -
        align (16 + m.content.data.length) = (encode ms).length := by
      rw [Message.length_encode]
      omega
    rw [hcons, List.length_append, parseMessages_cons (by simp; omega) (by simp; omega)
      (by simp; omega), htype, hsize, hroom]
    cases hcontent : m.content with
    | link l =>
      rw [hcontent] at hdata
      have hl : (Content.link l).Sendable := hcontent ▸ hm.content
      rw [report_link hcontent, Content.type, if_neg (by decide), if_neg (by decide), if_pos rfl]
      exact newLink_encode hl (by omega) hdata
    | other type data =>
      have hother : (Content.other type data).Sendable := hcontent ▸ hm.content
      have hsize' : align (16 + data.length) = m.encode.length := by
        rw [Message.length_encode, hcontent, Content.data]
      rw [report_other hcontent, Content.type, Content.data, if_neg hother.2, hsize', hrest]
      split
      · rfl
      · split <;> rfl

/-- A datagram that was put together from messages is read without a bad read,
and what is done for it is told from the messages. -/
theorem parseMessage_encode (debug : Bool) {ms : List Message} (hms : ∀ m ∈ ms, m.Sendable) :
    parseMessage debug (encode ms) = .ok (report debug 0 ms) :=
  parseMessages_encode hms (Nat.zero_le _) rfl

/-- The messages of a datagram: another one, then a link that is up. -/
def linkUp : List Message :=
  [⟨0, 1, 0, .other 17 [1, 2, 3]⟩, ⟨0, 2, 0, .link ⟨0, 3, iffRunning, 0, [⟨iflaIfname, [119, 0]⟩]⟩⟩]

/-- A link that has come up. -/
theorem parseMessage_encode_linkUp :
    parseMessage true (encode linkUp) =
      .ok [.aDebug 3 [119] true, .newLinkEvent 20 8] := by
  have hname : Attribute.Sendable ⟨iflaIfname, [119, 0]⟩ := ⟨by decide, by decide, by decide⟩
  have hms : ∀ m ∈ linkUp, m.Sendable := by
    intro m hm
    simp only [linkUp, List.mem_cons, List.not_mem_nil, or_false] at hm
    rcases hm with rfl | rfl
    · exact ⟨by decide, by decide, by decide⟩
    · exact ⟨by decide, by decide, by decide, by simpa using hname⟩
  exact (parseMessage_encode true hms).trans (by decide)

end Messages

end MetaDigi.NetlinkFormat
