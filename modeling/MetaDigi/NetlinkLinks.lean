import MetaDigi.CStrings
import MetaDigi.LittleEndian
import Mathlib.Algebra.Group.Nat.Defs
import Mathlib.Algebra.Group.Int.Defs

/-!
# Link messages in a netlink datagram

`parse_message` walks through the messages of a datagram and raises an event
for a link that comes up or goes down. It stops behind the first one. How long
a message is, is told by the message itself; the walk keeps to the datagram,
but what is read of a link is not measured against the length of its message.
-/

namespace MetaDigi.NetlinkLinks

open CheckedMemory CStrings LittleEndian

/-- A read that there should not be. -/
inductive BadRead where
  /-- A byte behind the datagram. -/
  | beyond (fault : Fault)
  /-- The `ifinfomsg` of a message that is too short for it. -/
  | uncovered (msg_ptr : ℕ)
  deriving DecidableEq, Repr

/-- What the functions do besides reading. -/
inductive Act where
  /-- `A_ERR("Message is an error.\n")`. -/
  | aErr
  /-- `A_DEBUG("[%d:%s] Link %s\n")`. -/
  | aDebug (ifi_index : ℤ) (name : Bytes) (up : Bool)
  /-- `NewLinkEvent`. -/
  | newLinkEvent (msg_ptr : ℕ) (len1 : ℤ)
  /-- `DelLinkEvent`. -/
  | delLinkEvent (msg_ptr : ℕ) (len1 : ℤ)
  deriving DecidableEq, Repr

/-- `NLMSG_ERROR`. -/
def nlmsgError : ℕ := 2
/-- `NLMSG_DONE`. -/
def nlmsgDone : ℕ := 3
/-- `RTM_NEWLINK`. -/
def rtmNewlink : ℕ := 16
/-- `IFF_RUNNING`. -/
def iffRunning : ℕ := 0x40
/-- `IFLA_IFNAME`. -/
def iflaIfname : ℕ := 3

/-- `NLMSG_ALIGN` and `RTA_ALIGN`: the next multiple of four. -/
def align (n : ℕ) : ℕ := (n + 3) / 4 * 4

theorem le_align (n : ℕ) : n ≤ align n := by
  unfold align
  omega

/-- A number of so many bytes in memory. -/
def numberAt (buf : Bytes) (count index : ℕ) : ℕ := valueOf ((buf.drop index).take count)

/-- Read such a number. -/
def loadNumber (buf : Bytes) : ℕ → ℕ → Except Fault ℕ
  | 0, _ => .ok 0
  | count + 1, index => do
    let b ← load buf index
    let rest ← loadNumber buf count (index + 1)
    return b.toNat + 256 * rest

/-- A field of the datagram. -/
def field (buf : Bytes) (count index : ℕ) : Except BadRead ℕ :=
  (loadNumber buf count index).mapError .beyond

/-- A number of 32 bits with its sign. -/
def toInt (n : ℕ) : ℤ := if n < 2 ^ 31 then n else n - 2 ^ 32

section Functions

variable (debug : Bool) (buf : Bytes)

/-- The `switch` of `print_link` over the type of an attribute. `debug` tells
whether `A_DEBUG` prints: only then the name is read. -/
def printAttribute (ifi : ℕ) (up : Bool) (attrib rta_type : ℕ) : Except BadRead (List Act) :=
  if rta_type = iflaIfname && debug then do
    let ifi_index ← field buf 4 (ifi + 4)
    let name ← (loadString buf (attrib + 4)).mapError .beyond
    return [.aDebug (toInt ifi_index) name up]
  else return []

/-- The loop of `print_link` over the attributes. -/
def printAttributes (ifi : ℕ) (up : Bool) (attrib : ℕ) (len : ℤ) : Except BadRead (List Act) :=
  if 4 ≤ len then do
    let rta_len ← field buf 2 attrib
    if _h : 4 ≤ rta_len ∧ (rta_len : ℤ) ≤ len then
      let rta_type ← field buf 2 (attrib + 2)
      let lines ← printAttribute debug buf ifi up attrib rta_type
      let rest ← printAttributes ifi up (attrib + align rta_len) (len - align rta_len)
      return lines ++ rest
    else return []
  else return []
termination_by len.toNat
decreasing_by
  have hle := le_align rta_len
  omega

/-- `print_link`. The attributes stand behind the `ifinfomsg` of 16 bytes. -/
def printLink (ifi : ℕ) (len : ℤ) (up : Bool) : Except BadRead (List Act) :=
  printAttributes debug buf ifi up (ifi + align 16) len

/-- A field of the `ifinfomsg` of a message. -/
def linkField (msg_ptr nlmsg_len index : ℕ) : Except BadRead ℕ :=
  if nlmsg_len < 32 then .error (.uncovered msg_ptr) else field buf 4 index

/-- What is done for a message of the type `RTM_NEWLINK`. -/
def newLink (msg_ptr nlmsg_len : ℕ) : Except BadRead (List Act) := do
  let ifi_flags ← linkField buf msg_ptr nlmsg_len (msg_ptr + 16 + 8)
  if ifi_flags &&& iffRunning ≠ 0 then
    let lines ← printLink debug buf (msg_ptr + 16) (nlmsg_len - 32) true
    return lines ++ [.newLinkEvent msg_ptr (nlmsg_len - 32)]
  else
    let lines ← printLink debug buf (msg_ptr + 16) (nlmsg_len - 32) false
    return lines ++ [.delLinkEvent msg_ptr (nlmsg_len - 32)]

/-- The loop of `parse_message`. -/
def parseMessages (msg_ptr : ℕ) (len : ℤ) : Except BadRead (List Act) :=
  if 16 ≤ len then do
    let nlmsg_len ← field buf 4 msg_ptr
    if _h : 16 ≤ nlmsg_len ∧ (nlmsg_len : ℤ) ≤ len then
      let nlmsg_type ← field buf 2 (msg_ptr + 4)
      if nlmsg_type = nlmsgDone then return []
      else if nlmsg_type = nlmsgError then return [.aErr]
      -- The `break` behind the events leaves the loop over the messages.
      else if nlmsg_type = rtmNewlink then newLink debug buf msg_ptr nlmsg_len
      else parseMessages (msg_ptr + align nlmsg_len) (len - align nlmsg_len)
    else return []
  else return []
termination_by len.toNat
decreasing_by
  have hle := le_align nlmsg_len
  omega

/-- `parse_message` for a datagram. -/
def parseMessage : Except BadRead (List Act) := parseMessages debug buf 0 buf.length

end Functions

/-- A message or an attribute: where it stands, its length and its type. -/
structure Item where
  /-- Its place. -/
  start : ℕ
  /-- `nlmsg_len` or `rta_len`. -/
  length : ℕ
  /-- `nlmsg_type` or `rta_type`. -/
  type : ℕ
  deriving DecidableEq, Repr

section Spec

variable (debug : Bool) (buf : Bytes)

/-- The attributes in a part of the datagram, by `RTA_OK` and `RTA_NEXT`. -/
def attributes (attrib : ℕ) (len : ℤ) : List Item :=
  if _h : 4 ≤ len ∧ 4 ≤ numberAt buf 2 attrib ∧ (numberAt buf 2 attrib : ℤ) ≤ len then
    ⟨attrib, numberAt buf 2 attrib, numberAt buf 2 (attrib + 2)⟩ ::
      attributes (attrib + align (numberAt buf 2 attrib)) (len - align (numberAt buf 2 attrib))
  else []
termination_by len.toNat
decreasing_by
  have hle := le_align (numberAt buf 2 attrib)
  omega

/-- The messages in a part of the datagram, by `NLMSG_OK` and `NLMSG_NEXT`. -/
def messages (msg_ptr : ℕ) (len : ℤ) : List Item :=
  if _h : 16 ≤ len ∧ 16 ≤ numberAt buf 4 msg_ptr ∧ (numberAt buf 4 msg_ptr : ℤ) ≤ len then
    ⟨msg_ptr, numberAt buf 4 msg_ptr, numberAt buf 2 (msg_ptr + 4)⟩ ::
      messages (msg_ptr + align (numberAt buf 4 msg_ptr)) (len - align (numberAt buf 4 msg_ptr))
  else []
termination_by len.toNat
decreasing_by
  have hle := le_align (numberAt buf 4 msg_ptr)
  omega

/-- A message that is not the last one to be looked at. -/
def goesOn (m : Item) : Bool := m.type ≠ nlmsgDone ∧ m.type ≠ nlmsgError

/-- The messages before the first `NLMSG_DONE` or `NLMSG_ERROR`. -/
def liveMessages (ms : List Item) : List Item := ms.takeWhile goesOn

/-- The event of a message, if it is one about a link. -/
def eventOf (m : Item) : Option Act :=
  if m.type = rtmNewlink then
    some (if numberAt buf 4 (m.start + 24) &&& iffRunning ≠ 0
      then .newLinkEvent m.start ((m.length : ℤ) - 32)
      else .delLinkEvent m.start ((m.length : ℤ) - 32))
  else none

/-- The events among what is done. -/
def Act.isEvent : Act → Bool
  | .newLinkEvent _ _ => true
  | .delLinkEvent _ _ => true
  | _ => false

/-- What `parse_message` is for: no bad read, and the event of every message
about a link, in order. -/
def Delivers (out : Except BadRead (List Act)) : Prop :=
  ∃ acts, out = .ok acts ∧
    acts.filter Act.isEvent = (liveMessages (messages buf 0 buf.length)).filterMap (eventOf buf)

/-- The names of a link end inside the datagram. -/
def NamesEnd (m : Item) : Prop :=
  ∀ a ∈ attributes buf (m.start + 32) ((m.length : ℤ) - 32), a.type = iflaIfname →
    (0 : UInt8) ∈ buf.drop (a.start + 4)

/-- A message about a link that can be read. -/
structure LinkReadable (m : Item) : Prop where
  /-- Its length covers the `ifinfomsg`. -/
  covers : 32 ≤ m.length
  /-- Its names end, when they are printed. -/
  names : debug = true → NamesEnd buf m

end Spec

section Reads

variable {buf : Bytes}

theorem loadNumber_inside {count index : ℕ} (h : index + count ≤ buf.length) :
    loadNumber buf count index = .ok (numberAt buf count index) := by
  induction count generalizing index with
  | zero => rw [loadNumber, numberAt, List.take_zero]; rfl
  | succ count ih =>
    have hlt : index < buf.length := by omega
    have hload : load buf index = .ok buf[index] :=
      load_eq_ok_iff.mpr (List.getElem?_eq_getElem hlt)
    rw [loadNumber, hload, ih (by omega), numberAt, numberAt, List.drop_eq_getElem_cons hlt,
      List.take_succ_cons]
    rfl

theorem field_inside {count index : ℕ} (h : index + count ≤ buf.length) :
    field buf count index = .ok (numberAt buf count index) := by
  rw [field, loadNumber_inside h]
  rfl

/-- Reading a string goes beyond a block without a further NUL. -/
theorem skipChars_beyond (left : ℕ) {index : ℕ} (h : (0 : UInt8) ∉ buf.drop index) :
    ∃ fault, skipChars buf left index = .error fault := by
  induction left generalizing index with
  | zero => exact ⟨_, rfl⟩
  | succ left ih =>
    rcases Nat.lt_or_ge index buf.length with hlt | hge
    · rw [List.drop_eq_getElem_cons hlt, List.mem_cons, not_or] at h
      have hload : load buf index = .ok buf[index] :=
        load_eq_ok_iff.mpr (List.getElem?_eq_getElem hlt)
      obtain ⟨fault, hfault⟩ := ih h.2
      refine ⟨fault, ?_⟩
      rw [skipChars, hload]
      show (if buf[index] = 0 then Except.ok index else skipChars buf left (index + 1)) = _
      rw [if_neg (Ne.symm h.1), hfault]
    · exact ⟨_, by rw [skipChars, load_past hge]; rfl⟩

variable (buf) in
/-- A string can be read when it ends inside the block, and only then. -/
theorem loadString_cases (index : ℕ) :
    (∃ s, loadString buf index = .ok s) ∧ (0 : UInt8) ∈ buf.drop index ∨
      (∃ fault, loadString buf index = .error fault) ∧ (0 : UInt8) ∉ buf.drop index := by
  by_cases h : (0 : UInt8) ∈ buf.drop index
  · obtain ⟨s, rest, hdrop, hs⟩ := List.eq_append_cons_of_mem h
    have hlt : index < buf.length := by
      by_contra hge
      rw [List.drop_eq_nil_of_le (Nat.le_of_not_lt hge)] at h
      exact absurd h List.not_mem_nil
    have hbuf : buf = buf.take index ++ s ++ 0 :: rest := by
      rw [List.append_assoc, ← hdrop, List.take_append_drop]
    have hstring := loadString_string (buf.take index) s rest hs
    rw [← hbuf, List.length_take_of_le hlt.le] at hstring
    exact .inl ⟨⟨s, hstring⟩, h⟩
  · obtain ⟨fault, hfault⟩ := skipChars_beyond (buf.length - index) h
    exact .inr ⟨⟨fault, by rw [loadString, hfault]; rfl⟩, h⟩

end Reads

section Links

variable {debug : Bool} {buf : Bytes}

/-- The names among some attributes end inside the datagram, when they are
printed. -/
def NamesReadable (debug : Bool) (buf : Bytes) (as : List Item) : Prop :=
  ∀ a ∈ as, a.type = iflaIfname → debug = true → (0 : UInt8) ∈ buf.drop (a.start + 4)

/-- The line for an attribute is printed, and is no event, or there is a bad
read. -/
theorem printAttribute_cases {ifi : ℕ} (up : Bool) (a : Item) (hifi : ifi + 8 ≤ buf.length) :
    (∃ lines, printAttribute debug buf ifi up a.start a.type = .ok lines ∧
        lines.filter Act.isEvent = []) ∧ NamesReadable debug buf [a] ∨
      (∃ e, printAttribute debug buf ifi up a.start a.type = .error e) ∧
        ¬ NamesReadable debug buf [a] := by
  have hone : NamesReadable debug buf [a] ↔
      (a.type = iflaIfname → debug = true → (0 : UInt8) ∈ buf.drop (a.start + 4)) :=
    ⟨fun h => h a (List.mem_singleton_self a), fun h b hb => List.mem_singleton.mp hb ▸ h⟩
  by_cases hname : a.type = iflaIfname ∧ debug = true
  · have hline : printAttribute debug buf ifi up a.start a.type =
        (loadString buf (a.start + 4)).mapError .beyond >>= fun name =>
          pure [Act.aDebug (toInt (numberAt buf 4 (ifi + 4))) name up] := by
      refine (if_pos ?_).trans ?_
      · rw [Bool.and_eq_true, decide_eq_true_eq]
        exact hname
      · rw [field_inside (by omega)]
        rfl
    rw [hline, hone]
    rcases loadString_cases buf (a.start + 4) with ⟨⟨s, hs⟩, hnul⟩ | ⟨⟨fault, hf⟩, hnul⟩
    · rw [hs]
      exact .inl ⟨⟨_, rfl, rfl⟩, fun _ _ => hnul⟩
    · rw [hf]
      exact .inr ⟨⟨_, rfl⟩, fun h => hnul (h hname.1 hname.2)⟩
  · have hline : printAttribute debug buf ifi up a.start a.type = pure [] := by
      refine if_neg ?_
      rw [Bool.and_eq_true, decide_eq_true_eq]
      exact hname
    rw [hline, hone]
    exact .inl ⟨⟨[], rfl, rfl⟩, fun htype hdebug => absurd ⟨htype, hdebug⟩ hname⟩

/-- The loop at an attribute. -/
theorem printAttributes_cons {ifi : ℕ} {up : Bool} {attrib : ℕ} {len : ℤ}
    (hin : attrib + len ≤ buf.length) (hlen : 4 ≤ len)
    (hok : 4 ≤ numberAt buf 2 attrib ∧ (numberAt buf 2 attrib : ℤ) ≤ len) :
    printAttributes debug buf ifi up attrib len =
      printAttribute debug buf ifi up attrib (numberAt buf 2 (attrib + 2)) >>= fun lines =>
        printAttributes debug buf ifi up (attrib + align (numberAt buf 2 attrib))
          (len - align (numberAt buf 2 attrib)) >>= fun rest => pure (lines ++ rest) := by
  rw [printAttributes, if_pos hlen, field_inside (by omega), field_inside (by omega)]
  exact dif_pos hok

/-- The loop at its end. -/
theorem printAttributes_nil {ifi : ℕ} {up : Bool} {attrib : ℕ} {len : ℤ}
    (hin : attrib + len ≤ buf.length)
    (hend : ¬ (4 ≤ len ∧ 4 ≤ numberAt buf 2 attrib ∧ (numberAt buf 2 attrib : ℤ) ≤ len)) :
    printAttributes debug buf ifi up attrib len = .ok [] := by
  rw [printAttributes]
  by_cases hlen : 4 ≤ len
  · rw [if_pos hlen, field_inside (by omega)]
    exact dif_neg fun hok => hend ⟨hlen, hok⟩
  · rw [if_neg hlen]
    rfl

theorem namesReadable_cons {a : Item} {as : List Item} :
    NamesReadable debug buf (a :: as) ↔
      NamesReadable debug buf [a] ∧ NamesReadable debug buf as := by
  unfold NamesReadable
  rw [List.forall_mem_cons, List.forall_mem_singleton]

/-- The attributes of a link are printed, which is no event, or there is a bad
read. -/
theorem printAttributes_cases {ifi : ℕ} {up : Bool} {attrib : ℕ} {len : ℤ}
    (hifi : ifi + 8 ≤ attrib) (hin : attrib + len ≤ buf.length) :
    (∃ lines, printAttributes debug buf ifi up attrib len = .ok lines ∧
        lines.filter Act.isEvent = []) ∧ NamesReadable debug buf (attributes buf attrib len) ∨
      (∃ e, printAttributes debug buf ifi up attrib len = .error e) ∧
        ¬ NamesReadable debug buf (attributes buf attrib len) := by
  induction hleft : len.toNat using Nat.strong_induction_on generalizing attrib len with
  | _ left ih =>
    rw [attributes]
    by_cases hok : 4 ≤ len ∧ 4 ≤ numberAt buf 2 attrib ∧ (numberAt buf 2 attrib : ℤ) ≤ len
    · obtain ⟨hlen, hsize⟩ := hok
      have hle := le_align (numberAt buf 2 attrib)
      have hrest := ih (len - align (numberAt buf 2 attrib)).toNat (by omega)
        (show ifi + 8 ≤ attrib + align (numberAt buf 2 attrib) by omega)
        (show ((attrib + align (numberAt buf 2 attrib) : ℕ) : ℤ) +
          (len - align (numberAt buf 2 attrib)) ≤ buf.length by push_cast; omega) rfl
      rw [dif_pos ⟨hlen, hsize⟩, namesReadable_cons, printAttributes_cons hin hlen hsize]
      rcases printAttribute_cases up ⟨attrib, numberAt buf 2 attrib, numberAt buf 2 (attrib + 2)⟩
        (show ifi + 8 ≤ buf.length by omega) with ⟨⟨lines, hline, hnone⟩, hname⟩ | ⟨⟨e, he⟩, hname⟩
      · rw [hline]
        rcases hrest with ⟨⟨rest, hmore, hnone'⟩, hnames⟩ | ⟨⟨e, he⟩, hnames⟩
        · refine .inl ⟨⟨lines ++ rest, ?_, ?_⟩, hname, hnames⟩
          · rw [hmore]
            rfl
          · rw [List.filter_append, hnone, hnone', List.append_nil]
        · refine .inr ⟨⟨e, ?_⟩, fun h => hnames h.2⟩
          rw [he]
          rfl
      · rw [he]
        exact .inr ⟨⟨e, rfl⟩, fun h => hname h.1⟩
    · rw [dif_neg hok, printAttributes_nil hin hok]
      exact .inl ⟨⟨[], rfl, rfl⟩, nofun⟩

/-- The attributes of a link are printed before its event, or there is a bad
read. -/
theorem printLink_event {m : Item} (up : Bool) {e : Act} (he : e.isEvent = true)
    (hin : m.start + m.length ≤ buf.length) (hcovers : 32 ≤ m.length) :
    (∃ acts, (printLink debug buf (m.start + 16) (m.length - 32) up >>= fun lines =>
        pure (lines ++ [e])) = Except.ok acts ∧ acts.filter Act.isEvent = [e]) ∧
      LinkReadable debug buf m ∨
    (∃ bad, (printLink debug buf (m.start + 16) (m.length - 32) up >>= fun lines =>
        pure (lines ++ [e])) = Except.error bad) ∧ ¬ LinkReadable debug buf m := by
  have hnames : NamesReadable debug buf (attributes buf (m.start + 32) (m.length - 32)) ↔
      LinkReadable debug buf m :=
    ⟨fun h => ⟨hcovers, fun hdebug a ha htype => h a ha htype hdebug⟩,
      fun h a ha htype hdebug => h.names hdebug a ha htype⟩
  have hroom : ((m.start + 32 : ℕ) : ℤ) + (m.length - 32) ≤ buf.length := by omega
  have hplace : m.start + 16 + align 16 = m.start + 32 := rfl
  rw [← hnames, printLink, hplace]
  rcases printAttributes_cases (show m.start + 16 + 8 ≤ m.start + 32 by omega) hroom with
    ⟨⟨lines, hlines, hnone⟩, hread⟩ | ⟨⟨bad, hbad⟩, hread⟩
  · rw [hlines]
    refine .inl ⟨⟨lines ++ [e], rfl, ?_⟩, hread⟩
    rw [List.filter_append, hnone, List.filter_singleton, he]
    rfl
  · rw [hbad]
    exact .inr ⟨⟨bad, rfl⟩, hread⟩

/-- The event of a message about a link is raised, and no other, or there is a
bad read. -/
theorem newLink_cases {m : Item} (hlink : m.type = rtmNewlink)
    (hin : m.start + m.length ≤ buf.length) :
    (∃ acts e, newLink debug buf m.start m.length = .ok acts ∧ eventOf buf m = some e ∧
        acts.filter Act.isEvent = [e]) ∧ LinkReadable debug buf m ∨
      (∃ bad, newLink debug buf m.start m.length = .error bad) ∧ ¬ LinkReadable debug buf m := by
  by_cases hcovers : 32 ≤ m.length
  · have hflags : linkField buf m.start m.length (m.start + 16 + 8) =
        .ok (numberAt buf 4 (m.start + 24)) :=
      (if_neg (by omega)).trans (field_inside (by omega))
    have hrun : newLink debug buf m.start m.length =
        if numberAt buf 4 (m.start + 24) &&& iffRunning ≠ 0 then
          printLink debug buf (m.start + 16) (m.length - 32) true >>= fun lines =>
            pure (lines ++ [.newLinkEvent m.start (m.length - 32)])
        else printLink debug buf (m.start + 16) (m.length - 32) false >>= fun lines =>
          pure (lines ++ [.delLinkEvent m.start (m.length - 32)]) := by
      rw [newLink, hflags]
      rfl
    rw [hrun, eventOf, if_pos hlink]
    split
    · rcases printLink_event true (e := .newLinkEvent m.start (m.length - 32)) rfl hin hcovers with
        ⟨⟨acts, hacts, hevents⟩, hread⟩ | hbad
      · exact .inl ⟨⟨acts, _, hacts, rfl, hevents⟩, hread⟩
      · exact .inr hbad
    · rcases printLink_event false (e := .delLinkEvent m.start (m.length - 32)) rfl hin hcovers with
        ⟨⟨acts, hacts, hevents⟩, hread⟩ | hbad
      · exact .inl ⟨⟨acts, _, hacts, rfl, hevents⟩, hread⟩
      · exact .inr hbad
  · have hflags : linkField buf m.start m.length (m.start + 16 + 8) =
        .error (.uncovered m.start) := if_pos (by omega)
    refine .inr ⟨⟨.uncovered m.start, ?_⟩, fun h => hcovers h.covers⟩
    rw [newLink, hflags]
    rfl

/-- The messages that `parse_message` should raise an event for. -/
def links (ms : List Item) : List Item := (liveMessages ms).filter fun m => m.type = rtmNewlink

/-- The events of the messages that `parse_message` should look at. -/
def wanted (buf : Bytes) (ms : List Item) : List Act := (liveMessages ms).filterMap (eventOf buf)

/-- There is one message about a link at most, and it can be read. -/
structure OneLink (debug : Bool) (buf : Bytes) (ms : List Item) : Prop where
  /-- There is one at most. -/
  one : (links ms).length ≤ 1
  /-- It can be read. -/
  readable : ∀ m ∈ links ms, LinkReadable debug buf m

variable (buf) in
/-- As many events are wanted as there are messages about a link. -/
theorem length_wanted (ms : List Item) : (wanted buf ms).length = (links ms).length := by
  unfold wanted links
  induction liveMessages ms with
  | nil => rfl
  | cons m live ih =>
    by_cases hlink : m.type = rtmNewlink
    · rw [List.filterMap_cons, List.filter_cons, if_pos (decide_eq_true hlink), List.length_cons,
        ← ih, eventOf, if_pos hlink, List.length_cons]
    · rw [List.filterMap_cons, List.filter_cons, if_neg (by rw [decide_eq_true_eq]; exact hlink),
        ← ih, eventOf, if_neg hlink]

theorem liveMessages_stop {m : Item} {ms : List Item} (h : goesOn m = false) :
    liveMessages (m :: ms) = [] := by
  rw [liveMessages, List.takeWhile_cons, h]
  rfl

theorem liveMessages_cons {m : Item} {ms : List Item} (h : goesOn m = true) :
    liveMessages (m :: ms) = m :: liveMessages ms := by
  rw [liveMessages, List.takeWhile_cons, h]
  rfl

/-- A message about a link is in front: it must be the only one. -/
theorem oneLink_cons {m : Item} {ms : List Item} (hgo : goesOn m = true)
    (hlink : m.type = rtmNewlink) :
    OneLink debug buf (m :: ms) ↔ links ms = [] ∧ LinkReadable debug buf m := by
  have hlinks : links (m :: ms) = m :: links ms := by
    rw [links, liveMessages_cons hgo, List.filter_cons, if_pos (decide_eq_true hlink)]
    rfl
  constructor
  · rintro ⟨hone, hread⟩
    rw [hlinks] at hone hread
    rw [List.length_cons] at hone
    exact ⟨List.length_eq_zero_iff.mp (by omega), hread m (List.mem_cons_self ..)⟩
  · rintro ⟨hnone, hread⟩
    refine ⟨?_, ?_⟩
    · rw [hlinks, hnone]
      exact Nat.le_refl 1
    · rw [hlinks, hnone]
      exact fun q hq => List.mem_singleton.mp hq ▸ hread

/-- The loop at a message. -/
theorem parseMessages_cons {msg_ptr : ℕ} {len : ℤ} (hin : msg_ptr + len ≤ buf.length)
    (hlen : 16 ≤ len) (hok : 16 ≤ numberAt buf 4 msg_ptr ∧ (numberAt buf 4 msg_ptr : ℤ) ≤ len) :
    parseMessages debug buf msg_ptr len =
      if numberAt buf 2 (msg_ptr + 4) = nlmsgDone then .ok []
      else if numberAt buf 2 (msg_ptr + 4) = nlmsgError then .ok [.aErr]
      else if numberAt buf 2 (msg_ptr + 4) = rtmNewlink then
        newLink debug buf msg_ptr (numberAt buf 4 msg_ptr)
      else parseMessages debug buf (msg_ptr + align (numberAt buf 4 msg_ptr))
        (len - align (numberAt buf 4 msg_ptr)) := by
  rw [parseMessages, if_pos hlen, field_inside (by omega), field_inside (by omega)]
  exact dif_pos hok

/-- The loop at its end. -/
theorem parseMessages_nil {msg_ptr : ℕ} {len : ℤ} (hin : msg_ptr + len ≤ buf.length)
    (hend : ¬ (16 ≤ len ∧ 16 ≤ numberAt buf 4 msg_ptr ∧ (numberAt buf 4 msg_ptr : ℤ) ≤ len)) :
    parseMessages debug buf msg_ptr len = .ok [] := by
  rw [parseMessages]
  by_cases hlen : 16 ≤ len
  · rw [if_pos hlen, field_inside (by omega)]
    exact dif_neg fun hok => hend ⟨hlen, hok⟩
  · rw [if_neg hlen]
    rfl

/-- The loop does what it is for. -/
def Raises (buf : Bytes) (out : Except BadRead (List Act)) (ms : List Item) : Prop :=
  ∃ acts, out = .ok acts ∧ acts.filter Act.isEvent = wanted buf ms

/-- Nothing is left to be looked at. -/
theorem raises_nothing {acts : List Act} {ms : List Item} (hacts : acts.filter Act.isEvent = [])
    (hms : liveMessages ms = []) :
    Raises buf (.ok acts) ms ↔ OneLink debug buf ms := by
  have hwanted : wanted buf ms = [] := by
    rw [wanted, hms]
    rfl
  have hlinks : links ms = [] := by
    rw [links, hms]
    rfl
  refine iff_of_true ⟨acts, rfl, hacts.trans hwanted.symm⟩ ⟨?_, ?_⟩
  · rw [hlinks]
    exact Nat.zero_le 1
  · rw [hlinks]
    exact nofun

/-- A message about a link is at the front: the loop is left behind it. -/
theorem raises_newLink {m : Item} {ms : List Item} (hgo : goesOn m = true)
    (hlink : m.type = rtmNewlink) (hin : m.start + m.length ≤ buf.length) :
    Raises buf (newLink debug buf m.start m.length) (m :: ms) ↔
      OneLink debug buf (m :: ms) := by
  rw [oneLink_cons hgo hlink]
  rcases newLink_cases hlink hin with ⟨⟨acts, e, hacts, he, hevents⟩, hread⟩ | ⟨⟨bad, hbad⟩, hread⟩
  · have hwanted : wanted buf (m :: ms) = e :: wanted buf ms := by
      rw [wanted, liveMessages_cons hgo, List.filterMap_cons, he]
      rfl
    rw [Raises, hacts, hwanted]
    constructor
    · rintro ⟨acts', hacts', hevents'⟩
      rw [← Except.ok.inj hacts', hevents] at hevents'
      injection hevents' with _ hrest
      have hnone := length_wanted buf ms
      rw [← hrest] at hnone
      exact ⟨List.length_eq_zero_iff.mp hnone.symm, hread⟩
    · rintro ⟨hnone, -⟩
      have hrest := length_wanted buf ms
      rw [hnone] at hrest
      exact ⟨acts, rfl, by rw [hevents, List.length_eq_zero_iff.mp hrest]⟩
  · rw [Raises, hbad]
    exact iff_of_false (fun ⟨_, h, _⟩ => absurd h nofun) fun h => hread h.2

/-- A message of another type is passed over. -/
theorem raises_other {out : Except BadRead (List Act)} {m : Item} {ms : List Item}
    (hgo : goesOn m = true) (hlink : m.type ≠ rtmNewlink) :
    Raises buf out (m :: ms) ↔ Raises buf out ms := by
  have hwanted : wanted buf (m :: ms) = wanted buf ms := by
    rw [wanted, liveMessages_cons hgo, List.filterMap_cons, eventOf, if_neg hlink]
    rfl
  rw [Raises, hwanted]
  rfl

theorem oneLink_other {m : Item} {ms : List Item} (hgo : goesOn m = true)
    (hlink : m.type ≠ rtmNewlink) : OneLink debug buf (m :: ms) ↔ OneLink debug buf ms := by
  have hlinks : links (m :: ms) = links ms := by
    rw [links, liveMessages_cons hgo, List.filter_cons,
      if_neg (by rw [decide_eq_true_eq]; exact hlink)]
    rfl
  exact ⟨fun h => ⟨hlinks ▸ h.one, hlinks ▸ h.readable⟩,
    fun h => ⟨hlinks.symm ▸ h.one, hlinks.symm ▸ h.readable⟩⟩

/-- The loop does what it is for just when there is one message about a link at
most, and it can be read. -/
theorem parseMessages_raises_iff {msg_ptr : ℕ} {len : ℤ} (hin : msg_ptr + len ≤ buf.length) :
    Raises buf (parseMessages debug buf msg_ptr len) (messages buf msg_ptr len) ↔
      OneLink debug buf (messages buf msg_ptr len) := by
  induction hleft : len.toNat using Nat.strong_induction_on generalizing msg_ptr len with
  | _ left ih =>
    rw [messages]
    by_cases hok : 16 ≤ len ∧ 16 ≤ numberAt buf 4 msg_ptr ∧ (numberAt buf 4 msg_ptr : ℤ) ≤ len
    · obtain ⟨hlen, hsize⟩ := hok
      have hle := le_align (numberAt buf 4 msg_ptr)
      have hrest := ih (len - align (numberAt buf 4 msg_ptr)).toNat (by omega)
        (show ((msg_ptr + align (numberAt buf 4 msg_ptr) : ℕ) : ℤ) +
          (len - align (numberAt buf 4 msg_ptr)) ≤ buf.length by push_cast; omega) rfl
      rw [dif_pos ⟨hlen, hsize⟩, parseMessages_cons hin hlen hsize]
      by_cases hdone : numberAt buf 2 (msg_ptr + 4) = nlmsgDone
      · rw [if_pos hdone]
        exact raises_nothing rfl (liveMessages_stop (decide_eq_false fun h => h.1 hdone))
      · by_cases herror : numberAt buf 2 (msg_ptr + 4) = nlmsgError
        · rw [if_neg hdone, if_pos herror]
          exact raises_nothing rfl (liveMessages_stop (decide_eq_false fun h => h.2 herror))
        · rw [if_neg hdone, if_neg herror]
          have hgo : goesOn ⟨msg_ptr, numberAt buf 4 msg_ptr, numberAt buf 2 (msg_ptr + 4)⟩ = true :=
            decide_eq_true ⟨hdone, herror⟩
          by_cases hlink : numberAt buf 2 (msg_ptr + 4) = rtmNewlink
          · have hroom : msg_ptr + numberAt buf 4 msg_ptr ≤ buf.length := by omega
            rw [if_pos hlink]
            exact raises_newLink hgo hlink hroom
          · rw [if_neg hlink]
            exact (raises_other hgo hlink).trans (hrest.trans (oneLink_other hgo hlink).symm)
    · rw [dif_neg hok, parseMessages_nil hin hok]
      exact raises_nothing rfl rfl

/-- Every message about a link is delivered just when there is one at most in
front of the end of the datagram, and it can be read. -/
theorem parseMessage_delivers_iff (debug : Bool) (buf : Bytes) :
    Delivers buf (parseMessage debug buf) ↔ OneLink debug buf (messages buf 0 buf.length) :=
  parseMessages_raises_iff (by omega)

end Links

/-- A message of the type `RTM_NEWLINK` without attributes, running. -/
def runningLink : Bytes :=
  [32, 0, 0, 0, 16, 0, 0, 0, 0, 0, 0, 0, 0, 0, 0, 0,
    0, 0, 0, 0, 2, 0, 0, 0, 64, 0, 0, 0, 0, 0, 0, 0]

/-- Of two messages about a link the second one is not delivered. -/
theorem parseMessage_second_lost :
    ¬ Delivers (runningLink ++ runningLink) (parseMessage false (runningLink ++ runningLink)) := by
  intro hdelivers
  have hone : OneLink false _ (messages (runningLink ++ runningLink) 0 64) :=
    (parseMessages_raises_iff (by decide)).mp hdelivers
  have hms : messages (runningLink ++ runningLink) 0 64 = [⟨0, 32, 16⟩, ⟨32, 32, 16⟩] := by
    rw [messages, dif_pos (by decide), messages, dif_pos (by decide), messages,
      dif_neg (by decide)]
    rfl
  rw [hms] at hone
  exact absurd hone.one (by decide)

end MetaDigi.NetlinkLinks
