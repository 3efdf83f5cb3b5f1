import Mathlib.Data.Nat.Init
import MetaDigi.SystemHistories

/-!
# Reading and writing physical memory

The transfer loop of `memwatch` goes through a range in chunks of a page and
maps one page for each of them: the one that holds the first byte of the chunk.
A chunk that does not begin at a page ends in the next one, which is not mapped
then. Within a chunk the accesses follow each other at their width, and the
last one may go beyond the range.
-/

namespace MetaDigi.MemwatchTransfer

open SystemProgram SystemHistories SystemRuns Prog

/-- `access_t`. -/
inductive Access where
  | byte | word | dword
  deriving DecidableEq, Repr

/-- The number of bytes of an access. -/
def Access.size : Access → ℕ
  | .byte => 1
  | .word => 2
  | .dword => 4

/-- `MAP_SIZE`. -/
def mapSize : ℕ := 4096

/-- The calls and the accesses. An address is counted from `map_base`. -/
inductive MemOp where
  /-- `mmap` of one page. -/
  | mmap (offset : ℕ)
  /-- Read from `virt_addr`, answered by the value. -/
  | load (virt_addr : ℕ) (access : Access)
  /-- Write to `virt_addr`. -/
  | store (virt_addr : ℕ) (access : Access) (wr_val : ℕ)
  /-- `write` to the file. -/
  | writeFile (rd_val : ℕ) (access : Access)
  /-- `read` from the file, answered by `wr_val` after it. -/
  | readFile (access : Access)
  /-- `munmap`. -/
  | munmap

/-- What they are answered with, an error by `false` or by nothing. -/
abbrev MemResp : MemOp → Type
  | .mmap _ => Bool
  | .load _ _ => ℕ
  | .store _ _ _ => Unit
  | .writeFile _ _ => Bool
  | .readFile _ => Option ℕ
  | .munmap => Bool

/-- Why the tool is left. -/
inductive Failure where
  /-- "Error mapping memory". -/
  | mapping
  /-- "Error writing in" the file. -/
  | writing
  /-- "Error reading from" the file. -/
  | reading
  /-- "Error unmapping memory". -/
  | unmapping
  deriving DecidableEq, Repr

/-- The options of the command line for the transfer. -/
structure Options where
  /-- `read_write`: the memory is read. -/
  readWrite : Bool
  /-- A `filename` is given. -/
  filename : Bool
  /-- `access`. -/
  access : Access

/-- A part of the tool. -/
abbrev Mem := Prog MemOp MemResp Failure

/-- Issue a call or an access. -/
abbrev mem (o : MemOp) : Mem (MemResp o) := Prog.perform o

/-- An access has some bytes. -/
theorem size_pos (access : Access) : 0 < access.size := by
  cases access <;> decide

section Transfer

variable (opts : Options)

/-- One access. Answers `wr_val` after it. -/
def accessOnce (virt_addr wr_val : ℕ) : Mem ℕ := do
  if opts.readWrite then
    let rd_val ← mem (.load virt_addr opts.access)
    if opts.filename then
      if ← mem (.writeFile rd_val opts.access) then return wr_val else .exit .writing
    else return wr_val
  else if opts.filename then
    match ← mem (.readFile opts.access) with
    | none => .exit .reading
    | some wr_val =>
      mem (.store virt_addr opts.access wr_val)
      return wr_val
  else
    mem (.store virt_addr opts.access wr_val)
    return wr_val

/-- The loop over the accesses of a chunk. -/
def accessLoop (chunck j virt_addr wr_val : ℕ) : Mem ℕ :=
  if j < chunck then do
    let wr_val ← accessOnce opts virt_addr wr_val
    accessLoop chunck (j + opts.access.size) (virt_addr + opts.access.size) wr_val
  else return wr_val
termination_by chunck - j
decreasing_by
  have hpos := size_pos opts.access
  omega

/-- The transfer loop. Addresses are not cut to the width of a register: no range
goes beyond the last one. -/
def transfer (pending address wr_val : ℕ) : Mem Unit :=
  if pending = 0 then return ()
  else do
    let chunck := if pending > mapSize then mapSize else pending
    if ← mem (.mmap (address / mapSize * mapSize)) then
      let wr_val ← accessLoop opts chunck 0 (address % mapSize) wr_val
      if ← mem .munmap then transfer (pending - chunck) (address + chunck) wr_val
      else .exit .unmapping
    else .exit .mapping
termination_by pending
decreasing_by
  unfold mapSize
  split <;> omega

end Transfer

/-- A point in memory as it is accessed: the page that is mapped, if there is
one, and the offset from where it is mapped. -/
structure Touch where
  /-- The page. -/
  page : Option ℕ
  /-- The offset. -/
  offset : ℕ
  deriving DecidableEq, Repr

/-- What an observer knows of a run. -/
structure Track where
  /-- The page that is mapped. -/
  mapped : Option ℕ := none
  /-- The accesses, the first one in front. -/
  touches : List Touch := []

/-- One more event. -/
def note (t : Track) (e : Event MemOp MemResp) : Track :=
  match e with
  | ⟨.mmap offset, true⟩ => { t with mapped := some offset }
  | ⟨.munmap, true⟩ => { t with mapped := none }
  | ⟨.load virt_addr _, _⟩ => { t with touches := t.touches ++ [⟨t.mapped, virt_addr⟩] }
  | ⟨.store virt_addr _ _, _⟩ => { t with touches := t.touches ++ [⟨t.mapped, virt_addr⟩] }
  | _ => t

/-- What the observer knows after a history. -/
def track (past : List (Event MemOp MemResp)) : Track := past.foldl note {}

/-- An access lies inside the page that is mapped at that moment. -/
def InPage (access : Access) (t : Touch) : Prop :=
  t.page ≠ none ∧ t.offset + access.size ≤ mapSize

/-- The physical address of an access. -/
def Touch.address (t : Touch) : ℕ := t.page.getD 0 + t.offset

/-- What the transfer is for: it comes to an end, and its accesses are in the
range, one after the other, in their pages; when no call fails they cover the
range. -/
structure TouchesRange (access : Access) (address len : ℕ) (touches : List Touch)
    (out : Outcome Failure Unit) : Prop where
  /-- It does not go on for ever. -/
  ends : out ≠ .hang
  /-- The accesses are in order, each once. -/
  ordered : touches.map Touch.address =
    (List.range touches.length).map fun k => address + k * access.size
  /-- They lie in the range. -/
  inside : ∀ t ∈ touches, t.address + access.size ≤ address + len
  /-- They lie in the page that is mapped. -/
  mapped : ∀ t ∈ touches, InPage access t
  /-- They cover the range. -/
  covers : out = .ret () → access.size ∣ len →
    ∀ b, address ≤ b → b < address + len →
      ∃ t ∈ touches, t.address ≤ b ∧ b < t.address + access.size

/-- The number of accesses to so many bytes. -/
def steps (count : ℕ) (access : Access) : ℕ := (count + access.size - 1) / access.size

/-- The accesses to the bytes of a page from an offset on. -/
def pagePlan (page offset count : ℕ) (access : Access) : List Touch :=
  (List.range (steps count access)).map fun k => ⟨some page, offset + k * access.size⟩

/-- The accesses of a transfer when no call fails. -/
def plan (access : Access) (pending address : ℕ) : List Touch :=
  if pending = 0 then []
  else
    let chunck := if pending > mapSize then mapSize else pending
    pagePlan (address / mapSize * mapSize) (address % mapSize) chunck access ++
      plan access (pending - chunck) (address + chunck)
termination_by pending
decreasing_by
  unfold mapSize
  split <;> omega

section Runs

variable {opts : Options} {past now : List (Event MemOp MemResp)}

/-- What becomes of some accesses that are planned: all of them, or the front
ones when a call fails. -/
structure Does {α : Type} (planned : List Touch) (past now : List (Event MemOp MemResp))
    (out : Outcome Failure α) (done : List Touch) : Prop where
  /-- They are done after what has been done before. -/
  touches : (track now).touches = (track past).touches ++ done
  /-- They are the front ones. -/
  front : done <+: planned
  /-- They are all of them, when no call has failed. -/
  whole : ∀ a, out = .ret a → done = planned
  /-- The run is not at a loop that goes on for ever. -/
  ends : out ≠ .hang

/-- One more call. -/
theorem track_snoc (past : List (Event MemOp MemResp)) (e : Event MemOp MemResp) :
    track (past ++ [e]) = note (track past) e := by
  rw [track, List.foldl_append]
  rfl

/-- Nothing is left. -/
theorem steps_zero (access : Access) : steps 0 access = 0 := by
  have hpos := size_pos access
  exact Nat.div_eq_of_lt (by omega)

/-- One more access. -/
theorem steps_succ {count : ℕ} (access : Access) (hpos : 0 < count) :
    steps count access = steps (count - access.size) access + 1 := by
  have hsize := size_pos access
  unfold steps
  rcases Nat.lt_or_ge access.size count with hlt | hge
  · have hsplit : count + access.size - 1 = count - access.size + access.size - 1 + access.size := by
      omega
    rw [hsplit, Nat.add_div_right _ hsize]
  · have hone : (count + access.size - 1) / access.size = 1 := by
      have hdiff : count + access.size - 1 = (count - 1) + access.size := by omega
      rw [hdiff, Nat.add_div_right _ hsize, Nat.div_eq_of_lt (by omega)]
    have hnone : count - access.size + access.size - 1 = access.size - 1 := by omega
    rw [hone, hnone, Nat.div_eq_of_lt (by omega)]

/-- Nothing is left of a page. -/
theorem pagePlan_zero (page offset : ℕ) (access : Access) : pagePlan page offset 0 access = [] := by
  rw [pagePlan, steps_zero]
  rfl

/-- The first access and the rest. -/
theorem pagePlan_succ {count : ℕ} (page offset : ℕ) (access : Access) (hpos : 0 < count) :
    pagePlan page offset count access = ⟨some page, offset⟩ ::
      pagePlan page (offset + access.size) (count - access.size) access := by
  rw [pagePlan, steps_succ access hpos, List.range_succ_eq_map, List.map_cons, List.map_map,
    Nat.zero_mul, Nat.add_zero, pagePlan]
  refine congrArg (_ :: ·) (List.map_congr_left fun k _ => ?_)
  rw [Function.comp_apply, Nat.succ_mul]
  congr 1
  omega

/-- Nothing is done, and nothing was planned or a call has failed. -/
theorem Does.nothing {α : Type} {planned : List Touch} {out : Outcome Failure α}
    (htouches : (track now).touches = (track past).touches)
    (hwhole : ∀ a, out = .ret a → planned = []) (hends : out ≠ .hang) :
    Does planned past now out [] where
  touches := by rw [htouches, List.append_nil]
  front := List.nil_prefix
  whole a ha := (hwhole a ha).symm
  ends := hends

/-- Two parts, one after the other. -/
theorem Does.trans {α β : Type} {plan₁ plan₂ done₁ done₂ : List Touch}
    {mid : List (Event MemOp MemResp)} {a : α} {out : Outcome Failure β}
    (h₁ : Does plan₁ past mid (.ret a) done₁) (h₂ : Does plan₂ mid now out done₂) :
    Does (plan₁ ++ plan₂) past now out (done₁ ++ done₂) where
  touches := by rw [h₂.touches, h₁.touches, List.append_assoc]
  front := by
    rw [h₁.whole a rfl]
    exact (List.prefix_append_right_inj plan₁).mpr h₂.front
  whole b hb := by rw [h₁.whole a rfl, h₂.whole b hb]
  ends := h₂.ends

/-- A first part in which a call fails. -/
theorem Does.stop {α β : Type} {plan₁ plan₂ done : List Touch} {e : Failure}
    (h : Does plan₁ past now (.exit e : Outcome Failure α) done) :
    Does (plan₁ ++ plan₂) past now (.exit e : Outcome Failure β) done where
  touches := h.touches
  front := h.front.trans (List.prefix_append ..)
  whole := nofun
  ends := nofun

/-- What is done of the planned accesses to the page that is mapped. -/
def DoesMapped {α : Type} (page : ℕ) (planned : List Touch) (past now : List (Event MemOp MemResp))
    (out : Outcome Failure α) : Prop :=
  (track now).mapped = some page ∧ ∃ done, Does planned past now out done

/-- One access goes to the page that is mapped. -/
theorem accessOnce_after {page : ℕ} (virt_addr wr_val : ℕ)
    (hmapped : (track past).mapped = some page) :
    After (DoesMapped page [⟨some page, virt_addr⟩] past) (accessOnce opts virt_addr wr_val) past := by
  have hdone : ∀ {α : Type} {out : Outcome Failure α} {now : List (Event MemOp MemResp)},
      track now = { track past with touches := (track past).touches ++ [⟨some page, virt_addr⟩] } →
      out ≠ .hang → DoesMapped page [⟨some page, virt_addr⟩] past now out := fun htrack hends =>
    ⟨by rw [htrack, hmapped], [⟨some page, virt_addr⟩], {
      touches := by rw [htrack]
      front := List.prefix_refl _
      whole := fun _ _ => rfl
      ends := hends }⟩
  unfold accessOnce
  split
  · refine after_call fun rd_val => ?_
    have hload : track (past ++ [⟨.load virt_addr opts.access, rd_val⟩]) =
        { track past with touches := (track past).touches ++ [⟨some page, virt_addr⟩] } := by
      rw [track_snoc, ← hmapped]
      rfl
    split
    · refine after_call fun written => ?_
      have hfile := (track_snoc _ ⟨.writeFile rd_val opts.access, written⟩).trans hload
      cases written with
      | true => exact after_pure (hdone hfile nofun)
      | false => exact after_exit (hdone hfile nofun)
    · exact after_pure (hdone hload nofun)
  · split
    · refine after_call fun got => ?_
      have hfile : track (past ++ [⟨.readFile opts.access, got⟩]) = track past := track_snoc ..
      cases got with
      | none =>
        refine after_exit ⟨by rw [hfile, hmapped], [], Does.nothing (by rw [hfile]) nofun nofun⟩
      | some wr_val =>
        refine after_call fun r => after_pure (hdone ?_ nofun)
        rw [track_snoc, hfile, ← hmapped]
        rfl
    · refine after_call fun r => after_pure (hdone ?_ nofun)
      rw [track_snoc, ← hmapped]
      rfl

/-- The accesses to a chunk go to the page that is mapped. -/
theorem accessLoop_after {page : ℕ} (chunck j virt_addr wr_val : ℕ)
    (hmapped : (track past).mapped = some page) :
    After (DoesMapped page (pagePlan page virt_addr (chunck - j) opts.access) past)
      (accessLoop opts chunck j virt_addr wr_val) past := by
  induction hleft : chunck - j using Nat.strong_induction_on generalizing j virt_addr wr_val past with
  | _ left ih =>
    have hsize := size_pos opts.access
    rw [accessLoop]
    by_cases hmore : j < chunck
    · rw [if_pos hmore, ← hleft, pagePlan_succ page virt_addr opts.access (by omega)]
      refine After.andThen ((accessOnce_after virt_addr wr_val hmapped).mono fun mid out hout => ?_)
      obtain ⟨hmid, done, hdone⟩ := hout
      cases out with
      | ret wr_val =>
        have hrest : chunck - j - opts.access.size = chunck - (j + opts.access.size) := by omega
        rw [hrest]
        refine (ih _ (by omega) (j + opts.access.size) (virt_addr + opts.access.size) wr_val hmid
          rfl).mono fun now out hout => ?_
        obtain ⟨hnow, done', hdone'⟩ := hout
        exact ⟨hnow, done ++ done', hdone.trans hdone'⟩
      | exit e => exact ⟨hmid, done, hdone.stop⟩
      | hang => exact absurd rfl hdone.ends
    · have hzero : left = 0 := by omega
      rw [if_neg hmore, hzero, pagePlan_zero]
      exact after_pure ⟨hmapped, [], Does.nothing rfl (fun _ _ => rfl) nofun⟩

variable (opts past) in
/-- The accesses of a transfer are those that are planned. -/
theorem transfer_after (pending address wr_val : ℕ) :
    After (fun now out => ∃ done, Does (plan opts.access pending address) past now out done)
      (transfer opts pending address wr_val) past := by
  induction pending using Nat.strong_induction_on generalizing address wr_val past with
  | _ pending ih =>
    rw [transfer, plan]
    by_cases hzero : pending = 0
    · rw [if_pos hzero, if_pos hzero]
      exact after_pure ⟨[], Does.nothing rfl (fun _ _ => rfl) nofun⟩
    · rw [if_neg hzero, if_neg hzero]
      obtain ⟨chunck, hchunck⟩ : ∃ n, n = if pending > mapSize then mapSize else pending := ⟨_, rfl⟩
      have hpos : 0 < chunck := by
        rw [hchunck, mapSize]
        split <;> omega
      rw [← hchunck]
      dsimp only
      refine after_call fun ok => ?_
      cases ok with
      | false =>
        exact after_exit ⟨[], Does.nothing (by rw [track_snoc]; rfl) nofun nofun⟩
      | true =>
        have hmap := track_snoc past ⟨.mmap (address / mapSize * mapSize), true⟩
        have hmapped := congrArg Track.mapped hmap
        have htouches := congrArg Track.touches hmap
        refine After.andThen ((accessLoop_after chunck 0 (address % mapSize) wr_val hmapped).mono
          fun mid out hout => ?_)
        obtain ⟨-, done, hdone⟩ := hout
        have hfrom : Does (pagePlan (address / mapSize * mapSize) (address % mapSize) chunck
            opts.access) past mid out done := { hdone with
          touches := hdone.touches.trans (by rw [htouches]; rfl) }
        cases out with
        | ret wr_val =>
          refine after_call fun ok => ?_
          have hunmap : (track (mid ++ [⟨.munmap, ok⟩])).touches = (track mid).touches := by
            rw [track_snoc]
            cases ok <;> rfl
          have hall : Does (pagePlan (address / mapSize * mapSize) (address % mapSize) chunck
              opts.access) past (mid ++ [⟨.munmap, ok⟩]) (.ret wr_val) done := { hfrom with
            touches := hunmap.trans hfrom.touches }
          cases ok with
          | false =>
            exact after_exit ⟨done, hall.touches, hall.front.trans (List.prefix_append ..), nofun,
              nofun⟩
          | true =>
            refine (ih (pending - chunck) (by omega) _ (address + chunck) wr_val).mono
              fun now out hout => ?_
            obtain ⟨done', hdone'⟩ := hout
            exact ⟨done ++ done', hall.trans hdone'⟩
        | exit e => exact ⟨done, hfrom.stop⟩
        | hang => exact absurd rfl hfrom.ends

end Runs

section Plan

variable {access : Access}

/-- The range can be transferred: it consists of whole accesses, and begins at a
page or ends in the page in which it begins. -/
structure Fits (access : Access) (len address : ℕ) : Prop where
  /-- It consists of whole accesses. -/
  whole : access.size ∣ len
  /-- It begins at a page, or does not leave the first one. -/
  page : address % mapSize = 0 ∨ address % mapSize + len ≤ mapSize

/-- A page consists of whole accesses. -/
theorem size_dvd_mapSize (access : Access) : access.size ∣ mapSize := by
  cases access <;> decide

/-- Nothing is left. -/
theorem plan_zero (address : ℕ) : plan access 0 address = [] := by
  rw [plan, if_pos rfl]

/-- A transfer of at most a page. -/
theorem plan_last {pending : ℕ} (address : ℕ) (hle : pending ≤ mapSize) :
    plan access pending address =
      pagePlan (address / mapSize * mapSize) (address % mapSize) pending access := by
  rw [plan]
  by_cases hzero : pending = 0
  · rw [if_pos hzero, hzero, pagePlan_zero]
  · rw [if_neg hzero, if_neg (by omega)]
    dsimp only
    rw [Nat.sub_self, plan_zero, List.append_nil]

/-- A transfer of more than a page. -/
theorem plan_more {pending : ℕ} (address : ℕ) (hlt : mapSize < pending) :
    plan access pending address =
      pagePlan (address / mapSize * mapSize) (address % mapSize) mapSize access ++
        plan access (pending - mapSize) (address + mapSize) := by
  rw [plan, if_neg (by omega), if_pos hlt]

/-- The addresses of the accesses to a page. -/
theorem pagePlan_addresses (address count : ℕ) :
    (pagePlan (address / mapSize * mapSize) (address % mapSize) count access).map Touch.address =
      (List.range (steps count access)).map fun k => address + k * access.size := by
  rw [pagePlan, List.map_map]
  refine List.map_congr_left fun k _ => ?_
  have hsplit := Nat.div_add_mod' address mapSize
  rw [Function.comp_apply, Touch.address, Option.getD_some]
  dsimp only
  omega

/-- Whole accesses in front of some bytes. -/
theorem steps_add (access : Access) (n rest : ℕ) :
    steps (access.size * n + rest) access = n + steps rest access := by
  have hsize := size_pos access
  have hrow : access.size * n + rest + access.size - 1 =
      rest + access.size - 1 + access.size * n := by omega
  rw [steps, hrow, Nat.add_mul_div_left _ _ hsize, Nat.add_comm]
  rfl

/-- Bytes that consist of whole accesses. -/
theorem steps_whole {count : ℕ} (h : access.size ∣ count) :
    steps count access * access.size = count := by
  obtain ⟨n, rfl⟩ := h
  have hsteps := steps_add access n 0
  rw [steps_zero] at hsteps
  exact (congrArg (· * access.size) hsteps).trans (Nat.mul_comm ..)

/-- The accesses cover the bytes. -/
theorem le_steps (count : ℕ) (access : Access) : count ≤ steps count access * access.size := by
  have hsize := size_pos access
  have hdiv := Nat.lt_div_mul_add (a := count + access.size - 1) hsize
  unfold steps
  omega

/-- A page takes a whole number of accesses. -/
theorem steps_page {pending : ℕ} (hlt : mapSize < pending) :
    steps pending access = steps mapSize access + steps (pending - mapSize) access := by
  obtain ⟨n, hn⟩ := size_dvd_mapSize access
  have hall : pending = access.size * n + (pending - mapSize) := by omega
  have hpage : mapSize = access.size * n + 0 := hn
  have hfirst : steps mapSize access = n := by
    rw [hpage, steps_add, steps_zero, Nat.add_zero]
  rw [hfirst, ← steps_add access n (pending - mapSize), ← hall]

/-- The accesses of a transfer are at the addresses of the range, in order. -/
theorem plan_addresses (access : Access) (pending address : ℕ) :
    (plan access pending address).map Touch.address =
      (List.range (steps pending access)).map fun k => address + k * access.size := by
  induction pending using Nat.strong_induction_on generalizing address with
  | _ pending ih =>
    rcases Nat.lt_or_ge mapSize pending with hlt | hle
    · have hpage : 0 < mapSize := by decide
      have hsteps := steps_whole (size_dvd_mapSize access)
      rw [plan_more address hlt, List.map_append, pagePlan_addresses, ih _ (by omega),
        steps_page hlt, List.range_add, List.map_append, List.map_map]
      congr 1
      refine List.map_congr_left fun k _ => ?_
      rw [Function.comp_apply, Nat.add_mul, hsteps, Nat.add_assoc]
    · rw [plan_last address hle, pagePlan_addresses]

/-- The number of accesses. -/
theorem length_plan (access : Access) (pending address : ℕ) :
    (plan access pending address).length = steps pending access := by
  have hlength := congrArg List.length (plan_addresses access pending address)
  rwa [List.length_map, List.length_map, List.length_range] at hlength

/-- An access of the plan is at one of the addresses. -/
theorem address_of_mem_plan {pending address : ℕ} {t : Touch}
    (ht : t ∈ plan access pending address) :
    ∃ k < steps pending access, t.address = address + k * access.size := by
  have hmem := List.mem_map_of_mem (f := Touch.address) ht
  rw [plan_addresses] at hmem
  obtain ⟨k, hk, haddress⟩ := List.mem_map.mp hmem
  exact ⟨k, List.mem_range.mp hk, haddress.symm⟩

/-- At every one of the addresses there is an access of the plan. -/
theorem exists_mem_plan {pending k : ℕ} (address : ℕ) (hk : k < steps pending access) :
    ∃ t ∈ plan access pending address, t.address = address + k * access.size := by
  have hmem := List.mem_map_of_mem (f := fun k => address + k * access.size)
    (List.mem_range.mpr hk)
  rw [← plan_addresses] at hmem
  exact List.mem_map.mp hmem

/-- The front accesses of the plan are in order. -/
theorem prefix_addresses {pending address : ℕ} {done : List Touch}
    (h : done <+: plan access pending address) :
    done.map Touch.address = (List.range done.length).map fun k => address + k * access.size := by
  have hle := h.length_le
  rw [length_plan] at hle
  have hfront := congrArg (List.map Touch.address) (List.prefix_iff_eq_take.mp h)
  rw [List.map_take, plan_addresses, ← List.map_take, List.take_range, Nat.min_eq_left hle]
    at hfront
  exact hfront

/-- Every byte of the range belongs to an access of the plan. -/
theorem plan_covers {len address b : ℕ} (hfirst : address ≤ b) (hlast : b < address + len) :
    ∃ t ∈ plan access len address, t.address ≤ b ∧ b < t.address + access.size := by
  have hsize := size_pos access
  have hsteps := le_steps len access
  have hdiv := Nat.div_add_mod' (b - address) access.size
  have hmod := Nat.mod_lt (b - address) hsize
  have hk : (b - address) / access.size < steps len access :=
    (Nat.div_lt_iff_lt_mul hsize).mpr (by omega)
  obtain ⟨t, ht, haddress⟩ := exists_mem_plan address hk
  exact ⟨t, ht, by omega, by omega⟩

/-- Whole accesses lie in the range. -/
theorem plan_inside {len address : ℕ} (h : access.size ∣ len) {t : Touch}
    (ht : t ∈ plan access len address) : t.address + access.size ≤ address + len := by
  obtain ⟨k, hk, haddress⟩ := address_of_mem_plan ht
  have hsteps := steps_whole h
  have hle := Nat.mul_le_mul_right access.size (Nat.succ_le_of_lt hk)
  rw [Nat.succ_mul] at hle
  omega

/-- The accesses to a page from an offset on lie in it when the bytes do. -/
theorem pagePlan_inPage {page offset count : ℕ} (h : access.size ∣ count)
    (hle : offset + count ≤ mapSize) {t : Touch} (ht : t ∈ pagePlan page offset count access) :
    InPage access t := by
  obtain ⟨k, hk, rfl⟩ := List.mem_map.mp ht
  have hsteps := steps_whole h
  have hlast := Nat.mul_le_mul_right access.size (Nat.succ_le_of_lt (List.mem_range.mp hk))
  rw [Nat.succ_mul] at hlast
  refine ⟨nofun, ?_⟩
  dsimp only
  omega

/-- A range that fits is transferred within the pages that are mapped. -/
theorem plan_inPage {len address : ℕ} (h : Fits access len address) {t : Touch}
    (ht : t ∈ plan access len address) : InPage access t := by
  induction len using Nat.strong_induction_on generalizing address with
  | _ len ih =>
    have hpage : 0 < mapSize := by decide
    rcases Nat.lt_or_ge mapSize len with hlt | hle
    · have hstart : address % mapSize = 0 := h.page.resolve_right (by omega)
      rw [plan_more address hlt] at ht
      rcases List.mem_append.mp ht with ht | ht
      · exact pagePlan_inPage (size_dvd_mapSize access) (by omega) ht
      · refine ih (len - mapSize) (by omega) ⟨Nat.dvd_sub h.whole (size_dvd_mapSize access),
          .inl ?_⟩ ht
        rw [Nat.add_mod_right, hstart]
    · rw [plan_last address hle] at ht
      refine pagePlan_inPage h.whole ?_ ht
      rcases h.page with hstart | hends
      · omega
      · exact hends

/-- The last access of a chunk ends where its bytes end. -/
theorem pagePlan_last (page offset : ℕ) {count : ℕ} (hpos : 0 < count) (h : access.size ∣ count) :
    ∃ t ∈ pagePlan page offset count access, t.offset + access.size = offset + count := by
  have hsteps := steps_whole h
  have hsome : 0 < steps count access := by
    by_contra hnone
    rw [Nat.eq_zero_of_not_pos hnone, Nat.zero_mul] at hsteps
    omega
  obtain ⟨k, hk⟩ := Nat.exists_eq_add_one_of_ne_zero (Nat.ne_of_gt hsome)
  refine ⟨_, List.mem_map_of_mem (List.mem_range.mpr (show k < steps count access by omega)), ?_⟩
  rw [hk, Nat.succ_mul] at hsteps
  dsimp only
  omega

/-- A range that does not fit has an access beyond it, or beyond the page that
is mapped. -/
theorem plan_beyond {len address : ℕ} (h : ¬ Fits access len address) :
    ∃ t ∈ plan access len address,
      address + len < t.address + access.size ∨ ¬ InPage access t := by
  have hsize := size_pos access
  have hpage : 0 < mapSize := by decide
  by_cases hwhole : access.size ∣ len
  · have hcross : address % mapSize ≠ 0 ∧ mapSize < address % mapSize + len := by
      refine ⟨fun hstart => h ⟨hwhole, .inl hstart⟩, ?_⟩
      by_contra hends
      exact h ⟨hwhole, .inr (Nat.le_of_not_lt hends)⟩
    rcases Nat.lt_or_ge mapSize len with hlt | hle
    · obtain ⟨t, ht, hlast⟩ := pagePlan_last (address / mapSize * mapSize)
        (address % mapSize) hpage (size_dvd_mapSize access)
      refine ⟨t, ?_, .inr fun hin => ?_⟩
      · rw [plan_more address hlt]
        exact List.mem_append_left _ ht
      · have hle := hin.2
        omega
    · have hlen : 0 < len := by
        have hmod := Nat.mod_lt address hpage
        omega
      obtain ⟨t, ht, hlast⟩ := pagePlan_last (address / mapSize * mapSize)
        (address % mapSize) hlen hwhole
      refine ⟨t, ?_, .inr fun hin => ?_⟩
      · rw [plan_last address hle]
        exact ht
      · have hle := hin.2
        omega
  · have hlong : len < steps len access * access.size :=
      Nat.lt_of_le_of_ne (le_steps len access) fun heq => hwhole ⟨_, by rw [heq]; exact Nat.mul_comm ..⟩
    have hsome : 0 < steps len access := by
      by_contra hnone
      rw [Nat.eq_zero_of_not_pos hnone, Nat.zero_mul] at hlong
      omega
    obtain ⟨k, hk⟩ := Nat.exists_eq_add_one_of_ne_zero (Nat.ne_of_gt hsome)
    obtain ⟨t, ht, haddress⟩ := exists_mem_plan address (show k < steps len access by omega)
    refine ⟨t, ht, .inl ?_⟩
    rw [hk, Nat.succ_mul] at hlong
    omega

end Plan

section Results

/-- A system in which every call succeeds. -/
def obliging : Handler MemOp MemResp Unit
  | .mmap _, s => (true, s)
  | .load _ _, s => (0, s)
  | .store _ _ _, s => ((), s)
  | .writeFile _ _, s => (true, s)
  | .readFile _, s => (some 0, s)
  | .munmap, s => (true, s)

/-- One access. -/
theorem accessOnce_ends (opts : Options) (virt_addr wr_val : ℕ) :
    ∃ wr_val', Ends obliging (accessOnce opts virt_addr wr_val) () (.ret wr_val') () := by
  obtain ⟨readWrite, filename, access⟩ := opts
  cases readWrite <;> cases filename <;> exact ⟨_, rfl, rfl⟩

/-- The accesses of a chunk. -/
theorem accessLoop_ends (opts : Options) (chunck j virt_addr wr_val : ℕ) :
    ∃ wr_val', Ends obliging (accessLoop opts chunck j virt_addr wr_val) () (.ret wr_val') () := by
  induction hleft : chunck - j using Nat.strong_induction_on generalizing j virt_addr wr_val with
  | _ left ih =>
    have hsize := size_pos opts.access
    rw [accessLoop]
    split
    · obtain ⟨wr_val', honce⟩ := accessOnce_ends opts virt_addr wr_val
      obtain ⟨wr_val'', hrest⟩ := ih (chunck - (j + opts.access.size)) (by omega)
        (j + opts.access.size) (virt_addr + opts.access.size) wr_val' rfl
      exact ⟨wr_val'', honce.andThen hrest⟩
    · exact ⟨wr_val, ends_pure _ _⟩

/-- On such a system the transfer returns. -/
theorem transfer_ends (opts : Options) (pending address wr_val : ℕ) :
    Ends obliging (transfer opts pending address wr_val) () (.ret ()) () := by
  induction pending using Nat.strong_induction_on generalizing address wr_val with
  | _ pending ih =>
    rw [transfer]
    split
    · exact ends_pure _ _
    · obtain ⟨chunck, hchunck⟩ : ∃ n, n = if pending > mapSize then mapSize else pending := ⟨_, rfl⟩
      have hpos : 0 < chunck := by
        rw [hchunck, mapSize]
        split <;> omega
      rw [← hchunck]
      obtain ⟨wr_val', hloop⟩ := accessLoop_ends opts chunck 0 (address % mapSize) wr_val
      refine ends_call (Ends.andThen hloop (ends_call ?_))
      exact ih (pending - chunck) (by omega) (address + chunck) wr_val'

/-- What a run touches are the front ones of the planned accesses, all of them
when no call fails. -/
theorem run_does (opts : Options) (len address wr_val : ℕ) {σ : Type}
    (h : Handler MemOp MemResp σ) (s : σ) :
    Does (plan opts.access len address) [] (history h (transfer opts len address wr_val) s)
      (exec h everyCall (transfer opts len address wr_val) s).outcome
      (track (history h (transfer opts len address wr_val) s)).touches := by
  obtain ⟨done, hdone⟩ := (transfer_after opts [] len address wr_val).run h s
  rw [List.nil_append] at hdone
  rw [hdone.touches]
  exact hdone

/-- A transfer touches what it should, whatever the calls answer, just when the
range consists of whole accesses, and begins at a page or does not leave the
page in which it begins. -/
theorem transfer_exact_iff (opts : Options) (len address wr_val : ℕ) :
    (∀ {σ : Type} (h : Handler MemOp MemResp σ) (s : σ),
      TouchesRange opts.access address len
        (track (history h (transfer opts len address wr_val) s)).touches
        (exec h everyCall (transfer opts len address wr_val) s).outcome) ↔
      Fits opts.access len address := by
  constructor
  · intro hall
    by_contra hfits
    obtain ⟨t, ht, hbeyond⟩ := plan_beyond hfits
    have hrun := hall obliging ()
    have hdoes := run_does opts len address wr_val obliging ()
    rw [← hdoes.whole () (transfer_ends opts len address wr_val).1] at ht
    rcases hbeyond with hlong | hpage
    · have hinside := hrun.inside t ht
      omega
    · exact hpage (hrun.mapped t ht)
  · intro hfits σ h s
    have hdoes := run_does opts len address wr_val h s
    refine ⟨hdoes.ends, ?_, ?_, ?_, ?_⟩
    · exact prefix_addresses hdoes.front
    · exact fun t ht => plan_inside hfits.whole (hdoes.front.subset ht)
    · exact fun t ht => plan_inPage hfits (hdoes.front.subset ht)
    · intro hret _ b hfirst hlast
      rw [hdoes.whole () hret]
      exact plan_covers hfirst hlast

/-- Four bytes are read one by one from the last byte of a page on: three of
the accesses lie behind the page that is mapped. -/
theorem transfer_beyond :
    ¬ TouchesRange .byte 4095 4
      (track (history obliging (transfer ⟨true, false, .byte⟩ 4 4095 0) ())).touches
      (exec obliging everyCall (transfer ⟨true, false, .byte⟩ 4 4095 0) ()).outcome := by
  intro hrun
  have hwhole := (run_does ⟨true, false, .byte⟩ 4 4095 0 obliging ()).whole ()
    (transfer_ends ⟨true, false, .byte⟩ 4 4095 0).1
  have hbehind : (⟨some 0, 4096⟩ : Touch) ∈ plan .byte 4 4095 := by
    rw [plan_last 4095 (by decide)]
    decide
  rw [← hwhole] at hbehind
  exact absurd (hrun.mapped _ hbehind).2 (by decide)

end Results

end MetaDigi.MemwatchTransfer
