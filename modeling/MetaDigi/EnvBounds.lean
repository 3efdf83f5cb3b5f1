import MetaDigi.EnvScan

/-!
# Where the scans of the environment end

A block is arbitrary when only its checksum has been looked at. The scans
compare an address with the end of the block after they have read from it, so
they rely on what the block holds: two adjacent NULs for the end mark and for
the search, and a NUL before the last cell for the step to the next string.
-/

namespace MetaDigi.EnvBounds

open CheckedMemory CStrings EnvFuncs EnvScan PackedStrings

/-- The first NUL at an address or behind it. -/
structure NextNul (mem : Bytes) (from' stop : ℕ) : Prop where
  /-- It is not before the address. -/
  le : from' ≤ stop
  /-- It is a NUL of the block. -/
  nul : mem[stop]? = some 0
  /-- There is none in between. -/
  clean : ∀ j, from' ≤ j → j < stop → mem[j]? ≠ some 0

/-- Two adjacent NULs, of which this is the second one. -/
structure SecondNul (mem : Bytes) (addr : ℕ) : Prop where
  /-- There is a cell before it. -/
  pos : 0 < addr
  /-- The cell before it is a NUL. -/
  before : mem[addr - 1]? = some 0
  /-- It is a NUL. -/
  nul : mem[addr]? = some 0

section Scan

variable {mem : Bytes} {from' stop till : ℕ}

theorem NextNul.lt_length (h : NextNul mem from' stop) : stop < mem.length :=
  (List.getElem?_eq_some_iff.mp h.nul).1

theorem SecondNul.lt_length {addr : ℕ} (h : SecondNul mem addr) : addr < mem.length :=
  (List.getElem?_eq_some_iff.mp h.nul).1

theorem NextNul.unique {stop' : ℕ} (h : NextNul mem from' stop) (h' : NextNul mem from' stop') :
    stop = stop' := by
  rcases Nat.lt_trichotomy stop stop' with hlt | heq | hgt
  · exact absurd h.nul (h'.clean stop h.le hlt)
  · exact heq
  · exact absurd h'.nul (h.clean stop' h'.le hgt)

/-- A NUL has a first one in front of it. -/
theorem exists_nextNul {addr : ℕ} (hle : from' ≤ addr) (hnul : mem[addr]? = some 0) :
    ∃ stop ≤ addr, NextNul mem from' stop := by
  induction hcount : addr - from' generalizing from' with
  | zero =>
    have heq : from' = addr := by omega
    exact ⟨addr, Nat.le_refl _, hle, hnul, fun j hj hlt => by omega⟩
  | succ count ih =>
    by_cases hfirst : mem[from']? = some 0
    · exact ⟨from', hle, Nat.le_refl _, hfirst, fun j hj hlt => by omega⟩
    · have hsucc : from' + 1 ≤ addr := by
        have hne : from' ≠ addr := fun h => hfirst (h ▸ hnul)
        omega
      obtain ⟨stop, hstop, hnext⟩ := ih hsucc (by omega)
      have hle' := hnext.le
      refine ⟨stop, hstop, by omega, hnext.nul, fun j hj hlt => ?_⟩
      rcases Nat.eq_or_lt_of_le hj with heq | hlt'
      · rw [← heq]
        exact hfirst
      · exact hnext.clean j hlt' hlt

/-- `while (*from) from++` stops at the first NUL, and only there. -/
theorem skipChars_ok_iff (hfrom : from' ≤ mem.length) :
    skipChars mem (mem.length - from') from' = .ok stop ↔ NextNul mem from' stop := by
  induction hcount : mem.length - from' generalizing from' with
  | zero =>
    refine ⟨nofun, fun h => ?_⟩
    have hle := h.le
    have hlt := h.lt_length
    omega
  | succ count ih =>
    have hlt : from' < mem.length := by omega
    have hload : load mem from' = .ok mem[from'] :=
      load_eq_ok_iff.mpr (List.getElem?_eq_getElem hlt)
    rw [skipChars, hload]
    show (if mem[from'] = 0 then Except.ok from' else skipChars mem count (from' + 1)) =
      .ok stop ↔ _
    by_cases hnul : mem[from'] = 0
    · have hfirst : NextNul mem from' from' :=
        ⟨Nat.le_refl _, by rw [List.getElem?_eq_getElem hlt, hnul], fun j hj hlt => by omega⟩
      rw [if_pos hnul]
      refine ⟨fun h => ?_, fun h => congrArg Except.ok (hfirst.unique h)⟩
      rw [← Except.ok.inj h]
      exact hfirst
    · have hcell : mem[from']? ≠ some 0 := by
        rw [List.getElem?_eq_getElem hlt]
        exact fun h => hnul (Option.some.inj h)
      rw [if_neg hnul]
      have hrest := ih (show from' + 1 ≤ mem.length from hlt) (by omega)
      refine hrest.trans ⟨fun h => ⟨Nat.le_of_succ_le h.le, h.nul, fun j hj hlt => ?_⟩,
        fun h => ⟨?_, h.nul, fun j hj => h.clean j (Nat.le_of_succ_le hj)⟩⟩
      · rcases Nat.eq_or_lt_of_le hj with heq | hlt'
        · rw [← heq]
          exact hcell
        · exact h.clean j hlt' hlt
      · rcases Nat.eq_or_lt_of_le h.le with heq | hlt'
        · exact absurd h.nul (heq ▸ hcell)
        · exact hlt'

/-- Behind the first NUL comes the second of two, or the scan goes on there. -/
theorem secondNul_behind {addr : ℕ} (h : NextNul mem from' stop) (hpair : SecondNul mem addr)
    (hlt : from' < addr) : stop < addr := by
  rcases Nat.lt_or_ge stop addr with hstop | hstop
  · exact hstop
  · exact absurd hpair.before (h.clean (addr - 1) (by omega) (by have := hpair.pos; omega))

/-- The second NUL of the first pair behind an address. -/
structure FirstPair (mem : Bytes) (from' addr : ℕ) : Prop where
  /-- It is the second NUL of a pair. -/
  pair : SecondNul mem addr
  /-- It is behind the address. -/
  behind : from' < addr
  /-- There is none before it. -/
  first : ∀ e, from' < e → e < addr → ¬ SecondNul mem e

theorem FirstPair.unique {addr addr' : ℕ} (h : FirstPair mem from' addr)
    (h' : FirstPair mem from' addr') : addr = addr' := by
  rcases Nat.lt_trichotomy addr addr' with hlt | heq | hgt
  · exact absurd h.pair (h'.first addr h.behind hlt)
  · exact heq
  · exact absurd h'.pair (h.first addr' h'.behind hgt)

/-- The first NUL may be the first of two. -/
theorem firstPair_here (h : NextNul mem from' stop) (hpair : SecondNul mem (stop + 1)) :
    FirstPair mem from' (stop + 1) :=
  ⟨hpair, Nat.lt_succ_of_le h.le, fun e hlt hbelow he =>
    absurd (secondNul_behind h he hlt) (by omega)⟩

/-- A single NUL may be passed. -/
theorem firstPair_next {addr : ℕ} (h : NextNul mem from' stop) (hsingle : ¬ SecondNul mem (stop + 1)) :
    FirstPair mem from' addr ↔ FirstPair mem (stop + 1) addr := by
  have hle := h.le
  have hbehind : ∀ e, SecondNul mem e → from' < e → stop + 1 < e := fun e he hlt => by
    rcases Nat.eq_or_lt_of_le (secondNul_behind h he hlt) with heq | hgt
    · rw [← heq] at he
      exact absurd he hsingle
    · exact hgt
  exact ⟨fun ⟨hpair, hlt, hfirst⟩ =>
      ⟨hpair, hbehind addr hpair hlt, fun e he hbelow => hfirst e (by omega) hbelow⟩,
    fun ⟨hpair, hlt, hfirst⟩ =>
      ⟨hpair, by omega, fun e he hbelow hsecond => hfirst e (hbehind e hsecond he) hbelow hsecond⟩⟩

/-- The loop of `get_end_mark` answers the first pair behind an address. With
none it reads beyond the block. -/
theorem searchEnd_ok_iff {left : ℕ} {r : Option ℕ} (hfrom : from' < mem.length)
    (hleft : mem.length - from' ≤ left) :
    searchEnd mem mem.length left from' = .ok r ↔ ∃ addr, r = some addr ∧ FirstPair mem from' addr := by
  induction left generalizing from' with
  | zero => omega
  | succ left ih =>
    have hskip : ∀ stop, skipChars mem (mem.length - from') from' = .ok stop ↔
        NextNul mem from' stop := fun _ => skipChars_ok_iff hfrom.le
    rw [searchEnd, if_pos hfrom]
    cases hrun : skipChars mem (mem.length - from') from' with
    | error e =>
      -- no NUL is left
      refine ⟨fun h => (by cases h), ?_⟩
      rintro ⟨addr, -, hfirst⟩
      obtain ⟨stop, -, hnext⟩ := exists_nextNul hfirst.behind.le hfirst.pair.nul
      rw [(hskip stop).mpr hnext] at hrun
      cases hrun
    | ok stop =>
      have hnext := (hskip stop).mp hrun
      show (if mem.length ≤ stop then Except.ok none else load mem (stop + 1) >>= fun c =>
        if c = 0 then Except.ok (some (stop + 1)) else searchEnd mem mem.length left (stop + 1)) =
          .ok r ↔ _
      rw [if_neg (Nat.not_le.mpr hnext.lt_length)]
      rcases Nat.lt_or_ge (stop + 1) mem.length with hin | hout
      · have hcell : mem[stop + 1]? = some mem[stop + 1] := List.getElem?_eq_getElem hin
        rw [load_eq_ok_iff.mpr hcell]
        show (if mem[stop + 1] = 0 then Except.ok (some (stop + 1))
          else searchEnd mem mem.length left (stop + 1)) = .ok r ↔ _
        by_cases hnul : mem[stop + 1] = 0
        · have hpair : SecondNul mem (stop + 1) :=
            ⟨Nat.succ_pos _, hnext.nul, hcell.trans (congrArg some hnul)⟩
          rw [if_pos hnul]
          refine ⟨fun h => ⟨stop + 1, (Except.ok.inj h).symm, firstPair_here hnext hpair⟩, ?_⟩
          rintro ⟨addr, hr, hfirst⟩
          rw [hr, hfirst.unique (firstPair_here hnext hpair)]
        · have hsingle : ¬ SecondNul mem (stop + 1) := fun hpair =>
            hnul (Option.some.inj (hcell.symm.trans hpair.nul))
          have hle := hnext.le
          rw [if_neg hnul, ih hin (by omega)]
          exact exists_congr fun addr => and_congr_right fun _ =>
            (firstPair_next hnext hsingle).symm
      · -- the last cell is the only NUL that is left
        rw [load_past hout]
        refine ⟨fun h => (by cases h), ?_⟩
        rintro ⟨addr, -, hfirst⟩
        have hbehind := secondNul_behind hnext hfirst.pair hfirst.behind
        have hlength := hfirst.pair.lt_length
        omega

/-- Some pair has a first one in front of it. -/
theorem exists_firstPair {addr : ℕ} (hpair : SecondNul mem addr) (hlt : from' < addr) :
    ∃ first, FirstPair mem from' first := by
  induction addr using Nat.strong_induction_on with
  | _ addr ih =>
    by_cases hfirst : ∃ e, from' < e ∧ e < addr ∧ SecondNul mem e
    · obtain ⟨e, he, hbelow, hsecond⟩ := hfirst
      exact ih e hbelow hsecond he
    · exact ⟨addr, hpair, hlt, fun e he hbelow hsecond => hfirst ⟨e, he, hbelow, hsecond⟩⟩

/-- `while (from < till && *from) from++` stops at the first NUL or at the end
of the block. -/
theorem skipBefore_ends (mem : Bytes) (from' : ℕ) (hfrom : from' ≤ mem.length) :
    (∃ stop, NextNul mem from' stop ∧
      skipBefore mem (mem.length - from') from' = .ok stop) ∨
    ((∀ j, from' ≤ j → mem[j]? ≠ some 0) ∧
      skipBefore mem (mem.length - from') from' = .ok mem.length) := by
  induction hcount : mem.length - from' generalizing from' with
  | zero =>
    have heq : from' = mem.length := by omega
    refine .inr ⟨fun j hj hnul => ?_, by rw [heq]; rfl⟩
    have hlt := (List.getElem?_eq_some_iff.mp hnul).1
    omega
  | succ count ih =>
    have hlt : from' < mem.length := by omega
    have hcell : mem[from']? = some mem[from'] := List.getElem?_eq_getElem hlt
    rw [skipBefore, load_eq_ok_iff.mpr hcell]
    show (∃ stop, NextNul mem from' stop ∧ (if mem[from'] = 0 then Except.ok from'
      else skipBefore mem count (from' + 1)) = .ok stop) ∨ _ ∧ (if mem[from'] = 0
        then Except.ok from' else skipBefore mem count (from' + 1)) = .ok mem.length
    by_cases hnul : mem[from'] = 0
    · rw [if_pos hnul]
      exact .inl ⟨from', ⟨Nat.le_refl _, hcell.trans (congrArg some hnul),
        fun j hj hlt => by omega⟩, rfl⟩
    · have hhere : mem[from']? ≠ some 0 := fun h => hnul (Option.some.inj (hcell.symm.trans h))
      rw [if_neg hnul]
      rcases ih (from' + 1) (by omega) (by omega) with ⟨stop, hnext, hstop⟩ | ⟨hnone, hstop⟩
      · refine .inl ⟨stop, ⟨Nat.le_of_succ_le hnext.le, hnext.nul, fun j hj hlt => ?_⟩, hstop⟩
        rcases Nat.eq_or_lt_of_le hj with heq | hgt
        · exact heq ▸ hhere
        · exact hnext.clean j hgt hlt
      · refine .inr ⟨fun j hj => ?_, hstop⟩
        rcases Nat.eq_or_lt_of_le hj with heq | hgt
        · exact heq ▸ hhere
        · exact hnone j hgt

/-- `get_next_env_string` answers the address behind the next NUL. With none
it reads beyond the block. -/
theorem getNextEnvString_ok_iff {r : Option ℕ} (hfrom : from' < mem.length) :
    getNextEnvString mem from' mem.length = .ok r ↔
      mem[from']? = some 0 ∧ r = none ∨
      mem[from']? ≠ some 0 ∧ ∃ stop, NextNul mem from' stop ∧ r = some (stop + 1) := by
  have hcell : mem[from']? = some mem[from'] := List.getElem?_eq_getElem hfrom
  rw [getNextEnvString, load_eq_ok_iff.mpr hcell]
  show (if mem[from'] = 0 then Except.ok none
    else skipBefore mem (mem.length - from') from' >>= fun stop =>
      if stop = mem.length then load mem stop >>= fun c =>
        if c ≠ 0 then Except.ok none else Except.ok (some (stop + 1))
      else Except.ok (some (stop + 1))) = .ok r ↔ _
  by_cases hnul : mem[from'] = 0
  · have hhere : mem[from']? = some 0 := hcell.trans (congrArg some hnul)
    rw [if_pos hnul]
    exact ⟨fun h => .inl ⟨hhere, (Except.ok.inj h).symm⟩, fun h => by
      rcases h with ⟨-, hr⟩ | ⟨hne, -⟩
      · rw [hr]
      · exact absurd hhere hne⟩
  · have hhere : mem[from']? ≠ some 0 := fun h => hnul (Option.some.inj (hcell.symm.trans h))
    rw [if_neg hnul]
    rcases skipBefore_ends mem from' hfrom.le with ⟨stop, hnext, hstop⟩ | ⟨hnone, hstop⟩
    · rw [hstop]
      show (if stop = mem.length then load mem stop >>= fun c =>
        if c ≠ 0 then Except.ok none else Except.ok (some (stop + 1))
        else Except.ok (some (stop + 1))) = .ok r ↔ _
      rw [if_neg hnext.lt_length.ne]
      refine ⟨fun h => .inr ⟨hhere, stop, hnext, (Except.ok.inj h).symm⟩, fun h => ?_⟩
      rcases h with ⟨hfirst, -⟩ | ⟨-, stop', hnext', hr⟩
      · exact absurd hfirst hhere
      · rw [hr, hnext.unique hnext']
    · rw [hstop]
      show (if mem.length = mem.length then load mem mem.length >>= fun c =>
        if c ≠ 0 then Except.ok none else Except.ok (some (mem.length + 1))
        else Except.ok (some (mem.length + 1))) = .ok r ↔ _
      rw [if_pos rfl, load_past (Nat.le_refl _)]
      refine ⟨fun h => (by cases h), fun h => ?_⟩
      rcases h with ⟨hfirst, -⟩ | ⟨-, stop', hnext', -⟩
      · exact absurd hfirst hhere
      · exact absurd hnext'.nul (hnone stop' hnext'.le)

/-- A string that ends inside the block can be read. -/
theorem entryMatches_ends (h : NextNul mem from' stop) (needle : Bytes) :
    ∃ found, entryMatches mem from' mem.length needle = .ok found := by
  have hlt : from' < mem.length := Nat.lt_of_le_of_lt h.le h.lt_length
  have hcell : mem[from']? = some mem[from'] := List.getElem?_eq_getElem hlt
  have hstring : loadString mem from' = .ok ((mem.drop from').take (stop - from')) := by
    rw [loadString, (skipChars_ok_iff hlt.le).mpr h]
    rfl
  rw [entryMatches, load_eq_ok_iff.mpr hcell, hstring]
  show ∃ found, (if mem[from'] ≠ 0 ∧ from' < mem.length then Except.ok (decide
    (strstr needle ((mem.drop from').take (stop - from')) = some 0)) else Except.ok false) =
      .ok found
  split
  · exact ⟨_, rfl⟩
  · exact ⟨_, rfl⟩

/-- The search ends at a pair at the latest. -/
theorem searchVar_ends {needle : Bytes} {left addr : ℕ} (hpair : SecondNul mem addr)
    (hle : from' ≤ addr) (hleft : mem.length - from' ≤ left) :
    ∃ r, searchVar mem mem.length needle left from' = .ok r ∧ ∀ a, r = some a → a < mem.length := by
  have hlength := hpair.lt_length
  induction left generalizing from' with
  | zero => omega
  | succ left ih =>
    have hlt : from' < mem.length := by omega
    obtain ⟨stop, hstop, hnext⟩ := exists_nextNul hle hpair.nul
    obtain ⟨found, hfound⟩ := entryMatches_ends hnext needle
    rw [searchVar, hfound]
    cases found with
    | true =>
      refine ⟨some from', ?_, fun a ha => Option.some.inj ha ▸ hlt⟩
      show Except.ok (if from' < mem.length then some from' else none) = _
      rw [if_pos hlt]
    | false =>
      by_cases hhere : mem[from']? = some 0
      · refine ⟨none, ?_, fun a ha => (by cases ha)⟩
        have hnone := (getNextEnvString_ok_iff hlt).mpr (.inl ⟨hhere, rfl⟩)
        show (getNextEnvString mem from' mem.length >>= fun next => _) = _
        rw [hnone]
        rfl
      · have hsome := (getNextEnvString_ok_iff hlt).mpr (.inr ⟨hhere, stop, hnext, rfl⟩)
        have hback : stop ≠ addr := fun heq => by
          -- the string in front of the second NUL is empty
          have hfrom : from' ≠ addr := fun h => hhere (h ▸ hpair.nul)
          exact absurd hpair.before (hnext.clean (addr - 1) (by omega) (by omega))
        show ∃ r, (getNextEnvString mem from' mem.length >>= fun next => _) = _ ∧ _
        rw [hsome]
        exact ih (by omega) (by have := hnext.le; omega)

end Scan

section Buffer

variable {mem : Bytes}

/-- What `get_end_mark` should answer. -/
structure EndMark (mem : Bytes) (r : Option ℕ) : Prop where
  /-- The second NUL of the first pair. -/
  found : ∀ addr, r = some addr → FirstPair mem 0 addr
  /-- Nothing only when there is no pair. -/
  missing : r = none ↔ ¬ ∃ addr, SecondNul mem addr

/-- The scans of a block, from a pointer into it and for a name, read inside it
and answer an address inside it. -/
structure ScansInside (mem : Bytes) (from' : ℕ) (varName : CString) : Prop where
  /-- `get_end_mark` is exact. -/
  endMark : ∃ r, getEndMark mem 0 mem.length = .ok r ∧ EndMark mem r
  /-- `get_next_env_string`. -/
  next : ∃ r, getNextEnvString mem from' mem.length = .ok r ∧ ∀ a, r = some a → a < mem.length
  /-- `get_var_addr`. -/
  varAddr : ∃ r, getVarAddr mem 0 mem.length varName = .ok r ∧ ∀ a, r = some a → a < mem.length

/-- `get_end_mark` is exact when there is a pair to be found. -/
theorem endMark_iff (hmem : mem ≠ []) :
    (∃ r, getEndMark mem 0 mem.length = .ok r ∧ EndMark mem r) ↔ ∃ addr, SecondNul mem addr := by
  have hlt : 0 < mem.length := List.length_pos_iff.mpr hmem
  have hrun := fun r => searchEnd_ok_iff (r := r) hlt (Nat.le_refl _)
  constructor
  · rintro ⟨r, hr, -⟩
    obtain ⟨addr, -, hfirst⟩ := (hrun r).mp hr
    exact ⟨addr, hfirst.pair⟩
  · rintro ⟨addr, hpair⟩
    obtain ⟨first, hfirst⟩ := exists_firstPair hpair hpair.pos
    refine ⟨some first, (hrun _).mpr ⟨first, rfl, hfirst⟩, ?_, ?_⟩
    · intro a ha
      rw [← Option.some.inj ha]
      exact hfirst
    · exact ⟨nofun, fun hnone => absurd ⟨first, hfirst.pair⟩ hnone⟩

/-- `get_next_env_string` stays inside at an empty string and at one that ends
before the last cell. -/
theorem next_iff {from' : ℕ} (hfrom : from' < mem.length) :
    (∃ r, getNextEnvString mem from' mem.length = .ok r ∧ ∀ a, r = some a → a < mem.length) ↔
      mem[from']? = some 0 ∨ ∃ q, from' ≤ q ∧ q + 1 < mem.length ∧ mem[q]? = some 0 := by
  constructor
  · rintro ⟨r, hr, hinside⟩
    rcases (getNextEnvString_ok_iff hfrom).mp hr with ⟨hhere, -⟩ | ⟨-, stop, hnext, hsome⟩
    · exact .inl hhere
    · exact .inr ⟨stop, hnext.le, hinside _ hsome, hnext.nul⟩
  · intro hends
    by_cases hhere : mem[from']? = some 0
    · exact ⟨none, (getNextEnvString_ok_iff hfrom).mpr (.inl ⟨hhere, rfl⟩), nofun⟩
    · obtain ⟨q, hle, hlast, hnul⟩ := hends.resolve_left hhere
      obtain ⟨stop, hstop, hnext⟩ := exists_nextNul hle hnul
      refine ⟨some (stop + 1), (getNextEnvString_ok_iff hfrom).mpr
        (.inr ⟨hhere, stop, hnext, rfl⟩), fun a ha => ?_⟩
      rw [← Option.some.inj ha]
      omega

/-- `get_var_addr` stays inside when there is a pair to stop at. -/
theorem varAddr_of_pair {varName : CString} (hlen : varName.val.length < envMaxVarNameLen)
    {addr : ℕ} (hpair : SecondNul mem addr) :
    ∃ r, getVarAddr mem 0 mem.length varName = .ok r ∧ ∀ a, r = some a → a < mem.length := by
  obtain ⟨cells, hstore, -⟩ := searchedText hlen
  rw [getVarAddr, hstore]
  exact searchVar_ends hpair (Nat.zero_le _) (Nat.le_refl _)

/-- The scans stay inside a block just when it has two adjacent NULs and the
string at the pointer is empty or ends before the last cell. -/
theorem scansInside_iff {from' : ℕ} {varName : CString} (hfrom : from' < mem.length)
    (hlen : varName.val.length < envMaxVarNameLen) :
    ScansInside mem from' varName ↔
      (∃ addr, SecondNul mem addr) ∧
        (mem[from']? = some 0 ∨ ∃ q, from' ≤ q ∧ q + 1 < mem.length ∧ mem[q]? = some 0) := by
  have hmem : mem ≠ [] := List.ne_nil_of_length_pos (Nat.zero_lt_of_lt hfrom)
  constructor
  · rintro ⟨hend, hnext, -⟩
    exact ⟨(endMark_iff hmem).mp hend, (next_iff hfrom).mp hnext⟩
  · rintro ⟨⟨addr, hpair⟩, hends⟩
    exact ⟨(endMark_iff hmem).mpr ⟨addr, hpair⟩, (next_iff hfrom).mpr hends,
      varAddr_of_pair hlen hpair⟩

/-- Two variables and the end mark. -/
theorem scansInside_two :
    ScansInside (text "a=1" ++ 0 :: text "b=2" ++ [0, 0]) 4 ⟨text "b", by decide⟩ :=
  (scansInside_iff (by decide) (by decide)).mpr ⟨⟨8, by decide, rfl, rfl⟩, .inr ⟨7, by decide⟩⟩

/-- One variable whose NUL is the last cell: each of the scans goes beyond
it. -/
theorem scans_beyond :
    getEndMark (text "a=1" ++ [0]) 0 4 = .error (.read 4) ∧
    getNextEnvString (text "a=1" ++ [0]) 0 4 = .ok (some 4) ∧
    getVarAddr (text "a=1" ++ [0]) 0 4 ⟨text "b", by decide⟩ = .error (.read 4) ∧
    ¬ ScansInside (text "a=1" ++ [0]) 0 ⟨text "b", by decide⟩ := by
  refine ⟨rfl, rfl, rfl, ?_⟩
  rintro ⟨⟨r, hr, -⟩, -, -⟩
  exact absurd hr nofun

end Buffer

end MetaDigi.EnvBounds
