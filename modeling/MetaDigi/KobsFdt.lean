import MetaDigi.PackedStrings
import MetaDigi.TextLines
import MetaDigi.TextScan

/-!
# The boot ROM in the device tree

`get_rom_version_from_fdt` reads the property `compatible` into a buffer of 256
bytes and walks through the strings there. The walk ends at an empty string,
which the terminator of `fgets` is as long as the property fits. A property
that is longer may be cut in the middle of a string; the walk then goes on
behind the buffer.
-/

namespace MetaDigi.KobsFdt

open CheckedMemory CStrings PackedStrings TextScan

/-- The numbers of the processors. The tool compares with them in a `switch`, so
that they differ. -/
structure Socs where
  /-- `MX23`. -/
  mx23 : ℕ
  /-- `MX28`. -/
  mx28 : ℕ
  /-- `MX50`. -/
  mx50 : ℕ
  /-- `MX53`. -/
  mx53 : ℕ
  /-- `MX6`. -/
  mx6 : ℕ
  /-- `MX6Q`. -/
  mx6q : ℕ
  /-- `MX6DL`. -/
  mx6dl : ℕ
  /-- They are pairwise distinct. -/
  distinct : [mx23, mx28, mx50, mx53, mx6, mx6q, mx6dl].Nodup

/-- The configurations. -/
inductive BootConfig where
  | mx23BootConfig | mx28BootConfig | mx53to2BootConfig | mx50BootConfig | mx6qBootConfig
  deriving DecidableEq, Repr

/-- What `plat_config_data` points to, with its `m_u32Arm_type`. -/
abbrev Plat := BootConfig × ℕ

/-- What a function returns, and `plat_config_data` after it. -/
structure Detection where
  /-- The result. -/
  code : ℤ
  /-- `plat_config_data`, when it is set. -/
  platConfigData : Option Plat
  deriving DecidableEq, Repr

/-- `MAX_STRLEN`. -/
def maxStrlen : ℕ := 256

/-- `compatible`. -/
def compatible : Bytes := text "fsl,imx"

/-- `strtoul(rev, NULL, 16)` with 32 bits. -/
def strtoul16 (rev : Bytes) : ℕ := ((scanHex 32 rev).map Prod.fst).getD 0

section Walk

variable (socs : Socs)

/-- `system_rev` for what stands behind `compatible`. -/
def systemRev (rev : Bytes) : ℕ :=
  if text "6q" <+: rev then socs.mx6q
  else if text "6d" <+: rev then socs.mx6dl
  else if text "6s" <+: rev then socs.mx6
  else strtoul16 rev

/-- The `switch` over `system_rev`. -/
def configFor (rev : ℕ) : Option BootConfig :=
  if rev = socs.mx23 then some .mx23BootConfig
  else if rev = socs.mx28 then some .mx28BootConfig
  else if rev = socs.mx53 then some .mx53to2BootConfig
  else if rev = socs.mx50 then some .mx50BootConfig
  else if rev = socs.mx6 ∨ rev = socs.mx6q ∨ rev = socs.mx6dl then some .mx6qBootConfig
  else none

/-- The loop over the strings in the buffer. It holds what `fgets` has stored;
the first number bounds the strings that are left. -/
def walkStrings (line_buffer : Bytes) : ℕ → ℕ → Option Plat → Except Fault Detection
  | 0, p, _ => .error (.read p)
  | left + 1, p, platConfigData => do
    let c ← load line_buffer p
    if c = 0 then return ⟨-1, platConfigData⟩
    else
      let s ← loadString line_buffer p
      if compatible <+: s then
        let system_rev := systemRev socs (s.drop compatible.length)
        match (configFor socs system_rev).or (platConfigData.map Prod.fst) with
        | some config => return ⟨0, some (config, system_rev)⟩
        | none => walkStrings line_buffer left (p + (s.length + 1)) platConfigData
      else walkStrings line_buffer left (p + (s.length + 1)) platConfigData

/-- What `fgets` stores of a property that is not empty. -/
def storedLine (content : Bytes) : Bytes := (TextLines.piece 10 (maxStrlen - 1) content).1 ++ [0]

/-- `get_rom_version_from_fdt`, for a property that need not be there. -/
def getRomVersionFromFdt (content : Option Bytes) (platConfigData : Option Plat) :
    Except Fault Detection :=
  match content with
  | none => return ⟨-1, platConfigData⟩
  | some content =>
    if content = [] then return ⟨-1, platConfigData⟩
    else walkStrings socs (storedLine content) (storedLine content).length 0 platConfigData

/-- `discover_boot_rom_version`. -/
def discoverBootRomVersion (content : Option Bytes) (getRomVersionFromCpuinfo : Option Plat → Detection)
    (platConfigData : Option Plat) : Except Fault Detection := do
  let fromFdt ← getRomVersionFromFdt socs content platConfigData
  if fromFdt.code ≠ 0 then return getRomVersionFromCpuinfo fromFdt.platConfigData
  else return ⟨0, fromFdt.platConfigData⟩

/-- What the loop makes of a string. -/
def accepted (s : Bytes) : Option Plat :=
  if compatible <+: s then
    (configFor socs (systemRev socs (s.drop compatible.length))).map fun config =>
      (config, systemRev socs (s.drop compatible.length))
  else none

/-- The configuration of a model that is supported. -/
def modelConfig (rev : Bytes) : Option Plat :=
  if text "6q" <+: rev then some (.mx6qBootConfig, socs.mx6q)
  else if text "6d" <+: rev then some (.mx6qBootConfig, socs.mx6dl)
  else if text "6s" <+: rev then some (.mx6qBootConfig, socs.mx6)
  else if strtoul16 rev = socs.mx23 then some (.mx23BootConfig, socs.mx23)
  else if strtoul16 rev = socs.mx28 then some (.mx28BootConfig, socs.mx28)
  else if strtoul16 rev = socs.mx50 then some (.mx50BootConfig, socs.mx50)
  else if strtoul16 rev = socs.mx53 then some (.mx53to2BootConfig, socs.mx53)
  else none

/-- The configuration of a string of the supported form. -/
def supported (s : Bytes) : Option Plat :=
  if compatible <+: s then modelConfig socs (s.drop compatible.length) else none

/-- A string of a property: no terminator and no end of a line. -/
abbrev PropertyString := {s : Bytes // 0 ∉ s ∧ 10 ∉ s}

/-- The strings of a property. -/
def strings (L : List PropertyString) : List Bytes := L.map Subtype.val

/-- What the function is for: only stored bytes are read, and the result is
that of the first supported string. -/
def Detects (L : List PropertyString) (out : Except Fault Detection) : Prop :=
  out = match (strings L).findSome? (supported socs) with
    | some plat => .ok ⟨0, some plat⟩
    | none => .ok ⟨-1, none⟩

end Walk

/-- The strings that can be seen in a buffer with so much room, up to the first
empty one, and whether the last one of them has lost its terminator. -/
def seen : ℕ → List Bytes → List Bytes × Bool
  | _, [] => ([], false)
  | room, s :: L =>
    if s = [] ∨ room = 0 then ([], false)
    else if s.length < room then
      (s :: (seen (room - (s.length + 1)) L).1, (seen (room - (s.length + 1)) L).2)
    else ([s.take room], true)

section Seen

variable {socs : Socs}

/-- The walk stops at a terminator. -/
theorem walkStrings_stop (pre rest : Bytes) (left : ℕ) (platConfigData : Option Plat) :
    walkStrings socs (pre ++ 0 :: rest) (left + 1) pre.length platConfigData =
      .ok ⟨-1, platConfigData⟩ := by
  rw [walkStrings, load_append]
  rfl

variable (socs) in
/-- The walk does not go on behind the buffer. -/
theorem walkStrings_past {mem : Bytes} {p : ℕ} (h : mem.length ≤ p) (left : ℕ)
    (platConfigData : Option Plat) :
    walkStrings socs mem left p platConfigData = .error (.read p) := by
  cases left with
  | zero => rfl
  | succ left => rw [walkStrings, load_past h]; rfl

/-- One string of the walk. -/
theorem walkStrings_string (pre rest : Bytes) {s : Bytes} (left : ℕ) (hs : (0 : UInt8) ∉ s)
    (hne : s ≠ []) :
    walkStrings socs (pre ++ s ++ 0 :: rest) (left + 1) pre.length none =
      match accepted socs s with
      | some plat => .ok ⟨0, some plat⟩
      | none => walkStrings socs (pre ++ s ++ 0 :: rest) left (pre.length + (s.length + 1)) none := by
  obtain ⟨c, t, rfl⟩ := List.exists_cons_of_ne_nil hne
  have hload : load (pre ++ (c :: t) ++ 0 :: rest) pre.length = .ok c := by
    rw [List.append_assoc, List.cons_append]
    exact load_append ..
  have hc : c ≠ 0 := fun h => hs (h ▸ List.mem_cons_self ..)
  rw [walkStrings, hload, loadString_string pre (c :: t) rest hs, accepted]
  simp only [bind, Except.bind, hc, if_false, Option.map_none, Option.or_none]
  split
  · cases configFor socs (systemRev socs ((c :: t).drop compatible.length)) <;> rfl
  · rfl

/-- What comes of the strings that are seen: the first that is accepted, or the
end of the list, or a read at this place. -/
def judge (socs : Socs) (past : ℕ) : List Bytes × Bool → Except Fault Detection
  | (L, cut) => match L.findSome? (accepted socs) with
    | some plat => .ok ⟨0, some plat⟩
    | none => if cut then .error (.read past) else .ok ⟨-1, none⟩

theorem judge_cons {past : ℕ} {s : Bytes} {L : List Bytes} {cut : Bool} :
    judge socs past (s :: L, cut) =
      match accepted socs s with
      | some plat => .ok ⟨0, some plat⟩
      | none => judge socs past (L, cut) := by
  unfold judge
  dsimp only
  rw [List.findSome?_cons]
  cases accepted socs s <;> rfl

variable (socs) in
/-- The walk through as much of the strings as there is room for. -/
theorem walkStrings_seen (pre : Bytes) {L : List Bytes} (hL : ∀ s ∈ L, (0 : UInt8) ∉ s)
    (room left : ℕ) (hleft : ((flat 0 L).take room).length < left) :
    walkStrings socs (pre ++ ((flat 0 L).take room ++ [0])) left pre.length none =
      judge socs (pre.length + (room + 1)) (seen room L) := by
  induction L generalizing pre room left with
  | nil =>
    obtain ⟨left, rfl⟩ := Nat.exists_eq_add_one_of_ne_zero (Nat.ne_of_gt (Nat.zero_lt_of_lt hleft))
    rw [flat_nil, List.take_nil, List.nil_append]
    exact walkStrings_stop pre [] left none
  | cons s L ih =>
    obtain ⟨left, rfl⟩ := Nat.exists_eq_add_one_of_ne_zero (Nat.ne_of_gt (Nat.zero_lt_of_lt hleft))
    have hs := hL s (List.mem_cons_self ..)
    rw [flat_cons] at hleft ⊢
    rw [seen]
    by_cases hend : s = [] ∨ room = 0
    · -- The next byte is a terminator: of the empty string, or of `fgets`.
      obtain ⟨rest, hrest⟩ : ∃ rest, (s ++ 0 :: flat 0 L).take room ++ [0] = 0 :: rest := by
        rcases Nat.eq_zero_or_pos room with hzero | hpos
        · exact ⟨[], by rw [hzero, List.take_zero, List.nil_append]⟩
        · obtain ⟨room, rfl⟩ := Nat.exists_eq_add_one_of_ne_zero (Nat.ne_of_gt hpos)
          have hnil : s = [] := hend.resolve_right (Nat.succ_ne_zero _)
          rw [hnil, List.nil_append, List.take_succ_cons, List.cons_append]
          exact ⟨_, rfl⟩
      rw [if_pos hend, hrest]
      exact walkStrings_stop pre rest left none
    · obtain ⟨hne, hroom⟩ := not_or.mp hend
      rw [if_neg hend]
      by_cases hfits : s.length < room
      · have htake : (s ++ 0 :: flat 0 L).take room =
            s ++ 0 :: (flat 0 L).take (room - (s.length + 1)) := by
          have hsub : room - s.length = room - (s.length + 1) + 1 := by omega
          rw [List.take_append, List.take_of_length_le hfits.le, hsub, List.take_succ_cons]
        rw [if_pos hfits, judge_cons]
        rw [htake] at hleft ⊢
        rw [List.length_append, List.length_cons] at hleft
        have hmem : pre ++ (s ++ 0 :: (flat 0 L).take (room - (s.length + 1)) ++ [0]) =
            pre ++ s ++ 0 :: ((flat 0 L).take (room - (s.length + 1)) ++ [0]) := by
          simp only [List.append_assoc, List.cons_append]
        have hnext := ih (pre ++ s ++ [0]) (fun q hq => hL q (List.mem_cons_of_mem _ hq))
          (room - (s.length + 1)) left (by omega)
        have hplace : (pre ++ s ++ [0]).length = pre.length + (s.length + 1) := by
          simp only [List.length_append, List.length_singleton, Nat.add_assoc]
        have hsame : pre ++ s ++ [0] ++ ((flat 0 L).take (room - (s.length + 1)) ++ [0]) =
            pre ++ s ++ 0 :: ((flat 0 L).take (room - (s.length + 1)) ++ [0]) := by
          rw [List.append_assoc (pre ++ s), List.singleton_append]
        have hpast : pre.length + (s.length + 1) + (room - (s.length + 1) + 1) =
            pre.length + (room + 1) := by omega
        rw [hplace, hpast, hsame] at hnext
        rw [hmem, walkStrings_string pre _ left hs hne, hnext]
      · -- The terminator of the string is not in the buffer: the one of `fgets` is.
        have htake : (s ++ 0 :: flat 0 L).take room = s.take room :=
          List.take_append_of_le_length (Nat.le_of_not_lt hfits)
        have hclean : (0 : UInt8) ∉ s.take room := fun h => hs (List.mem_of_mem_take h)
        have hsome : s.take room ≠ [] := by
          rw [Ne, List.take_eq_nil_iff, not_or]
          exact ⟨hroom, hne⟩
        have hlength : (s.take room).length = room :=
          List.length_take_of_le (Nat.le_of_not_lt hfits)
        have hend : (pre ++ s.take room ++ [0]).length ≤ pre.length + ((s.take room).length + 1) := by
          simp only [List.length_append, List.length_singleton]
          omega
        have hbehind := walkStrings_past socs hend left none
        rw [if_neg hfits, judge_cons, htake, ← List.append_assoc,
          walkStrings_string pre [] left hclean hsome, hbehind, hlength]
        rfl

end Seen

section Results

variable (socs : Socs)

/-- A text without the end of a line is read as far as there is room. -/
theorem piece_of_not_mem {room : ℕ} {s : Bytes} (h : (10 : UInt8) ∉ s) :
    (TextLines.piece 10 room s).1 = s.take room := by
  induction s generalizing room with
  | nil => cases room <;> rfl
  | cons c s ih =>
    cases room with
    | zero => rfl
    | succ room =>
      have hc : c ≠ 10 := fun he => h (he ▸ List.mem_cons_self ..)
      rw [TextLines.piece, if_neg hc, List.take_succ_cons,
        ← ih fun hs => h (List.mem_cons_of_mem _ hs)]

/-- The strings that the function sees of a property. -/
def seenOf (L : List PropertyString) : List Bytes × Bool := seen (maxStrlen - 1) (strings L)

theorem getRomVersionFromFdt_eq (L : List PropertyString) :
    getRomVersionFromFdt socs (some (flat 0 (strings L))) none = judge socs maxStrlen (seenOf L) := by
  have hclean : ∀ s ∈ strings L, (0 : UInt8) ∉ s := fun s hs => by
    obtain ⟨q, -, hq⟩ := List.mem_map.mp hs
    exact hq ▸ q.2.1
  have hline : (10 : UInt8) ∉ flat 0 (strings L) := fun h => by
    obtain ⟨s, hs, hmem⟩ := List.mem_flatMap.mp h
    obtain ⟨q, -, hq⟩ := List.mem_map.mp hs
    rcases List.mem_append.mp hmem with hmem | hmem
    · exact q.2.2 (hq ▸ hmem)
    · exact absurd (List.mem_singleton.mp hmem) (by decide)
  unfold getRomVersionFromFdt
  dsimp only
  by_cases hempty : flat 0 (strings L) = []
  · have hnil : L = [] := by
      cases L with
      | nil => rfl
      | cons s L => exact absurd (congrArg List.length hempty) (by simp [strings])
    rw [if_pos hempty, hnil]
    rfl
  · have hwalk := walkStrings_seen socs [] hclean (maxStrlen - 1)
      (storedLine (flat 0 (strings L))).length (by
        rw [storedLine, piece_of_not_mem hline, List.length_append]
        exact Nat.lt_succ_self _)
    rw [if_neg hempty]
    rw [List.nil_append, List.length_nil, Nat.zero_add] at hwalk
    have hline : storedLine (flat 0 (strings L)) =
        (flat 0 (strings L)).take (maxStrlen - 1) ++ [0] := by
      rw [storedLine, piece_of_not_mem hline]
    rw [← hline] at hwalk
    exact hwalk

/-- The function does what it is for just when the strings that it sees lead to
the same configuration as all of them, and it does not come to the end of a
string that has been cut. -/
theorem getRomVersionFromFdt_detects_iff (L : List PropertyString) :
    Detects socs L (getRomVersionFromFdt socs (some (flat 0 (strings L))) none) ↔
      (seenOf L).1.findSome? (accepted socs) = (strings L).findSome? (supported socs) ∧
        ((seenOf L).1.findSome? (accepted socs) = none → (seenOf L).2 = false) := by
  rw [getRomVersionFromFdt_eq, Detects]
  unfold judge
  dsimp only
  cases hseen : (seenOf L).1.findSome? (accepted socs) with
  | some plat =>
    cases hall : (strings L).findSome? (supported socs) with
    | some plat' =>
      refine ⟨fun h => ⟨?_, nofun⟩, fun h => ?_⟩
      · injection h with h
        injection h
      · rw [Option.some.inj h.1]
    | none => exact iff_of_false nofun fun h => absurd h.1 nofun
  | none =>
    cases hall : (strings L).findSome? (supported socs) with
    | some plat =>
      refine iff_of_false ?_ fun h => absurd h.1 nofun
      cases (seenOf L).2 <;> nofun
    | none =>
      cases hcut : (seenOf L).2 with
      | false => exact iff_of_true rfl ⟨rfl, fun _ => rfl⟩
      | true => exact iff_of_false nofun fun h => absurd (h.2 rfl) nofun

/-- A property that fits into the buffer and has no empty string is seen as a
whole. -/
theorem seen_all {room : ℕ} {L : List Bytes} (hne : ∀ s ∈ L, s ≠ [])
    (hfits : (flat 0 L).length ≤ room) : seen room L = (L, false) := by
  induction L generalizing room with
  | nil => rfl
  | cons s L ih =>
    rw [flat_cons, List.length_append, List.length_cons] at hfits
    have hs : ¬ (s = [] ∨ room = 0) := not_or.mpr ⟨hne s (List.mem_cons_self ..), by omega⟩
    rw [seen, if_neg hs, if_pos (by omega),
      ih (fun q hq => hne q (List.mem_cons_of_mem _ hq)) (by omega)]

theorem findSome?_congr_mem {f g : Bytes → Option Plat} {L : List Bytes}
    (h : ∀ s ∈ L, f s = g s) : L.findSome? f = L.findSome? g := by
  induction L with
  | nil => rfl
  | cons s L ih =>
    rw [List.findSome?_cons, List.findSome?_cons, h s (List.mem_cons_self ..),
      ih fun q hq => h q (List.mem_cons_of_mem _ hq)]

/-- A model that is not one of the numbers of the i.MX6. -/
def NotMx6Number (rev : Bytes) : Prop :=
  strtoul16 rev ≠ socs.mx6 ∧ strtoul16 rev ≠ socs.mx6q ∧ strtoul16 rev ≠ socs.mx6dl

/-- The `switch` takes the models that are supported, and the numbers of the
i.MX6 besides. -/
theorem accepted_eq_supported {s : Bytes} (h : NotMx6Number socs (s.drop compatible.length)) :
    accepted socs s = supported socs s := by
  unfold accepted supported
  split
  · obtain ⟨h6, h6q, h6dl⟩ := h
    have hdistinct := socs.distinct
    simp only [List.nodup_cons, List.mem_cons, List.not_mem_nil, not_or, or_false] at hdistinct
    unfold systemRev modelConfig configFor
    grind
  · rfl

/-- On a property that fits the buffer, without empty strings and numbers of
the i.MX6, the function does what it is for. -/
theorem getRomVersionFromFdt_fits {L : List PropertyString} (hne : ∀ s ∈ strings L, s ≠ [])
    (hfits : (flat 0 (strings L)).length ≤ maxStrlen - 1)
    (hmodels : ∀ s ∈ strings L, NotMx6Number socs (s.drop compatible.length)) :
    Detects socs L (getRomVersionFromFdt socs (some (flat 0 (strings L))) none) := by
  have hseen : seenOf L = (strings L, false) := seen_all hne hfits
  have hsame : (strings L).findSome? (accepted socs) = (strings L).findSome? (supported socs) :=
    findSome?_congr_mem fun s hs => accepted_eq_supported socs (hmodels s hs)
  rw [getRomVersionFromFdt_detects_iff, hseen]
  exact ⟨hsame, fun _ => rfl⟩

/-- The boot ROM is found in the device tree: `/proc/cpuinfo` is not asked. -/
theorem discoverBootRomVersion_found {content : Option Bytes} {plat : Plat}
    {getRomVersionFromCpuinfo : Option Plat → Detection}
    (h : getRomVersionFromFdt socs content none = .ok ⟨0, some plat⟩) :
    discoverBootRomVersion socs content getRomVersionFromCpuinfo none = .ok ⟨0, some plat⟩ := by
  rw [discoverBootRomVersion, h]
  rfl

end Results

/-- Numbers of the processors. -/
def someSocs : Socs where
  mx23 := 0x23
  mx28 := 0x28
  mx50 := 0x50
  mx53 := 0x53
  mx6 := 0x60
  mx6q := 0x63
  mx6dl := 0x61
  distinct := by decide

/-- A property with one string of so many letters. -/
def letters (n : ℕ) : List PropertyString :=
  [⟨List.replicate n 97, fun h => absurd (List.eq_of_mem_replicate h) (by decide),
    fun h => absurd (List.eq_of_mem_replicate h) (by decide)⟩]

set_option maxRecDepth 4000 in
/-- A property of 255 letters: the byte behind the buffer is read. -/
theorem getRomVersionFromFdt_behind :
    getRomVersionFromFdt someSocs (some (flat 0 (strings (letters 255)))) none =
        .error (.read 256) ∧
      ¬ Detects someSocs (letters 255)
        (getRomVersionFromFdt someSocs (some (flat 0 (strings (letters 255)))) none) := by
  have hread : getRomVersionFromFdt someSocs (some (flat 0 (strings (letters 255)))) none =
      .error (.read 256) := by
    rw [getRomVersionFromFdt_eq]
    rfl
  refine ⟨hread, ?_⟩
  rw [hread, Detects]
  split <;> nofun

end MetaDigi.KobsFdt
