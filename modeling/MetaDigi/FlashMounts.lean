import MetaDigi.FlashDevice
import MetaDigi.FlashMain

/-!
# The mounts of a partition

`GetRootDevice` takes the text behind the first "root=" of the kernel command
line. That is the value of the token for the root device only for some command
lines. When it is, every mount of a partition has been dealt with once
`MtdPartRemountAllReadOnly` has returned.
-/

namespace MetaDigi.FlashMounts

open CStrings SystemProgram SystemRuns FlashTypes FlashInit FlashTransfer FlashMain FlashWorld
open FlashDevice

section CommandLine

/-- The name of the token for the root device, with the sign behind it. -/
def rootKey : Bytes := text "root="

/-- The kernel command line as it is read, with its tokens. -/
def cmdLineOf (tokens : List Bytes) : Bytes := [32].intercalate tokens ++ [10]

/-- A token holds no separator, no newline and no NUL. -/
def Clean (t : Bytes) : Prop := (32 : UInt8) ∉ t ∧ (10 : UInt8) ∉ t ∧ (0 : UInt8) ∉ t

/-- The value of the token that starts with "root=", or nothing. -/
def rootValue (tokens : List Bytes) : Bytes :=
  ((tokens.find? fun t => rootKey <+: t).map fun t => t.drop 5).getD []

/-- The first token in which "root=" occurs: where it does, the text behind it
in the token, and the tokens behind that. -/
def firstRoot : List Bytes → Option (ℕ × Bytes × List Bytes)
  | [] => none
  | t :: ts =>
    match strstr rootKey t with
    | some j => some (j, t.drop (j + 5), ts)
    | none => firstRoot ts

/-- What follows the text behind "root=" in memory, up to the terminator. -/
def behind (after : List Bytes) (junk : Bytes) : Bytes :=
  if after = [] then 10 :: junk else 32 :: ([32].intercalate after ++ 10 :: junk)

/-- The text behind the first "root=" of a string. -/
def rootText (szCmdLine : Bytes) : Option Bytes :=
  (strstr rootKey szCmdLine).map fun i => szCmdLine.drop (i + 5)

/-- The text behind the first "root=" of a part, with what follows the part. -/
theorem drop_behind {t rest : Bytes} {j : ℕ} (h : strstr rootKey t = some j) :
    (t ++ rest).drop (j + 5) = t.drop (j + 5) ++ rest :=
  List.drop_append_of_le_length (strstr_le h)

/-- The first "root=" of a command line is that of its first token with one. -/
theorem rootText_tokens (tokens : List Bytes) {junk : Bytes} (hjunk : junk.length ≤ 1) :
    rootText ([32].intercalate tokens ++ 10 :: junk) =
      (firstRoot tokens).map fun r => r.2.1 ++ behind r.2.2 junk := by
  have hne : rootKey ≠ [] := by decide
  have hshort : ∀ s : Bytes, s.length ≤ 2 → strstr rootKey s = none := fun s hs =>
    strstr_short (Nat.lt_of_le_of_lt hs (by decide))
  induction tokens with
  | nil =>
    rw [List.intercalate_nil, List.nil_append, rootText, hshort _ (by rw [List.length_cons]; omega)]
    rfl
  | cons t ts ih =>
    cases ts with
    | nil =>
      rw [List.intercalate_singleton, rootText, strstr_append_sep hne (by decide),
        hshort junk (by omega), Option.map_none, Option.or_none, firstRoot]
      cases hj : strstr rootKey t with
      | none => rfl
      | some j =>
        rw [Option.map_some, drop_behind hj]
        rfl
    | cons t' ts =>
      have hjoin : [32].intercalate (t :: t' :: ts) ++ 10 :: junk =
          t ++ 32 :: ([32].intercalate (t' :: ts) ++ 10 :: junk) := by
        rw [List.intercalate_cons_cons]
        simp only [List.append_assoc, List.cons_append, List.nil_append]
      rw [hjoin, rootText, strstr_append_sep hne (by decide), firstRoot]
      cases hj : strstr rootKey t with
      | none =>
        rw [Option.none_or, ← ih, rootText, Option.map_map]
        congr 1
        funext i
        rw [Function.comp_apply, List.drop_append, List.drop_of_length_le (by omega),
          List.nil_append]
        have hshift : t.length + 1 + i + 5 - t.length = i + 5 + 1 := by omega
        rw [hshift, List.drop_succ_cons]
      | some j =>
        rw [Option.some_or, Option.map_some, drop_behind hj]
        rfl

/-- The text behind "root=" is that of its token when it starts there. -/
theorem rootValue_first {tokens after : List Bytes} {value : Bytes}
    (h : firstRoot tokens = some (0, value, after)) : rootValue tokens = value := by
  induction tokens with
  | nil => exact absurd h nofun
  | cons t ts ih =>
    rw [firstRoot] at h
    rw [rootValue, List.find?_cons]
    cases hj : strstr rootKey t with
    | none =>
      rw [hj] at h
      have hstart : ¬ rootKey <+: t := fun hpre => by
        rw [(strstr_eq_zero_iff _ _).mpr hpre] at hj
        exact absurd hj nofun
      rw [decide_eq_false hstart]
      exact ih h
    | some j =>
      rw [hj] at h
      cases h
      rw [decide_eq_true ((strstr_eq_zero_iff _ _).mp hj)]
      rfl

/-- Without "root=" there is no token for the root device. -/
theorem rootValue_none {tokens : List Bytes} (h : firstRoot tokens = none) :
    rootValue tokens = [] := by
  induction tokens with
  | nil => rfl
  | cons t ts ih =>
    rw [firstRoot] at h
    rw [rootValue, List.find?_cons]
    cases hj : strstr rootKey t with
    | none =>
      rw [hj] at h
      have hstart : ¬ rootKey <+: t := fun hpre => by
        rw [(strstr_eq_zero_iff _ _).mpr hpre] at hj
        exact absurd hj nofun
      rw [decide_eq_false hstart]
      exact ih h
    | some j =>
      rw [hj] at h
      exact absurd h nofun

/-- What is found lies in the tokens. -/
theorem firstRoot_clean {tokens after : List Bytes} {j : ℕ} {value : Bytes}
    (hclean : ∀ t ∈ tokens, Clean t) (h : firstRoot tokens = some (j, value, after)) :
    Clean value := by
  induction tokens with
  | nil => exact absurd h nofun
  | cons t ts ih =>
    rw [firstRoot] at h
    cases hj : strstr rootKey t with
    | none =>
      rw [hj] at h
      exact ih (fun s hs => hclean s (List.mem_cons_of_mem _ hs)) h
    | some i =>
      rw [hj] at h
      cases h
      obtain ⟨hspace, hline, hnul⟩ := hclean t (List.mem_cons_self ..)
      exact ⟨fun hm => hspace (List.mem_of_mem_drop hm), fun hm => hline (List.mem_of_mem_drop hm),
        fun hm => hnul (List.mem_of_mem_drop hm)⟩

/-- The value lies in the tokens. -/
theorem rootValue_clean {tokens : List Bytes} (hclean : ∀ t ∈ tokens, Clean t) :
    Clean (rootValue tokens) := by
  unfold rootValue
  cases hfind : tokens.find? fun t => rootKey <+: t with
  | none => exact ⟨List.not_mem_nil, List.not_mem_nil, List.not_mem_nil⟩
  | some t =>
    obtain ⟨hspace, hline, hnul⟩ := hclean t (List.mem_of_find?_eq_some hfind)
    exact ⟨fun hm => hspace (List.mem_of_mem_drop hm), fun hm => hline (List.mem_of_mem_drop hm),
      fun hm => hnul (List.mem_of_mem_drop hm)⟩

/-- A command line holds no NUL. -/
theorem cmdLineOf_clean {tokens : List Bytes} (hclean : ∀ t ∈ tokens, Clean t) :
    (0 : UInt8) ∉ cmdLineOf tokens := by
  intro hmem
  rcases List.mem_append.mp hmem with hmem | hmem
  · induction tokens with
    | nil => exact List.not_mem_nil hmem
    | cons t ts ih =>
      have ht := (hclean t (List.mem_cons_self ..)).2.2
      cases ts with
      | nil =>
        rw [List.intercalate_singleton] at hmem
        exact ht hmem
      | cons t' ts =>
        rw [List.intercalate_cons_cons] at hmem
        rcases List.mem_append.mp hmem with hmem | hmem
        · rcases List.mem_append.mp hmem with hmem | hmem
          · exact ht hmem
          · exact absurd (List.mem_singleton.mp hmem) (by decide)
        · exact ih (fun s hs => hclean s (List.mem_cons_of_mem _ hs))
            (List.mem_append_left _ hmem) hmem
  · exact absurd (List.mem_singleton.mp hmem) (by decide)

end CommandLine

section RootDevice

/-- The array holds a string when that is what is in front of its first NUL. -/
theorem storesString_iff {cells s : Bytes} (hs : (0 : UInt8) ∉ s) :
    storesString cells s = true ↔ cells.takeWhile (· ≠ 0) = s ∧ (0 : UInt8) ∈ cells := by
  rw [storesString, List.isPrefixOf_iff_prefix]
  have hclean : ∀ c ∈ s, decide (c ≠ 0) = true := fun c hc =>
    decide_eq_true fun hzero => hs (hzero ▸ hc)
  constructor
  · rintro ⟨rest, hrest⟩
    rw [← hrest]
    constructor
    · rw [List.append_assoc, List.takeWhile_append_of_pos hclean, List.singleton_append,
        List.takeWhile_cons_of_neg (by decide), List.append_nil]
    · exact List.mem_append_left _ (List.mem_append_right _ (List.mem_singleton_self 0))
  · rintro ⟨htake, hzero⟩
    have hsplit := List.takeWhile_append_dropWhile (p := fun c : UInt8 => decide (c ≠ 0)) (l := cells)
    rw [htake] at hsplit
    cases hdrop : cells.dropWhile (fun c => decide (c ≠ 0)) with
    | nil =>
      rw [hdrop, List.append_nil] at hsplit
      exact absurd (hsplit ▸ hzero) hs
    | cons c rest =>
      have hc := List.head?_dropWhile_not (fun c : UInt8 => decide (c ≠ 0)) cells
      rw [hdrop, List.head?_cons] at hc
      have hend : c = 0 := not_not.mp (of_decide_eq_false hc)
      rw [hdrop, hend] at hsplit
      exact ⟨rest, by rw [List.append_assoc, List.singleton_append, hsplit]⟩

/-- A string array holds one string. -/
theorem storesString_unique {cells s s' : Bytes} (hs : (0 : UInt8) ∉ s) (hs' : (0 : UInt8) ∉ s')
    (h : storesString cells s = true) (h' : storesString cells s' = true) : s = s' := by
  rw [← ((storesString_iff hs).mp h).1, ← ((storesString_iff hs').mp h').1]

/-- `strncpy` to the empty array stores a string just when it is short. -/
theorem storesString_strncpy {szDev s : Bytes} {n : ℕ} (hdev : (0 : UInt8) ∉ szDev)
    (hs : (0 : UInt8) ∉ s) (hn : n ≤ szDev.length) :
    storesString (strncpyRootDev noRootDev szDev n).1 s = true ↔
      szDev.take n = s ∧ n ≤ 31 := by
  have hlen : (szDev.take (min 32 n)).length = min 32 n := by
    rw [List.length_take]
    omega
  have hcells : (strncpyRootDev noRootDev szDev n).1 =
      szDev.take (min 32 n) ++ List.replicate (32 - min 32 n) 0 := by
    dsimp only [strncpyRootDev, noRootDev]
    rw [hlen, List.drop_replicate]
  have hclean : ∀ c ∈ szDev.take (min 32 n), decide (c ≠ 0) = true := fun c hc =>
    decide_eq_true fun hzero => hdev (hzero ▸ List.mem_of_mem_take hc)
  have hnone : (List.replicate (32 - min 32 n) (0 : UInt8)).takeWhile
      (fun c => decide (c ≠ 0)) = [] := by
    cases 32 - min 32 n with
    | zero => rfl
    | succ k => rfl
  rw [storesString_iff hs, hcells, List.takeWhile_append_of_pos hclean, hnone, List.append_nil,
    List.mem_append]
  constructor
  · rintro ⟨htake, hzero⟩
    rcases hzero with hzero | hzero
    · exact absurd (List.mem_of_mem_take hzero) hdev
    · have hroom := (List.mem_replicate.mp hzero).1
      have hmin : min 32 n = n := by omega
      rw [hmin] at htake
      exact ⟨htake, by omega⟩
  · rintro ⟨htake, hshort⟩
    have hmin : min 32 n = n := by omega
    rw [hmin]
    exact ⟨htake, .inr (List.mem_replicate.mpr ⟨by omega, rfl⟩)⟩

/-- The command line in memory, once it has been terminated: one byte behind
what has been read is left as it was. -/
theorem terminateCmdLine_eq (cells : Cells 1024) {line : Bytes} (hclean : (0 : UInt8) ∉ line)
    (hlen : line.length ≤ 1022) :
    ∃ junk, junk.length ≤ 1 ∧ (0 : UInt8) ∉ junk ∧
      terminateCmdLine cells.1 line = line ++ junk := by
  have hcells := cells.2
  obtain ⟨c, d, rest, hrest⟩ : ∃ c d rest, cells.1.drop line.length = c :: d :: rest := by
    match h : cells.1.drop line.length with
    | [] =>
      have hzero := congrArg List.length h
      rw [List.length_drop, List.length_nil] at hzero
      omega
    | [c] =>
      have hone := congrArg List.length h
      rw [List.length_drop, List.length_singleton] at hone
      omega
    | c :: d :: rest => exact ⟨c, d, rest, rfl⟩
  have hset : (fillBuffer cells.1 line).set (line.length + 1) 0 = line ++ c :: 0 :: rest := by
    rw [fillBuffer, hrest, List.set_append_right _ _ (by omega), Nat.add_sub_cancel_left]
    rfl
  have hbytes : ∀ b ∈ line, decide (b ≠ 0) = true := fun b hb =>
    decide_eq_true fun hzero => hclean (hzero ▸ hb)
  unfold terminateCmdLine
  rw [hset, List.takeWhile_append_of_pos hbytes]
  by_cases hc : c = 0
  · refine ⟨[], Nat.zero_le _, List.not_mem_nil, ?_⟩
    rw [List.takeWhile_cons_of_neg (by rw [hc]; decide)]
  · refine ⟨[c], Nat.le_refl _, fun hm => hc (List.mem_singleton.mp hm).symm, ?_⟩
    rw [List.takeWhile_cons_of_pos (by exact decide_eq_true hc),
      List.takeWhile_cons_of_neg (by decide)]

/-- When the root device is found: "root=" does not occur, or the first token
in which it occurs is followed by another one and starts with it, and its text
is short. Where "root=" stands inside the token, the text behind it has to be
the value by chance. -/
def RootRead (tokens : List Bytes) : Prop :=
  match firstRoot tokens with
  | none => True
  | some (j, value, after) => after ≠ [] ∧ value.length ≤ 31 ∧ (j = 0 ∨ value = rootValue tokens)

/-- The second part of `GetRootDevice` copies the text behind "root=". -/
theorem scanRootDevice_eq (szCmdLine : Bytes) (szRootDev : RootDev) :
    scanRootDevice szCmdLine szRootDev =
      match rootText szCmdLine with
      | none => szRootDev
      | some szDev => strncpyRootDev szRootDev szDev ((strchr szDev 32).getD szDev.length) := by
  unfold scanRootDevice rootText rootKey
  cases strstr (text "root=") szCmdLine <;> rfl

/-- A value that ends the line is copied with the newline. -/
theorem newline_copied {value junk : Bytes} (hspace : (32 : UInt8) ∉ value) :
    (10 : UInt8) ∈ (value ++ 10 :: junk).take
      ((strchr (value ++ 10 :: junk) 32).getD (value ++ 10 :: junk).length) := by
  have hlong : value.length < (strchr (value ++ 10 :: junk) 32).getD
      (value ++ 10 :: junk).length := by
    cases hchr : strchr (value ++ 10 :: junk) 32 with
    | none =>
      rw [Option.getD_none, List.length_append, List.length_cons]
      omega
    | some i =>
      obtain ⟨hi, hat, -⟩ := List.findIdx?_eq_some_iff_getElem.mp hchr
      have hbyte := of_decide_eq_true hat
      rw [Option.getD_some]
      by_contra hle
      rcases Nat.lt_or_ge i value.length with hlt | hge
      · rw [List.getElem_append_left hlt] at hbyte
        exact hspace (hbyte ▸ List.getElem_mem hlt)
      · have heq : i = value.length := by omega
        subst heq
        rw [List.getElem_append_right (Nat.le_refl _)] at hbyte
        simp only [Nat.sub_self, List.getElem_cons_zero] at hbyte
        exact absurd hbyte (by decide)
  refine List.mem_iff_getElem?.mpr ⟨value.length, ?_⟩
  rw [List.getElem?_take_of_lt hlong, List.getElem?_append_right (Nat.le_refl _), Nat.sub_self,
    List.getElem?_cons_zero]

/-- The array holds the value of the token for the root device just when that
is found. -/
theorem scan_stores_iff {tokens : List Bytes} (hclean : ∀ t ∈ tokens, Clean t) {junk : Bytes}
    (hjunk : junk.length ≤ 1) (hnul : (0 : UInt8) ∉ junk) :
    storesString (scanRootDevice (cmdLineOf tokens ++ junk) noRootDev).1 (rootValue tokens) =
      true ↔ RootRead tokens := by
  have hline : cmdLineOf tokens ++ junk = [32].intercalate tokens ++ 10 :: junk := by
    rw [cmdLineOf, List.append_assoc, List.singleton_append]
  have htext := rootText_tokens tokens hjunk
  rw [← hline] at htext
  rw [scanRootDevice_eq, htext, RootRead]
  cases hroot : firstRoot tokens with
  | none =>
    rw [rootValue_none hroot]
    exact ⟨fun _ => trivial, fun _ => rfl⟩
  | some r =>
    obtain ⟨j, value, after⟩ := r
    rw [hroot] at htext
    have hdev : (0 : UInt8) ∉ value ++ behind after junk := by
      obtain ⟨i, -, hi⟩ := Option.map_eq_some_iff.mp htext
      intro hmem
      dsimp only at hi
      rw [← hi] at hmem
      rcases List.mem_append.mp (List.mem_of_mem_drop hmem) with h | h
      · exact cmdLineOf_clean hclean h
      · exact hnul h
    obtain ⟨hspace, -, -⟩ := firstRoot_clean hclean hroot
    obtain ⟨-, hnewline, hvalue⟩ := rootValue_clean hclean
    dsimp only [Option.map_some]
    have hn : (strchr (value ++ behind after junk) 32).getD (value ++ behind after junk).length ≤
        (value ++ behind after junk).length := by
      cases hchr : strchr (value ++ behind after junk) 32 with
      | none => exact Nat.le_refl _
      | some i => exact Nat.le_of_lt (List.findIdx?_eq_some_iff_getElem.mp hchr).1
    rw [storesString_strncpy hdev hvalue hn]
    by_cases hafter : after = []
    · have hbehind : behind after junk = 10 :: junk := if_pos hafter
      rw [hbehind]
      constructor
      · rintro ⟨htake, -⟩
        exact absurd (htake ▸ newline_copied hspace) hnewline
      · exact fun h => absurd hafter h.1
    · have hbehind : behind after junk = 32 :: ([32].intercalate after ++ 10 :: junk) :=
        if_neg hafter
      rw [hbehind, strchr_append hspace, Option.getD_some, List.take_left]
      constructor
      · rintro ⟨htake, hshort⟩
        exact ⟨hafter, hshort, .inr htake⟩
      · rintro ⟨-, hshort, hstart | hsame⟩
        · rw [hstart] at hroot
          exact ⟨(rootValue_first hroot).symm, hshort⟩
        · exact ⟨hsame, hshort⟩

/-- An empty value leaves the array as it is. -/
theorem scan_empty {tokens : List Bytes} (hclean : ∀ t ∈ tokens, Clean t) {junk : Bytes}
    (hjunk : junk.length ≤ 1) (hread : RootRead tokens) (hvalue : rootValue tokens = [])
    (szRootDev : RootDev) :
    scanRootDevice (cmdLineOf tokens ++ junk) szRootDev = szRootDev := by
  have hline : cmdLineOf tokens ++ junk = [32].intercalate tokens ++ 10 :: junk := by
    rw [cmdLineOf, List.append_assoc, List.singleton_append]
  rw [RootRead] at hread
  rw [scanRootDevice_eq, hline, rootText_tokens tokens hjunk]
  cases hroot : firstRoot tokens with
  | none => rfl
  | some r =>
    obtain ⟨j, value, after⟩ := r
    rw [hroot] at hread
    obtain ⟨hafter, -, hsame⟩ := hread
    obtain ⟨hspace, -, -⟩ := firstRoot_clean hclean hroot
    have hnone : value = [] := by
      rcases hsame with hstart | hsame
      · rw [hstart] at hroot
        rw [← rootValue_first hroot, hvalue]
      · rw [hsame, hvalue]
    have hbehind : behind after junk = 32 :: ([32].intercalate after ++ 10 :: junk) :=
      if_neg hafter
    dsimp only [Option.map_some]
    rw [hbehind, strchr_append hspace, Option.getD_some, hnone]
    exact Subtype.ext (by
      dsimp only [strncpyRootDev]
      rw [List.length_nil, Nat.min_zero, List.take_zero, List.length_nil, List.drop_zero,
        List.nil_append])

end RootDevice

section Runs

variable {env : Env} {w w' : World} {szRootDev r : RootDev}

/-- A run of `GetRootDevice` looks at the command line, unless the root device
is known. It unmounts nothing. -/
theorem getRootDevice_inv (hclean : (0 : UInt8) ∉ env.cmdLine) (hlen : env.cmdLine.length ≤ 1022)
    (hrun : Ends (system env) (getRootDevice szRootDev) w (.ret r) w') :
    ((szRootDev.1.head? ≠ some 0 ∧ r = szRootDev) ∨
      (szRootDev.1.head? = some 0 ∧ ∃ junk, junk.length ≤ 1 ∧ (0 : UInt8) ∉ junk ∧
        r = scanRootDevice (env.cmdLine ++ junk) szRootDev)) ∧
      w'.released = w.released := by
  unfold getRootDevice at hrun
  split at hrun
  · rename_i hknown
    obtain ⟨hr, hw'⟩ := hrun.pure_inv
    exact ⟨.inl ⟨hknown, hr⟩, by rw [hw']⟩
  · rename_i hunknown
    obtain ⟨cells, w₁, harray, hrun⟩ := Ends.split hrun
    obtain ⟨_, w₂, hopen, hrun⟩ := Ends.split hrun
    obtain ⟨bytes, w₃, hread, hrun⟩ := Ends.split hrun
    obtain ⟨_, w₄, hclose, hrun⟩ := Ends.split hrun
    obtain ⟨hr, hw'⟩ := hrun.pure_inv
    obtain ⟨-, hw₁⟩ := harray.perform_inv
    obtain ⟨-, hw₂⟩ := sysOrFail_inv hopen
    obtain ⟨hanswer, hw₃⟩ := sysOrFail_inv hread
    obtain ⟨-, hw₄⟩ := sysOrFail_inv hclose
    have hproc : w₂.proc = env.cmdLine := by rw [hw₂]; rfl
    have hbytes : bytes.1 = env.cmdLine := by
      dsimp only [system, respond, id] at hanswer
      split at hanswer
      · exact absurd hanswer nofun
      · have htaken : (w₂.enter env).proc.take 1022 = env.cmdLine := by
          have henter : (w₂.enter env).proc = w₂.proc := rfl
          rw [henter, hproc, List.take_of_length_le hlen]
        rw [← Option.some.inj hanswer]
        exact htaken
    obtain ⟨junk, hjunk, hnul, hline⟩ := terminateCmdLine_eq cells hclean hlen
    refine ⟨.inr ⟨not_not.mp hunknown, junk, hjunk, hnul, ?_⟩, ?_⟩
    · rw [hr, hbytes, hline]
    · rw [hw', hw₄, hw₃, hw₂, hw₁]
      rfl

/-- An array that is empty or holds the value of the token. -/
def Current (tokens : List Bytes) (szRootDev : RootDev) : Prop :=
  szRootDev = noRootDev ∨ storesString szRootDev.1 (rootValue tokens) = true

variable {tokens : List Bytes} (hclean : ∀ t ∈ tokens, Clean t)
  (hlen : (cmdLineOf tokens).length ≤ 1022) (hline : env.cmdLine = cmdLineOf tokens)

include hclean hlen hline

/-- What `GetRootDevice` answers is the value of the token, when that is
found. -/
theorem getRootDevice_stores (hread : RootRead tokens) (hcurrent : Current tokens szRootDev)
    (hrun : Ends (system env) (getRootDevice szRootDev) w (.ret r) w') :
    storesString r.1 (rootValue tokens) = true := by
  obtain ⟨hcases, -⟩ := getRootDevice_inv (by rw [hline]; exact cmdLineOf_clean hclean)
    (by rw [hline]; exact hlen) hrun
  have hvalue := (rootValue_clean hclean).2.2
  rcases hcases with ⟨hknown, hr⟩ | ⟨hempty, junk, hjunk, hnul, hr⟩
  · rw [hr]
    rcases hcurrent with hnone | hstores
    · rw [hnone] at hknown
      exact absurd rfl hknown
    · exact hstores
  · rw [hline] at hr
    rcases hcurrent with hnone | hstores
    · rw [hr, hnone]
      exact (scan_stores_iff hclean hjunk hnul).mpr hread
    · obtain ⟨rest, hrest⟩ := List.head?_eq_some_iff.mp hempty
      have hnothing : storesString szRootDev.1 [] = true := by rw [hrest]; rfl
      have hzero := storesString_unique hvalue List.not_mem_nil hstores hnothing
      rw [hr, scan_empty hclean hjunk hread hzero]
      exact hstores

end Runs

section Mounts

variable {env : Env} {w w' : World}

/-- A mount has been unmounted or remounted read-only by one of some calls. -/
def Released (ent : MntEnt) (calls : List (Op × Bool)) : Prop :=
  (.umount ent.mnt_dir, true) ∈ calls ∨ (.remountReadOnly ent.mnt_fsname ent.mnt_dir, true) ∈ calls

/-- A call for a mount. -/
def IsFor (ent : MntEnt) (call : Op × Bool) : Prop :=
  call.1 = .umount ent.mnt_dir ∨ call.1 = .remountReadOnly ent.mnt_fsname ent.mnt_dir

/-- The mounts of a kind have been dealt with, and no others. -/
structure Dealt (OfKind : MntEnt → Prop) (mounts : List MntEnt) (calls : List (Op × Bool)) :
    Prop where
  /-- Every mount of the kind has been released. -/
  released : ∀ ent ∈ mounts, OfKind ent → Released ent calls
  /-- Every call is for a mount of the kind. -/
  untouched : ∀ call ∈ calls, ∃ ent ∈ mounts, OfKind ent ∧ IsFor ent call

theorem Dealt.append {OfKind : MntEnt → Prop} {mounts mounts' : List MntEnt}
    {calls calls' : List (Op × Bool)} (h : Dealt OfKind mounts calls)
    (h' : Dealt OfKind mounts' calls') : Dealt OfKind (mounts ++ mounts') (calls ++ calls') where
  released ent hent hkind := by
    rcases List.mem_append.mp hent with hent | hent
    · exact (h.released ent hent hkind).imp (List.mem_append_left _) (List.mem_append_left _)
    · exact (h'.released ent hent hkind).imp (List.mem_append_right _) (List.mem_append_right _)
  untouched call hcall := by
    rcases List.mem_append.mp hcall with hcall | hcall
    · obtain ⟨ent, hent, hfor⟩ := h.untouched call hcall
      exact ⟨ent, List.mem_append_left _ hent, hfor⟩
    · obtain ⟨ent, hent, hfor⟩ := h'.untouched call hcall
      exact ⟨ent, List.mem_append_right _ hent, hfor⟩

/-- A mount of a partition, as `MtdPartRemountAllReadOnly` sees it. -/
def Matches (szRootDev : RootDev) (acMtdBlock : Bytes) (ent : MntEnt) : Prop :=
  (ent.mnt_fsname = text "/dev/root" ∧ storesString szRootDev.1 acMtdBlock = true) ∨
    ent.mnt_fsname = acMtdBlock

/-- A remount that returns has been made. -/
theorem remountReadOnly_inv {ent : MntEnt} {u : Unit}
    (hrun : Ends (system env) (FlashMain.remountReadOnly ent) w (.ret u) w') :
    w'.mounts = w.mounts ∧
      w'.released = w.released ++ [(.remountReadOnly ent.mnt_fsname ent.mnt_dir, true)] := by
  obtain ⟨reply, w₁, hcall, hrun⟩ := Ends.split hrun
  obtain ⟨hreply, hw₁⟩ := hcall.perform_inv
  cases hfails : env.fails w.time (.remountReadOnly ent.mnt_fsname ent.mnt_dir) with
  | true =>
    have hfailed : reply = .failed := by
      rw [hreply]
      dsimp only [system, respond]
      rw [hfails]
      rfl
    rw [hfailed] at hrun
    exact hrun.exit_inv.elim
  | false =>
    have hok : reply = .ok := by
      rw [hreply]
      dsimp only [system, respond]
      rw [hfails]
      rfl
    rw [hok] at hrun
    obtain ⟨-, hw'⟩ := hrun.pure_inv
    rw [hw', hw₁]
    dsimp only [system, respond]
    rw [hfails]
    exact ⟨rfl, rfl⟩

/-- What is done with one line of the mount table. -/
theorem releaseMount_inv {szRootDev : RootDev} {acMtdBlock : Bytes} {ent : MntEnt} {u : Unit}
    (hrun : Ends (system env) (releaseMount szRootDev acMtdBlock ent) w (.ret u) w') :
    w'.mounts = w.mounts ∧ ∃ calls, w'.released = w.released ++ calls ∧
      Dealt (Matches szRootDev acMtdBlock) [ent] calls := by
  have hsingle : ∀ {calls}, Matches szRootDev acMtdBlock ent → Released ent calls →
      (∀ call ∈ calls, IsFor ent call) → Dealt (Matches szRootDev acMtdBlock) [ent] calls :=
    fun hmatch hreleased hfor => ⟨fun e he _ => by rw [List.mem_singleton.mp he]; exact hreleased,
      fun call hcall => ⟨ent, List.mem_singleton_self ent, hmatch, hfor call hcall⟩⟩
  unfold releaseMount at hrun
  dsimp only at hrun
  split at hrun
  · rename_i hroot
    obtain ⟨hmounts, hcalls⟩ := remountReadOnly_inv hrun
    refine ⟨hmounts, _, hcalls, hsingle (.inl hroot)
      (.inr (List.mem_singleton_self _)) fun call hcall => ?_⟩
    rw [List.mem_singleton.mp hcall]
    exact .inr rfl
  · rename_i hroot
    split at hrun
    · rename_i hblock
      obtain ⟨unmounted, w₁, hcall, hrun⟩ := Ends.split hrun
      obtain ⟨hunmounted, hw₁⟩ := hcall.perform_inv
      have hreleased : w₁.released = w.released ++ [(.umount ent.mnt_dir, unmounted)] := by
        rw [hw₁, hunmounted]
        rfl
      have hmounts₁ : w₁.mounts = w.mounts := by
        rw [hw₁]
        rfl
      cases unmounted with
      | true =>
        obtain ⟨-, hw'⟩ := hrun.pure_inv
        rw [hw']
        refine ⟨hmounts₁, _, hreleased, hsingle (.inr hblock)
          (.inl (List.mem_singleton_self _)) fun call hcall => ?_⟩
        rw [List.mem_singleton.mp hcall]
        exact .inl rfl
      | false =>
        obtain ⟨hmounts, hcalls⟩ := remountReadOnly_inv hrun
        rw [hreleased, List.append_assoc] at hcalls
        refine ⟨hmounts.trans hmounts₁, _, hcalls, hsingle (.inr hblock)
          (.inr (List.mem_append_right _ (List.mem_singleton_self _))) fun call hcall => ?_⟩
        rcases List.mem_append.mp hcall with hcall | hcall
        · rw [List.mem_singleton.mp hcall]
          exact .inl rfl
        · rw [List.mem_singleton.mp hcall]
          exact .inr rfl
    · rename_i hblock
      obtain ⟨-, hw'⟩ := hrun.pure_inv
      rw [hw']
      refine ⟨rfl, [], (List.append_nil _).symm, fun e he hmatch => ?_, nofun⟩
      rw [List.mem_singleton.mp he] at hmatch
      rcases hmatch with hmatch | hmatch
      · exact absurd hmatch hroot
      · exact absurd hmatch hblock

/-- The loop over the mount table deals with all of it. -/
theorem remountLoop_inv {szRootDev : RootDev} {acMtdBlock : Bytes} {fuel : ℕ} {u : Unit}
    {mounts : List MntEnt} (hmounts : w.mounts = mounts)
    (hrun : Ends (system env) (Prog.loop (remountPass szRootDev acMtdBlock) fuel ()) w (.ret u)
      w') :
    ∃ calls, w'.released = w.released ++ calls ∧
      Dealt (Matches szRootDev acMtdBlock) mounts calls := by
  refine Ends.loop_invariant
    (I := fun _ v => ∃ done calls, mounts = done ++ v.mounts ∧ v.released = w.released ++ calls ∧
      Dealt (Matches szRootDev acMtdBlock) done calls)
    (Q := fun _ v => ∃ calls, v.released = w.released ++ calls ∧
      Dealt (Matches szRootDev acMtdBlock) mounts calls) ?_
    (by exact ⟨[], [], hmounts.symm, (List.append_nil _).symm, ⟨nofun, nofun⟩⟩) hrun
  rintro _ v ⟨done, calls, hsplit, hreleased, hdealt⟩ step v' hpass
  obtain ⟨line, v₁, hcall, hpass⟩ := Ends.split hpass
  obtain ⟨hline, hv₁⟩ := hcall.perform_inv
  have hhead : line = v.mounts.head? := hline
  have hrest : v₁.mounts = v.mounts.tail ∧ v₁.released = v.released := by
    rw [hv₁]
    exact ⟨rfl, rfl⟩
  cases line with
  | none =>
    obtain ⟨hstep, hv'⟩ := hpass.pure_inv
    have hnil := List.head?_eq_none_iff.mp hhead.symm
    rw [hnil, List.append_nil] at hsplit
    rw [hstep]
    refine ⟨calls, ?_, hsplit ▸ hdealt⟩
    rw [hv', hrest.2, hreleased]
  | some ent =>
    obtain ⟨tail, htail⟩ := List.head?_eq_some_iff.mp hhead.symm
    obtain ⟨_, v₂, hrelease, hpass⟩ := Ends.split hpass
    obtain ⟨hstep, hv'⟩ := hpass.pure_inv
    obtain ⟨hkept, calls', hcalls', hdealt'⟩ := releaseMount_inv hrelease
    rw [hstep, hv']
    refine ⟨done ++ [ent], calls ++ calls', ?_, ?_, hdealt.append hdealt'⟩
    · rw [hkept, hrest.1, hsplit, htail, List.append_assoc]
      rfl
    · rw [hcalls', hrest.2, hreleased, List.append_assoc]

/-- A mount of a partition: of its block device, or of the root device when
the value of the token names the partition. -/
def OfPartition (g : Globals) (uiPartition : ℕ) (value : Bytes) (ent : MntEnt) : Prop :=
  ent.mnt_fsname = mtdBlockName g uiPartition ∨
    (ent.mnt_fsname = text "/dev/root" ∧ value = mtdBlockName g uiPartition)

/-- A number holds no NUL. -/
theorem decimal_clean (n : ℕ) : (0 : UInt8) ∉ decimal n := by
  intro hmem
  obtain ⟨c, hc, hzero⟩ := List.mem_map.mp hmem
  have hdigit : c.isDigit = true := by
    have hdigits : (toString n).toList = Nat.toDigits 10 n := by
      simp only [toString, Nat.repr, String.toList_ofList]
    rw [hdigits] at hc
    exact Nat.isDigit_of_mem_toDigits (by decide) (by decide) hc
  unfold Char.isDigit at hdigit
  rw [Bool.and_eq_true, decide_eq_true_eq, decide_eq_true_eq] at hdigit
  have hlow : 48 ≤ c.toNat := hdigit.1
  have hhigh : c.toNat ≤ 57 := hdigit.2
  have hbyte := congrArg UInt8.toNat hzero
  rw [UInt8.toNat_ofNat', UInt8.toNat_zero] at hbyte
  omega

/-- What one partition has to be asked for: `GetRootDevice` answers the value
of the token for the root device, and `MtdPartRemountAllReadOnly` deals with
the mounts of the partition and no others. -/
def MountsHandled (tokens : List Bytes) : Prop :=
  ∀ env : Env, env.cmdLine = cmdLineOf tokens → ∀ szRootDev, Current tokens szRootDev →
    (∀ r w w', Ends (system env) (getRootDevice szRootDev) w (.ret r) w' →
      storesString r.1 (rootValue tokens) = true) ∧
    ∀ g : Globals, (0 : UInt8) ∉ g.szMtdBlockPrefix → ∀ pMtd, pMtd.cAlreadyRemounted = false →
      ∀ r q w w', Ends (system env) (mtdPartRemountAllReadOnly g szRootDev pMtd) w
        (.ret (r, q)) w' →
      ∃ calls, w'.released = w.released ++ calls ∧
        Dealt (OfPartition g pMtd.uiPartition (rootValue tokens)) env.mounts calls

variable {tokens : List Bytes} (hclean : ∀ t ∈ tokens, Clean t)
  (hlen : (cmdLineOf tokens).length ≤ 1022)

include hclean hlen

/-- When the root device is found, the mounts of a partition are dealt with. -/
theorem mtdPartRemountAllReadOnly_inv (hline : env.cmdLine = cmdLineOf tokens)
    (hread : RootRead tokens) {szRootDev r : RootDev} (hcurrent : Current tokens szRootDev)
    {g : Globals} (hfront : (0 : UInt8) ∉ g.szMtdBlockPrefix) {pMtd q : MtdPartition}
    (hfirst : pMtd.cAlreadyRemounted = false)
    (hrun : Ends (system env) (mtdPartRemountAllReadOnly g szRootDev pMtd) w (.ret (r, q)) w') :
    ∃ calls, w'.released = w.released ++ calls ∧
      Dealt (OfPartition g pMtd.uiPartition (rootValue tokens)) env.mounts calls := by
  obtain ⟨szRootDev', w₁, hroot, hrun⟩ := Ends.split hrun
  have hstores := getRootDevice_stores hclean hlen hline hread hcurrent hroot
  obtain ⟨-, hreleased⟩ := getRootDevice_inv (by rw [hline]; exact cmdLineOf_clean hclean)
    (by rw [hline]; exact hlen) hroot
  rw [if_neg (by rw [hfirst]; exact Bool.false_ne_true)] at hrun
  obtain ⟨_, w₂, hopen, hrun⟩ := Ends.split hrun
  obtain ⟨_, w₃, hloop, hrun⟩ := Ends.split hrun
  obtain ⟨_, w₄, hend, hrun⟩ := Ends.split hrun
  obtain ⟨-, hw₂⟩ := sysOrFail_inv hopen
  obtain ⟨-, hw₄⟩ := hend.perform_inv
  obtain ⟨-, hw'⟩ := hrun.pure_inv
  have hmounts : w₂.mounts = env.mounts := by
    rw [hw₂]
    rfl
  obtain ⟨calls, hcalls, hdealt⟩ := remountLoop_inv hmounts hloop
  have hblock : (0 : UInt8) ∉ mtdBlockName g pMtd.uiPartition := fun hmem =>
    (List.mem_append.mp hmem).elim hfront (decimal_clean _)
  have hkind : ∀ ent, Matches szRootDev' (mtdBlockName g pMtd.uiPartition) ent ↔
      OfPartition g pMtd.uiPartition (rootValue tokens) ent := by
    intro ent
    have hsame : storesString szRootDev'.1 (mtdBlockName g pMtd.uiPartition) = true ↔
        rootValue tokens = mtdBlockName g pMtd.uiPartition :=
      ⟨fun h => storesString_unique (rootValue_clean hclean).2.2 hblock hstores h,
        fun h => h ▸ hstores⟩
    unfold Matches OfPartition
    rw [hsame, or_comm]
  refine ⟨calls, ?_, fun ent hent hof => hdealt.released ent hent ((hkind ent).mpr hof),
    fun call hcall => ?_⟩
  · have hkept₂ : w₂.released = w₁.released := by rw [hw₂]; rfl
    have hkept₄ : w₄.released = w₃.released := by rw [hw₄]; rfl
    rw [hw', hkept₄, hcalls, hkept₂, hreleased]
  · obtain ⟨ent, hent, hmatch, hfor⟩ := hdealt.untouched call hcall
    exact ⟨ent, hent, (hkind ent).mp hmatch, hfor⟩

omit hclean

/-- `GetRootDevice` answers on a system that works. -/
theorem getRootDevice_ends (hworks : Works env) (hline : env.cmdLine = cmdLineOf tokens)
    (w : World) :
    ∃ cells : Cells 1024, ∃ w', Ends (system env) (getRootDevice noRootDev) w
      (.ret (scanRootDevice (terminateCmdLine cells.1 (cmdLineOf tokens)) noRootDev)) w' := by
  have harray : Ends (system env) (sys (.localArray 1024)) w
      (.ret (env.memory (w.time + 1) 1024)) { w with time := w.time + 1 } := by
    have hcall := ends_perform (E := ExitReason) (h := system env) (.localArray 1024) w
    rw [system_works hworks] at hcall
    exact hcall
  have hopen : Ends (system env)
      (sysOrFail .getRootDevice (.openProc (text "/proc/cmdline")) succeeded)
      { w with time := w.time + 1 } (.ret ())
      { w with time := w.time + 1 + 1, proc := env.cmdLine } :=
    succeeded_ends hworks _ _ rfl rfl
  have hread : Ends (system env) (sysOrFail .getRootDevice (.readProc 1022) id)
      { w with time := w.time + 1 + 1, proc := env.cmdLine }
      (.ret ⟨env.cmdLine.take 1022, List.length_take_le ..⟩)
      { w with time := w.time + 1 + 1 + 1, proc := env.cmdLine.drop 1022 } :=
    sysOrFail_ends (system_works hworks _ _) rfl
  have hclose : Ends (system env) (sysOrFail .getRootDevice .closeProc succeeded)
      { w with time := w.time + 1 + 1 + 1, proc := env.cmdLine.drop 1022 } (.ret ())
      { w with time := w.time + 1 + 1 + 1 + 1, proc := env.cmdLine.drop 1022 } :=
    succeeded_ends hworks _ _ rfl rfl
  have hwhole : env.cmdLine.take 1022 = cmdLineOf tokens := by
    rw [hline, List.take_of_length_le hlen]
  have hlast : Ends (system env) (pure (scanRootDevice (terminateCmdLine
      (env.memory (w.time + 1) 1024).1 (env.cmdLine.take 1022)) noRootDev) : Flash RootDev) _ _ _ :=
    ends_pure _ { w with time := w.time + 1 + 1 + 1 + 1, proc := env.cmdLine.drop 1022 }
  rw [← hwhole]
  exact ⟨env.memory (w.time + 1) 1024, _, Ends.andThen harray (Ends.andThen hopen
    (Ends.andThen hread (Ends.andThen hclose hlast)))⟩

include hclean

/-- The mounts of every partition are handled for just the command lines on
which the root device is found. -/
theorem mountsHandled_iff : MountsHandled tokens ↔ RootRead tokens := by
  constructor
  · intro hhandled
    have hworks : Works { smallEnv with cmdLine := cmdLineOf tokens } :=
      ⟨fun _ _ => rfl, fun _ _ => rfl⟩
    obtain ⟨cells, w', hrun⟩ := getRootDevice_ends hlen hworks rfl (smallWorld [])
    obtain ⟨junk, hjunk, hnul, hterminated⟩ := terminateCmdLine_eq cells (cmdLineOf_clean hclean) hlen
    have hstores := (hhandled _ rfl noRootDev (.inl rfl)).1 _ _ _ hrun
    rw [hterminated] at hstores
    exact (scan_stores_iff hclean hjunk hnul).mp hstores
  · intro hread env hline szRootDev hcurrent
    exact ⟨fun r w w' hrun => getRootDevice_stores hclean hlen hline hread hcurrent hrun,
      fun g hfront pMtd hfirst r q w w' hrun =>
        mtdPartRemountAllReadOnly_inv hclean hlen hline hread hcurrent hfront hfirst hrun⟩

omit hclean hlen

/-- The tokens of a command line whose token for the root device is not the
last one. -/
def rootInside : List Bytes := [text "console=ttyS0", text "root=/dev/mtdblock/1", text "rw"]

/-- On that command line the mounts are handled. -/
theorem mountsHandled_iff_example : MountsHandled rootInside := by
  have hclean : ∀ t ∈ rootInside, Clean t := by
    unfold Clean
    decide
  exact (mountsHandled_iff hclean (by decide)).mpr ⟨by decide, by decide, .inl rfl⟩

/-- The small system with the root device at the end of the command line, and
with the root file system on its second partition. -/
def rootLastEnv : Env :=
  { smallEnv with
    cmdLine := text "console=ttyS0 root=/dev/mtdblock/1\n"
    mounts := [⟨text "/dev/root", text "/"⟩] }

set_option maxRecDepth 8000 in
/-- The root device is found with the newline, and the root file system stays
mounted as it is. -/
theorem root_at_end_stays_mounted :
    cmdLineOf [text "console=ttyS0", text "root=/dev/mtdblock/1"] = rootLastEnv.cmdLine ∧
    rootValue [text "console=ttyS0", text "root=/dev/mtdblock/1"] = mtdBlockName { fuel := 5 } 1 ∧
    (exec (system rootLastEnv) everyCall (getRootDevice noRootDev) (smallWorld [])).outcome =
      .ret ⟨text "/dev/mtdblock/1\n" ++ List.replicate 16 0, rfl⟩ ∧
    (exec (system rootLastEnv) everyCall (mtdPartRemountAllReadOnly { fuel := 5 } noRootDev
      { cleared with uiPartition := 1 }) (smallWorld [])).outcome =
        .ret (⟨text "/dev/mtdblock/1\n" ++ List.replicate 16 0, rfl⟩,
          { cleared with uiPartition := 1, cAlreadyRemounted := true }) ∧
    (exec (system rootLastEnv) everyCall (mtdPartRemountAllReadOnly { fuel := 5 } noRootDev
      { cleared with uiPartition := 1 }) (smallWorld [])).state.released = [] :=
  ⟨rfl, rfl, rfl, rfl, rfl⟩

end Mounts

end MetaDigi.FlashMounts
