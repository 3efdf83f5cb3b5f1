import MetaDigi.CmdGrammar

/-!
# The parser and the grammar

`cmdOptParse` on a table whose entries can be told apart. The parameters that
it builds are those of the table, every reply of the scanner leads to one
update, and the mandatory entries take the first operands. What is left
depends on the options and operands of the command line only.
-/

namespace MetaDigi.CmdOptions

open CStrings Getopt

/-- A sequence that succeeds has succeeded in both parts. -/
theorem bind_ok {α β : Type} {x : Except Stop α} {f : α → Except Stop β} {b : β}
    (h : x >>= f = .ok b) : ∃ a, x = .ok a ∧ f a = .ok b := by
  cases x with
  | error stop => cases h
  | ok a => exact ⟨a, rfl, h⟩

/-- A sequence that stops has stopped in one of its parts. -/
theorem bind_error {α β : Type} {x : Except Stop α} {f : α → Except Stop β} {stop : Stop}
    (h : x >>= f = .error stop) : x = .error stop ∨ ∃ a, x = .ok a ∧ f a = .error stop := by
  cases x with
  | error stop' =>
    cases h
    exact .inl rfl
  | ok a => exact .inr ⟨a, rfl, h⟩

/-- The variables when the scan starts: the flags of the entries are cleared. -/
def startMemory (es : List CmdOptEntry) (mem : Memory) : Memory :=
  es.foldl (fun mem e => clearPresent e mem)
    ((mem.set .cPrintVersion (.char 0)).set .cPrintHelp (.char 0))

/-- `updateVar` for one option after the other. -/
def applyAll (occs : List Occurrence) (mem : Memory) : Except Stop Memory :=
  occs.foldlM (fun mem o => updateVar o.1 o.2 mem) mem

/-- One round of the loop, by the option that the reply stands for. -/
def applyDecoded (mem : Memory) (o : Option Occurrence) : Except Stop Memory :=
  match o with
  | some o => updateVar o.1 o.2 mem
  | none => .error (.usage false)

/-- The loop over the mandatory arguments on the operands themselves: what is
left for an open-ended table. -/
def takeMandatory : List CmdOptEntry → List Bytes → Memory →
    Except Stop (Option (List Bytes) × Memory)
  | [], ops, mem => if ops = [] then .ok (none, mem) else .error (.usage true)
  | e :: es, ops, mem =>
    if e.cOptChar ≠ 0 then takeMandatory es ops mem
    else if e.type = .cotMoreOpt then .ok (some ops, mem)
    else
      match ops with
      | [] => .error (.usage true)
      | b :: ops =>
        if e.type = .cotMore then .ok (some (b :: ops), mem)
        else do
          let mem ← updateVar e (some b) mem
          takeMandatory es ops mem

/-- The value returned: the index of the first argument that is left. -/
def returned (argc : ℕ) (left : Option (List Bytes)) : ℤ :=
  match left with
  | some left => (argc : ℤ) - left.length
  | none => 0

/-- What the parser does behind the scan. -/
def finish (es : List CmdOptEntry) (name : Bytes) (scanned ops : List Bytes) (mem : Memory) :
    Except Stop Parsed :=
  if mem .cPrintVersion ≠ .char 0 then .error .version
  else if mem .cPrintHelp ≠ .char 0 then .error (.usage false)
  else do
    let (left, mem) ← takeMandatory es ops mem
    return ⟨returned (scanned.length + ops.length + 1) left, name :: (scanned ++ ops), mem⟩

/-- The entries in front of the end of the table are copied. -/
theorem copyEntries_eq {terminator : CmdOptEntry} (hend : terminator.type = .cotNone)
    (entries : List CmdOptEntry) (n : ℕ) (hkinds : ∀ e ∈ entries, e.type ≠ .cotNone)
    (hn : n + entries.length < maxEntries) :
    copyEntries (entries ++ [terminator]) n = .ok entries := by
  induction entries generalizing n with
  | nil =>
    rw [List.length_nil, Nat.add_zero] at hn
    rw [List.nil_append, copyEntries, if_neg (Nat.ne_of_lt hn)]
    exact if_pos hend
  | cons e entries ih =>
    rw [List.length_cons] at hn
    have hcopied := ih (n + 1) (fun e he => hkinds e (List.mem_cons_of_mem _ he)) (by omega)
    rw [List.cons_append, copyEntries, if_neg (by omega), if_neg (hkinds e (List.mem_cons_self ..)),
      hcopied]
    rfl

/-- An entry without an option character adds nothing to the short options. -/
theorem optBytes_none {e : CmdOptEntry} (h : e.cOptChar = 0 ∨ e.cOptChar = -1) :
    optBytes e = [] := by
  rw [optBytes, CmdOptEntry.short, if_pos h]

/-- An entry has at most two characters in the short options. -/
theorem length_optBytes (e : CmdOptEntry) : (optBytes e).length ≤ 2 := by
  rw [optBytes]
  cases e.short with
  | none => exact Nat.zero_le 2
  | some c =>
    cases e.hasArg with
    | true => exact Nat.le_refl 2
    | false => exact Nat.le_succ 1

/-- The loop builds the parameters of the table. -/
theorem listEntries_eq (es : List CmdOptEntry) (n : ℕ) (lists : Lists) (mem : Memory)
    (hroom : lists.szOptLine.length + 2 * es.length ≤ bufferSize - 2) :
    listEntries es n lists mem =
      .ok (⟨lists.szOptLine ++ es.flatMap optBytes, lists.axLongOptions ++ longsFrom es n⟩,
        es.foldl (fun mem e => clearPresent e mem) mem) := by
  induction es generalizing n lists mem with
  | nil => simp [listEntries, longsFrom]
  | cons e es ih =>
    rw [List.length_cons] at hroom
    have hlongs : (if e.endsTable then lists.axLongOptions
        else lists.axLongOptions ++ [⟨e.szLabelStr, e.hasArg, -2 - (n : ℤ)⟩]) ++
          longsFrom es (n + 1) = lists.axLongOptions ++ longsFrom (e :: es) n := by
      rw [longsFrom]
      cases e.endsTable with
      | true => rfl
      | false => exact List.append_assoc ..
    rw [listEntries]
    by_cases hzero : e.cOptChar = 0
    · rw [if_pos hzero, ih _ _ _ (by dsimp only; omega), hlongs, List.flatMap_cons,
        optBytes_none (.inl hzero)]
      rfl
    rw [if_neg hzero, if_neg (by omega)]
    by_cases hminus : e.cOptChar = -1
    · rw [if_pos hminus, ih _ _ _ (by dsimp only; omega), hlongs, List.flatMap_cons,
        optBytes_none (.inr hminus)]
      rfl
    have hbytes : [e.cOptChar.toUInt8] ++ (if e.hasArg then [colon] else []) = optBytes e := by
      rw [optBytes, CmdOptEntry.short, if_neg (not_or.mpr ⟨hzero, hminus⟩)]
      rfl
    have hlength := length_optBytes e
    rw [if_neg hminus]
    dsimp only
    rw [List.append_assoc lists.szOptLine, hbytes, ih _ _ _ (by
      rw [List.length_append]
      omega), hlongs, List.append_assoc, List.flatMap_cons]
    rfl

section Table

variable {es : List CmdOptEntry}

/-- Entries with another character are passed over. -/
theorem updateMatching_absent (c : Int8) (optarg : Option Bytes) (h : ∀ e ∈ es, e.cOptChar ≠ c)
    (found : Bool) (mem : Memory) : updateMatching c optarg es found mem = .ok (found, mem) := by
  induction es with
  | nil => rfl
  | cons e es ih =>
    rw [updateMatching, if_neg (h e (List.mem_cons_self ..))]
    exact ih fun e he => h e (List.mem_cons_of_mem _ he)

/-- A short option updates its own entry and no other. -/
theorem updateMatching_one (hes : WellFormed es) {e : CmdOptEntry} (he : e ∈ es)
    (halnum : isAlnum e.cOptChar = true) (optarg : Option Bytes) (mem : Memory) :
    updateMatching e.cOptChar optarg es false mem =
      (updateVar e optarg mem).map (fun mem => (true, mem)) := by
  have hnodup : es.Nodup := List.Nodup.of_map _ hes.labelsDistinct
  have honly : ∀ e' ∈ es, e'.cOptChar = e.cOptChar → e' = e :=
    fun e' he' h => hes.char_inj he he' halnum h
  clear hes halnum
  induction es with
  | nil => cases he
  | cons d es ih =>
    obtain ⟨hd, hnodup⟩ := List.nodup_cons.mp hnodup
    rw [updateMatching]
    by_cases hchar : d.cOptChar = e.cOptChar
    · have hsame : d = e := honly d (List.mem_cons_self ..) hchar
      have habsent : ∀ e' ∈ es, e'.cOptChar ≠ e.cOptChar := by
        intro e' he' h
        rw [honly e' (List.mem_cons_of_mem _ he') h, ← hsame] at he'
        exact hd he'
      rw [if_pos hchar, hsame]
      cases updateVar e optarg mem with
      | error stop => rfl
      | ok mem' => exact updateMatching_absent _ optarg habsent true mem'
    · rw [if_neg hchar]
      refine ih ?_ hnodup fun e' he' h => honly e' (List.mem_cons_of_mem _ he') h
      exact (List.mem_cons.mp he).resolve_left fun h => hchar (by rw [h])

/-- What a call returns stands for a short option, a long option or a mistake. -/
theorem returns_cases (hes : WellFormed es) {posixlyCorrect : Bool} {v : ℤ}
    (h : Returns (tablesOf posixlyCorrect es) v) :
    v = question ∨ (∃ e ∈ es, isAlnum e.cOptChar = true ∧ Int8.ofInt v = e.cOptChar) ∨
      ∃ (i : ℕ) (e : CmdOptEntry), es[i]? = some e ∧ v = -2 - i := by
  rcases h with h | ⟨c, takes, hc, rfl⟩ | ⟨o, ho, rfl⟩
  · exact .inl h
  · obtain ⟨e, he, hshort, -⟩ := shortOption_sound hes hc
    obtain ⟨halnum, rfl⟩ := hes.alnum he hshort
    exact .inr (.inl ⟨e, he, halnum, by rw [ofInt_byte, Int8.toInt8_toUInt8]⟩)
  · obtain ⟨i, e, hi, -, rfl⟩ := (mem_longsFrom ..).mp ho
    exact .inr (.inr ⟨i, e, hi, by rw [Nat.zero_add]; rfl⟩)

/-- One round of the loop is the update of the entry that the reply stands for. -/
theorem parseOption_eq (hes : WellFormed es) {posixlyCorrect : Bool} {r : Reply}
    (hr : Returns (tablesOf posixlyCorrect es) r.value) (mem : Memory) :
    parseOption es mem r = applyDecoded mem (decodeReply es r) := by
  obtain ⟨v, optarg⟩ := r
  rcases returns_cases hes hr with h | ⟨e, he, halnum, hv⟩ | ⟨i, e, hi, h⟩
  · dsimp only at h
    have habsent : ∀ e ∈ es, e.cOptChar ≠ Int8.ofInt question := by
      intro e he hc
      have hc : e.cOptChar = 63 := hc
      rcases hes.chars e he with h | h | h <;> rw [hc] at h <;> exact absurd h (by decide)
    rw [decodeReply, h, decode_question hes, parseOption]
    simp only [if_neg (show ¬Int8.ofInt question < 0 by decide),
      updateMatching_absent _ optarg habsent false mem]
    rfl
  · dsimp only at hv
    have hdecode : decode es v = some e := by
      have hshort := decode_short hes he (short_of_alnum halnum)
      rwa [decode, ofInt_byte, Int8.toInt8_toUInt8, ← hv] at hshort
    rw [decodeReply, hdecode, parseOption]
    simp only [hv, if_neg (not_neg_of_alnum halnum), updateMatching_one hes he halnum]
    change _ = updateVar e optarg mem
    cases updateVar e optarg mem <;> rfl
  · dsimp only at h
    obtain ⟨htoInt, hneg⟩ := hes.index_char hi
    rw [decodeReply, h, decode_long hi hes, parseOption]
    simp only [if_pos hneg, htoInt, show (-2 - (-2 - (i : ℤ))).toNat = i by omega, hi]
    rfl

/-- No option ends the loop: only the end of the options returns -1. -/
theorem returns_ne (hes : WellFormed es) {posixlyCorrect : Bool} {v : ℤ}
    (h : Returns (tablesOf posixlyCorrect es) v) : Int8.ofInt v ≠ -1 := by
  rcases returns_cases hes h with rfl | ⟨e, -, halnum, hv⟩ | ⟨i, e, hi, rfl⟩
  · decide
  · intro hminus
    rw [hv] at hminus
    rw [hminus] at halnum
    exact absurd halnum (by decide)
  · obtain ⟨htoInt, -⟩ := hes.index_char hi
    intro hminus
    rw [hminus] at htoInt
    have hone : (-1 : Int8).toInt = -1 := by decide
    omega

end Table

/-- With enough calls the loop is a fold over the replies, and the scanner ends
with the operands behind what it has scanned. -/
theorem parseOptions_run (t : Tables) (es : List CmdOptEntry) (fuel : ℕ) (s : Scanner)
    (hfuel : (s.replies t).length < fuel)
    (hstop : ∀ r ∈ s.replies t, Int8.ofInt r.value ≠ -1) :
    ∃ s', s'.skipped ++ s'.rest = s.operands t ∧ s'.argv.Perm s.argv ∧
      ∀ mem, parseOptions t es fuel s mem =
        ((s.replies t).foldlM (parseOption es) mem).map (fun mem => (s', mem)) := by
  induction fuel generalizing s with
  | zero => exact absurd hfuel (Nat.not_lt_zero _)
  | succ fuel ih =>
    have hpops := getoptLong_pops t s
    have hargv := getoptLong_argv t s
    cases hcall : getoptLong t s with
    | mk r s₁ =>
      rw [hcall] at hpops hargv
      cases hreplies : s.replies t with
      | nil =>
        rw [hreplies] at hpops
        obtain ⟨hr, hoperands⟩ := hpops
        dsimp only at hr hoperands
        refine ⟨s₁, hoperands, hargv, fun mem => ?_⟩
        rw [parseOptions, hcall]
        dsimp only
        rw [hr, if_pos (by decide)]
        rfl
      | cons x xs =>
        rw [hreplies] at hpops hfuel hstop
        obtain ⟨hr, hxs, hoperands⟩ := hpops
        dsimp only at hr hxs hoperands
        rw [List.length_cons] at hfuel
        obtain ⟨s', hops, hperm, hrun⟩ := ih s₁ (by rw [hxs]; omega)
          (fun y hy => hstop y (List.mem_cons_of_mem _ (hxs ▸ hy)))
        refine ⟨s', hops.trans hoperands, hperm.trans hargv, fun mem => ?_⟩
        rw [parseOptions, hcall]
        dsimp only
        rw [hr, if_neg (hstop x (List.mem_cons_self ..)), List.foldlM_cons]
        cases parseOption es mem x with
        | error stop => rfl
        | ok mem' =>
          change parseOptions t es fuel s₁ mem' = _
          rw [hrun, hxs]
          rfl

/-- The loop over the replies is the loop over the options they stand for. -/
theorem foldlM_decoded {es : List CmdOptEntry} (hes : WellFormed es) {posixlyCorrect : Bool}
    (rs : List Reply) (hrs : ∀ r ∈ rs, Returns (tablesOf posixlyCorrect es) r.value)
    (mem : Memory) :
    rs.foldlM (parseOption es) mem = (rs.map (decodeReply es)).foldlM applyDecoded mem := by
  induction rs generalizing mem with
  | nil => rfl
  | cons r rs ih =>
    rw [List.map_cons, List.foldlM_cons, List.foldlM_cons,
      parseOption_eq hes (hrs r (List.mem_cons_self ..))]
    exact bind_congr fun mem => ih (fun r hr => hrs r (List.mem_cons_of_mem _ hr)) mem

/-- When the loop over the options succeeds, there was no mistake. -/
theorem applyDecoded_ok (ds : List (Option Occurrence)) {mem mem' : Memory}
    (h : ds.foldlM applyDecoded mem = .ok mem') :
    ∃ occs, ds = occs.map some ∧ applyAll occs mem = .ok mem' := by
  induction ds generalizing mem with
  | nil => exact ⟨[], rfl, h⟩
  | cons d ds ih =>
    rw [List.foldlM_cons] at h
    cases d with
    | none => cases h
    | some o =>
      obtain ⟨mem₁, hupdate, hrest⟩ := bind_ok h
      obtain ⟨occs, rfl, happly⟩ := ih hrest
      refine ⟨o :: occs, rfl, ?_⟩
      change updateVar o.1 o.2 mem = .ok mem₁ at hupdate
      rw [applyAll, List.foldlM_cons, hupdate]
      exact happly

/-- The loop over the mandatory arguments only sees the operands. -/
theorem parseMandatory_eq (es : List CmdOptEntry) (front ops : List Bytes) (mem : Memory) :
    parseMandatory (front ++ ops) es front.length mem =
      (takeMandatory es ops mem).map
        (fun x => (returned (front.length + ops.length) x.1, x.2)) := by
  induction es generalizing front ops mem with
  | nil =>
    rw [parseMandatory, takeMandatory]
    cases ops with
    | nil =>
      rw [if_pos rfl, if_neg (by simp)]
      rfl
    | cons b ops =>
      rw [if_neg (List.cons_ne_nil b ops), if_pos (by simp; omega)]
      rfl
  | cons e es ih =>
    rw [parseMandatory, takeMandatory.eq_def]
    dsimp only
    by_cases hchar : e.cOptChar = 0
    · rw [if_neg (not_not.mpr hchar), if_neg (not_not.mpr hchar)]
      by_cases hopt : e.type = .cotMoreOpt
      · rw [if_pos hopt, if_pos hopt]
        simp [Except.map, returned]
      rw [if_neg hopt, if_neg hopt]
      cases ops with
      | nil =>
        rw [if_pos (by simp)]
        rfl
      | cons b ops =>
        rw [if_neg (by simp; omega)]
        dsimp only
        by_cases hmore : e.type = .cotMore
        · rw [if_pos hmore, if_pos hmore]
          simp [Except.map, returned]
        rw [if_neg hmore, if_neg hmore]
        have harg : (front ++ b :: ops)[front.length]? = some b := by simp
        rw [harg]
        cases updateVar e (some b) mem with
        | error stop => rfl
        | ok mem' =>
          have hnext := ih (front ++ [b]) ops mem'
          rw [List.append_assoc, List.singleton_append, List.length_append,
            List.length_singleton] at hnext
          change parseMandatory (front ++ b :: ops) es (front.length + 1) mem' = _
          rw [hnext, List.length_cons, Nat.add_right_comm, Nat.add_assoc]
          rfl
    · rw [if_pos hchar, if_pos hchar]
      exact ih front ops mem

/-- The entry takes an operand. -/
def CmdOptEntry.isMandatory (e : CmdOptEntry) : Bool := e.cOptChar = 0 ∧ e.endsTable = false

/-- The entry lets further arguments through. -/
def CmdOptEntry.isOpen (e : CmdOptEntry) : Bool := e.cOptChar = 0 ∧ e.endsTable = true

/-- A table of the application, with the entry that ends it. -/
structure Table where
  /-- The entries in front of `COT_NONE`. -/
  entries : List CmdOptEntry
  /-- The entry `COT_NONE`. -/
  terminator : CmdOptEntry
  /-- There are at most 28 entries. -/
  few : entries.length ≤ 28
  /-- No entry in front of the end has the kind of the end. -/
  kinds : ∀ e ∈ entries, e.type ≠ .cotNone
  /-- The table is ended by `COT_NONE`. -/
  ended : terminator.type = .cotNone
  /-- Option characters are letters and digits. -/
  chars : ∀ e ∈ entries, e.cOptChar = 0 ∨ e.cOptChar = -1 ∨ isAlnum e.cOptChar = true
  /-- Option characters are distinct, also from those of the library. -/
  charsDistinct :
    (((libraryEntries ++ entries).filter (fun e => e.short.isSome)).map CmdOptEntry.cOptChar).Nodup
  /-- Labels are distinct, also from those of the library. -/
  labelsDistinct : ((libraryEntries ++ entries).map CmdOptEntry.szLabelStr).Nodup
  /-- Only the last entry can be open-ended. -/
  openLast : ∀ e ∈ entries.dropLast, e.endsTable = false

namespace Table

/-- The array that the parser is given. -/
def array (table : Table) : List CmdOptEntry := table.entries ++ [table.terminator]

/-- All entries, with those of the library in front. -/
def all (table : Table) : List CmdOptEntry := libraryEntries ++ table.entries

/-- The entries that take an operand. -/
def mandatory (table : Table) : List CmdOptEntry := table.entries.filter CmdOptEntry.isMandatory

/-- The table ends with an entry that lets further arguments through. -/
def openEnded (table : Table) : Bool := table.entries.any CmdOptEntry.isOpen

/-- The entries of a table can be told apart. -/
theorem wellFormed (table : Table) : WellFormed table.all where
  few := by
    have hfew := table.few
    simp only [all, libraryEntries, List.length_append, List.length_cons, List.length_nil]
    omega
  chars := by
    intro e he
    rcases List.mem_append.mp he with he | he
    · have hlibrary : ∀ e ∈ libraryEntries,
          e.cOptChar = 0 ∨ e.cOptChar = -1 ∨ isAlnum e.cOptChar = true := by decide
      exact hlibrary e he
    · exact table.chars e he
  charsDistinct := table.charsDistinct
  labelsDistinct := table.labelsDistinct

end Table

/-- A command line, by what the scanner says of it: the parser applies the
options and goes on with the operands. -/
theorem cmdOptParse_eq (table : Table) (posixlyCorrect : Bool) (name : Bytes) (args : List Bytes) :
    ∃ scanned, (scanned ++ (scan (tablesOf posixlyCorrect table.all) args).2).Perm args ∧
      ∀ mem, cmdOptParse posixlyCorrect name args table.array mem =
        ((scan (tablesOf posixlyCorrect table.all) args).1.map
            (decodeReply table.all)).foldlM applyDecoded (startMemory table.all mem) >>=
          finish table.all name scanned (scan (tablesOf posixlyCorrect table.all) args).2 := by
  have hes := table.wellFormed
  have hreturns := scan_returns (tablesOf posixlyCorrect table.all) args
  have hreplies : (Scanner.start args).replies (tablesOf posixlyCorrect table.all) =
      (scan (tablesOf posixlyCorrect table.all) args).1 := replies_fresh ..
  have hoperands : (Scanner.start args).operands (tablesOf posixlyCorrect table.all) =
      (scan (tablesOf posixlyCorrect table.all) args).2 := operands_fresh ..
  have hlength := scan_length (tablesOf posixlyCorrect table.all) args
  obtain ⟨s, hops, hperm, hrun⟩ := parseOptions_run (tablesOf posixlyCorrect table.all) table.all
    (enoughCalls args) (Scanner.start args) (by rw [hreplies, enoughCalls]; omega)
    (by rw [hreplies]; exact fun r hr => returns_ne hes (hreturns r hr))
  rw [hreplies] at hrun
  rw [hoperands] at hops
  have hargv : s.argv = s.scanned ++ (scan (tablesOf posixlyCorrect table.all) args).2 := by
    rw [Scanner.argv, hops]
  refine ⟨s.scanned, ?_, fun mem => ?_⟩
  · rw [← hargv]
    exact hperm
  have hcopied : copyEntries table.array libraryEntries.length = .ok table.entries :=
    copyEntries_eq table.ended table.entries _ table.kinds (by
      have hfew := table.few
      simp only [libraryEntries, List.length_cons, List.length_nil, maxEntries]
      omega)
  have hlists := listEntries_eq table.all 0 ⟨[], []⟩
    ((mem.set .cPrintVersion (.char 0)).set .cPrintHelp (.char 0)) (by
      have hfew := hes.few
      simp only [List.length_nil, bufferSize]
      omega)
  simp only [List.nil_append] at hlists
  have hscan := hrun (startMemory table.all mem)
  rw [foldlM_decoded hes _ hreturns] at hscan
  rw [cmdOptParse, hcopied]
  change (listEntries table.all 0 ⟨[], []⟩ _ >>= _) = _
  rw [hlists]
  change (parseOptions (tablesOf posixlyCorrect table.all) table.all (enoughCalls args)
    (Scanner.start args) (startMemory table.all mem) >>= _) = _
  rw [hscan]
  cases ((scan (tablesOf posixlyCorrect table.all) args).1.map
    (decodeReply table.all)).foldlM applyDecoded (startMemory table.all mem) with
  | error stop => rfl
  | ok mem' =>
    have hmandatory := parseMandatory_eq table.all (name :: s.scanned)
      (scan (tablesOf posixlyCorrect table.all) args).2 mem'
    rw [List.cons_append, ← hargv, List.length_cons] at hmandatory
    change (if mem' .cPrintVersion ≠ .char 0 then _ else _) = finish ..
    rw [finish]
    split
    · rfl
    split
    · rfl
    change (parseMandatory (name :: s.argv) table.all (s.scanned.length + 1) mem' >>= _) = _
    rw [hmandatory]
    cases takeMandatory table.all (scan (tablesOf posixlyCorrect table.all) args).2 mem' with
    | error stop => rfl
    | ok x =>
      rw [Nat.add_right_comm]
      change Except.ok (Parsed.mk _ (name :: s.argv) _) = _
      rw [hargv]
      rfl

end MetaDigi.CmdOptions
