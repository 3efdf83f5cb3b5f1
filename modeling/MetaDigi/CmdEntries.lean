import MetaDigi.CmdParsing

/-!
# Every option hits its own entry

What a run of `cmdOptParse` that returns has done: each option of the command
line has updated its own entry, in the order of the arguments, the mandatory
entries have taken the first operands, and no other variable was touched. A
short option can be written in its long form without a difference.
-/

namespace MetaDigi.CmdOptions

open CStrings Getopt

/-- The entry points to a variable. -/
def CmdOptEntry.writes (e : CmdOptEntry) (v : Var) : Prop :=
  e.vValuePtr = some v ∨ e.pbPresent = some v

/-- An assignment leaves the other variables alone. -/
theorem Memory.set_other (mem : Memory) {v w : Var} (h : w ≠ v) (x : Value) :
    mem.set v x w = mem w := by
  rw [Memory.set]
  exact Function.update_of_ne h x mem

/-- A store only changes the variable of the pointer. -/
theorem storeThrough_frame {ptr : Option Var} {x : Value} {mem mem' : Memory} {v : Var}
    (h : storeThrough ptr x mem = .ok mem') (hv : ptr ≠ some v) : mem' v = mem v := by
  cases ptr with
  | none => cases h
  | some w =>
    cases h
    exact Memory.set_other mem (fun hw => hv (by rw [hw])) x

/-- Storing the value of an entry only changes the variable of the entry. -/
theorem storeValue_frame {e : CmdOptEntry} {szStr : Option Bytes} {mem mem' : Memory} {v : Var}
    (h : storeValue e szStr mem = .ok mem') (hv : e.vValuePtr ≠ some v) : mem' v = mem v := by
  rw [storeValue.eq_def] at h
  split at h
  · exact storeThrough_frame h hv
  · split at h
    · cases h
    · split at h
      · exact storeThrough_frame h hv
      · cases h
        rfl
  · exact storeThrough_frame h hv
  · cases h
    rfl
  · cases h
    rfl
  · cases h
    rfl

/-- `updateVar` only changes the variables that the entry points to. -/
theorem updateVar_frame {e : CmdOptEntry} {szStr : Option Bytes} {mem mem' : Memory} {v : Var}
    (h : updateVar e szStr mem = .ok mem') (hv : ¬e.writes v) : mem' v = mem v := by
  have hptr : e.vValuePtr ≠ some v := fun hv' => hv (.inl hv')
  obtain ⟨mem₁, hstore, hpresent⟩ := bind_ok h
  have hframe := storeValue_frame hstore hptr
  cases hflag : e.pbPresent with
  | none =>
    rw [hflag] at hpresent
    cases hpresent
    exact hframe
  | some flag =>
    rw [hflag] at hpresent
    cases hpresent
    have hne : v ≠ flag := fun hv' => hv (.inr (by rw [hflag, hv']))
    exact (Memory.set_other mem₁ hne _).trans hframe

/-- Updates one after the other. -/
theorem applyAll_cons {o : Occurrence} {occs : List Occurrence} {mem mem' : Memory}
    (h : applyAll (o :: occs) mem = .ok mem') :
    ∃ mem₁, updateVar o.1 o.2 mem = .ok mem₁ ∧ applyAll occs mem₁ = .ok mem' := by
  rw [applyAll, List.foldlM_cons] at h
  exact bind_ok h

/-- Two groups of updates. -/
theorem applyAll_append (occs occs' : List Occurrence) (mem : Memory) :
    applyAll (occs ++ occs') mem = applyAll occs mem >>= applyAll occs' := by
  rw [applyAll, List.foldlM_append]
  rfl

/-- The first group of updates succeeds when all do. -/
theorem applyAll_split {occs occs' : List Occurrence} {mem mem' : Memory}
    (h : applyAll (occs ++ occs') mem = .ok mem') :
    ∃ mem₁, applyAll occs mem = .ok mem₁ ∧ applyAll occs' mem₁ = .ok mem' := by
  rw [applyAll_append] at h
  exact bind_ok h

/-- Variables that no option points to keep their values. -/
theorem applyAll_frame {occs : List Occurrence} {mem mem' : Memory} {v : Var}
    (h : applyAll occs mem = .ok mem') (hv : ∀ o ∈ occs, ¬o.1.writes v) : mem' v = mem v := by
  induction occs generalizing mem with
  | nil =>
    cases h
    rfl
  | cons o occs ih =>
    obtain ⟨mem₁, hupdate, hrest⟩ := applyAll_cons h
    have hfirst := updateVar_frame hupdate (hv o (List.mem_cons_self ..))
    exact (ih hrest fun o ho => hv o (List.mem_cons_of_mem _ ho)).trans hfirst

/-- An entry with a flag clears it. -/
theorem clearPresent_some {e : CmdOptEntry} {flag : Var} (h : e.pbPresent = some flag)
    (mem : Memory) : clearPresent e mem = mem.set flag (.char 0) := by
  unfold clearPresent
  rw [h]

/-- An entry without a flag clears nothing. -/
theorem clearPresent_none {e : CmdOptEntry} (h : e.pbPresent = none) (mem : Memory) :
    clearPresent e mem = mem := by
  unfold clearPresent
  rw [h]

/-- Clearing the flag of an entry leaves the other variables alone. -/
theorem clearPresent_other {e : CmdOptEntry} {v : Var} (h : e.pbPresent ≠ some v) (mem : Memory) :
    clearPresent e mem v = mem v := by
  cases hflag : e.pbPresent with
  | none => rw [clearPresent_none hflag]
  | some flag =>
    rw [clearPresent_some hflag]
    exact Memory.set_other mem (fun hv => h (by rw [hflag, hv])) _

/-- The flags of all entries are zero at the end. -/
theorem clear_zero (es : List CmdOptEntry) {mem : Memory} {v : Var}
    (h : mem v = .char 0 ∨ ∃ e ∈ es, e.pbPresent = some v) :
    es.foldl (fun mem e => clearPresent e mem) mem v = .char 0 := by
  induction es generalizing mem with
  | nil => exact h.elim id fun ⟨e, he, _⟩ => absurd he List.not_mem_nil
  | cons e es ih =>
    refine ih ?_
    by_cases hflag : e.pbPresent = some v
    · left
      dsimp only
      rw [clearPresent_some hflag]
      exact Function.update_self ..
    rcases h with hzero | ⟨e', he', hflag'⟩
    · left
      dsimp only
      rw [clearPresent_other hflag, hzero]
    · rcases List.mem_cons.mp he' with rfl | he'
      · exact absurd hflag' hflag
      · exact .inr ⟨e', he', hflag'⟩

/-- Clearing the flags leaves the other variables alone. -/
theorem clear_other (es : List CmdOptEntry) (mem : Memory) {v : Var}
    (h : ∀ e ∈ es, e.pbPresent ≠ some v) :
    es.foldl (fun mem e => clearPresent e mem) mem v = mem v := by
  induction es generalizing mem with
  | nil => rfl
  | cons e es ih =>
    rw [List.foldl_cons, ih _ fun e he => h e (List.mem_cons_of_mem _ he),
      clearPresent_other (h e (List.mem_cons_self ..))]

/-- The mandatory entries have taken the first operands, and what is left
belongs to an open-ended table. -/
def Takes (es : List CmdOptEntry) (ops : List Bytes) (mem : Memory) (left : Option (List Bytes))
    (mem' : Memory) : Prop :=
  ∃ taken rest, ops = taken ++ rest ∧ taken.length = (es.filter CmdOptEntry.isMandatory).length ∧
    applyAll ((es.filter CmdOptEntry.isMandatory).zip (taken.map some)) mem = .ok mem' ∧
    if es.any CmdOptEntry.isOpen then left = some rest else left = none ∧ rest = []

/-- An entry that is neither mandatory nor open-ended takes no part. -/
theorem Takes.skip {e : CmdOptEntry} {es : List CmdOptEntry} {ops : List Bytes} {mem mem' : Memory}
    {left : Option (List Bytes)} (hchar : e.cOptChar ≠ 0) (h : Takes es ops mem left mem') :
    Takes (e :: es) ops mem left mem' := by
  have hmandatory : ¬e.isMandatory = true := fun h => hchar (of_decide_eq_true h).1
  have hopen : e.isOpen = false := decide_eq_false (fun h => hchar h.1)
  obtain ⟨taken, rest, hops, hlength, happly, hleft⟩ := h
  refine ⟨taken, rest, hops, ?_, ?_, ?_⟩
  · rw [List.filter_cons_of_neg hmandatory, hlength]
  · rw [List.filter_cons_of_neg hmandatory, happly]
  · rwa [List.any_cons, hopen, Bool.false_or]

/-- A mandatory entry takes the first operand. -/
theorem Takes.take {e : CmdOptEntry} {es : List CmdOptEntry} {b : Bytes} {ops : List Bytes}
    {mem mem₁ mem' : Memory} {left : Option (List Bytes)} (hchar : e.cOptChar = 0)
    (hends : e.endsTable = false) (hupdate : updateVar e (some b) mem = .ok mem₁)
    (h : Takes es ops mem₁ left mem') : Takes (e :: es) (b :: ops) mem left mem' := by
  have hmandatory : e.isMandatory = true := decide_eq_true ⟨hchar, hends⟩
  have hopen : e.isOpen = false := decide_eq_false (fun h => by rw [hends] at h; cases h.2)
  obtain ⟨taken, rest, hops, hlength, happly, hleft⟩ := h
  refine ⟨b :: taken, rest, by rw [hops, List.cons_append], ?_, ?_, ?_⟩
  · rw [List.filter_cons_of_pos hmandatory, List.length_cons, hlength, List.length_cons]
  · rw [List.filter_cons_of_pos hmandatory, List.map_cons, List.zip_cons_cons, applyAll,
      List.foldlM_cons]
    change (updateVar e (some b) mem >>= _) = _
    rw [hupdate]
    exact happly
  · rwa [List.any_cons, hopen, Bool.false_or]

/-- An open-ended entry at the end leaves all operands. -/
theorem Takes.stop {e : CmdOptEntry} (hchar : e.cOptChar = 0) (hends : e.endsTable = true)
    (ops : List Bytes) (mem : Memory) : Takes [e] ops mem (some ops) mem := by
  have hmandatory : ¬e.isMandatory = true := by
    intro h
    rw [(of_decide_eq_true h).2] at hends
    cases hends
  have hopen : e.isOpen = true := decide_eq_true ⟨hchar, hends⟩
  refine ⟨[], ops, rfl, ?_, ?_, ?_⟩
  · rw [List.filter_cons_of_neg hmandatory]
    rfl
  · rw [List.filter_cons_of_neg hmandatory]
    rfl
  · rw [List.any_cons, hopen]
    rfl

/-- The loop over the mandatory arguments, for a table that is open at its end only. -/
theorem takeMandatory_ok (es : List CmdOptEntry) (hlast : ∀ e ∈ es.dropLast, e.endsTable = false)
    {ops : List Bytes} {mem mem' : Memory} {left : Option (List Bytes)}
    (h : takeMandatory es ops mem = .ok (left, mem')) : Takes es ops mem left mem' := by
  induction es generalizing ops mem with
  | nil =>
    rw [takeMandatory] at h
    split at h
    · rename_i hops
      cases h
      exact ⟨[], [], hops, rfl, rfl, rfl, rfl⟩
    · cases h
  | cons e es ih =>
    have htail : ∀ e' ∈ es.dropLast, e'.endsTable = false := by
      intro e' he'
      cases es with
      | nil => cases he'
      | cons d es => exact hlast e' (List.mem_cons_of_mem _ he')
    have hends : e.endsTable = true → es = [] := by
      intro hends
      cases es with
      | nil => rfl
      | cons d es =>
        rw [hlast e (List.mem_cons_self ..)] at hends
        cases hends
    rw [takeMandatory.eq_def] at h
    dsimp only at h
    by_cases hchar : e.cOptChar = 0
    swap
    · rw [if_pos hchar] at h
      exact (ih htail h).skip hchar
    rw [if_neg (not_not.mpr hchar)] at h
    by_cases hopt : e.type = .cotMoreOpt
    · have hendsTable : e.endsTable = true := decide_eq_true (.inr hopt)
      rw [if_pos hopt] at h
      cases h
      rw [hends hendsTable]
      exact .stop hchar hendsTable ops _
    rw [if_neg hopt] at h
    cases ops with
    | nil => cases h
    | cons b ops =>
      dsimp only at h
      by_cases hmore : e.type = .cotMore
      · have hendsTable : e.endsTable = true := decide_eq_true (.inl hmore)
        rw [if_pos hmore] at h
        cases h
        rw [hends hendsTable]
        exact .stop hchar hendsTable (b :: ops) _
      rw [if_neg hmore] at h
      have hmandatory : e.endsTable = false := decide_eq_false (not_or.mpr ⟨hmore, hopt⟩)
      obtain ⟨mem₁, hupdate, hrest⟩ := bind_ok h
      exact (ih htail hrest).take hchar hmandatory hupdate

/-- An entry with an option character takes no operand. -/
theorem takeMandatory_skip {e : CmdOptEntry} (h : e.cOptChar ≠ 0) (es : List CmdOptEntry)
    (ops : List Bytes) (mem : Memory) :
    takeMandatory (e :: es) ops mem = takeMandatory es ops mem := by
  rw [takeMandatory.eq_def]
  exact if_pos h

/-- The library's own entries take no operand. -/
theorem takeMandatory_all (table : Table) (ops : List Bytes) (mem : Memory) :
    takeMandatory table.all ops mem = takeMandatory table.entries ops mem := by
  rw [Table.all, libraryEntries, List.cons_append, List.cons_append, List.cons_append,
    List.nil_append, takeMandatory_skip (by decide), takeMandatory_skip (by decide),
    takeMandatory_skip (by decide)]

/-- A parser that returns has found no `--version` and no `--help`, and its
mandatory entries are served. -/
theorem finish_ok {es : List CmdOptEntry} {name : Bytes} {scanned ops : List Bytes} {mem : Memory}
    {out : Parsed} (h : finish es name scanned ops mem = .ok out) :
    ∃ left, takeMandatory es ops mem = .ok (left, out.mem) ∧
      out.result = returned (scanned.length + ops.length + 1) left ∧
      out.argv = name :: (scanned ++ ops) := by
  rw [finish] at h
  split at h
  · cases h
  split at h
  · cases h
  obtain ⟨x, htake, hout⟩ := bind_ok h
  cases hout
  exact ⟨x.1, htake, rfl, rfl⟩

/-- What a run that returns has done with a command line: `occs` are its
options, `taken` and `left` its operands. -/
structure Hits (table : Table) (posixlyCorrect : Bool) (name : Bytes) (args : List Bytes)
    (mem : Memory) (out : Parsed) (occs : List Occurrence) (taken left : List Bytes) : Prop where
  /-- These are the options and operands of the command line. -/
  commandLine : CommandLine posixlyCorrect table.all args occs (taken ++ left)
  /-- The command line has no other reading. -/
  onlyOne : ∀ occs' ops', CommandLine posixlyCorrect table.all args occs' ops' →
    occs' = occs ∧ ops' = taken ++ left
  /-- Every mandatory entry has taken an operand. -/
  served : taken.length = table.mandatory.length
  /-- Each option has updated its entry, in the order of the arguments, and
  the mandatory entries have then taken the first operands in the order of the table. -/
  applied : applyAll (occs ++ table.mandatory.zip (taken.map some)) (startMemory table.all mem) =
    .ok out.mem
  /-- The last update of a variable wins. -/
  lastWins : ∀ before o after v,
    occs ++ table.mandatory.zip (taken.map some) = before ++ o :: after →
    (∀ o' ∈ after, ¬o'.1.writes v) →
    ∃ mem₁ mem₂, applyAll before (startMemory table.all mem) = .ok mem₁ ∧
      updateVar o.1 o.2 mem₁ = .ok mem₂ ∧ out.mem v = mem₂ v
  /-- The flag of an entry is 0 when no named entry points to it. -/
  flags : ∀ e ∈ table.entries, ∀ v, e.pbPresent = some v →
    (∀ o ∈ occs ++ table.mandatory.zip (taken.map some), ¬o.1.writes v) → out.mem v = .char 0
  /-- Any other variable that no named entry points to is unchanged. -/
  unchanged : ∀ v, v ≠ .cPrintVersion → v ≠ .cPrintHelp →
    (∀ e ∈ table.entries, e.pbPresent ≠ some v) →
    (∀ o ∈ occs ++ table.mandatory.zip (taken.map some), ¬o.1.writes v) → out.mem v = mem v
  /-- The arguments were only permuted, with the operands at the end. -/
  permuted : ∃ scanned, (scanned ++ (taken ++ left)).Perm args ∧
    out.argv = name :: (scanned ++ (taken ++ left))
  /-- An open-ended table returns the index of the first argument that is left. -/
  index : table.openEnded = true → out.result = (out.argv.length : ℤ) - left.length ∧
    out.argv.drop out.result.toNat = left
  /-- Any other table leaves no argument and returns 0. -/
  noneLeft : table.openEnded = false → out.result = 0 ∧ left = []

/-- The entry has a long form: its label can be written behind two dashes. -/
def CmdOptEntry.HasLong (e : CmdOptEntry) : Prop :=
  e.endsTable = false ∧ e.szLabelStr ≠ [] ∧ equals ∉ e.szLabelStr

/-- The elements that write the short option at the head of a cluster in its long form. -/
inductive LongForm (es : List CmdOptEntry) : Bytes → List Bytes → Prop where
  | flag {e c tail} : e ∈ es → e.short = some c → e.HasLong → e.hasArg = false →
      tail.head? ≠ some dash →
      LongForm es (c :: tail) ((dash :: dash :: e.szLabelStr) :: dashed tail)
  | attached {e c arg} : e ∈ es → e.short = some c → e.HasLong → e.hasArg = true → arg ≠ [] →
      LongForm es (c :: arg) [dash :: dash :: (e.szLabelStr ++ equals :: arg)]
  | separate {e c} : e ∈ es → e.short = some c → e.HasLong → e.hasArg = true →
      LongForm es [c] [dash :: dash :: e.szLabelStr]

/-- Two runs end in the same way, the second one on so many elements more: they
stop for the same reason, or they leave the same variables and the same
arguments, whose index only moves by the elements in front of them. -/
def SameParse (openEnded : Bool) (more : ℕ) (first second : Except Stop Parsed) : Prop :=
  match first, second with
  | .ok p, .ok q => q.mem = p.mem ∧ q.result = p.result + (if openEnded then (more : ℤ) else 0) ∧
      (openEnded = true → q.argv.drop q.result.toNat = p.argv.drop p.result.toNat)
  | .error a, .error b => a = b
  | _, _ => False

/-- The index leads to the arguments that are left. -/
theorem drop_returned (name : Bytes) (scanned taken left : List Bytes) :
    (name :: (scanned ++ (taken ++ left))).drop
      (returned (scanned.length + (taken ++ left).length + 1) (some left)).toNat = left := by
  have hindex : (returned (scanned.length + (taken ++ left).length + 1) (some left)).toNat =
      (name :: (scanned ++ taken)).length := by
    simp only [returned, List.length_append, List.length_cons]
    omega
  rw [hindex, ← List.append_assoc, ← List.cons_append]
  exact List.drop_left

/-- A run that returns has hit the entries of its command line. -/
theorem hits_of_ok (table : Table) (posixlyCorrect : Bool) (name : Bytes) (args : List Bytes)
    (mem : Memory) {out : Parsed}
    (h : cmdOptParse posixlyCorrect name args table.array mem = .ok out) :
    ∃ occs taken left, Hits table posixlyCorrect name args mem out occs taken left := by
  have hes := table.wellFormed
  obtain ⟨scanned, hperm, hrun⟩ := cmdOptParse_eq table posixlyCorrect name args
  rw [hrun] at h
  obtain ⟨mem₁, hloop, hfinish⟩ := bind_ok h
  obtain ⟨occs, hoccs, happly⟩ := applyDecoded_ok _ hloop
  have hline := commandLine_of_scan hes posixlyCorrect args occs hoccs
  obtain ⟨left', htake, hresult, hargv⟩ := finish_ok hfinish
  rw [takeMandatory_all] at htake
  obtain ⟨taken, left, hops, hserved, hmandatory, hleft⟩ :=
    takeMandatory_ok table.entries table.openLast htake
  rw [hops] at hline hperm hargv hresult
  have hall : applyAll (occs ++ table.mandatory.zip (taken.map some))
      (startMemory table.all mem) = .ok out.mem := by
    rw [applyAll_append, happly]
    exact hmandatory
  refine ⟨occs, taken, left, hline, fun occs' ops' h' => hline.unique hes h', hserved, hall,
    ?_, ?_, ?_, ⟨scanned, hperm, hargv⟩, ?_, ?_⟩
  · intro before o after v hsplit hafter
    rw [hsplit] at hall
    obtain ⟨mem₁, hbefore, hrest⟩ := applyAll_split hall
    obtain ⟨mem₂, hupdate, hlast⟩ := applyAll_cons hrest
    exact ⟨mem₁, mem₂, hbefore, hupdate, applyAll_frame hlast hafter⟩
  · intro e he v hflag hnamed
    rw [applyAll_frame hall hnamed]
    exact clear_zero _ (.inr ⟨e, List.mem_append_right _ he, hflag⟩)
  · intro v hversion hhelp hflag hnamed
    rw [applyAll_frame hall hnamed, startMemory, clear_other, Memory.set_other _ hhelp,
      Memory.set_other _ hversion]
    intro e he
    rcases List.mem_append.mp he with he | he
    · have hlibrary : ∀ e ∈ libraryEntries, e.pbPresent = none := by decide
      rw [hlibrary e he]
      exact fun h => by cases h
    · exact hflag e he
  · intro hopen
    rw [Table.openEnded] at hopen
    rw [hopen, if_pos rfl] at hleft
    rw [hleft] at hresult
    refine ⟨?_, by rw [hargv, hresult, drop_returned]⟩
    rw [hresult, hargv, returned]
    simp only [List.length_append, List.length_cons]
  · intro hopen
    rw [Table.openEnded] at hopen
    rw [hopen, if_neg (by decide)] at hleft
    rw [hleft.1] at hresult
    exact ⟨hresult, hleft.2⟩

/-- The ways to end that are left for a table that passes the checks. -/
def Stop.Regular (stop : Stop) : Prop :=
  stop = .fault ∨ stop = .version ∨ ∃ wrong, stop = .usage wrong

/-- A store fails at `NULL` only. -/
theorem storeThrough_error {ptr : Option Var} {x : Value} {mem : Memory} {stop : Stop}
    (h : storeThrough ptr x mem = .error stop) : stop = .fault := by
  cases ptr with
  | none =>
    cases h
    rfl
  | some v => cases h

/-- `updateVar` fails at `NULL` only. -/
theorem updateVar_error {e : CmdOptEntry} {szStr : Option Bytes} {mem : Memory} {stop : Stop}
    (h : updateVar e szStr mem = .error stop) : stop = .fault := by
  rcases bind_error h with hstore | ⟨mem₁, -, hpresent⟩
  · rw [storeValue.eq_def] at hstore
    split at hstore
    · exact storeThrough_error hstore
    · split at hstore
      · cases hstore
        rfl
      · split at hstore
        · exact storeThrough_error hstore
        · cases hstore
    · exact storeThrough_error hstore
    · cases hstore
    · cases hstore
    · cases hstore
  · cases hpresent

/-- The loop over the options ends in the usage or at `NULL`. -/
theorem applyDecoded_error (ds : List (Option Occurrence)) {mem : Memory} {stop : Stop}
    (h : ds.foldlM applyDecoded mem = .error stop) : stop.Regular := by
  induction ds generalizing mem with
  | nil => cases h
  | cons d ds ih =>
    rw [List.foldlM_cons] at h
    cases d with
    | none =>
      cases h
      exact .inr (.inr ⟨false, rfl⟩)
    | some o =>
      rcases bind_error h with hupdate | ⟨mem₁, -, hrest⟩
      · exact .inl (updateVar_error hupdate)
      · exact ih hrest

/-- The loop over the mandatory arguments ends in the usage or at `NULL`. -/
theorem takeMandatory_error (es : List CmdOptEntry) {ops : List Bytes} {mem : Memory} {stop : Stop}
    (h : takeMandatory es ops mem = .error stop) : stop.Regular := by
  induction es generalizing ops mem with
  | nil =>
    rw [takeMandatory] at h
    split at h
    · cases h
    · cases h
      exact .inr (.inr ⟨true, rfl⟩)
  | cons e es ih =>
    rw [takeMandatory.eq_def] at h
    dsimp only at h
    split at h
    · exact ih h
    split at h
    · cases h
    cases ops with
    | nil =>
      cases h
      exact .inr (.inr ⟨true, rfl⟩)
    | cons b ops =>
      dsimp only at h
      split at h
      · cases h
      rcases bind_error h with hupdate | ⟨mem₁, -, hrest⟩
      · exact .inl (updateVar_error hupdate)
      · exact ih hrest

/-- A table that passes the checks is never too long, and the calls of the
scanner are enough. -/
theorem cmdOptParse_regular (table : Table) (posixlyCorrect : Bool) (name : Bytes)
    (args : List Bytes) (mem : Memory) {stop : Stop}
    (h : cmdOptParse posixlyCorrect name args table.array mem = .error stop) : stop.Regular := by
  obtain ⟨scanned, -, hrun⟩ := cmdOptParse_eq table posixlyCorrect name args
  rw [hrun] at h
  rcases bind_error h with hloop | ⟨mem₁, -, hfinish⟩
  · exact applyDecoded_error _ hloop
  · rw [finish] at hfinish
    split at hfinish
    · cases hfinish
      exact .inr (.inl rfl)
    split at hfinish
    · cases hfinish
      exact .inr (.inr ⟨false, rfl⟩)
    rcases bind_error hfinish with htake | ⟨x, -, hout⟩
    · exact takeMandatory_error _ htake
    · cases hout

/-- What the replies to some arguments stand for, with the operands. -/
def meaning (posixlyCorrect : Bool) (es : List CmdOptEntry) (args : List Bytes) :
    List (Option Occurrence) × List Bytes :=
  ((scan (tablesOf posixlyCorrect es) args).1.map (decodeReply es),
    (scan (tablesOf posixlyCorrect es) args).2)

/-- What the replies behind a reading stand for, with the operands. -/
def meaningBehind (posixlyCorrect : Bool) (es : List CmdOptEntry) (reading : Reading)
    (args : List Bytes) : List (Option Occurrence) × List Bytes :=
  ((resume (tablesOf posixlyCorrect es) reading args).1.map (decodeReply es),
    (resume (tablesOf posixlyCorrect es) reading args).2)

section Forms

variable {es : List CmdOptEntry} {posixlyCorrect : Bool}

/-- An option that waits, by the entry it waits for. -/
theorem meaningBehind_waits {v v' : ℤ} (h : decode es v = decode es v') (args : List Bytes) :
    meaningBehind posixlyCorrect es ⟨[], some v⟩ args =
      meaningBehind posixlyCorrect es ⟨[], some v'⟩ args := by
  cases args with
  | nil => rfl
  | cons b args =>
    simp only [meaningBehind, resume, List.nil_append, List.map_cons, decodeReply, h]

/-- Replies in front of a reading, by what they stand for. -/
theorem meaningBehind_behind (posixlyCorrect : Bool) (es : List CmdOptEntry) (rs : List Reply)
    (reading : Reading) (args : List Bytes) :
    meaningBehind posixlyCorrect es (reading.behind rs) args =
      (rs.map (decodeReply es) ++ (meaningBehind posixlyCorrect es reading args).1,
        (meaningBehind posixlyCorrect es reading args).2) := by
  rw [meaningBehind, resume_behind, List.map_append]
  rfl

/-- A cluster as an element of its own. -/
theorem meaning_dashed {cs : Bytes} (hcs : cs.head? ≠ some dash) (args : List Bytes) :
    meaning posixlyCorrect es (dashed cs ++ args) =
      meaningBehind posixlyCorrect es (cluster (tablesOf posixlyCorrect es) cs) args := by
  rw [meaning, scan_dashed _ hcs]
  rfl

/-- Behind an empty reading the scan goes on. -/
theorem meaningBehind_empty (args : List Bytes) :
    meaningBehind posixlyCorrect es ⟨[], none⟩ args = meaning posixlyCorrect es args := by
  rw [meaningBehind, resume_empty]
  rfl

/-- An element that starts with two dashes. -/
theorem meaning_long {body : Bytes} (hbody : body ≠ []) (args : List Bytes) :
    meaning posixlyCorrect es ((dash :: dash :: body) :: args) =
      meaningBehind posixlyCorrect es (longReading (tablesOf posixlyCorrect es) body) args := by
  rw [meaning, scan_element _ (fun h => hbody (by simpa using h)) (by simp [isOperand]), element,
    if_pos rfl]
  rfl

/-- The head of a cluster means the same in its long form. -/
theorem meaning_longForm (hes : WellFormed es) {cs : Bytes} {ys : List Bytes}
    (h : LongForm es cs ys) (post : List Bytes) :
    meaning posixlyCorrect es (ys ++ post) =
      meaningBehind posixlyCorrect es (cluster (tablesOf posixlyCorrect es) cs) post := by
  cases h with
  | @flag e c tail he hc hlong harg htail =>
    obtain ⟨hends, hlabel, hequals⟩ := hlong
    obtain ⟨i, hi, hlook⟩ := longOption_complete hes (.exact he hends)
    rw [List.cons_append, meaning_long hlabel, longReading, splitValue_name hequals, tablesOf,
      hlook, longAt, harg, cluster, shortOption_complete hes he hc, harg]
    have hfirst := meaningBehind_behind posixlyCorrect es
      [⟨(longAt e i).val, none⟩] ⟨[], none⟩ (dashed tail ++ post)
    rw [meaningBehind_empty, meaning_dashed htail, List.map_singleton,
      decodeReply_long hes hi none] at hfirst
    have hsecond := meaningBehind_behind posixlyCorrect es
      [⟨c.toNat, none⟩] (cluster (tablesOf posixlyCorrect es) tail) post
    rw [List.map_singleton, decodeReply_short hes he hc none] at hsecond
    exact hfirst.trans hsecond.symm
  | @attached e c arg he hc hlong harg hne =>
    obtain ⟨hends, hlabel, hequals⟩ := hlong
    obtain ⟨i, hi, hlook⟩ := longOption_complete hes (.exact he hends)
    rw [List.singleton_append, meaning_long (by simp), longReading, splitValue_append hequals,
      tablesOf, hlook, longAt, harg, cluster, shortOption_complete hes he hc, harg]
    simp only [if_neg hne]
    have hfirst := meaningBehind_behind posixlyCorrect es
      [⟨(longAt e i).val, some arg⟩] ⟨[], none⟩ post
    have hsecond := meaningBehind_behind posixlyCorrect es
      [⟨c.toNat, some arg⟩] ⟨[], none⟩ post
    rw [List.map_singleton, decodeReply_long hes hi (some arg)] at hfirst
    rw [List.map_singleton, decodeReply_short hes he hc (some arg)] at hsecond
    exact hfirst.trans hsecond.symm
  | @separate e c he hc hlong harg =>
    obtain ⟨hends, hlabel, hequals⟩ := hlong
    obtain ⟨i, hi, hlook⟩ := longOption_complete hes (.exact he hends)
    rw [List.singleton_append, meaning_long hlabel, longReading, splitValue_name hequals, tablesOf,
      hlook, longAt, harg, cluster, shortOption_complete hes he hc, harg]
    exact meaningBehind_waits ((decode_long hi hes).trans (decode_short hes he hc).symm) post

/-- A short option means the same in its long form, wherever it stands in a cluster. -/
theorem meaning_lengthened (hes : WellFormed es) {flags cs : Bytes} {ys : List Bytes}
    (hflags : ∀ d ∈ flags, ∃ e ∈ es, e.short = some d ∧ e.hasArg = false)
    (h : LongForm es cs ys) (post : List Bytes) :
    meaning posixlyCorrect es (dashed flags ++ (ys ++ post)) =
      meaning posixlyCorrect es ((dash :: (flags ++ cs)) :: post) := by
  have hdash : ∀ e ∈ es, ∀ d, e.short = some d → d ≠ dash := by
    intro e he d hd
    obtain ⟨halnum, rfl⟩ := hes.alnum he hd
    exact (isAlnum_byte halnum).2.2
  have hlooks : ∀ d ∈ flags, shortOption (tablesOf posixlyCorrect es).optstring d = some false := by
    intro d hd
    obtain ⟨e, he, hshort, harg⟩ := hflags d hd
    exact (shortOption_complete hes he hshort).trans (by rw [harg])
  obtain ⟨c, tail, hcs, hc⟩ : ∃ c tail, cs = c :: tail ∧ c ≠ dash := by
    cases h with
    | flag he hc _ _ _ => exact ⟨_, _, rfl, hdash _ he _ hc⟩
    | attached he hc _ _ _ => exact ⟨_, _, rfl, hdash _ he _ hc⟩
    | separate he hc _ _ => exact ⟨_, _, rfl, hdash _ he _ hc⟩
  have hflagsHead : flags.head? ≠ some dash := by
    cases flags with
    | nil => exact fun h => by cases h
    | cons d flags =>
      obtain ⟨e, he, hshort, -⟩ := hflags d (List.mem_cons_self ..)
      exact fun h => hdash e he d hshort (Option.some.inj h)
  have hhead : (flags ++ cs).head? ≠ some dash := by
    cases flags with
    | nil =>
      rw [List.nil_append, hcs]
      exact fun h => hc (Option.some.inj h)
    | cons d flags => exact hflagsHead
  have helement : (dash :: (flags ++ cs)) :: post = dashed (flags ++ cs) ++ post := by
    rw [dashed, if_neg (by rw [hcs]; simp)]
    rfl
  have hwhole := cluster_flags (tablesOf posixlyCorrect es) hlooks cs
  have hfront := cluster_flags (tablesOf posixlyCorrect es) hlooks []
  rw [List.append_nil, cluster] at hfront
  rw [helement, meaning_dashed hhead, meaning_dashed hflagsHead, hwhole, hfront,
    meaningBehind_behind, meaningBehind_behind, meaningBehind_empty, meaning_longForm hes h]

/-- What stands behind elements that have been read can be exchanged. -/
theorem Words.exchange {rest args ops : List Bytes} {occs : List Occurrence}
    (h : Words posixlyCorrect es rest args occs ops) :
    ∃ pre, args = pre ++ rest ∧ ∀ rest', Words posixlyCorrect es rest' (pre ++ rest') occs ops := by
  induction h with
  | done => exact ⟨[], rfl, fun _ => .done⟩
  | @operand a _ _ _ hposix ha _ ih =>
    obtain ⟨pre, rfl, hwords⟩ := ih
    exact ⟨a :: pre, rfl, fun rest' => .operand hposix ha (hwords rest')⟩
  | @options a _ _ _ _ ha _ ih =>
    obtain ⟨pre, rfl, hwords⟩ := ih
    exact ⟨a :: pre, rfl, fun rest' => .options ha (hwords rest')⟩
  | @waiting a b _ _ _ _ _ ha _ ih =>
    obtain ⟨pre, rfl, hwords⟩ := ih
    exact ⟨a :: b :: pre, rfl, fun rest' => .waiting ha (hwords rest')⟩

/-- Elements that have been read, by what they mean. -/
theorem meaning_words (hes : WellFormed es) {rest args ops : List Bytes} {occs : List Occurrence}
    (h : Words posixlyCorrect es rest args occs ops) :
    meaning posixlyCorrect es args =
      (occs.map some ++ (meaning posixlyCorrect es rest).1,
        ops ++ (meaning posixlyCorrect es rest).2) := by
  obtain ⟨rs, hrs, hscan⟩ := scan_words hes h
  rw [meaning, hscan, List.map_append, hrs]
  rfl

end Forms

/-- Arguments with one meaning end in the same way. -/
theorem sameParse_of_meaning (table : Table) (posixlyCorrect : Bool) (name : Bytes)
    {first second : List Bytes} (mem : Memory) {more : ℕ}
    (hmore : second.length = first.length + more)
    (h : meaning posixlyCorrect table.all first = meaning posixlyCorrect table.all second) :
    SameParse table.openEnded more (cmdOptParse posixlyCorrect name first table.array mem)
      (cmdOptParse posixlyCorrect name second table.array mem) := by
  obtain ⟨hreplies, hoperands⟩ := Prod.mk.inj h
  obtain ⟨scanned, hperm, hfirst⟩ := cmdOptParse_eq table posixlyCorrect name first
  obtain ⟨scanned', hperm', hsecond⟩ := cmdOptParse_eq table posixlyCorrect name second
  rw [← hoperands] at hperm'
  rw [hfirst, hsecond, ← hreplies, ← hoperands]
  have hlength := hperm.length_eq
  have hlength' := hperm'.length_eq
  rw [List.length_append] at hlength hlength'
  generalize (scan (tablesOf posixlyCorrect table.all) first).2 = ops at hlength hlength' ⊢
  have hscanned : scanned'.length = scanned.length + more := by omega
  cases ((scan (tablesOf posixlyCorrect table.all) first).1.map
    (decodeReply table.all)).foldlM applyDecoded (startMemory table.all mem) with
  | error stop => exact rfl
  | ok mem₁ =>
    change SameParse table.openEnded more (finish table.all name scanned ops mem₁)
      (finish table.all name scanned' ops mem₁)
    rw [finish, finish]
    split
    · exact rfl
    split
    · exact rfl
    cases htake : takeMandatory table.all ops mem₁ with
    | error stop => exact rfl
    | ok x =>
      obtain ⟨left', mem'⟩ := x
      have htakes := htake
      rw [takeMandatory_all] at htakes
      obtain ⟨taken, left, rfl, -, -, hleft⟩ := takeMandatory_ok table.entries table.openLast htakes
      cases hopen : table.openEnded with
      | true =>
        rw [Table.openEnded] at hopen
        rw [hopen, if_pos rfl] at hleft
        rw [hleft]
        refine ⟨rfl, ?_, fun _ => (drop_returned name scanned' taken left).trans
          (drop_returned name scanned taken left).symm⟩
        simp only [returned, hscanned, if_true]
        omega
      | false =>
        rw [Table.openEnded] at hopen
        rw [hopen, if_neg (by decide)] at hleft
        rw [hleft.1]
        exact ⟨rfl, rfl, fun h => by cases h⟩

/-- A long form has at least one element. -/
theorem LongForm.length_pos {es : List CmdOptEntry} {cs : Bytes} {ys : List Bytes}
    (h : LongForm es cs ys) : 0 < ys.length := by
  cases h <;> exact Nat.succ_pos _

/-- A run that returns has applied every option of its command line to the
entry of that option and to no other, has given the first operands to the
mandatory entries and returns the index of the rest; writing a short option in
its long form makes no difference. -/
theorem cmdOptParse_hits (table : Table) (posixlyCorrect : Bool) (name : Bytes) (mem : Memory) :
    (∀ args out, cmdOptParse posixlyCorrect name args table.array mem = .ok out →
      ∃ occs taken left, Hits table posixlyCorrect name args mem out occs taken left) ∧
    ∀ pre post flags cs ys occs ops,
      (∀ d ∈ flags, ∃ e ∈ table.all, e.short = some d ∧ e.hasArg = false) →
      LongForm table.all cs ys →
      Words posixlyCorrect table.all ((dash :: (flags ++ cs)) :: post)
        (pre ++ (dash :: (flags ++ cs)) :: post) occs ops →
      SameParse table.openEnded ((dashed flags).length + ys.length - 1)
        (cmdOptParse posixlyCorrect name (pre ++ (dash :: (flags ++ cs)) :: post) table.array mem)
        (cmdOptParse posixlyCorrect name (pre ++ (dashed flags ++ (ys ++ post))) table.array
          mem) := by
  have hes := table.wellFormed
  refine ⟨fun args out h => hits_of_ok table posixlyCorrect name args mem h, ?_⟩
  intro pre post flags cs ys occs ops hflags hform hwords
  obtain ⟨pre', hpre, hexchange⟩ := hwords.exchange
  have hsame : pre = pre' := List.append_cancel_right hpre
  subst hsame
  have hpos := hform.length_pos
  refine sameParse_of_meaning table posixlyCorrect name mem ?_ ?_
  · simp only [List.length_append, List.length_cons]
    omega
  · rw [meaning_words hes hwords, meaning_words hes (hexchange _),
      meaning_lengthened hes hflags hform]

/-- An entry of a tool, by its option character, the name of its variable and
its label. The tools leave out the flag. -/
def toolEntry (type : CmdOptTypes) (cOptChar : Int8) (name label : String) : CmdOptEntry :=
  ⟨type, cOptChar, some (.named (text name)), text label, none⟩

/-- The table of `nvram`. -/
def nvramTable : Table where
  entries := [
    toolEntry .cotBool 101 "l_bOptDetailed" "error_detailed",
    toolEntry .cotBool 98 "g_markBadBlocks" "bad-block-marking",
    toolEntry .cotString 103 "szOSOutFile" "get_os_cfg",
    toolEntry .cotString 115 "szOSInFile" "set_os_cfg",
    toolEntry .cotString 111 "szOS" "os",
    toolEntry .cotBool 113 "quiet" "quiet",
    toolEntry .cotBool 109 "l_bManufMode" "manuf-mode",
    ⟨.cotMoreOpt, 0, none, text "", none⟩]
  terminator := ⟨.cotNone, 0, none, text "", none⟩
  few := by decide
  kinds := by decide
  ended := rfl
  chars := by decide
  charsDistinct := by decide
  labelsDistinct := by decide
  openLast := by decide

/-- `nvram -qo Linux print` returns the index of `print`, and
`nvram -q --os Linux print` does the same. -/
theorem cmdOptParse_hits_nvram :
    (∃ out, cmdOptParse false (text "nvram") [text "-qo", text "Linux", text "print"]
        nvramTable.array (fun _ => .char 0) = .ok out ∧ out.result = 3 ∧
      out.mem (.named (text "szOS")) = .string (some (text "Linux")) ∧
      ∃ occs taken left, Hits nvramTable false (text "nvram")
        [text "-qo", text "Linux", text "print"] (fun _ => .char 0) out occs taken left) ∧
    SameParse nvramTable.openEnded 1
      (cmdOptParse false (text "nvram") [text "-qo", text "Linux", text "print"]
        nvramTable.array (fun _ => .char 0))
      (cmdOptParse false (text "nvram") [text "-q", text "--os", text "Linux", text "print"]
        nvramTable.array (fun _ => .char 0)) := by
  obtain ⟨hreturns, hforms⟩ :=
    cmdOptParse_hits nvramTable false (text "nvram") (fun _ => .char 0)
  have hrun : (cmdOptParse false (text "nvram") [text "-qo", text "Linux", text "print"]
      nvramTable.array (fun _ => .char 0)).toOption.map
        (fun out => (out.result, out.mem (.named (text "szOS")))) =
      some (3, .string (some (text "Linux"))) := by decide +kernel
  have hquiet : ∀ d ∈ text "q", ∃ e ∈ nvramTable.all, e.short = some d ∧ e.hasArg = false := by
    decide +kernel
  have hos : LongForm nvramTable.all (text "o") [text "--os"] :=
    .separate (e := toolEntry .cotString 111 "szOS" "os") (by decide) (by decide)
      ⟨by decide, by decide, by decide⟩ (by decide)
  constructor
  · cases hout : cmdOptParse false (text "nvram") [text "-qo", text "Linux", text "print"]
      nvramTable.array (fun _ => .char 0) with
    | error stop =>
      rw [hout] at hrun
      cases hrun
    | ok out =>
      rw [hout] at hrun
      obtain ⟨hresult, hvalue⟩ := Prod.mk.inj (Option.some.inj hrun)
      exact ⟨out, rfl, hresult, hvalue, hreturns _ out hout⟩
  · exact hforms [] [text "Linux", text "print"] (text "q") (text "o") [text "--os"] [] [] hquiet
      hos .done

end MetaDigi.CmdOptions
