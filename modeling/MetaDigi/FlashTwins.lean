import MetaDigi.FlashImages
import MetaDigi.FlashStaging
import MetaDigi.SystemTwins

/-!
# Flashing the copies instead of the images

Once the images have been copied or summed, an update with a temporary
directory and one without it keep in step: they issue the same calls, but for
the names of the files. An external program is given the same file under
another name when the shell takes both command lines as they are.
-/

namespace MetaDigi.FlashTwins

open CStrings SystemProgram SystemRuns SystemTwins FlashTypes FlashInit FlashTransfer FlashMain
open FlashWorld FlashEffects FlashDevice FlashRecords FlashRuns FlashStaging FlashChecksum Prog

/-- Two command lines for files that correspond: they are the same, or a program
that is given their words is told the same, but for the name. -/
structure Retold (M : Path → Path → Prop) (ok : CommandLine → Bool) (cmd cmd' : CommandLine) :
    Prop where
  /-- The files correspond. -/
  image : M cmd.image cmd'.image
  /-- The lines are the same, or the names are words like the rest. -/
  words : cmd = cmd' ∨
    (ok cmd = true ∧ ok cmd' = true ∧ cmd.front = cmd'.front ∧ cmd.rest = cmd'.rest)

/-- One call, or two that differ in the names of files that correspond. -/
inductive Renamed (M : Path → Path → Prop) : Op → Op → Prop where
  /-- The same call. -/
  | same (o : Op) : Renamed M o o
  /-- Opening a file to read it. -/
  | openSrc {p p' : Path} (h : M p p') : Renamed M (.openSrc p) (.openSrc p')
  /-- Handing a file to `kobs-ng`. -/
  | kobsNg {cmd cmd' : CommandLine} (part : ℕ) (h : Retold M CommandLine.operand cmd cmd') :
    Renamed M (.kobsNg cmd part) (.kobsNg cmd' part)
  /-- Handing a file to `ubiformat`. -/
  | ubiformat {cmd cmd' : CommandLine} (part : ℕ) (h : Retold M CommandLine.plain cmd cmd') :
    Renamed M (.ubiformat cmd part) (.ubiformat cmd' part)

/-- Two systems on one machine that go on alike: from a time on, a call fails
in the one when it fails in the other, also when it names a file that
corresponds, and does the same to flash and memory. -/
structure Alike (M : Path → Path → Prop) (env env' : Env) (t t' : ℕ) : Prop where
  /-- It is one machine. -/
  machine : env' = { env with
    fails := env'.fails
    interfere := env'.interfere
    alter := env'.alter
    memory := env'.memory }
  /-- The same calls fail. -/
  fails : ∀ n o o', Renamed M o o' → env.fails (t + n) o = env'.fails (t' + n) o'
  /-- Flash turns out the same. -/
  alter : ∀ n, env.alter (t + n) = env'.alter (t' + n)
  /-- Fresh memory holds the same. -/
  memory : ∀ n, env.memory (t + n) = env'.memory (t' + n)

/-- A call that has to do with no file. -/
def Fileless (o : Op) : Prop :=
  callKind o ≠ .reads ∧ callKind o ≠ .files ∧ callKind o ≠ .external

/-- The states of two runs that keep in step, apart from the files. -/
structure Beside (t t' : ℕ) (w w' : World) : Prop where
  /-- As many calls have been made. -/
  clock : ∃ n, w.time = t + n ∧ w'.time = t' + n
  /-- The flash is the same. -/
  mem : w.mem = w'.mem
  /-- The same has been done to it. -/
  log : w.log = w'.log
  /-- The same is left of the file below `/proc`. -/
  proc : w.proc = w'.proc
  /-- The same is left of the mount table. -/
  mounts : w.mounts = w'.mounts

/-- The states of two runs that keep in step. -/
structure Together (M : Path → Path → Prop) (t t' : ℕ) (w w' : World) : Prop
    extends Beside t t' w w' where
  /-- The files that are read correspond. -/
  src : (w.src = none ∧ w'.src = none) ∨
    ∃ p p' pos, M p p' ∧ w.src = some (p, pos) ∧ w'.src = some (p', pos)
  /-- Files that correspond are the same. -/
  files : ∀ p p', M p p' → w.files p = w'.files p'

section Steps

variable {M : Path → Path → Prop} {env env' : Env} {t t' : ℕ} {w w' : World}

/-- The turn of the other processes. -/
theorem Beside.enter (env env' : Env) (h : Beside t t' w w') :
    Beside t t' (w.enter env) (w'.enter env') := by
  obtain ⟨n, hn, hn'⟩ := h.clock
  exact ⟨⟨n + 1, by rw [World.enter, hn, Nat.add_assoc], by rw [World.enter, hn', Nat.add_assoc]⟩,
    h.mem, h.log, h.proc, h.mounts⟩

/-- The turn of the other processes. -/
theorem Together.enter (hstill : Still env) (hstill' : Still env')
    (h : Together M t t' w w') : Together M t t' (w.enter env) (w'.enter env') := by
  refine ⟨h.toBeside.enter env env', h.src, fun p p' hp => ?_⟩
  rw [files_enter hstill, files_enter hstill']
  exact h.files p p' hp

/-- The same is done to flash. -/
theorem Beside.touch (halike : Alike M env env' t t') (h : Beside t t' w w')
    (effect : Effect) : Beside t t' (w.touch env effect) (w'.touch env' effect) := by
  obtain ⟨n, hn, hn'⟩ := h.clock
  refine ⟨h.clock, ?_, ?_, h.proc, h.mounts⟩
  · unfold World.touch
    rw [hn, hn', halike.alter n, h.mem]
  · unfold World.touch
    rw [h.log]

/-- A call without a file is answered in the same way. -/
theorem respond_fileless (halike : Alike M env env' t t') (h : Beside t t' w w')
    (failed : Bool) {o : Op} (ho : Fileless o) :
    (respond env failed o w).1 = (respond env' failed o w').1 ∧
      Beside t t' (respond env failed o w).2 (respond env' failed o w').2 := by
  obtain ⟨n, hn, hn'⟩ := h.clock
  have hmemory : env.memory w.time = env'.memory w'.time := by rw [hn, hn', halike.memory n]
  obtain ⟨fails, interfere, alter, memory, rfl⟩ : ∃ fails interfere alter memory,
      env' = { env with
        fails := fails
        interfere := interfere
        alter := alter
        memory := memory } := ⟨_, _, _, _, halike.machine⟩
  cases o with
  | malloc size =>
    dsimp only [respond]
    rw [hmemory]
    exact ⟨rfl, h⟩
  | localArray size =>
    dsimp only [respond]
    rw [hmemory]
    exact ⟨rfl, h⟩
  | pread part size offset =>
    have hmem := h.mem
    dsimp only [respond]
    simp only [hmem]
    exact ⟨trivial, h⟩
  | memErase part start length => exact ⟨rfl, h.touch halike (.erase part start length)⟩
  | memWriteOob part start data => exact ⟨rfl, h.touch halike (.writeOob part start data)⟩
  | memSetBadBlock part offset => exact ⟨rfl, h.touch halike (.markBad part offset)⟩
  | pwrite part data offset => exact ⟨rfl, h.touch halike (.write part offset data)⟩
  | fopenProc path => exact ⟨rfl, h.clock, h.mem, h.log, rfl, h.mounts⟩
  | openProc path => exact ⟨rfl, h.clock, h.mem, h.log, rfl, h.mounts⟩
  | setmntent => exact ⟨rfl, h.clock, h.mem, h.log, h.proc, rfl⟩
  | getmntent =>
    have hmounts := h.mounts
    dsimp only [respond]
    rw [hmounts]
    exact ⟨rfl, h.clock, h.mem, h.log, h.proc, rfl⟩
  | fgetsProc size =>
    have hproc := h.proc
    dsimp only [respond]
    simp only [hproc]
    split
    · exact ⟨rfl, h⟩
    · exact ⟨rfl, h.clock, h.mem, h.log, rfl, h.mounts⟩
  | readProc size =>
    have hproc := h.proc
    dsimp only [respond]
    simp only [hproc]
    exact ⟨trivial, h.clock, h.mem, h.log, rfl, h.mounts⟩
  | _ => first
    | exact absurd rfl ho.1
    | exact absurd rfl ho.2.1
    | exact absurd rfl ho.2.2
    | exact ⟨rfl, h⟩
    | exact ⟨rfl, h.clock, h.mem, h.log, h.proc, h.mounts⟩

/-- It leaves the files alone, and how far they have been read. -/
theorem respond_fileless_kept (env : Env) (failed : Bool) {o : Op} (w : World)
    (ho : Fileless o) :
    (respond env failed o w).2.files = w.files ∧ (respond env failed o w).2.src = w.src := by
  cases o <;> first
    | exact absurd rfl ho.1
    | exact absurd rfl ho.2.1
    | exact absurd rfl ho.2.2
    | exact ⟨rfl, rfl⟩
    | (dsimp only [respond]
       split <;> exact ⟨rfl, rfl⟩)

/-- The same is done to flash by a program that is told the same. -/
theorem Together.flasher (halike : Alike M env env' t t') (h : Together M t t' w w')
    {ok : CommandLine → Bool} {cmd cmd' : CommandLine} (hcmd : Retold M ok cmd cmd')
    (part : ℕ) : Together M t t' (w.touch env (flashing w.files (ok cmd) cmd part))
      (w'.touch env' (flashing w'.files (ok cmd') cmd' part)) := by
  have hfile := h.files _ _ hcmd.image
  have heffect : flashing w.files (ok cmd) cmd part = flashing w'.files (ok cmd') cmd' part := by
    rcases hcmd.words with rfl | ⟨hok, hok', hfront, hrest⟩
    · simp only [flashing, hfile]
    · simp only [flashing, hok, hok', if_true, hfront, hrest, hfile]
  rw [heffect]
  exact ⟨h.toBeside.touch halike _, h.src, h.files⟩

/-- In states that are beside each other the same calls fail. -/
theorem Beside.fails (halike : Alike M env env' t t') (h : Beside t t' w w') {o o' : Op}
    (ho : Renamed M o o') : env.fails w.time o = env'.fails w'.time o' := by
  obtain ⟨n, hn, hn'⟩ := h.clock
  rw [hn, hn']
  exact halike.fails n o o' ho

end Steps

/-- The options without a temporary directory. -/
abbrev withoutTmpDir (g : Globals) : Globals := { g with szTmpDir := none }

/-- The command line for `kobs-ng` when a file of this name is flashed. -/
def kobsLine (g : Globals) (pMtd : MtdPartition) (name : Path) : CommandLine :=
  kobsCommand g (reopened g { pMtd with szImageFileName := name })

/-- The command line for `ubiformat` then. -/
def ubiLine (g : Globals) (pMtd : MtdPartition) (name : Path) : CommandLine :=
  (ubiCommand (reopened g { pMtd with szImageFileName := name })).cut 255

/-- An external program that flashes an image gets the same file under either of
two names: the command lines fit into their arrays, and the shell takes the
names as they are. -/
structure Handed (g : Globals) (pMtd : MtdPartition) (name name' : Path) : Prop where
  /-- The lines for `kobs-ng` are whole. -/
  kobsFits : pMtd.ePartType = .ptBootstream →
    (kobsLine g pMtd name).line.length < 1024 ∧ (kobsLine g pMtd name').line.length < 1024
  /-- The names are words that do not look like options. -/
  kobsWords : pMtd.ePartType = .ptBootstream → name = name' ∨
    ((kobsLine g pMtd name).operand = true ∧ (kobsLine g pMtd name').operand = true)
  /-- The names in the lines for `ubiformat` are whole. -/
  ubiFits : pMtd.ePartType ≠ .ptBootstream → pMtd.eFileType = .ftUBI →
    (ubiLine g pMtd name).image = name ∧ (ubiLine g pMtd name').image = name'
  /-- The names are words, and the lines go on in the same way behind them. -/
  ubiWords : pMtd.ePartType ≠ .ptBootstream → pMtd.eFileType = .ftUBI → name = name' ∨
    ((ubiLine g pMtd name).plain = true ∧ (ubiLine g pMtd name').plain = true ∧
      (ubiLine g pMtd name).rest = (ubiLine g pMtd name').rest)

/-- External programs do not look at what copying changes. -/
theorem Handed.restaged {g : Globals} {name name' : Path} {p : MtdPartition} (h : Handed g p name name')
    (x : Staging) : Handed g (restaged p x) name name' :=
  ⟨h.kobsFits, h.kobsWords, h.ubiFits, h.ubiWords⟩

/-- Two records of one image, up to what copying and summing change. -/
structure Mirrors (g : Globals) (M : Path → Path → Prop) (q q' : MtdPartition) : Prop where
  /-- The records differ in what copying and summing change. -/
  record : ∃ x, q = restaged q' x
  /-- The file that is compared is the same. -/
  orig : M q'.szOrigImageFileName q'.szOrigImageFileName
  /-- A checksum on the command line is the same. -/
  checksum : g.cHasChecksum = true →
    q.uiCRC32 = q'.uiCRC32 ∧ q.cChecksumCalculated = q'.cChecksumCalculated

/-- One record stands for another: it flashes a file that corresponds. -/
structure StandsFor (g : Globals) (M : Path → Path → Prop) (q q' : MtdPartition) : Prop
    extends Mirrors g M q q' where
  /-- The files correspond. -/
  image : M q.szImageFileName q'.szImageFileName
  /-- External programs get the one for the other. -/
  handed : Handed g q' q.szImageFileName q'.szImageFileName

section Programs

variable {M : Path → Path → Prop} {g : Globals} {q q' : MtdPartition}

/-- Both are opened again. -/
theorem Mirrors.reopened (h : Mirrors g M q q') : Mirrors g M (reopened g q) (reopened g q') := by
  obtain ⟨x, hx⟩ := h.record
  refine ⟨⟨x, ?_⟩, h.orig, h.checksum⟩
  rw [hx]
  rfl

/-- Both are closed. -/
theorem Mirrors.closed (h : Mirrors g M q q') :
    Mirrors g M { q with isOpen := false } { q' with isOpen := false } := by
  obtain ⟨x, hx⟩ := h.record
  refine ⟨⟨x, ?_⟩, h.orig, h.checksum⟩
  rw [hx]
  rfl

/-- Both are opened again. -/
theorem StandsFor.reopened (h : StandsFor g M q q') :
    StandsFor g M (reopened g q) (reopened g q') :=
  ⟨h.toMirrors.reopened, h.image, h.handed.kobsFits, h.handed.kobsWords, h.handed.ubiFits,
    h.handed.ubiWords⟩

/-- The loop variables of two runs of `MtdPartWrite`; their checksums may
differ when none is asked for. -/
structure SamePlace (g : Globals) (st st' : WriteState) : Prop where
  /-- The same page is next. -/
  offs : st.iCurrentOffs = st'.iCurrentOffs
  /-- As many bytes have been read. -/
  total : st.iBytesReadTotal = st'.iBytesReadTotal
  /-- A checksum that is asked for is the same. -/
  sum : g.cHasChecksum = true → st.uiCRC32 = st'.uiCRC32

/-- The record with the checksum of what has been written. -/
theorem Mirrors.written (h : Mirrors g M q q') {uiCRC32 uiCRC32' : Crc}
    (hsum : g.cHasChecksum = true → uiCRC32 = uiCRC32') :
    Mirrors g M (recordWritten q uiCRC32) (recordWritten q' uiCRC32') := by
  refine ⟨?_, ?_, fun hset => ?_⟩
  · obtain ⟨x, hx⟩ := h.record
    refine ⟨⟨x.szImageFileName, (recordWritten q uiCRC32).uiCRC32,
      (recordWritten q uiCRC32).cChecksumSet, (recordWritten q uiCRC32).cChecksumCalculated,
      x.cAlreadyPrintedVerifyWarning⟩, ?_⟩
    rw [hx]
    unfold recordWritten
    split <;> split <;> rfl
  · have horig : (recordWritten q' uiCRC32').szOrigImageFileName = q'.szOrigImageFileName := by
      unfold recordWritten
      split <;> rfl
    rw [horig]
    exact h.orig
  · obtain ⟨hcrc, hcalc⟩ := h.checksum hset
    unfold recordWritten
    rw [hcalc]
    split
    · exact ⟨hcrc, hcalc⟩
    · exact ⟨hsum hset, rfl⟩

end Programs

/-- The part of an update that works on the partitions. -/
def flashParts (g : Globals) (parts : List MtdPartition) : Flash (List MtdPartition) :=
  remountAll g noRootDev parts >>= fun parts => Prog.mapList (updatePart g) parts

end MetaDigi.FlashTwins
