import MetaDigi.FlashTwins
import MetaDigi.FlashFaithful
import MetaDigi.EnvStore
import MetaDigi.EnvRepeats
import MetaDigi.EnvBuffers
import MetaDigi.EnvFits
import MetaDigi.EnvImport
import MetaDigi.FileCuts
import MetaDigi.FlashRuns
import MetaDigi.SystemRuns
import MetaDigi.SystemHistories
import MetaDigi.NvramFlash
import MetaDigi.NvramStore
import MetaDigi.KobsCommit
import MetaDigi.KobsReadBack
import MetaDigi.FlashRetries
import MetaDigi.FlashAnswers
import MetaDigi.GpioDriver
import MetaDigi.GpioKernel
import MetaDigi.GpioInterrupts
import MetaDigi.GpioLifetime
import MetaDigi.SystemThreads
import MetaDigi.GpioEvents
import MetaDigi.FlashCaution
import MetaDigi.FlashAttempts
import MetaDigi.FlashChecksum
import MetaDigi.FlashImages
import MetaDigi.FlashMounts
import MetaDigi.FlashVerdicts
import MetaDigi.FlashSums
import MetaDigi.EnvWriteOnce
import MetaDigi.FlashMarkers
import MetaDigi.FlashGate
import MetaDigi.FlashPadding
import MetaDigi.FlashNames
import MetaDigi.GpioArming
import MetaDigi.GpioQueues
import MetaDigi.EnvBounds
import MetaDigi.FlashDumps
import MetaDigi.NvramFiles
import MetaDigi.KobsSearch
import MetaDigi.KobsFdt
import MetaDigi.NetlinkLinks
import MetaDigi.MemwatchTransfer
import MetaDigi.CmdEntries
import MetaDigi.EnvRestore
import MetaDigi.EnvHistories
import MetaDigi.GpioIsolation
import MetaDigi.MemwatchCopies
import MetaDigi.NvramTool
import MetaDigi.NetlinkFormat
