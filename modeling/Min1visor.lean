import Min1visor.LinkedListSafety
import Min1visor.Pl011
import Min1visor.VgicDelivery
import Min1visor.Paging
import Min1visor.PagingMap
import Min1visor.PagingRuns
import Min1visor.Vm
import Min1visor.Fat32
import Min1visor.Library.Fragments
import Min1visor.FatChain
import Min1visor.FatWrite
import Min1visor.FatWriteFrame
import Min1visor.FatRead
import Min1visor.FatReadLayout
import Min1visor.Gicv3Trigger
import Min1visor.Gicv3Windows
import Min1visor.Gicv3Routing
import Min1visor.Gicv3Driver
import Min1visor.Gicv3Refinement
import Min1visor.Library.Programs
import Min1visor.VirtioBlkMmio
import Min1visor.VirtioBlkTurns
import Min1visor.VirtioBlkCompletion
import Min1visor.VirtioBlkTermination
import Min1visor.VirtioBlkArithmetic
import Min1visor.VirtioBlkIsolation
import Min1visor.Exception
import Min1visor.ExceptionRuns
import Min1visor.ExceptionStores
import Min1visor.ExceptionLoads
import Min1visor.VirtioBlkDriver
import Min1visor.VirtioBlkCounters
import Min1visor.Pl011Status
import Min1visor.Gicv2
import Min1visor.Gicv2Pending
import Min1visor.Gicv2Timer
import Min1visor.LinkedListConservation
import Min1visor.ExceptionIrq
import Min1visor.VgicPending
import Min1visor.VgicPendingRuns
import Min1visor.VirtioBlkCalls
import Min1visor.VirtioBlkStatus
import Min1visor.VirtioBlkOffsets
import Min1visor.FatReadContiguous
import Min1visor.FatWriteContiguous
import Min1visor.Dtb
import Min1visor.DtbBlocks
import Min1visor.DtbSearch
import Min1visor.DtbResume
import Min1visor.SetupMemory
import Min1visor.FatLinks
import Min1visor.FatReadBounds
import Min1visor.FatTermination
import Min1visor.Library.Fuel
import Min1visor.DtbTermination
import Min1visor.DtbReg
import Min1visor.FatDirectory
import Min1visor.FatSearch
import Min1visor.PagingRemap
import Min1visor.PagingSuccess
import Min1visor.Library.ThreadedList
import Min1visor.LinkedListFirstFit
import Min1visor.LinkedListPointers
import Min1visor.VgicFields
import Min1visor.Gicv3ReadBack
import Min1visor.VirtioBlkDescriptors
import Min1visor.Mutex
import Min1visor.FatReserved
import Min1visor.Boot
import Min1visor.FatFaults
import Min1visor.FatOpening
import Min1visor.Library.Transfers
import Min1visor.FatStore
import Min1visor.VirtioBlkHandshake
import Min1visor.VirtioBlkDisk
import Min1visor.BootImages
import Min1visor.Library.Tables
import Min1visor.VirtioBlkSession
import Min1visor.Gicv3Redistributor
import Min1visor.Library.WordBytes
import Min1visor.Library.Answers
import Min1visor.VmIsolation
import Min1visor.Library.Numerals
import Min1visor.Arguments
import Min1visor.Pl011Receive
import Min1visor.Gicv2Receive
import Min1visor.DtbTrail
import Min1visor.DtbDiscovery
import Min1visor.Pl011Driver
