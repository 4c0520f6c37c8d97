import Qca9377.BoardFile
import Qca9377.Receive
import Qca9377.Delivery
import Qca9377.HtcFrame
import Qca9377.Credits
import Qca9377.Wmi
import Qca9377.Bmi
import Qca9377.ControlPath
import Qca9377.Exchange
import Qca9377.Answers
import Qca9377.SingleReceive
import Qca9377.Diag
import Qca9377.Manager
import Qca9377.TlvTable
import Qca9377.FirmwareFile
import Qca9377.Containers
import Qca9377.Handshake
import Qca9377.AfterDone
import Qca9377.Start
import Qca9377.StageCap
import Qca9377.FailedProbe
import Qca9377.Regions
import Qca9377.Posting
import Qca9377.Boot
import Qca9377.ResponsiveTarget
import Qca9377.BootOrder
import Qca9377.ServiceReady
import Qca9377.RxFrame
import Qca9377.WmiRoundTrip
import Qca9377.Calls
import Qca9377.RxReads
import Qca9377.BmiSends
import Qca9377.BmiStack
import Qca9377.BmiMemory
import Qca9377.BmiStream
import Qca9377.PairInit
import Qca9377.InStep
import Qca9377.Polling
import Qca9377.VanishedSend
import Qca9377.DiagDelay
import Qca9377.DiagWindow
import Qca9377.TargetInit
import Qca9377.PhaseEnds
import Qca9377.LogTail
import Qca9377.BringUp
import Qca9377.CreditReport
import Qca9377.CreditSafety
import Qca9377.PciConfig
import Qca9377.HandshakeReplay
import Qca9377.InitConfig
import Qca9377.ConfigRuns
import Qca9377.Areas
import Qca9377.ConfigMemory
import Qca9377.BootMonitor
import Qca9377.BootRuns
import Qca9377.Reset
import Qca9377.ResetRefines
import Qca9377.ResetTime
