import CspLinksim.FlowOrder
import CspLinksim.SeqTracker
import CspLinksim.ProxyDelay
import CspLinksim.Bridge
import CspLinksim.LossApm
import CspLinksim.LossHooks
import CspLinksim.LossOracle
import CspLinksim.Sha256Standard
import CspLinksim.SvuTracker
import CspLinksim.SvuReport
import CspLinksim.SvuServe
import CspLinksim.SvuSession
import CspLinksim.SvuHandover
import CspLinksim.SvuRounds
import CspLinksim.SvuLimits
import CspLinksim.SvuRecovery
import CspLinksim.SvuUpload
import CspLinksim.SvuAnnounce
import CspLinksim.MonDrainer
import CspLinksim.MonRtt
import CspLinksim.MonPoller
import CspLinksim.MonReboot
import CspLinksim.MonStart
import CspLinksim.LinkSplit
import CspLinksim.PassReport
import CspLinksim.GeLoss
import CspLinksim.Calibrator
import CspLinksim.FragmentGuard
import CspLinksim.OracleJoin
import CspLinksim.ConsoleNoise
import CspLinksim.VerifyReference
import CspLinksim.SvuKeyedLoss
import CspLinksim.CanBench
import CspLinksim.SvuDaemon
import CspLinksim.LossSweep
import CspLinksim.BridgeAirtime
import CspLinksim.ProxyTiming
import CspLinksim.PassMining
import CspLinksim.BoardReport
import CspLinksim.SvuCommand
import CspLinksim.LinkReport
import CspLinksim.BusCheck
import CspLinksim.DtpTrigger
import CspLinksim.BrokerBench
import CspLinksim.LinkArguments
