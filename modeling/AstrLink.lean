import AstrLink.Convergence
import AstrLink.Retention
import AstrLink.Lease
import AstrLink.ForcePush
import AstrLink.Bindings
import AstrLink.RecoveryProgress
import AstrLink.RawSession
import AstrLink.BillingLaw
import AstrLink.Connecting
import AstrLink.TokenSafety
import AstrLink.AuthSessionGuard
import AstrLink.SessionAgreement
import AstrLink.StandInExclusion
import AstrLink.RestoreIndex
import AstrLink.SseFrames
import AstrLink.JsonStreams
import AstrLink.ReplacedLiterals
import AstrLink.WindowStitching
import AstrLink.NormalizerReads
import AstrLink.TurnLaw
import AstrLink.UserMessages
import AstrLink.Placements
import AstrLink.SuppressionResults
import AstrLink.OffsetContract
import AstrLink.StreamStart
import AstrLink.EnvEdits
import AstrLink.AuditParts
import AstrLink.KeyRecovery
import AstrLink.TokenBuckets
import AstrLink.QuotaWindows
import AstrLink.ContextShares
import AstrLink.RelayFrames
import AstrLink.YamlEdits
import AstrLink.BillingTotals
import AstrLink.CatalogsInForce
import AstrLink.BillingMonths
import AstrLink.RepairedRequests
import AstrLink.StartedTimes
import AstrLink.RuntimeIntervals
import AstrLink.AccountRisks
import AstrLink.ServicePackages
import AstrLink.ProofThrottle
import AstrLink.LiveSessions
import AstrLink.LineDiff
