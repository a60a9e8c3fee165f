import KinesisCore.InflationOp
import KinesisCore.TxSetTrim
import KinesisCore.SequenceNumbers
import KinesisCore.FeeConservation
import KinesisCore.SponsorshipCalls
import KinesisCore.NestedQueries
import KinesisCore.FeeBounds
import KinesisCore.SignatureWeight
import KinesisCore.LedgerChainSoundness
import KinesisCore.SkipList
import KinesisCore.CatchupRange
import KinesisCore.BallotCounters
import KinesisCore.BallotStatements
import KinesisCore.QuorumIntersectionChecker
import KinesisCore.QuorumBlocking
import KinesisCore.NominationInvariants
import KinesisCore.CrossOfferSafety
import KinesisCore.TxSetCalls
import KinesisCore.SurgeFee
import KinesisCore.ExtractValidValue
import KinesisCore.QueueSubmissions
import KinesisCore.ClaimPredicate
import KinesisCore.ExchangeContract
import KinesisCore.PoolExchange
import KinesisCore.PoolDilution
import KinesisCore.SponsorshipSandwich
import KinesisCore.ItemFetcher
