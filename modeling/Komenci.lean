import Komenci.RelayerFees
import Komenci.RelayerProgress
import Komenci.SessionLogin
import Komenci.KitDeploy
import Komenci.KitCalls
import Komenci.ApiReplies
import Komenci.KitClient
import Komenci.ErrorReplies
import Komenci.JsonCodec
import Komenci.WalletEvasion
import Komenci.WalletTotality
import Komenci.RewardService
import Komenci.RewardSteps
import Komenci.RewardLedger
import Komenci.RewardPaidOnce
import Komenci.RewardCap
import Komenci.RewardTerminal
import Komenci.RewardResends
import Komenci.RewardEligibility
import Komenci.EventTables
import Komenci.EventRedelivery
import Komenci.KitSubmit
import Komenci.KitRevert
import Komenci.RelayerSubmit
import Komenci.RelayerTracking
import Komenci.RelayerCounter
import Komenci.RelayerQuota
import Komenci.RelayerPrice
import Komenci.RelayerEscalation
import Komenci.RelayerLedger
import Komenci.RelayerDisposal
import Komenci.RelayerNonces
import Komenci.RelayerWatchSet
import Komenci.RelayerPool
import Komenci.SessionDeploy
import Komenci.SessionAccounts
import Komenci.SessionDeployed
import Komenci.Throttler
import Komenci.Gateway
import Komenci.SessionQuota
import Komenci.SessionWallet
import Komenci.WalletAddresses
import Komenci.WalletSubsidy
import Komenci.EventCoverage
import Komenci.EventRows
import Komenci.Retry
import Komenci.SessionLookup
import Komenci.SessionImplementations
import Komenci.Funding
import Komenci.RewardReceipts
import Komenci.RewardBudget
import Komenci.RewardInviters
import Komenci.KitWallet
