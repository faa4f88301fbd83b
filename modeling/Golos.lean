import Golos.Nft.Counters
import Golos.Chain.BlockLog
import Golos.Market.Fairness
import Golos.Market.Crossing
import Golos.Nft.Authority
import Golos.Protocol.VerifyAuthority
import Golos.Chain.Slots
import Golos.Freezing.Freezing
import Golos.Escrow.Escrow
import Golos.Staking.Vesting
import Golos.Plugins.Independence
import Golos.Notification.Position
import Golos.Staking.MissingDelegation
import Golos.Voting.Reputation
import Golos.Plugins.AccessList
import Golos.Recovery.Protocol
import Golos.Cryptor.Confidentiality
import Golos.Posting.Windows
import Golos.Feed.Feed
import Golos.Worker.Worker
import Golos.Subscription.Prepaid
import Golos.Staking.Counters
import Golos.Protocol.MerkleRoot
import Golos.Chain.Branches
import Golos.Protocol.TextCodec
import Golos.Savings.Payments
import Golos.Network.Framing
import Golos.History.Tracking
import Golos.Plugins.FollowCounters
import Golos.PrivateMessage.Groups
import Golos.Plugins.MarketHistory
import Golos.Market.PriceOrder
import Golos.Protocol.AccountName
import Golos.Plugins.JsonRpc
import Golos.Voting.Payout
import Golos.Plugins.NetworkBroadcast
import Golos.Plugins.CommentReward
import Golos.Chain.Forks
import Golos.Network.Requests
import Golos.Witness.Times
import Golos.Witness.Idleness
