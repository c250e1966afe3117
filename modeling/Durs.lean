import Durs.Dal.Readers
import Durs.ForkTree.Pruning
import Durs.ForkTree.Store
import Durs.Blockchain.ForkAlgo
import Durs.ForkTree.Shape
import Durs.ForkTree.Choice
import Durs.ForkTree.ChoiceRuns
import Durs.RustStd.BigEndian
import Durs.Wot.File
import Durs.Wot.FileStates
import Durs.Wot.FileLinks
import Durs.Wot.FileRoundTrip
import Durs.Ws2p.Controller
import Durs.Ws2p.Steps
import Durs.Ws2p.Negotiation
import Durs.Ws2p.Authentication
import Durs.Ws2p.Robustness
import Durs.Ws2p.Establishment
import Durs.Ws2p.Agreement
import Durs.ForkTree.Arrival
import Durs.ForkTree.MainChange
import Durs.ForkTree.WellFormed
import Durs.Currency.AmountLaws
import Durs.Currency.Balances
import Durs.Currency.Dividends
import Durs.Currency.Spending
import Durs.Blockchain.Apply
import Durs.Blockchain.LocalChain
import Durs.Blockchain.LocalChainRuns
import Durs.Blockchain.Robustness
import Durs.Documents.Signatures
import Durs.Blockchain.Refusals
import Durs.Router.Deliveries
import Durs.Router.Endpoints
import Durs.Ws2pV1.Authentication
import Durs.Ws2pV1.Robustness
import Durs.Ws2pV1.Quota
import Durs.Blockchain.CertificationUndo
import Durs.Blockchain.IdentityUndo
import Durs.Dal.KnownBlocks
import Durs.Blockchain.Rollback
import Durs.Dal.BlockLookups
import Durs.Blockchain.Queries
import Durs.Network.Heads
import Durs.Rules.Protocols
import Durs.Ws2p.BinSignable
import Durs.Wot.Paths
import Durs.Wot.Distance
import Durs.Wot.CentralityPaths
import Durs.Documents.Robustness
import Durs.Ws2p.ConnectTypes
import Durs.Sync.Expiry
import Durs.Dal.Paging
import Durs.Documents.PartTexts
import Durs.Documents.ConditionTexts
import Durs.Documents.CompactTexts
import Durs.JsonParser.RoundTrip
import Durs.Documents.JsonNumbers
import Durs.Sync.ChunkRuns
import Durs.Documents.HexTexts
import Durs.Documents.Escapes
import Durs.Ws2p.SpamFilter
import Durs.ForkTree.SlotReuse
import Durs.Dal.IssuersFrame
import Durs.Ws2pV1.Requests
import Durs.Ws2pV1.Answers
import Durs.Blockchain.Stacking
import Durs.Network.Robustness
import Durs.Network.CardTexts
import Durs.Blockchain.KeptParts
import Durs.Blockchain.TransactionUndo
import Durs.Blockchain.WebUndo
import Durs.Blockchain.BlockUndo
import Durs.Blockchain.Newcomers
import Durs.Blockchain.BlockLoops
import Durs.Blockchain.Restored
import Durs.Documents.Stringified
import Durs.Ws2pV1.Serializers
import Durs.Ws2pV1.ServedBlocks
import Durs.Ws2pV1.ServedAnswers
