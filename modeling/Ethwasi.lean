import Ethwasi.Rust.Outcome
import Ethwasi.Rust.Bytes
import Ethwasi.Rust.Process
import Ethwasi.Rust.StableSort
import Ethwasi.Wire.Codec
import Ethwasi.Transition.Run
import Ethwasi.Transition.Spans
import Ethwasi.Transition.Tickets
import Ethwasi.Transition.Tasks
import Ethwasi.Transition.Standing
import Ethwasi.Common
import Ethwasi.Confidential.Primitives
import Ethwasi.Confidential.Crypto
import Ethwasi.Confidential.Context
import Ethwasi.Confidential.Framing
import Ethwasi.Confidential.Operations
import Ethwasi.Confidential.StorageNonce
import Ethwasi.Confidential.ChainNonces
import Ethwasi.Confidential.Storage
import Ethwasi.Confidential.Session
import Ethwasi.Confidential.SessionNonces
import Ethwasi.Confidential.Invariant
import Ethwasi.Confidential.Channel
import Ethwasi.Confidential.Failures
import Ethwasi.Confidential.CallTree
import Ethwasi.Runtime.Host
import Ethwasi.Runtime.Methods
import Ethwasi.Runtime.Sample
import Ethwasi.Runtime.Dispatcher
import Ethwasi.Runtime.Batch
import Ethwasi.Runtime.FailedCalls
import Ethwasi.Runtime.Results
import Ethwasi.Runtime.Gas
import Ethwasi.Runtime.Duplicates
import Ethwasi.Runtime.Alignment
import Ethwasi.Runtime.Admission
import Ethwasi.Runtime.Prefetch
import Ethwasi.Runtime.Chain
import Ethwasi.Runtime.Senders
import Ethwasi.Gateway.Translator
import Ethwasi.Gateway.LogSearch
import Ethwasi.Gateway.Served
import Ethwasi.Gateway.LogViews
import Ethwasi.Gateway.LogOrder
import Ethwasi.Gateway.BlockViews
import Ethwasi.Gateway.FilterClient
import Ethwasi.Gateway.BlockFilter
import Ethwasi.Gateway.LogFilter
import Ethwasi.Gateway.FailedPoll
import Ethwasi.Gateway.PollErrors
import Ethwasi.Gateway.LogLimit
import Ethwasi.Gateway.Submission
import Ethwasi.Gateway.GasPrice
import Ethwasi.Gateway.PubSub
import Ethwasi.Gateway.Subscriptions
import Ethwasi.Gateway.Heads
import Ethwasi.Gateway.LogNotices
import Ethwasi.Gateway.Invocation
import Ethwasi.Gateway.StateQueries
import Ethwasi.Gateway.RateLimit
import Ethwasi.Gateway.Middleware
import Ethwasi.Gateway.ApiSet
import Ethwasi.Genesis.StateParser
import Ethwasi.Genesis.Ledger
import Ethwasi.Genesis.Playback
import Ethwasi.Genesis.Import
