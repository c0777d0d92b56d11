import Libaergo.Lib.Bytes
import Libaergo.Lib.Varint
import Libaergo.Lib.Wire
import Libaergo.Address
import Libaergo.Nanopb.Encode
import Libaergo.Txn.Defs
import Libaergo.Txn.Text
import Libaergo.Txn.Messages
import Libaergo.Txn.Calls
import Libaergo.Txn.WireHash
import Libaergo.Txn.Recipient
import Libaergo.Txn.Nonce
import Libaergo.Txn.HashBuffer
import Libaergo.Lib.Runs
import Libaergo.Txn.ChainId
import Libaergo.Socket.Chunking
import Libaergo.Socket.Requests
import Libaergo.Socket.Machine
import Libaergo.Socket.Steps
import Libaergo.Socket.Transfers
import Libaergo.Socket.Counter
import Libaergo.Socket.Wellformed
import Libaergo.Socket.Reentry
import Libaergo.Socket.Stages
import Libaergo.Socket.Answers
import Libaergo.Socket.Completion
import Libaergo.Socket.Transaction
import Libaergo.Socket.Outermost
import Libaergo.Socket.Settlement
import Libaergo.Socket.Soundness
import Libaergo.Socket.Lengths
import Libaergo.Conversions
import Libaergo.Socket.Amounts
import Libaergo.Socket.DoubleAmounts
import Libaergo.Socket.Retry
import Libaergo.Socket.Memory
import Libaergo.Nanopb.Decode
import Libaergo.Queries
import Libaergo.Lib.Radix
import Libaergo.Base58
import Libaergo.Nanopb.Records
import Libaergo.ResultBuffer
import Libaergo.Blocks
import Libaergo.Lib.Overlay
import Libaergo.Accounts
import Libaergo.StateKeys
import Libaergo.Deliveries
import Libaergo.Arguments
import Libaergo.Commits
import Libaergo.Lib.Json
import Libaergo.Payloads
import Libaergo.Socket.Destinations
import Libaergo.Lib.Chains
import Libaergo.Socket.RequestList
import Libaergo.Variadic
import Libaergo.Ledger.Apdu
import Libaergo.Ledger.Signing
import Libaergo.OutputBuffers
import Libaergo.Lib.Packets
import Libaergo.Ledger.Layer
import Libaergo.Ledger.Hid
import Libaergo.Ledger.Device
import Libaergo.Ledger.Keys
import Libaergo.Socket.StatusAnswers
import Libaergo.Socket.Invocations
import Libaergo.Socket.Callbacks
import Libaergo.Posts
import Libaergo.Conversations
import Libaergo.Lib.Bits
import Libaergo.Lib.Hashing
import Libaergo.Lib.Roots
import Libaergo.Digests
