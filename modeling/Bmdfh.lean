import Bmdfh.CommandLine.Proof.Grammar
import Bmdfh.EndToEnd.Proof.Exchange
import Bmdfh.EndToEnd.Proof.GapRecovery
import Bmdfh.EndToEnd.Proof.Processes
import Bmdfh.EndToEnd.Proof.Replies
import Bmdfh.ExchangeSim.Proof.Mirror
import Bmdfh.ExchangeSim.Proof.Published
import Bmdfh.FeedHandler.Proof.Cycles
import Bmdfh.FeedHandler.Proof.Limit
import Bmdfh.FeedHandler.Proof.Malformed
import Bmdfh.FeedHandler.Proof.Output
import Bmdfh.FeedHandler.Proof.Parked
import Bmdfh.FeedHandler.Proof.Sequence
import Bmdfh.FeedHandler.Proof.WrapAround
import Bmdfh.OrderBook.Proof.Frame
import Bmdfh.OrderBook.Proof.Phantom
import Bmdfh.OrderBook.Proof.Quantities
import Bmdfh.Protocol.Proof.Codec
import Bmdfh.Recovery.Proof.InStep
import Bmdfh.Recovery.Proof.Lookup
import Bmdfh.Recovery.Proof.Reuse
import Bmdfh.Recovery.Proof.Stop
