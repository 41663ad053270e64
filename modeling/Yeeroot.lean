import Yeeroot.Codec.Scale
import Yeeroot.Rust.Prelude
import Yeeroot.Substrate.Primitives
import Yeeroot.Machine.Run
import Yeeroot.Sharding.Utils
import Yeeroot.Sharding.Digest
import Yeeroot.Pow.Seal
import Yeeroot.Pow.Verifier
import Yeeroot.Srml.Sharding
import Yeeroot.Sharding.ScaleOut
import Yeeroot.Substrate.Extrinsic
import Yeeroot.Primitives.Relay
import Yeeroot.Runtime.Types
import Yeeroot.Runtime.Balances
import Yeeroot.Runtime.Assets
import Yeeroot.Runtime.Executive
import Yeeroot.Relay.Routing
import Yeeroot.Sharding.Readers
import Yeeroot.Lib.Tally
import Yeeroot.Crfg.Module
import Yeeroot.Crfg.AuthoritySet
import Yeeroot.Lib.BigEndian
import Yeeroot.Rpc.SerdeHex
import Yeeroot.Pow.Check
import Yeeroot.Srml.Pow
import Yeeroot.Switch.Work
import Yeeroot.Grandpa.Primitives
import Yeeroot.Grandpa.Bitfield
import Yeeroot.Grandpa.VoteGraph
import Yeeroot.Grandpa.VoteGraphInv
import Yeeroot.Grandpa.Round
import Yeeroot.Grandpa.RoundInv
import Yeeroot.Grandpa.RoundRun
