import Creditcoin.Archiver.ChainId
import Creditcoin.Attestation.Extensions
import Creditcoin.Attestation.Imports
import Creditcoin.Attestation.Keys
import Creditcoin.Attestation.PruningTurns
import Creditcoin.Attestation.QueueBound
import Creditcoin.Attestation.RegistryIndex
import Creditcoin.Attestation.Removal
import Creditcoin.Attestation.Signers
import Creditcoin.Attestation.Spacing
import Creditcoin.Attestation.Stakes
import Creditcoin.Attestor.Admission
import Creditcoin.Attestor.EarlyVotes
import Creditcoin.Attestor.Eligibility
import Creditcoin.Attestor.FinalityView
import Creditcoin.Attestor.ForkChoice
import Creditcoin.Attestor.LocalCheck
import Creditcoin.Attestor.Permits
import Creditcoin.Attestor.Replacements
import Creditcoin.Attestor.Retries
import Creditcoin.BlockProver.Exact
import Creditcoin.Continuity.Bounds
import Creditcoin.ProofServer.MerkleCache
import Creditcoin.ProofServer.Served
import Creditcoin.Streams.Events
import Creditcoin.Streams.Roots
