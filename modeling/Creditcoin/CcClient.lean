import Creditcoin.Attestation.State

/-!
# Events as the clients see them

Attestors and proof servers follow the chain through one subscription. It passes on the events of
the chains it was asked for, in order, and drops those it has no variant for, such as forward
patches and cleared checkpoints. Heights are `u64` values. -/

namespace Creditcoin

variable {H A : Type}

/-- An event of the subscription, for one source chain. -/
inductive CcEvent (H A : Type)
  | blockAttested (headerNumber : U64) (digest : H)
  | randomnessChanged (epoch : ℕ)
  | checkpointReached (checkpoint : AttestationCheckpoint H)
  | attestationIntervalChanged (interval : ℕ)
  | targetSampleSizeChanged (size : ℕ)
  | checkpointIntervalChanged (interval : ℕ)
  | maxCatchupChanged (maxCatchup : ℕ)
  | attestorsElected (attestors : List A)
  | attestorActivated (who : A)
  | attestorChilled (who : A)
  | attestorKicked (who : A)
  | attestationChainGenesisBlockNumberSet (number : ℕ)
  | revertedAttestationChainTo (height : U64) (digest : H)
  deriving DecidableEq

/-- What is passed on of the events about attestations and checkpoints. -/
def AnchorEvent.toCcEvent : AnchorEvent H → Option (CcEvent H A)
  | .blockAttested headerNumber digest => some (.blockAttested (Fin.ofNat _ headerNumber) digest)
  | .checkpointReached checkpoint => some (.checkpointReached checkpoint)
  | .revertedAttestationChainTo height digest =>
    some (.revertedAttestationChainTo (Fin.ofNat _ height) digest)
  | .checkpointsCleared => none
  | .forwardCheckpointPatchApplied _ _ => none
  | .clearedStorageForRemovedChain => none

/-- The events about attestations and checkpoints. -/
def CcEvent.isAnchorEvent : CcEvent H A → Bool
  | .blockAttested _ _ => true
  | .checkpointReached _ => true
  | .revertedAttestationChainTo _ _ => true
  | _ => false

end Creditcoin
