import Creditcoin.Attestation.Commit

/-!
# The declared weight of a commit

The weight of a commit is declared from the payload and a few values in storage: it estimates the
roots hashed in queued proofs and the checkpoints created. The benchmarked costs are parameters. -/

namespace Creditcoin

variable {H A B : Type}

/-! ## Weights -/

/-- A weight: execution time and proof size, each a `u64`. -/
structure Weight where
  refTime : ℕ
  proofSize : ℕ
  deriving DecidableEq

namespace Weight

def saturatingAdd (v w : Weight) : Weight :=
  ⟨satAdd u64Max v.refTime w.refTime, satAdd u64Max v.proofSize w.proofSize⟩

def saturatingSub (v w : Weight) : Weight := ⟨v.refTime - w.refTime, v.proofSize - w.proofSize⟩

end Weight

/-- The benchmarked costs that a commit is charged with. -/
structure WeightInfo where
  commitAttestation : ℕ → ℕ → Weight
  continuityRoots : ℕ → Weight
  commitAttestationQueued : ℕ → Weight
  /-- The cost of one write to the database. -/
  dbWrite : ℕ

/-- The longest proof that the benchmark of a commit samples. -/
def commitBenchmarkMaxSpan : ℕ := 500

/-- What `f n` costs above `f 0`. -/
def marginal (f : ℕ → Weight) (n : ℕ) : Weight := (f n).saturatingSub (f 0)

/-- The weight of a commit with `own` roots of its own and `m` attestors, of `extra` roots hashed in
queued proofs and of a queue of `q` entries. -/
def weightFor (W : WeightInfo) (own extra m q : ℕ) : Weight :=
  ((W.commitAttestation (max own commitBenchmarkMaxSpan) m).saturatingAdd
    (marginal W.continuityRoots extra)).saturatingAdd (marginal W.commitAttestationQueued q)

/-! ## The declaration -/

/-- What the declared weight of a commit is derived from. -/
structure CommitWeightState where
  proofLen : ℕ
  attestors : ℕ
  queueLen : ℕ
  attestationInterval : ℕ
  checkpointInterval : ℕ
  maxCatchup : ℕ
  /-- The blocks from the last checkpoint to the attested height. -/
  headerSpan : ℕ
  deriving DecidableEq

namespace CommitWeightState

variable (ws : CommitWeightState)

def checkpointWidth : ℕ := max (satMul u64Max ws.attestationInterval ws.checkpointInterval) 1

/-- The proof is long enough to be checkpointed at once. -/
def catchingUp : Bool := satMul u64Max ws.checkpointWidth 2 ≤ ws.proofLen

/-- The roots that are charged for a queued proof that reaches below the last checkpoint. -/
def straddle : ℕ :=
  min (satMul u64Max ws.checkpointWidth 2) (max ws.maxCatchup ws.attestationInterval)

/-- The roots of queued proofs that are charged for. `attestedGap` counts the blocks from the last
checkpoint to the last attested height. -/
def extraRoots (attestedGap : ℕ) : ℕ :=
  min (if ws.catchingUp then satAdd u64Max attestedGap ws.straddle else ws.straddle) u32Max

def estimatedCheckpoints : ℕ := if ws.catchingUp then ws.headerSpan / ws.checkpointWidth else 2

/-- The declared weight. A checkpoint costs three writes and an event; those that the benchmark
created are part of its result. -/
def weight (W : WeightInfo) (attestedGap : ℕ) : Weight :=
  let benchmarkCheckpoints := ws.proofLen / 100
  let extra := ws.estimatedCheckpoints - benchmarkCheckpoints
  (weightFor W ws.proofLen (ws.extraRoots attestedGap) ws.attestors ws.queueLen).saturatingAdd
    ⟨satMul u64Max W.dbWrite (satMul u64Max extra 4), 0⟩

end CommitWeightState

section WeighData

variable (T : Config H A B) (c : Chain H A) (att : SignedAttestation H A)

/-- The height of the last checkpoint, or that of the attestation before there is one. -/
def weighedCheckpoint : ℕ := (c.anchors.lastCheckpoint.map (·.blockNumber)).getD att.headerNumber

/-- The state that the weight of a commit is declared from. -/
def commitWeightState : CommitWeightState where
  proofLen := att.continuityProof.len % 2 ^ 32
  attestors :=
    min (att.attestors.length % 2 ^ 32) (min c.settings.maxAttestors T.maxAttestationNodes)
  queueLen := min c.anchors.checkpointingQueue.length u32Max
  attestationInterval := c.settings.chainAttestationInterval
  checkpointInterval := c.settings.attestationCheckpointInterval
  maxCatchup := c.settings.maxCatchup
  headerSpan := att.headerNumber - weighedCheckpoint c att

/-- The blocks from the last checkpoint to the last attested height. -/
def attestedGap : ℕ :=
  (c.anchors.lastDigest.map Prod.fst).getD (weighedCheckpoint c att) - weighedCheckpoint c att

def weighData (W : WeightInfo) : Weight :=
  (commitWeightState T c att).weight W (attestedGap c att)

end WeighData

end Creditcoin
