import CreditChain.Consensus.Types
import CreditChain.Lib.Run
import CreditChain.Types.SignatureAggregator

/-!
# The commit stage of the execution pipeline

A `BufferItem` holds a batch of ordered blocks and moves through four stages: ordered,
executed, signed, aggregated.  Commit votes reach it in any stage.  An ordered item keeps
whole votes and matches them by the ordered part of the block info; on execution, only
the votes on the ledger info to be committed are taken over.  From then on a vote is
matched by its commit info alone, and only its signature is kept.

A clone of a signature shares its mark with the original.  An attempt to aggregate a
signed item works on a clone of the collected signatures: signatures it drops stay with
the item, signatures it finds valid are marked in the item too (`writeBack`).

* `Sound.step`: the invariant of each stage, and what each step keeps of it.
* `aggregated_verifies`: the commit proof of every aggregated item verifies, as long as
  the votes that are matched by commit info alone bring no mark for another ledger info.

`PipelinedBlock` is cut down to what the stages read.  The handle of the broadcast of a
signed item is left out.
-/

namespace CreditChain

open Option (bind_eq_some_iff map_eq_some_iff some)

structure CommitVote where
  author : Author
  ledgerInfo : LedgerInfo
  signature : SignatureWithStatus
  deriving DecidableEq

namespace CommitVote

def newWithSignature (author : Author) (ledgerInfo : LedgerInfo) (signature : Signature) :
    CommitVote :=
  ⟨author, ledgerInfo, .ofSignature signature⟩

def commitInfo (vote : CommitVote) : BlockInfo := vote.ledgerInfo.commitInfo

/-- `CommitVote::verify`: the vote as it is marked afterwards. -/
def verify [Crypto] (vote : CommitVote) (sender : Author) (validator : OptimisticVerifier) :
    Except String CommitVote := do
  ensure (vote.author = sender)
    s!"Commit vote author {vote.author} doesn't match with the sender {sender}"
  let signature ← (validator.optimisticVerify Crypto.bls vote.author
    (SignedMessage.ledgerInfo vote.ledgerInfo) vote.signature).mapError fun _ =>
      "Failed to verify Commit Vote"
  .ok { vote with signature := signature }

end CommitVote

/-- A `PipelinedBlock` after execution. -/
structure PipelinedBlock where
  id : HashValue
  blockInfo : BlockInfo
  isReconfigurationSuffix : Bool
  deriving DecidableEq

structure OrderedItem where
  unverifiedVotes : Map Author CommitVote
  commitProof : Option LedgerInfoWithSignatures
  orderedBlocks : List PipelinedBlock
  orderedProof : LedgerInfoWithSignatures
  deriving DecidableEq

structure ExecutedItem where
  executedBlocks : List PipelinedBlock
  partialCommitProof : SignatureAggregator LedgerInfo
  commitInfo : BlockInfo
  orderedProof : LedgerInfoWithSignatures
  deriving DecidableEq

structure SignedItem where
  executedBlocks : List PipelinedBlock
  partialCommitProof : SignatureAggregator LedgerInfo
  commitVote : CommitVote
  deriving DecidableEq

structure AggregatedItem where
  executedBlocks : List PipelinedBlock
  commitProof : LedgerInfoWithSignatures
  deriving DecidableEq

inductive BufferItem where
  | ordered (item : OrderedItem)
  | executed (item : ExecutedItem)
  | signed (item : SignedItem)
  | aggregated (item : AggregatedItem)
  deriving DecidableEq

def generateCommitLedgerInfo (commitInfo : BlockInfo) (orderedProof : LedgerInfoWithSignatures)
    (orderVoteEnabled : Bool) : LedgerInfo where
  commitInfo := commitInfo
  consensusDataHash :=
    if orderVoteEnabled then .zero else orderedProof.ledgerInfo.consensusDataHash

/-- One turn of the loop of `create_signature_aggregator`. -/
def addMatchingVote (a : SignatureAggregator LedgerInfo) (vote : CommitVote) :
    SignatureAggregator LedgerInfo :=
  if vote.ledgerInfo = a.data then a.addSignature vote.author vote.signature else a

def createSignatureAggregator (unverifiedVotes : Map Author CommitVote)
    (commitLedgerInfo : LedgerInfo) : SignatureAggregator LedgerInfo :=
  (unverifiedVotes.toList.map (·.2)).foldl addMatchingVote (.new commitLedgerInfo)

/-- The marks that a clone of `a` has set, seen from `a`. -/
def SignatureAggregator.writeBack {T : Type} (a clone : SignatureAggregator T) :
    SignatureAggregator T :=
  { a with signatures := a.signatures.map fun author signature =>
      clone.signatures[author]?.getD signature }

namespace BufferItem

def newOrdered (orderedBlocks : List PipelinedBlock) (orderedProof : LedgerInfoWithSignatures)
    (unverifiedVotes : Map Author CommitVote) : BufferItem :=
  .ordered ⟨unverifiedVotes, none, orderedBlocks, orderedProof⟩

/-- The block info that is committed; `none` is a failed assertion. -/
def commitInfoOf (lastBlock : PipelinedBlock) (epochEndTimestamp : Option Nat) :
    Option BlockInfo :=
  match epochEndTimestamp with
  | none => some lastBlock.blockInfo
  | some timestamp =>
    if lastBlock.blockInfo.timestampUsecs = timestamp then some lastBlock.blockInfo
    else if lastBlock.isReconfigurationSuffix then lastBlock.blockInfo.changeTimestamp timestamp
    else none

/-- What a successful aggregation makes of an item. -/
def ofProof (executedBlocks : List PipelinedBlock) (proof : LedgerInfo × AggregateSignature) :
    BufferItem :=
  .aggregated ⟨executedBlocks, ⟨proof.1, proof.2⟩⟩

variable [Crypto]

/-- `aggregate_and_verify` on commit ledger infos. -/
def aggregateCommit (a : SignatureAggregator LedgerInfo) (validator : OptimisticVerifier) :
    Except VerifyError (LedgerInfo × AggregateSignature) × SignatureAggregator LedgerInfo ×
      OptimisticVerifier :=
  a.aggregateAndVerify Crypto.bls SignedMessage.ledgerInfo validator

variable (item : BufferItem)

/-- `advance_to_executed_or_aggregated`; `none` is a panic. -/
def advanceToExecutedOrAggregated (executedBlocks : List PipelinedBlock)
    (validator : OptimisticVerifier) (epochEndTimestamp : Option Nat) (orderVoteEnabled : Bool) :
    Option (BufferItem × OptimisticVerifier) :=
  match item with
  | .ordered current => do
      -- `zip_eq` panics on lists of different lengths, as the assertion does on other ids
      guard (current.orderedBlocks.map (·.id) = executedBlocks.map (·.id))
      let lastBlock ← executedBlocks.getLast?
      let commitInfo ← commitInfoOf lastBlock epochEndTimestamp
      match current.commitProof with
      | some commitProof => do
          guard (commitProof.commitInfo = commitInfo)
          some (.aggregated ⟨executedBlocks, commitProof⟩, validator)
      | none =>
        let ledgerInfo :=
          generateCommitLedgerInfo commitInfo current.orderedProof orderVoteEnabled
        match aggregateCommit (createSignatureAggregator current.unverifiedVotes ledgerInfo)
            validator with
        | (.ok proof, _, validator) => some (ofProof executedBlocks proof, validator)
        | (.error _, partialCommitProof, validator) =>
          some (.executed ⟨executedBlocks, partialCommitProof, commitInfo,
            current.orderedProof⟩, validator)
  | _ => none

/-- `advance_to_signed`; `none` is a panic. -/
def advanceToSigned (author : Author) (signature : Signature) : Option BufferItem :=
  match item with
  | .executed current => some (.signed
      { executedBlocks := current.executedBlocks
        partialCommitProof := current.partialCommitProof
        commitVote :=
          .newWithSignature author current.partialCommitProof.data signature })
  | _ => none

/-- `try_advance_to_aggregated_with_ledger_info`, which trusts the given proof; `none` is a
panic. -/
def tryAdvanceToAggregatedWithLedgerInfo (commitProof : LedgerInfoWithSignatures) : Option
    BufferItem :=
  match item with
  | .signed current => do
      guard (current.partialCommitProof.data.commitInfo = commitProof.commitInfo)
      some (.aggregated ⟨current.executedBlocks, commitProof⟩)
  | .executed current => do
      guard (current.commitInfo = commitProof.commitInfo)
      some (.aggregated ⟨current.executedBlocks, commitProof⟩)
  | .ordered current => do
      guard (current.orderedProof.commitInfo.matchOrderedOnly commitProof.commitInfo)
      some (.ordered { current with commitProof := some commitProof })
  | .aggregated _ => none

def tryAdvanceToAggregated (validator : OptimisticVerifier) : BufferItem × OptimisticVerifier :=
  match item with
  | .signed current =>
    if (current.partialCommitProof.checkVotingPower validator.verifier true).isOk then
      match aggregateCommit current.partialCommitProof validator with
      | (.ok proof, _, validator) => (ofProof current.executedBlocks proof, validator)
      | (.error _, clone, validator) =>
        (.signed { current with
          partialCommitProof := current.partialCommitProof.writeBack clone }, validator)
    else (item, validator)
  | .executed current =>
    if (current.partialCommitProof.checkVotingPower validator.verifier true).isOk then
      match aggregateCommit current.partialCommitProof validator with
      | (.ok proof, _, validator) => (ofProof current.executedBlocks proof, validator)
      | (.error _, partialCommitProof, validator) =>
        (.executed { current with partialCommitProof := partialCommitProof }, validator)
    else (item, validator)
  | .ordered _ | .aggregated _ => (item, validator)

def addSignatureIfMatched (vote : CommitVote) : Except String BufferItem :=
  match item with
  | .ordered current =>
    if current.orderedProof.commitInfo.matchOrderedOnly vote.commitInfo then
      .ok (.ordered { current with
        unverifiedVotes := current.unverifiedVotes.insert vote.author vote })
    else .error "Inconsistent commit info."
  | .executed current =>
    if current.commitInfo = vote.commitInfo then
      .ok (.executed { current with
        partialCommitProof :=
          current.partialCommitProof.addSignature vote.author vote.signature })
    else .error "Inconsistent commit info."
  | .signed current =>
    if current.partialCommitProof.data.commitInfo = vote.commitInfo then
      .ok (.signed { current with
        partialCommitProof := current.partialCommitProof.addSignature vote.author vote.signature })
    else .error "Inconsistent commit info."
  | .aggregated current =>
    if current.commitProof.commitInfo = vote.commitInfo then .ok item
    else .error "Inconsistent commit info."

/-! ## Runs of one item -/

/-- A step of an item.  The last one is another user of the shared verifier, who adds to
the set of authors whose signatures are checked at once. -/
inductive Step where
  | addSignatureIfMatched (vote : CommitVote)
  | advanceToExecutedOrAggregated (executedBlocks : List PipelinedBlock)
      (epochEndTimestamp : Option Nat) (orderVoteEnabled : Bool)
  | advanceToSigned (author : Author) (signature : Signature)
  | tryAdvanceToAggregated
  | tryAdvanceToAggregatedWithLedgerInfo (commitProof : LedgerInfoWithSignatures)
  | addPessimisticVerifySet (authors : List AccountAddress)

/-- One step of an item and the verifier it uses; `none` is a panic. -/
def step : Step → BufferItem × OptimisticVerifier → Option (BufferItem × OptimisticVerifier)
  | .addSignatureIfMatched vote, (item, validator) =>
    match item.addSignatureIfMatched vote with
    | .ok item => some (item, validator)
    | .error _ => some (item, validator)
  | .advanceToExecutedOrAggregated executedBlocks epochEndTimestamp orderVoteEnabled,
    (item, validator) =>
      item.advanceToExecutedOrAggregated executedBlocks validator epochEndTimestamp orderVoteEnabled
  | .advanceToSigned author signature, (item, validator) =>
    (item.advanceToSigned author signature).map fun item => (item, validator)
  | .tryAdvanceToAggregated, (item, validator) => some (item.tryAdvanceToAggregated validator)
  | .tryAdvanceToAggregatedWithLedgerInfo commitProof, (item, validator) =>
    (item.tryAdvanceToAggregatedWithLedgerInfo commitProof).map fun item => (item, validator)
  | .addPessimisticVerifySet authors, (item, validator) =>
    some (item, validator.addPessimisticVerifySet authors)

end BufferItem

open SignatureAggregator

section Runs

variable [Crypto]

/-- A vote that came over the network without a mark and passed `CommitVote::verify` for
its sender, in some state of the optimistic verification. -/
def CommitVote.Passed (v : ValidatorVerifier) (vote : CommitVote) : Prop :=
  ∃ (validator : OptimisticVerifier) (received : CommitVote) (sender : Author),
    validator.verifier = v ∧ received.signature.verified = false ∧
      received.verify sender validator = .ok vote

namespace BufferItem

/-- The commit info that an item compares with that of a vote while it collects signatures,
and the ledger info that the signatures are for. -/
def collects : BufferItem → Option (BlockInfo × LedgerInfo)
  | .executed current => some (current.commitInfo, current.partialCommitProof.data)
  | .signed current =>
    some (current.partialCommitProof.data.commitInfo, current.partialCommitProof.data)
  | .ordered _ | .aggregated _ => none

/-- What an item may be given: votes that passed their check, and commit proofs that
verify. -/
def Given (v : ValidatorVerifier) : Step → Prop
  | .addSignatureIfMatched vote => vote.Passed v
  | .tryAdvanceToAggregatedWithLedgerInfo commitProof =>
    commitProof.verifySignatures Crypto.bls SignedMessage.ledgerInfo v = .ok ()
  | _ => True

/-- A vote on the commit info of an item that collects signatures has no mark yet, or is on
the ledger info the item collects for. -/
def MarkFits (item : BufferItem) : Step → Prop
  | .addSignatureIfMatched vote => vote.signature.verified = true →
      ∀ ledgerInfo, item.collects = some (vote.commitInfo, ledgerInfo) →
        vote.ledgerInfo = ledgerInfo
  | _ => True

/-- A new item, with votes that passed their check. -/
def Fresh (v : ValidatorVerifier) (s : BufferItem × OptimisticVerifier) : Prop :=
  s.2.verifier = v ∧ ∃ orderedBlocks orderedProof votes,
    (∀ (author : Author) vote, votes[author]? = some vote → CommitVote.Passed v vote) ∧
      s.1 = newOrdered orderedBlocks orderedProof votes

/-! ## The invariant of each stage -/

end BufferItem

/-- The mark of a vote is right for its own ledger info. -/
def CommitVote.MarkSound (v : ValidatorVerifier) (vote : CommitVote) : Prop :=
  vote.signature.verified = true →
    v.verify Crypto.bls vote.author (.ledgerInfo vote.ledgerInfo) vote.signature.signature = .ok ()

variable {v : ValidatorVerifier}

theorem CommitVote.Passed.markSound {vote : CommitVote}
    (passed : vote.Passed v) : vote.MarkSound v := by
  intro marked
  obtain ⟨validator, received, sender, rfl, unmarked, verified⟩ := passed
  have verified := of_check verified
  obtain ⟨signature, checked, rfl⟩ := of_return verified
  have checked := Except.mapError_eq_ok.mp checked
  unfold OptimisticVerifier.optimisticVerify at checked
  split at checked
  · cases checked
  split at checked
  · obtain ⟨_, valid, rfl⟩ := of_return checked
    exact valid
  · cases checked
    rw [unmarked] at marked
    cases marked

/-- Every mark is right for the ledger info the signatures are collected for. -/
abbrev CommitMarks (v : ValidatorVerifier) (a : SignatureAggregator LedgerInfo) : Prop :=
  a.FlagsSound Crypto.bls SignedMessage.ledgerInfo v

abbrev CommitVerifies (v : ValidatorVerifier) (proof : LedgerInfoWithSignatures) : Prop :=
  proof.verifySignatures Crypto.bls SignedMessage.ledgerInfo v = .ok ()

variable {a : SignatureAggregator LedgerInfo}

theorem commitMarks_addMatchingVote
    {vote : CommitVote} (sound : CommitMarks v a) (mark : vote.MarkSound v) :
    CommitMarks v (addMatchingVote a vote) := by
  unfold addMatchingVote
  split
  · rename_i same
    exact sound.addSignature (same ▸ mark)
  · exact sound

theorem commitMarks_foldl {votes : List CommitVote} (sound : CommitMarks v a)
    (marks : ∀ vote ∈ votes, vote.MarkSound v) :
    CommitMarks v (votes.foldl addMatchingVote a) := by
  induction votes generalizing a with
  | nil => exact sound
  | cons vote votes ih =>
    apply ih
    · exact commitMarks_addMatchingVote sound (marks vote List.mem_cons_self)
    · intro later mem
      exact marks later (List.mem_cons_of_mem _ mem)

theorem commitMarks_createSignatureAggregator
    {votes : Map Author CommitVote} (ledgerInfo : LedgerInfo)
    (marks : ∀ (author : Author) vote, votes[author]? = some vote → vote.MarkSound v) :
    CommitMarks v (createSignatureAggregator votes ledgerInfo) := by
  apply commitMarks_foldl (SignatureAggregator.FlagsSound.new ledgerInfo)
  intro vote mem
  obtain ⟨entry, inList, rfl⟩ := List.mem_map.mp mem
  exact marks _ _ (Std.ExtTreeMap.mem_toList_iff_getElem?_eq_some.mp inList)

theorem commitMarks_writeBack {clone : SignatureAggregator LedgerInfo}
    (sound : CommitMarks v a) (cloned : CommitMarks v clone) (same : clone.data = a.data) :
    CommitMarks v (a.writeBack clone) := by
  intro author signature found
  rw [writeBack, Std.ExtTreeMap.getElem?_map] at found
  obtain ⟨old, inOld, chosen⟩ := map_eq_some_iff.mp found
  cases inClone : clone.signatures[author]? with
  | none =>
    rw [inClone] at chosen
    cases chosen
    exact sound author old inOld
  | some signature' =>
    rw [inClone] at chosen
    cases chosen
    have valid := cloned author signature' inClone
    rw [same] at valid
    exact valid

namespace BufferItem

/-- What one attempt to aggregate gives, for right marks. -/
structure Attempt (v : ValidatorVerifier) (a : SignatureAggregator LedgerInfo)
    (outcome : Except VerifyError (LedgerInfo × AggregateSignature) ×
      SignatureAggregator LedgerInfo × OptimisticVerifier) : Prop where
  proof : ∀ proof, outcome.1 = .ok proof → CommitVerifies v ⟨proof.1, proof.2⟩
  marks : CommitMarks v outcome.2.1
  data : outcome.2.1.data = a.data
  verifier : outcome.2.2.verifier = v

theorem aggregateCommit_attempt (complete : Bls.Complete (M := SignedMessage) Crypto.bls)
    {validator : OptimisticVerifier} (small : validator.verifier.len < 65536)
    (sound : CommitMarks validator.verifier a) :
    Attempt validator.verifier a (aggregateCommit a validator) where
  proof := by
    intro proof done
    exact (aggregateAndVerify_verifies complete small sound done).2
  marks := sound.aggregateAndVerify
  data := aggregateAndVerify_frame.1
  verifier := aggregateAndVerify_frame.2

/-- What holds of an item in each stage. -/
def Sound (v : ValidatorVerifier) : BufferItem → Prop
  | .ordered current =>
    (∀ (author : Author) vote, current.unverifiedVotes[author]? = some vote →
      vote.MarkSound v) ∧
    ∀ proof, current.commitProof = some proof → CommitVerifies v proof
  | .executed current => CommitMarks v current.partialCommitProof
  | .signed current => CommitMarks v current.partialCommitProof
  | .aggregated current => CommitVerifies v current.commitProof

section Steps

variable {item item' : BufferItem} {validator validator' : OptimisticVerifier}

theorem Sound.addSignatureIfMatched {vote : CommitVote}
    (sound : item.Sound v) (passed : vote.Passed v)
    (fits : item.MarkFits (.addSignatureIfMatched vote))
    (done : item.addSignatureIfMatched vote = .ok item') : item'.Sound v := by
  cases item with
  | ordered current =>
    obtain ⟨marks, proofs⟩ := sound
    simp only [BufferItem.addSignatureIfMatched] at done
    split at done
    · cases done
      refine ⟨?_, proofs⟩
      intro author vote' found
      rw [Map.getElem?_insert_eq] at found
      split at found
      · cases found
        exact passed.markSound
      · exact marks author vote' found
    · cases done
  | executed current | signed current =>
    simp only [BufferItem.addSignatureIfMatched] at done
    split at done
    · rename_i matched
      cases done
      apply SignatureAggregator.FlagsSound.addSignature sound
      intro marked
      rw [← fits marked current.partialCommitProof.data (by rw [← matched]; rfl)]
      exact passed.markSound marked
    · cases done
  | aggregated current =>
    simp only [BufferItem.addSignatureIfMatched] at done
    split at done
    · cases done
      exact sound
    · cases done

theorem Sound.advanceToSigned {author : Author} {signature : Signature}
    (sound : item.Sound v) (done : item.advanceToSigned author signature = some item') :
    item'.Sound v := by
  cases item with
  | executed current =>
    cases done
    exact sound
  | ordered current | signed current | aggregated current => cases done

theorem Sound.tryAdvanceToAggregatedWithLedgerInfo
    {commitProof : LedgerInfoWithSignatures} (sound : item.Sound v)
    (verifies : CommitVerifies v commitProof)
    (done : item.tryAdvanceToAggregatedWithLedgerInfo commitProof = some item') :
    item'.Sound v := by
  cases item with
  | ordered current =>
    obtain ⟨_, -, done⟩ := bind_eq_some_iff.mp done
    cases done
    refine ⟨sound.1, ?_⟩
    intro proof same
    cases same
    exact verifies
  | executed current | signed current =>
    obtain ⟨_, -, done⟩ := bind_eq_some_iff.mp done
    cases done
    exact verifies
  | aggregated current => cases done

variable (complete : Bls.Complete (M := SignedMessage) Crypto.bls)
  (small : validator.verifier.len < 65536)

include complete small

section

variable (sound : item.Sound validator.verifier)

include sound

theorem Sound.advanceToExecutedOrAggregated {executedBlocks : List PipelinedBlock}
    {epochEndTimestamp : Option Nat} {orderVoteEnabled : Bool}
    (done : item.advanceToExecutedOrAggregated executedBlocks validator epochEndTimestamp
      orderVoteEnabled = some (item', validator')) :
    item'.Sound validator.verifier ∧ validator'.verifier = validator.verifier := by
  cases item with
  | ordered current =>
    obtain ⟨marks, proofs⟩ := sound
    obtain ⟨_, -, done⟩ := bind_eq_some_iff.mp done
    obtain ⟨lastBlock, -, done⟩ := bind_eq_some_iff.mp done
    obtain ⟨commitInfo, -, done⟩ := bind_eq_some_iff.mp done
    cases given : current.commitProof with
    | some commitProof =>
      simp only [given] at done
      obtain ⟨_, -, done⟩ := bind_eq_some_iff.mp done
      cases done
      exact ⟨proofs commitProof given, rfl⟩
    | none =>
      simp only [given] at done
      have attempt := aggregateCommit_attempt complete small
        (commitMarks_createSignatureAggregator (generateCommitLedgerInfo commitInfo
          current.orderedProof orderVoteEnabled) marks)
      split at done
      · rename_i outcome
        rw [outcome] at attempt
        cases done
        exact ⟨attempt.proof _ rfl, attempt.verifier⟩
      · rename_i outcome
        rw [outcome] at attempt
        cases done
        exact ⟨attempt.marks, attempt.verifier⟩
  | executed current | signed current | aggregated current => cases done

theorem Sound.tryAdvanceToAggregated :
    (item.tryAdvanceToAggregated validator).1.Sound validator.verifier ∧
      (item.tryAdvanceToAggregated validator).2.verifier = validator.verifier := by
  cases item with
  | ordered current | aggregated current => exact ⟨sound, rfl⟩
  | executed current | signed current =>
    have attempt := aggregateCommit_attempt complete small sound
    unfold BufferItem.tryAdvanceToAggregated
    dsimp only
    split
    · split
      · rename_i outcome
        rw [outcome] at attempt
        exact ⟨attempt.proof _ rfl, attempt.verifier⟩
      · rename_i outcome
        rw [outcome] at attempt
        -- a signed item writes the signatures back into its own
        first
          | exact ⟨attempt.marks, attempt.verifier⟩
          | exact ⟨commitMarks_writeBack sound attempt.marks attempt.data, attempt.verifier⟩
    · exact ⟨sound, rfl⟩

/-- Every step keeps the invariant of the stages, if its mark fits. -/
theorem Sound.step {input : Step}
    (given : Given validator.verifier input) (fits : item.MarkFits input)
    (done : BufferItem.step input (item, validator) = some (item', validator')) :
    item'.Sound validator.verifier ∧ validator'.verifier = validator.verifier := by
  cases input with
  | addSignatureIfMatched vote =>
    simp only [BufferItem.step] at done
    split at done
    · rename_i added
      cases done
      exact ⟨sound.addSignatureIfMatched given fits added, rfl⟩
    · cases done
      exact ⟨sound, rfl⟩
  | advanceToExecutedOrAggregated executedBlocks epochEndTimestamp orderVoteEnabled =>
    exact sound.advanceToExecutedOrAggregated complete small done
  | advanceToSigned author signature =>
    obtain ⟨next, signed, pair⟩ := map_eq_some_iff.mp done
    cases pair
    exact ⟨sound.advanceToSigned signed, rfl⟩
  | tryAdvanceToAggregated =>
    have kept := sound.tryAdvanceToAggregated complete small
    have same := some.inj done
    rw [same] at kept
    exact kept
  | tryAdvanceToAggregatedWithLedgerInfo commitProof =>
    obtain ⟨next, advanced, pair⟩ := map_eq_some_iff.mp done
    cases pair
    exact ⟨sound.tryAdvanceToAggregatedWithLedgerInfo given advanced, rfl⟩
  | addPessimisticVerifySet authors =>
    cases done
    exact ⟨sound, rfl⟩

end

end Steps

/-- The states of an item in runs whose inputs all meet `allowed`. -/
abbrev Reached (v : ValidatorVerifier) (allowed : BufferItem → Step → Prop) :
    BufferItem × OptimisticVerifier → Prop :=
  Run.Reaches step (fun s input => Given v input ∧ allowed s.1 input) (Fresh v)

theorem Fresh.sound {s : BufferItem × OptimisticVerifier}
    (fresh : Fresh v s) : s.1.Sound v ∧ s.2.verifier = v := by
  obtain ⟨sameVerifier, orderedBlocks, orderedProof, votes, passed, same⟩ := fresh
  rw [same]
  refine ⟨⟨?_, ?_⟩, sameVerifier⟩
  · intro author vote found
    exact (passed author vote found).markSound
  · intro proof given
    cases given

/-- **Every commit proof of an aggregated item verifies**, in every run in which marks fit. -/
theorem aggregated_verifies (complete : Bls.Complete (M := SignedMessage) Crypto.bls)
    {v : ValidatorVerifier} (small : v.len < 65536) {item : AggregatedItem}
    {validator : OptimisticVerifier} (reached : Reached v MarkFits (.aggregated item, validator)) :
    item.commitProof.verifySignatures Crypto.bls SignedMessage.ledgerInfo v = .ok () := by
  have invariant : (BufferItem.aggregated item).Sound v ∧ validator.verifier = v := by
    refine Run.Reaches.invariant (I := fun s => s.1.Sound v ∧ s.2.verifier = v)
      (fun s fresh => fresh.sound) ?_ reached
    rintro ⟨current, validator⟩ input ⟨next, validator'⟩ ⟨sound, rfl⟩ ⟨given, fits⟩ done
    exact sound.step complete small given fits done
  exact invariant.1

end BufferItem

end Runs

/-! ## A vote on another ledger info

Four validators of equal power, every vote checked on arrival.  Validators 1 and 2 vote on
the ledger info of the item, validator 3 on one with the same commit info and the
consensus data hash `hash`. -/

namespace ForeignVote

def tag : SignedMessage → Nat
  | .ledgerInfo li => li.consensusDataHash + 1
  | .timeout _ | .blockData _ => 0

local instance crypto : Crypto :=
  .ofRounds (.linear tag) fun key message => some (key * tag message)

def validators : ValidatorVerifier := .new [⟨1, 1, 1⟩, ⟨2, 10, 1⟩, ⟨3, 100, 1⟩, ⟨4, 1000, 1⟩]

def checking : OptimisticVerifier := ⟨validators, false, []⟩

def committed : BlockInfo := ⟨1, 1, 5, 9, 3, 0, none⟩

def block : PipelinedBlock := ⟨5, committed, false⟩

def start : BufferItem :=
  .newOrdered [block] ⟨⟨{ committed with executedStateId := 0, version := 0 }, 0⟩, .empty⟩ ∅

def received (author : Author) (key : PrivateKey) (hash : HashValue) : CommitVote :=
  .newWithSignature author ⟨committed, hash⟩ (key * (hash + 1))

/-- The vote after its check. -/
def vote (author : Author) (key : PrivateKey) (hash : HashValue) : CommitVote :=
  { received author key hash with signature := ⟨key * (hash + 1), true⟩ }

def inputs (hash : HashValue) : List BufferItem.Step :=
  [.advanceToExecutedOrAggregated [block] none true, .addSignatureIfMatched (vote 1 1 0),
    .addSignatureIfMatched (vote 2 10 0), .addSignatureIfMatched (vote 3 100 hash),
    .tryAdvanceToAggregated]

/-- Every validator but 3 votes on the ledger info of the item, and no commit proof comes
from outside. -/
def OneByzantine : BufferItem → BufferItem.Step → Prop
  | _, .addSignatureIfMatched vote => vote.author ≠ 3 → vote.ledgerInfo = ⟨committed, 0⟩
  | _, .tryAdvanceToAggregatedWithLedgerInfo _ => False
  | _, _ => True

theorem fresh : BufferItem.Fresh validators (start, checking) := by
  refine ⟨rfl, _, _, ∅, ?_, rfl⟩
  intro author vote found
  simp at found

theorem passed {author : Author} {key : PrivateKey} {hash : HashValue}
    (checked : (received author key hash).verify author checking = .ok (vote author key hash)) :
    (vote author key hash).Passed validators :=
  ⟨checking, received author key hash, author, rfl, rfl, checked⟩

def aggregated (hash : HashValue) : AggregatedItem :=
  ⟨[block], ⟨⟨committed, 0⟩, ⟨⟨[0b11100000]⟩, some (11 + 100 * (hash + 1))⟩⟩⟩

/-- All three votes on the ledger info of the item: its commit proof verifies. -/
theorem matching_vote_aggregated :
    (aggregated 0).commitProof.verifySignatures Crypto.bls SignedMessage.ledgerInfo validators =
      .ok () := by
  have reached : BufferItem.Reached validators BufferItem.MarkFits
      (.aggregated (aggregated 0), checking) := by
    refine (Run.Reaches.start fresh).of_inputs (inputs 0) ?_
    refine ⟨⟨trivial, trivial⟩, _, rfl, ⟨passed (by decide), ?_⟩, _, rfl,
      ⟨passed (by decide), ?_⟩, _, rfl, ⟨passed (by decide), ?_⟩, _, rfl,
      ⟨trivial, trivial⟩, _, by decide, rfl⟩
    all_goals
      intro _ ledgerInfo collected
      cases collected
      rfl
  exact BufferItem.aggregated_verifies (Bls.linear_complete tag) (by decide) reached

/-- The foreign vote is kept, and the commit proof of the item does not verify. -/
theorem foreign_vote_aggregated :
    Bls.Complete (M := SignedMessage) Crypto.bls ∧
      validators.powerOf 3 < validators.totalVotingPower - validators.quorumVotingPower + 1 ∧
      BufferItem.Reached validators OneByzantine (.aggregated (aggregated 7), checking) ∧
      (aggregated 7).commitProof.verifySignatures Crypto.bls SignedMessage.ledgerInfo validators =
        .error .invalidMultiSignature := by
  refine ⟨Bls.linear_complete tag, by decide, ?_, by decide⟩
  refine (Run.Reaches.start fresh).of_inputs (inputs 7) ?_
  refine ⟨⟨trivial, trivial⟩, _, rfl, ⟨passed (by decide), ?_⟩, _, rfl,
    ⟨passed (by decide), ?_⟩, _, rfl, ⟨passed (by decide), ?_⟩, _, rfl,
    ⟨trivial, trivial⟩, _, by decide +kernel, rfl⟩
  · exact fun _ => rfl
  · exact fun _ => rfl
  · exact fun other => absurd rfl other

end ForeignVote

end CreditChain
