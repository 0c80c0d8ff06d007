import CreditChain.Consensus.PendingVotes

/-!
# One quorum certificate per round

Votes for different ledger infos are collected side by side.  An author is counted for the
ledger info of its first vote only, so two certificates for different ledger infos would be
signed by disjoint quorums.

* `one_certificate_per_round`: the certificates of every sequence of votes.
-/

namespace CreditChain

open List

namespace ValidatorVerifier

/-- Two quorums of a validator set share an author. -/
theorem exists_mem_of_quorums {infos : List ValidatorConsensusInfo}
    (distinct : (infos.map (·.address)).Nodup) {authors authors' : List AccountAddress}
    (nodup : authors.Nodup) (nodup' : authors'.Nodup)
    (inside : ∀ author ∈ authors, author ∈ infos.map (·.address))
    (inside' : ∀ author ∈ authors', author ∈ infos.map (·.address)) (nonempty : infos ≠ [])
    (quorum : (new infos).quorumVotingPower ≤ (authors.map (new infos).powerOf).sum)
    (quorum' : (new infos).quorumVotingPower ≤ (authors'.map (new infos).powerOf).sum) :
    ∃ author ∈ authors, author ∈ authors' := by
  have total := sum_powerOf (v := new infos) distinct
  have two : (new infos).quorumVotingPower = sumInfos infos * 2 / 3 + 1 := by
    rw [new, if_neg (by simpa using nonempty)]
  have heavy : ∑ author ∈ (infos.map (·.address)).toFinset, (new infos).powerOf author +
      ∑ author ∈ (∅ : Finset AccountAddress), (new infos).powerOf author <
      ∑ author ∈ authors.toFinset, (new infos).powerOf author +
        ∑ author ∈ authors'.toFinset, (new infos).powerOf author := by
    rw [sum_toFinset (new infos).powerOf nodup, sum_toFinset (new infos).powerOf nodup']
    change _ = sumInfos infos at total
    change ∑ author ∈ ((new infos).validatorInfos.map (·.address)).toFinset, _ + 0 < _
    omega
  have sub : ∀ {l : List AccountAddress}, (∀ author ∈ l, author ∈ infos.map (·.address)) →
      l.toFinset ⊆ (infos.map (·.address)).toFinset := fun within author mem =>
    mem_toFinset.mpr (within author (mem_toFinset.mp mem))
  obtain ⟨author, left, right, -⟩ :=
    Quorum.exists_mem_inter_not_faulty (sub inside) (sub inside') heavy
  exact ⟨author, mem_toFinset.mp left, mem_toFinset.mp right⟩

theorem ne_nil_of_known {v : ValidatorVerifier} {author : AccountAddress}
    (known : v.getVotingPower author ≠ none) : v.validatorInfos ≠ [] := by
  intro none
  rw [getVotingPower, infoOf, addressToValidatorIndex, none] at known
  exact known rfl

end ValidatorVerifier

open ValidatorVerifier

namespace PendingVotes

variable [Crypto]

/-- The results of a sequence of votes; `none` is a panic. -/
def insertVotes : List Vote → PendingVotes × OptimisticVerifier →
    Option (List VoteReceptionResult × PendingVotes × OptimisticVerifier)
  | [], s => some ([], s)
  | vote :: votes, (self, validator) => do
    let (result, next) ← self.insertVote vote validator
    let (results, last) ← insertVotes votes next
    return (result :: results, last)

/-- The authors that a certificate names. -/
def signersOf (v : ValidatorVerifier) (li : LedgerInfoWithSignatures) : List Author :=
  li.signatures.getSignersAddresses v.getOrderedAccountAddresses

/-- The first vote of an author is for a ledger info. -/
def FirstVote (votes : List Vote) (digest : HashValue) (author : Author) : Prop :=
  ∃ vote, votes.find? (·.author = author) = some vote ∧ vote.ledgerInfo.hash = digest

/-- The votes for a ledger info come from authors with a property. -/
def Holds (v : ValidatorVerifier) (digest : HashValue) (P : Author → Prop) : VoteStatus → Prop
  | .enoughVotes li => li.ledgerInfo.hash = digest ∧ (signersOf v li).Nodup ∧
      v.quorumVotingPower ≤ ((signersOf v li).map v.powerOf).sum ∧
      (∀ author ∈ signersOf v li, P author) ∧ v.validatorInfos ≠ []
  | .notEnoughVotes aggregator =>
    aggregator.data.hash = digest ∧ ∀ author ∈ aggregator.signatures, P author

variable {v : ValidatorVerifier} {self self' : PendingVotes} {vote : Vote} {digest : HashValue}
  {validator validator' : OptimisticVerifier} {result : VoteReceptionResult}

theorem Holds.mono {P Q : Author → Prop} (weaker : ∀ author, P author → Q author)
    {status : VoteStatus} (holds : Holds v digest P status) : Holds v digest Q status := by
  cases status with
  | enoughVotes li =>
    obtain ⟨hash, nodup, power, signers, nonempty⟩ := holds
    exact ⟨hash, nodup, power, fun author mem => weaker author (signers author mem), nonempty⟩
  | notEnoughVotes aggregator =>
    exact ⟨holds.1, fun author mem => weaker author (holds.2 author mem)⟩

/-- What counting a vote does to the votes for a ledger info. -/
theorem addVote_holds {P : Author → Prop} {status status' : VoteStatus}
    {outcome : Except VoteReceptionResult Nat} (small : validator.verifier.len ≤ 65536)
    (holds : Holds validator.verifier digest P status) (voter : P vote.author)
    (nonempty : validator.verifier.validatorInfos ≠ [])
    (done : addVote status vote validator = some (outcome, status', validator')) :
    Holds validator.verifier digest P status' ∧
      (∀ qc, outcome = .error (.newQuorumCertificate qc) →
        status' = .enoughVotes qc.signedLedgerInfo) ∧
      ∀ li, status = .enoughVotes li → status' = status := by
  unfold addVote at done
  split at done
  · cases done
    refine ⟨holds, ?_, fun _ _ => rfl⟩
    intro qc same
    cases same
    rfl
  rename_i aggregator
  have added : ∀ author ∈ (aggregator.addSignature vote.author vote.signature).signatures,
      P author := by
    intro author mem
    rcases Std.ExtTreeMap.mem_insert.mp mem with same | old
    · exact Map.compare_eq_iff.mp same ▸ voter
    · exact holds.2 author old
  have left := @SignatureAggregator.aggregateAndVerify_left SignedMessage LedgerInfo Crypto.bls
    .ledgerInfo (aggregator.addSignature vote.author vote.signature) validator
  have data := (@SignatureAggregator.aggregateAndVerify_frame SignedMessage LedgerInfo Crypto.bls
    .ledgerInfo (aggregator.addSignature vote.author vote.signature) validator).1
  dsimp only at done
  split at done
  · split at done
    · cases done
    split at done
    · rename_i ledgerInfo agg aggregator' ov outcome
      rw [outcome] at left
      obtain ⟨rfl, aggregated⟩ := left.2 _ _ rfl
      obtain ⟨perm, power⟩ := SignatureAggregator.tryAggregate_signers small aggregated
      cases done
      refine ⟨⟨holds.1, perm.nodup_iff.mpr (Map.keys_nodup _), ?_, ?_, nonempty⟩, ?_, nofun⟩
      · rw [signersOf, (perm.map _).sum_eq]
        exact power
      · intro author mem
        exact added author (left.1 author (Std.ExtTreeMap.mem_keys.mp (perm.mem_iff.mp mem)))
      · intro qc same
        cases same
        rfl
    all_goals
      rename_i outcome
      rw [outcome] at left data
      cases done
      exact ⟨⟨(congrArg _ data).trans holds.1, fun author mem => added author (left.1 author mem)⟩,
        nofun, nofun⟩
  all_goals
    cases done
    exact ⟨⟨holds.1, added⟩, nofun, nofun⟩

/-- A vote is refused, or it is recorded and its ledger info gets a new status. -/
theorem insertVote_votes (done : self.insertVote vote validator = some (result, self', validator')) :
    (self' = self ∧ self.authorToVote[vote.author]? ≠ none ∧
      ∀ qc, result ≠ .newQuorumCertificate qc) ∨
    (∀ seen, self.authorToVote[vote.author]? = some seen → seen.2 = vote.ledgerInfo.hash) ∧
      self'.authorToVote = self.authorToVote.insert vote.author (vote, vote.ledgerInfo.hash) ∧
      ∃ status, (∀ digest, self'.liDigestToVotes[digest]? =
          if vote.ledgerInfo.hash = digest then some status else self.liDigestToVotes[digest]?) ∧
        let old := self.liDigestToVotes[vote.ledgerInfo.hash]?.getD
          (.notEnoughVotes (.new vote.ledgerInfo))
        ((status = old ∧ ∀ qc, result ≠ .newQuorumCertificate qc) ∨
          ∃ outcome validator₁, validator.verifier.getVotingPower vote.author ≠ none ∧
            addVote old vote validator = some (outcome, status, validator₁) ∧
              ∀ qc, result = .newQuorumCertificate qc → outcome = .error (.newQuorumCertificate qc)) := by
  unfold insertVote at done
  dsimp only at done
  cases seen : self.seenBefore vote vote.ledgerInfo.hash with
  | some answer =>
    rw [seen] at done
    cases done
    refine .inl ⟨rfl, ?_, ?_⟩
    · intro none
      rw [seenBefore, none] at seen
      cases seen
    rintro qc rfl
    unfold seenBefore at seen
    split at seen
    · cases seen
    split at seen
    · split at seen
      · cases seen
      · cases seen
    · cases seen
  | none =>
    have first : ∀ before, self.authorToVote[vote.author]? = some before →
        before.2 = vote.ledgerInfo.hash := by
      intro before found
      rw [seenBefore, found] at seen
      dsimp only at seen
      split at seen
      · rename_i same
        exact same.symm
      · cases seen
    rw [seen] at done
    dsimp only at done
    split at done
    · cases done
      exact .inr ⟨first, rfl, _, fun digest => Map.getElem?_insert_eq, .inl ⟨rfl, nofun⟩⟩
    rename_i known
    obtain ⟨⟨outcome, status, validator₁⟩, voted, done⟩ := Option.bind_eq_some_iff.mp done
    have twice : ∀ digest, ((self.liDigestToVotes.insert vote.ledgerInfo.hash
        (self.liDigestToVotes[vote.ledgerInfo.hash]?.getD
          (.notEnoughVotes (.new vote.ledgerInfo)))).insert vote.ledgerInfo.hash status)[digest]? =
        if vote.ledgerInfo.hash = digest then some status else self.liDigestToVotes[digest]? := by
      intro digest
      simp only [Map.getElem?_insert_eq]
      split
      · rfl
      · rfl
    dsimp only at done
    split at done
    · cases done
      refine .inr ⟨first, rfl, status, twice, .inr ⟨_, _, known, voted, ?_⟩⟩
      rintro qc rfl
      rfl
    · cases done
      exact .inr ⟨first, rfl, status, twice, .inr ⟨_, _, known, voted, nofun⟩⟩
    obtain ⟨⟨outcome', self₁⟩, added, pair⟩ := Option.map_eq_some_iff.mp done
    obtain ⟨⟨votes, authors, noCertificate⟩, -⟩ := addTimeout_spec added
    cases outcome' with
    | error answer =>
      cases pair
      refine .inr ⟨first, authors, status, ?_, .inr ⟨_, _, known, voted, ?_⟩⟩
      · rw [votes]
        exact twice
      · rintro qc rfl
        exact absurd rfl (noCertificate qc)
    | ok power =>
      cases pair
      refine .inr ⟨first, authors, status, ?_, .inr ⟨_, _, known, voted, nofun⟩⟩
      rw [votes]
      exact twice

/-! ## Sequences of votes -/

/-- What the votes so far have left behind. -/
structure Tallied (v : ValidatorVerifier) (votes : List Vote) (results : List VoteReceptionResult)
    (pending : PendingVotes) : Prop where
  first : ∀ author, pending.authorToVote[author]?.map (·.2) =
    (votes.find? (·.author = author)).map (·.ledgerInfo.hash)
  holds : ∀ digest status, pending.liDigestToVotes[digest]? = some status →
    Holds v digest (FirstVote votes digest) status
  certified : ∀ qc, .newQuorumCertificate qc ∈ results →
    pending.liDigestToVotes[qc.signedLedgerInfo.ledgerInfo.hash]? =
      some (.enoughVotes qc.signedLedgerInfo)

variable {votes : List Vote}

theorem FirstVote.append {author : Author} (first : FirstVote votes digest author)
    (more : List Vote) :
    FirstVote (votes ++ more) digest author := by
  obtain ⟨vote, found, hash⟩ := first
  exact ⟨vote, by rw [find?_append, found]; rfl, hash⟩

theorem Tallied.insertVote {results : List VoteReceptionResult}
    (small : validator.verifier.len ≤ 65536)
    (tallied : Tallied validator.verifier votes results self)
    (done : self.insertVote vote validator = some (result, self', validator')) :
    Tallied validator.verifier (votes ++ [vote]) (results ++ [result]) self' := by
  have found : ∀ author, ((votes ++ [vote]).find? (·.author = author)).map (·.ledgerInfo.hash) =
      (self.authorToVote[author]?.map (·.2)).or
        (if vote.author = author then some vote.ledgerInfo.hash else none) := by
    intro author
    rw [find?_append, Option.map_or, tallied.first]
    by_cases same : vote.author = author
    · simp
    · simp
  rcases insertVote_votes done with ⟨rfl, seen, noCertificate⟩ |
    ⟨same, authors, status, statuses, turn⟩
  · refine ⟨?_, ?_, ?_⟩
    · intro author
      rw [found]
      by_cases own : vote.author = author
      · subst own
        obtain ⟨before, there⟩ := Option.ne_none_iff_exists'.mp seen
        rw [there]
        rfl
      · rw [if_neg own, Option.or_none]
    · intro digest status there
      exact (tallied.holds digest status there).mono fun author first => first.append [vote]
    · intro qc mem
      rcases mem_append.mp mem with old | new
      · exact tallied.certified qc old
      · exact absurd (mem_singleton.mp new).symm (noCertificate qc)
  · have voter : FirstVote (votes ++ [vote]) vote.ledgerInfo.hash vote.author := by
      have own := found vote.author
      rw [if_pos rfl] at own
      cases before : self.authorToVote[vote.author]? with
      | none =>
        rw [before] at own
        exact Option.map_eq_some_iff.mp own
      | some seen =>
        rw [before, Option.map_some, same seen before] at own
        exact Option.map_eq_some_iff.mp own
    have old : Holds validator.verifier vote.ledgerInfo.hash
        (FirstVote (votes ++ [vote]) vote.ledgerInfo.hash)
        (self.liDigestToVotes[vote.ledgerInfo.hash]?.getD
          (.notEnoughVotes (.new vote.ledgerInfo))) := by
      cases there : self.liDigestToVotes[vote.ledgerInfo.hash]? with
      | none =>
        refine ⟨rfl, ?_⟩
        intro author mem
        simp [SignatureAggregator.new] at mem
      | some status => exact (tallied.holds _ _ there).mono fun author first => first.append [vote]
    -- The new status holds, and a certificate formed before is still there.
    obtain ⟨holds, certificate, kept⟩ : Holds validator.verifier vote.ledgerInfo.hash
        (FirstVote (votes ++ [vote]) vote.ledgerInfo.hash) status ∧
        (∀ qc, result = .newQuorumCertificate qc → status = .enoughVotes qc.signedLedgerInfo) ∧
        ∀ li, self.liDigestToVotes[vote.ledgerInfo.hash]? = some (.enoughVotes li) →
          status = .enoughVotes li := by
      rcases turn with ⟨rfl, noCertificate⟩ | ⟨outcome, validator₁, known, voted, passed⟩
      · refine ⟨old, fun qc isNew => absurd isNew (noCertificate qc), ?_⟩
        intro li there
        rw [there]
        rfl
      · obtain ⟨holds, certificate, kept⟩ := addVote_holds small old voter
          (ne_nil_of_known known) voted
        refine ⟨holds, fun qc isNew => certificate qc (passed qc isNew), ?_⟩
        intro li there
        rw [there] at kept
        exact kept li rfl
    refine ⟨?_, ?_, ?_⟩
    · intro author
      rw [found, authors, Map.getElem?_insert_eq]
      by_cases own : vote.author = author
      · subst own
        rw [if_pos rfl, if_pos rfl]
        cases before : self.authorToVote[vote.author]? with
        | none => rfl
        | some seen => exact congrArg some (same seen before).symm
      · rw [if_neg own, if_neg own, Option.or_none]
    · intro digest status' there
      rw [statuses] at there
      split at there
      · rename_i own
        cases there
        exact own ▸ holds
      · exact (tallied.holds digest status' there).mono fun author first => first.append [vote]
    · intro qc mem
      rw [statuses]
      rcases mem_append.mp mem with before | new
      · have there := tallied.certified qc before
        split
        · rename_i own
          rw [← own] at there
          rw [kept _ there]
        · exact there
      · have formed := certificate qc (mem_singleton.mp new).symm
        rw [formed] at holds
        rw [if_pos holds.1.symm, formed]

theorem Tallied.insertVotes {more : List Vote} {results more' : List VoteReceptionResult}
    {last : PendingVotes × OptimisticVerifier} (small : validator.verifier.len ≤ 65536)
    (tallied : Tallied validator.verifier votes results self)
    (done : PendingVotes.insertVotes more (self, validator) = some (more', last)) :
    Tallied validator.verifier (votes ++ more) (results ++ more') last.1 := by
  induction more generalizing votes results self validator more' with
  | nil =>
    cases done
    rw [append_nil, append_nil]
    exact tallied
  | cons vote more ih =>
    obtain ⟨⟨result, next, validator'⟩, inserted, rest⟩ := Option.bind_eq_some_iff.mp done
    obtain ⟨⟨results', last'⟩, continued, same⟩ := Option.bind_eq_some_iff.mp rest
    cases same
    have verifier := (insertVote_spec inserted).1
    have step := tallied.insertVote small inserted
    rw [← verifier] at small step ⊢
    have run := ih small step continued
    rw [append_assoc, append_assoc] at run
    exact run

/-- **One certificate per round**: all certificates of a sequence of votes are for one ledger
info, and signed by a quorum of authors whose first vote was for it. -/
theorem one_certificate_per_round {infos : List ValidatorConsensusInfo}
    (distinct : (infos.map (·.address)).Nodup) (small : infos.length ≤ 65536)
    {validator : OptimisticVerifier} (built : validator.verifier = .new infos)
    {votes : List Vote} {results : List VoteReceptionResult}
    {last : PendingVotes × OptimisticVerifier}
    (done : insertVotes votes (.new, validator) = some (results, last)) :
    ∃ digest, ∀ qc, .newQuorumCertificate qc ∈ results →
      qc.signedLedgerInfo.ledgerInfo.hash = digest ∧
      (signersOf (.new infos) qc.signedLedgerInfo).Nodup ∧
      (ValidatorVerifier.new infos).quorumVotingPower ≤
        ((signersOf (.new infos) qc.signedLedgerInfo).map
          (ValidatorVerifier.new infos).powerOf).sum ∧
      ∀ author ∈ signersOf (.new infos) qc.signedLedgerInfo, FirstVote votes digest author := by
  have start : Tallied validator.verifier [] [] .new := by
    refine ⟨?_, ?_, nofun⟩
    · intro author
      simp [PendingVotes.new]
    · intro digest status there
      simp [PendingVotes.new] at there
  have tallied := start.insertVotes (built ▸ small) done
  rw [built] at tallied
  have each : ∀ qc, .newQuorumCertificate qc ∈ results →
      Holds (.new infos) qc.signedLedgerInfo.ledgerInfo.hash
        (FirstVote votes qc.signedLedgerInfo.ledgerInfo.hash) (.enoughVotes qc.signedLedgerInfo) :=
    fun qc mem => tallied.holds _ _ (tallied.certified qc mem)
  have inside : ∀ li, ∀ author ∈ signersOf (.new infos) li, author ∈ infos.map (·.address) := by
    intro li author mem
    obtain ⟨entry, listed, read⟩ := mem_filterMap.mp mem
    split at read
    · cases read
      exact fst_mem_of_mem_zipIdx listed
    · cases read
  by_cases any : ∃ qc, .newQuorumCertificate qc ∈ results
  · obtain ⟨qc, mem⟩ := any
    refine ⟨qc.signedLedgerInfo.ledgerInfo.hash, ?_⟩
    intro qc' mem'
    obtain ⟨-, nodup, power, signers, nonempty⟩ := each qc mem
    obtain ⟨-, nodup', power', signers', -⟩ := each qc' mem'
    obtain ⟨author, left, right⟩ := exists_mem_of_quorums distinct nodup nodup'
      (inside _) (inside _) nonempty power power'
    obtain ⟨vote, found, hash⟩ := signers author left
    obtain ⟨vote', found', hash'⟩ := signers' author right
    have same : qc'.signedLedgerInfo.ledgerInfo.hash = qc.signedLedgerInfo.ledgerInfo.hash := by
      rw [found] at found'
      cases found'
      exact hash'.symm.trans hash
    exact ⟨same, nodup', power', same ▸ signers'⟩
  · exact ⟨0, fun qc mem => absurd ⟨qc, mem⟩ any⟩

end PendingVotes

/-! ## More validators than positions of a mask

The position of a validator is cut to 16 bits: the share of validator 65536 marks position 0. -/

namespace ManyValidators

attribute [local instance] RaisedTimeout.crypto

def vote (author : Author) (signature : SignatureWithStatus) : Vote :=
  ⟨⟨RaisedTimeout.blockInfo 1, RaisedTimeout.blockInfo 0⟩, author, ⟨RaisedTimeout.blockInfo 0, 2⟩,
    signature, none⟩

/-- Four votes, one of them with a bad signature. -/
def votes : List Vote :=
  [vote 1 ⟨3, true⟩, vote 2 ⟨5, false⟩, vote 3 ⟨300, false⟩, vote 4 ⟨3000, false⟩]

theorem inserted : (PendingVotes.insertVotes votes RaisedTimeout.start).isSome := by
  decide +kernel

theorem four_votes :
    ∃ digest, ∀ qc, .newQuorumCertificate qc ∈
        ((PendingVotes.insertVotes votes RaisedTimeout.start).get inserted).1 →
      qc.signedLedgerInfo.ledgerInfo.hash = digest := by
  have distinct : (RaisedTimeout.validators.validatorInfos.map (·.address)).Nodup := by decide
  obtain ⟨digest, all⟩ := PendingVotes.one_certificate_per_round distinct (by decide) rfl
    (Option.some_get inserted).symm
  exact ⟨digest, fun qc mem => (all qc mem).1⟩

def last : ValidatorConsensusInfo := ⟨65536, 1, 2⟩

/-- The vote of the last validator, the signatures then, and the certificate. -/
def ballot : Vote := vote 65536 ⟨3, true⟩

def counted : SignatureAggregator LedgerInfo :=
  (SignatureAggregator.new ballot.ledgerInfo).addSignature 65536 ⟨3, true⟩

def formed : LedgerInfoWithSignatures := ⟨ballot.ledgerInfo, ⟨⟨[128]⟩, some 3⟩⟩

section Wraps

variable {others : List ValidatorConsensusInfo} (full : others.length = 65536)

include full

theorem index_last : (new (others ++ [last])).addressToValidatorIndex 65536 = some 65536 := by
  have indexed : (others ++ [last]).zipIdx.reverse = (last, 65536) :: others.zipIdx.reverse := by
    rw [zipIdx_append, reverse_append, full]
    rfl
  rw [addressToValidatorIndex, new, indexed]
  rfl

theorem power_last : (new (others ++ [last])).getVotingPower 65536 = some 2 := by
  have there : (others ++ [last])[65536]? = some last := by
    rw [← full, getElem?_concat_length]
  rw [getVotingPower, infoOf, index_last full, Option.bind_some, new, there]
  rfl

section

variable (powerless : ∀ info ∈ others, info.votingPower = 0)

include powerless

theorem checkVotingPower_last :
    (new (others ++ [last])).quorumVotingPower = 2 ∧
      (new (others ++ [last])).checkVotingPower [65536] true = .ok 2 := by
  have quorum : (new (others ++ [last])).quorumVotingPower = 2 := by
    have zero : (others.map (·.votingPower)).sum = 0 :=
      sum_eq_zero (by simpa using powerless)
    simp [new, sumInfos, zero, last]
  have sum : (new (others ++ [last])).sumVotingPower [65536] = .ok 2 := by
    rw [sumVotingPower, power_last full]
    rfl
  refine ⟨quorum, ?_⟩
  rw [checkVotingPower, sum]
  simp [checkAggregatedVotingPower, quorum]

theorem tryAggregate_last :
    counted.tryAggregate Crypto.bls (.new (others ++ [last])) = .ok formed.signatures := by
  have len : (new (others ++ [last])).len = 65537 := by
    simp [new, len, full]
  change (do
    let _ ← (new (others ++ [last])).checkVotingPower [65536] true
    (new (others ++ [last])).aggregateSignatures Crypto.bls [(65536, 3)]) = _
  rw [(checkVotingPower_last full powerless).2, aggregateSignatures,
    collectShares, index_last full, len]
  rfl

/-- The flagged signature stays in any case. -/
theorem aggregateAndVerify_last :
    ∃ next, counted.aggregateAndVerify Crypto.bls SignedMessage.ledgerInfo
        ⟨.new (others ++ [last]), true, []⟩ =
      (.ok (formed.ledgerInfo, formed.signatures), next) := by
  have made := tryAggregate_last full powerless
  rcases SignatureAggregator.aggregateAndVerify_cases Crypto.bls SignedMessage.ledgerInfo counted
    ⟨.new (others ++ [last]), true, []⟩ with ⟨e, failed, -⟩ |
    ⟨agg, first, ⟨-, result⟩ | ⟨-, authors, result⟩⟩
  · rw [made] at failed
    cases failed
  · rw [made] at first
    cases first
    exact ⟨_, result⟩
  have same : counted.filtered Crypto.bls SignedMessage.ledgerInfo (.new (others ++ [last])) =
      counted := by
    refine congrArg (SignatureAggregator.mk _) (Std.ExtTreeMap.ext_getElem? ?_)
    intro author
    rw [filterInvalidSignatures, Std.ExtTreeMap.getElem?_filterMap', counted,
      SignatureAggregator.addSignature, Map.getElem?_insert_eq]
    split
    · rfl
    · rfl
  rw [same, made] at result
  exact ⟨_, result⟩

theorem insertVotes_last :
    ∃ next, PendingVotes.insertVotes [ballot] (.new, ⟨.new (others ++ [last]), true, []⟩) =
      some ([.newQuorumCertificate ⟨ballot.voteData, formed⟩], next) := by
  obtain ⟨quorum, enough⟩ := checkVotingPower_last full powerless
  obtain ⟨next, verified⟩ := aggregateAndVerify_last full powerless
  have added : PendingVotes.addVote (.notEnoughVotes (.new ballot.ledgerInfo)) ballot
      ⟨.new (others ++ [last]), true, []⟩ =
      some (.error (.newQuorumCertificate ⟨ballot.voteData, formed⟩), .enoughVotes formed,
        next.2) := by
    have enough : counted.checkVotingPower (.new (others ++ [last])) true = .ok 2 := enough
    have same : (SignatureAggregator.new ballot.ledgerInfo).addSignature ballot.author
        ballot.signature = counted := rfl
    rw [PendingVotes.addVote, same]
    simp only [enough, verified, quorum, lt_irrefl, if_false]
  obtain ⟨pending, inserted⟩ : ∃ pending,
      PendingVotes.new.insertVote ballot ⟨.new (others ++ [last]), true, []⟩ =
        some (.newQuorumCertificate ⟨ballot.voteData, formed⟩, pending, next.2) := by
    have known : (new (others ++ [last])).getVotingPower ballot.author ≠ none := by
      rw [show ballot.author = 65536 from rfl, power_last full]
      nofun
    have fresh : PendingVotes.new.liDigestToVotes[ballot.ledgerInfo.hash]? = none := rfl
    rw [PendingVotes.insertVote]
    simp only [if_neg known, fresh, Option.getD_none, added]
    exact ⟨_, rfl⟩
  exact ⟨_, by rw [PendingVotes.insertVotes, inserted]; rfl⟩

end

end Wraps

theorem silent_signer :
    ∃ infos : List ValidatorConsensusInfo, (infos.map (·.address)).Nodup ∧ ∃ qc next,
      PendingVotes.insertVotes [ballot] (.new, ⟨.new infos, true, []⟩) =
        some ([.newQuorumCertificate qc], next) ∧
      0 ∈ PendingVotes.signersOf (.new infos) qc.signedLedgerInfo ∧
      ∀ digest, ¬ PendingVotes.FirstVote [ballot] digest 0 := by
  have full : ((range 65536).map (ValidatorConsensusInfo.mk · 1 0)).length = 65536 := by
    rw [length_map, length_range]
  obtain ⟨next, inserted⟩ := insertVotes_last full (by simp)
  refine ⟨_, ?_, _, _, inserted, ?_, ?_⟩
  · rw [map_append, map_map]
    change (map (fun address => address) (range 65536) ++ [65536]).Nodup
    rw [map_id', ← range_succ]
    exact nodup_range
  · refine mem_filterMap.mpr ⟨(0, 0), ?_, rfl⟩
    rw [mem_zipIdx_iff_getElem?]
    simp [getOrderedAccountAddresses, new]
  · rintro digest ⟨vote, found, -⟩
    cases found

end ManyValidators

end CreditChain
