import ChainRegistry.Proofs.Admission
import ChainRegistry.Proofs.Validity
import ChainRegistry.Proofs.Voting.Periods

/-!
# What valid registries promise

The parts of a registry are used without looking at the checks again: votes are given a length, gas
prices and amounts are compared with their bounds, and metadata is admitted.  In a valid registry
the bounds leave room for all of this.  A vote is never given an empty length or one beyond the
longest, the usual gas price is a price that is taken, the least amount can be sent either way, and
a transfer may name any jurisdiction on its own.
-/

namespace ChainRegistry

namespace VotingPeriods

variable {periods : VotingPeriods}

theorem upperEnd_of_le (hle : periods.shortest ≤ periods.longest) :
    periods.upperEnd = periods.longest := by
  rw [UInt64.le_iff_toNat_le] at hle
  rw [← UInt64.toNat_inj, upperEnd, UInt64.toNat_max]
  exact Nat.max_eq_left hle

theorem allows_iff_of_inOrder (hinOrder : periods.inOrder = true) {length : UInt64} :
    periods.Allows length ↔ periods.shortest ≤ length ∧ length ≤ periods.longest := by
  obtain ⟨hlow, hhigh⟩ := (Registry.votingPeriods_inOrder_iff periods).mp hinOrder
  rw [Allows, upperEnd_of_le (UInt64.le_trans hlow hhigh)]

end VotingPeriods

namespace AmountBounds

variable {bounds : AmountBounds} {amount : UInt64}

theorem admitsTransfer_iff :
    bounds.admitsTransfer amount = true ↔ bounds.least ≤ amount ∧ amount ≤ bounds.transfer := by
  simp [admitsTransfer]

theorem admitsDelegation_iff :
    bounds.admitsDelegation amount = true ↔
      bounds.least ≤ amount ∧ amount ≤ bounds.delegation := by
  simp [admitsDelegation]

theorem admitsDelegation_of_admitsTransfer (hinOrder : bounds.transfer ≤ bounds.delegation)
    (hadmits : bounds.admitsTransfer amount = true) : bounds.admitsDelegation amount = true := by
  obtain ⟨hlow, hhigh⟩ := admitsTransfer_iff.mp hadmits
  exact admitsDelegation_iff.mpr ⟨hlow, UInt64.le_trans hhigh hinOrder⟩

end AmountBounds

/-- A transfer needs no texts, so a tag that is supported is enough where one may be given. -/
theorem ChatRecord.isAdmissible_of_supports {r : Registry} {tag : String} (hlimit : r.chat.tags ≠ 0)
    (hsupports : r.jurisdictions.supports tag = true) :
    IsAdmissible ⟨none, none, [tag]⟩ r .transfer where
  contextId := by simp
  transcriptHash := by simp
  tagCount := by
    have hpos : r.chat.tags.toNat ≠ 0 := fun hzero => hlimit (UInt64.toNat_inj.mp hzero)
    exact Nat.one_le_iff_ne_zero.mpr hpos
  tags := by simpa [Jurisdictions.supports] using hsupports
  required := by
    intro field hasks
    cases field <;> simp [TransactionKind.Asks] at hasks

namespace Registry

/-- Under a valid registry a vote lasts at least a block and keeps between the shortest and the
longest length, and the usual length is what it was; the usual gas price is taken; what may be
transferred may be delegated and can be represented, and the least amount may be both; and a
supported tag on its own is admitted with a transfer. -/
theorem promises_of_valid {r : Registry} (hvalid : r.violation? = none) :
    (∀ request, 0 < r.voting.nearest request ∧
        r.voting.shortest ≤ r.voting.nearest request ∧
        r.voting.nearest request ≤ r.voting.longest) ∧
      r.voting.nearest r.voting.usual = r.voting.usual ∧
      r.blocks.gasPrice.admits r.blocks.gasPrice.usual = true ∧
      (∀ amount, r.amounts.admitsTransfer amount = true →
        r.amounts.admitsDelegation amount = true ∧ amount ≤ r.amounts.representable) ∧
      r.amounts.admitsTransfer r.amounts.least = true ∧
      r.amounts.admitsDelegation r.amounts.least = true ∧
      ∀ tag, r.jurisdictions.supports tag = true →
        r.chatViolation? (some .transfer) ⟨none, none, [tag]⟩ = none := by
  have hbounds := keepsBounds_of_valid hvalid
  have hperiods : r.voting.inOrder = true :=
    (votingPeriods_inOrder_iff r.voting).mpr hbounds.votingPeriods
  obtain ⟨hleast, htransfer, hdelegation⟩ := hbounds.amounts
  have hadmits : r.amounts.admitsTransfer r.amounts.least = true :=
    AmountBounds.admitsTransfer_iff.mpr ⟨UInt64.le_refl _, hleast⟩
  refine ⟨fun request => ?_, ?_, ?_, fun amount hamount => ⟨?_, ?_⟩, hadmits, ?_,
    fun tag htag => ?_⟩
  · have hallows := (VotingPeriods.allows_iff_of_inOrder hperiods).mp
      (r.voting.allows_nearest request)
    have hpos : 0 < r.voting.shortest := UInt64.pos_iff_ne_zero.mpr hbounds.shortestVote
    exact ⟨UInt64.lt_of_lt_of_le hpos hallows.1, hallows⟩
  · rw [VotingPeriods.nearest_eq_self_iff, VotingPeriods.allows_iff_of_inOrder hperiods]
    exact hbounds.votingPeriods
  · exact (gasTariff_admits_iff _ _).mpr hbounds.gasPrice
  · exact AmountBounds.admitsDelegation_of_admitsTransfer htransfer hamount
  · have hhigh := (AmountBounds.admitsTransfer_iff.mp hamount).2
    exact UInt64.le_trans hhigh (UInt64.le_trans htransfer hdelegation)
  · exact AmountBounds.admitsDelegation_of_admitsTransfer htransfer hadmits
  · have hadmissible := ChatRecord.isAdmissible_of_supports hbounds.chatLimits.2.2 htag
    rw [ChatRecord.chatViolation?_eq, List.findSome?_eq_none_iff]
    exact ChatRecord.answers_eq_none_iff.mpr hadmissible

/-- A valid registry in which no bound leaves more than one value. -/
def narrowRegistry : Registry :=
  { reference with
    blocks := { BlockRules.reference with gasPrice := ⟨7, 7, 7⟩ }
    voting := ⟨1, 1, 1⟩
    chat := ⟨1, 1, 1⟩
    jurisdictions := ⟨[""]⟩
    amounts := ⟨5, 5, 5, 5⟩ }

theorem promises_of_valid_narrowRegistry :
    narrowRegistry.violation? = none ∧
      narrowRegistry.voting.nearest 1 = 1 ∧
      0 < narrowRegistry.voting.nearest 0 ∧
      narrowRegistry.voting.nearest 18446744073709551615 ≤ 1 ∧
      narrowRegistry.blocks.gasPrice.admits 7 = true ∧
      narrowRegistry.amounts.admitsDelegation 5 = true ∧
      narrowRegistry.chatViolation? (some .transfer) ⟨none, none, [""]⟩ = none := by
  have hvalid : narrowRegistry.violation? = none := by
    decide +kernel
  obtain ⟨hlengths, husual, hprice, hamounts, hleast, -, htags⟩ := promises_of_valid hvalid
  exact ⟨hvalid, husual, (hlengths 0).1, (hlengths 18446744073709551615).2.2, hprice,
    (hamounts 5 hleast).1, htags "" (by decide)⟩

end Registry

end ChainRegistry
