import ChainRegistry.Voting
import Mathlib.Data.Nat.Dist

/-!
# Lengths of votes

The length of a vote may be asked for freely, and periods that were never validated are asked too.
So the lengths that are allowed end at the longest one or, where that lies below the shortest, at
the shortest.  To hold a request between two ends makes sense only if these are in order, which they
are now for all periods.  Among the allowed lengths one lies nearer to the request than all others.
-/

namespace ChainRegistry

namespace VotingPeriods

/-- A value held between two ends.  Nothing is held between ends that are out of order. -/
def heldBetween? (low high value : UInt64) : Option UInt64 :=
  if high < low then none
  else some (if value < low then low else if high < value then high else value)

def upperEnd (periods : VotingPeriods) : UInt64 :=
  max periods.longest periods.shortest

def Allows (periods : VotingPeriods) (length : UInt64) : Prop :=
  periods.shortest ≤ length ∧ length ≤ periods.upperEnd

variable {periods : VotingPeriods} {request length : UInt64}

theorem shortest_le_upperEnd (periods : VotingPeriods) :
    periods.shortest.toNat ≤ periods.upperEnd.toNat := by
  rw [upperEnd, UInt64.toNat_max]
  exact Nat.le_max_right _ _

theorem allows_iff :
    periods.Allows length ↔
      periods.shortest.toNat ≤ length.toNat ∧ length.toNat ≤ periods.upperEnd.toNat := by
  rw [Allows, UInt64.le_iff_toNat_le, UInt64.le_iff_toNat_le]

theorem toNat_nearest (periods : VotingPeriods) (request : UInt64) :
    (periods.nearest request).toNat =
      max periods.shortest.toNat (min request.toNat periods.upperEnd.toNat) := by
  have hends := periods.shortest_le_upperEnd
  rw [nearest, ← upperEnd]
  simp only [UInt64.lt_iff_toNat_lt]
  split
  next hlow => omega
  next hlow =>
    rw [UInt64.toNat_min]
    omega

theorem heldBetween?_ends (periods : VotingPeriods) (request : UInt64) :
    heldBetween? periods.shortest periods.upperEnd request = some (periods.nearest request) := by
  have hends := periods.shortest_le_upperEnd
  have hnearest := periods.toNat_nearest request
  simp only [heldBetween?, UInt64.lt_iff_toNat_lt]
  rw [if_neg (Nat.not_lt.mpr hends), Option.some.injEq, ← UInt64.toNat_inj]
  split
  next hlow => omega
  next hlow =>
    split
    next hhigh => omega
    next hhigh => omega

theorem allows_nearest (periods : VotingPeriods) (request : UInt64) :
    periods.Allows (periods.nearest request) := by
  have hends := periods.shortest_le_upperEnd
  rw [allows_iff, toNat_nearest]
  omega

theorem nearest_eq_self_iff : periods.nearest request = request ↔ periods.Allows request := by
  have hends := periods.shortest_le_upperEnd
  rw [← UInt64.toNat_inj, toNat_nearest, allows_iff]
  omega

theorem nearest_of_lt (hlow : request < periods.shortest) :
    periods.nearest request = periods.shortest := by
  rw [UInt64.lt_iff_toNat_lt] at hlow
  rw [← UInt64.toNat_inj, toNat_nearest]
  omega

theorem nearest_of_gt (hhigh : periods.upperEnd < request) :
    periods.nearest request = periods.upperEnd := by
  have hends := periods.shortest_le_upperEnd
  rw [UInt64.lt_iff_toNat_lt] at hhigh
  rw [← UInt64.toNat_inj, toNat_nearest]
  omega

theorem dist_nearest_lt (hallows : periods.Allows length) (hne : length ≠ periods.nearest request) :
    Nat.dist request.toNat (periods.nearest request).toNat <
      Nat.dist request.toNat length.toNat := by
  rw [allows_iff] at hallows
  rw [ne_eq, ← UInt64.toNat_inj, toNat_nearest] at hne
  rw [toNat_nearest, Nat.dist, Nat.dist]
  omega

theorem nearest_le_nearest {later : UInt64} (hle : request ≤ later) :
    periods.nearest request ≤ periods.nearest later := by
  rw [UInt64.le_iff_toNat_le] at hle ⊢
  rw [toNat_nearest, toNat_nearest]
  omega

/-- Whatever the periods, a request can be held between their ends.  The result is allowed and
nearer to the request than any other length that is allowed: the request itself if that is allowed,
and otherwise the end that the request lies beyond.  What was once held stays, and the order of
requests is kept. -/
theorem nearest_allowed_length (periods : VotingPeriods) :
    (∀ request,
        heldBetween? periods.shortest periods.upperEnd request = some (periods.nearest request) ∧
          periods.Allows (periods.nearest request) ∧
          (periods.nearest request = request ↔ periods.Allows request) ∧
          (request < periods.shortest → periods.nearest request = periods.shortest) ∧
          (periods.upperEnd < request → periods.nearest request = periods.upperEnd) ∧
          periods.nearest (periods.nearest request) = periods.nearest request) ∧
      (∀ request length, periods.Allows length → length ≠ periods.nearest request →
        Nat.dist request.toNat (periods.nearest request).toNat <
          Nat.dist request.toNat length.toNat) ∧
      ∀ request later, request ≤ later → periods.nearest request ≤ periods.nearest later := by
  refine ⟨fun request => ⟨?_, ?_, ?_, ?_, ?_, ?_⟩, ?_, ?_⟩
  · exact heldBetween?_ends periods request
  · exact allows_nearest periods request
  · exact nearest_eq_self_iff
  · exact nearest_of_lt
  · exact nearest_of_gt
  · exact nearest_eq_self_iff.mpr (allows_nearest periods request)
  · exact fun _ _ => dist_nearest_lt
  · exact fun _ _ => nearest_le_nearest

/-- Periods out of order, of which a vote can only take the shortest: without the upper end, nothing
could be held between them.  Where there is a choice, the end nearer to the request is taken. -/
theorem nearest_allowed_length_of_reversed :
    let reversed : VotingPeriods := ⟨1000, 5, 10⟩
    let short : VotingPeriods := ⟨300, 5, 350⟩
    heldBetween? reversed.shortest reversed.longest 400 = none ∧
      heldBetween? reversed.shortest reversed.upperEnd 400 = some 1000 ∧
      reversed.nearest 18446744073709551615 = 1000 ∧
      reversed.nearest 0 ≤ reversed.nearest 400 ∧
      Nat.dist 400 (short.nearest 400).toNat < Nat.dist 400 349 := by
  intro reversed short
  obtain ⟨hrequest, -, hmono⟩ := nearest_allowed_length reversed
  obtain ⟨-, hcloser, -⟩ := nearest_allowed_length short
  obtain ⟨hheld, -, -, hlow, -⟩ := hrequest 400
  obtain ⟨-, -, -, -, hhigh, -⟩ := hrequest 18446744073709551615
  have hallows : short.Allows 349 := by
    rw [Allows]
    decide
  refine ⟨by decide, ?_, hhigh (by decide), hmono 0 400 (by decide), ?_⟩
  · rw [hheld, hlow (by decide)]
  · exact hcloser 400 349 hallows (by decide)

end VotingPeriods

end ChainRegistry
