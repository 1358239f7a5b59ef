import ChainRegistry.Document.Scalar

/-!
# Bounds on amounts

Amounts of tokens are bounded from below and, separately, for transfers and for delegations from
above.  Many bounds exceed what readers with signed integers can hold, so they are exchanged as
decimal numerals, and the four of them are always given together.
-/

namespace ChainRegistry

/-- Bounds in the smallest unit of the token. -/
structure AmountBounds where
  representable : UInt64
  least : UInt64
  transfer : UInt64
  delegation : UInt64
  deriving DecidableEq, Repr

namespace AmountBounds

def reference : AmountBounds where
  representable := 18446744073709551615
  least := 0
  transfer := 1000000000000000000
  delegation := 10000000000000000000

def inOrder (bounds : AmountBounds) : Bool :=
  decide (bounds.least ≤ bounds.transfer) && decide (bounds.transfer ≤ bounds.delegation)
    && decide (bounds.delegation ≤ bounds.representable)

def admitsTransfer (bounds : AmountBounds) (amount : UInt64) : Bool :=
  decide (bounds.least ≤ amount) && decide (amount ≤ bounds.transfer)

def admitsDelegation (bounds : AmountBounds) (amount : UInt64) : Bool :=
  decide (bounds.least ≤ amount) && decide (amount ≤ bounds.delegation)

def fields : List (Field AmountBounds) :=
  [.of "max_uint64" .amount (·.representable) fun r v => { r with representable := v },
    .of "min_amount" .amount (·.least) fun r v => { r with least := v },
    .of "max_transfer_amount" .amount (·.transfer) fun r v => { r with transfer := v },
    .of "max_delegation" .amount (·.delegation) fun r v => { r with delegation := v }]

def codec : Codec AmountBounds := .whole fields reference

end AmountBounds

end ChainRegistry
