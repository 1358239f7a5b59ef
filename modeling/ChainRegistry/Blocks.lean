import ChainRegistry.Document.Scalar

/-!
# Block production and gas

How often blocks are made and how many transactions one holds, how much gas a transfer needs and a
transaction or block may use, and between which prices gas is offered.
-/

namespace ChainRegistry

structure GasBounds where
  min : UInt64
  max : UInt64
  block : UInt64
  deriving DecidableEq, Repr

namespace GasBounds

def reference : GasBounds where
  min := 21000
  max := 10000000
  block := 30000000

def inOrder (limits : GasBounds) : Bool :=
  decide (limits.min ≤ limits.max) && decide (limits.max ≤ limits.block)

def fields : List (Field GasBounds) :=
  [.of "min" .word64 (·.min) fun r v => { r with min := v },
    .of "max" .word64 (·.max) fun r v => { r with max := v },
    .of "block_limit" .word64 (·.block) fun r v => { r with block := v }]

def codec : Codec GasBounds := .record fields reference

end GasBounds

/-- Prices in the smallest unit. -/
structure GasTariff where
  usual : UInt64
  lowest : UInt64
  highest : UInt64
  deriving DecidableEq, Repr

namespace GasTariff

def reference : GasTariff where
  usual := 100
  lowest := 1
  highest := 1000000

def admits (price : GasTariff) (offer : UInt64) : Bool :=
  decide (price.lowest ≤ offer) && decide (offer ≤ price.highest)

def fields : List (Field GasTariff) :=
  [.of "default" .word64 (·.usual) fun r v => { r with usual := v },
    .of "minimum" .word64 (·.lowest) fun r v => { r with lowest := v },
    .of "maximum" .word64 (·.highest) fun r v => { r with highest := v }]

def codec : Codec GasTariff := .record fields reference

end GasTariff

structure BlockRules where
  timeMs : UInt64
  maxTransactions : UInt32
  gasLimits : GasBounds
  gasPrice : GasTariff
  deriving DecidableEq, Repr

namespace BlockRules

def reference : BlockRules where
  timeMs := 5000
  maxTransactions := 1000
  gasLimits := .reference
  gasPrice := .reference

def fields : List (Field BlockRules) :=
  [.of "block_time_ms" .word64 (·.timeMs) fun r v => { r with timeMs := v },
    .of "max_transactions_per_block" .word32 (·.maxTransactions)
      fun r v => { r with maxTransactions := v },
    .of "gas_limits" GasBounds.codec (·.gasLimits) fun r v => { r with gasLimits := v },
    .of "gas_price" GasTariff.codec (·.gasPrice) fun r v => { r with gasPrice := v }]

def codec : Codec BlockRules := .record fields reference

end BlockRules

end ChainRegistry
