import ChainRegistry.Document.Scalar
import ChainRegistry.Category

/-!
# Throughput targets

Each subsystem has a rate it sustains and a rate it reaches for a short time, both in transactions
per second.  The targets are read field by field over the reference targets of the same subsystem.
-/

namespace ChainRegistry

structure Throughput where
  baseline : UInt64
  burst : UInt64
  deriving DecidableEq, Repr

namespace Throughput

/-- How many times the baseline a burst reaches; zero where there is no baseline. -/
def headroom (target : Throughput) : Binary64 :=
  if target.baseline = 0 then .zero
  else Binary64.ofNat target.burst.toNat / Binary64.ofNat target.baseline.toNat

def fields : List (Field Throughput) :=
  [.of "baseline" .word64 (·.baseline) fun r v => { r with baseline := v },
    .of "burst" .word64 (·.burst) fun r v => { r with burst := v }]

/-- A target that stands alone is given in full. -/
def codec : Codec Throughput := .whole fields ⟨0, 0⟩

/-- A target given as changes to another one: a rate that is missing or null keeps its value. -/
def changes (base : Throughput) : Codec Throughput :=
  .record (fields.map Field.nullable) base

end Throughput

inductive Subsystem where
  | chatRouter
  | wallet
  | governance
  | agent
  | migration
  | totalNetwork
  deriving DecidableEq, Repr

instance : Category Subsystem where
  noun := "subsystem"
  all := [.chatRouter, .wallet, .governance, .agent, .migration, .totalNetwork]
  key
    | .chatRouter => "CHAT_ROUTER"
    | .wallet => "WALLET"
    | .governance => "GOVERNANCE"
    | .agent => "AGENT"
    | .migration => "MIGRATION"
    | .totalNetwork => "TOTAL_NETWORK"
  mem_all a := by cases a <;> decide
  nodup_keys := by decide

structure ThroughputTargets where
  chatRouter : Throughput
  wallet : Throughput
  governance : Throughput
  agent : Throughput
  migration : Throughput
  totalNetwork : Throughput
  deriving DecidableEq, Repr

namespace ThroughputTargets

def reference : ThroughputTargets where
  chatRouter := ⟨10000, 100000⟩
  wallet := ⟨15000, 150000⟩
  governance := ⟨5000, 50000⟩
  agent := ⟨8000, 80000⟩
  migration := ⟨2000, 10000⟩
  totalNetwork := ⟨200000, 500000⟩

def target (targets : ThroughputTargets) : Subsystem → Throughput
  | .chatRouter => targets.chatRouter
  | .wallet => targets.wallet
  | .governance => targets.governance
  | .agent => targets.agent
  | .migration => targets.migration
  | .totalNetwork => targets.totalNetwork

def toList (targets : ThroughputTargets) : List (Subsystem × Throughput) :=
  (Category.all : List Subsystem).map fun subsystem => (subsystem, targets.target subsystem)

def fields : List (Field ThroughputTargets) :=
  [.of "chat_router" reference.chatRouter.changes (·.chatRouter)
      fun r v => { r with chatRouter := v },
    .of "wallet" reference.wallet.changes (·.wallet) fun r v => { r with wallet := v },
    .of "governance" reference.governance.changes (·.governance)
      fun r v => { r with governance := v },
    .of "agent" reference.agent.changes (·.agent) fun r v => { r with agent := v },
    .of "migration" reference.migration.changes (·.migration)
      fun r v => { r with migration := v },
    .of "total_network" reference.totalNetwork.changes (·.totalNetwork)
      fun r v => { r with totalNetwork := v }]

def codec : Codec ThroughputTargets := .record fields reference

end ThroughputTargets

end ChainRegistry
