import ChainRegistry.Document.Scalar
import ChainRegistry.Category

/-!
# Service endpoints and access tiers

Every service listens at a number of its own, and every tier of access has a quota of requests per
minute.
-/

namespace ChainRegistry

inductive Service where
  | httpApi
  | webSocket
  | explorer
  | metrics
  deriving DecidableEq, Repr

instance : Category Service where
  noun := "service"
  all := [.httpApi, .webSocket, .explorer, .metrics]
  key
    | .httpApi => "HTTP_API"
    | .webSocket => "WEBSOCKET"
    | .explorer => "EXPLORER"
    | .metrics => "METRICS"
  mem_all a := by cases a <;> decide
  nodup_keys := by decide

structure Endpoints where
  httpApi : UInt16
  webSocket : UInt16
  explorer : UInt16
  metrics : UInt16
  deriving DecidableEq, Repr

namespace Endpoints

def reference : Endpoints where
  httpApi := 3000
  webSocket := 3001
  explorer := 8080
  metrics := 9090

def number (endpoints : Endpoints) : Service → UInt16
  | .httpApi => endpoints.httpApi
  | .webSocket => endpoints.webSocket
  | .explorer => endpoints.explorer
  | .metrics => endpoints.metrics

def fields : List (Field Endpoints) :=
  [.of "http_api" .word16 (·.httpApi) fun r v => { r with httpApi := v },
    .of "websocket" .word16 (·.webSocket) fun r v => { r with webSocket := v },
    .of "explorer" .word16 (·.explorer) fun r v => { r with explorer := v },
    .of "metrics" .word16 (·.metrics) fun r v => { r with metrics := v }]

def codec : Codec Endpoints := .record fields reference

end Endpoints

inductive AccessTier where
  | publicApi
  | authenticatedApi
  | agentApi
  | websocketSubscriptions
  deriving DecidableEq, Repr

instance : Category AccessTier where
  noun := "API tier"
  all := [.publicApi, .authenticatedApi, .agentApi, .websocketSubscriptions]
  key
    | .publicApi => "PUBLIC_API"
    | .authenticatedApi => "AUTHENTICATED_API"
    | .agentApi => "AGENT_API"
    | .websocketSubscriptions => "WEBSOCKET_SUBSCRIPTIONS"
  mem_all a := by cases a <;> decide
  nodup_keys := by decide

/-- Requests per minute. -/
structure Quotas where
  publicApi : UInt32
  authenticatedApi : UInt32
  agentApi : UInt32
  websocketSubscriptions : UInt32
  deriving DecidableEq, Repr

namespace Quotas

def reference : Quotas where
  publicApi := 1000
  authenticatedApi := 10000
  agentApi := 50000
  websocketSubscriptions := 100

def quota (quotas : Quotas) : AccessTier → UInt32
  | .publicApi => quotas.publicApi
  | .authenticatedApi => quotas.authenticatedApi
  | .agentApi => quotas.agentApi
  | .websocketSubscriptions => quotas.websocketSubscriptions

def fields : List (Field Quotas) :=
  [.of "public_api" .word32 (·.publicApi) fun r v => { r with publicApi := v },
    .of "authenticated_api" .word32 (·.authenticatedApi)
      fun r v => { r with authenticatedApi := v },
    .of "agent_api" .word32 (·.agentApi) fun r v => { r with agentApi := v },
    .of "websocket_subscriptions" .word32 (·.websocketSubscriptions)
      fun r v => { r with websocketSubscriptions := v }]

def codec : Codec Quotas := .record fields reference

end Quotas

end ChainRegistry
