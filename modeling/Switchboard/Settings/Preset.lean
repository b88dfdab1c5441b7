import Switchboard.Settings.Basic
/-!
Recommended settings, and the endpoints of the public networks and of a local node.
-/
namespace Switchboard.Settings

/-- The endpoints of the production network. -/
def mainnetEndpoints : List String := ["https://mainnet.evercloud.dev/graphql/"]

/-- The endpoints of the developer network. -/
def devnetEndpoints : List String := ["https://devnet.evercloud.dev/graphql/"]

/-- The endpoints of a local node. -/
def localnetEndpoints : List String :=
  ["http://0.0.0.0/", "http://127.0.0.1/", "http://localhost/"]

/-- The recommended factor by which the time that a message lives grows, one and a half. -/
def recommendedGrowFactor : Single := ⟨0x3FC00000⟩

/-- The recommended settings for given endpoints. -/
def withEndpoints (endpoints : List String) : Settings where
  network := some {
    endpoints
    messageRetriesCount := some 5
    messageProcessingTimeout := some 40000
    waitForTimeout := some 40000
    outOfSyncThreshold := some 15000
    sendingEndpointCount := some 1
    latencyDetectionInterval := some 60000
    maxLatency := some 60000
    queryTimeout := some 60000
    firstRempStatusTimeout := some 1000
    nextRempStatusTimeout := some 5000 }
  crypto := some ⟨some .english, some 12, none⟩
  abi := some ⟨some 0, some 40000, some recommendedGrowFactor⟩

end Switchboard.Settings
