import Schematron.Cache.Store
import Schematron.Configuration.Basic
import Schematron.Network.Download

/-!
# What the configuration means

The settings of the parts that load schemas, as the configuration has them.
-/
namespace Schematron.Configuration

def downloads (c : Configuration) : Network.Settings where
  timeout := c.downloading.timeout
  retries := c.downloading.retries
  backoff := { first := UInt64.ofNat c.downloading.retryDelay }

def cachePolicy (c : Configuration) : Cache.Policy :=
  .ofSettings c.caching.hours c.caching.memoryEntries c.caching.memorySeconds

/-- A cache, if downloads are kept. -/
def cache (c : Configuration) (store : Cache.Store) : Option Cache.Store :=
  if c.caching.enabled then some store else none

end Schematron.Configuration
