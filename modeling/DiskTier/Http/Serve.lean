import DiskTier.Http.Service
import DiskTier.Session

/-!
# Serving requests

A session serves one request at a time: it makes the plan and carries out the call that the plan
asks for. Whether the region is alive is looked up when the request arrives, without the lock.
-/

namespace DiskTier.Session

/-- What the service knows of a session at a moment. -/
def httpContext (s : Session) (now : Int64) (timestamp : String) : Http.Context :=
  { cacheName := s.region.config.cacheName, alive := s.region.alive, now, timestamp }

/-- Serves a request at the time `now`, which is `timestamp` in words. -/
def serve (now : Int64) (timestamp : String) (r : Http.Request) : Change Http.Response := do
  let s ← FileAction.value
  match Http.plan (s.httpContext now timestamp) r with
  | .answer response => pure response
  | .ask c answer => answer <$> (call c).attempt

end DiskTier.Session
