import ServerManager.Orm

namespace ServerManager.Config

/-- The settings the modelled code reads; `get_settings` caches them for the
life of the process. -/
structure Settings where
  protectedVmids : List Int := [906]
  armSandboxDefaultTtlHours : Int := 8
  armSandboxMaxTtlHours : Int := 72
  sandboxOpnsenseUrl : String := "http://10.0.10.1"
  sandboxOpnsensePassword : String := ""
  sandboxDhcpRange : String := "10.0.20.222 - 10.0.20.249"
  sandboxKeaSubnetUuid : String := ""
  sandboxNetworkEnabled : Int := 0

/-- Tunables of the reconciler that its decisions depend on. -/
structure ReconcileSettings where
  maxRecoveryAttempts : Int := 5
  backoffBaseS : Nat := 10
  backoffCapS : Nat := 120
  shutdownWaitS : Nat := 30

end ServerManager.Config
