import NginxInterface.Cycle.Live

/-! # Connections after an update

An accepted update of a stream application makes backup servers of its previous instances. nginx
then gives the connections to the new instances alone, and only goes back to the previous ones
for a connection that none of the new instances can take.
-/

namespace NginxInterface

open Js ConfFile Upstream NginxInterface.Cycle Foundation

variable {N : Type} [Number N]

/-! ## The peers after an update -/

end NginxInterface
