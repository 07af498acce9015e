import Impersonation.Proofs.OneTurn

namespace Impersonation

end Impersonation
