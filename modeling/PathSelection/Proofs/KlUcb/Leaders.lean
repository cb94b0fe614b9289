import PathSelection.Proofs.KlUcb.Bounds
import PathSelection.Proofs.KlUcb.Visits

namespace PathSelection.KlUcb

end PathSelection.KlUcb
