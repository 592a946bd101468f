import Sshelter.Sync.Library

/-! # Saving the library

`persist_candidate` of `record_runtime.rs`, which every change of the records goes through
before it is on disk.  The core is one whose workspace is active; writing the validated
state to its file is left out.
-/

namespace Sshelter.Sync

section
variable (P : Primitives)

end

end Sshelter.Sync
