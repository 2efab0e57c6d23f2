import UnifiedPatch.Path

/-!
# Settings of a run

The settings are fixed before a run and only read by it.
-/

namespace UnifiedPatch

/-- What a run is asked to do.

* `stripLevel`: how many leading segments the names in the patch lose;
* `reverse`: the patch leads from the new files back to the old ones;
* `skipApplied`: a line that is not found counts as applied already;
* `dryRun`: report all results, change no file;
* `directory`: where the names in the patch are looked up. -/
structure Settings where
  stripLevel : Int := 1
  reverse : Bool := false
  skipApplied : Bool := false
  dryRun : Bool := false
  directory : Path
  deriving DecidableEq, Repr

end UnifiedPatch
