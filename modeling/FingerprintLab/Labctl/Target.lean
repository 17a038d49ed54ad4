import FingerprintLab.Base.Str

/-!
# Targets of the lab registry

The rows of `targets.yaml` and `targets.archive.yaml` as `labctl` decodes them, and the defaults
that `loadLab` fills in.
-/

set_option linter.unusedVariables false

namespace Labctl
open Go

def trackLatest : Bytes := str "latest"
def trackPinned : Bytes := str "pinned"
def imagePull : Bytes := str "pull"
def imageCache : Bytes := str "cache"

/-- the rank sentinel of `track: latest` -/
def versionLatest : Int := 9999

structure Target where
  id : Bytes
  group : Bytes := []
  kind : Bytes := []
  status : Bytes := []
  utlsReady : Bool := false
  family : Bytes := []
  version : Int := 0
  track : Bytes := []
  pin : Bytes := []
  imagePolicy : Bytes := []
  notes : Bytes := []
  deriving DecidableEq, Repr

def normalizeTarget (t : Target) : Target :=
  let t := if t.track = [] then { t with track := trackPinned } else t
  if t.track = trackLatest then
    let t := if t.version < versionLatest then { t with version := versionLatest } else t
    if t.imagePolicy = [] then { t with imagePolicy := imagePull } else t
  else if t.imagePolicy = [] then { t with imagePolicy := imageCache } else t

/-- the registry: the rows of `targets.yaml`, then those of `targets.archive.yaml` -/
def loadLab (targets archive : List Target) : List Target :=
  (targets ++ archive).map normalizeTarget

end Labctl
