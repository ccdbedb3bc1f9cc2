import Seeing.Decimal.Text
import Seeing.Error

/-!
# Reports of errors

A report tells what failed, then why, then why that, down to the words of the system.
-/

namespace Seeing

open FloatText (plain)

/-- The words for what is wrong with a reference profile. -/
def ReferenceFault.message : ReferenceFault → String
  | .altitudes => "reference profile altitudes must be sorted and as many as the weights"
  | .weights => "reference profile weights must be finite, non-negative and not all zero"

/-- The words for what is wrong with a turbulence profile. -/
def ProfileFault.message : ProfileFault → String
  | .reference fault => fault.message
  | .layerCount count =>
    "cannot space " ++ toString count ++
      " layer(s) uniformly in altitude: division by zero, at least 2 layers are required"
  | .length count found what =>
    "the turbulence profile has " ++ toString count ++ " layers but " ++ toString found ++ " " ++
      what.plural

/-- The report of an error with an atmosphere. -/
def AtmosphereError.report : AtmosphereError Float → List String
  | .profile fault => [fault.message]
  | .sampling size scale =>
    ["screen of " ++ plain size ++ "m cannot be sampled with " ++ plain scale ++ "m pixels"]
  | .unreadable cause path =>
    ["cannot open reference profile toml file: " ++ path, cause.message]
  | .malformed => ["cannot deserialize reference profile from toml", "invalid document"]

/-- The name of a setting of a pupil. -/
def PupilQuantity.name : PupilQuantity → String
  | .diameter => "diameter"
  | .wavelength => "wavelength"
  | .padding => "pad factor"
  | .oversampling => "oversampling"
  | .maxScale => "max. scale"
  | .field => "field"

/-- The words for an error with a pupil. -/
def PupilError.message : PupilError Float → String
  | .obscuration value => "obscuration must be in [0,1), found " ++ plain value
  | .notPositive what value =>
    "invalid aperture " ++ what.name ++ ": " ++ plain value ++
      ", expected a strictly positive value"
  | .empty => "no pupil sample falls inside the aperture"

/-- The words for an error with an image. -/
def ImageError.message : ImageError Float → String
  | .size width height =>
    "image size must be at least 1x1, found " ++ toString width ++ "x" ++ toString height
  | .scale value => "pixel scale must be strictly positive, found " ++ plain value
  | .length expected found =>
    "expected " ++ toString expected ++ " pixels, found " ++ toString found

/-- The words for an error with cutoffs. -/
def CutoffError.message : CutoffError Float → String
  | .range first last =>
    "cutoff range [" ++ plain first ++ "," ++ plain last ++ "] must be strictly positive"

/-- The report of an error with a figure. -/
def FigureError.report : FigureError → List String
  | .points found => ["expected 4 sweep points, found " ++ toString found]
  | .size width height =>
    ["a " ++ toString width ++ "x" ++ toString height ++
      " pixels figure is too small for 2x4 panels"]
  | .directory cause path => ["cannot create the figure directory " ++ path, cause.message]
  | .drawing => ["plotting failed"]

/-- The report of an error with the file of settings. -/
def SettingsFileError.report : SettingsFileError → List String
  | .opening cause path =>
    ["cannot open `::second_kick::AtmosphereBuilder` toml file: " ++ path, cause.message]
  | .creating cause path =>
    ["cannot create `::second_kick::AtmosphereBuilder` toml file: " ++ path, cause.message]
  | .reading cause path =>
    ["cannot read `::second_kick::AtmosphereBuilder` toml file: " ++ path, cause.message]
  | .malformed =>
    ["cannot deserialize `::second_kick::AtmosphereBuilder` from toml", "invalid document"]
  | .tooLarge =>
    ["cannot serialize `::second_kick::AtmosphereBuilder` into toml",
      "out-of-range value for u64 type"]

/-- The name of a setting of a simulation. -/
def Quantity.name : Quantity → String
  | .r0 => "r0_500"
  | .strength => "turb_factor"
  | .outerScale => "L0"
  | .photonCount => "photon number"
  | .exposureTime => "exposure time"
  | .timeStep => "time step"

/-- The report of an error. -/
def Error.report : Error Float → List String
  | .atmosphere cause => "cannot build `::second_kick::Atmosphere`" :: cause.report
  | .pupil cause => ["cannot build `::second_kick::Aperture`", cause.message]
  | .image cause => ["invalid `::second_kick::Image`", cause.message]
  | .cutoffs cause => ["cannot run the cutoff sweep", cause.message]
  | .figure cause => "cannot draw the comparison figure" :: cause.report
  | .notPositive what value =>
    ["invalid " ++ what.name ++ ": " ++ plain value ++ ", expected a strictly positive value"]
  | .results cause path => ["cannot create pickle file: " ++ path, cause.message]

/-- The lines of a report: the failure, and then its causes, numbered if there are several. -/
def reportLines : List String → List String
  | [] => []
  | [failure] => ["Error: " ++ failure]
  | [failure, cause] => ["Error: " ++ failure, "", "Caused by:", "    " ++ cause]
  | failure :: causes =>
    ["Error: " ++ failure, "", "Caused by:"] ++
      causes.zipIdx.map fun (cause, k) => "    " ++ toString k ++ ": " ++ cause

end Seeing
