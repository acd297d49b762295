/-
  The colour maps that everyone knows, by name.
-/
import Colourway.Text.LetterCase

namespace Colourway.Preset

/-- The names and recipes, in the order in which they are listed. -/
def all : List (String × String) := [
  -- heatmaps
  ("jet",
    "BlackToDarkBlueToBlueToCyanBlueBlueBlueToCyanBlueToCyanCyanCyanBlueToCyanCyanCyan" ++
    "YellowToCyanYellowToCyanYellowYellowYellowToYellowToOrangeToRedOrangeToRed"),
  ("transparentjet",
    "TransparentBlackToTranslucentTranslucentDarkBlueToTranslucentBlueToTranslucentCyan" ++
    "TranslucentBlueBlueBlueToCyanBlueToCyanCyanCyanBlueToCyanCyanCyanYellowToCyanYellow" ++
    "ToCyanYellowYellowYellowToYellowToOrangeToRedOrangeToRed"),
  ("radiation", "BlackToRedToYellowToWhiteToWhiteWhiteWhiteLightLightGrey"),
  ("transparentradiation",
    "TransparentBlackToTranslucentRedToYellowToWhiteToWhiteWhiteWhiteLightLightGrey"),
  -- tracks
  ("default", "WhiteToBlack"),
  ("citrus", "BlackToDarkDarkGreyToDarkGreenToYellow"),
  ("ice", "BlackToDarkBlueToDarkBlueLightDarkCyanToLightBlueDarkCyanToWhite"),
  ("neon", "BlackToPurpleToPinkToBlackToPink"),
  ("sunburst", "DarkDarkGrayToOrangeToBlackToOrangeToYellow"),
  ("demon", "WhiteToRedToBlackToWhite"),
  ("chalk", "BlackToWhite"),
  ("lightning", "DarkPurpleToLightMagentaToLightGrayToWhiteToWhite"),
  ("hazard", "WhiteToBlackToYellow"),
  ("razer", "BlackToDarkGreyToBlackToDarkGreenToGreenToBlack"),
  ("sketch", "LightGreyToBlackToDarkPurpleToWhiteToLightGreyToBlackToBlue"),
  ("grape", "WhiteToBlackToMagenta"),
  ("spiderman", "RedToBlackToWhite"),
  ("shroud", "GreyToBlackToLightPurple"),
  ("blackwidow", "PurpleToLightCyanWhiteToPurpleToBlack"),
  -- keyboard
  ("aqua", "WhiteToWhiteWhiteLightCyanSkyToSkyToSkyBlue"),
  ("fire",
    "WhiteToWhiteWhiteYellowLightOrangeToWhiteYellowLightOrangeToWhiteYellowOrangeToWhite" ++
    "LightYellowRedLightRedOrangeToYellowLightYellowRedDarkOrangeToRedDarkRedDarkRed"),
  ("fire2",
    "WhiteToWhiteWhiteYellowLightOrangeToWhiteYellowLightOrangeToWhiteYellowOrangeToLight" ++
    "RedOrangeOrangeToLightYellowRedRedDarkOrangeToDarkRed"),
  ("fire3",
    "WhiteToWhiteWhiteYellowLightOrangeToWhiteYellowLightOrangeToWhiteYellowOrangeToLight" ++
    "RedOrangeOrangeToLightYellowRedDarkOrangeToRedDarkRedDarkRed"),
  ("ivy", "WhiteToBlueGreenGreenToBlack"),
  ("matrix",
    "BlackBlackBlackBlackDarkGreenDarkDarkGreyToBlackBlackBlackBlackBlackGreyGreenToBlack" ++
    "BlackDarkGreyGreenToGreen"),
  ("nature",
    "WhiteToWhiteLightYellowLightGreenLightLightGreyToLightYellowGreenLightGreenToDark" ++
    "Green"),
  -- linear keyboard variants
  ("linearfire",
    "WhiteToYellowLightOrangeToLightYellowOrangeRedDarkRedToDarkOrangeOrangeRedToBlack" ++
    "BlackOrangeRedDarkRedToRedDarkRedDarkRed"),
  ("linearmatrix", "BlackBlackBlackBlackBlackDarkGreenDarkDarkGreyToGreen"),
  ("linearnature", "WhiteToDarkGreen")]

/-- The recipe of a name, whatever the case of its letters. -/
def find? (name : String) : Option String :=
  (all.find? fun entry => Text.sameIgnoringCase entry.1 name).map (·.2)

end Colourway.Preset
