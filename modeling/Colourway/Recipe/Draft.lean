/-
  A recipe as far as it has been read. The words fill layers: a layer collects the colours
  that are mixed into one stop, and says how many times that stop is repeated. A transition
  closes the layer, once it has a colour.

  Multipliers compound until another word takes them: a colour takes them for its weight, an
  adjustment for the number of times it is made, a transition for the repeats of the layer
  it opens. Adjustments wait for the next colour, and the one written last is made first.
-/
import Colourway.Recipe.Fault
import Colourway.Recipe.Word

namespace Colourway.Recipe

/-- Colours to be mixed into one stop, the one written last first, each with its weight; and
the number of times the stop is repeated. -/
structure Layer where
  members : List (Colour × Count)
  repeats : Count
  deriving DecidableEq

/-- What has been read of a recipe. Layers and adjustments are listed latest first. -/
structure Draft where
  /-- The layers before the current one. -/
  closed : List Layer
  current : Layer
  /-- Adjustments that wait for a colour, and how many times each is to be made. -/
  pending : List (Adjustment × Count)
  /-- The product of the multipliers that wait for a word. -/
  multiplier : Count
  deriving DecidableEq

namespace Draft

/-- Nothing read yet. -/
def start : Draft := ⟨[], ⟨[], 1⟩, [], 1⟩

/-- No channel changes any more after an adjustment was made this many times. -/
def adjustmentLimit : Nat := 8

/-- The colour after the waiting adjustments, the first of the list made first. -/
def adjust (pending : List (Adjustment × Count)) (c : Colour) : Colour :=
  pending.foldl (fun c m => m.1.applyTimes (min m.2.val adjustmentLimit) c) c

/-- The draft after one more word. -/
def step (d : Draft) : Word → Draft
  | .colour c =>
    { d with
      current := ⟨(adjust d.pending c, d.multiplier) :: d.current.members, d.current.repeats⟩
      pending := []
      multiplier := 1 }
  | .adjustment m => { d with pending := (m, d.multiplier) :: d.pending, multiplier := 1 }
  | .multiplier n => { d with multiplier := d.multiplier.mul n }
  | .transition =>
    if d.current.members.isEmpty then
      { d with
        current := ⟨[], d.current.repeats.add d.multiplier.pred⟩
        multiplier := 1 }
    else
      { d with
        closed := d.current :: d.closed
        current := ⟨[], d.multiplier⟩
        multiplier := 1 }
  | .stray _ => d

/-- The draft of a list of words. -/
def ofWords (words : List Word) : Draft := words.foldl step start

/-- The layers from the first to the current one. -/
def layers (d : Draft) : List Layer := (d.current :: d.closed).reverse

/-- The waiting adjustments from the first to the last, each as often as it will be made. -/
def pendingAdjustments (d : Draft) : List Adjustment :=
  d.pending.reverse.flatMap fun m => List.replicate (min m.2.val adjustmentLimit) m.1

/-- How many stops the layers with a colour come to. -/
def stopCount (d : Draft) : Count :=
  Count.sum ((d.layers.filter fun layer => !layer.members.isEmpty).map (·.repeats))

/-- The stops of one layer. -/
def stopsOf (layer : Layer) : List Stop :=
  match Stop.mix layer.members.reverse with
  | some stop => List.replicate layer.repeats.val stop
  | none => []

/-- The gradient, if the recipe ends here. -/
def finish (d : Draft) : Except Fault Gradient :=
  if d.current.members.isEmpty then
    .error (if d.closed.isEmpty then .noColours else .trailingTransition)
  else if Gradient.maxStops < d.stopCount.val then
    .error (.tooManyStops d.stopCount)
  else
    match Gradient.ofStops? (d.layers.flatMap stopsOf) with
    | some g => .ok g
    | none => .error .noColours

end Draft

end Colourway.Recipe
