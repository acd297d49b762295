/-
  The settings of a sheet: its lines with an equals sign, cut into the segments of the key and
  the value, with no regard to what they are good for. Of a setting one may ask which name it
  gives a colour to (`Setting.swatchName?`), or which map it is about, and in which field
  (`Setting.topic?`); any other setting says nothing.

  A text that is read as a sheet is read setting by setting (`eq_foldl_apply_of_read`): blank
  lines set nothing, and of all other lines the faulty ones are those that refuse the text.
-/
import Mathlib
import Colourway.Sheet.Basic

namespace Colourway.Sheet

/-- The segments of a key, and the value it is set to. -/
structure Setting where
  path : List String
  value : String
  deriving DecidableEq

/-- The field of a map that a key leads to, in lower case, and the segments behind it. -/
structure Topic where
  map : String
  field : String
  path : List String
  deriving DecidableEq

/-- The name of the map that gets the recipe, if it is one: that of an alternate, or of the map
itself. -/
def Topic.target (t : Topic) : String := alternateName t.path t.map

namespace Setting

/-- The setting of a line. White space around the key and the value does not count. -/
def ofLine? (line : List Char) : Option Setting :=
  (Text.cutAt? '=' line).map fun sides =>
    ⟨(Text.segments '.' (Text.trim sides.1)).map String.ofList, String.ofList (Text.trim sides.2)⟩

/-- The name that is given a colour, by the key `colour.<name>` with or without more behind it. -/
def swatchName? (x : Setting) : Option String :=
  match x.path with
  | kind :: name :: _ => if kind = "colour" then some name else none
  | _ => none

/-- The topic of a key `map.<name>.<field>` with or without more behind it. -/
def topic? (x : Setting) : Option Topic :=
  match x.path with
  | kind :: map :: field :: path => if kind = "map" then some ⟨map, Text.fold field, path⟩ else none
  | _ => none

/-- What the setting says. -/
def entry (x : Setting) : Entry :=
  match x.swatchName?, x.topic? with
  | some name, _ =>
    match Colour.ofHexCode? x.value with
    | some c => .swatch name c
    | none => .badSwatch x.value
  | none, some t => .map t.map (.ofName t.field t.path x.value)
  | none, none => .blank

end Setting

/-- The sheet after one more setting. -/
def apply (s : Sheet) (x : Setting) : Sheet := s.add x.entry

/-- The settings of a text, from the first line to the last. -/
def settings (text : String) : List Setting :=
  (Text.lines text.toList).filterMap Setting.ofLine?

/-! ## Reading by settings -/

theorem cutAt?_eq_none_of_blank {line : List Char} (h : Text.trim line = []) :
    Text.cutAt? '=' line = none := by
  rw [Text.cutAt?_eq_none_iff]
  intro hmem
  have hblank := Text.trim_eq_nil_iff.1 h '=' hmem
  exact absurd hblank (by decide)

theorem add_ofColour? {path : List String} {value : String} {entry : Entry}
    (h : Entry.ofColour? value path = some entry) (s : Sheet) :
    s.add entry = s.apply ⟨"colour" :: path, value⟩ := by
  cases path with
  | nil => cases h
  | cons name path =>
    have hswatch : (Setting.mk ("colour" :: name :: path) value).swatchName? = some name := rfl
    unfold Entry.ofColour? at h
    unfold apply Setting.entry
    rw [hswatch]
    dsimp only at h ⊢
    split at h
    · cases h
    · cases hc : Colour.ofHexCode? value with
      | some c =>
        rw [hc] at h
        cases h
        rfl
      | none =>
        rw [hc] at h
        cases h
        rfl

theorem add_ofMap? {path : List String} {value : String} {entry : Entry}
    (h : Entry.ofMap? value path = some entry) (s : Sheet) :
    s.add entry = s.apply ⟨"map" :: path, value⟩ := by
  rcases path with - | ⟨name, - | ⟨field, path⟩⟩
  · cases h
  · cases h
  · unfold Entry.ofMap? at h
    dsimp only at h
    split at h
    · cases h
    · cases h
      rfl

theorem apply_of_unknown {kind : String} {path : List String} {value : String}
    (hcolour : kind ≠ "colour") (hmap : kind ≠ "map") (s : Sheet) :
    s.apply ⟨kind :: path, value⟩ = s := by
  have hswatch : (Setting.mk (kind :: path) value).swatchName? = none := by
    unfold Setting.swatchName?
    split
    case h_1 hpath => rw [← (List.cons.inj hpath).1, if_neg hcolour]
    case h_2 => rfl
  have htopic : (Setting.mk (kind :: path) value).topic? = none := by
    unfold Setting.topic?
    split
    case h_1 hpath => rw [← (List.cons.inj hpath).1, if_neg hmap]
    case h_2 => rfl
  unfold apply Setting.entry
  rw [hswatch, htopic]
  rfl

theorem add_ofKey? {key value : String} {entry : Entry} (h : Entry.ofKey? key value = some entry)
    (s : Sheet) :
    s.add entry = s.apply ⟨(Text.segments '.' key.toList).map String.ofList, value⟩ := by
  unfold Entry.ofKey? at h
  generalize (Text.segments '.' key.toList).map String.ofList = path at h ⊢
  cases path with
  | nil => cases h; rfl
  | cons kind path =>
    dsimp only at h
    split_ifs at h with hcolour hmap
    · rw [hcolour]
      exact add_ofColour? h s
    · rw [hmap]
      exact add_ofMap? h s
    · cases h
      exact (apply_of_unknown hcolour hmap s).symm

/-- A line that is not refused does what its setting does, and nothing if it has none. -/
theorem add_ofLine {number : Nat} {line : List Char} {entry : Entry}
    (h : Entry.ofLine number line = .ok entry) (s : Sheet) :
    s.add entry = (Setting.ofLine? line).elim s s.apply := by
  unfold Entry.ofLine at h
  unfold Setting.ofLine?
  split at h
  case isTrue hblank =>
    cases h
    rw [cutAt?_eq_none_of_blank (List.isEmpty_iff.1 hblank)]
    rfl
  case isFalse =>
    split at h
    · cases h
    case h_2 left right hcut =>
      dsimp only at h
      split at h
      case h_1 entry' hkey =>
        cases h
        have hadd := add_ofKey? hkey s
        rw [String.toList_ofList] at hadd
        rw [hcut]
        exact hadd
      case h_2 => cases h

theorem foldl_add_of_mapM {lines : List (List Char × Nat)} {entries : List Entry}
    (h : lines.mapM (fun line => Entry.ofLine line.2 line.1) = .ok entries) (s : Sheet) :
    entries.foldl add s = ((lines.map (·.1)).filterMap Setting.ofLine?).foldl apply s := by
  induction lines generalizing entries s with
  | nil => cases h; rfl
  | cons line lines ih =>
    rw [List.mapM_cons] at h
    cases hline : Entry.ofLine line.2 line.1 with
    | error fault => rw [hline] at h; cases h
    | ok entry =>
      cases hrest : lines.mapM (fun line => Entry.ofLine line.2 line.1) with
      | error fault => rw [hline, hrest] at h; cases h
      | ok rest =>
        rw [hline, hrest] at h
        cases h
        rw [List.foldl_cons, add_ofLine hline, ih hrest, List.map_cons, List.filterMap_cons]
        cases Setting.ofLine? line.1 <;> rfl

/-- A text that is read as a sheet is read setting by setting. -/
theorem eq_foldl_apply_of_read {text : String} {s : Sheet} (h : Sheet.read text = .ok s) :
    s = (settings text).foldl apply empty := by
  unfold Sheet.read at h
  cases hentries : readEntries text with
  | error fault => rw [hentries] at h; cases h
  | ok entries =>
    rw [hentries] at h
    cases h
    have hfold := foldl_add_of_mapM hentries empty
    unfold numberedLines at hfold
    rw [List.zipIdx_map_fst] at hfold
    exact hfold

end Colourway.Sheet
