/-
  Which texts are refused, told by their lines. A line is bad if it has no equals sign, though
  it is not blank, or if its key names a kind of thing that is known and leaves out what is to be
  set (`Bad`). Nothing else is looked at: a key of another kind is as good as any, and so is every
  value.

  The reader fails on bad lines only (`ofLine_eq_error_iff`), and so a text is refused for the
  first of them (`read_eq_error_iff`), or else read (`read_eq_ok_iff`). `read_refuses_first_bad`
  puts these together.
-/
import Colourway.Proofs.Sheet.Setting

namespace Colourway.Sheet

/-! ## Bad lines -/

/-- The segments of a key. -/
def keyPath (key : List Char) : List String := (Text.segments '.' key).map String.ofList

/-- The key does not say which colour is meant, or which map, or which field of the map. -/
def Incomplete (path : List String) : Prop :=
  (path[0]? = some "colour" ∧ (path[1]? = none ∨ path[1]? = some "")) ∨
    (path[0]? = some "map" ∧ (path.length < 3 ∨ path[1]? = some ""))

instance (path : List String) : Decidable (Incomplete path) :=
  inferInstanceAs (Decidable (_ ∨ _))

/-- The line is not blank, and has no equals sign or an incomplete key before the first one. -/
def Bad (line : List Char) : Prop :=
  Text.trim line ≠ [] ∧
    ('=' ∉ line ∨ ∃ left right, line = left ++ '=' :: right ∧ '=' ∉ left ∧
      Incomplete (keyPath (Text.trim left)))

/-- What is wrong with a bad line. -/
inductive FaultOf (number : ℕ) (line : List Char) : Fault → Prop where
  | missingSeparator (h : '=' ∉ line) : FaultOf number line (.missingSeparator number)
  | incompleteKey {left right : List Char} (hline : line = left ++ '=' :: right)
    (hleft : '=' ∉ left) :
    FaultOf number line (.incompleteKey number (String.ofList (Text.trim left)))

variable {number : ℕ} {line left right : List Char} {fault : Fault}

theorem trim_ne_nil (left right : List Char) : Text.trim (left ++ '=' :: right) ≠ [] := by
  intro hnil
  have hblank := Text.trim_eq_nil_iff.1 hnil '=' (by simp)
  exact absurd hblank (by decide)

theorem cut_unique {left' right' : List Char} (h : left ++ '=' :: right = left' ++ '=' :: right')
    (hleft : '=' ∉ left) (hleft' : '=' ∉ left') : left = left' ∧ right = right' := by
  have hcut := Text.cutAt?_append (b := right) hleft
  rw [h, Text.cutAt?_append hleft'] at hcut
  cases hcut
  exact ⟨rfl, rfl⟩

/-- Of a line with an equals sign only the key matters. -/
theorem bad_iff_incomplete (hleft : '=' ∉ left) (right : List Char) :
    Bad (left ++ '=' :: right) ↔ Incomplete (keyPath (Text.trim left)) := by
  constructor
  · rintro ⟨-, hnone | ⟨left', right', hline, hleft', h⟩⟩
    · exact absurd (by simp) hnone
    · obtain ⟨rfl, rfl⟩ := cut_unique hline hleft hleft'
      exact h
  · exact fun h => ⟨trim_ne_nil left right, .inr ⟨left, right, rfl, hleft, h⟩⟩

/-! ## One line -/

theorem ofColour?_eq_none_iff {value : String} {path : List String} :
    Entry.ofColour? value path = none ↔ path[0]? = none ∨ path[0]? = some "" := by
  cases path with
  | nil => exact iff_of_true rfl (.inl rfl)
  | cons name path =>
    rw [Entry.ofColour?]
    by_cases hname : name = ""
    · simp [hname]
    · cases Colour.ofHexCode? value <;> simp [hname]

theorem ofMap?_eq_none_iff {value : String} {path : List String} :
    Entry.ofMap? value path = none ↔ path.length < 2 ∨ path[0]? = some "" := by
  rcases path with - | ⟨name, - | ⟨field, path⟩⟩
  · exact iff_of_true rfl (.inl (by decide))
  · exact iff_of_true rfl (.inl (by simp))
  · rw [Entry.ofMap?]
    by_cases hname : name = "" <;> simp [hname]

/-- A key is refused if it is incomplete, whatever the value. -/
theorem ofKey?_eq_none_iff (key : List Char) (value : String) :
    Entry.ofKey? (String.ofList key) value = none ↔ Incomplete (keyPath key) := by
  unfold Entry.ofKey? Incomplete keyPath
  rw [String.toList_ofList]
  cases (Text.segments '.' key).map String.ofList with
  | nil => simp
  | cons kind path =>
    dsimp only
    split_ifs with hcolour hmap
    · simp [hcolour, ofColour?_eq_none_iff]
    · simp [hmap, ofMap?_eq_none_iff, Nat.lt_succ_iff]
    · simp [hcolour, hmap]

theorem ofLine_of_cut (hleft : '=' ∉ left) (number : ℕ) (right : List Char) :
    Entry.ofLine number (left ++ '=' :: right) =
      (Entry.ofKey? (String.ofList (Text.trim left)) (String.ofList (Text.trim right))).elim
        (.error (.incompleteKey number (String.ofList (Text.trim left)))) .ok := by
  unfold Entry.ofLine
  rw [if_neg (mt List.isEmpty_iff.1 (trim_ne_nil left right)), Text.cutAt?_append hleft]
  dsimp only
  cases Entry.ofKey? (String.ofList (Text.trim left)) (String.ofList (Text.trim right)) <;> rfl

theorem ofLine_of_not_mem (h : '=' ∉ line) (number : ℕ) :
    Entry.ofLine number line =
      if Text.trim line = [] then .ok .blank else .error (.missingSeparator number) := by
  unfold Entry.ofLine
  rw [Text.cutAt?_eq_none_iff.2 h]
  simp only [List.isEmpty_iff]

/-- The reader fails on bad lines, and says what is wrong with them. -/
theorem ofLine_eq_error_iff :
    Entry.ofLine number line = .error fault ↔ Bad line ∧ FaultOf number line fault := by
  cases hcut : Text.cutAt? '=' line with
  | none =>
    have hequals := Text.cutAt?_eq_none_iff.1 hcut
    rw [ofLine_of_not_mem hequals]
    constructor
    · intro h
      split at h
      case isTrue => cases h
      case isFalse hblank =>
        cases h
        exact ⟨⟨hblank, .inl hequals⟩, .missingSeparator hequals⟩
    · rintro ⟨⟨hblank, -⟩, hfault⟩
      cases hfault with
      | missingSeparator => exact if_neg hblank
      | incompleteKey hline => exact absurd (by rw [hline]; simp) hequals
  | some sides =>
    obtain ⟨left, right⟩ := sides
    obtain ⟨rfl, hleft⟩ := Text.eq_of_cutAt? hcut
    rw [ofLine_of_cut hleft, bad_iff_incomplete hleft,
      ← ofKey?_eq_none_iff _ (String.ofList (Text.trim right))]
    cases Entry.ofKey? (String.ofList (Text.trim left)) (String.ofList (Text.trim right)) with
    | some entry => simp
    | none =>
      rw [Option.elim_none]
      constructor
      · intro h
        cases h
        exact ⟨rfl, .incompleteKey rfl hleft⟩
      · rintro ⟨-, hfault⟩
        cases hfault with
        | missingSeparator h => exact absurd (by simp) h
        | incompleteKey hline hleft' =>
          obtain ⟨rfl, -⟩ := cut_unique hline hleft hleft'
          rfl

theorem Bad.exists_faultOf (h : Bad line) (number : ℕ) : ∃ fault, FaultOf number line fault := by
  obtain ⟨-, hnone | ⟨left, right, hline, hleft, -⟩⟩ := h
  · exact ⟨_, .missingSeparator hnone⟩
  · exact ⟨_, .incompleteKey hline hleft⟩

/-! ## All lines of a text -/

/-- The first bad line of a list is its first one, or the first bad one of the others. -/
theorem first_bad_cons_iff {p : List (List Char) → List Char → Prop} {first : List Char}
    {lines : List (List Char)} (hgood : ¬Bad first) :
    (∃ before line after, first :: lines = before ++ line :: after ∧ (∀ l ∈ before, ¬Bad l) ∧
        Bad line ∧ p before line) ↔
      ∃ before line after, lines = before ++ line :: after ∧ (∀ l ∈ before, ¬Bad l) ∧
        Bad line ∧ p (first :: before) line := by
  constructor
  · rintro ⟨before, line, after, hlines, hbefore, hbad, hp⟩
    cases before with
    | nil =>
      obtain ⟨rfl, -⟩ := List.cons.inj hlines
      exact absurd hbad hgood
    | cons l before =>
      obtain ⟨rfl, rfl⟩ := List.cons.inj hlines
      exact ⟨before, line, after, rfl, fun l hl => hbefore l (List.mem_cons_of_mem _ hl), hbad, hp⟩
  · rintro ⟨before, line, after, rfl, hbefore, hbad, hp⟩
    exact ⟨first :: before, line, after, rfl, List.forall_mem_cons.2 ⟨hgood, hbefore⟩, hbad, hp⟩

/-- Lines are read up to the first bad one. -/
theorem mapM_ofLine_eq_error_iff {lines : List (List Char)} {n : ℕ} :
    ((lines.zipIdx n).mapM fun line => Entry.ofLine line.2 line.1) = .error fault ↔
      ∃ before line after, lines = before ++ line :: after ∧ (∀ l ∈ before, ¬Bad l) ∧
        Bad line ∧ FaultOf (n + before.length) line fault := by
  induction lines generalizing n with
  | nil =>
    refine iff_of_false (fun h => nomatch h) ?_
    rintro ⟨before, line, after, hlines, -⟩
    exact List.append_ne_nil_of_right_ne_nil _ (List.cons_ne_nil _ _) hlines.symm
  | cons first lines ih =>
    rw [List.zipIdx_cons, List.mapM_cons]
    cases hfirst : Entry.ofLine n first with
    | error fault' =>
      obtain ⟨hbad, hfault'⟩ := ofLine_eq_error_iff.1 hfirst
      constructor
      · intro h
        cases h
        exact ⟨[], first, lines, rfl, nofun, hbad, hfault'⟩
      · rintro ⟨before, line, after, hlines, hbefore, -, hfault⟩
        cases before with
        | nil =>
          obtain ⟨rfl, -⟩ := List.cons.inj hlines
          change FaultOf n first fault at hfault
          rw [ofLine_eq_error_iff.2 ⟨hbad, hfault⟩] at hfirst
          cases hfirst
          rfl
        | cons l before =>
          obtain ⟨rfl, -⟩ := List.cons.inj hlines
          exact absurd hbad (hbefore first List.mem_cons_self)
    | ok entry =>
      have hgood : ¬Bad first := by
        intro hbad
        obtain ⟨fault', hfault'⟩ := hbad.exists_faultOf n
        rw [ofLine_eq_error_iff.2 ⟨hbad, hfault'⟩] at hfirst
        cases hfirst
      have hlength : ∀ before : List (List Char),
          n + (first :: before).length = n + 1 + before.length := by
        intro before
        rw [List.length_cons]
        omega
      simp only [first_bad_cons_iff hgood (p := fun before line =>
        FaultOf (n + before.length) line fault), hlength]
      rw [← ih]
      cases (lines.zipIdx (n + 1)).mapM fun line => Entry.ofLine line.2 line.1 with
      | error fault' => exact Iff.rfl
      | ok entries => exact iff_of_false (fun h => nomatch h) (fun h => nomatch h)

variable {text : String} {s : Sheet}

/-- A text is refused for its first bad line. -/
theorem read_eq_error_iff :
    Sheet.read text = .error fault ↔
      ∃ before line after, Text.lines text.toList = before ++ line :: after ∧
        (∀ l ∈ before, ¬Bad l) ∧ Bad line ∧ FaultOf (before.length + 1) line fault := by
  have hentries : Sheet.read text = .error fault ↔ readEntries text = .error fault := by
    unfold Sheet.read
    cases readEntries text with
    | error fault' => rw [Except.map, Except.error.injEq, Except.error.injEq]
    | ok entries => exact iff_of_false (fun h => nomatch h) (fun h => nomatch h)
  rw [hentries, readEntries, numberedLines, mapM_ofLine_eq_error_iff]
  simp only [Nat.add_comm 1]

/-- A list with a bad line has a first one. -/
theorem exists_first_bad {lines : List (List Char)} (hline : line ∈ lines) (hbad : Bad line) :
    ∃ before first after, lines = before ++ first :: after ∧ (∀ l ∈ before, ¬Bad l) ∧
      Bad first := by
  classical
  have hfind : (lines.find? fun l => Bad l).isSome :=
    List.find?_isSome.2 ⟨line, hline, decide_eq_true hbad⟩
  obtain ⟨first, hfirst⟩ := Option.isSome_iff_exists.1 hfind
  obtain ⟨hbad', before, after, hlines, hbefore⟩ := List.find?_eq_some_iff_append.1 hfirst
  refine ⟨before, first, after, hlines, fun l hl => ?_, of_decide_eq_true hbad'⟩
  have hgood := hbefore l hl
  rwa [Bool.not_eq_true', decide_eq_false_iff_not] at hgood

/-- A text without bad lines is read as the sheet of its settings. -/
theorem read_eq_ok_iff :
    Sheet.read text = .ok s ↔
      (∀ line ∈ Text.lines text.toList, ¬Bad line) ∧ s = (settings text).foldl apply empty := by
  constructor
  · intro h
    refine ⟨fun line hline hbad => ?_, eq_foldl_apply_of_read h⟩
    obtain ⟨before, first, after, hlines, hbefore, hbad'⟩ := exists_first_bad hline hbad
    obtain ⟨fault, hfault⟩ := hbad'.exists_faultOf (before.length + 1)
    have herror := read_eq_error_iff.2 ⟨before, first, after, hlines, hbefore, hbad', hfault⟩
    rw [h] at herror
    cases herror
  · rintro ⟨hgood, rfl⟩
    cases hread : Sheet.read text with
    | ok s => rw [eq_foldl_apply_of_read hread]
    | error fault =>
      obtain ⟨before, line, after, hlines, -, hbad, -⟩ := read_eq_error_iff.1 hread
      have hmem : line ∈ Text.lines text.toList := by
        rw [hlines]
        simp
      exact absurd hbad (hgood line hmem)

/-- A text is refused if and only if it has a bad line, and then for the first of them: by its
number, and by its key if it has one. -/
theorem read_refuses_first_bad (text : String) :
    ((∃ fault, Sheet.read text = .error fault) ↔ ∃ line ∈ Text.lines text.toList, Bad line) ∧
    (∀ before line after, Text.lines text.toList = before ++ line :: after →
      (∀ l ∈ before, ¬Bad l) → Bad line →
      ('=' ∉ line → Sheet.read text = .error (.missingSeparator (before.length + 1))) ∧
      ∀ left right, line = left ++ '=' :: right → '=' ∉ left →
        Sheet.read text =
          .error (.incompleteKey (before.length + 1) (String.ofList (Text.trim left)))) ∧
    ∀ left right, '=' ∉ left →
      (Bad (left ++ '=' :: right) ↔ Incomplete (keyPath (Text.trim left))) := by
  refine ⟨⟨?_, ?_⟩, ?_, fun left right hleft => bad_iff_incomplete hleft right⟩
  · rintro ⟨fault, hread⟩
    obtain ⟨before, line, after, hlines, -, hbad, -⟩ := read_eq_error_iff.1 hread
    refine ⟨line, ?_, hbad⟩
    rw [hlines]
    simp
  · rintro ⟨line, hline, hbad⟩
    obtain ⟨before, first, after, hlines, hbefore, hbad'⟩ := exists_first_bad hline hbad
    obtain ⟨fault, hfault⟩ := hbad'.exists_faultOf (before.length + 1)
    exact ⟨fault, read_eq_error_iff.2 ⟨before, first, after, hlines, hbefore, hbad', hfault⟩⟩
  · intro before line after hlines hbefore hbad
    refine ⟨fun hequals => ?_, fun left right hline hleft => ?_⟩
    · have hfault : FaultOf (before.length + 1) line (.missingSeparator (before.length + 1)) :=
        .missingSeparator hequals
      exact read_eq_error_iff.2 ⟨before, line, after, hlines, hbefore, hbad, hfault⟩
    · have hfault : FaultOf (before.length + 1) line
          (.incompleteKey (before.length + 1) (String.ofList (Text.trim left))) :=
        .incompleteKey hline hleft
      exact read_eq_error_iff.2 ⟨before, line, after, hlines, hbefore, hbad, hfault⟩

/-- A sheet with a line that sets nothing, and with a key behind it that names no map. -/
def brokenSea : String := "colour.Sea=#zz=\r\n \t\nmap.Sea.tracks\nmap..tracks=yes"

/-- A sheet with the key alone, behind one that is not known. -/
def namelessSea : String := "sea==\nmap..tracks=yes"

theorem lines_brokenSea : Text.lines brokenSea.toList =
    ["colour.Sea=#zz=".toList, " \t".toList] ++ "map.Sea.tracks".toList ::
      ["map..tracks=yes".toList] := by
  decide +kernel

theorem lines_namelessSea : Text.lines namelessSea.toList =
    ["sea==".toList] ++ "map..tracks=yes".toList :: [] := by
  decide +kernel

theorem read_refuses_first_bad_of_two :
    Sheet.read brokenSea = .error (.missingSeparator 3) ∧
      Sheet.read namelessSea = .error (.incompleteKey 2 "map..tracks") := by
  obtain ⟨-, hbroken, hkey⟩ := read_refuses_first_bad brokenSea
  obtain ⟨-, hnameless, -⟩ := read_refuses_first_bad namelessSea
  have hcolour : ¬Bad "colour.Sea=#zz=".toList :=
    mt (hkey "colour.Sea".toList "#zz=".toList (by decide)).1 (by decide +kernel)
  have hblank : ¬Bad " \t".toList := fun h => h.1 (by decide)
  have htracks : Bad "map.Sea.tracks".toList := ⟨by decide, .inl (by decide)⟩
  have hother : ¬Bad "sea==".toList :=
    mt (hkey "sea".toList "=".toList (by decide)).1 (by decide +kernel)
  have hmap : Bad "map..tracks=yes".toList :=
    (hkey "map..tracks".toList "yes".toList (by decide)).2 (by decide +kernel)
  constructor
  · have hgood : ∀ l ∈ ["colour.Sea=#zz=".toList, " \t".toList], ¬Bad l :=
      List.forall_mem_cons.2 ⟨hcolour, List.forall_mem_singleton.2 hblank⟩
    exact (hbroken _ _ _ lines_brokenSea hgood htracks).1 (by decide)
  · have hgood : ∀ l ∈ ["sea==".toList], ¬Bad l := List.forall_mem_singleton.2 hother
    have hread := (hnameless _ _ _ lines_namelessSea hgood hmap).2 "map..tracks".toList
      "yes".toList rfl (by decide)
    exact hread

end Colourway.Sheet
