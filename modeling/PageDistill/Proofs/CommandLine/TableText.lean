import PageDistill.CommandLine.Run
import PageDistill.Proofs.Json.StringsRead
import PageDistill.Proofs.Url.References

/-!
# The Table of References Is Read Back

The text of a table of references is JSON that says exactly what the table says.

Each reference has a line of its own, with its key and its token as strings. A reader of such text
keeps the order of the members, and of two members with one key it keeps one. A table that came from
interning has no key twice, so reading gives all of its references in their order.

## Main definitions

* `tableValue`: A table as a JSON value.
* `referenceText`, `linesAfter`: The parts of its text.

## Theorems

* `readMembers_lines`: The lines are read as members, one after another.
* `read_urlMapText`: The text of a table is read as the table.
-/

namespace PageDistill

namespace CommandLine

open Json (quoteString)

/-- A table of references as a JSON value: an object with the tokens under their keys. -/
def tableValue (refs : ReferenceMap) : Json.Value :=
  .object (refs.map fun (key, token) => (key, .string token))

/-- The line of a reference, after its indentation. -/
def referenceText (entry : String × String) : List Char :=
  quoteString entry.1 ++ ':' :: ' ' :: quoteString entry.2

/-- What stands behind the first reference of a table: a line for each of the others, and the
    closing brace. -/
def linesAfter (others : ReferenceMap) : List Char :=
  others.flatMap (fun entry => ',' :: '\n' :: ' ' :: ' ' :: referenceText entry) ++ ['\n', '\x7d']

theorem urlMapText_cons (entry : String × String) (others : ReferenceMap) :
    urlMapText (entry :: others) =
      '\x7b' :: '\n' :: ' ' :: ' ' :: (referenceText entry ++ linesAfter others) := by
  have hjoin := Text.joinWith_around [',', '\n'] (List.cons_ne_nil (' ' :: ' ' ::
    referenceText entry) []) [] (others.map fun entry => ' ' :: ' ' :: referenceText entry)
  change '\x7b' :: '\n' :: (Text.joinWith [',', '\n'] _ ++ ['\n', '\x7d']) = _
  refine congrArg (fun lines => '\x7b' :: '\n' :: (lines ++ ['\n', '\x7d'])) hjoin |>.trans ?_
  rw [List.flatMap_map]
  unfold linesAfter
  simp [Text.joinWith]

theorem linesAfter_cons (next : String × String) (others : ReferenceMap) :
    linesAfter (next :: others) =
      ',' :: '\n' :: ' ' :: ' ' :: (referenceText next ++ linesAfter others) := by
  unfold linesAfter
  simp

theorem length_le_linesAfter (others : ReferenceMap) :
    others.length ≤ (linesAfter others).length := by
  induction others with
  | nil => exact Nat.zero_le _
  | cons next others ih =>
      rw [linesAfter_cons]
      simp only [List.length_cons, List.length_append]
      omega

/-- Blank space before a reference is skipped. -/
theorem skipBlank_indented (entry : String × String) (rest : List Char) :
    Json.skipBlank ('\n' :: ' ' :: ' ' :: (referenceText entry ++ rest)) =
      referenceText entry ++ rest := rfl

section Reference

/-- Nothing but one space stands between the marks of a line. -/
theorem skipBlank_colon (rest : List Char) : Json.skipBlank (':' :: rest) = ':' :: rest :=
  rfl

theorem skipBlank_value (s : String) (rest : List Char) :
    Json.skipBlank (' ' :: (quoteString s ++ rest)) = quoteString s ++ rest :=
  rfl

variable (depth : Nat) (before : List (String × Json.Value)) (entry : String × String)
variable {rest behind : List Char}

/-- The last reference of a table is read as a member. -/
theorem readMembers_last (hrest : Json.skipBlank rest = '\x7d' :: behind) :
    Json.readMembers (depth + 2) before (referenceText entry ++ rest) =
      .ok (Entries.put before entry.1 (.string entry.2), behind) := by
  unfold referenceText
  rw [List.append_assoc, Json.quoteString_append, Json.readMembers, Json.readString_written]
  simp only [List.cons_append, skipBlank_colon, skipBlank_value, Json.readValue_quoteString, hrest]

/-- So is one with others behind it, and they are read next. -/
theorem readMembers_next (hrest : Json.skipBlank rest = ',' :: behind) :
    Json.readMembers (depth + 2) before (referenceText entry ++ rest) =
      Json.readMembers (depth + 1) (Entries.put before entry.1 (.string entry.2))
        (Json.skipBlank behind) := by
  unfold referenceText
  rw [List.append_assoc, Json.quoteString_append, Json.readMembers, Json.readString_written]
  simp only [List.cons_append, skipBlank_colon, skipBlank_value, Json.readValue_quoteString, hrest]

end Reference

/-- A key that comes once is put behind those that were read before it. -/
theorem put_of_nodup {before : List (String × Json.Value)} {key : String} {others : List String}
    (h : (before.map Prod.fst ++ key :: others).Nodup) (value : Json.Value) :
    Entries.put before key value = before ++ [(key, value)] :=
  Entries.put_of_not_mem before key value fun hmem =>
    (List.nodup_append.mp h).2.2 key hmem key List.mem_cons_self rfl

/-- The lines are read as members, one after another. -/
theorem readMembers_lines (entry : String × String) (others : ReferenceMap)
    (before : List (String × Json.Value)) (depth : Nat)
    (hdistinct : (before.map Prod.fst ++ ReferenceMap.keys (entry :: others)).Nodup) :
    Json.readMembers (depth + others.length + 2) before (referenceText entry ++ linesAfter others) =
      .ok (before ++ (entry :: others).map fun (key, token) => (key, .string token), []) := by
  induction others generalizing entry before with
  | nil =>
      have hclosing : Json.skipBlank (linesAfter []) = ['\x7d'] := rfl
      rw [List.length_nil, readMembers_last depth before entry hclosing, put_of_nodup hdistinct]
      rfl
  | cons next others ih =>
      -- What has been read stands before the next line.
      have hread : ((before ++ [(entry.1, Json.Value.string entry.2)]).map Prod.fst ++
          ReferenceMap.keys (next :: others)).Nodup := by
        rw [List.map_append, List.append_assoc]
        exact hdistinct
      have hcomma : Json.skipBlank (linesAfter (next :: others)) =
          ',' :: '\n' :: ' ' :: ' ' :: (referenceText next ++ linesAfter others) := by
        rw [linesAfter_cons]
        rfl
      rw [readMembers_next (depth + (next :: others).length) before entry hcomma,
        put_of_nodup hdistinct, skipBlank_indented, List.length_cons, ← Nat.add_assoc depth,
        ih next _ hread, List.append_assoc]
      rfl

/-- The text of a table is read as the table. -/
theorem read_urlMapText (refs : ReferenceMap) (hdistinct : refs.keys.Nodup) :
    Json.read (urlMapText refs) = .ok (tableValue refs) := by
  cases refs with
  | nil => rfl
  | cons entry others =>
      -- The text is longer than it has lines, so its length is enough for the measure.
      have henough : ∃ depth,
          (urlMapText (entry :: others)).length = depth + others.length + 2 := by
        have hlines := length_le_linesAfter others
        refine ⟨(urlMapText (entry :: others)).length - (others.length + 2), ?_⟩
        rw [urlMapText_cons]
        simp only [List.length_cons, List.length_append]
        omega
      rcases henough with ⟨depth, hdepth⟩
      have hmembers := readMembers_lines entry others [] depth hdistinct
      have hvalue : Json.readValue ((urlMapText (entry :: others)).length + 1)
          (Json.skipBlank (urlMapText (entry :: others))) =
            .ok (tableValue (entry :: others), []) := by
        rw [hdepth, urlMapText_cons]
        change Json.readValue _ ('\x7b' :: '\n' :: ' ' :: ' ' :: _) = _
        rw [Json.readValue, skipBlank_indented]
        change (Json.readMembers (depth + others.length + 2) []
          (referenceText entry ++ linesAfter others)).map _ = _
        rw [hmembers]
        rfl
      unfold Json.read
      rw [hvalue]
      rfl

end CommandLine

end PageDistill
