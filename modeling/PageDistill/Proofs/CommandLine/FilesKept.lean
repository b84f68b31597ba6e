import PageDistill.CommandLine.Files

/-!
# Written Files Are Found Again

What is written under a path is read under the same path.

The tree of files changes by writing, and a path is followed through the tree, so the path might
lead elsewhere afterwards. It does not, because writing makes no directory and ends none. A file is
put into a directory that was there, so all places on the way to it were directories before
(`Reached`). With the same directories every path leads where it led before, as long as it leads
anywhere.

## Main definitions

* `FileTree.Reached`: All places on the way to a place are directories.
* `FileTree.placeAt`, `FileTree.pathStart`: The places that a path is followed through.

## Theorems

* `FileTree.follow_reached`: A path leads to places that can be reached.
* `FileTree.write_ok_iff`, `FileTree.read_ok_iff`: When files are written and read.
* `FileTree.isDirectory_write`: Writing leaves the directories alone.
* `FileTree.resolve_write`: A path leads to the same place afterwards.
* `FileTree.read_write`: What was written under a path is read under it.
* `FileTree.read_write_of_ne`: Other files are kept.
-/

namespace PageDistill

namespace CommandLine

namespace FileTree

variable {t : FileTree}

/-- All places on the way to a place are directories. -/
def Reached (t : FileTree) (place : Place) : Prop :=
  ∀ above, above <+: place → above ≠ place → t.isDirectory above = true

/-- The four reasons why a place is a directory. -/
theorem isDirectory_iff {place : Place} :
    t.isDirectory place = true ↔
      place = rootPlace ∨ (∀ part ∈ place, part = "..") ∨
        (∃ known ∈ t.directories, place <+: known) ∨
        ∃ entry ∈ t.files, place <+: entry.1 ∧ place ≠ entry.1 := by
  unfold isDirectory
  simp only [Bool.or_eq_true, beq_iff_eq, List.all_eq_true, List.any_eq_true, Bool.and_eq_true,
    List.isPrefixOf_iff_prefix, bne_iff_ne, or_assoc]

theorem isDirectory_nil (t : FileTree) : t.isDirectory [] = true :=
  isDirectory_iff.mpr (Or.inr (Or.inl fun _ hmem => absurd hmem List.not_mem_nil))

theorem isDirectory_root (t : FileTree) : t.isDirectory rootPlace = true :=
  isDirectory_iff.mpr (Or.inl rfl)

/-- What lies above a directory is a directory. -/
theorem isDirectory_of_isPrefix {above place : Place} (h : above <+: place)
    (hplace : t.isDirectory place = true) : t.isDirectory above = true := by
  rcases isDirectory_iff.mp hplace with rfl | hup | ⟨known, hknown, hstart⟩ |
    ⟨entry, hentry, hstart, hne⟩
  · rcases List.prefix_cons_iff.mp h with rfl | ⟨rest, rfl, hrest⟩
    · exact isDirectory_nil t
    · rw [List.prefix_nil.mp hrest]
      exact isDirectory_root t
  · exact isDirectory_iff.mpr (Or.inr (Or.inl fun part hpart => hup part (h.subset hpart)))
  · exact isDirectory_iff.mpr (Or.inr (Or.inr (Or.inl ⟨known, hknown, h.trans hstart⟩)))
  · refine isDirectory_iff.mpr (Or.inr (Or.inr (Or.inr ⟨entry, hentry, h.trans hstart, ?_⟩)))
    rintro rfl
    exact hne (hstart.eq_of_length (Nat.le_antisymm hstart.length_le h.length_le))

/-- All that is above a directory is a directory. -/
theorem reached_of_isDirectory {place : Place} (h : t.isDirectory place = true) :
    t.Reached place := fun _ habove _ => isDirectory_of_isPrefix habove h

/-- One part further than a directory. -/
theorem reached_append {place : Place} (h : t.isDirectory place = true) (part : String) :
    t.Reached (place ++ [part]) := by
  intro above habove hne
  rcases List.prefix_concat_iff.mp habove with heq | hstart
  · exact absurd heq hne
  · exact isDirectory_of_isPrefix hstart h

theorem reached_placeAbove {place : Place} (h : t.isDirectory place = true) :
    t.Reached (placeAbove place) := by
  unfold placeAbove
  by_cases hroot : place = rootPlace
  · rw [if_pos hroot]
    exact reached_of_isDirectory (isDirectory_root t)
  · rw [if_neg hroot]
    split
    · exact reached_append (isDirectory_nil t) ".."
    · exact reached_append h ".."
    · exact reached_of_isDirectory (isDirectory_of_isPrefix (List.dropLast_prefix place) h)

/-- The place that one part of a path leads to. -/
def placeAt (place : Place) (part : String) : Place :=
  if part = ".." then placeAbove place else place ++ [part]

theorem reached_placeAt {place : Place} (h : t.isDirectory place = true) (part : String) :
    t.Reached (placeAt place part) := by
  unfold placeAt
  by_cases hup : part = ".."
  · rw [if_pos hup]
    exact reached_placeAbove h
  · rw [if_neg hup]
    exact reached_append h part

/-- A path is followed by one part if the part is not too long and leads to a directory, or to
    anything if it is the last one. -/
theorem follow_cons_ok_iff {path part : String} {place found : Place} {rest : List String} :
    t.follow path place (part :: rest) = .ok found ↔
      byteCount part ≤ mostPartBytes ∧ (rest = [] ∨ t.isDirectory (placeAt place part) = true) ∧
        t.follow path (placeAt place part) rest = .ok found := by
  change (if mostPartBytes < byteCount part then _
    else if rest.isEmpty = true ∨ t.isDirectory (placeAt place part) = true then
      t.follow path (placeAt place part) rest
    else if (t.file? (placeAt place part)).isSome = true then _ else _) = _ ↔ _
  by_cases hlong : mostPartBytes < byteCount part
  · rw [if_pos hlong]
    exact ⟨nofun, fun h => absurd hlong (Nat.not_lt.mpr h.1)⟩
  rw [if_neg hlong, ← List.isEmpty_iff]
  by_cases hon : rest.isEmpty = true ∨ t.isDirectory (placeAt place part) = true
  · rw [if_pos hon]
    exact ⟨fun h => ⟨Nat.not_lt.mp hlong, hon, h⟩, fun h => h.2.2⟩
  · rw [if_neg hon]
    refine ⟨fun h => ?_, fun h => absurd h.2.1 hon⟩
    split at h <;> exact nomatch h

/-- A path that is followed from a directory leads to places that can be reached. -/
theorem follow_reached {path : String} {place found : Place} {parts : List String}
    (h : t.isDirectory place = true) (hfollow : t.follow path place parts = .ok found) :
    t.Reached found := by
  induction parts generalizing place with
  | nil =>
      rw [← Except.ok.inj hfollow]
      exact reached_of_isDirectory h
  | cons part rest ih =>
      rcases follow_cons_ok_iff.mp hfollow with ⟨_, rfl | hnext, hrest⟩
      · rw [← Except.ok.inj hrest]
        exact reached_placeAt h part
      · exact ih hnext hrest

/-- Writing a file into a directory leaves the directories alone. -/
theorem isDirectory_withFile {place : Place} (h : t.Reached place) (bytes : List UInt8)
    (other : Place) : (t.withFile place bytes).isDirectory other = t.isDirectory other := by
  rw [Bool.eq_iff_iff, isDirectory_iff]
  constructor
  · rintro (hroot | hup | hknown | ⟨entry, hentry, hstart, hne⟩)
    · exact isDirectory_iff.mpr (Or.inl hroot)
    · exact isDirectory_iff.mpr (Or.inr (Or.inl hup))
    · exact isDirectory_iff.mpr (Or.inr (Or.inr (Or.inl hknown)))
    -- A directory above the new file is one that the path was followed through.
    · rcases List.mem_cons.mp hentry with rfl | hold
      · exact h other hstart hne
      · exact isDirectory_iff.mpr (Or.inr (Or.inr (Or.inr
          ⟨entry, (List.mem_filter.mp hold).1, hstart, hne⟩)))
  · intro hother
    rcases isDirectory_iff.mp hother with hroot | hup | hknown | ⟨entry, hentry, hstart, hne⟩
    · exact Or.inl hroot
    · exact Or.inr (Or.inl hup)
    · exact Or.inr (Or.inr (Or.inl hknown))
    · refine Or.inr (Or.inr (Or.inr ?_))
      -- A file that is written over leaves the new one at its place, below the same directories.
      by_cases hplace : entry.1 = place
      · rw [hplace] at hstart hne
        exact ⟨(place, bytes), List.mem_cons_self, hstart, hne⟩
      · have hkept : entry ∈ t.files.filter fun entry => entry.1 != place :=
          List.mem_filter.mpr ⟨hentry, by simpa using hplace⟩
        exact ⟨entry, List.mem_cons_of_mem _ hkept, hstart, hne⟩

/-- With the same directories a path leads where it led before. -/
theorem follow_congr {t' : FileTree} (h : ∀ place, t'.isDirectory place = t.isDirectory place)
    (path : String) (place found : Place) (parts : List String) :
    t'.follow path place parts = .ok found ↔ t.follow path place parts = .ok found := by
  induction parts generalizing place with
  | nil => exact Iff.rfl
  | cons part rest ih => rw [follow_cons_ok_iff, follow_cons_ok_iff, ih, h]

/-- The directory that a path is followed from. -/
def pathStart (path : String) : Place := if pathRoot path = "" then [] else rootPlace

/-- A path starts in a directory, the root or the one a run is in. -/
theorem isDirectory_pathStart (t : FileTree) (path : String) :
    t.isDirectory (pathStart path) = true := by
  unfold pathStart
  by_cases hroot : pathRoot path = ""
  · rw [if_pos hroot]
    exact isDirectory_nil t
  · rw [if_neg hroot]
    exact isDirectory_root t

/-- A path leads to a place if it is not too long and its parts can be followed one by one. -/
theorem resolve_ok_iff {path : String} {place : Place} :
    t.resolve path = .ok place ↔
      byteCount (pathText path) ≤ mostPathBytes ∧
        t.follow (pathText path) (pathStart path) (pathParts path) = .ok place := by
  unfold resolve pathStart
  simp only
  by_cases hlong : mostPathBytes < byteCount (pathText path)
  · rw [if_pos hlong]
    exact ⟨nofun, fun h => absurd hlong (Nat.not_lt.mpr h.1)⟩
  · rw [if_neg hlong]
    exact ⟨fun h => ⟨Nat.not_lt.mp hlong, h⟩, fun h => h.2⟩

/-- A path is followed through directories only. -/
theorem resolve_reached {path : String} {place : Place} (h : t.resolve path = .ok place) :
    t.Reached place :=
  follow_reached (isDirectory_pathStart t path) (resolve_ok_iff.mp h).2

section

variable {t' : FileTree} {path : String} {bytes : List UInt8}

/-- Writing puts a file at the place that the path leads to, which is no directory. -/
theorem write_ok_iff :
    t.write path bytes = .ok t' ↔
      ∃ place, t.resolve path = .ok place ∧ t.isDirectory place = false ∧
        t.withFile place bytes = t' := by
  unfold write
  cases t.resolve path with
  | error fault => exact ⟨nofun, fun ⟨_, h, _⟩ => (nomatch h)⟩
  | ok place =>
      change writeAt t _ place bytes = _ ↔ _
      unfold writeAt
      constructor
      · intro h
        split at h
        · exact nomatch h
        · exact ⟨place, rfl, Bool.not_eq_true _ ▸ ‹_›, Except.ok.inj h⟩
      · rintro ⟨_, heq, hplace, rfl⟩
        rw [← Except.ok.inj heq] at hplace ⊢
        rw [if_neg (by rw [hplace]; exact Bool.false_ne_true)]

/-- Writing makes no directories and takes none away. -/
theorem isDirectory_write (h : t.write path bytes = .ok t') (place : Place) :
    t'.isDirectory place = t.isDirectory place := by
  rcases write_ok_iff.mp h with ⟨_, hresolve, _, rfl⟩
  exact isDirectory_withFile (resolve_reached hresolve) bytes place

/-- A path leads to the same place afterwards. -/
theorem resolve_write (h : t.write path bytes = .ok t') (other : String) (place : Place) :
    t'.resolve other = .ok place ↔ t.resolve other = .ok place := by
  rw [resolve_ok_iff, resolve_ok_iff, follow_congr (isDirectory_write h)]

/-- A file is read if its path leads to it. -/
theorem read_ok_iff {found : List UInt8} :
    t.read path = .ok found ↔ ∃ place, t.resolve path = .ok place ∧ t.file? place = some found := by
  unfold read
  cases t.resolve path with
  | error fault => exact ⟨nofun, fun ⟨_, h, _⟩ => (nomatch h)⟩
  | ok place =>
      change readAt t _ place = _ ↔ _
      unfold readAt
      cases hfile : t.file? place with
      | none =>
          refine ⟨nofun, fun ⟨_, heq, h⟩ => ?_⟩
          rw [← Except.ok.inj heq, hfile] at h
          exact nomatch h
      | some bytes =>
          constructor
          · intro h
            exact ⟨place, rfl, hfile.trans (congrArg some (Except.ok.inj h))⟩
          · rintro ⟨_, heq, h⟩
            rw [← Except.ok.inj heq, hfile] at h
            exact congrArg Except.ok (Option.some.inj h)

/-- What was written under a path is read under it. -/
theorem read_write (h : t.write path bytes = .ok t') : t'.read path = .ok bytes := by
  rcases write_ok_iff.mp h with ⟨place, hresolve, _, rfl⟩
  exact read_ok_iff.mpr ⟨place, (resolve_write h path place).mpr hresolve,
    file?_withFile t place bytes⟩

/-- Other files stay as they are. -/
theorem file?_withFile_of_ne {place other : Place} (h : other ≠ place) :
    (t.withFile place bytes).file? other = t.file? other := by
  have hfind : ∀ files : List (Place × List UInt8),
      ((files.filter fun entry => entry.1 != place).find? fun entry => entry.1 == other) =
        files.find? fun entry => entry.1 == other := by
    intro files
    rw [List.find?_filter]
    refine congrArg (files.find? ·) (funext fun entry => ?_)
    by_cases hentry : entry.1 = other
    · simp [hentry, h]
    · simp [hentry]
  change (List.find? _ ((place, bytes) :: _)).map Prod.snd = _
  rw [List.find?_cons_of_neg (by simpa using Ne.symm h), hfind]
  rfl

/-- What stands at another place is read as before. -/
theorem read_write_of_ne (h : t.write path bytes = .ok t') {other : String} {found : List UInt8}
    (hne : t.resolve other ≠ t.resolve path) (hread : t.read other = .ok found) :
    t'.read other = .ok found := by
  rcases write_ok_iff.mp h with ⟨place, hresolve, _, rfl⟩
  rcases read_ok_iff.mp hread with ⟨otherPlace, hother, hfile⟩
  have hplaces : otherPlace ≠ place := by
    rintro rfl
    exact hne (hother.trans hresolve.symm)
  exact read_ok_iff.mpr ⟨otherPlace, (resolve_write h other otherPlace).mpr hother,
    (file?_withFile_of_ne hplaces).trans hfile⟩

end

end FileTree

end CommandLine

end PageDistill
