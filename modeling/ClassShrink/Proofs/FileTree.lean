import ClassShrink.FileTree

/-! # Reading what was written

A write that succeeds gives one file a text: the path then reads as that text, and
all other files and directories stay. Writing what a file has already changes
nothing that can be read. -/

namespace ClassShrink.FileTree

variable {tree other written : FileTree} {directory parts target : List String}
  {path name text : String} {place : Place}

/-! ## Trees that look alike -/

/-- Two trees have the same directories and the same texts in the same files. -/
structure LooksLike (tree other : FileTree) : Prop where
  home : tree.home = other.home
  directories : tree.directories = other.directories
  files : ∀ parts, tree.files.lookup parts = other.files.lookup parts

namespace LooksLike

theorem enter (alike : tree.LooksLike other) (directory : List String) (name : String) :
    tree.enter directory name = other.enter directory name := by
  simp only [FileTree.enter, alike.directories, alike.files]

theorem walk (alike : tree.LooksLike other) (directory parts : List String) :
    tree.walk directory parts = other.walk directory parts := by
  induction parts generalizing directory with
  | nil => rfl
  | cons name rest induction =>
      cases rest with
      | nil => exact alike.enter directory name
      | cons next rest => simp only [FileTree.walk, alike.enter, induction]

theorem read (alike : tree.LooksLike other) (path : String) : tree.read path = other.read path := by
  simp only [FileTree.read, FileTree.locate, FileTree.start, alike.home, alike.walk]

end LooksLike

/-! ## Putting a text into a file -/

theorem lookup_put (tree : FileTree) (target : List String) (text : String)
    (parts : List String) :
    (tree.put target text).files.lookup parts =
      if parts = target then some text else tree.files.lookup parts := by
  have others : (tree.files.filter fun file => file.1 ≠ target).lookup parts =
      if parts = target then none else tree.files.lookup parts := by
    induction tree.files with
    | nil => simp
    | cons file rest induction =>
        rcases file with ⟨place, content⟩
        by_cases isTarget : place = target
        · by_cases same : parts = target
          · simpa [isTarget, same] using induction
          · simpa [isTarget, same, List.lookup_cons, beq_false_of_ne same] using induction
        · by_cases here : parts = place
          · simp [isTarget, here]
          · simpa [isTarget, List.lookup_cons, beq_false_of_ne here] using induction
  rw [put, List.lookup_append, others]
  by_cases isTarget : parts = target
  · simp [isTarget]
  · simp [isTarget, List.lookup_cons, beq_false_of_ne isTarget]

theorem looksLike_put (had : tree.files.lookup target = some text) :
    (tree.put target text).LooksLike tree where
  home := rfl
  directories := rfl
  files parts := by
    rw [lookup_put]
    by_cases isTarget : parts = target
    · rw [if_pos isTarget, isTarget, had]
    · rw [if_neg isTarget]

def Place.target? : Place → Option (List String)
  | .file parts _ | .absent parts => some parts
  | .directory _ => none

def Place.after (place : Place) (target : List String) (text : String) : Place :=
  if place.target? = some target then .file target text else place

@[simp] theorem Place.after_directory (directory target : List String) (text : String) :
    (Place.directory directory).after target text = .directory directory := rfl

theorem enter_put (tree : FileTree) (target : List String) (text : String)
    (directory : List String) (name : String) :
    (tree.put target text).enter directory name =
      (tree.enter directory name).map fun place => place.after target text := by
  have sameDirectories : (tree.put target text).directories = tree.directories := rfl
  simp only [enter, lookup_put, sameDirectories, apply_ite (Except.map _)]
  congr 4
  cases tree.files.lookup (directory ++ [name]) <;>
    by_cases isTarget : directory ++ [name] = target <;>
    simp [Except.map, Place.after, Place.target?, isTarget]

/-- A path that leads somewhere leads there as before, and finds the text if it was
put there. -/
theorem walk_put_eq_ok_iff {after : Place} :
    (tree.put target text).walk directory parts = .ok after ↔
      ∃ place, tree.walk directory parts = .ok place ∧ place.after target text = after := by
  induction parts generalizing directory with
  | nil => simp [walk]
  | cons name rest induction =>
      cases rest with
      | nil =>
          rw [walk, walk, enter_put]
          cases tree.enter directory name <;> simp [Except.map]
      | cons next rest =>
          simp only [walk, enter_put]
          cases tree.enter directory name with
          | error error => simp [Except.map]
          | ok middle =>
              cases middle with
              | directory further => exact induction
              -- The file that was written may stand where nothing was, but no path goes on there.
              | file middleParts old =>
                  by_cases isTarget : middleParts = target <;>
                    simp [Except.map, Place.after, Place.target?, isTarget]
              | absent middleParts =>
                  by_cases isTarget : middleParts = target <;>
                    simp [Except.map, Place.after, Place.target?, isTarget]

theorem locate_put_eq_ok_iff {after : Place} :
    (tree.put target text).locate path = .ok after ↔
      ∃ place, tree.locate path = .ok place ∧ place.after target text = after := by
  have same : (tree.put target text).start path = tree.start path := rfl
  unfold locate
  rw [same]
  cases tree.start path with
  | error error => simp
  | ok begin => exact walk_put_eq_ok_iff

/-! ## Reading -/

theorem read_eq_ok_iff {content : String} :
    tree.read path = .ok content ↔ ∃ parts, tree.locate path = .ok (.file parts content) := by
  unfold read
  cases tree.locate path with
  | error error => simp
  | ok place => cases place <;> simp

theorem lookup_of_enter (entered : tree.enter directory name = .ok (.file target text)) :
    tree.files.lookup target = some text := by
  unfold enter at entered
  split at entered
  · cases entered
  split at entered
  · cases entered
  split at entered
  · cases entered
  simp only at entered
  split at entered
  · cases entered
  · cases found : tree.files.lookup (directory ++ [name]) <;> rw [found] at entered <;>
      cases entered
    exact found

theorem lookup_of_walk (walked : tree.walk directory parts = .ok (.file target text)) :
    tree.files.lookup target = some text := by
  induction parts generalizing directory with
  | nil => cases walked
  | cons name rest induction =>
      cases rest with
      | nil => exact lookup_of_enter walked
      | cons next rest =>
          simp only [walk] at walked
          split at walked
          · cases walked
          · exact induction walked
          · cases walked
          · cases walked

theorem lookup_of_locate (located : tree.locate path = .ok (.file target text)) :
    tree.files.lookup target = some text := by
  unfold locate at located
  split at located
  · exact lookup_of_walk located
  · cases located

/-! ## Writing -/

theorem write_eq_ok (wrote : tree.write path text = .ok written) :
    ∃ place target, tree.locate path = .ok place ∧ place.target? = some target ∧
      written = tree.put target text := by
  unfold write at wrote
  unfold locate
  cases started : tree.start path with
  | error error => simp [started] at wrote
  | ok begin =>
      rcases begin with ⟨directory, parts⟩
      simp only [started] at wrote
      split at wrote
      · split at wrote <;> cases wrote
      · cases walked : tree.walk directory parts with
        | error error => simp [walked] at wrote
        | ok place =>
            rw [walked] at wrote
            cases place with
            | directory parts => cases wrote
            | file target old =>
                cases wrote
                exact ⟨.file target old, target, walked, rfl, rfl⟩
            | absent target =>
                cases wrote
                exact ⟨.absent target, target, walked, rfl, rfl⟩

/-- After a write the paths to the written file read as its text, and all other
paths to files read as before. -/
theorem read_write_iff (wrote : tree.write path text = .ok written) {other content : String} :
    written.read other = .ok content ↔
      (written.locate other = written.locate path ∧ content = text) ∨
      (written.locate other ≠ written.locate path ∧ tree.read other = .ok content) := by
  rcases write_eq_ok wrote with ⟨place, target, located, isTarget, rfl⟩
  have atPath : (tree.put target text).locate path = .ok (.file target text) :=
    locate_put_eq_ok_iff.mpr ⟨place, located, if_pos isTarget⟩
  rw [atPath, read_eq_ok_iff]
  constructor
  · rintro ⟨parts, found⟩
    rcases locate_put_eq_ok_iff.mp found with ⟨otherPlace, otherLocated, became⟩
    by_cases same : otherPlace.target? = some target
    · rw [Place.after, if_pos same] at became
      cases became
      exact .inl ⟨found, rfl⟩
    · rw [Place.after, if_neg same] at became
      subst became
      refine .inr ⟨?_, read_eq_ok_iff.mpr ⟨parts, otherLocated⟩⟩
      rw [found]
      rintro ⟨⟩
      exact same rfl
  · rintro (⟨found, rfl⟩ | ⟨apart, had⟩)
    · exact ⟨target, found⟩
    · rcases read_eq_ok_iff.mp had with ⟨parts, found⟩
      by_cases same : parts = target
      · exact absurd (locate_put_eq_ok_iff.mpr ⟨_, found, if_pos (congrArg some same)⟩) apart
      · exact ⟨parts, locate_put_eq_ok_iff.mpr
          ⟨_, found, if_neg fun equal => same (Option.some.inj equal)⟩⟩

theorem read_of_write (wrote : tree.write path text = .ok written) :
    written.read path = .ok text :=
  (read_write_iff wrote).mpr (.inl ⟨rfl, rfl⟩)

theorem read_of_write_again (wrote : tree.write path text = .ok written)
    (had : tree.read path = .ok text) (other : String) : written.read other = tree.read other := by
  rcases write_eq_ok wrote with ⟨place, target, located, isTarget, rfl⟩
  rcases read_eq_ok_iff.mp had with ⟨parts, found⟩
  rw [found] at located
  cases located
  cases isTarget
  exact (looksLike_put (lookup_of_locate found)).read other

end ClassShrink.FileTree
