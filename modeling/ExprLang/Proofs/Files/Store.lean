import ExprLang.Files.Disk

/-! What is written is there.

    A file that was put in place is read back, whatever its path goes through (`read_withFile`):
    this takes nothing away from a store and makes no directories, so the directories on the way are
    entered as before, and the file is found where it was opened. So a file that is written holds
    all that was to be written, unless it is not opened or takes no more (`write_cases`). -/

namespace ExprLang.Files

theorem bind_eq_ok {ε α β : Type} {x : Except ε α} {f : α → Except ε β} {b : β} :
    (x >>= f) = .ok b ↔ ∃ a, x = .ok a ∧ f a = .ok b := by
  cases x with
  | ok a => exact ⟨fun h => ⟨a, rfl, h⟩, fun ⟨_, ha, h⟩ => Except.ok.inj ha ▸ h⟩
  | error e => exact ⟨fun h => (nomatch h), fun ⟨_, ha, _⟩ => (nomatch ha)⟩

namespace Store

variable {s s' : Store} {place next : Place} {bytes : List UInt8} {path name : String}

/-! ### Files put in place -/

theorem lookup_put_self (place : Place) (bytes : List UInt8) (fs : List (Place × List UInt8)) :
    (put place bytes fs).lookup place = some bytes := by
  induction fs with
  | nil => simp [put]
  | cons f fs ih =>
    unfold put
    split
    · simp
    · rename_i hne
      have hne' : (place == f.1) = false := by
        rw [Bool.eq_false_iff, ne_eq, beq_iff_eq]
        exact fun heq => hne (by rw [heq]; exact beq_self_eq_true _)
      rw [List.lookup_cons, hne']
      exact ih

theorem isSome_lookup_put (place : Place) (bytes : List UInt8) {other : Place}
    {fs : List (Place × List UInt8)} (h : (fs.lookup other).isSome = true) :
    ((put place bytes fs).lookup other).isSome = true := by
  induction fs with
  | nil => cases h
  | cons f fs ih =>
    unfold put
    rw [List.lookup_cons] at h
    split
    · rename_i heq
      rw [List.lookup_cons]
      split
      · rfl
      · rename_i hne
        rw [beq_iff_eq.mp heq] at h
        rwa [hne] at h
    · rw [List.lookup_cons]
      split
      · rfl
      · rename_i hne
        rw [hne] at h
        exact ih h

/-! ### Stores that have more -/

/-- A store has the directories of another and no others, and all of its files, with whatever
    contents. -/
structure Extends (s s' : Store) : Prop where
  directories : s'.directories = s.directories
  files : ∀ place, (s.contents? place).isSome = true → (s'.contents? place).isSome = true

namespace Extends

theorem hasDirectory_eq (h : Extends s s') (place : Place) :
    s'.hasDirectory place = s.hasDirectory place := by
  rw [hasDirectory, hasDirectory, h.directories]

theorem has (h : Extends s s') (hplace : s.has place = true) : s'.has place = true := by
  unfold Store.has at *
  rw [h.hasDirectory_eq]
  rcases Bool.or_eq_true_iff.mp hplace with hdirectory | hfile
  · rw [hdirectory, Bool.true_or]
  · rw [h.files place hfile, Bool.or_true]

theorem locate_eq (h : Extends s s') (place : Place) (name : String) :
    s'.locate place name = s.locate place name := by
  rw [locate, locate, h.hasDirectory_eq]

theorem enter_eq (h : Extends s s') (henter : s.enter place name = .ok next) :
    s'.enter place name = .ok next := by
  obtain ⟨found, hlocate, hnext⟩ := bind_eq_ok.mp henter
  refine bind_eq_ok.mpr ⟨found, by rw [h.locate_eq, hlocate], ?_⟩
  split at hnext
  · rename_i hhas
    rwa [if_pos (h.has hhas)]
  · cases hnext

/-- The same names lead to the same place. -/
theorem foldlM_enter (h : Extends s s') {names : List String}
    (hnames : names.foldlM s.enter place = .ok next) :
    names.foldlM s'.enter place = .ok next := by
  induction names generalizing place with
  | nil => exact hnames
  | cons name names ih =>
    rw [List.foldlM_cons] at hnames ⊢
    obtain ⟨found, henter, hrest⟩ := bind_eq_ok.mp hnames
    exact bind_eq_ok.mpr ⟨found, h.enter_eq henter, ih hrest⟩

end Extends

/-! ### Writing -/

theorem extends_withFile (s : Store) (place : Place) (bytes : List UInt8) :
    Extends s (s.withFile place bytes) := ⟨rfl, fun _ h => isSome_lookup_put place bytes h⟩

/-- The directory that is found for a path is where its names but the last lead. -/
theorem findParent_ok {parent : Place} (h : s.findParent path = .ok (parent, some name)) :
    checkPath path = .ok () ∧ ∃ names, Path.parts path = names ++ [name] ∧
      names.foldlM s.enter (origin path) = .ok parent := by
  unfold findParent at h
  obtain ⟨⟨⟩, hcheck, h⟩ := bind_eq_ok.mp h
  obtain ⟨found, hnames, h⟩ := bind_eq_ok.mp h
  refine ⟨hcheck, ?_⟩
  dsimp only at h
  split at h
  · cases h
  · split at h
    · rename_i last hlast
      split at h
      · cases h
      · cases h
        obtain ⟨names, hparts⟩ := List.getLast?_eq_some_iff.mp hlast
        rw [hparts, List.dropLast_concat] at hnames
        exact ⟨names, hparts, hnames⟩
    · cases h

/-- A file is opened where the names of its path lead, and the path does not ask for a directory. -/
theorem target_ok (h : s.target path = .ok place) : ∃ parent name,
    s.findParent path = .ok (parent, some name) ∧ Path.endsInSlash path = false ∧
      s.locate parent name = .ok place := by
  unfold target at h
  obtain ⟨⟨parent, name?⟩, hparent, h⟩ := bind_eq_ok.mp h
  cases name? with
  | none => cases h
  | some name =>
    dsimp only at h
    split at h
    · cases h
    · rename_i hslash
      obtain ⟨found, hlocate, h⟩ := bind_eq_ok.mp h
      split at h
      · cases h
      · cases h
        exact ⟨parent, name, hparent, Bool.eq_false_iff.mpr hslash, hlocate⟩

/-- A file that was put where its path is opened is found there. -/
theorem read_withFile (h : s.target path = .ok place) (bytes : List UInt8) :
    (s.withFile place bytes).read path = .ok bytes := by
  obtain ⟨parent, name, hparent, hslash, hlocate⟩ := target_ok h
  obtain ⟨hcheck, names, hparts, hnames⟩ := findParent_ok hparent
  have hextends := extends_withFile s place bytes
  have hthere : (s.withFile place bytes).contents? place = some bytes :=
    lookup_put_self place bytes s.files
  have henter : (s.withFile place bytes).enter parent name = .ok place := by
    refine bind_eq_ok.mpr ⟨place, by rw [hextends.locate_eq, hlocate], ?_⟩
    rw [if_pos (by rw [has, hthere, Option.isSome_some, Bool.or_true])]
    rfl
  have hfind : (s.withFile place bytes).find path = .ok place := by
    unfold find
    refine bind_eq_ok.mpr ⟨(), hcheck, bind_eq_ok.mpr ⟨place, ?_, ?_⟩⟩
    · rw [hparts, List.foldlM_append]
      refine bind_eq_ok.mpr ⟨parent, hextends.foldlM_enter hnames, ?_⟩
      rw [List.foldlM_cons, henter]
      rfl
    · rw [hslash]
      rfl
  refine bind_eq_ok.mpr ⟨place, hfind, ?_⟩
  rw [hthere]
  rfl

theorem write_unlimited (htarget : s.target path = .ok place) (hlimit : s.limit = none)
    (bytes : List UInt8) : s.write path bytes = (.ok (), s.withFile place bytes) := by
  rw [write, htarget, hlimit]

/-- Where there is no room for all of the bytes, the first of them are written. -/
theorem write_stopped {room : Nat} {reason : Reason} (htarget : s.target path = .ok place)
    (hlimit : s.limit = some (room, reason)) (hlong : room < bytes.length) :
    s.write path bytes = (.error (.stopped reason), s.withFile place (bytes.take room)) := by
  unfold write
  rw [htarget, hlimit]
  exact if_neg (Nat.not_le_of_lt hlong)

/-- What becomes of a file that is written: it holds all of the bytes, or it is not opened and nothing
    happens, or it holds the first of them and no more can be written. -/
theorem write_cases (s : Store) (path : String) (bytes : List UInt8) :
    (∃ s', s.write path bytes = (.ok (), s') ∧ s'.read path = .ok bytes) ∨
    (∃ reason, s.write path bytes = (.error (.refused reason), s)) ∨
    ∃ reason s' kept, s.write path bytes = (.error (.stopped reason), s') ∧ kept <+: bytes ∧
      s'.read path = .ok kept := by
  cases htarget : s.target path with
  | error reason => exact .inr (.inl ⟨reason, by rw [write, htarget]⟩)
  | ok place =>
    have hread := read_withFile htarget
    cases hlimit : s.limit with
    | none => exact .inl ⟨_, write_unlimited htarget hlimit bytes, hread bytes⟩
    | some limit =>
      obtain ⟨room, reason⟩ := limit
      by_cases hlong : room < bytes.length
      · exact .inr (.inr ⟨_, _, _, write_stopped htarget hlimit hlong, List.take_prefix _ _,
          hread _⟩)
      · refine .inl ⟨_, ?_, hread bytes⟩
        rw [write, htarget, hlimit]
        exact if_pos (Nat.le_of_not_lt hlong)

end Store
end ExprLang.Files
