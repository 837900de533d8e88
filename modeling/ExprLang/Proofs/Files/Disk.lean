import ExprLang.Files.Disk
import ExprLang.Proofs.Files.Store

/-! What is done on a disk.

    `Gives` says of what is done on a disk which answer it gives and which disk it leaves. Little is
    asked of a disk: that reading leaves its files alone, and that a file which is written and not
    written as a whole is as it was or has a beginning of what was to be written (`WritesInOrder`).
    So it is with a store, whatever its limit (`writesInOrder_ofStore`). -/

namespace ExprLang.Files.Disk

open Text

/-! ### Answers -/

section Gives

variable {σ α β : Type}

/-- What is done on a disk gives an answer that `P` allows and leaves such a disk. -/
def Gives (y : StateM σ α) (s : σ) (P : α → σ → Prop) : Prop := P (y.run s).1 (y.run s).2

theorem Gives.bind {y : StateM σ α} {f : α → StateM σ β} {s : σ} {P : β → σ → Prop}
    (h : Gives y s fun a s' => Gives (f a) s' P) : Gives (y >>= f) s P := by
  unfold Gives at h ⊢
  rw [StateT.run_bind]
  rcases hy : y.run s with ⟨a, s'⟩
  rw [hy] at h
  exact h

theorem gives_pure {a : α} {s : σ} {P : α → σ → Prop} (h : P a s) : Gives (pure a) s P := h

theorem gives_run (y : StateM σ α) (s : σ) : Gives y s fun a s' => y.run s = (a, s') := rfl

theorem Gives.mono {y : StateM σ α} {s : σ} {P Q : α → σ → Prop} (h : Gives y s P)
    (hPQ : ∀ a s', P a s' → Q a s') : Gives y s Q := hPQ _ _ h

end Gives

variable {σ : Type} {disk : Disk (StateM σ)} {path : String} {s : σ}

/-- A disk is left in a state in which reading alone can leave it. -/
theorem gives_readFile {P : σ → Prop} (hs : P s) (hread : ∀ path, P ((disk.read path).run s).2) :
    Gives (disk.readFile path) s fun _ s' => P s' := by
  unfold readFile
  split
  · exact gives_pure hs
  · exact .bind (gives_pure (hread path))

/-! ### Faults -/

/-- There is no fault but one that is answered, unless there is a NUL in the path. -/
def Accounted {α : Type} (path : String) (r : Except Fault α) : Prop :=
  ∀ fault, r = .error fault →
    fault.isAnswered = true ∨ Path.hasNul path = true ∧ fault = .nul

theorem accounted_nul {α : Type} (h : Path.hasNul path = true) :
    Accounted path (.error .nul : Except Fault α) := by
  rintro fault ⟨⟩
  exact .inr ⟨h, rfl⟩

theorem accounted_readFile : Gives (disk.readFile path) s fun r _ => Accounted path r := by
  unfold readFile
  split
  · rename_i hnul
    exact gives_pure (accounted_nul hnul)
  · refine .bind ((gives_run _ s).mono fun r s' _ => gives_pure fun fault hfault => .inl ?_)
    cases r with
    | ok bytes => cases hfault
    | error reason =>
      cases hfault
      rfl

theorem accounted_writeFile {text : String} :
    Gives (disk.writeFile path text) s fun r _ => Accounted path r := by
  unfold writeFile
  split
  · rename_i hnul
    exact gives_pure (accounted_nul hnul)
  · refine .bind ((gives_run _ s).mono fun r s' _ => gives_pure fun fault hfault => .inl ?_)
    cases r with
    | ok _ => cases hfault
    | error unwritten =>
      cases hfault
      cases unwritten <;> rfl

/-! ### Writing in order -/

/-- What a file holds that some bytes were to be written to: all of them; or what it held before, as
    it was not opened; or a beginning of them. -/
inductive Wrote (before after : Option (List UInt8)) (bytes : List UInt8) :
    Except Unwritten Unit → Prop
  | whole : after = some bytes → Wrote before after bytes (.ok ())
  | refused {reason : Reason} : after = before →
    Wrote before after bytes (.error (.refused reason))
  | stopped {reason : Reason} {kept : List UInt8} : kept <+: bytes → after = some kept →
    Wrote before after bytes (.error (.stopped reason))

/-- The files of a disk hold what `contents` says, and this changes in order: not by reading, and by
    writing only as far as this was done. -/
structure WritesInOrder (disk : Disk (StateM σ)) (contents : σ → String → Option (List UInt8)) :
    Prop where
  read : ∀ path s, contents ((disk.read path).run s).2 = contents s
  write : ∀ path bytes s, Gives (disk.write path bytes) s fun r s' =>
    Wrote (contents s path) (contents s' path) bytes r

/-- A text is written as a whole, or there is a fault. Then the file is as it was, or a session will
    answer for the beginning of the text that it holds. -/
theorem WritesInOrder.gives_writeFile {contents : σ → String → Option (List UInt8)}
    (h : disk.WritesInOrder contents) {text : String} :
    Gives (disk.writeFile path text) s fun r s' =>
      match r with
      | .ok _ => contents s' path = some (Utf8.encode text)
      | .error fault => contents s' path = contents s path ∨ fault.isAnswered = true ∧
        ∃ kept, kept <+: Utf8.encode text ∧ contents s' path = some kept := by
  unfold writeFile
  split
  · exact gives_pure (.inl rfl)
  · refine .bind ((h.write path _ s).mono fun r s' hwrote => gives_pure ?_)
    cases hwrote with
    | whole hafter => exact hafter
    | refused hafter => exact .inl hafter
    | stopped hkept hafter => exact .inr ⟨rfl, _, hkept, hafter⟩

/-- What the files of a store hold changes in order. -/
theorem writesInOrder_ofStore :
    ofStore.WritesInOrder fun s path => (s.read path).toOption where
  read _ _ := rfl
  write path bytes s := by
    unfold Gives
    change Wrote _ ((s.write path bytes).2.read path).toOption bytes (s.write path bytes).1
    rcases s.write_cases path bytes with ⟨s', hwrite, hread⟩ | ⟨reason, hwrite⟩ |
      ⟨reason, s', kept, hwrite, hkept, hread⟩
    · rw [hwrite]
      exact .whole (by rw [hread]; rfl)
    · rw [hwrite]
      exact .refused rfl
    · rw [hwrite]
      exact .stopped hkept (by rw [hread]; rfl)

end ExprLang.Files.Disk
