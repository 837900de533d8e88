import ExprLang.Token.Basic
import ExprLang.Text.Blank
import ExprLang.Text.Identifier

/-! What a text begins with.

    A text begins with a symbol, with a word or with a run of digits, or with none of them, and its
    first character says which. Words and runs of digits go on as long as they can; what they are
    is settled by what stands behind them (`run_unique`). -/

namespace ExprLang

namespace Text

/-- A word: a letter or an underscore, then letters, underscores and digits. It may be reserved. -/
def IsWord (s : String) : Prop :=
  ∃ d ds, s.toList = d :: ds ∧ isIdentStart d = true ∧ ∀ c ∈ ds, isIdentChar c = true

theorem toNat_of_isIdentChar {c : Char} (h : isIdentChar c = true) :
    (48 ≤ c.toNat ∧ c.toNat ≤ 57) ∨ (65 ≤ c.toNat ∧ c.toNat ≤ 90) ∨ c.toNat = 95 ∨
      (97 ≤ c.toNat ∧ c.toNat ≤ 122) := by
  delta isIdentChar Char.isAlphanum Char.isAlpha Char.isUpper Char.isLower Char.isDigit at h
  simp only [Bool.or_eq_true, Bool.and_eq_true, decide_eq_true_eq, beq_iff_eq, ge_iff_le,
    UInt32.le_iff_toNat_le] at h
  change (((65 ≤ c.toNat ∧ c.toNat ≤ 90) ∨ (97 ≤ c.toNat ∧ c.toNat ≤ 122)) ∨
    (48 ≤ c.toNat ∧ c.toNat ≤ 57)) ∨ c = '_' at h
  rcases h with ((h | h) | h) | rfl
  · exact .inr (.inl h)
  · exact .inr (.inr (.inr h))
  · exact .inl h
  · exact .inr (.inr (.inl rfl))

theorem isBlank_of_isIdentChar {c : Char} (h : isIdentChar c = true) : isBlank c = false := by
  have hc := toNat_of_isIdentChar h
  simp only [isBlank, blankRanges, List.any_cons, List.any_nil, Bool.or_eq_false_iff,
    Bool.and_eq_false_iff, decide_eq_false_iff_not, and_true]
  omega

theorem isDigit_of_isIdentChar_eq_false {c : Char} (h : isIdentChar c = false) :
    c.isDigit = false := by
  cases hd : c.isDigit with
  | false => rfl
  | true =>
    rw [isIdentChar_of_isDigit hd] at h
    cases h

theorem isIdentStart_of_isIdentChar_eq_false {c : Char} (h : isIdentChar c = false) :
    isIdentStart c = false := by
  cases hd : isIdentStart c with
  | false => rfl
  | true =>
    rw [isIdentChar_of_isIdentStart hd] at h
    cases h

theorem isDigit_of_isIdentStart {c : Char} (h : isIdentStart c = true) : c.isDigit = false := by
  delta isIdentStart Char.isAlpha Char.isUpper Char.isLower at h
  simp only [Bool.or_eq_true, Bool.and_eq_true, decide_eq_true_eq, beq_iff_eq, ge_iff_le,
    UInt32.le_iff_toNat_le] at h
  change ((65 ≤ c.toNat ∧ c.toNat ≤ 90) ∨ (97 ≤ c.toNat ∧ c.toNat ≤ 122)) ∨ c = '_' at h
  simp only [Char.isDigit, Bool.and_eq_false_iff, decide_eq_false_iff_not, ge_iff_le,
    UInt32.le_iff_toNat_le]
  change ¬ 48 ≤ c.toNat ∨ ¬ c.toNat ≤ 57
  rcases h with h | rfl
  · omega
  · decide

/-- A run of characters of one kind ends where another kind begins. -/
theorem takeWhile_append_eq {p : Char → Bool} {cs rest : List Char} (hcs : ∀ c ∈ cs, p c = true)
    (hrest : ∀ d, rest.head? = some d → p d = false) : (cs ++ rest).takeWhile p = cs := by
  rw [List.takeWhile_append_of_pos hcs]
  cases rest with
  | nil => simp
  | cons d ds => simp [hrest d rfl]

/-- A run of digits. -/
def IsDigits (ds : List Char) : Prop := ds ≠ [] ∧ ∀ d ∈ ds, d.isDigit = true

/-- Neither a word nor a number goes on here. -/
def Breaks (rest : List Char) : Prop := ∀ d, rest.head? = some d → isIdentChar d = false

/-- No run of digits in a text is longer than `n`. -/
def DigitRunsWithin (n : Nat) (cs : List Char) : Prop :=
  ∀ ds, ds <:+: cs → (∀ d ∈ ds, d.isDigit = true) → ds.length ≤ n

theorem digitRunsWithin_of_length_le {n : Nat} {cs : List Char} (h : cs.length ≤ n) :
    DigitRunsWithin n cs := fun _ hds _ => Nat.le_trans hds.length_le h

theorem DigitRunsWithin.of_isInfix {n : Nat} {cs ds : List Char} (h : DigitRunsWithin n cs)
    (hds : ds <:+: cs) : DigitRunsWithin n ds := fun es hes => h es (hes.trans hds)

theorem isIdentChar_eq_false {c : Char} (hs : isIdentStart c = false) (hd : c.isDigit = false) :
    isIdentChar c = false := by
  simp only [isIdentStart, isIdentChar, Char.isAlphanum, Bool.or_eq_false_iff] at *
  exact ⟨⟨hs.1, hd⟩, hs.2⟩

theorem breaks_nil : Breaks [] := nofun

/-- A run of characters of one kind is told by what stands behind it. -/
theorem run_unique {p : Char → Bool} {cs ds rest rest' : List Char} (h : cs ++ rest = ds ++ rest')
    (hcs : ∀ c ∈ cs, p c = true) (hds : ∀ d ∈ ds, p d = true)
    (hrest : ∀ d, rest.head? = some d → p d = false)
    (hrest' : ∀ d, rest'.head? = some d → p d = false) : cs = ds ∧ rest = rest' := by
  have hrun : cs = ds := by
    rw [← takeWhile_append_eq hcs hrest, h, takeWhile_append_eq hds hrest']
  subst hrun
  exact ⟨rfl, List.append_cancel_left h⟩

/-- A run of characters of one kind is the longest one that begins there. -/
theorem length_le_of_run {p : Char → Bool} {cs ds rest : List Char} (h : ds <+: cs ++ rest)
    (hds : ∀ d ∈ ds, p d = true) (hrest : ∀ d, rest.head? = some d → p d = false) :
    ds.length ≤ cs.length := by
  rcases List.prefix_or_prefix_of_prefix h (List.prefix_append cs rest) with h' | ⟨es, rfl⟩
  · exact h'.length_le
  · cases es with
    | nil => simp
    | cons e es =>
      obtain ⟨us, hus⟩ := h
      rw [List.append_assoc, List.append_cancel_left_eq, List.cons_append] at hus
      have hp := hds e (by simp)
      rw [hrest e (by rw [← hus]; rfl)] at hp
      cases hp

/-- Every text begins with a run of characters of one kind, which may be empty. -/
theorem exists_run (p : Char → Bool) (cs : List Char) : ∃ run rest, cs = run ++ rest ∧
    (∀ c ∈ run, p c = true) ∧ ∀ d, rest.head? = some d → p d = false := by
  refine ⟨cs.takeWhile p, cs.dropWhile p, List.takeWhile_append_dropWhile.symm,
    fun c hc => List.all_eq_true.mp List.all_takeWhile c hc, fun d hd => ?_⟩
  have h := List.head?_dropWhile_not p cs
  rw [hd] at h
  simpa using h

/-- A letter or an underscore begins a word, which goes on until something breaks it off. -/
theorem exists_word {d : Char} (hd : isIdentStart d = true) (cs : List Char) :
    ∃ w rest, d :: cs = w.toList ++ rest ∧ IsWord w ∧ Breaks rest := by
  obtain ⟨more, rest, rfl, hmore, hrest⟩ := exists_run isIdentChar cs
  exact ⟨String.ofList (d :: more), rest, by simp, ⟨d, more, String.toList_ofList, hd, hmore⟩, hrest⟩

/-- A digit begins a number, which goes on until something else comes. -/
theorem exists_digits {d : Char} (hd : d.isDigit = true) (cs : List Char) :
    ∃ ds rest, d :: cs = ds ++ rest ∧ IsDigits ds ∧
      ∀ c, rest.head? = some c → c.isDigit = false := by
  obtain ⟨more, rest, rfl, hmore, hrest⟩ := exists_run Char.isDigit cs
  refine ⟨d :: more, rest, rfl, ⟨List.cons_ne_nil d more, fun c hc => ?_⟩, hrest⟩
  rcases List.mem_cons.mp hc with rfl | hc
  · exact hd
  · exact hmore c hc

/-- What stands behind a run of digits begins a word or breaks the run off. -/
theorem word_or_breaks {rest : List Char} (h : ∀ c, rest.head? = some c → c.isDigit = false) :
    (∃ w more, rest = w.toList ++ more ∧ IsWord w ∧ Breaks more) ∨ Breaks rest := by
  cases rest with
  | nil => exact .inr breaks_nil
  | cons c cs =>
    cases hc : isIdentStart c with
    | true =>
      obtain ⟨w, more, heq, hw, hmore⟩ := exists_word hc cs
      exact .inl ⟨w, more, heq, hw, hmore⟩
    | false =>
      refine .inr fun d hd => ?_
      obtain rfl := Option.some.inj hd
      exact isIdentChar_eq_false hc (h c rfl)

theorem Breaks.isDigit {rest : List Char} (h : Breaks rest) (d : Char)
    (hd : rest.head? = some d) : d.isDigit = false :=
  isDigit_of_isIdentChar_eq_false (h d hd)

/-- A run of digits ends where a word begins. -/
theorem isDigit_head_of_isWord {w : String} (hw : IsWord w) (rest : List Char) (d : Char)
    (hd : (w.toList ++ rest).head? = some d) : d.isDigit = false := by
  obtain ⟨c, cs, hcs, hc, _⟩ := hw
  rw [hcs] at hd
  obtain rfl := Option.some.inj hd
  exact isDigit_of_isIdentStart hc

theorem IsWord.isIdentChar {w : String} (hw : IsWord w) : ∀ c ∈ w.toList, isIdentChar c = true := by
  obtain ⟨d, ds, hds, hd, hmore⟩ := hw
  intro c hc
  rw [hds] at hc
  rcases List.mem_cons.mp hc with rfl | hc
  · exact isIdentChar_of_isIdentStart hd
  · exact hmore c hc

theorem not_isDigits_of_isWord {w : String} (hw : IsWord w) : ¬ IsDigits w.toList := by
  obtain ⟨d, ds, hds, hd, _⟩ := hw
  intro hdigits
  have hdigit := hdigits.2 d (by simp [hds])
  rw [isDigit_of_isIdentStart hd] at hdigit
  cases hdigit

end Text

namespace Keyword

theorem isWord_text (k : Keyword) : Text.IsWord k.text := by
  cases k <;> exact ⟨_, _, rfl, by decide, List.all_eq_true.mp (by decide)⟩

theorem ofWord_text (k : Keyword) : TokenKind.ofWord k.text = .keyword k := by cases k <;> decide

end Keyword

namespace Symbol

/-- No symbol begins with a letter, an underscore or a digit. -/
theorem scan?_of_isIdentChar {d : Char} (h : Text.isIdentChar d = true) (ds : List Char) :
    scan? (d :: ds) = none := by
  unfold scan?
  split
  all_goals first
    | rfl
    | rename_i hcs
      injection hcs with hd
      subst hd
      exact absurd h (by decide)

theorem exists_text_eq_cons (s : Symbol) : ∃ d ds, s.text.toList = d :: ds ∧
    Text.isBlank d = false ∧ (d = '/' → ds = []) := by
  cases s <;> exact ⟨_, _, rfl, by decide, by decide⟩

/-- A symbol is found in front of anything but an equals sign, which might make it longer. -/
theorem scan?_text (s : Symbol) {rest : List Char} (h : rest.head? ≠ some '=') :
    scan? (s.text.toList ++ rest) = some s := by
  have hrest (ds : List Char) : rest ≠ '=' :: ds := fun hds => h (by rw [hds]; rfl)
  cases s with
  | bang | assign =>
    cases rest with
    | nil => rfl
    | cons d ds => simp [text, scan?]
  | _ => rfl

theorem prefix_of_scan? {s : Symbol} {cs : List Char} (h : scan? cs = some s) :
    s.text.toList <+: cs := by
  unfold scan? at h
  split at h
  all_goals first
    | (obtain rfl := Option.some.inj h; exact ⟨_, rfl⟩)
    | cases h

theorem scan?_ne_none {s : Symbol} {cs : List Char} (h : s.text.toList <+: cs) :
    scan? cs ≠ none := by
  obtain ⟨rest, rfl⟩ := h
  by_cases hrest : rest.head? = some '='
  · obtain ⟨tail, rfl⟩ := List.head?_eq_some_iff.mp hrest
    cases s <;> exact nofun
  · rw [s.scan?_text hrest]
    exact nofun

/-- No symbol that begins here is longer than the one that is found. -/
theorem length_le_of_scan? {s s' : Symbol} {cs : List Char} (h : scan? cs = some s)
    (h' : s'.text.toList <+: cs) : s'.text.toList.length ≤ s.text.toList.length := by
  have hs : 1 ≤ s.text.toList.length := by cases s <;> decide
  obtain ⟨rest, rfl⟩ := h'
  cases s' with
  | equal | notEqual | andAnd | orOr =>
    obtain rfl := Option.some.inj h
    exact Nat.le_refl _
  | _ => exact hs

theorem scan?_toList (s : Symbol) : scan? s.text.toList = some s := by cases s <;> rfl

theorem text_injective {s s' : Symbol} (h : s.text.toList = s'.text.toList) : s = s' := by
  have hs := s.scan?_toList
  rw [h, s'.scan?_toList] at hs
  exact (Option.some.inj hs).symm

theorem isIdentChar_head (s : Symbol) {d : Char} {ds : List Char} (h : s.text.toList = d :: ds) :
    Text.isIdentChar d = false := by
  cases hd : Text.isIdentChar d with
  | false => rfl
  | true =>
    have hs := s.scan?_toList
    rw [h, scan?_of_isIdentChar hd] at hs
    cases hs

theorem not_isDigits_text (s : Symbol) : ¬ Text.IsDigits s.text.toList := by
  obtain ⟨d, ds, hds, _⟩ := s.exists_text_eq_cons
  have hd := s.isIdentChar_head hds
  intro hdigits
  rw [Text.isIdentChar_of_isDigit (hdigits.2 d (by simp [hds]))] at hd
  cases hd

end Symbol
end ExprLang
