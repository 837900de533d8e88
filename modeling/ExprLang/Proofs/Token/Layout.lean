import ExprLang.Proofs.Token.Tokenization

/-! Layout.

    Lexemes are laid out when they are written one behind the other with gaps in front of them. A
    gap is made of blanks and of comments with their newlines, and one that keeps two lexemes apart
    begins with a blank. A `Layout` can be built in no other way. Reading undoes it: whatever stands
    in the gaps, there is one token for each lexeme, at the position behind the characters in front
    of it (`tokensOf_layout`). -/

namespace ExprLang.Lexical

open Text Lexer TokenStream

/-! ### Gaps -/

/-- What a gap is made of. -/
inductive Filler where
  | blank (c : Char) (h : isBlank c = true)
  | comment (line : List Char) (h : '\n' ∉ line)

namespace Filler

/-- The characters of a filler. -/
def text : Filler → List Char
  | blank c _ => [c]
  | comment line _ => '/' :: '/' :: (line ++ ['\n'])

/-- The characters of a gap. -/
def texts (gap : List Filler) : List Char := gap.flatMap text

end Filler

/-- A gap begins with a blank, so that it keeps what stands in front of it apart from what stands
    behind it. -/
def Separates : List Filler → Prop
  | .blank _ _ :: _ => True
  | _ => False

/-- Nothing stands here, or a blank. -/
def Apart (rest : List Char) : Prop := ∀ c, rest.head? = some c → isBlank c = true

theorem Trivia.append_texts {cs rest : List Char} (h : Trivia cs rest) (gap : List Filler) :
    Trivia (Filler.texts gap ++ cs) rest := by
  induction gap with
  | nil => exact h
  | cons f gap ih =>
    have htexts : Filler.texts (f :: gap) ++ cs = f.text ++ (Filler.texts gap ++ cs) := by
      simp [Filler.texts]
    rw [htexts]
    cases f with
    | blank c hc => exact .blank hc ih
    | comment line hline =>
      have hopen : (Filler.comment line hline).text ++ (Filler.texts gap ++ cs) =
          '/' :: '/' :: (line ++ '\n' :: (Filler.texts gap ++ cs)) := by simp [Filler.text]
      rw [hopen]
      exact .comment hline ih

theorem trivia_texts (gap : List Filler) (rest : List Char) : Trivia (Filler.texts gap) rest := by
  have h := (Trivia.nil rest).append_texts gap
  rwa [List.append_nil] at h

theorem Separates.apart {gap : List Filler} (h : Separates gap) (cs : List Char) :
    Apart (Filler.texts gap ++ cs) := by
  match gap, h with
  | .blank c hblank :: gap, _ =>
    rintro d hd
    obtain rfl := Option.some.inj hd
    exact hblank

namespace Apart

variable {rest : List Char}

theorem head?_ne (h : Apart rest) {c : Char} (hc : isBlank c = false) : rest.head? ≠ some c := by
  intro hhead
  rw [h c hhead] at hc
  cases hc

/-- Neither a word nor a number goes on with a blank. -/
theorem breaks (h : Apart rest) : Breaks rest := by
  intro d hd
  cases hident : isIdentChar d with
  | false => rfl
  | true => exact absurd hd (h.head?_ne (isBlank_of_isIdentChar hident))

end Apart

/-! ### Lexemes -/

/-- A lexeme as it is written. A number may have leading zeros. -/
inductive Item where
  | keyword (k : Keyword)
  | name (w : String) (h : IsWord w) (hfree : Keyword.ofText? w = none)
  | symbol (s : Symbol)
  | number (ds : List Char) (h : IsDigits ds) (hlong : ds.length ≤ maxDigits)
      (hle : decimalValue ds ≤ Word64.maxValue)

namespace Item

/-- The characters of a lexeme. -/
def text : Item → List Char
  | keyword k => k.text.toList
  | name w _ _ => w.toList
  | symbol s => s.text.toList
  | number ds _ _ _ => ds

/-- What kind of token a lexeme is. -/
def kind : Item → TokenKind
  | keyword k => .keyword k
  | name _ _ _ => .identifier
  | symbol s => .symbol s
  | number _ _ _ _ => .integer

/-- What a lexeme is worth. -/
def value : Item → Value
  | keyword k => .text k.text
  | name w _ _ => .text w
  | symbol s => .text s.text
  | number ds _ _ _ => .number (decimalValue ds)

theorem length_le (i : Item) (hdigits : IsDigits i.text) : i.text.length ≤ maxDigits := by
  cases i with
  | keyword k => exact absurd hdigits (not_isDigits_of_isWord k.isWord_text)
  | name w hw _ => exact absurd hdigits (not_isDigits_of_isWord hw)
  | symbol s => exact absurd hdigits s.not_isDigits_text
  | number ds _ hlong _ => exact hlong

/-- A lexeme is read in full, and not beyond its end, where a blank or nothing stands behind it. -/
theorem munch (i : Item) {rest : List Char} (hrest : Apart rest) :
    Munch i.text rest i.kind i.value := by
  cases i with
  | keyword k =>
    have hmunch := munch_word k.isWord_text hrest.breaks
    rwa [k.ofWord_text] at hmunch
  | name w hw hfree =>
    have hmunch := munch_word hw hrest.breaks
    rwa [TokenKind.ofWord, hfree] at hmunch
  | symbol s =>
    have hscan := s.scan?_text (hrest.head?_ne (by decide))
    obtain ⟨more, heq, hmunch⟩ := munch_symbol hscan
    obtain rfl := List.append_cancel_left heq
    exact hmunch
  | number ds hds _ hle => exact munch_number hds hrest.breaks hle

/-- No lexeme with a blank behind it begins a comment. -/
theorem significant (i : Item) {rest : List Char} (hrest : Apart rest) :
    Significant (i.text ++ rest) := by
  cases i with
  | keyword k => exact significant_of_isWord k.isWord_text rest
  | name w hw _ => exact significant_of_isWord hw rest
  | symbol s => exact significant_symbol s (hrest.head?_ne isBlank_slash)
  | number ds hds _ _ => exact significant_of_isDigits hds rest

end Item

/-! ### Lexemes in a text -/

/-- A lexeme and the gap in front of it. -/
structure Piece where
  gap : List Filler
  item : Item

namespace Piece

/-- The characters of some pieces, one behind the other. -/
def texts (ps : List Piece) : List Char := ps.flatMap fun p => Filler.texts p.gap ++ p.item.text

theorem texts_cons_append (p : Piece) (ps : List Piece) (rest : List Char) :
    texts (p :: ps) ++ rest = Filler.texts p.gap ++ (p.item.text ++ (texts ps ++ rest)) := by
  simp [texts]

/-- The tokens of some pieces that stand behind the characters `before`. -/
def tokens (before : List Char) : List Piece → List Token
  | [] => []
  | p :: ps =>
    let front := before ++ Filler.texts p.gap
    ⟨p.item.kind, p.item.value, .behind front⟩ :: tokens (front ++ p.item.text) ps

/-- Pieces that are kept apart from what stands in front of them begin with a blank. -/
theorem apart_texts {ps : List Piece} (hps : ∀ p ∈ ps, Separates p.gap) {rest : List Char}
    (hrest : Apart rest) : Apart (texts ps ++ rest) := by
  cases ps with
  | nil => exact hrest
  | cons p ps =>
    rw [texts_cons_append]
    exact (hps p List.mem_cons_self).apart _

/-- The tokens of pieces that are kept apart are taken one by one. What stands behind must be apart
    from the last of them, if there is one. -/
theorem takes (before : List Char) {ps : List Piece} (hps : ∀ p ∈ ps.tail, Separates p.gap)
    {rest : List Char} (hrest : ps ≠ [] → Apart rest) :
    Takes ⟨.between before (texts ps ++ rest), none⟩ (tokens before ps)
      ⟨.between (before ++ texts ps) rest, none⟩ := by
  induction ps generalizing before with
  | nil =>
    rw [texts, List.flatMap_nil, List.append_nil]
    exact .nil _
  | cons p ps ih =>
    have hend : Apart rest := hrest (List.cons_ne_nil p ps)
    have hbehind : Apart (texts ps ++ rest) := apart_texts hps hend
    have hskips : Skips (Filler.texts p.gap) (p.item.text ++ (texts ps ++ rest)) :=
      ⟨trivia_texts p.gap _, p.item.significant hbehind⟩
    have hfirst := takes_of_munch before hskips (p.item.munch hbehind) p.item.length_le
    have hmore := ih (before ++ Filler.texts p.gap ++ p.item.text)
      (fun q hq => hps q (List.mem_of_mem_tail hq)) fun _ => hend
    have htexts : before ++ Filler.texts p.gap ++ p.item.text ++ texts ps =
        before ++ texts (p :: ps) := by simp [texts]
    rw [htexts] at hmore
    rw [texts_cons_append]
    exact hfirst.append hmore

end Piece

/-- Lexemes that are laid out as a text. Any gap may stand in front of the first. The text ends with
    a gap too, if anything stands behind its last lexeme, and this gap may run on into a comment
    without a newline. Where there is no lexeme, the gap is the whole text, and any will do. -/
structure Layout where
  pieces : List Piece
  separate : ∀ p ∈ pieces.tail, Separates p.gap
  trail : List Filler
  unfinished : Option { line : List Char // '\n' ∉ line }
  trailing : pieces ≠ [] → trail = [] ∧ unfinished = none ∨ Separates trail

namespace Layout

/-- What stands behind the last lexeme. -/
def ending (l : Layout) : List Char :=
  Filler.texts l.trail ++
    match l.unfinished with
    | none => []
    | some line => '/' :: '/' :: line.val

/-- The text of a layout. -/
def text (l : Layout) : String := String.ofList (Piece.texts l.pieces ++ l.ending)

/-- The tokens of a layout, without the end of the input. -/
def tokens (l : Layout) : List Token := Piece.tokens [] l.pieces

theorem apart_ending (l : Layout) (h : l.pieces ≠ []) : Apart l.ending := by
  rcases l.trailing h with ⟨htrail, hnone⟩ | hblank
  · rw [ending, htrail, hnone]
    exact nofun
  · exact hblank.apart _

theorem skips_ending (l : Layout) : Skips l.ending [] := by
  refine ⟨?_, significant_nil⟩
  unfold ending
  cases l.unfinished with
  | none => exact (Trivia.nil []).append_texts l.trail
  | some line => exact (Trivia.lastComment line.property).append_texts l.trail

/-- Reading undoes layout: there is one token for each lexeme, in the order of the lexemes, of the
    kind and with the value of the lexeme and at the position behind what stands in front of it,
    and then the end of the input. -/
theorem tokensOf_layout (l : Layout) : tokensOf l.text =
    .ok (l.tokens ++ [⟨.endOfInput, .absent, .behind l.text.toList⟩]) := by
  have htakes := Piece.takes [] l.separate l.apart_ending
  obtain ⟨c, hc, htok, herr⟩ := htakes.run rfl
  injection hc with hc _
  subst hc
  obtain ⟨hend, hnone⟩ := run_of_skips (Piece.texts l.pieces) l.skips_ending
  rw [tokensOf_eq_ok_iff, Cursor.ofText_eq_between, text, String.toList_ofList]
  rw [List.nil_append] at htok herr
  rw [htok, herr, hend, hnone]
  exact ⟨rfl, rfl⟩

end Layout
end ExprLang.Lexical
