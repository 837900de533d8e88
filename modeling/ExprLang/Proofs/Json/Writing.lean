import ExprLang.Expr.Json

/-! What is written of a structured value.

    A value has a whole text, however deep it is (`whole`). A writer with room for all of its objects
    in one another writes this text. Any other stops at the first object that lies too deep, and
    what it has written by then is a proper beginning of the whole text (`writes_write`). The
    objects of a tree lie in one another as its nodes do (`depth_toJson`). -/

namespace ExprLang

namespace Json

mutual

/-- The whole text of a value that stands at a level of nesting. -/
def whole (layout : Layout) (level : Nat) : Json → String
  | null => "null"
  | integer n => toString n
  | text s => quoted s
  | object [] => "\x7b\x7d"
  | object (f :: fs) =>
    ("\x7b" ++ layout.opening level) ++
      (wholeFields layout level f fs ++ (layout.closing level ++ "\x7d"))
termination_by v => sizeOf v

/-- The whole text of the fields of an object. -/
def wholeFields (layout : Layout) (level : Nat) : String × Json → List (String × Json) → String
  | (key, value), rest =>
    (quoted key ++ ": ") ++ (whole layout (level + 1) value ++
      match rest with
      | [] => ""
      | f :: fs => layout.between level ++ wholeFields layout level f fs)
termination_by f fs => sizeOf f + sizeOf fs

end

mutual

/-- How many objects lie in one another in a value. -/
def depth : Json → Nat
  | null | integer _ | text _ => 0
  | object fields => depthFields fields + 1

/-- How many objects lie in one another in some fields. -/
def depthFields : List (String × Json) → Nat
  | [] => 0
  | (_, value) :: rest => max value.depth (depthFields rest)

end

theorem depthFields_append (fs gs : List (String × Json)) :
    depthFields (fs ++ gs) = max (depthFields fs) (depthFields gs) := by
  induction fs with
  | nil => simp [depthFields]
  | cons f fs ih =>
    rw [List.cons_append, depthFields, depthFields, ih, Nat.max_assoc]

/-! ### Writers -/

/-- A writer adds a text if it fits, and otherwise a proper beginning of it. -/
def Writes (w : Writer Unit) (s : String) (fits : Prop) : Prop :=
  ∀ out, match w out with
    | .ok _ written => fits ∧ written = out ++ s
    | .error _ written =>
      ¬ fits ∧ ∃ cut rest, s = cut ++ rest ∧ rest ≠ "" ∧ written = out ++ cut

section Writes

variable {w w' : Writer Unit} {s s' : String} {p q : Prop}

theorem Writes.bind (h : Writes w s p) (h' : Writes w' s' q) :
    Writes (w >>= fun _ => w') (s ++ s') (p ∧ q) := by
  intro out
  have hout := h out
  change match EStateM.bind w (fun _ => w') out with
    | .ok _ written => (p ∧ q) ∧ written = out ++ (s ++ s')
    | .error _ written =>
      ¬ (p ∧ q) ∧ ∃ cut rest, s ++ s' = cut ++ rest ∧ rest ≠ "" ∧ written = out ++ cut
  unfold EStateM.bind
  cases hw : w out with
  | ok a middle =>
    rw [hw] at hout
    obtain ⟨hp, rfl⟩ := hout
    have hmiddle := h' (out ++ s)
    dsimp only
    cases hw' : w' (out ++ s) with
    | ok b written =>
      rw [hw'] at hmiddle
      obtain ⟨hq, rfl⟩ := hmiddle
      exact ⟨⟨hp, hq⟩, String.append_assoc ..⟩
    | error e written =>
      rw [hw'] at hmiddle
      obtain ⟨hq, cut, rest, rfl, hrest, rfl⟩ := hmiddle
      exact ⟨fun hpq => hq hpq.2, s ++ cut, rest, (String.append_assoc ..).symm, hrest,
        String.append_assoc ..⟩
  | error e written =>
    rw [hw] at hout
    obtain ⟨hp, cut, rest, rfl, hrest, rfl⟩ := hout
    refine ⟨fun hpq => hp hpq.1, cut, rest ++ s', String.append_assoc .., ?_, rfl⟩
    intro hempty
    exact hrest (String.append_eq_empty_iff.mp hempty).1

theorem Writes.congr (h : Writes w s p) (hpq : p ↔ q) : Writes w s q := propext hpq ▸ h

theorem writes_put (s : String) : Writes (put s) s True := fun _ => ⟨trivial, rfl⟩

theorem writes_nothing : Writes (pure ()) "" True := fun _ =>
  ⟨trivial, String.append_empty.symm⟩

theorem writes_throw (hs : s ≠ "") : Writes (throw .tooDeep) s False := fun _ =>
  ⟨id, "", s, String.empty_append.symm, hs, String.append_empty.symm⟩

end Writes

/-! ### Values -/

theorem whole_object_ne_empty (layout : Layout) (level : Nat) (fields : List (String × Json)) :
    whole layout level (object fields) ≠ "" := by
  cases fields with
  | nil => simp [whole]
  | cons f fs => simp [whole]

mutual

/-- A value is written in full if there is room for its objects, and cut off otherwise. -/
theorem writes_write (layout : Layout) (level depth : Nat) (v : Json) :
    Writes (write layout level depth v) (whole layout level v) (v.depth ≤ depth) := by
  match v with
  | null | integer _ | text _ =>
    simp only [write, whole]
    exact (writes_put _).congr (by simp [Json.depth])
  | object fields =>
    match depth, fields with
    | 0, fields =>
      rw [write]
      exact (writes_throw (whole_object_ne_empty layout level fields)).congr (by simp [Json.depth])
    | depth + 1, [] =>
      rw [write, whole]
      exact (writes_put _).congr (by simp [Json.depth, depthFields])
    | depth + 1, f :: fs =>
      rw [write, whole]
      have hfields := writes_writeFields layout level depth f fs
      refine ((writes_put _).bind (hfields.bind (writes_put _))).congr ?_
      simp [Json.depth]

theorem writes_writeFields (layout : Layout) (level depth : Nat) (f : String × Json)
    (fs : List (String × Json)) : Writes (writeFields layout level depth f fs)
      (wholeFields layout level f fs) (depthFields (f :: fs) ≤ depth) := by
  match f, fs with
  | (key, value), [] =>
    rw [writeFields, wholeFields]
    have hvalue := writes_write layout (level + 1) depth value
    refine ((writes_put _).bind (hvalue.bind writes_nothing)).congr ?_
    simp [depthFields]
  | (key, value), f :: fs =>
    rw [writeFields, wholeFields]
    have hvalue := writes_write layout (level + 1) depth value
    have hfields := writes_writeFields layout level depth f fs
    refine ((writes_put _).bind (hvalue.bind ((writes_put _).bind hfields))).congr ?_
    have hdepth : depthFields ((key, value) :: f :: fs) =
        max value.depth (depthFields (f :: fs)) := by rw [depthFields]
    rw [hdepth, Nat.max_le, true_and, true_and]

end

/-- What is written of a value is all of it, or it breaks off where the value lies too deep. -/
theorem render_cases (layout : Layout) (v : Json) :
    (v.depth ≤ maxDepth ∧ render layout v = (whole layout 0 v, true)) ∨
    (maxDepth < v.depth ∧ ∃ cut rest, whole layout 0 v = cut ++ rest ∧ rest ≠ "" ∧
      render layout v = (cut, false)) := by
  have hwrites := writes_write layout 0 maxDepth v ""
  unfold render
  cases hw : write layout 0 maxDepth v "" with
  | ok a written =>
    rw [hw] at hwrites
    obtain ⟨hdepth, rfl⟩ := hwrites
    exact .inl ⟨hdepth, by rw [String.empty_append]⟩
  | error e written =>
    rw [hw] at hwrites
    obtain ⟨hdepth, cut, rest, hcut, hrest, rfl⟩ := hwrites
    exact .inr ⟨Nat.lt_of_not_le hdepth, cut, rest, hcut, hrest, by rw [String.empty_append]⟩

end Json

namespace Expr

/-- How many nodes of a tree lie below one another. -/
def height : Expr → Nat
  | integer .. | identifier .. => 1
  | conditional _ c t e => max c.height (max t.height e.height) + 1
  | unary _ _ e => e.height + 1
  | binary _ _ l r => max l.height r.height + 1

theorem depth_ofValue (v : Value) : (Json.ofValue v).depth = 0 := by
  cases v <;> simp [Json.ofValue, Json.depth]

/-- No object lies in what a node says of itself. -/
theorem depthFields_ownFields (e : Expr) : Json.depthFields e.ownFields = 0 := by
  cases e <;> simp [ownFields, payload, Json.depthFields, Json.depth, depth_ofValue]

/-- Only the objects of its children lie in the object of a node. -/
theorem depth_jsonNode (e : Expr) (objects : List Json) : (jsonNode e objects).depth =
    Json.depthFields ((e.children.map fun c => c.1.field).zip objects) + 1 := by
  rw [jsonNode, Json.depth, Json.depthFields_append, depthFields_ownFields, Nat.zero_max]

/-- The objects of a tree lie in one another as its nodes do. -/
theorem depth_toJson (e : Expr) : e.toJson.depth = e.height := by
  induction e with
  | integer | identifier =>
    rw [toJson, depth_jsonNode]
    simp [children, Json.depthFields, height]
  | conditional p c t e ihc iht ihe =>
    rw [toJson, depth_jsonNode]
    simp [children, Json.depthFields, ihc, iht, ihe, height]
  | unary p op e ih =>
    rw [toJson, depth_jsonNode]
    simp [children, Json.depthFields, ih, height]
  | binary p op l r ihl ihr =>
    rw [toJson, depth_jsonNode]
    simp [children, Json.depthFields, ihl, ihr, height]

end Expr
end ExprLang
