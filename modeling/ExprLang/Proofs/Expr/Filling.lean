import Mathlib.Data.List.Basic
import ExprLang.Expr.Json
import ExprLang.Proofs.Expr.Preorder

/-! Objects that are filled by and by.

    The walk that exports a tree makes an object for each node on its turn. What an object holds in
    the end is known on that turn (`Visit.filled`): the fields of its node, and then an object for
    each child, whose turns come later. Until then the children are among the places that the walk
    has still to go to, and each goes into the object that it belongs to and behind its siblings,
    wherever the walk has been in between (`foldl_entered`). As objects hold later ones only, they can
    be put into one another from the last one on, and what comes out is what the recursion on the
    tree says (`json?_eq`). -/

namespace ExprLang.Expr

open Json

/-! ### The turns of places -/

/-- The turns of some places themselves, in a walk from them that counts on from `index`. -/
def turns (index : Nat) : List Place → List Visit
  | [] => []
  | p :: places => ⟨p, index⟩ :: turns (index + p.node.size) places

section Turns

variable {index : Nat} {places : List Place} {u v : Visit}

theorem turns_append (index : Nat) (ps qs : List Place) :
    turns index (ps ++ qs) = turns index ps ++ turns (index + Place.total ps) qs := by
  induction ps generalizing index with
  | nil => rfl
  | cons p ps ih =>
    rw [List.cons_append, turns, turns, ih, Place.total_cons, Nat.add_assoc, List.cons_append]

theorem map_toPlace_turns (index : Nat) (places : List Place) :
    (turns index places).map Visit.toPlace = places := by
  induction places generalizing index with
  | nil => rfl
  | cons p places ih => rw [turns, List.map_cons, ih]

theorem toPlace_mem (h : u ∈ turns index places) : u.toPlace ∈ places := by
  have hmem := List.mem_map_of_mem (f := Visit.toPlace) h
  rwa [map_toPlace_turns] at hmem

/-- The walk takes the turns of the places when it has been through all that lies below the places
    in front. -/
theorem getElem?_of_mem_turns (h : u ∈ turns index places) :
    index ≤ u.index ∧ (visitAll index places)[u.index - index]? = some u := by
  induction places generalizing index with
  | nil => exact absurd h List.not_mem_nil
  | cons p places ih =>
    rcases List.mem_cons.mp h with rfl | h
    · rw [visitAll_cons, Nat.sub_self]
      exact ⟨Nat.le_refl _, rfl⟩
    · obtain ⟨hle, hget⟩ := ih h
      have hlength : (visitAll index [p]).length = p.node.size := length_visitAll index [p]
      rw [← List.singleton_append, visitAll_append,
        List.getElem?_append_right (by rw [hlength]; omega), hlength, Nat.sub_sub]
      exact ⟨by omega, hget⟩

/-- The children of a node have their turns in the same walk behind it. -/
theorem getElem?_of_mem_turns_below (hv : v ∈ visitAll index places)
    (h : u ∈ turns (v.index + 1) v.below) :
    v.index < u.index ∧ (visitAll index places)[u.index - index]? = some u := by
  fun_induction visitAll index places with
  | case1 index => exact absurd hv List.not_mem_nil
  | case2 index p work w ih =>
    have hbehind : index ≤ v.index ∧ v.index < u.index ∧
        (visitAll (index + 1) (w.below ++ work))[u.index - (index + 1)]? = some u := by
      rcases List.mem_cons.mp hv with rfl | hv
      · have hmem : u ∈ turns (index + 1) (Visit.below w ++ work) := by
          rw [turns_append]
          exact List.mem_append_left _ h
        exact ⟨Nat.le_refl _, getElem?_of_mem_turns hmem⟩
      · have hle : index + 1 ≤ v.index := index_le_of_mem hv
        exact ⟨by omega, ih hv⟩
    obtain ⟨hle, hlt, hget⟩ := hbehind
    rw [show u.index - index = u.index - (index + 1) + 1 by omega, List.getElem?_cons_succ]
    exact ⟨hlt, hget⟩

end Turns

/-! ### Filling the objects -/

/-- What an object gets for one that it holds. -/
def Visit.slot (v : Visit) : String × Slot := (v.key, .object v.index)

/-- The object of a node when it is filled. -/
def Visit.filled (v : Visit) : Draft :=
  v.node.draft ++ (turns (v.index + 1) v.below).map Visit.slot

/-- The objects with that of a node put into the object of its parent. -/
def attached (objects : List Draft) (v : Visit) : List Draft :=
  match v.parent with
  | none => objects
  | some (parent, _) => objects.modify parent (Draft.put v.key (.object v.index))

/-- The objects on the turn of a node. -/
def entered (objects : List Draft) (v : Visit) : List Draft :=
  attached objects v ++ [v.node.draft]

theorem toList_enter (objects : Array Draft) (v : Visit) :
    (Visit.enter objects v).toList = entered objects.toList v := by
  rw [Visit.enter, Array.toList_push, entered, attached]
  cases v.parent with
  | none => rfl
  | some p => exact congrArg (· ++ _) Array.toList_modify

section Attached

variable {objects : List Draft} {d : Draft} {us : List Visit}

theorem length_attached (objects : List Draft) (v : Visit) :
    (attached objects v).length = objects.length := by
  unfold attached
  split
  · rfl
  · exact List.length_modify _ _ _

theorem put_of_not_mem {key : String} (h : key ∉ d.map Prod.fst) (slot : Slot) :
    d.put key slot = d ++ [(key, slot)] := by
  induction d with
  | nil => rfl
  | cons f d ih =>
    rw [List.map_cons, List.mem_cons, not_or] at h
    rw [Draft.put, if_neg (Ne.symm h.1), ih h.2, List.cons_append]

/-- What is not the last one is changed where it is. -/
theorem modify_append {α : Type} {l : List α} {i : Nat} (h : i < l.length) (f : α → α)
    (l' : List α) : (l ++ l').modify i f = l.modify i f ++ l' := by
  induction l generalizing i with
  | nil => exact absurd h (Nat.not_lt_zero i)
  | cons a l ih =>
    cases i with
    | zero => rfl
    | succ i =>
      rw [List.cons_append, List.modify_succ_cons, List.modify_succ_cons,
        ih (Nat.lt_of_succ_lt_succ h), List.cons_append]

theorem modify_concat {α : Type} (l : List α) (f : α → α) (a : α) :
    (l ++ [a]).modify l.length f = l ++ [f a] := by
  induction l with
  | nil => rfl
  | cons b l ih =>
    rw [List.cons_append, List.length_cons, List.modify_succ_cons, ih, List.cons_append]

/-- The last object does not change while others are put into earlier ones. -/
theorem foldl_attached_earlier
    (h : ∀ u ∈ us, ∀ i role, u.parent = some (i, role) → i < objects.length) :
    us.foldl attached (objects ++ [d]) = us.foldl attached objects ++ [d] := by
  induction us generalizing objects with
  | nil => rfl
  | cons u us ih =>
    obtain ⟨hu, hus⟩ := List.forall_mem_cons.mp h
    have hfirst : attached (objects ++ [d]) u = attached objects u ++ [d] := by
      unfold attached
      split
      · rfl
      · rename_i parent role hparent
        exact modify_append (hu _ _ hparent) _ _
    rw [← length_attached objects u] at hus
    rw [List.foldl_cons, List.foldl_cons, hfirst, ih hus]

/-- The objects that are put into the last one come behind its fields, if all names are different. -/
theorem foldl_attached_last (h : ∀ u ∈ us, ∃ role, u.parent = some (objects.length, role))
    (hkeys : (d.map Prod.fst ++ us.map fun u => u.key).Nodup) :
    us.foldl attached (objects ++ [d]) = objects ++ [d ++ us.map Visit.slot] := by
  induction us generalizing d with
  | nil => rw [List.map_nil, List.append_nil, List.foldl_nil]
  | cons u us ih =>
    obtain ⟨⟨role, hparent⟩, hus⟩ := List.forall_mem_cons.mp h
    have hfresh : u.key ∉ d.map Prod.fst := by
      intro hmem
      exact (List.nodup_append.mp hkeys).2.2 _ hmem _ List.mem_cons_self rfl
    have hfirst : attached (objects ++ [d]) u = objects ++ [d ++ [u.slot]] := by
      rw [attached, hparent]
      exact (modify_concat objects _ d).trans (by rw [put_of_not_mem hfresh, Visit.slot])
    rw [List.foldl_cons, hfirst, ih hus (by simpa [Visit.slot] using hkeys), List.map_cons,
      List.append_assoc, List.singleton_append]

end Attached

/-- The fields of a node have different names. -/
theorem nodup_keys (e : Expr) :
    (e.draft.map Prod.fst ++ e.children.map fun c => c.1.field).Nodup := by
  cases e <;> simp [draft, ownFields, payload, children, Role.field]

/-- The turns that the children of a node take. -/
theorem map_turns_below {β : Type} (f : Place → β) (v : Visit) :
    ((turns (v.index + 1) v.below).map fun u => f u.toPlace) =
      v.node.children.map fun c => f ⟨c.2, v.depth + 1, some (v.index, c.1)⟩ := by
  have h := congrArg (List.map f) (map_toPlace_turns (v.index + 1) v.below)
  rw [List.map_map, Visit.below, List.map_map] at h
  exact h

/-- The children of a node fill its object, which is the last one when their turns are next. -/
theorem foldl_attached_below {objects : List Draft} {v : Visit} (h : objects.length = v.index) :
    (turns (v.index + 1) v.below).foldl attached (objects ++ [v.node.draft]) =
      objects ++ [v.filled] := by
  refine foldl_attached_last (fun u hu => ?_) ?_
  · obtain ⟨c, -, hplace⟩ := Visit.mem_below.mp (toPlace_mem hu)
    rw [hplace, h]
    exact ⟨_, rfl⟩
  · rw [map_turns_below Place.key v]
    exact nodup_keys v.node

/-- The objects of a walk that has still to go to some places: the objects of these places are put
    into earlier ones, one behind the other, and all that the walk makes come behind, filled. -/
theorem foldl_entered (index : Nat) (places : List Place) : ∀ objects : List Draft,
    objects.length = index → (∀ p ∈ places, ∀ i role, p.parent = some (i, role) → i < index) →
    (visitAll index places).foldl entered objects =
      (turns index places).foldl attached objects ++ (visitAll index places).map Visit.filled := by
  fun_induction visitAll index places with
  | case1 index =>
    intro objects _ _
    rw [turns, List.foldl_nil, List.foldl_nil, List.map_nil, List.append_nil]
  | case2 index p work v ih =>
    intro objects hlength hparents
    have hattached : (attached objects v).length = index := by rw [length_attached, hlength]
    have hentered : (entered objects v).length = index + 1 := by
      rw [entered, List.length_append, hattached]
      rfl
    have hplaces : ∀ q ∈ v.below ++ work, ∀ i role, q.parent = some (i, role) → i < index + 1 := by
      intro q hq i role hparent
      rcases List.mem_append.mp hq with hq | hq
      · obtain ⟨c, -, rfl⟩ := Visit.mem_below.mp hq
        cases hparent
        exact Nat.lt_succ_self _
      · exact Nat.lt_succ_of_lt (hparents q (List.mem_cons_of_mem _ hq) i role hparent)
    have hwork : ∀ u ∈ turns (index + p.node.size) work, ∀ i role, u.parent = some (i, role) →
        i < (attached objects v).length := by
      intro u hu
      rw [hattached]
      exact hparents _ (List.mem_cons_of_mem _ (toPlace_mem hu))
    have hcount : index + 1 + Place.total v.below = index + p.node.size := by
      have htotal : Place.total v.below + 1 = p.node.size := Visit.total_below v
      omega
    -- The turns of the children are next, and the rest goes into earlier objects.
    rw [List.foldl_cons, ih _ hentered hplaces, turns_append, List.foldl_append, entered,
      foldl_attached_below hattached, hcount, foldl_attached_earlier hwork, List.map_cons,
      List.append_assoc, List.singleton_append]
    rfl

/-- When the walk over a tree has come to its end, all its objects are filled. -/
theorem toList_foldl_enter (e : Expr) :
    (e.preorder.foldl Visit.enter #[]).toList = e.preorder.map Visit.filled := by
  have hroot : ∀ p ∈ [(⟨e, 0, none⟩ : Place)], ∀ i role, p.parent = some (i, role) → i < 0 := by
    intro p hp i role hparent
    rw [List.mem_singleton.mp hp] at hparent
    cases hparent
  rw [← List.foldl_hom Array.toList fun objects v => (toList_enter objects v).symm]
  exact foldl_entered 0 [⟨e, 0, none⟩] [] rfl hroot

/-! ### Putting the objects into one another -/

/-- The fields of the object of a tree. -/
def fields (e : Expr) : List (String × Json) :=
  e.ownFields ++ e.children.map fun c => (c.1.field, c.2.toJson)

theorem toJson_eq_object (e : Expr) : e.toJson = .object e.fields := by
  cases e <;> rfl

theorem mapM_eq_some {α β : Type} {f : α → Option β} {g : α → β} {l : List α}
    (h : ∀ a ∈ l, f a = some (g a)) : l.mapM f = some (l.map g) := by
  induction l with
  | nil => rfl
  | cons a l ih =>
    obtain ⟨ha, hl⟩ := List.forall_mem_cons.mp h
    rw [List.mapM_cons, ha, ih hl]
    rfl

/-- A filled object has the fields of the tree, if the objects that it holds are done. -/
theorem mapM_filled {count : Nat} {done : Array Json} {v : Visit}
    (h : ∀ u ∈ turns (v.index + 1) v.below, done[count - 1 - u.index]? = some u.node.toJson) :
    (v.filled.mapM fun f => (f.2.value? count done).map fun w => (f.1, w)) =
      some v.node.fields := by
  have hown : (v.node.draft.mapM fun f => (f.2.value? count done).map fun w => (f.1, w)) =
      some v.node.ownFields := by
    rw [draft, List.mapM_map]
    exact (mapM_eq_some fun f _ => rfl).trans (congrArg some (List.map_id _))
  have hheld : (((turns (v.index + 1) v.below).map Visit.slot).mapM fun f =>
      (f.2.value? count done).map fun w => (f.1, w)) =
        some ((turns (v.index + 1) v.below).map fun u => (u.key, u.node.toJson)) := by
    rw [List.mapM_map]
    refine mapM_eq_some fun u hu => ?_
    exact congrArg (Option.map fun w => (u.key, w)) (h u hu)
  rw [Visit.filled, List.mapM_append, hown, hheld,
    map_turns_below (fun p => (p.key, p.node.toJson)) v]
  rfl

/-- Counted from the end of a list, the last ones are found in a list of them in reverse. -/
theorem getElem?_reverse_of_le {α : Type} {front back : List α} {i : Nat} (h : front.length ≤ i)
    (hi : i < (front ++ back).length) :
    back.reverse[(front ++ back).length - 1 - i]? = (front ++ back)[i]? := by
  rw [List.length_append] at hi ⊢
  rw [List.getElem?_reverse (by omega), List.getElem?_append_right h]
  congr 1
  omega

theorem index_eq_length {e : Expr} {front back : List Visit} {v : Visit}
    (h : front ++ v :: back = e.preorder) : v.index = front.length := by
  have hget : (List.range e.size)[front.length]? = some v.index := by
    rw [← index_preorder, ← h]
    simp
  obtain ⟨hlt, heq⟩ := List.getElem?_eq_some_iff.mp hget
  rw [List.getElem_range] at heq
  exact heq.symm

/-- An object that a node holds is done when those behind the node are. -/
theorem getElem?_done {e : Expr} {front back : List Visit} {v u : Visit} {done : Array Json}
    (h : front ++ v :: back = e.preorder)
    (hdone : done.toList = (back.map fun v => v.node.toJson).reverse)
    (hu : u ∈ turns (v.index + 1) v.below) :
    done[e.size - 1 - u.index]? = some u.node.toJson := by
  have hv : v ∈ e.preorder := h ▸ List.mem_append_right _ List.mem_cons_self
  obtain ⟨hlt, hget⟩ := getElem?_of_mem_turns_below hv hu
  have hsplit : (front ++ [v]) ++ back = e.preorder := by rw [← h, List.append_assoc]; rfl
  have hsize : e.size = ((front ++ [v]) ++ back).length := by rw [hsplit, length_preorder]
  have hbehind : (front ++ [v]).length ≤ u.index := by
    rw [List.length_append, ← index_eq_length h]
    exact hlt
  have hfound : ((front ++ [v]) ++ back)[u.index]? = some u := hsplit ▸ hget
  rw [← Array.getElem?_toList, hdone, ← List.map_reverse, List.getElem?_map, hsize,
    getElem?_reverse_of_le hbehind (List.getElem?_eq_some_iff.mp hfound).1, hfound]
  rfl

/-- The objects of a walk are put into one another, from the last one on. Those of the turns in
    `earlier`, the last one first, are still to be finished. -/
theorem finish_filled {e : Expr} {earlier later : List Visit} {done : Array Json}
    (hsplit : earlier.reverse ++ later = e.preorder)
    (hdone : done.toList = (later.map fun v => v.node.toJson).reverse) :
    ∃ all, finish e.size (earlier.map Visit.filled) done = some all ∧
      all.toList = (e.preorder.map fun v => v.node.toJson).reverse := by
  induction earlier generalizing later done with
  | nil => exact ⟨done, rfl, by rw [hdone, ← hsplit]; rfl⟩
  | cons v earlier ih =>
    rw [List.reverse_cons, List.append_assoc, List.singleton_append] at hsplit
    have hpush : (done.push v.node.toJson).toList =
        ((v :: later).map fun v => v.node.toJson).reverse := by
      rw [Array.toList_push, hdone, List.map_cons, List.reverse_cons]
    obtain ⟨all, hfinish, hall⟩ := ih hsplit hpush
    refine ⟨all, ?_, hall⟩
    rw [List.map_cons, finish, mapM_filled fun u hu => getElem?_done hsplit hdone hu]
    rw [toJson_eq_object] at hfinish
    exact hfinish

/-- The walk makes what the recursion says. -/
theorem json?_eq (e : Expr) : e.json? = some e.toJson := by
  have hsize : (e.preorder.foldl Visit.enter #[]).size = e.size := by
    rw [← Array.length_toList, toList_foldl_enter, List.length_map, length_preorder]
  have hall : e.preorder.reverse.reverse ++ [] = e.preorder := by
    rw [List.reverse_reverse, List.append_nil]
  have hnone : (#[] : Array Json).toList = ([].map fun v : Visit => v.node.toJson).reverse := rfl
  obtain ⟨all, hfinish, hobjects⟩ := finish_filled hall hnone
  have hback : all.back? = some e.toJson := by
    rw [← Array.getLast?_toList, hobjects, preorder_eq, List.map_cons, List.reverse_cons,
      List.getLast?_concat]
  rw [json?, hsize, toList_foldl_enter, ← List.map_reverse, hfinish]
  exact hback

end ExprLang.Expr
