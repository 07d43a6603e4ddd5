import Mathlib
import LinProg.Coords

/-!
Vectors under checked access.

* `Coords.tabulate_congr`, `Coords.tabulate_coord`: a vector is told by its length and its entries.
* `Coords.entry_eq_ok`, `store_tabulate`, `slice_eq_ok`, `overwrite_tabulate`: within the vector,
  checked access succeeds, and writing changes the entries that were asked for.
-/

namespace LinProg.Coords

variable {α : Type} [Scalar α] {v : Coords α} {f g : ℕ → α} {n i start count : ℕ}

/-- The entries of two vectors, one after the other. -/
lemma coord_append (v w : Coords α) (i : ℕ) :
    coord (v ++ w) i = if i < v.size then v.coord i else w.coord (i - v.size) := by
  rw [coord_eq_getElem?, coord_eq_getElem?, coord_eq_getElem?, Array.getElem?_append]
  split <;> rfl

lemma coord_setIfInBounds (v : Coords α) (k : ℕ) (x : α) (hi : i < v.size) :
    coord (v.setIfInBounds k x) i = if k = i then x else v.coord i := by
  rw [coord_eq_getElem?, coord_eq_getElem?, Array.getElem?_setIfInBounds]
  split_ifs with h
  · rfl
  · omega
  · rfl

omit [Scalar α] in
lemma tabulate_congr (h : ∀ i < n, f i = g i) : tabulate n f = tabulate n g :=
  congrArg Array.ofFn (funext fun i : Fin n => h i i.isLt)

lemma tabulate_coord (h : v.size = n) : tabulate n v.coord = v := by
  refine ext_coord ((size_tabulate n _).trans h.symm) fun i hi => ?_
  rw [size_tabulate] at hi
  rw [coord_tabulate, if_pos hi]

/-- An entry of the vector is read. -/
lemma entry_eq_ok (h : i < v.size) : v.entry i = .ok (v.coord i) := by
  rw [entry, coord_eq_getElem?, Array.getElem?_eq_getElem h]
  rfl

lemma entry_tabulate (h : i < n) : (tabulate n f).entry i = .ok (f i) := by
  rw [entry_eq_ok (by rwa [size_tabulate]), coord_tabulate, if_pos h]

omit [Scalar α] in
lemma store_eq_ok (h : i < v.size) {x : α} : v.store i x = .ok (v.setIfInBounds i x) := by
  rw [store, decide_eq_true h]
  rfl

/-- Writing what is made of an entry changes the entry. -/
lemma store_eq_modify (h : i < v.size) (x : α → α) :
    v.store i (x (v.coord i)) = .ok (v.modify i x) := by
  rw [store_eq_ok h]
  refine congrArg Except.ok (ext_coord (by simp) fun k hk => ?_)
  have hk : k < v.size := by simpa using hk
  rw [coord_setIfInBounds v i _ hk, coord_modify]
  grind

/-- Writing an entry of the vector changes it alone. -/
lemma store_tabulate (h : i < n) (x : α) :
    (tabulate n f).store i x = .ok (tabulate n (Function.update f i x)) := by
  have hwritten : (tabulate n f).setIfInBounds i x = tabulate n (Function.update f i x) := by
    refine ext_coord (by simp) fun k hk => ?_
    have hk : k < n := by simpa using hk
    rw [coord_setIfInBounds _ _ _ (by simpa using hk), coord_tabulate, coord_tabulate, if_pos hk,
      if_pos hk, Function.update_apply]
    grind
  rw [store_eq_ok (by rwa [size_tabulate]), hwritten]

/-- A part of the vector is its entries from where it starts. -/
lemma slice_eq_ok (h : start + count ≤ v.size) :
    v.slice start (start + count) = .ok (tabulate count fun k => v.coord (start + k)) := by
  have hcheck : (decide (start ≤ start + count) && decide (start + count ≤ v.size)) = true := by
    simpa using h
  have hpart : v.extract start (start + count) = tabulate count fun k => v.coord (start + k) := by
    have hsize : (v.extract start (start + count)).size = count := by
      rw [Array.size_extract, min_eq_left h, Nat.add_sub_cancel_left]
    refine ext_coord (hsize.trans (size_tabulate count _).symm) fun k hk => ?_
    rw [hsize] at hk
    rw [coord_tabulate, if_pos hk, coord_eq_getElem?, coord_eq_getElem?, Array.getElem?_extract,
      if_pos (by rwa [min_eq_left h, Nat.add_sub_cancel_left])]
  rw [slice, hcheck, hpart]
  rfl

/-- Writing a part of the vector changes the entries of this part alone. -/
lemma overwrite_tabulate {cells : Coords α} (h : start + cells.size ≤ n) :
    (tabulate n f).overwrite start cells = .ok (tabulate n fun k =>
      if start ≤ k ∧ k < start + cells.size then cells.coord (k - start) else f k) := by
  have hcheck : decide (start + cells.size ≤ (tabulate n f).size) = true := by simpa using h
  rw [overwrite, hcheck, size_tabulate]
  refine congrArg Except.ok (tabulate_congr fun k hk => ?_)
  rw [coord_tabulate, if_pos hk]

end LinProg.Coords
