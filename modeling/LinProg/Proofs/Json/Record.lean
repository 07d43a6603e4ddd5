import LinProg.Json.Record
import LinProg.Proofs.Json.Value

/-!
Records and values of several kinds that are written are read back.

* `Members.Fills`: some members, read one after another, take a draft to another one.
* `Members.Written`: members that are those of a record with a given value. `written_one` and
  `written_cons` follow the parts of the record.
* `Members.Stops`: members one of which is refused, after others that are read. `stops_here` and
  `stops_later` follow the parts of the record.
* `Reader.reads_record`, `Reader.reads_choice_bare`, `Reader.reads_choice_with`: a record, the name
  of a kind, and a kind with its value are read where they are written.
* `Reader.refuses_record`: a record is refused where one of its members is.
-/

namespace LinProg.Json

variable {β γ σ τ : Type} {x : β} {y : γ} {text : List Char} {name : String}

/-- The written form of a member. -/
def writeMember (entry : String × List Char) : List Char := quote entry.1 ++ ':' :: entry.2

lemma writeObject_eq (ms : List (String × List Char)) (rest : List Char) :
    writeObject ms ++ rest = '{' :: (commaSeparated (ms.map writeMember) ++ '}' :: rest) := by
  rw [writeObject, List.append_assoc, List.cons_append, List.singleton_append]
  rfl

namespace Reader

/-- The rest of a name is read, with what is behind its closing quote left. -/
lemma quoted_name (name : String) (rest : List Char) :
    quoted (name.toList.flatMap escaped ++ '"' :: rest) = .ok (name, rest) := by
  rw [quoted, unquote_escaped]
  simp [bind, Except.bind, pure, Except.pure]

/-- A member without the quote in front of its name. -/
lemma writeMember_append (entry : String × List Char) (rest : List Char) :
    writeMember entry ++ rest =
      '"' :: (entry.1.toList.flatMap escaped ++ '"' :: ':' :: (entry.2 ++ rest)) := by
  simp [writeMember, quote]

end Reader

/-! ### Members of a record -/

@[simp] lemma Field.required_name (name : String) (read : Reader β) :
    (Field.required name read).name = name := rfl

@[simp] lemma Field.optional_name (name : String) (read : Reader β) :
    (Field.optional name read).name = name := rfl

namespace Members

open Reader

variable {m : Members σ β} {n : Members τ γ} {s s' s'' : σ} {t t' : τ}
  {ms ms' : List (String × List Char)}

/-- The members take the draft to another one, each in front of whatever closes it. -/
inductive Fills (m : Members σ β) : σ → List (String × List Char) → σ → Prop where
  | nil (s : σ) : Fills m s [] s
  | cons {s next last : σ} {name : String} {value : List Char} {ms : List (String × List Char)}
      {reader : Reader σ} (hreader : m.member? name s = some reader)
      (hrun : ∀ {rest}, Closes rest → reader (':' :: (value ++ rest)) = .ok (next, rest))
      (h : Fills m next ms last) : Fills m s ((name, value) :: ms) last

lemma Fills.append (h : Fills m s ms s') (h' : Fills m s' ms' s'') : Fills m s (ms ++ ms') s'' := by
  induction h with
  | nil s => exact h'
  | cons hreader hrun _ ih => exact .cons hreader hrun (ih h')

/-- The record has no part with the name. -/
def Lacks (m : Members σ β) (name : String) : Prop := ∀ s, m.member? name s = none

/-- What fills the draft of the first record fills its part of the draft of both. -/
lemma Fills.left (n : Members τ γ) (h : Fills m s ms s') (t : τ) :
    Fills (m.and n) (s, t) ms (s', t) := by
  induction h with
  | nil s => exact .nil (s, t)
  | @cons s next last name value ms reader hreader hrun _ ih =>
      have hmember : (m.and n).member? name (s, t) = some (return (← reader, t)) := by
        simp [Members.and, hreader]
      refine .cons hmember (fun hrest => ?_) ih
      rw [bind_run (hrun hrest)]
      rfl

/-- What fills the draft of the second record fills its part of the draft of both, where the first
one has no such parts. -/
lemma Fills.right (m : Members σ β) (h : Fills n t ms t') (hlacks : ∀ entry ∈ ms, m.Lacks entry.1)
    (s : σ) : Fills (m.and n) (s, t) ms (s, t') := by
  induction h with
  | nil t => exact .nil (s, t)
  | @cons t next last name value ms reader hreader hrun _ ih =>
      have hnone : m.member? name s = none := hlacks (name, value) (by simp) s
      have hmember : (m.and n).member? name (s, t) = some (return (s, ← reader)) := by
        simp [Members.and, hreader, hnone]
      have hlacks : ∀ entry ∈ ms, m.Lacks entry.1 := fun entry hentry =>
        hlacks entry (List.mem_cons_of_mem _ hentry)
      refine .cons hmember (fun hrest => ?_) (ih hlacks)
      rw [bind_run (hrun hrest)]
      rfl

/-- The members are those of the record with the given value. -/
def Written (m : Members σ β) (ms : List (String × List Char)) (x : β) : Prop :=
  ∃ s, Fills m m.start ms s ∧ m.finish s = some x

/-- A record of one part is written where the part is. -/
lemma written_one (field : Field β) (h : Reads field.read text x) :
    Written (one field) [(field.name, text)] x := by
  have hmember : (one field).member? field.name none = some do
      colon
      return some (← field.read) := by
    simp [one]
  refine ⟨some x, .cons hmember (fun {rest} hrest => ?_) (.nil _), rfl⟩
  have hcolon : colon (':' :: (text ++ rest)) = .ok ((), text ++ rest) := rfl
  rw [bind_run hcolon, bind_run (h.run hrest)]
  rfl

/-- A record of one part has no part with another name. -/
lemma lacks_one (field : Field β) (hname : field.name ∉ ms.map Prod.fst) :
    ∀ entry ∈ ms, (one field).Lacks entry.1 := by
  intro entry hentry _
  refine if_neg fun (heq : entry.1 = field.name) => hname ?_
  rw [← heq]
  exact List.mem_map_of_mem hentry

/-- A part in front of other ones is written in front of them. -/
lemma written_cons (field : Field β) (h : Reads field.read text x) (hn : Written n ms y)
    (hname : field.name ∉ ms.map Prod.fst) :
    Written ((one field).and n) ((field.name, text) :: ms) (x, y) := by
  obtain ⟨s, hfills, hfinish⟩ := written_one field h
  obtain ⟨t, hfills', hfinish'⟩ := hn
  have hlacks := lacks_one field hname
  refine ⟨(s, t), (hfills.left n _).append (hfills'.right (one field) hlacks s), ?_⟩
  simp [Members.and, hfinish, hfinish']

/-! ### Members that are refused -/

variable {problem : Problem}

/-- The members fill the draft up to one that is refused, whatever the members behind it are. -/
inductive Stops (m : Members σ β) (problem : Problem) : σ → List (String × List Char) → Prop where
  | here {s : σ} {name : String} {value : List Char} {reader : Reader σ}
      (hreader : m.member? name s = some reader)
      (hrun : ∀ {rest}, Closes rest → reader (':' :: (value ++ rest)) = .error problem)
      (ms : List (String × List Char)) : Stops m problem s ((name, value) :: ms)
  | later {s next : σ} {name : String} {value : List Char} {ms : List (String × List Char)}
      {reader : Reader σ} (hreader : m.member? name s = some reader)
      (hrun : ∀ {rest}, Closes rest → reader (':' :: (value ++ rest)) = .ok (next, rest))
      (h : Stops m problem next ms) : Stops m problem s ((name, value) :: ms)

lemma Fills.stops {ms' : List (String × List Char)} (h : Fills m s ms s')
    (h' : Stops m problem s' ms') : Stops m problem s (ms ++ ms') := by
  induction h with
  | nil s => exact h'
  | cons hreader hrun _ ih => exact .later hreader hrun (ih h')

/-- A record of one part is refused where the part is. -/
lemma stops_one (field : Field β) (h : Refuses field.read text problem)
    (ms : List (String × List Char)) : Stops (one field) problem none ((field.name, text) :: ms) := by
  have hmember : (one field).member? field.name none = some do
      colon
      return some (← field.read) := by
    simp [one]
  refine .here hmember (fun {rest} hrest => ?_) ms
  have hcolon : colon (':' :: (text ++ rest)) = .ok ((), text ++ rest) := rfl
  rw [bind_run hcolon, bind_error (h.run hrest)]

/-- What stops the first record stops both. -/
lemma Stops.left (n : Members τ γ) (h : Stops m problem s ms) (t : τ) :
    Stops (m.and n) problem (s, t) ms := by
  induction h with
  | @here s name value reader hreader hrun ms =>
      have hmember : (m.and n).member? name (s, t) = some (return (← reader, t)) := by
        simp [Members.and, hreader]
      exact .here hmember (fun hrest => bind_error (hrun hrest)) ms
  | @later s next name value ms reader hreader hrun _ ih =>
      have hmember : (m.and n).member? name (s, t) = some (return (← reader, t)) := by
        simp [Members.and, hreader]
      refine .later hmember (fun hrest => ?_) ih
      rw [bind_run (hrun hrest)]
      rfl

/-- What stops the second record stops both, where the first one has no such parts. -/
lemma Stops.right (m : Members σ β) {n : Members τ γ} {t : τ} (h : Stops n problem t ms)
    (hlacks : ∀ entry ∈ ms, m.Lacks entry.1) (s : σ) : Stops (m.and n) problem (s, t) ms := by
  induction h with
  | @here t name value reader hreader hrun ms =>
      have hnone : m.member? name s = none := hlacks (name, value) (by simp) s
      have hmember : (m.and n).member? name (s, t) = some (return (s, ← reader)) := by
        simp [Members.and, hreader, hnone]
      exact .here hmember (fun hrest => bind_error (hrun hrest)) ms
  | @later t next name value ms reader hreader hrun _ ih =>
      have hnone : m.member? name s = none := hlacks (name, value) (by simp) s
      have hmember : (m.and n).member? name (s, t) = some (return (s, ← reader)) := by
        simp [Members.and, hreader, hnone]
      have hlacks : ∀ entry ∈ ms, m.Lacks entry.1 := fun entry hentry =>
        hlacks entry (List.mem_cons_of_mem _ hentry)
      refine .later hmember (fun hrest => ?_) (ih hlacks)
      rw [bind_run (hrun hrest)]
      rfl

/-- A part in front of others is refused. -/
lemma stops_here (field : Field β) (n : Members τ γ) (h : Refuses field.read text problem)
    (ms : List (String × List Char)) :
    Stops ((one field).and n) problem ((one field).and n).start ((field.name, text) :: ms) :=
  (stops_one field h ms).left n n.start

/-- A part behind one that is read is refused. -/
lemma stops_later (field : Field β) {n : Members τ γ} (h : Reads field.read text x)
    (hn : Stops n problem n.start ms) (hname : field.name ∉ ms.map Prod.fst) :
    Stops ((one field).and n) problem ((one field).and n).start ((field.name, text) :: ms) := by
  obtain ⟨s, hfills, -⟩ := written_one field h
  exact (hfills.left n n.start).stops (hn.right (one field) (lacks_one field hname) s)

end Members

/-! ### Records -/

namespace Reader

open Members

variable {m : Members σ β} {s s' : σ} {ms : List (String × List Char)} {limit : ℕ}

/-- The first member of an object is reached at its name. -/
lemma hasMember_first (entry : String × List Char) (rest : List Char) :
    hasMember true (writeMember entry ++ rest) =
      .ok (true, entry.1.toList.flatMap escaped ++ '"' :: ':' :: (entry.2 ++ rest)) := by
  rw [writeMember_append, hasMember, bind_run (peek_cons rfl _)]
  rfl

/-- A further member is reached at its name behind a comma. -/
lemma hasMember_next (entry : String × List Char) (rest : List Char) :
    hasMember false (',' :: (writeMember entry ++ rest)) =
      .ok (true, entry.1.toList.flatMap escaped ++ '"' :: ':' :: (entry.2 ++ rest)) := by
  rw [writeMember_append, hasMember, bind_run (peek_cons rfl _)]
  simp only [↓Char.isValue, Bool.false_eq_true, ↓reduceIte]
  rw [bind_run (advance_cons _ _), bind_run (peek_cons rfl _)]
  rfl

/-- A member that the record has is read by its name. -/
lemma memberOf_eq {reader : Reader σ} (hreader : m.member? name s = some reader) (limit : ℕ)
    (text : List Char) :
    memberOf m limit s (name.toList.flatMap escaped ++ '"' :: text) = reader text := by
  rw [memberOf, bind_run (quoted_name name _), hreader]

/-- The members behind others are read up to the end of the object. -/
lemma members_writeBehind (h : Fills m s ms s') (hlimit : ms.length < limit) (rest : List Char) :
    members (memberOf m) limit false s (writeBehind writeMember ms ++ '}' :: rest) =
      .ok (s', '}' :: rest) := by
  induction h generalizing limit with
  | nil s =>
      cases limit with
      | zero => exact absurd hlimit (Nat.lt_irrefl 0)
      | succ limit => rfl
  | @cons s next last name value ms reader hreader hrun _ ih =>
      cases limit with
      | zero => exact absurd hlimit (Nat.not_lt_zero _)
      | succ limit =>
          have hms := ih (Nat.lt_of_succ_lt_succ hlimit)
          have htext : writeBehind writeMember ((name, value) :: ms) ++ '}' :: rest =
              ',' :: (writeMember (name, value) ++
                (writeBehind writeMember ms ++ '}' :: rest)) := by
            simp [writeBehind]
          have hmember := (memberOf_eq hreader limit _).trans
            (hrun (closes_writeBehind (.inr rfl) writeMember ms rest))
          rw [htext, members, bind_run (hasMember_next _ _), if_pos rfl, bind_run hmember, hms]

/-- The members of an object are read up to its end. -/
lemma members_commaSeparated (h : Fills m s ms s') (hlimit : ms.length < limit) (rest : List Char) :
    members (memberOf m) limit true s (commaSeparated (ms.map writeMember) ++ '}' :: rest) =
      .ok (s', '}' :: rest) := by
  cases limit with
  | zero => exact absurd hlimit (Nat.not_lt_zero _)
  | succ limit =>
      cases h with
      | nil => rfl
      | @cons _ next _ name value ms reader hreader hrun h =>
          have hms := members_writeBehind h (Nat.lt_of_succ_lt_succ hlimit) rest
          have hmember := (memberOf_eq hreader limit _).trans
            (hrun (closes_writeBehind (.inr rfl) writeMember ms rest))
          rw [commaSeparated_map_cons, List.append_assoc, members, bind_run (hasMember_first _ _),
            if_pos rfl, bind_run hmember, hms]

/-- A record is read where its members are written. -/
theorem reads_record (h : Written m ms x) : Reads (record m) (writeObject ms) x where
  begins := ⟨'{', _, rfl, rfl, by decide⟩
  run {rest} _ := by
    obtain ⟨s, hfills, hfinish⟩ := h
    have hmembers := members_commaSeparated hfills
      (length_lt_of_commaSeparated writeMember ms '}' rest) rest
    rw [writeObject_eq, record, bind_run (peek_cons rfl _)]
    simp only
    rw [bind_run (advance_cons _ _), objectOf, bind_run (steps_run _), bind_run hmembers, hfinish]
    rfl

variable {problem : Problem}

/-- The members behind others are read up to the one that is refused. -/
lemma members_writeBehind_error (h : Stops m problem s ms) (hlimit : ms.length < limit)
    (rest : List Char) :
    members (memberOf m) limit false s (writeBehind writeMember ms ++ '}' :: rest) =
      .error problem := by
  have htext : ∀ (entry : String × List Char) (ms : List (String × List Char)),
      writeBehind writeMember (entry :: ms) ++ '}' :: rest =
        ',' :: (writeMember entry ++ (writeBehind writeMember ms ++ '}' :: rest)) := by
    intro entry ms
    simp [writeBehind]
  induction h generalizing limit with
  | @here s name value reader hreader hrun ms =>
      cases limit with
      | zero => exact absurd hlimit (Nat.not_lt_zero _)
      | succ limit =>
          have hmember := (memberOf_eq hreader limit _).trans
            (hrun (closes_writeBehind (.inr rfl) writeMember ms rest))
          rw [htext, members, bind_run (hasMember_next _ _), if_pos rfl, bind_error hmember]
  | @later s next name value ms reader hreader hrun _ ih =>
      cases limit with
      | zero => exact absurd hlimit (Nat.not_lt_zero _)
      | succ limit =>
          have hmember := (memberOf_eq hreader limit _).trans
            (hrun (closes_writeBehind (.inr rfl) writeMember ms rest))
          rw [htext, members, bind_run (hasMember_next _ _), if_pos rfl, bind_run hmember,
            ih (Nat.lt_of_succ_lt_succ hlimit)]

/-- The members of an object are read up to the one that is refused. -/
lemma members_commaSeparated_error (h : Stops m problem s ms) (hlimit : ms.length < limit)
    (rest : List Char) :
    members (memberOf m) limit true s (commaSeparated (ms.map writeMember) ++ '}' :: rest) =
      .error problem := by
  cases limit with
  | zero => exact absurd hlimit (Nat.not_lt_zero _)
  | succ limit =>
      cases h with
      | @here s name value reader hreader hrun ms =>
          have hmember := (memberOf_eq hreader limit _).trans
            (hrun (closes_writeBehind (.inr rfl) writeMember ms rest))
          rw [commaSeparated_map_cons, List.append_assoc, members, bind_run (hasMember_first _ _),
            if_pos rfl, bind_error hmember]
      | @later s next name value ms reader hreader hrun h =>
          have hms := members_writeBehind_error h (Nat.lt_of_succ_lt_succ hlimit) rest
          have hmember := (memberOf_eq hreader limit _).trans
            (hrun (closes_writeBehind (.inr rfl) writeMember ms rest))
          rw [commaSeparated_map_cons, List.append_assoc, members, bind_run (hasMember_first _ _),
            if_pos rfl, bind_run hmember, hms]

/-- A record is refused where one of its members is. -/
theorem refuses_record (h : Stops m problem m.start ms) :
    Refuses (record m) (writeObject ms) problem where
  run {rest} _ := by
    have hmembers := members_commaSeparated_error h
      (length_lt_of_commaSeparated writeMember ms '}' rest) rest
    rw [writeObject_eq, record, bind_run (peek_cons rfl _)]
    simp only
    rw [bind_run (advance_cons _ _), objectOf, bind_run (steps_run _), bind_error hmembers]

/-! ### Kinds -/

variable {variants : List (Variant β)} {v : Variant β}

/-- The kind is the first one with its name. -/
def Chosen (variants : List (Variant β)) (v : Variant β) : Prop :=
  variants.find? (fun other => other.name == v.name) = some v

lemma variantNamed_run (h : Chosen variants v) (text : List Char) :
    variantNamed variants v.name text = .ok (v, text) := by
  rw [variantNamed, h]
  rfl

/-- A kind with a single value is read where its name is written. -/
theorem reads_choice_bare (h : Chosen variants v) (hbare : v.bare = some x) :
    Reads (choice variants) (quote v.name) x where
  begins := ⟨'"', _, rfl, rfl, by decide⟩
  run {rest} _ := by
    rw [quote, List.append_assoc, List.singleton_append, List.cons_append, choice,
      bind_run (peek_cons rfl _)]
    simp only
    rw [bind_run (advance_cons _ _), bind_run (quoted_name _ _), bind_run (variantNamed_run h _),
      hbare]
    rfl

/-- A kind with parts is read where it is written as the only member of an object. -/
theorem reads_choice_with (h : Chosen variants v) (hread : Reads v.read text x) :
    Reads (choice variants) (writeObject [(v.name, text)]) x where
  begins := ⟨'{', _, rfl, rfl, by decide⟩
  run {rest} _ := by
    have hname : ∀ behind, firstName (writeMember (v.name, text) ++ behind) =
        .ok (v.name, ':' :: (text ++ behind)) := by
      intro behind
      rw [writeMember_append, firstName, bind_run (peek_cons rfl _)]
      simp only
      rw [bind_run (advance_cons _ _), quoted_name]
    have hcolon : ∀ behind, colon (':' :: behind) = .ok ((), behind) := fun behind => rfl
    have hcloses : Closes ('}' :: rest) := closes_cons (.inr (.inr rfl))
    have hvalue := hread.run hcloses
    rw [writeObject_eq, choice, bind_run (peek_cons rfl _)]
    simp only [List.map_cons, List.map_nil, commaSeparated]
    rw [bind_run (advance_cons _ _), bind_run (hname _), bind_run (variantNamed_run h _),
      bind_run (hcolon _), bind_run hvalue, bind_run (peek_cons rfl _)]
    rfl

end Reader

end LinProg.Json
