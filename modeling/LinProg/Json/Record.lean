import LinProg.Json.Value

/-!
Values with named parts, and values of several kinds.

A record is written as an object, whose members come in any order, or as a list of its parts in
their order. Members with other names are passed over.

* `Reader.skip`: passing over a value of any shape.
* `Field`: a named part, with what stands for it where it is missing.
* `Members`, `Members.one`, `Members.and`: the parts of a record, read into a draft that is
  filled part by part.
* `Reader.record`, `Reader.tuple`: reading records, and records that are only written as lists.
* `Variant`, `Reader.choice`: the kinds of a value, written as a name or as an object with one
  member.
-/

namespace LinProg.Json

namespace Reader

/-! ### Objects -/

/-- Reads the colon behind the name of a member. -/
def colon : Reader Unit := do
  match ← peek with
  | some ':' => advance
  | some _ => throw .malformed
  | none => throw .unfinished

/-- Whether an object has a further member, whose name is then reached behind its opening quote. -/
def hasMember (first : Bool) : Reader Bool := do
  match ← peek with
  | some '}' => return false
  | some '"' =>
    if first then do
      advance
      return true
    else throw .malformed
  | some ',' =>
    if first then throw .malformed
    else do
      advance
      match ← peek with
      | some '"' => do
        advance
        return true
      | some _ => throw .malformed
      | none => throw .unfinished
  | some _ => throw .malformed
  | none => throw .unfinished

/-- Reads the members of an object up to its end, in at most so many steps. Each member changes the
draft that is handed on, and may itself take as many steps as are left. -/
def members {σ : Type} (member : Nat → σ → Reader σ) : Nat → Bool → σ → Reader σ
  | 0, _, _ => throw .unfinished
  | steps + 1, first, draft => do
    if ← hasMember first then
      let next ← member steps draft
      members member steps false next
    else return draft

/-- Reads a name that has to stand first in an object, behind the opening brace. -/
def firstName : Reader String := do
  match ← peek with
  | some '"' => do
    advance
    quoted
  | some _ => throw .malformed
  | none => throw .unfinished

/-- Passes over a value of any shape, in at most so many steps into it and along it. -/
def skip : Nat → Reader Unit
  | 0 => throw .unfinished
  | steps + 1 => do
    match ← peek with
    | some '[' => do
      advance
      discard (elements (skip steps) steps true)
      endList
    | some '{' => do
      advance
      members (fun _ _ => do
        skipQuoted
        colon
        skip steps) steps true ()
      advance
    | some '"' => do
      advance
      skipQuoted
    | some 'n' => word "null".toList
    | some 't' => word "true".toList
    | some 'f' => word "false".toList
    | some c => if beginsNumber c then skipLiteral else throw .malformed
    | none => throw .unfinished

end Reader

/-! ### Records -/

/-- A named part of a record. -/
structure Field (β : Type) where
  name : String
  read : Reader β
  /-- What stands for the part where an object does not have it. -/
  ifAbsent : Option β
  /-- What stands for the part where a list ends before it. -/
  ifOmitted : Option β

namespace Field

/-- A part that is always there. -/
def required {β : Type} (name : String) (read : Reader β) : Field β := ⟨name, read, none, none⟩

/-- A part that stands for something where it is missing. -/
def withDefault {β : Type} (name : String) (read : Reader β) (value : β) : Field β :=
  ⟨name, read, some value, some value⟩

/-- A part that may be missing from an object, but not from a list. -/
def optional {β : Type} (name : String) (read : Reader β) : Field (Option β) :=
  ⟨name, Reader.optional read, some none, none⟩

end Field

/-- The parts of a record: how they are read by name into a draft, and in order. -/
structure Members (σ β : Type) where
  /-- The draft without any part. -/
  start : σ
  /-- Reads the value of the part with a name into a draft, if the record has such a part. -/
  member? : String → σ → Option (Reader σ)
  /-- Reads the parts in order, the first of them at the beginning of a list or behind another. Says
  whether the next part is at the beginning. -/
  inOrder : Bool → Reader (β × Bool)
  /-- The record of a draft, if no part is missing. -/
  finish : σ → Option β

namespace Members

/-- A record of one part. A part is read once. -/
def one {β : Type} (field : Field β) : Members (Option β) β where
  start := none
  member? name draft :=
    if name = field.name then
      some do
        if draft.isSome then throw .misshapen
        Reader.colon
        return some (← field.read)
    else none
  inOrder first := do
    if ← Reader.hasElement first then return (← field.read, false)
    else match field.ifOmitted with
      | some value => return (value, first)
      | none => throw .misshapen
  finish draft := draft <|> field.ifAbsent

/-- A record with the parts of two. -/
def and {σ τ β γ : Type} (m : Members σ β) (n : Members τ γ) : Members (σ × τ) (β × γ) where
  start := (m.start, n.start)
  member? name draft :=
    match m.member? name draft.1 with
    | some reader => some (return (← reader, draft.2))
    | none => (n.member? name draft.2).map fun reader => return (draft.1, ← reader)
  inOrder first := do
    let (x, first) ← m.inOrder first
    let (y, first) ← n.inOrder first
    return ((x, y), first)
  finish draft := do return (← m.finish draft.1, ← n.finish draft.2)

end Members

namespace Reader

variable {σ β : Type}

/-- Reads a member of a record into a draft, or passes over one that the record does not have, in at
most so many steps. -/
def memberOf (m : Members σ β) (steps : Nat) (draft : σ) : Reader σ := do
  let name ← quoted
  match m.member? name draft with
  | some reader => reader
  | none => do
    colon
    skip steps
    return draft

/-- Reads the parts of a record from an object, behind its opening brace. -/
def objectOf (m : Members σ β) : Reader β := do
  let draft ← members (memberOf m) (← steps) true m.start
  match m.finish draft with
  | some value => do
    advance
    return value
  | none => throw .misshapen

/-- Reads the parts of a record from a list, behind its opening bracket. -/
def listOf (m : Members σ β) : Reader β := do
  let (value, _) ← m.inOrder true
  endList
  return value

/-- Reads a record that is only written as a list. -/
def tuple (m : Members σ β) : Reader β := do
  match ← peek with
  | some '[' => do
    advance
    listOf m
  | some _ => unexpected
  | none => throw .unfinished

/-- Reads a record. -/
def record (m : Members σ β) : Reader β := do
  match ← peek with
  | some '[' => do
    advance
    listOf m
  | some '{' => do
    advance
    objectOf m
  | some _ => unexpected
  | none => throw .unfinished

end Reader

/-! ### Kinds -/

/-- A kind of value. -/
structure Variant (β : Type) where
  name : String
  /-- The value of the kind where only the name is written. -/
  bare : Option β
  /-- Reads the value of the kind behind its name. -/
  read : Reader β

/-- A kind with a single value. -/
def Variant.unit {β : Type} (name : String) (value : β) : Variant β where
  name := name
  bare := some value
  read := do
    Reader.nothing
    return value

/-- A kind whose values have parts. -/
def Variant.ofMembers {σ β γ : Type} (name : String) (m : Members σ γ) (make : γ → β) :
    Variant β where
  name := name
  bare := none
  read := return make (← Reader.record m)

namespace Reader

/-- The kind with a name. -/
def variantNamed {β : Type} (variants : List (Variant β)) (name : String) : Reader (Variant β) :=
  match variants.find? fun v => v.name == name with
  | some v => return v
  | none => throw .misshapen

/-- Reads a value of one of several kinds: the name of the kind alone, or an object with the name as
its only member. -/
def choice {β : Type} (variants : List (Variant β)) : Reader β := do
  match ← peek with
  | some '"' => do
    advance
    match (← variantNamed variants (← quoted)).bare with
    | some value => return value
    | none => throw .misshapen
  | some '{' => do
    advance
    let variant ← variantNamed variants (← firstName)
    colon
    let value ← variant.read
    match ← peek with
    | some '}' => do
      advance
      return value
    | some _ => throw .malformed
    | none => throw .unfinished
  | some _ => throw .malformed
  | none => throw .unfinished

end Reader

end LinProg.Json
