import ClassLoom.Descriptor
import ClassLoom.Error

/-!
# Reading descriptors

`FieldType.scan` takes one type off the front of a text; a descriptor is such types with
nothing left over. Every scan leaves less text than it was given, which is what makes the
scan of a parameter list end.
-/

namespace ClassLoom

/-! ## Types

Every type but the primitive ones starts with a character of its own, so one character tells how to
go on. -/

namespace FieldType

/-- The type at the front of a text, and the text behind it. -/
def scan : List Char → Option (FieldType × List Char)
  | [] => none
  | c :: rest =>
    if c = 'L' then
      let name := rest.takeWhile (· ≠ ';')
      match rest.dropWhile (· ≠ ';') with
      | _ :: tail => if name.isEmpty then none else some (object (String.ofList name), tail)
      | [] => none
    else if c = '[' then (scan rest).map fun (component, tail) => (array component, tail)
    else (BaseType.ofCode? c).map fun type => (base type, rest)

/-- A type takes at least one character. The scan of a parameter list ends by this. -/
theorem length_lt_of_scan {cs rest : List Char} {t : FieldType} (h : scan cs = some (t, rest)) :
    rest.length < cs.length := by
  -- A case for every branch of the scan. A class takes its mark and what is in front of the
  -- semicolon, an array its bracket and, by induction, its component.
  fun_induction scan cs generalizing t rest with
  | case1 | case2 | case4 => cases h
  | case3 tail _ _ _ hsplit =>
    simp only [Option.some.injEq, Prod.mk.injEq] at h
    obtain ⟨_, rfl⟩ := h
    have hle := (List.dropWhile_suffix (l := tail) (· ≠ ';')).length_le
    rw [hsplit] at hle
    simp only [List.length_cons] at hle ⊢
    omega
  | case5 tail _ ih =>
    obtain ⟨_, hscan, hpair⟩ := Option.map_eq_some_iff.1 h
    simp only [Prod.mk.injEq] at hpair
    obtain ⟨_, rfl⟩ := hpair
    have := ih hscan
    simp only [List.length_cons]
    omega
  | case6 =>
    obtain ⟨_, _, hpair⟩ := Option.map_eq_some_iff.1 h
    simp only [Prod.mk.injEq] at hpair
    obtain ⟨_, rfl⟩ := hpair
    simp

/-- Reads a field descriptor. -/
def parse (text : String) : Except ClassError FieldType :=
  match scan text.toList with
  | some (t, []) => .ok t
  | _ => .error (.badDescriptor text)

end FieldType

/-! ## Methods -/

namespace MethodDescriptor

/-- The types up to the closing parenthesis, after the types `done`, last one first, and the
text behind the parenthesis. -/
def scanParams (done : List FieldType) (cs : List Char) : Option (List FieldType × List Char) :=
  match cs with
  | ')' :: rest => some (done.reverse, rest)
  | cs =>
    match _h : FieldType.scan cs with
    | some (t, rest) => scanParams (t :: done) rest
    | none => none
termination_by cs.length
decreasing_by exact FieldType.length_lt_of_scan _h

/-- The result type that is spelled by the whole text. -/
def scanResult : List Char → Option ReturnType
  | ['V'] => some .void
  | cs =>
    match FieldType.scan cs with
    | some (t, []) => some (.value t)
    | _ => none

/-- The method descriptor that is spelled by the whole text. -/
def scan : List Char → Option MethodDescriptor
  | '(' :: rest => do
    let (params, tail) ← scanParams [] rest
    let result ← scanResult tail
    return { params, result }
  | _ => none

/-- Reads a method descriptor. -/
def parse (text : String) : Except ClassError MethodDescriptor :=
  match scan text.toList with
  | some d => .ok d
  | none => .error (.badDescriptor text)

end MethodDescriptor
end ClassLoom
