import Mathlib.Data.List.OfFn
import ClassLoom.Annotation
import ClassLoom.Proofs.ConstantPool.Growth
import ClassLoom.Proofs.ReadsBack

/-!
# The grammar of annotations

An annotation is read over by its structure. This module says what that structure is: trees of
element values (`ElementValue`), annotations over them (`AnnotationForm`), and the bytes of both. A
tree has no lengths in its bytes but the counts of its tables, so that nothing but the whole grammar
tells where a value ends.

* `ElementValue.readsBack`, `ElementValue.exists_of_skipValue`: exactly the bytes of one value are
  read over;
* `AnnotationForm.read_bytes`, `AnnotationForm.exists_of_read`: the same for one annotation;
* `parseAll_eq_ok_iff`: what the payload of an annotation table is.
-/

namespace ClassLoom

/-! ## Tables

Tables are counted by a word. The count is kept with the entries here, so that every table there is
can be written. -/

/-- A table: a count, and that many entries. -/
def tableBytes (count : UInt16) (entry : Fin count.toNat → Bytes) : Bytes :=
  Bytes.word16 count ++ (List.ofFn entry).flatten

section Table

variable {α β : Type} {count : UInt16} {p : Reader α} {entry : Fin count.toNat → Bytes}

/-- **Tables read back** if all their entries do. -/
theorem readsBack_tableBytes {item : Fin count.toNat → α}
    (h : ∀ i, ReadsBack p (entry i) (item i)) :
    ReadsBack (Reader.table p) (tableBytes count entry) (List.ofFn item) := by
  have hentries : List.Forall₂ (ReadsBack p) (List.ofFn entry) (List.ofFn item) := by
    rw [List.forall₂_iff_get]
    refine ⟨by simp, fun i hi hi' => ?_⟩
    rw [List.get_ofFn, List.get_ofFn]
    exact h _
  have hitems := ReadsBack.times hentries
  rw [List.length_ofFn] at hitems
  exact (ReadsBack.word16 count).bind hitems

/-- An entry is no longer than its table. -/
theorem length_le_tableBytes (entry : Fin count.toNat → Bytes) (i : Fin count.toNat) :
    (entry i).length + 2 ≤ (tableBytes count entry).length := by
  have hmem : entry i ∈ List.ofFn entry := List.mem_ofFn.2 ⟨i, rfl⟩
  have hsublist := List.sublist_flatten_of_mem hmem
  have hle := hsublist.length_le
  rw [tableBytes, List.length_append, Bytes.length_word16]
  omega

/-- Entries in a list are those of a table of their number. -/
theorem tableBytes_get (write : β → Bytes) {entries : List β} (h : entries.length = count.toNat) :
    tableBytes count (fun i => write (entries.get (i.cast h.symm)))
      = Bytes.word16 count ++ entries.flatMap write := by
  have hentries : List.ofFn (fun i : Fin count.toNat => write (entries.get (i.cast h.symm)))
      = entries.map write := by
    refine List.ext_getElem (by simp [h]) fun i hi hi' => ?_
    simp
  rw [tableBytes, hentries, List.flatMap_def]

/-- Where every item is read from what is written for something that it stands in a relation to, a
row of items is. -/
theorem exists_of_times {R : β → α → Prop} {write : β → Bytes}
    (hp : ∀ bs a rest, p bs = .ok (a, rest) → ∃ b, R b a ∧ bs = write b ++ rest) {n : Nat}
    {bs rest : Bytes} {items : List α} (h : Reader.times n p bs = .ok (items, rest)) :
    ∃ forms, List.Forall₂ R forms items ∧ bs = forms.flatMap write ++ rest := by
  induction n generalizing bs items with
  | zero =>
    cases h
    exact ⟨[], .nil, rfl⟩
  | succ n ih =>
    obtain ⟨a, mid, more, ha, hmore, rfl⟩ := Reader.times_succ_eq_ok.1 h
    obtain ⟨b, hb, rfl⟩ := hp bs a mid ha
    obtain ⟨forms, hforms, rfl⟩ := ih hmore
    exact ⟨b :: forms, .cons hb hforms, by rw [List.flatMap_cons, List.append_assoc]⟩

/-- So are the entries of a table. -/
theorem exists_of_table {R : β → α → Prop} {write : β → Bytes}
    (hp : ∀ bs a rest, p bs = .ok (a, rest) → ∃ b, R b a ∧ bs = write b ++ rest)
    {bs rest : Bytes} {items : List α} (h : Reader.table p bs = .ok (items, rest)) :
    ∃ (count : UInt16) (forms : List β), forms.length = count.toNat
      ∧ List.Forall₂ R forms items ∧ bs = Bytes.word16 count ++ forms.flatMap write ++ rest := by
  obtain ⟨count, mid, hcount, hitems⟩ := Reader.bind_eq_ok.1 h
  obtain ⟨forms, hforms, rfl⟩ := exists_of_times hp hitems
  refine ⟨count, forms, ?_, hforms, ?_⟩
  · rw [hforms.length_eq, Reader.length_of_times hitems]
  · rw [Reader.word16_eq_ok.1 hcount, List.append_assoc]

end Table

/-! ## Element values

Values may be nested as deep as the bytes allow. The reader is bounded by the number of bytes, which
is more than the depth. -/

/-- The kinds of constants that element values can be. -/
inductive ElementValue.Kind where
  | byte
  | char
  | double
  | float
  | int
  | long
  | short
  | boolean
  | string
  | classInfo
  deriving DecidableEq, Repr

/-- The letter that a constant of the kind begins with. -/
def ElementValue.Kind.letter : Kind → Char
  | byte => 'B'
  | char => 'C'
  | double => 'D'
  | float => 'F'
  | int => 'I'
  | long => 'J'
  | short => 'S'
  | boolean => 'Z'
  | string => 's'
  | classInfo => 'c'

/-- An element value. The number of values in a table is part of it, so that every tree can be
written. -/
inductive ElementValue where
  /-- A constant of the pool. -/
  | constant (kind : ElementValue.Kind) (index : UInt16)
  /-- A constant of an enumeration: its type, and its name. -/
  | enumConstant (type name : UInt16)
  /-- An annotation in an annotation: its type, and its values with their names. -/
  | nested (type count : UInt16) (names : Fin count.toNat → UInt16)
    (values : Fin count.toNat → ElementValue)
  /-- Values in a row. -/
  | array (count : UInt16) (values : Fin count.toNat → ElementValue)

/-- Written values with their names in front. -/
def namedBytes (count : UInt16) (names : Fin count.toNat → UInt16)
    (values : Fin count.toNat → Bytes) : Bytes :=
  tableBytes count fun i => Bytes.word16 (names i) ++ values i

open Annotation (skipValue)

namespace ElementValue

/-- The byte of a letter. -/
def tag (letter : Char) : UInt8 := UInt8.ofNat letter.toNat

/-- The written form. -/
def bytes : ElementValue → Bytes
  | constant kind index => tag kind.letter :: Bytes.word16 index
  | enumConstant type name => tag 'e' :: (Bytes.word16 type ++ Bytes.word16 name)
  | nested type count names values =>
    tag '@' :: (Bytes.word16 type ++ namedBytes count names fun i => (values i).bytes)
  | array count values => tag '[' :: tableBytes count fun i => (values i).bytes

/-- The tags of constants are the letters of their kinds. -/
theorem isConstantTag_iff {b : UInt8} :
    Annotation.isConstantTag b = true ↔ ∃ kind : Kind, b = tag kind.letter := by
  have hkinds : Annotation.isConstantTag b = [Kind.byte, .char, .double, .float, .int, .long,
      .short, .boolean, .string, .classInfo].any (fun kind => kind.letter.toNat = b.toNat) := rfl
  constructor
  · intro h
    rw [hkinds] at h
    obtain ⟨kind, _, hb⟩ := List.any_eq_true.1 h
    exact ⟨kind, by rw [tag, of_decide_eq_true hb, UInt8.ofNat_toNat]⟩
  · rintro ⟨kind, rfl⟩
    cases kind <;> rfl

theorem eq_tag {b : UInt8} {letter : Char} (h : b.toNat = letter.toNat) : b = tag letter := by
  rw [tag, ← h, UInt8.ofNat_toNat]

/-- The reader of a value with its name in front. -/
def skipNamed (depth : Nat) : Reader Unit := do
  let _ ← Reader.word16
  skipValue depth

/-! ### Values that are read over

A value that follows the grammar is read over whole, whatever stands behind it. How deep it is
nested is bounded by the number of its bytes, so the depth that the reader is given is always
enough. -/

/-- What is read over behind the tag that a value begins with. -/
theorem readsBack_of_tag {depth : Nat} {letter : Char} {p : Reader Unit} {behind : Bytes}
    (h : ∀ bs, skipValue (depth + 1) (tag letter :: bs) = p bs)
    (hp : ReadsBack p behind ()) :
    ReadsBack (skipValue (depth + 1)) (tag letter :: behind) () := by
  intro rest
  rw [List.cons_append, h, hp]

/-- Values with their names are read over if the values are. -/
theorem readsBack_named {depth : Nat} {count : UInt16} {names : Fin count.toNat → UInt16}
    {values : Fin count.toNat → ElementValue}
    (h : ∀ i, ReadsBack (skipValue depth) (values i).bytes ()) :
    ReadsBack (Reader.table (skipNamed depth))
      (namedBytes count names fun i => (values i).bytes)
      (List.ofFn fun _ : Fin count.toNat => ()) :=
  readsBack_tableBytes fun i => (ReadsBack.word16 (names i)).bind (h i)

/-- A value is shorter than the annotation that it is in. -/
theorem length_le_namedBytes {count : UInt16} (names : Fin count.toNat → UInt16)
    (values : Fin count.toNat → Bytes) (i : Fin count.toNat) :
    (values i).length ≤ (namedBytes count names values).length := by
  have hle := length_le_tableBytes (fun i => Bytes.word16 (names i) ++ values i) i
  rw [List.length_append] at hle
  unfold namedBytes
  omega

/-- **A value is read over** where the depth is above the number of its bytes. Each level takes a
byte at least. -/
theorem readsBack (v : ElementValue) {depth : Nat} (hdepth : v.bytes.length ≤ depth) :
    ReadsBack (skipValue (depth + 1)) v.bytes () := by
  -- On the value: what is in it is shorter by its tag, and is read with a smaller depth.
  induction v generalizing depth with
  | constant kind index =>
    refine readsBack_of_tag (fun bs => ?_) ((ReadsBack.word16 index).map (f := fun _ => ()))
    cases kind <;> rfl
  | enumConstant type name =>
    refine readsBack_of_tag (fun bs => ?_)
      ((ReadsBack.word16 type).bind (f := fun _ => _)
        ((ReadsBack.word16 name).map (f := fun _ => ())))
    rfl
  | nested type count names values ih =>
    have hvalue (i : Fin count.toNat) :
        ReadsBack (skipValue depth) (values i).bytes () := by
      have hle := length_le_namedBytes names (fun i => (values i).bytes) i
      rw [bytes, List.length_cons, List.length_append] at hdepth
      obtain ⟨depth, rfl⟩ : ∃ less, depth = less + 1 := ⟨depth - 1, by omega⟩
      exact ih i (by omega)
    refine readsBack_of_tag (fun bs => ?_)
      ((ReadsBack.word16 type).bind (f := fun _ => _)
        ((readsBack_named hvalue).map (f := fun _ => ())))
    rfl
  | array count values ih =>
    have hvalue (i : Fin count.toNat) :
        ReadsBack (skipValue depth) (values i).bytes () := by
      have hle := length_le_tableBytes (fun i => (values i).bytes) i
      rw [bytes, List.length_cons] at hdepth
      obtain ⟨depth, rfl⟩ : ∃ less, depth = less + 1 := ⟨depth - 1, by omega⟩
      exact ih i (by omega)
    refine readsBack_of_tag (fun bs => ?_) ((readsBack_tableBytes hvalue).map (f := fun _ => ()))
    rfl

/-! ### What is read over

Conversely, bytes that are read over follow the grammar. -/

/-- Values with their names are those of trees, if values are. The names are not looked up. What a
tree has for a name is the index that was read over. -/
theorem exists_of_named {depth : Nat}
    (hvalue : ∀ bs rest, skipValue depth bs = .ok ((), rest) →
      ∃ v : ElementValue, bs = v.bytes ++ rest)
    {bs rest : Bytes} {items : List Unit}
    (h : Reader.table (skipNamed depth) bs = .ok (items, rest)) :
    ∃ (count : UInt16) (names : Fin count.toNat → UInt16)
      (values : Fin count.toNat → ElementValue),
      bs = (namedBytes count names fun i => (values i).bytes) ++ rest := by
  have hnamed (bs : Bytes) (a : Unit) (rest : Bytes) (h : skipNamed depth bs = .ok (a, rest)) :
      ∃ named : UInt16 × ElementValue,
        True ∧ bs = (Bytes.word16 named.1 ++ named.2.bytes) ++ rest := by
    obtain ⟨name, mid, hname, hmid⟩ := Reader.bind_eq_ok.1 h
    obtain ⟨v, rfl⟩ := hvalue mid rest hmid
    exact ⟨(name, v), trivial, by rw [Reader.word16_eq_ok.1 hname, List.append_assoc]⟩
  obtain ⟨count, forms, hlength, _, rfl⟩ := exists_of_table hnamed h
  refine ⟨count, fun i => (forms.get (i.cast hlength.symm)).1,
    fun i => (forms.get (i.cast hlength.symm)).2, ?_⟩
  rw [← tableBytes_get _ hlength]
  rfl

/-- **Only whole values are read over.** Any tag but those thirteen is refused. The depth bounds the
nesting, and a value nested deeper fails as if the bytes had ended. -/
theorem exists_of_skipValue {depth : Nat} {bs rest : Bytes}
    (h : skipValue depth bs = .ok ((), rest)) :
    ∃ v : ElementValue, bs = v.bytes ++ rest := by
  induction depth generalizing bs rest with
  | zero => cases h
  | succ depth ih =>
    unfold skipValue at h
    obtain ⟨b, mid, hb, hvalue⟩ := Reader.bind_eq_ok.1 h
    obtain rfl := Reader.byte_eq_ok.1 hb
    split at hvalue
    · next htag =>
      -- A constant, by the letter of its kind; the other tags have a case each.
      obtain ⟨index, _, hindex, hend⟩ := Reader.bind_eq_ok.1 hvalue
      cases hend
      obtain ⟨kind, rfl⟩ := isConstantTag_iff.1 htag
      exact ⟨.constant kind index, congrArg _ (Reader.word16_eq_ok.1 hindex)⟩
    · split at hvalue
      · next htag =>
        obtain ⟨type, _, htype, hvalue⟩ := Reader.bind_eq_ok.1 hvalue
        obtain ⟨name, _, hname, hend⟩ := Reader.bind_eq_ok.1 hvalue
        cases hend
        refine ⟨.enumConstant type name, ?_⟩
        rw [eq_tag htag, Reader.word16_eq_ok.1 htype, Reader.word16_eq_ok.1 hname, bytes,
          List.cons_append, List.append_assoc]
      · split at hvalue
        · next htag =>
          obtain ⟨type, _, htype, hvalue⟩ := Reader.bind_eq_ok.1 hvalue
          obtain ⟨items, _, hitems, hend⟩ := Reader.bind_eq_ok.1 hvalue
          cases hend
          obtain ⟨count, names, values, rfl⟩ := exists_of_named (fun _ _ => ih) hitems
          refine ⟨.nested type count names values, ?_⟩
          rw [eq_tag htag, Reader.word16_eq_ok.1 htype, bytes, List.cons_append,
            List.append_assoc]
        · split at hvalue
          · next htag =>
            obtain ⟨items, _, hitems, hend⟩ := Reader.bind_eq_ok.1 hvalue
            cases hend
            obtain ⟨count, forms, hlength, _, rfl⟩ := exists_of_table (R := fun _ _ => True)
              (fun _ _ _ h => (ih h).imp fun _ hv => ⟨trivial, hv⟩) hitems
            refine ⟨.array count fun i => forms.get (i.cast hlength.symm), ?_⟩
            rw [eq_tag htag, bytes, tableBytes_get bytes hlength, List.cons_append]
          · cases hvalue

end ElementValue

/-! ## Annotations

Of the values nothing is kept but that they are whole; the type is looked up. -/

/-- The internal name of a class is what stands between the marks of its descriptor. Between them
there may be anything, a semicolon, too. -/
theorem FieldType.classNameIn?_eq_some_iff {descriptor name : String} :
    classNameIn? descriptor = some name ↔ descriptor = "L" ++ name ++ ";" := by
  rw [← String.toList_inj, String.toList_append, String.toList_append]
  show _ ↔ descriptor.toList = 'L' :: name.toList ++ [';']
  unfold classNameIn?
  split
  · next rest hdescriptor =>
    rw [hdescriptor, List.cons_append, List.cons_inj_right]
    -- The last character is tested and taken off, so it is the mark that is put back.
    constructor
    · intro h
      split at h
      · next hlast =>
        obtain rfl := Option.some.inj h
        rw [String.toList_ofList]
        exact (List.dropLast_append_getLast? _ hlast).symm
      · cases h
    · rintro rfl
      rw [if_pos (by simp), List.dropLast_concat, String.ofList_toList]
  · next hother =>
    constructor
    · nofun
    · intro h
      exact absurd h (hother _)

/-- An annotation by its structure: the slot of its type, and its values with their names. -/
structure AnnotationForm where
  type : UInt16
  count : UInt16
  names : Fin count.toNat → UInt16
  values : Fin count.toNat → ElementValue

namespace AnnotationForm

/-- The written form. -/
def bytes (form : AnnotationForm) : Bytes :=
  Bytes.word16 form.type ++ namedBytes form.count form.names fun i => (form.values i).bytes

/-- Whether an annotation is what a structure says: its type is a text of the pool, and has an
internal name where it is that of a class. -/
structure Says (pool : ConstantPool) (form : AnnotationForm) (a : Annotation) : Prop where
  type : pool.get form.type = .ok (.utf8 a.typeDescriptor)
  name : ∀ name, a.typeName = some name ↔ a.typeDescriptor = "L" ++ name ++ ";"

variable {pool : ConstantPool} {form : AnnotationForm} {a : Annotation} {depth : Nat}

/-- A structure says one thing at most. -/
theorem Says.eq (h : form.Says pool a) :
    a = ⟨a.typeDescriptor, FieldType.classNameIn? a.typeDescriptor⟩ := by
  have hname : a.typeName = FieldType.classNameIn? a.typeDescriptor := by
    refine Option.ext fun name => ?_
    rw [h.name, FieldType.classNameIn?_eq_some_iff]
  rw [← hname]

/-- **An annotation is read** from its structure. -/
theorem read_bytes (h : form.Says pool a) (hdepth : form.bytes.length ≤ depth) (rest : Bytes) :
    Annotation.read pool (depth + 1) (form.bytes ++ rest) = .ok (a, rest) := by
  have hvalue (i : Fin form.count.toNat) :
      ReadsBack (skipValue (depth + 1)) (form.values i).bytes () := by
    have hle := ElementValue.length_le_namedBytes form.names (fun i => (form.values i).bytes) i
    rw [bytes, List.length_append] at hdepth
    exact (form.values i).readsBack (by omega)
  rw [h.eq]
  refine (ReadsBack.word16 form.type).bind
    (.lift (ConstantPool.getUtf8_eq_ok.2 h.type) ?_) rest
  exact (ElementValue.readsBack_named hvalue).map (f := fun _ => _)

/-- **Only whole structures are read.** The type has to be a text of the pool. Its elements are
values with names, and nothing is known of them but that they are whole. -/
theorem exists_of_read {bs rest : Bytes} (h : Annotation.read pool depth bs = .ok (a, rest)) :
    ∃ form : AnnotationForm, form.Says pool a ∧ bs = form.bytes ++ rest := by
  obtain ⟨type, _, htype, h⟩ := Reader.bind_eq_ok.1 h
  obtain ⟨descriptor, _, hdescriptor, h⟩ := Reader.bind_eq_ok.1 h
  obtain ⟨htext, rfl⟩ := Reader.lift_eq_ok.1 hdescriptor
  obtain ⟨items, _, hitems, hend⟩ := Reader.bind_eq_ok.1 h
  cases hend
  obtain ⟨count, names, values, rfl⟩ :=
    ElementValue.exists_of_named (fun _ _ => ElementValue.exists_of_skipValue) hitems
  refine ⟨⟨type, count, names, values⟩, ⟨ConstantPool.getUtf8_eq_ok.1 htext,
    fun name => FieldType.classNameIn?_eq_some_iff⟩, ?_⟩
  rw [Reader.word16_eq_ok.1 htype, bytes, List.append_assoc]

end AnnotationForm

namespace Annotation

/-- **The payload of an annotation table** is read exactly where it is a count and that many
annotations, of any values, with nothing behind them, and where the type of each is a text of the
pool. What is read are these types in their order. -/
theorem parseAll_eq_ok_iff (pool : ConstantPool) (info : Bytes) (annotations : List Annotation) :
    parseAll pool info = .ok annotations ↔ ∃ forms : List AnnotationForm, forms.length < 65536
      ∧ info = Bytes.word16 (UInt16.ofNat forms.length) ++ forms.flatMap AnnotationForm.bytes
      ∧ List.Forall₂ (AnnotationForm.Says pool) forms annotations := by
  unfold parseAll
  rw [Reader.all_eq_ok]
  constructor
  · intro h
    obtain ⟨count, forms, hlength, hforms, hinfo⟩ :=
      exists_of_table (fun _ _ _ => AnnotationForm.exists_of_read) h
    refine ⟨forms, hlength ▸ count.toNat_lt, ?_, hforms⟩
    rw [hlength, UInt16.ofNat_toNat, hinfo, List.append_nil]
  · rintro ⟨forms, hlt, hinfo, hforms⟩
    -- The depth that is allowed is the length of all annotations, and each is no longer.
    have hdepth : ∀ form ∈ forms, form.bytes.length ≤ info.length := by
      intro form hform
      have hsublist := List.sublist_flatten_of_mem (List.mem_map_of_mem (f := (·.bytes)) hform)
      have hle := hsublist.length_le
      rw [hinfo, List.length_append, List.flatMap_def]
      exact Nat.le_add_left_of_le hle
    have hread : List.Forall₂ (ReadsBack (read pool (info.length + 1)))
        (forms.map AnnotationForm.bytes) annotations := by
      rw [List.forall₂_map_left_iff]
      have hboth := (List.forall₂_and_left _ _).2 ⟨hdepth, hforms⟩
      exact hboth.imp fun _ _ h => AnnotationForm.read_bytes h.2 h.1
    have hcount : Bytes.count16 annotations.length
        = .ok (Bytes.word16 (UInt16.ofNat forms.length)) := by
      rw [← hforms.length_eq, Bytes.count16, if_pos hlt]
    have htable := ReadsBack.table hcount hread []
    rw [← List.flatMap_def, List.append_nil, ← hinfo] at htable
    exact htable

end Annotation
end ClassLoom
