import ClassLoom.Code.LocalVariable
import ClassLoom.Proofs.Written

/-!
# Method bodies read back from their written form

* `Code.writes`: a body that is not empty is read back;
* `Member.code?_setCode`: the body that a method has been given is the one it has;
* `LocalVariable.parseTable_tableBytes`: tables of local variables.
-/

namespace ClassLoom

open ConstantPool
open Interning (Appends)

/-! ## Bodies

A body is written into the payload of an attribute, with its own attributes behind it. What was
written is read back in the pool it was written with and in every later one. -/

/-- A handler is read back from its four words. -/
theorem ExceptionHandler.readsBack (h : ExceptionHandler) : ReadsBack read h.bytes h := by
  intro rest
  unfold ExceptionHandler.bytes
  simp only [List.append_assoc]
  unfold read
  rw [Reader.bind_run (Reader.word16_append _ _), Reader.bind_run (Reader.word16_append _ _),
    Reader.bind_run (Reader.word16_append _ _), Reader.bind_run (Reader.word16_append _ _)]
  rfl

namespace Code

/-- Writing a body only adds to the pool. -/
theorem appends_bytes (code : Code) : Appends code.bytes := by
  unfold Code.bytes
  split
  · exact (Appends.throw _).bind fun _ => (Appends.lift _).bind fun _ =>
      (Attribute.appends_tableBytes _).bind fun _ => .pure _
  · exact (Appends.lift _).bind fun _ =>
      (Attribute.appends_tableBytes _).bind fun _ => .pure _

/-- What is written for a body that fits: the limits, the code with its length, the handlers with
their count, and the attributes. -/
theorem bytes_eq_ok {code : Code} {pool pool' : ConstantPool} {bs : Bytes}
    (h : code.bytes pool = .ok bs pool') :
    code.bytecode.length ≤ 65535 ∧ ∃ count attributes,
      Bytes.count16 code.handlers.length = .ok count
        ∧ Attribute.tableBytes code.attributes pool = .ok attributes pool'
        ∧ bs = Bytes.word16 code.maxStack ++ (Bytes.word16 code.maxLocals
          ++ (Bytes.word32 (UInt32.ofNat code.bytecode.length) ++ (code.bytecode
            ++ ((count ++ (code.handlers.map ExceptionHandler.bytes).flatten) ++ attributes)))) := by
  unfold Code.bytes at h
  split at h
  · cases h
  · next hfits =>
    obtain ⟨count, hcount, h⟩ := Interning.lift_bind_eq_ok.1 h
    obtain ⟨attributes, mid, hattributes, hend⟩ := Interning.bind_eq_ok.1 h
    obtain ⟨rfl, rfl⟩ := Interning.pure_eq_ok.1 hend
    refine ⟨by omega, count, attributes, hcount, hattributes, ?_⟩
    simp only [List.append_assoc, List.flatMap_def]

/-- **A written body is read back** if it is not empty. A length of zero would be refused. This
holds in every later pool, since attributes are looked up by indices that keep their meaning. -/
theorem writes {code : Code} (hcode : code.bytecode ≠ []) : Writes code.bytes read code := by
  intro pool pool' bs hpool h later hgrown rest
  obtain ⟨hfits, count, attributes, hcount, hattributes, rfl⟩ := bytes_eq_ok h
  have hlength : (UInt32.ofNat code.bytecode.length).toNat = code.bytecode.length :=
    UInt32.toNat_ofNat_of_lt' (show _ < 4294967296 by omega)
  have hpos : 0 < code.bytecode.length := List.length_pos_iff.2 hcode
  have hnonzero : UInt32.ofNat code.bytecode.length ≠ 0 := by
    intro hzero
    rw [hzero] at hlength
    have hzero' : (0 : UInt32).toNat = 0 := rfl
    omega
  have hhandlers : ReadsBack (Reader.table ExceptionHandler.read)
      (count ++ (code.handlers.map ExceptionHandler.bytes).flatten) code.handlers := by
    refine .table hcount ?_
    rw [List.forall₂_map_left_iff, List.forall₂_same]
    exact fun x _ => x.readsBack
  have htable := Attribute.writes_table code.attributes hpool hattributes later hgrown
  simp only [List.append_assoc]
  -- The parts are read one by one, each from in front of what is still to be read.
  unfold read
  rw [Reader.bind_run (Reader.word16_append _ _), Reader.bind_run (Reader.word16_append _ _),
    Reader.bind_run (Reader.word32_append _ _), hlength, if_neg (by simp [hnonzero]; omega)]
  show (Reader.bytes code.bytecode.length >>= fun bytecode => _) (code.bytecode ++ _) = _
  rw [Reader.bind_run (Reader.bytes_append _ _), ← List.append_assoc count,
    Reader.bind_run (hhandlers _), Reader.bind_run (htable rest)]
  rfl

/-- A body that was read is not empty, as a length of zero is refused. -/
theorem bytecode_ne_nil_of_parse {pool : ConstantPool} {info : Bytes} {code : Code}
    (h : parse pool info = .ok code) : code.bytecode ≠ [] := by
  obtain ⟨⟨_, rest⟩, hread, h⟩ := bind_eq_ok.1 h
  obtain ⟨_, _, hend⟩ := bind_eq_ok.1 h
  cases hend
  obtain ⟨maxStack, _, _, hread⟩ := Reader.bind_eq_ok.1 hread
  obtain ⟨maxLocals, _, _, hread⟩ := Reader.bind_eq_ok.1 hread
  obtain ⟨length, mid, _, hread⟩ := Reader.bind_eq_ok.1 hread
  split at hread
  · cases hread
  · next hfits =>
    obtain ⟨bytecode, mid', htaken, hread⟩ := Reader.bind_eq_ok.1 hread
    obtain ⟨handlers, _, _, hread⟩ := Reader.bind_eq_ok.1 hread
    obtain ⟨attributes, _, _, hend⟩ := Reader.bind_eq_ok.1 hread
    cases hend
    simp only [Bool.or_eq_true, decide_eq_true_eq, not_or] at hfits
    -- As many bytes are taken as the length says.
    have hlength : bytecode.length = length.toNat := by
      simp only [Reader.bytes] at htaken
      split at htaken
      · next hsame =>
        cases htaken
        exact hsame
      · cases htaken
    rintro rfl
    refine hfits.1 (UInt32.toNat.inj ?_)
    rw [← hlength]
    rfl

/-- What is parsed from the written form of a body is the body, if anything is. For this the body
need not have been written with code in it. -/
theorem eq_of_parse {code found : Code} {pool pool' later : ConstantPool} {bs : Bytes}
    (hpool : Located pool) (h : code.bytes pool = .ok bs pool') (hgrown : Grown pool' later)
    (hparse : parse later bs = .ok found) : found = code := by
  by_cases hcode : code.bytecode = []
  · -- The length in front of an empty body is refused.
    obtain ⟨_, count, attributes, _, _, rfl⟩ := bytes_eq_ok h
    rw [hcode] at hparse
    obtain ⟨⟨_, rest⟩, hread, _⟩ := bind_eq_ok.1 hparse
    unfold read at hread
    rw [Reader.bind_run (Reader.word16_append _ _), Reader.bind_run (Reader.word16_append _ _),
      Reader.bind_run (Reader.word32_append _ _)] at hread
    cases hread
  · have hwritten : parse later bs = .ok code := (writes hcode hpool h later hgrown).all
    rw [hwritten] at hparse
    exact (Except.ok.inj hparse).symm

end Code

namespace Member

theorem appends_setCode (m : Member) (code : Code) : Appends (m.setCode code) :=
  (Code.appends_bytes code).bind fun _ => .pure _

section SetCode

variable {m m' : Member} {code : Code} {pool pool' later : ConstantPool}

/-- A method with another body has another payload for it. -/
theorem setCode_eq_ok (h : m.setCode code pool = .ok m' pool') :
    ∃ info, code.bytes pool = .ok info pool'
      ∧ m' = { m with attributes := Attribute.set Code.attributeName info m.attributes } := by
  obtain ⟨info, _, hinfo, hend⟩ := Interning.bind_eq_ok.1 h
  obtain ⟨rfl, rfl⟩ := Interning.pure_eq_ok.1 hend
  exact ⟨info, hinfo, rfl⟩

/-- **The body that a method has been given is the one that it has.** -/
theorem code?_setCode (hcode : code.bytecode ≠ []) (hpool : Located pool)
    (h : m.setCode code pool = .ok m' pool') (hgrown : Grown pool' later) :
    m'.code? later = .ok (some code) := by
  obtain ⟨info, hinfo, rfl⟩ := setCode_eq_ok h
  unfold code?
  rw [Attribute.find?_set]
  simp only
  have hparse : Code.parse later info = .ok code :=
    (Code.writes hcode hpool hinfo later hgrown).all
  rw [hparse]
  rfl

/-- The body that a method has is the one that it has been given, if it can be read. Later pools
read it as the one it was written in. -/
theorem eq_of_code?_setCode {found : Code} (hpool : Located pool)
    (h : m.setCode code pool = .ok m' pool') (hgrown : Grown pool' later)
    (hfound : m'.code? later = .ok (some found)) : found = code := by
  obtain ⟨info, hinfo, rfl⟩ := setCode_eq_ok h
  unfold code? at hfound
  rw [Attribute.find?_set] at hfound
  simp only at hfound
  cases hparse : Code.parse later info with
  | error e =>
    rw [hparse] at hfound
    cases hfound
  | ok body =>
    rw [hparse] at hfound
    cases hfound
    exact Code.eq_of_parse hpool hinfo hgrown hparse

/-- A method does not have an empty body. It may have none at all. The body of a method is always
one that was read. -/
theorem bytecode_ne_nil_of_code? (h : m.code? pool = .ok (some code)) : code.bytecode ≠ [] := by
  unfold code? at h
  split at h
  · next a _ =>
    cases hparse : Code.parse pool a.info with
    | error e =>
      rw [hparse] at h
      cases h
    | ok body =>
      rw [hparse] at h
      cases h
      exact Code.bytecode_ne_nil_of_parse hparse
  · cases h

end SetCode
end Member

/-! ## Local variables

The tables of local variables are attributes of the body. Their entries name entries of the pool,
which may still be added when the tables are written. -/

namespace LocalVariable

theorem appends_bytes (v : LocalVariable) : Appends v.bytes :=
  (appends_internUtf8 v.name).bind fun _ => (appends_internUtf8 v.descriptor).bind fun _ => .pure _

theorem appends_tableBytes (entries : List LocalVariable) : Appends (tableBytes entries) :=
  (Appends.lift _).bind fun _ => (Appends.mapM fun v _ => appends_bytes v).bind fun _ => .pure _

/-- How a variable is read from its five words. Two of them are looked up as texts. The two texts
are given, so nothing can fail here. -/
theorem read_run {pool : ConstantPool} {start length name descriptor slot : UInt16}
    {nameText descriptorText : String} (hname : pool.getUtf8 name = .ok nameText)
    (hdescriptor : pool.getUtf8 descriptor = .ok descriptorText) (rest : Bytes) :
    read pool (Bytes.word16 start ++ (Bytes.word16 length ++ (Bytes.word16 name
        ++ (Bytes.word16 descriptor ++ (Bytes.word16 slot ++ rest)))))
      = .ok ({ start, length, name := nameText, descriptor := descriptorText, slot }, rest) := by
  unfold read
  rw [Reader.bind_run (Reader.word16_append _ _), Reader.bind_run (Reader.word16_append _ _),
    Reader.bind_run (Reader.word16_append _ _), Reader.bind_run (Reader.lift_run hname _),
    Reader.bind_run (Reader.word16_append _ _), Reader.bind_run (Reader.lift_run hdescriptor _),
    Reader.bind_run (Reader.word16_append _ _)]
  rfl

/-- **A written variable is read back.** -/
theorem writes (v : LocalVariable) : Writes v.bytes read v := by
  intro pool pool' bs hpool h later hgrown rest
  obtain ⟨name, mid, hname, h⟩ := Interning.bind_eq_ok.1 h
  obtain ⟨descriptor, mid', hdescriptor, hend⟩ := Interning.bind_eq_ok.1 h
  obtain ⟨rfl, rfl⟩ := Interning.pure_eq_ok.1 hend
  have hmid := (appends_internUtf8 v.name).located_of_ok hpool hname
  have hmidGrown := (appends_internUtf8 v.descriptor).grown_of_ok hdescriptor
  have hnameFound := (hmidGrown.trans hgrown).getUtf8 (internUtf8_spec hpool hname)
  have hdescriptorFound := hgrown.getUtf8 (internUtf8_spec hmid hdescriptor)
  simp only [List.append_assoc]
  exact read_run hnameFound hdescriptorFound rest

/-- **A written table of variables is read back.** -/
theorem parseTable_tableBytes {entries : List LocalVariable} {pool pool' later : ConstantPool}
    {info : Bytes} (hpool : Located pool) (h : tableBytes entries pool = .ok info pool')
    (hgrown : Grown pool' later) : parseTable later info = .ok entries :=
  (Writes.table (fun v _ => appends_bytes v) (fun v _ => writes v) hpool h later hgrown).all

end LocalVariable
end ClassLoom
