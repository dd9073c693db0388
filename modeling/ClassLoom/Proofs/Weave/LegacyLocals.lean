import ClassLoom.Proofs.Weave.RenumberedLocals

/-!
# Local variables of a retyped type

A method that was retyped has no variable of the old type left, although it had one before.
Redirecting its calls does not bring one back: patches move the ranges of variables and keep
their types.

* `declaresLocal_of_retypeLocals`: retyping a method takes the old type out of its tables;
* `declaresLocal_of_redirectMethod`: what redirecting leaves was there before.
-/

namespace ClassLoom

open ConstantPool

/-- Whether a body has a variable of the given type. -/
def Code.DeclaresLocal (pool : ConstantPool) (descriptor : String) (code : Code) : Prop :=
  ∃ a ∈ code.attributes, a.name = LocalVariable.tableName ∧ ∃ entries,
    LocalVariable.parseTable pool a.info = .ok entries ∧ ∃ v ∈ entries, v.descriptor = descriptor

/-! ## Moved ranges

Patching moves the tables of variables without reading their types. So what is read of the moved
tables has to be traced to what would have been read of the old ones, also where these cannot all be
read. -/

namespace CodePatch

section Ranges

variable {place : Nat → Except ClassError Nat} {pool : ConstantPool} {bs rest part tail tail' : Bytes}

/-- What is read from a moved range was there before, with the same type. Only the first two words
of an entry are moved. -/
theorem read_of_moveRange {v : LocalVariable} (h : moveRange place bs = .ok (part, rest))
    (hread : LocalVariable.read pool (part ++ tail) = .ok (v, tail')) :
    tail' = tail ∧ ∃ old, LocalVariable.read pool bs = .ok (old, rest)
      ∧ old.descriptor = v.descriptor := by
  obtain ⟨e, e', rfl, rfl, hmoves⟩ := moveRange_eq_ok h
  obtain ⟨found, hbytes, hname, hdescriptor, _⟩ := LocalVariable.read_eq_ok.1 hread
  -- Both readers find the entry that was written.
  have hfound := LocalRange.read_eq_ok.2 hbytes
  rw [e'.readsBack tail] at hfound
  cases hfound
  rw [hmoves.name] at hname
  rw [hmoves.descriptor] at hdescriptor
  refine ⟨rfl, { v with start := e.start, length := e.length, slot := e.slot }, ?_, rfl⟩
  exact LocalVariable.read_eq_ok.2 ⟨e, rfl, hname, hdescriptor, rfl, rfl, rfl⟩

/-- Moved entries have the types of the old ones, in order. So a patched body declares no type for a
variable that it has not declared before. -/
theorem times_read_of_moveRange {n : Nat} {parts : List Bytes} {entries : List LocalVariable}
    (h : Reader.times n (moveRange place) bs = .ok (parts, rest))
    (hread : Reader.times n (LocalVariable.read pool) (parts.flatten ++ tail)
      = .ok (entries, tail')) :
    tail' = tail ∧ ∃ old, Reader.times n (LocalVariable.read pool) bs = .ok (old, rest)
      ∧ old.map (·.descriptor) = entries.map (·.descriptor) := by
  induction n generalizing bs parts entries with
  | zero =>
    cases h
    cases hread
    exact ⟨rfl, [], rfl, rfl⟩
  | succ n ih =>
    obtain ⟨part, mid, more, hpart, hmore, rfl⟩ := Reader.times_succ_eq_ok.1 h
    obtain ⟨v, mid', vs, hv, hvs, rfl⟩ := Reader.times_succ_eq_ok.1 hread
    rw [List.flatten_cons, List.append_assoc] at hv
    obtain ⟨rfl, old, hold, hdescriptor⟩ := read_of_moveRange hpart hv
    obtain ⟨rfl, olds, holds, hdescriptors⟩ := ih hmore hvs
    refine ⟨rfl, old :: olds, Reader.times_succ_eq_ok.2 ⟨old, mid, olds, hold, holds, rfl⟩, ?_⟩
    rw [List.map_cons, List.map_cons, hdescriptor, hdescriptors]

/-- **Moving a table of variables keeps their types.** If the moved table can be read, the old one
can. -/
theorem parseTable_of_moveRanges {info info' : Bytes} {entries : List LocalVariable}
    (h : moveRanges place info = .ok info')
    (hparse : LocalVariable.parseTable pool info' = .ok entries) :
    ∃ old, LocalVariable.parseTable pool info = .ok old
      ∧ old.map (·.descriptor) = entries.map (·.descriptor) := by
  obtain ⟨parts, hparts, h⟩ := bind_eq_ok.1 h
  obtain ⟨count, hcount, hend⟩ := bind_eq_ok.1 h
  cases hend
  obtain ⟨n, mid, hn, hparts⟩ := Reader.bind_eq_ok.1 (Reader.all_eq_ok.1 hparts)
  obtain ⟨rfl, hlength⟩ := count16_eq_ok hcount
  obtain ⟨found, mid', hfound, hentries⟩ := Reader.bind_eq_ok.1 (Reader.all_eq_ok.1 hparse)
  rw [Reader.word16_append] at hfound
  cases hfound
  rw [hlength, Reader.length_of_times hparts] at hentries
  rw [← List.append_nil parts.flatten] at hentries
  obtain ⟨_, old, hold, hdescriptors⟩ := times_read_of_moveRange hparts hentries
  refine ⟨old, Reader.all_eq_ok.2 (Reader.bind_eq_ok.2 ⟨n, mid, hn, hold⟩), hdescriptors⟩

end Ranges

/-- **A patched body has no variables of other types** than the old one. Each of its tables has been
moved from one of the old body. -/
theorem declaresLocal_of_apply {patch : CodePatch} {code patched : Code} {pool : ConstantPool}
    {descriptor : String} (h : patch.apply code = .ok patched)
    (hpatched : patched.DeclaresLocal pool descriptor) : code.DeclaresLocal pool descriptor := by
  obtain ⟨_, relaxed, _, _, _, _, _, _, hattributes⟩ := apply_eq_ok h
  obtain ⟨a, ha, hname, entries, hparse, v, hv, rfl⟩ := hpatched
  obtain ⟨old, hold, hmoved⟩ := exists_of_mem_right (mapM_eq_ok.1 hattributes) ha
  have hold := (List.mem_filter.1 hold).1
  have hsame := name_of_moveAttribute hmoved
  rw [hname] at hsame
  refine ⟨old, hold, hsame.symm, ?_⟩
  simp only [moveAttribute, ← hsame] at hmoved
  rw [if_neg (by decide), if_pos (by decide)] at hmoved
  obtain ⟨info, hinfo, hend⟩ := bind_eq_ok.1 hmoved
  cases hend
  obtain ⟨before, hbefore, hdescriptors⟩ := parseTable_of_moveRanges hinfo hparse
  -- Moving a range keeps the descriptor, so an entry with it was there before.
  have hmem : v.descriptor ∈ before.map (·.descriptor) := by
    rw [hdescriptors]
    exact List.mem_map_of_mem hv
  obtain ⟨w, hw, hdescriptor⟩ := List.mem_map.1 hmem
  exact ⟨before, hbefore, w, hw, hdescriptor⟩

end CodePatch

/-! ## Redirecting

Redirecting patches a body and writes its frames anew. Neither touches a type in a table of
variables. -/

/-- Setting a payload changes attributes of no other name. Tables of frames are set, and variables
are in other attributes. -/
theorem Attribute.mem_of_mem_set {name : String} {info : Bytes} {attributes : List Attribute}
    {a : Attribute} (h : a ∈ set name info attributes) (hname : a.name ≠ name) :
    a ∈ attributes := by
  induction attributes with
  | nil =>
    rw [set, List.mem_singleton] at h
    rw [h] at hname
    exact absurd rfl hname
  | cons b rest ih =>
    rw [set] at h
    split at h
    · next hb =>
      rcases List.mem_cons.1 h with rfl | h
      · exact absurd hb hname
      · exact List.mem_cons_of_mem _ h
    · rcases List.mem_cons.1 h with rfl | h
      · exact List.mem_cons_self ..
      · exact List.mem_cons_of_mem _ (ih h)

namespace Weave

/-- Redirecting the calls of a body adds no variables. It patches, and may set the table of
frames. -/
theorem declaresLocal_of_redirectCode {s : Surroundings} {className : String} {m : Member}
    {code redirected : Code} {sites : List CallSite} {pool start last : ConstantPool}
    {descriptor : String} (h : redirectCode s className m code sites start = .ok redirected last)
    (hredirected : redirected.DeclaresLocal pool descriptor) :
    code.DeclaresLocal pool descriptor := by
  obtain ⟨patch, width, patched, mid, _, happly, _, _, hend⟩ := redirectCode_eq_ok h
  refine CodePatch.declaresLocal_of_apply happly ?_
  obtain ⟨a, ha, hname, hentries⟩ := hredirected
  refine ⟨a, ?_, hname, hentries⟩
  rcases hend with rfl | ⟨info, rfl⟩
  · exact ha
  · refine Attribute.mem_of_mem_set ha ?_
    rw [hname]
    decide

/-- **Redirecting the calls of a method adds no variables.** The pool is the later one on both
sides, in which more may be read. -/
theorem declaresLocal_of_redirectMethod {s : Surroundings} {className : String} {m m' : Member}
    {code code' : Code} {pool : ConstantPool} {diagnostics : List Diagnostic}
    {descriptor : String} (hpool : Reachable pool)
    (h : redirectMethod s className m pool = .ok (m', diagnostics) pool)
    (hcode : m.code? pool = .ok (some code)) (hcode' : m'.code? pool = .ok (some code'))
    (hdeclares : code'.DeclaresLocal pool descriptor) : code.DeclaresLocal pool descriptor := by
  cases redirectMethod_eq_ok h with
  | bodiless hnone =>
    rw [hcode] at hnone
    cases hnone
  | untouched _ _ _ _ =>
    rw [hcode] at hcode'
    cases hcode'
    exact hdeclares
  | redirected found redirected sites _ _ mid _ hfound _ _ hredirected hset =>
    rw [hcode] at hfound
    cases hfound
    have hmid := (appends_redirectCode s className m code sites).reachable_of_ok hpool hredirected
    have hsame := Member.eq_of_code?_setCode hmid.consistent.located hset (Grown.refl _) hcode'
    rw [hsame] at hdeclares
    exact declaresLocal_of_redirectCode hredirected hdeclares

/-! ## Retyping

Retyping reads and writes the tables, so they can be read then. -/

/-- **Retyping a method takes the old type out of its tables**, where it was before. That it was
there is why the method was retyped. -/
theorem declaresLocal_of_retypeLocals {legacy polyfill : String} {pool pool' : ConstantPool}
    {m m' : Member} (hne : polyfill ≠ legacy) (hpool : Reachable pool)
    (h : retypeLocals legacy polyfill m pool = .ok (some m') pool') :
    ∃ code code', m.code? pool = .ok (some code) ∧ code.DeclaresLocal pool legacy
      ∧ m'.code? pool' = .ok (some code') ∧ ¬ code'.DeclaresLocal pool' legacy := by
  obtain ⟨code, code', tables, hcode, hgiven, hrenumbers⟩ := renumbersLocals_of_retypeLocals hpool h
  refine ⟨code, code', hcode, ?_, hgiven.code? [], ?_⟩
  · obtain ⟨t, ht, v, hv, hdescriptor⟩ := hrenumbers.legacy
    obtain ⟨a, ha, hname, hparse⟩ :=
      LocalVariable.exists_of_mem_tables hrenumbers.before (List.mem_map_of_mem ht)
    exact ⟨a, ha, hname, t.1, hparse, v, hv, hdescriptor⟩
  · rintro ⟨a, ha, hname, entries, hparse, v, hv, hdescriptor⟩
    have hmem := LocalVariable.mem_tables hrenumbers.after ha hname hparse
    obtain ⟨t, ht, rfl⟩ := List.mem_map.1 hmem
    exact (hrenumbers.renumbered t ht).descriptor_ne hne hv hdescriptor

end Weave
end ClassLoom
