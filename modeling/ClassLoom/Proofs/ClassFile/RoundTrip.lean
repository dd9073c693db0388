import ClassLoom.Proofs.ClassFile.Overflow

/-!
# Classes that are written and read again

A class that is written is read again with everything it had, in a pool that has the slots of
the old one in front, and is then written as the same bytes. A class that was read is written
as it stood in its file exactly where the file spells its texts canonically and refers to its
symbols by their first slots.

* `ClassFile.parse_of_bytes_eq_ok`: what is written is read again;
* `ClassFile.bytes_eq_ok_iff_first`: when a file is reproduced byte for byte.
-/

namespace ClassLoom

open ConstantPool

namespace IndexedClass

/-- Constants in a row that are spelled canonically, under indices that are all first ones, are
read back. -/
theorem parse_of_bytes {c : ClassFile} {pool : ConstantPool} {cs : List Constant}
    {constants body : Bytes} {x : IndexedBody} (hpool : pool.Consistent)
    (hpushed : Pushed .empty cs pool) (hconstants : pool.bytes = .ok constants)
    (hbody : x.bytes = .ok body) :
    parse (Bytes.word32 ClassFile.magic ++ Bytes.word16 c.minor ++ Bytes.word16 c.major ++ constants
      ++ body) = .ok ⟨c.minor, c.major, cs.map SpelledConstant.spell, x⟩ := by
  refine Reader.all_eq_ok.2 (read_eq_ok_iff.2 ⟨constants ++ body, body, ?_, ?_, ?_⟩)
  · simp only [List.append_assoc]
  · exact ConstantPool.readsBack_readAll hpool hpushed hconstants body
  · exact IndexedBody.exact.2 ⟨body, hbody, (List.append_nil body).symm⟩

/-- A pool is the one that its spelled constants make. So a class that was read has no pool but this
one. -/
theorem Denotes.pool_eq {x : IndexedClass} {c c' : ClassFile} (h : x.Denotes c)
    (h' : x.Denotes c') : c.pool = c'.pool := by
  obtain ⟨cs, hspelled, hpushed⟩ := h.constants
  obtain ⟨cs', hspelled', hpushed'⟩ := h'.constants
  have hsame : cs = cs' := by
    have hunique : Relator.RightUnique fun s c => SpelledConstant.constant? s = some c := by
      intro s a b ha hb
      rw [ha] at hb
      exact Option.some.inj hb
    exact List.right_unique_forall₂' hunique hspelled hspelled'
  rw [hsame] at hpushed
  exact hpushed.unique hpushed'

end IndexedClass

namespace ClassFile

variable {c : ClassFile}

/-- What a class is written as: the written form of an indexed class with first indices and
canonical spellings, which denotes the class with the pool that writing leaves. -/
theorem exists_indexed_of_bytes (hpool : Reachable c.pool) {w : Bytes} (h : c.bytes = .ok w) :
    ∃ pool x, Grown c.pool pool ∧ Reachable pool ∧ IndexedClass.parse w = .ok x
      ∧ x.Denotes { c with pool } ∧ (∀ s ∈ x.constants, s.IsCanonical) ∧ x.body.IsFirst pool := by
  unfold bytes at h
  cases hbody : c.bodyBytes c.pool with
  | error e pool =>
    rw [hbody] at h
    cases h
  | ok body pool =>
    rw [hbody] at h
    obtain ⟨constants, hconstants, hend⟩ := bind_eq_ok.1 h
    cases hend
    have happends := IndexedBody.appends_bodyBytes c
    have hpool' := happends.reachable_of_ok hpool hbody
    -- The pool behind the body is the one that is written, so all indices are indices into it.
    obtain ⟨cs, hpushed⟩ := hpool'.exists_pushed
    obtain ⟨x, hx, hfirst, hdenotes⟩ := IndexedBody.indexes.exists_form hpool hbody
    refine ⟨pool, _, happends.grown_of_ok hbody, hpool',
      IndexedClass.parse_of_bytes hpool'.consistent hpushed hconstants hx,
      ⟨rfl, rfl, ⟨cs, SpelledConstant.forall₂_spell cs, hpushed⟩, ?_⟩, ?_, hfirst⟩
    · exact ⟨hdenotes.access, hdenotes.name, hdenotes.superName, hdenotes.interfaces,
        hdenotes.fields, hdenotes.methods, hdenotes.attributes⟩
    · intro s hs
      obtain ⟨d, _, rfl⟩ := List.mem_map.1 hs
      exact SpelledConstant.isCanonical_spell d

/-- A file with canonical spellings and first indices is what is written for its class. All symbols
are interned to the indices that were read, and the pool gets nothing new. -/
theorem bytes_of_isFirst (hpool : Reachable c.pool) {bs : Bytes} {x : IndexedClass}
    (hparse : IndexedClass.parse bs = .ok x) (hdenotes : x.Denotes c)
    (hcanonical : ∀ s ∈ x.constants, s.IsCanonical) (hfirst : x.body.IsFirst c.pool) :
    c.bytes = .ok bs := by
  obtain ⟨constants, hconstants, h⟩ := bind_eq_ok.1 (IndexedClass.bytes_of_parse hparse)
  obtain ⟨body, hbody, hend⟩ := bind_eq_ok.1 h
  cases hend
  obtain ⟨cs, hspelled, hpushed⟩ := hdenotes.constants
  have hpoolBytes := ConstantPool.bytes_of_isCanonical hpool.consistent hpushed hspelled hcanonical
    hconstants
  have hbodyBytes := IndexedBody.indexes.same hpool ⟨hfirst, hdenotes.body⟩ hbody
  unfold bytes
  rw [hbodyBytes]
  refine bind_eq_ok.2 ⟨constants, hpoolBytes, ?_⟩
  rw [hdenotes.minor, hdenotes.major]
  rfl

/-- A class that was read can be written unless its pool overflows. Its counts were read from words
and its texts from the pool, so they can be written again. -/
theorem error_of_parse {b : Bytes} (h : parse b = .ok c) {e : ClassError}
    (he : c.bytes = .error e) : e = .poolOverflow := by
  have hpool := reachable_of_parse h
  obtain ⟨x, hparse, hdenotes⟩ := IndexedClass.parse_eq_ok_iff.1 h
  obtain ⟨constants, hconstants, hx⟩ := bind_eq_ok.1 (IndexedClass.bytes_of_parse hparse)
  obtain ⟨body, hbody, _⟩ := bind_eq_ok.1 hx
  obtain ⟨cs, hspelled, hpushed⟩ := hdenotes.constants
  have hfits := ConstantPool.writable_of_allBytes hconstants hspelled hpushed
  obtain ⟨hok, herror⟩ :=
    IndexedBody.onlyOverflows hfits x.body c body hdenotes.body hbody c.pool hfits
  unfold bytes at he
  cases hrun : c.bodyBytes c.pool with
  | error e' pool =>
    rw [hrun] at he
    cases he
    exact herror _ pool hrun
  | ok written pool =>
    -- The pool can be written once the body has been.
    have hpool' := (IndexedBody.appends_bodyBytes c).reachable_of_ok hpool hrun
    obtain ⟨bs, hbs⟩ := (hok written pool hrun).bytes hpool'.consistent
    rw [hrun] at he
    simp only [hbs] at he
    cases he

/-- **What is written is read again**: the class with a pool that has grown from its own, which
is written as the same bytes. Where the class was read itself, writing fails on nothing but an
overflow of the pool. -/
theorem parse_of_bytes_eq_ok (c : ClassFile) (hpool : Reachable c.pool) :
    (∀ w, c.bytes = .ok w → ∃ pool, Grown c.pool pool
        ∧ parse w = .ok { c with pool } ∧ bytes { c with pool } = .ok w)
      ∧ ∀ b, parse b = .ok c → ∀ e, c.bytes = .error e → e = .poolOverflow := by
  refine ⟨fun w h => ?_, fun b h e he => error_of_parse h he⟩
  obtain ⟨pool, x, hgrown, hpool', hparse, hdenotes, hcanonical, hfirst⟩ :=
    exists_indexed_of_bytes hpool h
  exact ⟨pool, hgrown, IndexedClass.parse_eq_ok_iff.2 ⟨x, hparse, hdenotes⟩,
    bytes_of_isFirst hpool' hparse hdenotes hcanonical hfirst⟩

/-- A class `A`, whose class constant names the last of `copies` equal texts. -/
def classNamedBy (copies : UInt8) : Bytes :=
  [0xCA, 0xFE, 0xBA, 0xBE, 0, 0, 0, 50, 0, copies + 2]
    ++ (List.replicate copies.toNat [1, 0, 1, 65]).flatten
    ++ [7, 0, copies, 0, 33, 0, copies + 1, 0, 0, 0, 0, 0, 0, 0, 0, 0, 0]

/-- Where the class constant names the second of two texts, the class is written with one more
class constant, and as the same bytes from then on. -/
theorem parse_of_bytes_eq_ok_grown : ∃ c w pool, parse (classNamedBy 2) = .ok c
    ∧ c.bytes = .ok w ∧ w ≠ classNamedBy 2 ∧ Grown c.pool pool
    ∧ parse w = .ok { c with pool } ∧ bytes { c with pool } = .ok w
    ∧ ∀ e, c.bytes = .error e → e = .poolOverflow := by
  have hrun : (match parse (classNamedBy 2) with
    | .ok c => match c.bytes with
      | .ok w => decide (w ≠ classNamedBy 2)
      | .error _ => false
    | .error _ => false) = true := by decide +kernel
  split at hrun
  · next c hparse =>
    split at hrun
    · next w hw =>
      obtain ⟨hwritten, herror⟩ := parse_of_bytes_eq_ok c (reachable_of_parse hparse)
      obtain ⟨pool, hgrown, hread, hagain⟩ := hwritten w hw
      exact ⟨c, w, pool, hparse, hw, of_decide_eq_true hrun, hgrown, hread, hagain,
        herror _ hparse⟩
    · cases hrun
  · cases hrun

/-- **A file is reproduced byte for byte** exactly where it spells every text canonically and
refers to every symbol by the first slot that holds it. -/
theorem bytes_eq_ok_iff_first {b : Bytes} (h : parse b = .ok c) :
    ∃ x, IndexedClass.parse b = .ok x ∧ x.Denotes c
      ∧ (c.bytes = .ok b ↔ (∀ s ∈ x.constants, s.IsCanonical) ∧ x.body.IsFirst c.pool) := by
  have hpool := reachable_of_parse h
  obtain ⟨x, hparse, hdenotes⟩ := IndexedClass.parse_eq_ok_iff.1 h
  refine ⟨x, hparse, hdenotes, fun hbytes => ?_, fun ⟨hcanonical, hfirst⟩ =>
    bytes_of_isFirst hpool hparse hdenotes hcanonical hfirst⟩
  obtain ⟨pool, x', _, _, hparse', hdenotes', hcanonical, hfirst⟩ :=
    exists_indexed_of_bytes hpool hbytes
  -- The file and what is written are the same bytes, so they have the same indices and the
  -- same pool.
  rw [hparse] at hparse'
  cases hparse'
  have hsame : c.pool = pool := hdenotes.pool_eq hdenotes'
  rw [hsame]
  exact ⟨hcanonical, hfirst⟩

/-- A class constant that names the only text has a first index, one that names the second of
two has none. -/
theorem bytes_eq_ok_iff_first_copies :
    (∃ c x, parse (classNamedBy 1) = .ok c ∧ IndexedClass.parse (classNamedBy 1) = .ok x
        ∧ c.bytes = .ok (classNamedBy 1) ∧ x.body.IsFirst c.pool)
      ∧ ∃ c x, parse (classNamedBy 2) = .ok c ∧ IndexedClass.parse (classNamedBy 2) = .ok x
        ∧ c.bytes ≠ .ok (classNamedBy 2)
        ∧ ¬ ((∀ s ∈ x.constants, s.IsCanonical) ∧ x.body.IsFirst c.pool) := by
  have hone : (match parse (classNamedBy 1) with
      | .ok c => decide (c.bytes.toOption = some (classNamedBy 1))
      | .error _ => false) = true := by decide +kernel
  have htwo : (match parse (classNamedBy 2) with
      | .ok c => decide (c.bytes.toOption ≠ some (classNamedBy 2))
      | .error _ => false) = true := by decide +kernel
  -- The first copy of the name is written back as it is. The second one is interned again and
  -- becomes the first.
  constructor
  · split at hone
    · next c hparse =>
      have hbytes : c.bytes = .ok (classNamedBy 1) := by
        have hoption := of_decide_eq_true hone
        cases hw : c.bytes with
        | ok w =>
          rw [hw] at hoption
          exact congrArg Except.ok (Option.some.inj hoption)
        | error e =>
          rw [hw] at hoption
          cases hoption
      obtain ⟨x, hx, _, hiff⟩ := bytes_eq_ok_iff_first hparse
      exact ⟨c, x, hparse, hx, hbytes, (hiff.1 hbytes).2⟩
    · cases hone
  · split at htwo
    · next c hparse =>
      have hbytes : c.bytes ≠ .ok (classNamedBy 2) := by
        intro hw
        exact of_decide_eq_true htwo (by rw [hw]; rfl)
      obtain ⟨x, hx, _, hiff⟩ := bytes_eq_ok_iff_first hparse
      exact ⟨c, x, hparse, hx, hbytes, fun hfirst => hbytes (hiff.2 hfirst)⟩
    · cases htwo

end ClassFile
end ClassLoom
