import ClassLoom.Proofs.Code.ReadLater
import ClassLoom.Proofs.Weave.Attempts
import ClassLoom.Proofs.Weave.VariableTables

/-!
# Local variables in their new slots

Where a body has a variable of the retyped type, all its tables of variables are numbered anew:
the slot of a variable is the running total of the widths before it, whatever it was. Tables of
generic signatures are found again by old slot and range. The pool grows while the tables are
written, so what was read before is compared with what is read at the end.

* `LocalVariable.Renumbered`: a table before and after, with slots that do not overlap;
* `retypeTables_renumbers`, `followsTables_of_followSlots`: what the two passes over the attributes
  do;
* `retypeLocals_renumbers`: retyping the variables of a method, what it leaves as it was, and that
  it is done after one run.
-/

namespace ClassLoom

open ConstantPool
open Interning (Appends)

/-! ## Tables before and after

Within a table, variables keep their order and get slots one behind the other from zero on. So two
of them never overlap, and a table that has been renumbered once stays as it is. -/

namespace LocalVariable

/-- Whether the variable `w` is `v` in some slot, with `polyfill` in the place of `legacy`. -/
structure RetypedAs (legacy polyfill : String) (v w : LocalVariable) : Prop where
  name : w.name = v.name
  start : w.start = v.start
  length : w.length = v.length
  descriptor : w.descriptor = if v.descriptor = legacy then polyfill else v.descriptor

/-- Whether the table `ws` is the table `vs` with `polyfill` in the place of `legacy` and with all
variables in new slots, one behind the other. -/
structure Renumbered (legacy polyfill : String) (vs ws : List LocalVariable) : Prop where
  retyped : List.Forall₂ (RetypedAs legacy polyfill) vs ws
  typed : ∀ w ∈ ws, ∃ type, FieldType.parse w.descriptor = .ok type
  slots : ∀ i (h : i < ws.length), ws[i].slot.toNat = widthOf (ws.take i)

namespace Renumbered

variable {legacy polyfill : String} {vs ws : List LocalVariable}

/-- **The slots of renumbered variables do not overlap**: each variable ends before all later
ones. -/
theorem disjoint (h : Renumbered legacy polyfill vs ws) :
    ws.Pairwise fun v w => v.slot.toNat + v.width ≤ w.slot.toNat := by
  rw [List.pairwise_iff_getElem]
  intro i j hi hj hij
  rw [h.slots i hi, h.slots j hj, ← widthOf_take_succ hi]
  exact widthOf_take_mono ws hij

/-- Variables that were numbered by running totals keep their slots. -/
theorem slots_eq (h : Renumbered legacy polyfill vs ws)
    (hvs : ∀ i (hi : i < vs.length), vs[i].slot.toNat = widthOf (ws.take i)) :
    ws.map (·.slot) = vs.map (·.slot) := by
  have hlength := h.retyped.length_eq
  refine List.ext_getElem (by rw [List.length_map, List.length_map, hlength]) fun i hi hi' => ?_
  rw [List.length_map] at hi hi'
  rw [List.getElem_map, List.getElem_map]
  exact UInt16.toNat.inj ((h.slots i hi).trans (hvs i hi').symm)

/-- No variable of a renumbered table is of the old type. -/
theorem descriptor_ne (h : Renumbered legacy polyfill vs ws) (hne : polyfill ≠ legacy)
    {w : LocalVariable} (hw : w ∈ ws) : w.descriptor ≠ legacy := by
  obtain ⟨v, _, hretyped⟩ := exists_of_mem_right h.retyped hw
  rw [hretyped.descriptor]
  split
  · exact hne
  · assumption

end Renumbered
end LocalVariable

namespace Weave

open LocalVariable (Renumbered tablesOf widthOf)

/-- **Renumbering gives every variable the total of the widths before it**, from the first slot on.
It fails where a type cannot be read, or a slot is too large for its word. -/
theorem renumber_spec {next total : Nat} {vs ws : List LocalVariable}
    (h : renumber next vs = .ok (ws, total)) :
    List.Forall₂ (fun v w => w = { v with slot := w.slot }) vs ws
      ∧ (∀ w ∈ ws, ∃ type, FieldType.parse w.descriptor = .ok type)
      ∧ (∀ i (hi : i < ws.length), ws[i].slot.toNat = next + widthOf (ws.take i))
      ∧ total = next + widthOf ws := by
  induction vs generalizing next ws total with
  | nil =>
    cases h
    exact ⟨.nil, by simp, fun i hi => absurd hi (Nat.not_lt_zero i), rfl⟩
  | cons v vs ih =>
    obtain ⟨type, htype, h⟩ := bind_eq_ok.1 h
    simp only at h
    split at h
    · cases h
    -- The slot is one that a word can hold, and the rest is numbered behind it.
    · next hnext =>
      obtain ⟨⟨rest, last⟩, hrest, hend⟩ := bind_eq_ok.1 h
      cases hend
      obtain ⟨hkept, htyped, hslots, rfl⟩ := ih hrest
      have hwidth : LocalVariable.width { v with slot := UInt16.ofNat next } = type.width :=
        LocalVariable.width_eq htype
      refine ⟨.cons rfl hkept, List.forall_mem_cons.2 ⟨⟨type, htype⟩, htyped⟩, ?_, ?_⟩
      · intro i hi
        cases i with
        | zero => exact UInt16.toNat_ofNat_of_lt' (Nat.lt_succ_of_le (Nat.not_lt.1 hnext))
        | succ i =>
          rw [List.getElem_cons_succ, List.take_succ_cons, LocalVariable.widthOf_cons, hwidth,
            hslots i (Nat.lt_of_succ_lt_succ hi), Nat.add_assoc]
      · rw [LocalVariable.widthOf_cons, hwidth, Nat.add_assoc]

/-- A table that is retyped and renumbered from zero on is renumbered in this sense. Every slot is
the running total of the widths in front of it. -/
theorem renumbered_of_renumber {legacy polyfill : String} {vs ws : List LocalVariable}
    {total : Nat} (h : renumber 0 (vs.map (retypeVariable legacy polyfill)) = .ok (ws, total)) :
    Renumbered legacy polyfill vs ws ∧ total = widthOf ws := by
  obtain ⟨hkept, htyped, hslots, htotal⟩ := renumber_spec h
  rw [Nat.zero_add] at htotal
  refine ⟨⟨(List.forall₂_map_left_iff.1 hkept).imp fun v w hw => ?_, htyped, ?_⟩, htotal⟩
  · have hretyped : (retypeVariable legacy polyfill v).descriptor
        = if v.descriptor = legacy then polyfill else v.descriptor := by
      unfold retypeVariable
      split <;> rfl
    -- Only the descriptor may differ from the variable as it was; the slot is renumbered
    -- afterwards.
    have hsame : retypeVariable legacy polyfill v
        = { v with descriptor := (retypeVariable legacy polyfill v).descriptor } := by
      unfold retypeVariable
      split <;> rfl
    rw [hsame] at hw
    rw [hw]
    exact ⟨rfl, rfl, rfl, hretyped⟩
  · intro i hi
    rw [hslots i hi, Nat.zero_add]

/-! ## The tables of a body

A body may have several tables of variables. Each is renumbered on its own, and all the new slots
are taken up in one list for the tables of generic signatures. -/

/-- What is read of an attribute: its variables, if it is a table of these. Other attributes are
passed on. -/
theorem variablesOf_eq_ok {pool : ConstantPool} {a : Attribute}
    {t : Attribute × Option (List LocalVariable)} (h : variablesOf pool a = .ok t) :
    t.1 = a ∧ (a.name = LocalVariable.tableName → t.2.isSome)
      ∧ ∀ entries, t.2 = some entries → a.name = LocalVariable.tableName
        ∧ LocalVariable.parseTable pool a.info = .ok entries := by
  unfold variablesOf at h
  split at h
  · next hname =>
    obtain ⟨entries, hentries, hend⟩ := bind_eq_ok.1 h
    cases hend
    refine ⟨rfl, fun _ => rfl, fun found hfound => ?_⟩
    cases hfound
    exact ⟨hname, hentries⟩
  · next hname =>
    cases h
    exact ⟨rfl, fun hname' => absurd hname' hname, fun _ hnone => by cases hnone⟩

/-- The variables that were read are those of the tables. No variable comes from any other
attribute. -/
theorem mem_tables_of_variablesOf {pool : ConstantPool} {attributes : List Attribute}
    {read : List (Attribute × Option (List LocalVariable))} {tables : List (List LocalVariable)}
    (hread : List.Forall₂ (fun a t => variablesOf pool a = .ok t) attributes read)
    (htables : tablesOf pool attributes = .ok tables)
    {t : Attribute × Option (List LocalVariable)} (ht : t ∈ read) {v : LocalVariable}
    (hv : v ∈ t.2.getD []) : ∃ entries, v ∈ entries ∧ entries ∈ tables := by
  obtain ⟨a, ha, hvariables⟩ := exists_of_mem_right hread ht
  obtain ⟨_, _, hparsed⟩ := variablesOf_eq_ok hvariables
  obtain ⟨b, _ | entries⟩ := t
  · cases hv
  · obtain ⟨hname, hparse⟩ := hparsed entries rfl
    exact ⟨entries, hv, LocalVariable.mem_tables htables ha hname hparse⟩

/-- Whether the tables of variables among attributes have been renumbered. Those before are read
in the pool `pool`, those after in `later`. -/
structure RenumbersTables (legacy polyfill : String) (pool later : ConstantPool)
    (olds news : List Attribute) (tables : List (List LocalVariable × List LocalVariable)) :
    Prop where
  before : tablesOf pool olds = .ok (tables.map Prod.fst)
  after : tablesOf later news = .ok (tables.map Prod.snd)
  renumbered : ∀ t ∈ tables, Renumbered legacy polyfill t.1 t.2

/-- Takes up the slots that the variables of all tables got. -/
def Renumbering.addAll (r : Renumbering)
    (tables : List (List LocalVariable × List LocalVariable)) : Renumbering :=
  tables.foldl (fun r t => r.add t.1 t.2 (widthOf t.2)) r

/-- The variables of all tables, each before and after. -/
def movesOf (tables : List (List LocalVariable × List LocalVariable)) :
    List (LocalVariable × LocalVariable) :=
  tables.flatMap fun t => t.1.zip t.2

namespace Renumbering

variable (r : Renumbering) (tables : List (List LocalVariable × List LocalVariable))

/-- The slots that are taken up are those of all variables, the last ones in front. -/
theorem slots_addAll : (r.addAll tables).slots
    = ((movesOf tables).map fun p => (rangeKey p.1, p.2.slot)).reverse ++ r.slots := by
  induction tables generalizing r with
  | nil => rfl
  | cons t tables ih =>
    have hmoves : movesOf (t :: tables) = t.1.zip t.2 ++ movesOf tables := List.flatMap_cons
    show ((r.add t.1 t.2 (widthOf t.2)).addAll tables).slots = _
    rw [ih, hmoves, List.map_append, List.reverse_append, List.append_assoc]
    rfl

/-- The total is the largest of those of the tables. -/
theorem total_addAll :
    (r.addAll tables).total = (tables.map fun t => widthOf t.2).foldl max r.total := by
  induction tables generalizing r with
  | nil => rfl
  | cons t tables ih =>
    show ((r.add t.1 t.2 (widthOf t.2)).addAll tables).total = _
    rw [ih]
    rfl

end Renumbering

section Tables

variable {legacy polyfill : String} {start pool pool' later : ConstantPool}

/-- **All tables are renumbered**, and all slots that variables got are taken up. The pool grows on
the way, so what is written for one table is read in the last pool. -/
theorem retypeTables_renumbers {olds news : List Attribute}
    {tables : List (Attribute × Option (List LocalVariable))} {r r' : Renumbering}
    (htables : List.Forall₂ (fun a t => variablesOf start a = .ok t) olds tables)
    (hpool : Reachable pool)
    (h : retypeTables legacy polyfill r tables pool = .ok (news, r') pool')
    (hgrown : Grown pool' later) :
    ∃ pairs, RenumbersTables legacy polyfill start later olds news pairs
      ∧ r' = r.addAll pairs
      ∧ List.Forall₂ (fun a b : Attribute =>
        b.name = a.name ∧ (a.name ≠ LocalVariable.tableName → b = a)) olds news := by
  induction htables generalizing r pool news with
  | nil =>
    obtain ⟨hpair, rfl⟩ := Interning.pure_eq_ok.1 h
    cases hpair
    exact ⟨[], ⟨rfl, rfl, by simp⟩, rfl, .nil⟩
  | @cons old t olds tables ht _ ih =>
    obtain ⟨hattribute, hisSome, hparsed⟩ := variablesOf_eq_ok ht
    obtain ⟨a, _ | entries⟩ := t
    · obtain rfl : a = old := hattribute
      have hname : a.name ≠ LocalVariable.tableName := fun hname => by cases hisSome hname
      obtain ⟨⟨more, r''⟩, mid, hmore, hend⟩ := Interning.bind_eq_ok.1 h
      obtain ⟨hpair, rfl⟩ := Interning.pure_eq_ok.1 hend
      cases hpair
      obtain ⟨pairs, hpairs, hadded, hrest⟩ := ih hpool hmore
      refine ⟨pairs, ⟨?_, ?_, hpairs.renumbered⟩, hadded, .cons ⟨rfl, fun _ => rfl⟩ hrest⟩
      · rw [LocalVariable.tablesOf_cons_of_ne hname, hpairs.before]
      · rw [LocalVariable.tablesOf_cons_of_ne hname, hpairs.after]
    · obtain rfl : a = old := hattribute
      obtain ⟨hname, hparse⟩ := hparsed entries rfl
      obtain ⟨⟨renumbered, total⟩, hrenumbered, h⟩ := Interning.lift_bind_eq_ok.1 h
      obtain ⟨info, mid, hinfo, h⟩ := Interning.bind_eq_ok.1 h
      obtain ⟨⟨more, r''⟩, mid', hmore, hend⟩ := Interning.bind_eq_ok.1 h
      obtain ⟨hpair, rfl⟩ := Interning.pure_eq_ok.1 hend
      cases hpair
      -- A table of variables: it is written into a pool that only grows from here on.
      obtain ⟨hentries, rfl⟩ := renumbered_of_renumber hrenumbered
      have hmid := (LocalVariable.appends_tableBytes renumbered).reachable_of_ok hpool hinfo
      have hlater := ((appends_retypeTables legacy polyfill _ tables).grown_of_ok hmore).trans
        hgrown
      have hwritten := LocalVariable.parseTable_tableBytes hpool.consistent.located hinfo hlater
      obtain ⟨pairs, hpairs, hadded, hrest⟩ := ih hmid hmore
      refine ⟨(entries, renumbered) :: pairs, ⟨?_, ?_, ?_⟩, hadded, .cons ⟨rfl, ?_⟩ hrest⟩
      · exact (LocalVariable.tablesOf_cons_eq_ok hname).2 ⟨_, _, hparse, hpairs.before, rfl⟩
      · exact (LocalVariable.tablesOf_cons_eq_ok (a := { a with info }) hname).2
          ⟨_, _, hwritten, hpairs.after, rfl⟩
      · exact List.forall_mem_cons.2 ⟨hentries, hpairs.renumbered⟩
      · exact fun hother => absurd hname hother

/-! ## Generic signatures

A table of generic signatures says the same about some variables in another form. Its entries follow
the variable of their slot and range, if there is exactly one place where that went. -/

/-- Whether the entry `f` of a table of generic signatures is `e`, in the slot that the one
variable with its old slot and its range got. -/
structure FollowsVariable (moves : List (LocalVariable × LocalVariable)) (e f : LocalVariable) :
    Prop where
  kept : f = { e with slot := f.slot }
  moved : ∀ p, moves.filter (fun q => rangeKey q.1 = rangeKey e) = [p] → f.slot = p.2.slot
  unmoved : (∀ q ∈ moves, rangeKey q.1 ≠ rangeKey e) → f.slot = e.slot

/-- Whether an attribute of a body has followed the tables of variables, and is the same as before
if it is no such table. The pool is `pool` before and `later` after. -/
structure FollowsTables (pool later : ConstantPool) (moves : List (LocalVariable × LocalVariable))
    (a b : Attribute) : Prop where
  name : b.name = a.name
  other : a.name ≠ LocalVariable.tableName → a.name ≠ LocalVariable.typeTableName → b = a
  signatures : a.name = LocalVariable.typeTableName → ∃ entries followed,
    LocalVariable.parseTable later a.info = .ok entries
      ∧ LocalVariable.parseTable later b.info = .ok followed
      ∧ (∀ found, LocalVariable.parseTable pool a.info = .ok found → found = entries)
      ∧ List.Forall₂ (FollowsVariable moves) entries followed

/-- An entry follows what is found under its slot and its range in the list of slots. Where
variables with one slot and range went to different places, the condition has nothing to say. -/
theorem followsVariable_lookup (tables : List (List LocalVariable × List LocalVariable))
    (e : LocalVariable) : FollowsVariable (movesOf tables) e { e with
      slot := ((Renumbering.addAll {} tables).slots.lookup (rangeKey e)).getD e.slot } := by
  have hmem (key : UInt16 × UInt16 × UInt16) (slot : UInt16) :
      (key, slot) ∈ (Renumbering.addAll {} tables).slots
        ↔ ∃ q ∈ movesOf tables, rangeKey q.1 = key ∧ q.2.slot = slot := by
    rw [Renumbering.slots_addAll]
    simp [Prod.ext_iff]
  have hfilter (q : LocalVariable × LocalVariable) :
      q ∈ (movesOf tables).filter (fun q => rangeKey q.1 = rangeKey e)
        ↔ q ∈ movesOf tables ∧ rangeKey q.1 = rangeKey e := by
    simp
  -- The look-up finds the latest entry of the key. If there is only one variable of the key, that
  -- is its entry.
  cases hfound : (Renumbering.addAll {} tables).slots.lookup (rangeKey e) with
  | none =>
    refine ⟨rfl, fun p hp => ?_, fun _ => rfl⟩
    obtain ⟨hmoved, hkey⟩ := (hfilter p).1 (by rw [hp]; exact List.mem_singleton_self p)
    have hin := (hmem _ _).2 ⟨p, hmoved, hkey, rfl⟩
    exact absurd (List.lookup_eq_none_iff.1 hfound _ hin) (by simp)
  | some slot =>
    obtain ⟨front, back, hsplit, _⟩ := List.lookup_eq_some_iff.1 hfound
    obtain ⟨q, hq, hkey, hslot⟩ := (hmem (rangeKey e) slot).1 (by rw [hsplit]; simp)
    refine ⟨rfl, fun p hp => ?_, fun hnone => absurd hkey (hnone q hq)⟩
    have hone := (hfilter q).2 ⟨hq, hkey⟩
    rw [hp, List.mem_singleton] at hone
    rw [← hone]
    exact hslot.symm

/-- Only tables of generic signatures follow. All others stay, those of variables too, which have
been renumbered before. -/
theorem followSlots_eq_ok {r : Renumbering} {a b : Attribute}
    (h : followSlots r a pool = .ok b pool') :
    b.name = a.name ∧ (a.name ≠ LocalVariable.typeTableName → b = a) := by
  unfold followSlots at h
  split at h
  · obtain ⟨rfl, rfl⟩ := Interning.pure_eq_ok.1 h
    exact ⟨rfl, fun _ => rfl⟩
  · next htype =>
    have h := Interning.get_bind_eq_ok.1 h
    obtain ⟨entries, _, h⟩ := Interning.lift_bind_eq_ok.1 h
    obtain ⟨info, _, _, hend⟩ := Interning.bind_eq_ok.1 h
    obtain ⟨rfl, rfl⟩ := Interning.pure_eq_ok.1 hend
    exact ⟨rfl, fun hother => absurd hother htype⟩

/-- **A table of generic signatures follows** the variables that were taken up. An entry for a
variable that was not taken up stays where it was. -/
theorem followSlots_follows {r : Renumbering} {a b : Attribute} (hpool : Reachable pool)
    (h : followSlots r a pool = .ok b pool') (hgrown : Grown pool' later)
    (hname : a.name = LocalVariable.typeTableName) :
    ∃ entries, LocalVariable.parseTable pool a.info = .ok entries
      ∧ LocalVariable.parseTable later b.info = .ok (entries.map fun e =>
        { e with slot := (r.slots.lookup (rangeKey e)).getD e.slot }) := by
  unfold followSlots at h
  rw [if_neg (not_not_intro hname)] at h
  have h := Interning.get_bind_eq_ok.1 h
  obtain ⟨entries, hentries, h⟩ := Interning.lift_bind_eq_ok.1 h
  obtain ⟨info, mid, hinfo, hend⟩ := Interning.bind_eq_ok.1 h
  obtain ⟨rfl, rfl⟩ := Interning.pure_eq_ok.1 hend
  exact ⟨entries, hentries,
    LocalVariable.parseTable_tableBytes hpool.consistent.located hinfo hgrown⟩

/-- What becomes of an attribute in both passes: `b` is what the first one leaves of `a`, and `c`
what the second one leaves of `b`. -/
theorem followsTables_of_followSlots {tables : List (List LocalVariable × List LocalVariable)}
    {a b c : Attribute} (hkept : b.name = a.name ∧ (a.name ≠ LocalVariable.tableName → b = a))
    (hstart : Grown start pool) (hpool : Reachable pool)
    (h : followSlots (.addAll {} tables) b pool = .ok c pool') (hgrown : Grown pool' later) :
    FollowsTables start later (movesOf tables) a c := by
  obtain ⟨hname, hother⟩ := hkept
  obtain ⟨hname', hother'⟩ := followSlots_eq_ok h
  refine ⟨hname'.trans hname, fun htable htype => ?_, fun htype => ?_⟩
  · obtain rfl := hother htable
    exact hother' htype
  · obtain rfl := hother (by rw [htype]; decide)
    obtain ⟨entries, hentries, hmoved⟩ := followSlots_follows hpool h hgrown htype
    have hlater := ((appends_followSlots _ b).grown_of_ok h).trans hgrown
    refine ⟨entries, _, LocalVariable.parseTable_grown hlater hentries, hmoved,
      fun found hfound => ?_, ?_⟩
    · have hsame := LocalVariable.parseTable_grown hstart hfound
      rw [hentries] at hsame
      exact (Except.ok.inj hsame).symm
    · rw [List.forall₂_map_right_iff, List.forall₂_same]
      exact fun e _ => followsVariable_lookup tables e

end Tables

/-! ## A method

Put together, a method gets a body with renumbered tables, with room for the variables in the
largest of them. -/

/-- What becomes of a body whose local variables are retyped: `tables` are its tables of variables
before and after, in the order of the attributes. -/
structure RenumbersLocals (legacy polyfill : String) (pool pool' : ConstantPool) (code code' : Code)
    (tables : List (List LocalVariable × List LocalVariable)) : Prop
    extends RenumbersTables legacy polyfill pool pool' code.attributes code'.attributes tables where
  legacy : ∃ t ∈ tables, ∃ v ∈ t.1, v.descriptor = legacy
  attributes : List.Forall₂ (FollowsTables pool pool' (movesOf tables)) code.attributes
    code'.attributes
  maxLocals : code'.maxLocals.toNat
    = (tables.map fun t => widthOf t.2).foldl max code.maxLocals.toNat
  /-- Instructions, handlers and the depth of the stack are the same. -/
  rest : { code' with maxLocals := code.maxLocals, attributes := code.attributes } = code

section Method

variable {legacy polyfill : String} {m m' : Member} {pool pool' : ConstantPool}

/-- Attributes that follow are those that were there, with new payloads for some. So the tables of
variables are found where they were. -/
theorem tablesOf_eq_of_forall₂ {olds news : List Attribute}
    (h : List.Forall₂ (fun a b : Attribute =>
      b.name = a.name ∧ (a.name ≠ LocalVariable.typeTableName → b = a)) olds news) :
    tablesOf pool news = tablesOf pool olds := by
  unfold tablesOf
  congr 1
  induction h with
  | nil => rfl
  | @cons a b olds news hab _ ih =>
    -- A table of variables stays as it is; any other attribute stays no such table.
    by_cases hname : a.name = LocalVariable.tableName
    · obtain rfl : b = a := hab.2 (by rw [hname]; decide)
      rw [List.filter_cons_of_pos (by simpa using hname),
        List.filter_cons_of_pos (by simpa using hname), ih]
    · rw [List.filter_cons_of_neg (by simpa [hab.1] using hname),
        List.filter_cons_of_neg (by simpa using hname), ih]

/-- The larger of a word and a number that is one. Nothing is lost by making a word of it first. -/
theorem toNat_max_ofNat {w : UInt16} {n : Nat} (h : n ≤ 65535) :
    (max w (UInt16.ofNat n)).toNat = max w.toNat n := by
  have hn : (UInt16.ofNat n).toNat = n := UInt16.toNat_ofNat_of_lt' (Nat.lt_succ_of_le h)
  have hmax : max w (UInt16.ofNat n) = if w ≤ UInt16.ofNat n then UInt16.ofNat n else w := rfl
  rw [hmax]
  split
  · next hle =>
    rw [UInt16.le_iff_toNat_le, hn] at hle
    rw [hn, Nat.max_eq_right hle]
  · next hlt =>
    rw [UInt16.le_iff_toNat_le, hn] at hlt
    rw [Nat.max_eq_left (Nat.le_of_not_le hlt)]

/-- **Retyping the variables of a method renumbers its tables**, and the method is given the body
with those. There are two passes: one over the tables of variables, and one over those of generic
signatures. -/
theorem renumbersLocals_of_retypeLocals (hpool : Reachable pool)
    (h : retypeLocals legacy polyfill m pool = .ok (some m') pool') :
    ∃ code code' tables, m.code? pool = .ok (some code) ∧ m.GivenBody m' code' pool'
      ∧ RenumbersLocals legacy polyfill pool pool' code code' tables := by
  obtain ⟨code, read, attributes, r, mid, followed, mid', hcode, hread, hlegacy, hretyped,
    hfollowed, htotal, hset⟩ := retypeLocals_eq_some h
  -- The pool grows in three steps, and what was read in front of them is still read behind.
  have hmid := (appends_retypeTables legacy polyfill {} read).reachable_of_ok hpool hretyped
  have hstart := (appends_retypeTables legacy polyfill {} read).grown_of_ok hretyped
  have hfollow : Appends (attributes.mapM (followSlots r)) :=
    Appends.mapM fun a _ => appends_followSlots r a
  have hlocated := (hfollow.reachable_of_ok hmid hfollowed).consistent.located
  have hlast := (m.appends_setCode _).grown_of_ok hset
  have hread := mapM_eq_ok.1 hread
  obtain ⟨tables, htables, rfl, hkept⟩ :=
    retypeTables_renumbers hread hpool hretyped ((hfollow.grown_of_ok hfollowed).trans hlast)
  have hsteps := Appends.forall₂_of_mapM (appends_followSlots _) hmid hfollowed
  have hnames := hsteps.imp fun a b ⟨_, _, _, _, hrun, _⟩ => followSlots_eq_ok hrun
  refine ⟨code, _, tables, hcode, Member.givenBody_setCode ?_ hlocated hset,
    ⟨⟨htables.before, ?_, htables.renumbered⟩, ?_, ?_, ?_, rfl⟩⟩
  · show code.bytecode ≠ []
    exact Member.bytecode_ne_nil_of_code? hcode
  -- Tables of generic signatures come after all renumbering and keep the tables of variables.
  · rw [tablesOf_eq_of_forall₂ hnames]
    exact htables.after
  · obtain ⟨t, ht, v, hv, hdescriptor⟩ := hlegacy
    obtain ⟨entries, hentries, hmem⟩ := mem_tables_of_variablesOf hread htables.before ht hv
    obtain ⟨pair, hpair, rfl⟩ := List.mem_map.1 hmem
    exact ⟨pair, hpair, v, hentries, hdescriptor⟩
  · refine forall₂_trans ?_ hkept hsteps
    rintro a b c hab ⟨before, after, hbefore, hgrown, hrun, hafter⟩
    exact followsTables_of_followSlots hab (hstart.trans hgrown) hbefore hrun (hafter.trans hlast)
  · show (max code.maxLocals _).toNat = _
    rw [toNat_max_ofNat htotal, Renumbering.total_addAll]
    exact List.foldl_assoc.symm.trans (by rw [Nat.max_zero])

/-- A method without variables of the old type is not retyped. Its tables are read all the same, to
find that out. -/
theorem retypeLocals_eq_none {code : Code} {tables : List (List LocalVariable)}
    (hcode : m.code? pool = .ok (some code)) (htables : tablesOf pool code.attributes = .ok tables)
    (hnone : ∀ t ∈ tables, ∀ v ∈ t, v.descriptor ≠ legacy) :
    retypeLocals legacy polyfill m pool = .ok none pool := by
  -- All tables can be read, so only the test for variables of the type decides.
  obtain ⟨read, hread⟩ : ∃ read, code.attributes.mapM (variablesOf pool) = .ok read := by
    refine exists_mapM_ok fun a ha => ?_
    unfold variablesOf
    split
    · next hname =>
      obtain ⟨entries, _, hentries⟩ := LocalVariable.exists_mem_tables htables ha hname
      rw [hentries]
      exact ⟨_, rfl⟩
    · exact ⟨_, rfl⟩
  refine Interning.get_bind_eq_ok.2 (Interning.lift_bind_eq_ok.2 ⟨some code, hcode, ?_⟩)
  refine Interning.lift_bind_eq_ok.2 ⟨read, hread, ?_⟩
  simp only
  rw [if_pos]
  · exact Interning.pure_eq_ok.2 ⟨rfl, rfl⟩
  · rw [Bool.not_eq_true', List.any_eq_false]
    intro t ht hany
    obtain ⟨v, hv, hdescriptor⟩ := List.any_eq_true.1 hany
    obtain ⟨entries, hentries, hmem⟩ :=
      mem_tables_of_variablesOf (mapM_eq_ok.1 hread) htables ht hv
    exact hnone entries hmem v hentries (of_decide_eq_true hdescriptor)

/-- Where a method is not retyped, the pool is as it was. Nothing has been interned by the time when
it is known. -/
theorem pool_eq_of_retypeLocals_none
    (h : retypeLocals legacy polyfill m pool = .ok none pool') : pool' = pool := by
  have h := Interning.get_bind_eq_ok.1 h
  obtain ⟨found, _, h⟩ := Interning.lift_bind_eq_ok.1 h
  cases found with
  | none => exact (Interning.pure_eq_ok.1 h).2.symm
  | some code =>
    obtain ⟨tables, _, h⟩ := Interning.lift_bind_eq_ok.1 h
    simp only at h
    split at h
    · exact (Interning.pure_eq_ok.1 h).2.symm
    -- Once a table is written, the result is a method or a failure.
    · obtain ⟨⟨attributes, r⟩, mid, _, h⟩ := Interning.bind_eq_ok.1 h
      obtain ⟨followed, mid', _, h⟩ := Interning.bind_eq_ok.1 h
      simp only at h
      split at h
      · cases h
      · obtain ⟨_, _, _, hend⟩ := Interning.bind_eq_ok.1 h
        cases (Interning.pure_eq_ok.1 hend).1

/-- **Retyping renumbers the variables of a method once.** Each table keeps its variables in their
order, in slots one behind the other, and tables of generic signatures follow; nothing else about
the method is different, and there is nothing to retype in it then. A method that is not retyped
is kept, and so is the pool. -/
theorem retypeLocals_renumbers (hne : polyfill ≠ legacy) (hpool : Reachable pool) :
    (∀ m' pool', retypeLocals legacy polyfill m pool = .ok (some m') pool' →
      ∃ code code' tables, m.code? pool = .ok (some code) ∧ m.GivenBody m' code' pool'
        ∧ RenumbersLocals legacy polyfill pool pool' code code' tables
        ∧ (∀ t ∈ tables, t.2.Pairwise (fun v w => v.slot.toNat + v.width ≤ w.slot.toNat)
          ∧ ((∀ i (hi : i < t.1.length), t.1[i].slot.toNat = widthOf (t.2.take i)) →
            t.2.map (·.slot) = t.1.map (·.slot)))
        ∧ retypeLocals legacy polyfill m' pool' = .ok none pool'
        ∧ ∀ className done diagnostics,
          retypeNext className legacy polyfill (done, pool, diagnostics) m
            = (m' :: done, pool', diagnostics))
    ∧ (∀ pool', retypeLocals legacy polyfill m pool = .ok none pool' → pool' = pool)
    ∧ ((∀ m' pool', retypeLocals legacy polyfill m pool ≠ .ok (some m') pool') →
      ∀ className done diagnostics, ∃ more,
        retypeNext className legacy polyfill (done, pool, diagnostics) m
          = (m :: done, pool, diagnostics ++ more)) := by
  refine ⟨fun m' pool' h => ?_, fun pool' => pool_eq_of_retypeLocals_none, fun h => ?_⟩
  · obtain ⟨code, code', tables, hcode, hgiven, hrenumbers⟩ :=
      renumbersLocals_of_retypeLocals hpool h
    refine ⟨code, code', tables, hcode, hgiven, hrenumbers, fun t ht => ?_, ?_, ?_⟩
    · exact ⟨(hrenumbers.renumbered t ht).disjoint, (hrenumbers.renumbered t ht).slots_eq⟩
    -- No variable has the old type any more, since the new one is another.
    · refine retypeLocals_eq_none (hgiven.code? []) hrenumbers.after ?_
      rw [List.forall_mem_map]
      exact fun t ht w hw => (hrenumbers.renumbered t ht).descriptor_ne hne hw
    · intro className done diagnostics
      simp only [retypeNext, Interning.on, h]
  · intro className done diagnostics
    simp only [retypeNext, Interning.on]
    cases hresult : retypeLocals legacy polyfill m pool with
    | error e mid => exact ⟨_, rfl⟩
    | ok retyped mid =>
      cases retyped with
      | none => exact ⟨[], by rw [List.append_nil]⟩
      | some m' => exact absurd hresult (h m' mid)

/-- Three variables out of order, the first of the retyped type, and its generic signature. The
slots that the signature names are those of its variable, before and after. -/
theorem retypeLocals_renumbers_signature :
    let locals : List LocalVariable :=
      [⟨0, 1, "old", "LOld;", 7⟩, ⟨0, 1, "wide", "J", 3⟩, ⟨0, 1, "last", "I", 0⟩]
    let signatures : List LocalVariable := [⟨0, 1, "old", "LOld<TT;>;", 7⟩]
    let given : Interning Member := do
      let table ← LocalVariable.tableBytes locals
      let types ← LocalVariable.tableBytes signatures
      Member.setCode { access := 1, name := "m", descriptor := "()V", attributes := [] }
        { maxStack := 0, maxLocals := 2, bytecode := [0xb1],
          attributes := [⟨"LocalVariableTable", table⟩, ⟨"LocalVariableTypeTable", types⟩] }
    ∃ m pool m' pool', given empty = .ok m pool ∧ Reachable pool ∧ "LNew;" ≠ "LOld;"
      ∧ retypeLocals "LOld;" "LNew;" m pool = .ok (some m') pool'
      ∧ (∃ code code' tables, m.code? pool = .ok (some code) ∧ m.GivenBody m' code' pool'
        ∧ RenumbersLocals "LOld;" "LNew;" pool pool' code code' tables)
      ∧ retypeLocals "LOld;" "LNew;" m' pool' = .ok none pool' := by
  intro locals signatures given
  have hgiven : Appends given :=
    (LocalVariable.appends_tableBytes locals).bind fun _ =>
      (LocalVariable.appends_tableBytes signatures).bind fun _ => Member.appends_setCode _ _
  have hrun : (((given >>= retypeLocals "LOld;" "LNew;").on empty).toOption
      >>= Prod.fst).isSome = true := by
    decide +kernel
  obtain ⟨m', hm'⟩ := Option.isSome_iff_exists.1 hrun
  obtain ⟨⟨retyped, pool'⟩, hon, rfl⟩ := toOption_bind_eq_some.1 hm'
  obtain ⟨m, pool, hm, h⟩ := Interning.bind_eq_ok.1 (Interning.on_eq_ok.1 hon)
  have hpool := hgiven.reachable_of_ok .empty hm
  have hne : "LNew;" ≠ "LOld;" := by decide
  obtain ⟨code, code', tables, hcode, hbody, hrenumbers, _, hagain, _⟩ :=
    (retypeLocals_renumbers hne hpool).1 m' pool' h
  exact ⟨m, pool, m', pool', hm, hpool, hne, h, ⟨code, code', tables, hcode, hbody, hrenumbers⟩,
    hagain⟩

end Method

end Weave
end ClassLoom
