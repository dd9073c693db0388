import ClassLoom.Proofs.StackMap.RoundTrip
import ClassLoom.Proofs.Typing.Retype
import ClassLoom.Proofs.Typing.SlotValues

/-!
# Tables of frames read back from their written form

Writing a table interns the names of classes in it, so what was written is read back under the
pool that writing leaves, and under every pool that has grown from it.

* `changeTo_spec`: the change that is written leads to the values that it was made for;
* `bytes_spec`: a table that was written declares the states in it.
-/

namespace ClassLoom.Typing

open ConstantPool

/-! ## Growing pools

Entries name classes in the pool as it is when they are written. Later entries make it grow, which
changes none of the earlier ones. -/

section Grown

variable {old new : ConstantPool}

/-- An entry stands for the same type in a grown pool. -/
theorem SlotType.ofEntry_grown (hgrown : Grown old new) {e : StackMap.Entry} {t : SlotType}
    (h : SlotType.ofEntry old e = .ok t) : SlotType.ofEntry new e = .ok t := by
  cases e with
  | object index =>
    obtain ⟨name, hname, hend⟩ := bind_eq_ok.1 h
    exact bind_eq_ok.2 ⟨name, hgrown.getClassName hname, hend⟩
  | _ => exact h

theorem SlotType.mapM_ofEntry_grown (hgrown : Grown old new) {es : List StackMap.Entry}
    {values : List SlotType} (h : es.mapM (SlotType.ofEntry old) = .ok values) :
    es.mapM (SlotType.ofEntry new) = .ok values := by
  rw [mapM_eq_ok] at h ⊢
  exact h.imp fun _ _ => SlotType.ofEntry_grown hgrown

/-- A change leads to the same values in a grown pool. Entries are all that is looked up in it. -/
theorem FrameTable.change_grown (hgrown : Grown old new) {previous : List SlotType}
    {c : StackMap.Change} {values : List SlotType × List SlotType}
    (h : FrameTable.change old previous c = .ok values) :
    FrameTable.change new previous c = .ok values := by
  cases c with
  | same => exact h
  | sameLocals stack =>
    obtain ⟨t, ht, hend⟩ := bind_eq_ok.1 h
    exact bind_eq_ok.2 ⟨t, SlotType.ofEntry_grown hgrown ht, hend⟩
  | chop count => exact h
  | append more =>
    obtain ⟨ts, hts, hend⟩ := bind_eq_ok.1 h
    exact bind_eq_ok.2 ⟨ts, SlotType.mapM_ofEntry_grown hgrown hts, hend⟩
  | full locals stack =>
    obtain ⟨ls, hls, h⟩ := bind_eq_ok.1 h
    obtain ⟨ss, hss, hend⟩ := bind_eq_ok.1 h
    exact bind_eq_ok.2 ⟨ls, SlotType.mapM_ofEntry_grown hgrown hls,
      bind_eq_ok.2 ⟨ss, SlotType.mapM_ofEntry_grown hgrown hss, hend⟩⟩

end Grown

/-! ## Entries

A type and the entry that is written for it stand for each other, in the pool that has the class by
then. -/

section Written

variable {pool pool' : ConstantPool}

/-- The entry that is written for a type stands for it. -/
theorem SlotType.entry_spec {t : SlotType} {e : StackMap.Entry} (hpool : Reachable pool)
    (h : t.entry pool = .ok e pool') : SlotType.ofEntry pool' e = .ok t := by
  cases t with
  | reference name =>
    obtain ⟨index, mid, hintern, hend⟩ := Interning.bind_eq_ok.1 h
    obtain ⟨rfl, rfl⟩ := Interning.pure_eq_ok.1 hend
    exact bind_eq_ok.2 ⟨name, internClass_spec hpool hintern, rfl⟩
  | _ =>
    cases h
    rfl

/-- The entries that are written for values stand for them, one each. They are written in a pool
that grows from one to the next. -/
theorem SlotType.entries_spec {values : List SlotType} {es : List StackMap.Entry}
    (hpool : Reachable pool) (h : values.mapM SlotType.entry pool = .ok es pool') :
    es.mapM (SlotType.ofEntry pool') = .ok values := by
  induction values generalizing pool es with
  | nil =>
    rw [List.mapM_nil] at h
    obtain ⟨rfl, rfl⟩ := Interning.pure_eq_ok.1 h
    rfl
  | cons t values ih =>
    rw [List.mapM_cons] at h
    obtain ⟨e, mid, he, h⟩ := Interning.bind_eq_ok.1 h
    obtain ⟨more, last, hmore, hend⟩ := Interning.bind_eq_ok.1 h
    obtain ⟨rfl, rfl⟩ := Interning.pure_eq_ok.1 hend
    have hmid := (SlotType.appends_entry t).reachable_of_ok hpool he
    -- The pool of the first entry is still there behind the others, only larger.
    have hgrown := (FrameTable.appends_entries values).grown_of_ok hmore
    have hhead := SlotType.ofEntry_grown hgrown (SlotType.entry_spec hpool he)
    have htail := ih hmid hmore
    rw [List.mapM_cons]
    exact bind_eq_ok.2 ⟨t, hhead, bind_eq_ok.2 ⟨values, htail, rfl⟩⟩

/-! ## Changes

Which change is written depends on the frame in front. Every choice leads back to the values it was
made for. -/

/-- A full change leads to the values that it lists. It is the form for all that has none of its
own. -/
theorem FrameTable.full_spec {previous locals stack : List SlotType} {c : StackMap.Change}
    (hpool : Reachable pool)
    (h : (do
      let locals ← locals.mapM SlotType.entry
      let stack ← stack.mapM SlotType.entry
      return .full locals stack : Interning StackMap.Change) pool = .ok c pool') :
    FrameTable.change pool' previous c = .ok (locals, stack) ∧ c.WellFormed := by
  obtain ⟨ls, mid, hls, h⟩ := Interning.bind_eq_ok.1 h
  obtain ⟨ss, last, hss, hend⟩ := Interning.bind_eq_ok.1 h
  obtain ⟨rfl, rfl⟩ := Interning.pure_eq_ok.1 hend
  have hmid := (FrameTable.appends_entries locals).reachable_of_ok hpool hls
  have hgrown := (FrameTable.appends_entries stack).grown_of_ok hss
  have hlocals := SlotType.mapM_ofEntry_grown hgrown (SlotType.entries_spec hpool hls)
  have hstack := SlotType.entries_spec hmid hss
  exact ⟨bind_eq_ok.2 ⟨locals, hlocals, bind_eq_ok.2 ⟨stack, hstack, rfl⟩⟩, trivial⟩

/-- The change that is written for other locals and an empty stack leads to these. Up to three
variables may be taken away at the end or added there; everything else is written out. -/
theorem FrameTable.changeLocals_spec {previous locals : List SlotType} {c : StackMap.Change}
    (hpool : Reachable pool)
    (h : (if locals.length < previous.length && previous.length - locals.length ≤ 3
          && locals.isPrefixOf previous then
        return .chop (previous.length - locals.length)
      else if previous.length < locals.length && locals.length - previous.length ≤ 3
          && previous.isPrefixOf locals then
        return .append (← (locals.drop previous.length).mapM SlotType.entry)
      else return .full (← locals.mapM SlotType.entry) [] :
        Interning StackMap.Change) pool = .ok c pool') :
    FrameTable.change pool' previous c = .ok (locals, []) ∧ c.WellFormed := by
  -- Each form takes the locals in front as they are, or does without them.
  split at h
  · next hchop =>
    obtain ⟨rfl, rfl⟩ := Interning.pure_eq_ok.1 h
    simp only [Bool.and_eq_true, decide_eq_true_eq, List.isPrefixOf_iff_prefix] at hchop
    obtain ⟨⟨hlt, hle⟩, hprefix⟩ := hchop
    have hkeep : previous.length - (previous.length - locals.length) = locals.length := by omega
    refine ⟨?_, by omega, hle⟩
    simp only [FrameTable.change]
    rw [if_pos (by omega), hkeep, ← List.prefix_iff_eq_take.1 hprefix]
    rfl
  · split at h
    · next happend =>
      obtain ⟨es, mid, hes, hend⟩ := Interning.bind_eq_ok.1 h
      obtain ⟨rfl, rfl⟩ := Interning.pure_eq_ok.1 hend
      simp only [Bool.and_eq_true, decide_eq_true_eq, List.isPrefixOf_iff_prefix] at happend
      obtain ⟨⟨hlt, hle⟩, more, rfl⟩ := happend
      rw [List.drop_left] at hes
      have hmore := SlotType.entries_spec hpool hes
      have hlength := (mapM_eq_ok.1 hmore).length_eq
      rw [List.length_append] at hlt hle
      exact ⟨bind_eq_ok.2 ⟨more, hmore, rfl⟩, by omega, by omega⟩
    · obtain ⟨ls, mid, hls, hend⟩ := Interning.bind_eq_ok.1 h
      obtain ⟨rfl, rfl⟩ := Interning.pure_eq_ok.1 hend
      exact ⟨bind_eq_ok.2 ⟨locals, SlotType.entries_spec hpool hls, rfl⟩, trivial⟩

/-- **The change that is written leads to the values that it was made for.** It can be written,
too. -/
theorem FrameTable.changeTo_spec {previous locals stack : List SlotType} {c : StackMap.Change}
    (hpool : Reachable pool) (h : FrameTable.changeTo previous locals stack pool = .ok c pool') :
    FrameTable.change pool' previous c = .ok (locals, stack) ∧ c.WellFormed := by
  unfold FrameTable.changeTo at h
  -- With the local variables of the frame in front, at most one entry on the stack has a form of
  -- its own; with others, none.
  cases hsame : decide (locals = previous) with
  | true =>
    rw [hsame] at h
    obtain rfl := of_decide_eq_true hsame
    rcases stack with _ | ⟨value, _ | ⟨_, _⟩⟩
    · obtain ⟨rfl, rfl⟩ := Interning.pure_eq_ok.1 h
      exact ⟨rfl, trivial⟩
    · obtain ⟨e, mid, he, hend⟩ := Interning.bind_eq_ok.1 h
      obtain ⟨rfl, rfl⟩ := Interning.pure_eq_ok.1 hend
      exact ⟨bind_eq_ok.2 ⟨value, SlotType.entry_spec hpool he, rfl⟩, trivial⟩
    · exact FrameTable.full_spec hpool h
  | false =>
    rw [hsame] at h
    rcases stack with _ | ⟨value, _ | ⟨_, _⟩⟩
    · exact FrameTable.changeLocals_spec hpool h
    · exact FrameTable.full_spec hpool h
    · exact FrameTable.full_spec hpool h

/-! ## Tables

By induction on the frames, each with the local variables of the one in front. -/

/-- The frames that are written declare the states of a table. The change to each is made from the
one in front. -/
theorem FrameTable.frames_spec {table : FrameTable} {maxLocals : Nat} {previous : List SlotType}
    {frames : List StackMap.Frame} (hpool : Reachable pool)
    (hpaired : ∀ f ∈ table, f.2.Paired ∧ f.2.locals.length = maxLocals)
    (h : FrameTable.frames previous table pool = .ok frames pool') :
    FrameTable.declared pool' maxLocals previous frames = .ok table
      ∧ ∀ f ∈ frames, f.change.WellFormed := by
  induction table generalizing pool previous frames with
  | nil =>
    obtain ⟨rfl, rfl⟩ := Interning.pure_eq_ok.1 h
    exact ⟨rfl, fun f hf => absurd hf List.not_mem_nil⟩
  | cons frame table ih =>
    obtain ⟨offset, state⟩ := frame
    obtain ⟨hstate, htable⟩ := List.forall_mem_cons.1 hpaired
    obtain ⟨c, mid, hc, h⟩ := Interning.bind_eq_ok.1 h
    obtain ⟨more, last, hmore, hend⟩ := Interning.bind_eq_ok.1 h
    obtain ⟨rfl, rfl⟩ := Interning.pure_eq_ok.1 hend
    have hmid := (appends_changeTo _ _ _).reachable_of_ok hpool hc
    have hgrown := (appends_frames _ _).grown_of_ok hmore
    obtain ⟨hchange, hwf⟩ := changeTo_spec hpool hc
    obtain ⟨hdeclared, hwfs⟩ := ih hmid htable hmore
    -- A frame is declared by its values, of which its slots are made again.
    have hvalues := MachineState.ofValues_values hstate.1
    rw [hstate.2] at hvalues
    refine ⟨?_, List.forall_mem_cons.2 ⟨hwf, hwfs⟩⟩
    refine bind_eq_ok.2 ⟨_, change_grown hgrown hchange, ?_⟩
    exact bind_eq_ok.2 ⟨state, hvalues, bind_eq_ok.2 ⟨table, hdeclared, rfl⟩⟩

/-- **A table that was written declares the states in it.** -/
theorem FrameTable.bytes_spec {table : FrameTable} {maxLocals : Nat} {previous : List SlotType}
    {info : Bytes} (hpool : Reachable pool)
    (hpaired : ∀ f ∈ table, f.2.Paired ∧ f.2.locals.length = maxLocals)
    (h : FrameTable.bytes previous table pool = .ok info pool') :
    ∃ frames, StackMap.parse info = .ok frames
      ∧ FrameTable.declared pool' maxLocals previous frames = .ok table := by
  obtain ⟨frames, mid, hframes, hend⟩ := Interning.bind_eq_ok.1 h
  obtain ⟨hbytes, rfl⟩ := Interning.lift_eq_ok.1 hend
  obtain ⟨hdeclared, hwf⟩ := frames_spec hpool hpaired hframes
  exact ⟨frames, StackMap.parse_bytes hwf hbytes, hdeclared⟩

end Written
end ClassLoom.Typing
