import Mathlib.Data.Set.Defs
import Mathlib.Logic.Function.Iterate
import ClassLoom.Proofs.Scope.InterfaceOrder
import ClassLoom.Proofs.Scope.Superclasses

/-!
# All interfaces of a class

`Scope.interfaceClosure` goes from level to level, and there are no more levels than it has steps:
every level but the last has an interface that can be seen and that was on none before. So it gives
what one queue gives from which interfaces are taken one at a time (`Walk`), with what they extend
put behind all others, and that walk comes to an end. It ends only where everything that is reached
has been listed (`Walk.Covers`).

* `iterate_next_level`: the turns of the interfaces of one level;
* `exists_turns`: the walk ends, with the interfaces that are listed;
* `mem_interfaceClosure_iff`: the interfaces of a class are the least set of its kind.
-/

namespace ClassLoom.Scope

variable {scope : Scope} {roots seen frontier : List String} {name : String}

/-- A walk over interfaces: those that wait for a turn, the next one first, and those that have
been listed, the last one last. -/
structure Walk where
  waiting : List String
  listed : List String

namespace Walk

/-- One turn of a walk. An interface that has been listed before is passed over. Another one is
listed, and what it extends waits behind all others. -/
def next (scope : Scope) : Walk → Walk
  | ⟨[], listed⟩ => ⟨[], listed⟩
  | ⟨name :: waiting, listed⟩ =>
    if name ∈ listed then ⟨waiting, listed⟩
    else ⟨waiting ++ scope.interfacesOf name, listed ++ [name]⟩

/-! ## The end of the walk

The queue and the levels of the walk that the scope makes list the same, in the same order. That the
queue gets empty comes from the levels, of which there are no more than interfaces that can be
seen. -/

/-- What is fresh behind an interface that is fresh itself. It is fresh no more for those behind it,
so each is listed once. -/
theorem freshOf_cons (seen : List String) (name : String) (rest : List String) :
    freshOf seen (name :: rest) = if name ∈ seen then freshOf seen rest
      else name :: freshOf (seen ++ [name]) rest := by
  unfold freshOf
  by_cases hseen : name ∈ seen
  · rw [if_pos hseen, List.filter_cons_of_neg (by simpa using hseen)]
  · rw [if_neg hseen, List.filter_cons_of_pos (by simpa using hseen), List.eraseDups_cons,
      List.filter_filter]
    refine congrArg (fun rest => name :: List.eraseDups rest) (List.filter_congr fun other _ => ?_)
    by_cases hsame : other = name
    · subst hsame
      simp
    · simp [hsame]

/-- **The interfaces of one level have their turns**: what is fresh among them is listed, and what
that extends waits behind what has been waiting. -/
theorem iterate_next_level (scope : Scope) (seen frontier later : List String) :
    (next scope)^[frontier.length] ⟨frontier ++ later, seen⟩
      = ⟨later ++ (freshOf seen frontier).flatMap scope.interfacesOf,
          seen ++ freshOf seen frontier⟩ := by
  induction frontier generalizing seen later with
  | nil =>
    show (⟨later, seen⟩ : Walk) = ⟨later ++ [], seen ++ []⟩
    rw [List.append_nil, List.append_nil]
  | cons name rest ih =>
    rw [List.length_cons, Function.iterate_succ_apply, List.cons_append, freshOf_cons]
    by_cases hseen : name ∈ seen
    · rw [next, if_pos hseen, if_pos hseen, ih]
    · rw [next, if_neg hseen, if_neg hseen, List.append_assoc, ih, List.flatMap_cons,
        List.append_assoc, List.append_assoc]
      rfl

/-- How many of some interfaces can be seen. -/
def visible (scope : Scope) (names : List String) : Nat :=
  names.countP fun name => (scope.lookup name).isSome

theorem visible_le_size (scope : Scope) (h : seen.Nodup) : visible scope seen ≤ scope.size := by
  rw [visible, List.countP_eq_length_filter]
  refine length_names_le_size (h.filter _) fun name hname => ?_
  exact Option.isSome_iff_exists.1 (List.mem_filter.1 hname).2

/-- Where fresh interfaces extend others, some of them can be seen. The walk ends by this: the
classes that have not been listed become fewer. -/
theorem visible_lt_append (seen : List String) {fresh : List String}
    (h : fresh.flatMap scope.interfacesOf ≠ []) :
    visible scope seen < visible scope (seen ++ fresh) := by
  obtain ⟨name, hname⟩ := List.exists_mem_of_ne_nil _ h
  obtain ⟨child, hchild, hname⟩ := List.mem_flatMap.1 hname
  have hvisible : (scope.lookup child).isSome := by
    unfold interfacesOf at hname
    cases hlookup : scope.lookup child with
    | none =>
      rw [hlookup] at hname
      cases hname
    | some stub => rfl
  have hpos : 0 < visible scope fresh := List.countP_pos_iff.2 ⟨child, hchild, hvisible⟩
  have happend : visible scope (seen ++ fresh) = visible scope seen + visible scope fresh :=
    List.countP_append
  omega

/-- **The walk comes to an end**, where the levels that are left are more than there are interfaces
to be seen, and has listed what these levels have. -/
theorem exists_turns {fuel : Nat} (hseen : seen.Nodup)
    (hfuel : frontier = [] ∨ scope.size + 1 < fuel + visible scope seen) :
    ∃ turns, (next scope)^[turns] ⟨frontier, seen⟩
      = ⟨[], seen ++ scope.closureFrom fuel seen frontier⟩ := by
  induction fuel generalizing seen frontier with
  | zero =>
    have hle := visible_le_size scope hseen
    rcases hfuel with rfl | hfuel
    · exact ⟨0, by rw [closureFrom, List.append_nil]; rfl⟩
    · omega
  | succ fuel ih =>
    have hlevel := iterate_next_level scope seen frontier []
    rw [List.append_nil, List.nil_append] at hlevel
    rw [closureFrom_succ]
    by_cases hfresh : freshOf seen frontier = []
    · rw [hfresh] at hlevel
      rw [if_pos hfresh]
      exact ⟨frontier.length, hlevel⟩
    · have hnodup : (seen ++ freshOf seen frontier).Nodup := by
        refine List.nodup_append.2 ⟨hseen, nodup_eraseDups _, ?_⟩
        rintro name hname _ hother rfl
        exact (mem_freshOf.1 hother).2 hname
      -- Where another level comes, something fresh could be seen, so fewer are left to be seen.
      have hroom : (freshOf seen frontier).flatMap scope.interfacesOf = []
          ∨ scope.size + 1 < fuel + visible scope (seen ++ freshOf seen frontier) := by
        by_cases hnone : (freshOf seen frontier).flatMap scope.interfacesOf = []
        · exact .inl hnone
        · have hmore := visible_lt_append seen hnone
          rcases hfuel with rfl | hfuel
          · exact absurd rfl hfresh
          · exact .inr (by omega)
      obtain ⟨turns, hturns⟩ := ih hnodup hroom
      refine ⟨turns + frontier.length, ?_⟩
      rw [Function.iterate_add_apply, hlevel, hturns, if_neg hfresh, List.append_assoc]

/-! ## What has been reached

A walk covers its start and what it has listed: all that these lead to is listed or waits. Turns
keep that up, and when nothing waits, what is listed is closed. -/

/-- Whether an interface is on its way or has been listed. -/
def Has (walk : Walk) (name : String) : Prop := name ∈ walk.waiting ∨ name ∈ walk.listed

/-- Whether a walk has all interfaces that it starts with and all that the listed ones extend. -/
structure Covers (scope : Scope) (roots : List String) (walk : Walk) : Prop where
  roots : ∀ name ∈ roots, walk.Has name
  extended : ∀ child ∈ walk.listed, ∀ name ∈ scope.interfacesOf child, walk.Has name

/-- A turn loses no interface. What has been listed stays listed, and what waits is listed or goes
on waiting. -/
theorem Has.next {walk : Walk} (h : walk.Has name) : (next scope walk).Has name := by
  unfold Walk.next
  -- The first name that waits goes over to those that are listed, or was one of them already.
  split
  · exact h
  · next first waiting listed =>
    split
    · next hlisted =>
      rcases h with hwaiting | hdone
      · rcases List.mem_cons.1 hwaiting with rfl | hwaiting
        · exact .inr hlisted
        · exact .inl hwaiting
      · exact .inr hdone
    · rcases h with hwaiting | hdone
      · rcases List.mem_cons.1 hwaiting with rfl | hwaiting
        · exact .inr (List.mem_append_right _ (List.mem_singleton_self _))
        · exact .inl (List.mem_append_left _ hwaiting)
      · exact .inr (List.mem_append_left _ hdone)

/-- What a turn lists has been listed, or puts what it extends behind all others. So what it extends
is listed sooner or later. -/
theorem has_of_mem_listed_next {walk : Walk} {child : String}
    (hchild : child ∈ (next scope walk).listed) :
    child ∈ walk.listed
      ∨ ∀ name ∈ scope.interfacesOf child, (next scope walk).Has name := by
  unfold next at hchild ⊢
  split at hchild
  · exact .inl hchild
  · split at hchild
    · exact .inl hchild
    · next hnew =>
      rcases List.mem_append.1 hchild with hdone | hlast
      · exact .inl hdone
      · obtain rfl := List.mem_singleton.1 hlast
        rw [if_neg hnew]
        exact .inr fun name hname => .inl (List.mem_append_right _ hname)

/-- **A turn keeps the walk covering.** -/
theorem Covers.next {walk : Walk} (h : Covers scope roots walk) :
    Covers scope roots (next scope walk) where
  roots name hname := (h.roots name hname).next
  extended child hchild name hname := by
    rcases has_of_mem_listed_next hchild with hdone | hnew
    · exact (h.extended child hdone name hname).next
    · exact hnew name hname

/-- So do any number of turns. -/
theorem Covers.iterate {walk : Walk} (h : Covers scope roots walk) (turns : Nat) :
    Covers scope roots ((Walk.next scope)^[turns] walk) := by
  induction turns with
  | zero => exact h
  | succ turns ih =>
    rw [Function.iterate_succ_apply']
    exact ih.next

theorem covers_start (scope : Scope) (roots : List String) : Covers scope roots ⟨roots, []⟩ where
  roots _ hname := .inl hname
  extended := nofun

end Walk

/-! ## The interfaces of a class

What the walk lists at its end is the least set that has what the class lists and what its members
extend. -/

section Class

variable {className : String}

/-- **The walk from the listed interfaces of a class ends** with all its interfaces. -/
theorem exists_turns_interfaceClosure (scope : Scope) (className : String) :
    ∃ turns, (Walk.next scope)^[turns] ⟨scope.listedInterfaces className, []⟩
      = ⟨[], scope.interfaceClosure className⟩ :=
  Walk.exists_turns .nil (.inr (Nat.lt_succ_self _))

/-- At the end of the walk nothing waits. -/
theorem covers_interfaceClosure (scope : Scope) (className : String) :
    Walk.Covers scope (scope.listedInterfaces className)
      ⟨[], scope.interfaceClosure className⟩ := by
  obtain ⟨turns, hturns⟩ := exists_turns_interfaceClosure scope className
  have hcovers := (Walk.covers_start scope (scope.listedInterfaces className)).iterate turns
  rwa [hturns] at hcovers

/-- What an interface of a class extends is an interface of the class. -/
theorem mem_interfaceClosure_of_extended {child : String}
    (hchild : child ∈ scope.interfaceClosure className) (hname : name ∈ scope.interfacesOf child) :
    name ∈ scope.interfaceClosure className :=
  ((covers_interfaceClosure scope className).extended child hchild name hname).resolve_left
    List.not_mem_nil

/-- **The interfaces of a class are the least set** with those that it lists and with all that its
members extend. -/
theorem mem_interfaceClosure_iff : name ∈ scope.interfaceClosure className
    ↔ ∀ names : Set String, (∀ listed ∈ scope.listedInterfaces className, listed ∈ names)
      → (∀ child ∈ names, ∀ extended ∈ scope.interfacesOf child, extended ∈ names)
      → name ∈ names := by
  constructor
  · intro h names hlisted hextended
    obtain ⟨via, hvia⟩ := exists_ascends_of_mem_interfaceClosure h
    clear h
    induction hvia with
    | root hname => exact hlisted _ hname
    | step _ hname ih => exact hextended _ ih _ hname
  · intro h
    exact h {name | name ∈ scope.interfaceClosure className}
      (fun _ hlisted => mem_interfaceClosure_of_listed hlisted)
      (fun _ hchild _ hname => mem_interfaceClosure_of_extended hchild hname)

end Class
end ClassLoom.Scope
