import Mathlib.Data.List.Nodup
import Mathlib.Data.Nat.Find
import ClassLoom.Scope

/-!
# The order of the interfaces of a class

`Scope.closureFrom` lists interfaces level by level. What is `seen` at level `n` are the interfaces
that are reached in fewer than `n` steps, and the frontier has those that take `n` (`AtLevel`), so
an interface is listed at the level of its shortest way.

* `Ascends`: ways from the interfaces that a class lists to those that they extend;
* `nodup_interfaceClosure`: every interface is listed once;
* `pairwise_interfaceClosure`: none is nearer than one before it;
* `NoFarther.exists_avoiding`: what is no farther than an interface is reached without it.
-/

namespace ClassLoom.Scope

/-- Whether an interface is reached from those among `roots`, by way of the interfaces `via`, of
which the last one comes first. -/
inductive Ascends (scope : Scope) (roots : List String) : List String → String → Prop where
  | root {name : String} (h : name ∈ roots) : Ascends scope roots [] name
  | step {via : List String} {child name : String} (h : Ascends scope roots via child)
    (hname : name ∈ scope.interfacesOf child) : Ascends scope roots (child :: via) name

/-- Whether one interface takes no more steps from `roots` than another one. -/
def NoFarther (scope : Scope) (roots : List String) (name other : String) : Prop :=
  ∀ via, scope.Ascends roots via other → ∃ via', scope.Ascends roots via' name
    ∧ via'.length ≤ via.length

variable {scope : Scope} {roots : List String} {name other : String}

/-- On the way to an interface there are only nearer ones. -/
theorem Ascends.exists_shorter {via : List String} (h : scope.Ascends roots via name)
    (hother : other ∈ via) : ∃ via', scope.Ascends roots via' other ∧ via'.length < via.length := by
  induction h with
  | root _ => cases hother
  | @step via child _ hchild _ ih =>
    rcases List.mem_cons.1 hother with rfl | hother
    · exact ⟨via, hchild, Nat.lt_succ_self _⟩
    · obtain ⟨via', hvia', hlt⟩ := ih hother
      exact ⟨via', hvia', Nat.lt_succ_of_lt hlt⟩

/-- **An interface that is no farther than another one is reached without it.** A shortest way to it
does not lead through what is at least as far. -/
theorem NoFarther.exists_avoiding (h : scope.NoFarther roots name other) {via : List String}
    (hvia : scope.Ascends roots via name) :
    ∃ via', scope.Ascends roots via' name ∧ other ∉ via' := by
  classical
  -- A shortest way does: if it led past `other`, there would be a shorter one.
  have hlengths : ∃ n, ∃ via, scope.Ascends roots via name ∧ via.length = n :=
    ⟨via.length, via, hvia, rfl⟩
  obtain ⟨shortest, hshortest, hlength⟩ := Nat.find_spec hlengths
  refine ⟨shortest, hshortest, fun hother => ?_⟩
  obtain ⟨before, hbefore, hlt⟩ := hshortest.exists_shorter hother
  obtain ⟨shorter, hshorter, hle⟩ := h before hbefore
  exact Nat.find_min hlengths (by omega) ⟨shorter, hshorter, rfl⟩

/-! ## Levels

The walk goes by levels. At each one it knows all interfaces of fewer steps, and has those of one
more step in its frontier, maybe again with some that it knows; what is fresh takes exactly so many
steps. -/

/-- The state of the walk before level `n`: what is seen takes fewer steps, and the frontier has
what takes `n`. -/
structure AtLevel (scope : Scope) (roots : List String) (n : Nat) (seen frontier : List String) :
    Prop where
  mem_seen : ∀ name, name ∈ seen ↔ ∃ via, scope.Ascends roots via name ∧ via.length < n
  ascends : ∀ name ∈ frontier, ∃ via, scope.Ascends roots via name ∧ via.length = n
  mem_frontier : ∀ name via, name ∉ seen → scope.Ascends roots via name → via.length = n →
    name ∈ frontier

/-- The interfaces that a level adds. -/
def freshOf (seen frontier : List String) : List String :=
  (frontier.filter fun name => !seen.contains name).eraseDups

theorem mem_freshOf {seen frontier : List String} :
    name ∈ freshOf seen frontier ↔ name ∈ frontier ∧ name ∉ seen := by
  simp [freshOf]

/-- A list without repetitions has none. -/
theorem nodup_eraseDups {α : Type} [BEq α] [LawfulBEq α] (xs : List α) : xs.eraseDups.Nodup := by
  -- What is left behind the first entry gets shorter, so the induction is on the length.
  induction h : xs.length using Nat.strongRecOn generalizing xs with
  | ind n ih =>
    cases xs with
    | nil => exact .nil
    | cons x xs =>
      rw [List.eraseDups_cons]
      refine List.nodup_cons.2 ⟨by simp, ih _ ?_ _ rfl⟩
      rw [← h]
      exact Nat.lt_succ_of_le (List.length_filter_le ..)

/-- The walk adds what is fresh and goes on, until nothing is, or until the fuel is used up. -/
theorem closureFrom_succ (fuel : Nat) (seen frontier : List String) :
    scope.closureFrom (fuel + 1) seen frontier = if freshOf seen frontier = [] then []
      else freshOf seen frontier ++ scope.closureFrom fuel (seen ++ freshOf seen frontier)
        ((freshOf seen frontier).flatMap scope.interfacesOf) := by
  rw [closureFrom]
  split
  · next hnone => exact (if_pos hnone).symm
  · next hsome => exact (if_neg hsome).symm

section Levels

variable {n : Nat} {seen frontier : List String}

/-- What is seen before the first level and what is not. -/
theorem AtLevel.start : AtLevel scope roots 0 [] roots := by
  refine ⟨by simp, fun name hname => ⟨[], .root hname, rfl⟩, fun name via _ hvia hlength => ?_⟩
  cases hvia with
  | root hname => exact hname
  | step _ _ => cases hlength

/-- What is fresh at a level takes as many steps as the level says. -/
theorem AtLevel.ascends_of_mem_freshOf (h : AtLevel scope roots n seen frontier)
    (hname : name ∈ freshOf seen frontier) :
    ∃ via, scope.Ascends roots via name ∧ via.length = n :=
  h.ascends name (mem_freshOf.1 hname).1

/-- **From one level to the next**: what was fresh is seen, and what it lists takes one step
more. -/
theorem AtLevel.next (h : AtLevel scope roots n seen frontier) :
    AtLevel scope roots (n + 1) (seen ++ freshOf seen frontier)
      ((freshOf seen frontier).flatMap scope.interfacesOf) := by
  have hseen : ∀ name, name ∈ seen ++ freshOf seen frontier
      ↔ ∃ via, scope.Ascends roots via name ∧ via.length < n + 1 := by
    intro name
    rw [List.mem_append]
    constructor
    · rintro (hseen | hfresh)
      · obtain ⟨via, hvia, hlt⟩ := (h.mem_seen name).1 hseen
        exact ⟨via, hvia, by omega⟩
      · obtain ⟨via, hvia, hlength⟩ := h.ascends_of_mem_freshOf hfresh
        exact ⟨via, hvia, by omega⟩
    · rintro ⟨via, hvia, hlt⟩
      by_cases hold : name ∈ seen
      · exact .inl hold
      · have hlength : via.length = n := by
          have hle : ¬ via.length < n := fun hlt => hold ((h.mem_seen name).2 ⟨via, hvia, hlt⟩)
          omega
        exact .inr (mem_freshOf.2 ⟨h.mem_frontier name via hold hvia hlength, hold⟩)
  refine ⟨hseen, fun name hname => ?_, fun name via hnew hvia hlength => ?_⟩
  · obtain ⟨child, hchild, hname⟩ := List.mem_flatMap.1 hname
    obtain ⟨via, hvia, hlength⟩ := h.ascends_of_mem_freshOf hchild
    exact ⟨child :: via, .step hvia hname, congrArg (· + 1) hlength⟩
  · cases hvia with
    | root _ => cases hlength
    | @step via child _ hchild hname =>
      have hlength : via.length = n := Nat.succ.inj hlength
      -- If the step before were to what is seen, then this one would have been made as well.
      have hold : child ∉ seen := by
        intro hold
        obtain ⟨shorter, hshorter, hlt⟩ := (h.mem_seen child).1 hold
        exact hnew ((hseen name).2 ⟨child :: shorter, .step hshorter hname, Nat.succ_lt_succ hlt⟩)
      refine List.mem_flatMap.2 ⟨child, mem_freshOf.2 ⟨?_, hold⟩, hname⟩
      exact h.mem_frontier child via hold hchild hlength

/-- What the walk lists has not been seen. -/
theorem not_mem_of_mem_closureFrom {fuel : Nat} (h : name ∈ scope.closureFrom fuel seen frontier) :
    name ∉ seen := by
  induction fuel generalizing seen frontier with
  | zero => cases h
  | succ fuel ih =>
    rw [closureFrom_succ] at h
    split at h
    · cases h
    · rcases List.mem_append.1 h with hfresh | hlater
      · exact (mem_freshOf.1 hfresh).2
      · exact fun hseen => ih hlater (List.mem_append_left _ hseen)

/-- The walk lists nothing twice, since it goes on only from what has not been seen. -/
theorem nodup_closureFrom (fuel : Nat) (seen frontier : List String) :
    (scope.closureFrom fuel seen frontier).Nodup := by
  induction fuel generalizing seen frontier with
  | zero => exact .nil
  | succ fuel ih =>
    rw [closureFrom_succ]
    split
    · exact .nil
    · refine List.nodup_append.2 ⟨nodup_eraseDups _, ih _ _, ?_⟩
      rintro name hfresh _ hlater rfl
      exact not_mem_of_mem_closureFrom hlater (List.mem_append_right _ hfresh)

/-- What is listed can be reached. The number of its steps is the level at which it is listed. -/
theorem AtLevel.exists_ascends (h : AtLevel scope roots n seen frontier) {fuel : Nat}
    (hname : name ∈ scope.closureFrom fuel seen frontier) :
    ∃ via, scope.Ascends roots via name := by
  induction fuel generalizing n seen frontier with
  | zero => cases hname
  | succ fuel ih =>
    rw [closureFrom_succ] at hname
    split at hname
    · cases hname
    · rcases List.mem_append.1 hname with hfresh | hlater
      · obtain ⟨via, hvia, _⟩ := h.ascends_of_mem_freshOf hfresh
        exact ⟨via, hvia⟩
      · exact ih h.next hlater

/-- What has not been seen takes at least as many steps as what is fresh. -/
theorem AtLevel.noFarther (h : AtLevel scope roots n seen frontier)
    (hname : name ∈ freshOf seen frontier) (hother : other ∉ seen) :
    scope.NoFarther roots name other := by
  intro via hvia
  obtain ⟨via', hvia', hlength⟩ := h.ascends_of_mem_freshOf hname
  have hle : ¬ via.length < n := fun hlt => hother ((h.mem_seen other).2 ⟨via, hvia, hlt⟩)
  exact ⟨via', hvia', by omega⟩

/-- From any level on, the walk lists interfaces in the order of their steps. Within a level the
order is that in which classes name their interfaces. -/
theorem AtLevel.pairwise_closureFrom (h : AtLevel scope roots n seen frontier) (fuel : Nat) :
    (scope.closureFrom fuel seen frontier).Pairwise (scope.NoFarther roots) := by
  induction fuel generalizing n seen frontier with
  | zero => exact .nil
  | succ fuel ih =>
    rw [closureFrom_succ]
    split
    · exact .nil
    · refine List.pairwise_append.2 ⟨?_, ih h.next, fun name hname other hother => ?_⟩
      · refine List.pairwise_of_forall_mem_list fun name hname other hother => ?_
        exact h.noFarther hname (mem_freshOf.1 hother).2
      · refine h.noFarther hname fun hseen => ?_
        exact not_mem_of_mem_closureFrom hother (List.mem_append_left _ hseen)

end Levels

/-! ## The interfaces of a class

The walk starts from what the class and its superclasses list. What comes out of it is in the order
of the steps, each interface once. -/

/-- The interfaces that a class and its superclasses list. -/
def listedInterfaces (scope : Scope) (className : String) : List String :=
  (scope.superclasses className).flatMap (·.interfaces)

section Class

variable {className : String}

/-- **Every interface of a class is listed once.** -/
theorem nodup_interfaceClosure (scope : Scope) (className : String) :
    (scope.interfaceClosure className).Nodup :=
  nodup_closureFrom _ _ _

/-- An interface of a class is reached from those that the class and its superclasses list. -/
theorem exists_ascends_of_mem_interfaceClosure (h : name ∈ scope.interfaceClosure className) :
    ∃ via, scope.Ascends (scope.listedInterfaces className) via name :=
  AtLevel.start.exists_ascends h

/-- The interfaces that a class lists itself are among them. -/
theorem mem_interfaceClosure_of_listed (h : name ∈ scope.listedInterfaces className) :
    name ∈ scope.interfaceClosure className := by
  have hfresh : name ∈ freshOf [] (scope.listedInterfaces className) :=
    mem_freshOf.2 ⟨h, List.not_mem_nil⟩
  show name ∈ scope.closureFrom (scope.size + 2) [] (scope.listedInterfaces className)
  rw [closureFrom_succ, if_neg (List.ne_nil_of_mem hfresh)]
  exact List.mem_append_left _ hfresh

/-- **The interfaces of a class are listed by the steps that they take.** -/
theorem pairwise_interfaceClosure (scope : Scope) (className : String) :
    (scope.interfaceClosure className).Pairwise
      (scope.NoFarther (scope.listedInterfaces className)) :=
  AtLevel.start.pairwise_closureFrom _

end Class
end ClassLoom.Scope
