import ClassLoom.Jar
import ClassLoom.Proofs.Descriptor.Printed
import Mathlib.Data.List.Basic
import Mathlib.Data.List.Induction
import Mathlib.Data.List.Pairwise
import Mathlib.Data.List.TakeDrop
import Mathlib.Data.List.TakeWhile

/-!
# The classes of a jar

A jar gives each name at most one class, whatever order its entries stand in: the first one of the
base, or else the first one of the highest version (`Holds`).

* `layer?_eq_some_iff`: the layer of an entry by its path name (`InLayer`);
* `chosen_taken`: what taking the entries up one after the other leaves for a name (`Chosen`);
* `holds_find?_stubs`: the class of a name that a jar holds;
* `stubs_eq_of_perm`: entries whose classes differ in name or layer can be in any order.
-/

namespace ClassLoom
namespace Jar

variable {multiRelease : Bool} {name : String}

/-! ## Layers

A jar for several releases has directories with versions of its classes. A path name tells its
layer, and this is said here by how path names are built rather than by how they are cut. -/

/-- The layer that a path name stands in: the base for what is outside the jar's own directory,
and with layers the number of the directory for what is in a directory of layers. -/
inductive InLayer (multiRelease : Bool) : List Char → Nat → Prop where
  | base {path : List Char} (houtside : ¬ ownDirectory.toList <+: path) :
    InLayer multiRelease path 0
  | version {number rest : List Char} {layer : Nat} (hlayers : multiRelease = true)
    (hnumber : '/' ∉ number) (hversion : version? number = some layer) :
    InLayer multiRelease (layerDirectory.toList ++ (number ++ '/' :: rest)) layer

/-- Where a text is cut at its first slash. The number of a version is what stands in front of
it. -/
theorem span_slash_eq_iff {cs number rest : List Char} {c : Char} :
    cs.span (· ≠ '/') = (number, c :: rest)
      ↔ c = '/' ∧ '/' ∉ number ∧ cs = number ++ '/' :: rest := by
  rw [List.span_eq_takeWhile_dropWhile, Prod.mk.injEq]
  constructor
  · rintro ⟨rfl, hdrop⟩
    have hcs := eq_takeWhile_append_cons hdrop
    have hsame : cs.takeWhile (· ≠ '/') ++ c :: rest = cs.takeWhile (· ≠ '/') ++ '/' :: rest := by
      rw [← hdrop, List.takeWhile_append_dropWhile]
      exact hcs
    refine ⟨(List.cons.inj (List.append_cancel_left hsame)).1, fun hmem => ?_, hcs⟩
    simpa using List.mem_takeWhile_imp hmem
  · rintro ⟨rfl, hnumber, rfl⟩
    have hall : ∀ c ∈ number, decide (c ≠ '/') = true := fun c hc =>
      decide_eq_true fun h => hnumber (h ▸ hc)
    rw [List.takeWhile_append_of_pos hall, List.dropWhile_append_of_pos hall]
    simp

theorem ownDirectory_isPrefix_layerDirectory :
    ownDirectory.toList <+: layerDirectory.toList := by decide

/-- Only class files have a layer, and they have that of their path name. In a jar without versions
that is the base, whatever the path name is. -/
theorem layer?_eq_some_iff {layer : Nat} : layer? multiRelease name = some layer
    ↔ ".class".toList <:+ name.toList ∧ InLayer multiRelease name.toList layer := by
  unfold layer?
  generalize name.toList = path
  simp only [Bool.not_eq_true', Bool.eq_false_iff, ne_eq, List.isPrefixOf_iff_prefix,
    List.reverse_prefix]
  by_cases hclass : ".class".toList <:+ path
  · simp only [hclass, not_true, if_false, true_and]
    cases hlayers : layerDirectory.toList.isPrefixOf? path with
    -- Outside the directory of layers only the jar's own directory does not count.
    | none =>
      have hnot : ¬ layerDirectory.toList <+: path := by
        rintro ⟨rest, hrest⟩
        rw [List.isPrefixOf?_eq_some_iff_append_eq.2 hrest] at hlayers
        cases hlayers
      dsimp only
      split
      · next hown =>
        refine iff_of_false nofun ?_
        rintro (houtside | _)
        · exact houtside hown
        · exact hnot (List.prefix_append ..)
      · next hown =>
        constructor
        · intro h
          obtain rfl := Option.some.inj h
          exact .base hown
        · rintro (_ | _)
          · rfl
          · exact absurd (List.prefix_append ..) hnot
    -- Inside it the number is what stands in front of the next slash.
    | some rest =>
      have hpath := List.isPrefixOf?_eq_some_iff_append_eq.1 hlayers
      have hown : ownDirectory.toList <+: path :=
        ownDirectory_isPrefix_layerDirectory.trans ⟨rest, hpath⟩
      dsimp only
      constructor
      · intro h
        split at h
        · next number c tail hspan =>
          obtain ⟨rfl, hnumber, rfl⟩ := span_slash_eq_iff.1 hspan
          rw [← hpath]
          split at h
          · exact .version ‹_› hnumber h
          · cases h
        · cases h
      · rintro (houtside | ⟨hmulti, hnumber, hversion⟩)
        · exact absurd hown houtside
        · obtain rfl := List.append_cancel_left hpath
          simp only [span_slash_eq_iff.2 ⟨rfl, hnumber, rfl⟩, hmulti, if_true, hversion]
  · simp only [hclass, not_false_eq_true, if_true, false_and, reduceCtorEq]

/-! ## Definitions

An entry defines a class if it has a layer and can be read. Declarations of packages and modules are
classes by their form, and are left out. -/

/-- What an entry of a jar defines: a class that can be read, in a layer. -/
structure Defines (multiRelease : Bool) (entry : String × Bytes) (layer : Nat)
    (stub : ClassStub) : Prop where
  isClassFile : ".class".toList <:+ entry.1.toList
  inLayer : InLayer multiRelease entry.1.toList layer
  readable : (ClassFile.parse entry.2 >>= ClassFile.stub) = .ok stub

/-- Whether an entry defines a class is decided by its path name and its content. -/
theorem defines_iff {entry : String × Bytes} {layer : Nat} {stub : ClassStub} :
    Defines multiRelease entry layer stub ↔ layer? multiRelease entry.1 = some layer
      ∧ (ClassFile.parse entry.2 >>= ClassFile.stub) = .ok stub := by
  rw [layer?_eq_some_iff]
  exact ⟨fun h => ⟨⟨h.isClassFile, h.inLayer⟩, h.readable⟩, fun h => ⟨h.1.1, h.1.2, h.2⟩⟩

/-- Whether an entry is taken up for a name, with what it defines. -/
def Offers (multiRelease : Bool) (name : String) (entry : String × Bytes) (layer : Nat)
    (stub : ClassStub) : Prop :=
  layer? multiRelease entry.1 = some layer ∧ ClassStub.ofBytes? entry.2 = some stub
    ∧ stub.name = name

/-- A content gives a stub if it can be read as a class, and if that is no declaration. Contents
that cannot be read are passed over, with no error. -/
theorem ofBytes?_eq_some_iff {content : Bytes} {stub : ClassStub} :
    ClassStub.ofBytes? content = some stub
      ↔ (ClassFile.parse content >>= ClassFile.stub) = .ok stub
        ∧ ClassStub.isDeclarationName stub.name = false := by
  unfold ClassStub.ofBytes?
  cases ClassFile.parse content >>= ClassFile.stub with
  | error e => simp only [reduceCtorEq, false_and]
  | ok read =>
    simp only [Except.ok.injEq]
    constructor
    · intro h
      split at h
      · cases h
      · next hname =>
        obtain rfl := Option.some.inj h
        exact ⟨rfl, Bool.eq_false_iff.2 hname⟩
    · rintro ⟨rfl, hname⟩
      rw [hname, if_neg Bool.false_ne_true]

/-- An entry is taken up for the names of what it defines, those of declarations left out. -/
theorem offers_iff {entry : String × Bytes} {layer : Nat} {stub : ClassStub} :
    Offers multiRelease name entry layer stub
      ↔ Defines multiRelease entry layer stub ∧ stub.name = name
        ∧ ClassStub.isDeclarationName name = false := by
  unfold Offers
  rw [defines_iff, ofBytes?_eq_some_iff]
  constructor
  · rintro ⟨hlayer, ⟨hread, hdeclared⟩, rfl⟩
    exact ⟨⟨hlayer, hread⟩, rfl, hdeclared⟩
  · rintro ⟨⟨hlayer, hread⟩, rfl, hdeclared⟩
    exact ⟨hlayer, ⟨hread, hdeclared⟩, rfl⟩

theorem Offers.unique {entry : String × Bytes} {layer layer' : Nat} {stub stub' : ClassStub}
    (h : Offers multiRelease name entry layer stub)
    (h' : Offers multiRelease name entry layer' stub') : layer = layer' ∧ stub = stub' :=
  ⟨Option.some.inj (h.1.symm.trans h'.1), Option.some.inj (h.2.1.symm.trans h'.2.1)⟩

/-! ## The best definition

Entries are taken up one after the other, and a better one takes the place of what was there. The
base beats every version, and among versions the highest wins; of equals the first stays. -/

/-- Whether a layer takes the place of another: the base that of a version, and a version that of
a lower one. -/
def Outranks (new old : Nat) : Prop := old ≠ 0 ∧ (new = 0 ∨ old < new)

/-- What the walk over the entries compares is this order. -/
theorem isBetter_some_iff {old new : Nat} : isBetter (some old) new = true ↔ Outranks new old := by
  unfold Outranks
  cases old with
  | zero => simp [isBetter]
  | succ old => simp [isBetter]

section Outranks

variable {a b c : Nat}

theorem not_outranks_self (a : Nat) : ¬ Outranks a a := by
  unfold Outranks
  omega

theorem Outranks.trans (hab : Outranks a b) (hbc : Outranks b c) : Outranks a c := by
  unfold Outranks at *
  omega

theorem Outranks.not_symm (hab : Outranks a b) : ¬ Outranks b a := fun hba =>
  not_outranks_self a (hab.trans hba)

theorem Outranks.of_not (hab : Outranks a b) (hcb : ¬ Outranks c b) : Outranks a c := by
  unfold Outranks at *
  omega

theorem eq_of_not_outranks (hab : ¬ Outranks a b) (hba : ¬ Outranks b a) : a = b := by
  unfold Outranks at *
  omega

theorem not_outranks_iff (hb : b ≠ 0) : ¬ Outranks a b ↔ a ≠ 0 ∧ a ≤ b := by
  unfold Outranks
  omega

end Outranks

/-- The definition that is left for a name: none that stands before it is as good, and none that
stands behind it is better. -/
inductive Chosen (multiRelease : Bool) (entries : List (String × Bytes)) (name : String) :
    Option (Nat × ClassStub) → Prop where
  | absent (hnone : ∀ entry ∈ entries, ∀ layer stub, ¬ Offers multiRelease name entry layer stub) :
    Chosen multiRelease entries name none
  | present {before behind : List (String × Bytes)} {entry : String × Bytes} {layer : Nat}
    {stub : ClassStub} (hsplit : entries = before ++ entry :: behind)
    (hentry : Offers multiRelease name entry layer stub)
    (hbefore : ∀ other ∈ before, ∀ v s, Offers multiRelease name other v s → Outranks layer v)
    (hbehind : ∀ other ∈ behind, ∀ v s, Offers multiRelease name other v s → ¬ Outranks v layer) :
    Chosen multiRelease entries name (some (layer, stub))

/-- What taking all entries of a jar up leaves, by name. -/
def taken (multiRelease : Bool) (entries : List (String × Bytes)) :
    Std.TreeMap String (Nat × ClassStub) :=
  entries.foldl (addEntry multiRelease) ∅

section Run

variable {best : Std.TreeMap String (Nat × ClassStub)} {entry : String × Bytes}
  {entries : List (String × Bytes)} {chosen : Option (Nat × ClassStub)}

/-- What taking an entry up does to the name that it is taken up for. -/
theorem getElem?_addEntry_of_offers {layer : Nat} {stub : ClassStub}
    (h : Offers multiRelease name entry layer stub) :
    (addEntry multiRelease best entry)[name]?
      = if isBetter (best[name]?.map (·.1)) layer then some (layer, stub) else best[name]? := by
  obtain ⟨hlayer, hstub, rfl⟩ := h
  simp only [addEntry, hlayer, hstub, addStub]
  split
  · exact Std.TreeMap.getElem?_insert_self
  · rfl

/-- Taking an entry up does nothing to a name that it is not taken up for. It changes what is held
under one name at most. -/
theorem getElem?_addEntry_of_not_offers
    (h : ∀ layer stub, ¬ Offers multiRelease name entry layer stub) :
    (addEntry multiRelease best entry)[name]? = best[name]? := by
  unfold addEntry
  split
  · next layer stub hlayer hstub =>
    have hname : stub.name ≠ name := fun hname => h layer stub ⟨hlayer, hstub, hname⟩
    unfold addStub
    split
    · rw [Std.TreeMap.getElem?_insert, if_neg]
      rwa [Std.LawfulEqCmp.compare_eq_iff_eq]
    · rfl
  · rfl

/-- What is chosen stays, behind an entry that is not better. Of entries that are equally good the
first one stays. -/
theorem Chosen.append_of_not_better (h : Chosen multiRelease entries name chosen)
    (hentry : ∀ layer stub, Offers multiRelease name entry layer stub →
      isBetter (chosen.map (·.1)) layer = false) :
    Chosen multiRelease (entries ++ [entry]) name chosen := by
  -- What was chosen so far stays so, since the new entry does not beat it.
  cases h with
  | absent hnone =>
    refine .absent fun other hother layer stub hoffers => ?_
    rcases List.mem_append.1 hother with hother | hother
    · exact hnone other hother layer stub hoffers
    · obtain rfl := List.mem_singleton.1 hother
      cases hentry layer stub hoffers
  | @present before behind found layer stub hsplit hfound hbefore hbehind =>
    have hsplit' : entries ++ [entry] = before ++ found :: (behind ++ [entry]) := by
      rw [hsplit, List.append_assoc]
      rfl
    refine .present hsplit' hfound hbefore fun other hother v s hoffers => ?_
    rcases List.mem_append.1 hother with hother | hother
    · exact hbehind other hother v s hoffers
    · obtain rfl := List.mem_singleton.1 hother
      rw [← isBetter_some_iff, Bool.not_eq_true]
      exact hentry v s hoffers

/-- A better entry is chosen in the place of what was. None before it is as good, since what was
chosen was the best of those. -/
theorem Chosen.append_of_better {layer : Nat} {stub : ClassStub}
    (h : Chosen multiRelease entries name chosen)
    (hentry : Offers multiRelease name entry layer stub)
    (hbetter : isBetter (chosen.map (·.1)) layer = true) :
    Chosen multiRelease (entries ++ [entry]) name (some (layer, stub)) := by
  refine .present rfl hentry (fun other hother v s hoffers => ?_) nofun
  cases h with
  | absent hnone => exact absurd hoffers (hnone other hother v s)
  | @present before behind found old _ hsplit hfound hbefore hbehind =>
    have hold : Outranks layer old := isBetter_some_iff.1 hbetter
    -- What stood before the old choice was worse than it, and what stood behind was no better.
    rw [hsplit] at hother
    rcases List.mem_append.1 hother with hother | hother
    · exact hold.trans (hbefore other hother v s hoffers)
    · rcases List.mem_cons.1 hother with rfl | hother
      · rwa [(hoffers.unique hfound).1]
      · exact hold.of_not (hbehind other hother v s hoffers)

/-- Taking an entry up leaves what is chosen of the entries with it. If the entry is better than
what was chosen, it takes that one's place. -/
theorem Chosen.addEntry (h : Chosen multiRelease entries name best[name]?) :
    Chosen multiRelease (entries ++ [entry]) name (addEntry multiRelease best entry)[name]? := by
  -- An entry offers nothing, something that is not better, or something that is.
  by_cases hoffers : ∃ layer stub, Offers multiRelease name entry layer stub
  · obtain ⟨layer, stub, hentry⟩ := hoffers
    rw [getElem?_addEntry_of_offers hentry]
    split
    · next hbetter => exact h.append_of_better hentry hbetter
    · next hworse =>
      refine h.append_of_not_better fun v s hother => ?_
      rw [(hother.unique hentry).1]
      exact Bool.eq_false_iff.2 hworse
  · have hnone : ∀ layer stub, ¬ Offers multiRelease name entry layer stub :=
      fun layer stub hentry => hoffers ⟨layer, stub, hentry⟩
    rw [getElem?_addEntry_of_not_offers hnone]
    exact h.append_of_not_better fun layer stub hentry => absurd hentry (hnone layer stub)

/-- Taking all entries up leaves what is chosen of them. The induction is from the last entry on. -/
theorem chosen_taken (multiRelease : Bool) (entries : List (String × Bytes)) (name : String) :
    Chosen multiRelease entries name (taken multiRelease entries)[name]? := by
  unfold taken
  induction entries using List.reverseRecOn with
  | nil =>
    rw [List.foldl_nil, Std.TreeMap.getElem?_emptyc]
    exact .absent nofun
  | append_singleton entries entry ih =>
    rw [List.foldl_append]
    exact ih.addEntry

/-- The definition that is left is one of the best ones. No entry of a higher layer offers a
definition. -/
theorem Chosen.best_of_present {layer : Nat} {stub : ClassStub}
    (h : Chosen multiRelease entries name (some (layer, stub))) :
    (∃ entry ∈ entries, Offers multiRelease name entry layer stub)
      ∧ ∀ other ∈ entries, ∀ v s, Offers multiRelease name other v s → ¬ Outranks v layer := by
  cases h with
  | @present before behind entry _ _ hsplit hentry hbefore hbehind =>
    subst hsplit
    refine ⟨⟨entry, List.mem_append_right _ (List.mem_cons_self ..), hentry⟩,
      fun other hother v s hs => ?_⟩
    -- Another entry stands in front of the chosen one, is that one, or stands behind it.
    rcases List.mem_append.1 hother with hother | hother
    · exact (hbefore other hother v s hs).not_symm
    · rcases List.mem_cons.1 hother with rfl | hother
      · rw [(hs.unique hentry).1]
        exact not_outranks_self layer
      · exact hbehind other hother v s hs

end Run

/-! ## What a jar holds

What the map of a jar has under a name is what the entries of that name, taken in order, come to. -/

/-- The class of a name that a jar holds: the first one that its base defines, or else the first
one of the highest version, or else none. -/
inductive Holds (multiRelease : Bool) (entries : List (String × Bytes)) (name : String) :
    Option ClassStub → Prop where
  | base {before behind : List (String × Bytes)} {entry : String × Bytes} {stub : ClassStub}
    (hsplit : entries = before ++ entry :: behind) (hentry : Defines multiRelease entry 0 stub)
    (hname : stub.name = name)
    (hfirst : ∀ other ∈ before, ∀ s, Defines multiRelease other 0 s → s.name ≠ name) :
    Holds multiRelease entries name (some stub)
  | version {before behind : List (String × Bytes)} {entry : String × Bytes} {layer : Nat}
    {stub : ClassStub}
    (hbase : ∀ other ∈ entries, ∀ s, Defines multiRelease other 0 s → s.name ≠ name)
    (hsplit : entries = before ++ entry :: behind)
    (hentry : Defines multiRelease entry layer stub) (hname : stub.name = name)
    (hhighest : ∀ other ∈ entries, ∀ v s, Defines multiRelease other v s → s.name = name →
      v ≤ layer)
    (hfirst : ∀ other ∈ before, ∀ s, Defines multiRelease other layer s → s.name ≠ name) :
    Holds multiRelease entries name (some stub)
  | absent (hnone : ∀ entry ∈ entries, ∀ v s, Defines multiRelease entry v s → s.name ≠ name) :
    Holds multiRelease entries name none

/-- The definition that is left for a name is that of the base or else of the highest version. The
order of layers is used up here: what remains is said in terms of versions. -/
theorem Chosen.holds {entries : List (String × Bytes)} {chosen : Option (Nat × ClassStub)}
    (h : Chosen multiRelease entries name chosen)
    (hclass : ClassStub.isDeclarationName name = false) :
    Holds multiRelease entries name (chosen.map (·.2)) := by
  have hoffers {other : String × Bytes} {v : Nat} {s : ClassStub}
      (hdefines : Defines multiRelease other v s) (hname : s.name = name) :
      Offers multiRelease name other v s := offers_iff.2 ⟨hdefines, hname, hclass⟩
  cases chosen with
  | none =>
    cases h with
    | absent hnone =>
      exact .absent fun entry hentry v s hdefines hname =>
        hnone entry hentry v s (hoffers hdefines hname)
  -- The base comes first; without it, the layer is that of a version, and all others are lower.
  | some left =>
    obtain ⟨-, hbest⟩ := h.best_of_present
    cases h with
    | @present before behind entry layer stub hsplit hentry hbefore hbehind =>
      obtain ⟨hdefines, hname, -⟩ := offers_iff.1 hentry
      have hfirst : ∀ other ∈ before, ∀ s, Defines multiRelease other layer s → s.name ≠ name :=
        fun other hother s hs hsame =>
          not_outranks_self layer (hbefore other hother layer s (hoffers hs hsame))
      by_cases hlayer : layer = 0
      · subst hlayer
        exact .base hsplit hdefines hname hfirst
      · have hrank (other : String × Bytes) (hother : other ∈ entries) (v : Nat) (s : ClassStub)
            (hs : Defines multiRelease other v s) (hsame : s.name = name) : v ≠ 0 ∧ v ≤ layer :=
          (not_outranks_iff hlayer).1 (hbest other hother v s (hoffers hs hsame))
        exact .version
          (fun other hother s hs hsame => (hrank other hother 0 s hs hsame).1 rfl)
          hsplit hdefines hname
          (fun other hother v s hs hsame => (hrank other hother v s hs hsame).2) hfirst

section Stubs

variable {entries entries' : List (String × Bytes)}

theorem stubs_eq : stubs multiRelease entries
    = (taken multiRelease entries).toList.map fun (_, _, stub) => stub := rfl

/-- The stubs that are left are those that are found under their names. Each stub is kept under its
own name. -/
theorem mem_stubs_iff {stub : ClassStub} : stub ∈ stubs multiRelease entries
    ↔ ∃ layer, (taken multiRelease entries)[stub.name]?
      = some (layer, stub) := by
  rw [stubs_eq, List.mem_map]
  constructor
  · rintro ⟨⟨name, layer, stub⟩, hmem, rfl⟩
    rw [Std.TreeMap.mem_toList_iff_getElem?_eq_some] at hmem
    have hname : stub.name = name := by
      have hchosen := chosen_taken multiRelease entries name
      rw [hmem] at hchosen
      cases hchosen with
      | present _ hentry _ _ => exact hentry.2.2
    exact ⟨layer, hname ▸ hmem⟩
  · rintro ⟨layer, hlayer⟩
    exact ⟨(stub.name, layer, stub), Std.TreeMap.mem_toList_iff_getElem?_eq_some.2 hlayer, rfl⟩

/-- The class of a name that a jar holds is the one that is left for the name. No two stubs that are
left have the same name, so the first one is the only one. -/
theorem find?_stubs (multiRelease : Bool) (entries : List (String × Bytes)) (name : String) :
    (stubs multiRelease entries).find? (fun stub => stub.name = name)
      = (taken multiRelease entries)[name]?.map (·.2) := by
  cases hfound : (stubs multiRelease entries).find? fun stub => stub.name = name with
  | some stub =>
    -- A stub is listed under its own name, and only one is kept for each name.
    obtain rfl : stub.name = name := by simpa using List.find?_some hfound
    obtain ⟨layer, hlayer⟩ := mem_stubs_iff.1 (List.mem_of_find?_eq_some hfound)
    rw [hlayer]
    rfl
  | none =>
    have hchosen := chosen_taken multiRelease entries name
    cases hleft : (taken multiRelease entries)[name]? with
    | none => rfl
    | some left =>
      rw [hleft] at hchosen
      cases hchosen with
      | present _ hentry _ _ =>
        obtain rfl := hentry.2.2
        simpa using List.find?_eq_none.1 hfound _ (mem_stubs_iff.2 ⟨_, hleft⟩)

/-- The class of a name that a jar holds, unless the name is that of a declaration. -/
theorem holds_find?_stubs (entries : List (String × Bytes))
    (hclass : ClassStub.isDeclarationName name = false) :
    Holds multiRelease entries name
      ((stubs multiRelease entries).find? fun stub => stub.name = name) := by
  rw [find?_stubs]
  exact (chosen_taken multiRelease entries name).holds hclass

/-- A jar holds no declaration. -/
theorem find?_stubs_eq_none (entries : List (String × Bytes))
    (hdeclaration : ClassStub.isDeclarationName name = true) :
    (stubs multiRelease entries).find? (fun stub => stub.name = name) = none := by
  rw [find?_stubs]
  have hchosen := chosen_taken multiRelease entries name
  revert hchosen
  generalize (taken multiRelease entries)[name]? = left
  rintro (_ | ⟨_, hentry, _, _⟩)
  · rfl
  · rw [(offers_iff.1 hentry).2.2] at hdeclaration
    cases hdeclaration

/-! ## The order of the entries

If no two entries offer different classes of one name in one layer, the order in which they are read
does not matter. -/

/-- Whether what two entries define in one layer are classes of different names. -/
def Apart (multiRelease : Bool) (entry entry' : String × Bytes) : Prop :=
  ∀ layer stub stub', Defines multiRelease entry layer stub →
    Defines multiRelease entry' layer stub' → stub.name ≠ stub'.name

instance : Std.Symm (Apart multiRelease) where
  symm _ _ h layer stub stub' hstub hstub' hname := h layer stub' stub hstub' hstub hname.symm

/-- Of entries that define different classes or stand in different layers, one alone is taken up
for a name in a layer. -/
theorem eq_of_offers (h : entries.Pairwise (Apart multiRelease)) {entry entry' : String × Bytes}
    (hmem : entry ∈ entries) (hmem' : entry' ∈ entries) {layer : Nat} {stub stub' : ClassStub}
    (hentry : Offers multiRelease name entry layer stub)
    (hentry' : Offers multiRelease name entry' layer stub') : stub = stub' := by
  by_cases hsame : entry = entry'
  · subst hsame
    exact (hentry.unique hentry').2
  · obtain ⟨hdefines, hname, -⟩ := offers_iff.1 hentry
    obtain ⟨hdefines', hname', -⟩ := offers_iff.1 hentry'
    exact absurd (hname.trans hname'.symm)
      (h.forall hmem hmem' hsame layer stub stub' hdefines hdefines')

/-- What is left for a name is the same for the same entries in any order. Each of two would have to
be the first of its layer, and entries that are apart leave only one in it. -/
theorem Chosen.eq_of_perm (hdistinct : entries.Pairwise (Apart multiRelease))
    (hperm : entries.Perm entries') {chosen chosen' : Option (Nat × ClassStub)}
    (h : Chosen multiRelease entries name chosen)
    (h' : Chosen multiRelease entries' name chosen') : chosen = chosen' := by
  cases chosen with
  | none =>
    cases h with
    | absent hnone =>
      cases chosen' with
      | none => rfl
      | some left' =>
        obtain ⟨⟨entry', hmem', hentry'⟩, -⟩ := h'.best_of_present
        exact absurd hentry' (hnone entry' (hperm.mem_iff.2 hmem') _ _)
  | some left =>
    obtain ⟨⟨entry, hmem, hentry⟩, hbest⟩ := h.best_of_present
    cases chosen' with
    | none =>
      cases h' with
      | absent hnone => exact absurd hentry (hnone entry (hperm.mem_iff.1 hmem) _ _)
    | some left' =>
      obtain ⟨⟨entry', hmem', hentry'⟩, hbest'⟩ := h'.best_of_present
      have hlow := hbest entry' (hperm.mem_iff.2 hmem') _ _ hentry'
      have hhigh := hbest' entry (hperm.mem_iff.1 hmem) _ _ hentry
      obtain ⟨layer, stub⟩ := left
      obtain ⟨layer', stub'⟩ := left'
      -- Neither outranks the other, so both are of one layer, and a layer has one class of the
      -- name.
      obtain rfl : layer = layer' := eq_of_not_outranks hhigh hlow
      obtain rfl : stub = stub' :=
        eq_of_offers hdistinct hmem (hperm.mem_iff.2 hmem') hentry hentry'
      rfl

/-- The order of the entries of a jar does not matter if no two define a class of one name in one
layer. -/
theorem stubs_eq_of_perm (hperm : entries.Perm entries')
    (hdistinct : entries.Pairwise (Apart multiRelease)) :
    stubs multiRelease entries = stubs multiRelease entries' := by
  -- The table is the same name by name, and so is the list of what it holds.
  have hequiv : Std.TreeMap.Equiv (taken multiRelease entries) (taken multiRelease entries') := by
    refine .of_forall_constGet?_eq fun name => ?_
    exact (chosen_taken multiRelease entries name).eq_of_perm hdistinct hperm
      (chosen_taken multiRelease entries' name)
  rw [stubs_eq, stubs_eq, hequiv.toList_eq]

end Stubs

end Jar
end ClassLoom
