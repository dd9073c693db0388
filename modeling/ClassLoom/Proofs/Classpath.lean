import ClassLoom.Classpath
import ClassLoom.Files.FileTree
import ClassLoom.Proofs.Computation
import ClassLoom.Proofs.Jar
import ClassLoom.Proofs.Weave.WovenScope

/-!
# The classes of a classpath

A classpath gives a name the class of the first entry that holds one, and a jar is an entry that
holds the classes of its layers.

* `ofClasspath_eq`: reading a classpath is reading its entries, one after the other;
* `lookup_ofEntries`: the class of a name is that of the first entry that holds one;
* `layers_and_entries`: which class of a name is found in a jar and on a classpath.
-/

namespace ClassLoom

namespace ClassIndex

/-- The index of what the entries of a classpath hold. -/
def ofEntries (entries : List (List ClassStub)) : ClassIndex := entries.foldl insertAll .empty

/-- What is in the index comes first, and then the entries in their order. -/
theorem lookup_foldl_insertAll (index : ClassIndex) (entries : List (List ClassStub))
    (name : String) : (entries.foldl insertAll index).lookup name
      = (index.lookup name).or
        (entries.findSome? fun stubs => stubs.find? fun stub => stub.name = name) := by
  induction entries generalizing index with
  | nil => exact (Option.or_none).symm
  | cons stubs entries ih =>
    rw [List.foldl_cons, ih, lookup_insertAll, Option.or_assoc, List.findSome?_cons]
    cases stubs.find? fun stub => stub.name = name <;> simp

/-- The class of a name is that of the first entry that holds one. -/
theorem lookup_ofEntries (entries : List (List ClassStub)) (name : String) :
    (ofEntries entries).lookup name
      = entries.findSome? fun stubs => stubs.find? fun stub => stub.name = name := by
  have hempty : ClassIndex.empty.lookup name = none := Std.TreeMap.getElem?_emptyc
  rw [ofEntries, lookup_foldl_insertAll, hempty, Option.none_or]

section Reading

variable {m : Type → Type} [Monad m] [LawfulMonad m]

/-- Entries may be read as one goes along, or all before the first is taken in. -/
theorem foldlM_insertAll (files : FileAccess m) (index : ClassIndex)
    (entries : List ClasspathEntry) :
    entries.foldlM (fun index entry => return index.insertAll (← entry.read files)) index
      = (fun held => held.foldl insertAll index) <$> entries.mapM (ClasspathEntry.read files) := by
  induction entries generalizing index with
  | nil => simp only [List.foldlM_nil, List.mapM_nil, map_pure, List.foldl_nil]
  | cons entry entries ih =>
    simp only [map_eq_pure_bind] at ih ⊢
    simp only [List.foldlM_cons, List.mapM_cons, bind_assoc, pure_bind, ih, List.foldl_cons]

/-- Reading a classpath reads its entries one after the other, and fails where one of them
does. -/
theorem ofClasspath_eq (files : FileAccess m) (entries : List ClasspathEntry) :
    ofClasspath files entries = ofEntries <$> entries.mapM (ClasspathEntry.read files) :=
  foldlM_insertAll files .empty entries

end Reading

end ClassIndex

namespace Jar

/-- The class of a name in a jar is the first one of its base, or else the first one of its highest
version; no name of a declaration has one. With names and layers that differ the order of the
entries does not matter. On a classpath the first entry that holds a class of the name counts. -/
theorem layers_and_entries (multiRelease : Bool) (jar : List (String × Bytes)) :
    (∀ name, ClassStub.isDeclarationName name = false →
        Holds multiRelease jar name
          ((stubs multiRelease jar).find? fun stub => stub.name = name))
      ∧ (∀ name, ClassStub.isDeclarationName name = true →
        (stubs multiRelease jar).find? (fun stub => stub.name = name) = none)
      ∧ (∀ jar', jar.Perm jar' → jar.Pairwise (Apart multiRelease) →
        stubs multiRelease jar = stubs multiRelease jar')
      ∧ (∀ (m : Type → Type) [Monad m] [LawfulMonad m] (files : FileAccess m)
          (entries : List ClasspathEntry), ClassIndex.ofClasspath files entries
            = ClassIndex.ofEntries <$> entries.mapM (ClasspathEntry.read files))
      ∧ ∀ (entries : List (List ClassStub)) (name : String),
        (ClassIndex.ofEntries entries).lookup name
          = entries.findSome? fun stubs => stubs.find? fun stub => stub.name = name :=
  ⟨fun _ hclass => holds_find?_stubs jar hclass,
    fun _ hdeclaration => find?_stubs_eq_none jar hdeclaration,
    fun _ hperm hapart => stubs_eq_of_perm hperm hapart,
    fun _ _ _ files entries => ClassIndex.ofClasspath_eq files entries,
    ClassIndex.lookup_ofEntries⟩

/-- A class `A`. -/
def classA : Bytes :=
  [202, 254, 186, 190, 0, 0, 0, 50, 0, 5, 1, 0, 1, 65, 7, 0, 1, 1, 0, 16, 106, 97, 118, 97, 47,
   108, 97, 110, 103, 47, 79, 98, 106, 101, 99, 116, 7, 0, 3, 0, 1, 0, 2, 0, 4, 0, 0, 0, 0, 0, 0,
   0, 0]

/-- Another class `A`, with other flags. -/
def laterClassA : Bytes :=
  [202, 254, 186, 190, 0, 0, 0, 50, 0, 5, 1, 0, 1, 65, 7, 0, 1, 1, 0, 16, 106, 97, 118, 97, 47,
   108, 97, 110, 103, 47, 79, 98, 106, 101, 99, 116, 7, 0, 3, 0, 33, 0, 2, 0, 4, 0, 0, 0, 0, 0, 0,
   0, 0]

/-- The class `A` of the base behind the one of a version. -/
def layered : List (String × Bytes) :=
  [("META-INF/versions/9/A.class", laterClassA), ("A.class", classA)]

/-- The class `A` of the base is held in both orders. The entry of the layer comes first in the one
order and last in the other, and the classpath is folded as its entries are read. -/
theorem layered_in_any_order : ∃ stub, ClassStub.isDeclarationName "A" = false
    ∧ ClassStub.isDeclarationName "package-info" = true
    ∧ Defines true ("A.class", classA) 0 stub
    ∧ Holds true layered "A" (some stub)
    ∧ (stubs true layered).find? (fun stub => stub.name = "package-info") = none
    ∧ layered.Perm layered.reverse ∧ layered.Pairwise (Apart true)
    ∧ stubs true layered = stubs true layered.reverse
    ∧ LawfulMonad (StateM FileTree)
    ∧ ClassIndex.ofClasspath FileTree.access [.archive "a.jar", .directory "b"]
      = ClassIndex.ofEntries
        <$> [.archive "a.jar", .directory "b"].mapM (ClasspathEntry.read FileTree.access) := by
  have hevaluated : (do
      let stub ← (ClassFile.parse classA >>= ClassFile.stub).toOption
      return decide ((stubs true layered).find? (fun stub => stub.name = "A") = some stub))
        = some true := by
    decide +kernel
  obtain ⟨stub, hread, hfound⟩ := toOption_bind_eq_some.1 hevaluated
  have hlayer : layer? true "META-INF/versions/9/A.class" = some 9 := by decide
  have hbase : layer? true "A.class" = some 0 := by decide
  -- The two entries are of different layers, so they never compete in one.
  have hapart : layered.Pairwise (Apart true) := by
    refine List.pairwise_pair.2 fun v _ _ hlater hfirst _ => ?_
    have hv := (defines_iff.1 hlater).1.symm.trans hlayer
    rw [(defines_iff.1 hfirst).1.symm.trans hbase] at hv
    cases hv
  obtain ⟨hheld, hdeclared, hperm, hclasspath, -⟩ := layers_and_entries true layered
  have hA := hheld "A" (by decide)
  rw [of_decide_eq_true (Option.some.inj hfound)] at hA
  have hreverse := (List.reverse_perm layered).symm
  exact ⟨stub, by decide, by decide, defines_iff.2 ⟨hbase, hread⟩, hA, hdeclared _ (by decide),
    hreverse, hapart, hperm _ hreverse hapart, inferInstance, hclasspath _ FileTree.access _⟩

/-- The declaration of a package. -/
def packageInfo : Bytes :=
  [202, 254, 186, 190, 0, 0, 0, 50, 0, 5, 1, 0, 12, 112, 97, 99, 107, 97, 103, 101, 45, 105, 110,
   102, 111, 7, 0, 1, 1, 0, 16, 106, 97, 118, 97, 47, 108, 97, 110, 103, 47, 79, 98, 106, 101, 99,
   116, 7, 0, 3, 22, 0, 0, 2, 0, 4, 0, 0, 0, 0, 0, 0, 0, 0]

/-- A declaration in the base can be read, and still the jar does not hold it. The name of what is
declared decides, wherever the entry stands. -/
theorem packageInfo_not_held : ∃ stub, Defines false ("package-info.class", packageInfo) 0 stub
    ∧ stub.name = "package-info"
    ∧ ¬ Holds false [("package-info.class", packageInfo)] "package-info"
      ((stubs false [("package-info.class", packageInfo)]).find? fun stub =>
        stub.name = "package-info") := by
  have hevaluated : (do
      let stub ← (ClassFile.parse packageInfo >>= ClassFile.stub).toOption
      return decide (stub.name = "package-info")) = some true := by
    decide +kernel
  obtain ⟨stub, hread, hname⟩ := toOption_bind_eq_some.1 hevaluated
  have hname := of_decide_eq_true (Option.some.inj hname)
  have hdefines : Defines false ("package-info.class", packageInfo) 0 stub :=
    defines_iff.2 ⟨by decide, hread⟩
  refine ⟨stub, hdefines, hname, fun hheld => ?_⟩
  rw [find?_stubs_eq_none _ (by decide)] at hheld
  cases hheld with
  | absent hnone => exact hnone _ (List.mem_singleton.2 rfl) 0 stub hdefines hname

end Jar
end ClassLoom
