import ClassLoom.Proofs.Descriptor.Accepted
import ClassLoom.Proofs.Weave.CallPlan
import ClassLoom.Proofs.Weave.SubstitutedTypes
import ClassLoom.Proofs.Weave.WovenStub

/-!
# Names in the descriptors of new calls

A descriptor says where a class name ends by a semicolon, and nothing keeps class names from having
one: names are taken as they stand in the constant pool. What is written for a type is read back as
that type only where the name in it can stand in a descriptor (`FieldType.IsNamed`). The names that
redirecting writes into a descriptor are of three kinds:

* names of polyfills, which are plain where the package and the prefix of polyfills are
  (`isNamed_substitute`);
* the class that declares a method, which a mixin takes the receiver as: nothing is known of it;
* the carrier that a new factory returns, which can stand in a descriptor, since the factory has
  been found in the carrier by its descriptor (`isNamed_of_text_eq`).

`NewDescriptor.isNamed` puts them together: the descriptor of a new call is read back as what it
was written for, if the names that come from the configuration and from a mixin's receiver are plain.
-/

namespace ClassLoom

/-! ## Factories

A factory is looked for by the text of its descriptor, so a method that is found has one that can be
read. The parameters of that text come from a descriptor and are read back, which leaves the result
for the rest of the text. -/

namespace FieldType

/-- A type that is written like a class is that class: of all types only classes begin with their
mark, and the name is all that stands between it and the last semicolon. -/
theorem eq_of_chars_eq_object {result : ReturnType} {owner : String}
    (h : result.chars = (object owner).chars) : result = .value (object owner) := by
  cases result with
  | void => cases h
  | value t =>
    cases t with
    | base type =>
      -- One character cannot be the mark of a class and a semicolon.
      have hlength := congrArg List.length h
      simp [ReturnType.chars, chars] at hlength
    | array component => cases h
    | object name =>
      have hname : name.toList ++ [';'] = owner.toList ++ [';'] := List.tail_eq_of_cons_eq h
      rw [String.toList_inj.1 (List.append_cancel_right hname)]

end FieldType

/-- **A descriptor that has been found by its text** is read back as itself if its parameters are,
and its result is a class. The parameters end at the same bracket in both, so the results are
written alike. -/
theorem MethodDescriptor.isNamed_of_text_eq {d d' : MethodDescriptor} {owner : String}
    (hparams : ∀ t ∈ d.params, t.IsNamed) (hresult : d.result = .value (.object owner))
    (hnamed : d'.IsNamed) (h : d.text = d'.text) : d.IsNamed := by
  have hchars : d.params.flatMap FieldType.chars ++ ')' :: d.result.chars
      = d'.params.flatMap FieldType.chars ++ ')' :: d'.result.chars := by
    have htext := congrArg String.toList h
    rw [text, text, String.toList_ofList, String.toList_ofList] at htext
    exact List.tail_eq_of_cons_eq htext
  have hscan := scanParams_chars hparams [] d.result.chars
  rw [hchars, scanParams_chars hnamed.1 [] d'.result.chars] at hscan
  simp only [Option.some.injEq, Prod.mk.injEq] at hscan
  rw [hresult] at hscan
  have hsame := FieldType.eq_of_chars_eq_object hscan.2
  refine ⟨hparams, fun t ht => hnamed.2 t ?_⟩
  rw [hsame, ← hresult]
  exact ht

/-! ## Polyfills

A plain configuration puts nothing around a name that ends it early in a descriptor. -/

/-- Whether what polyfills' names are made with has no semicolon: the name of a polyfill then has
one only where that of the class has. -/
structure Conventions.IsPlain (c : Conventions) : Prop where
  polyfillNamespace : ';' ∉ c.polyfillNamespace.toList
  replacementPrefix : ';' ∉ c.replacementPrefix.toList

/-- The polyfill of a class has a name that can stand in a descriptor if the class has. What is put
around the name of the class has no semicolon in it. -/
theorem Conventions.IsPlain.isNamed_polyfillName {c : Conventions} (hplain : c.IsPlain)
    {name : String} (h : ';' ∉ name.toList) : (FieldType.object (c.polyfillName name)).IsNamed := by
  obtain ⟨front, simple, _, _, hname, hpolyfill⟩ := c.polyfillName_parts name
  rw [hname, List.mem_append, not_or] at h
  constructor
  · -- There is a slash in it at least.
    intro hempty
    rw [hempty] at hpolyfill
    simp at hpolyfill
  · rw [hpolyfill]
    simp only [String.toList_append, List.mem_append, not_or]
    exact ⟨⟨hplain.polyfillNamespace, by decide⟩, h.1, hplain.replacementPrefix, h.2⟩

namespace Surroundings

variable {s : Surroundings}

/-- **Substitution leaves names that can stand in a descriptor**, if polyfills have such names. A
type whose class has no polyfill keeps its name. -/
theorem isNamed_substitute (hplain : s.conventions.IsPlain) {t : FieldType} (h : t.IsNamed) :
    (s.substitute t).IsNamed := by
  induction t with
  | base type => trivial
  | object name =>
    unfold substitute
    split
    · next polyfill hpolyfill =>
      rw [name_of_polyfill? hpolyfill]
      exact hplain.isNamed_polyfillName h.2
    · exact h
  | array component ih => exact ih h

/-- The same of whole descriptors. Parameters and result are substituted each on its own. -/
theorem isNamed_substituteAll (hplain : s.conventions.IsPlain) {d : MethodDescriptor}
    (h : d.IsNamed) : (s.substituteAll d).IsNamed := by
  refine ⟨List.forall_mem_map.2 fun t ht => isNamed_substitute hplain (h.1 t ht), fun t ht => ?_⟩
  change s.substituteResult d.result = .value t at ht
  cases hresult : d.result with
  | void =>
    rw [hresult] at ht
    cases ht
  | value type =>
    rw [hresult] at ht
    cases ht
    exact isNamed_substitute hplain (h.2 type hresult)

end Surroundings

/-! ## Calls

So a call that was planned has a descriptor that is read back, where its target had one. -/

namespace CallPlan

/-- Whether the names that can come into the descriptor of a new call are ones that can stand there:
those of polyfills, and where a call on an instance goes to a mixin, that of the class which
declares the method. -/
structure NamesFit (s : Surroundings) (opcode : UInt8) (target : MemberRef) : Prop where
  plain : s.conventions.IsPlain
  declaring : opcode ≠ Opcode.invokeStatic → ∀ polyfill,
    s.polyfill? (declaring s target) = some polyfill → polyfill.kind = .mixin →
      (FieldType.object (declaring s target)).IsNamed

/-- **What a new call takes can be read from its descriptor**, if the names in it fit. Of the
carrier that a new factory returns nothing is asked, since the factory was found. -/
theorem NewDescriptor.isNamed {s : Surroundings} {opcode : UInt8} {target : MemberRef}
    {d callee : MethodDescriptor} (h : NewDescriptor s opcode target d callee) (hd : d.IsNamed)
    (hscope : Weave.SeesDescribed s.scope) (hfit : NamesFit s opcode target) : callee.IsNamed := by
  have hsubstituted := Surroundings.isNamed_substituteAll hfit.plain hd
  cases h with
  | substituted => exact hsubstituted
  | withReceiver hopcode polyfill hpolyfill hkind =>
    have hreceiver := hfit.declaring hopcode polyfill hpolyfill hkind
    exact ⟨List.forall_mem_cons.2 ⟨hreceiver, hsubstituted.1⟩, hsubstituted.2⟩
  | ofFactory stub m hstub hm hdescriptor =>
    obtain ⟨htext, hnamed⟩ := MethodDescriptor.parse_eq_ok_iff.1 (hscope _ stub hstub m hm)
    exact MethodDescriptor.isNamed_of_text_eq hd.1 rfl hnamed (hdescriptor.symm.trans htext)

end CallPlan
end ClassLoom
