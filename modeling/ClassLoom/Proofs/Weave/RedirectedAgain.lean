import ClassLoom.Proofs.Weave.FactoryCalls

/-!
# Bodies that are redirected again

A body whose calls have been redirected has no call left that has a rule, where what can be seen
later agrees with what could be seen (`Agrees`) and the code is of the kind that compilers write
(`Regular`). A call that was emitted goes where it goes, and a call that had no rule has none. For
constructor calls the two scans are run side by side: what waits in the new body are the `new`
instructions that wait in the old one, each for its own class or for the replacement of it
(`Renamed`).

* `renamed_of_becomes`: what waits in the new body, and that no constructor call in it has a rule;
* `not_rewrite_of_becomes`: nothing in a redirected body has a rule.
-/

namespace ClassLoom.Redirection

open ConstantPool
open CallPlan (isFactoryCall)

/-! ## Scopes and code

What the second run must see, and what the code must be like. Both are about names: a polyfill must
not be found under another class, and a constructor call of one must find its own `new`. -/

/-- Whether calls that have been planned with the surroundings `s` stay as they are with the later
ones `s'`. -/
structure Agrees (s s' : Surroundings) : Prop where
  polyfill? : ∀ name, s'.polyfill? name = s.polyfill? name
  /-- Calls that have a rule later had one before, but for other calls of lambda carriers than those
  of their old factories. -/
  kept : ∀ opcode target callee, (s.conventions.isLambdaCarrier target.owner = true →
      isFactoryCall s opcode target = true) → GoesTo s' opcode target callee →
    ∃ callee, GoesTo s opcode target callee
  /-- Where a call goes, it has no rule later. -/
  gone : ∀ opcode target callee, GoesTo s opcode target callee → ∀ target', target'.owner =
      callee.owner → target'.name = callee.name → target'.descriptor = callee.descriptor →
    ∀ callee', ¬ GoesTo s' callee.opcode target' callee'

/-- Whether a body is of the kind that compilers write. -/
structure Regular (conventions : Conventions) (pool : ConstantPool)
    (body : List (Nat × Instruction)) : Prop where
  /-- What `new` instructions and calls name can be read. -/
  made : ∀ e ∈ body, e.2.opcode = Opcode.newObject → (made? pool e.2).isSome = true
  named : ∀ e ∈ body, isInvoke e.2.opcode = true → (callee? pool e.2).any (fun target =>
    (MethodDescriptor.parse target.descriptor).toOption.isSome) = true
  /-- Only old factories are called on lambda carriers. -/
  carriers : ∀ e ∈ body, isCall e.2.opcode = true → ∀ target ∈ callee? pool e.2,
    conventions.isLambdaCarrier target.owner = true →
      e.2.opcode = Opcode.invokeStatic ∧ target.name = conventions.lambdaFactory
  /-- Constructors of polyfills are called on the latest new object, or on none. -/
  turns : ∀ k (h : k < body.length), ∀ target ∈ constructor? pool body[k].2,
    conventions.isPolyfill target.owner = true →
      ∀ object ∈ (waitingBehind pool (body.take k)).head?, object.2 = target.owner

instance (conventions : Conventions) (pool : ConstantPool) (body : List (Nat × Instruction)) :
    Decidable (Regular conventions pool body) :=
  decidable_of_iff (_ ∧ _ ∧ _ ∧ _) ⟨fun ⟨hmade, hnamed, hcarriers, hturns⟩ =>
    ⟨hmade, hnamed, hcarriers, hturns⟩, fun h => ⟨h.made, h.named, h.carriers, h.turns⟩⟩

section Grown

variable {conventions : Conventions} {pool pool' : ConstantPool} {body front : List (Nat × Instruction)}
  {e : Nat × Instruction} {i : Instruction}

/-- A call is read from the pool by the index in the instruction. -/
theorem callee?_eq_some {index : UInt16} {target : MemberRef} (hindex : i.word? = some index)
    (hmember : pool.getMember index = .ok target) : callee? pool i = some target := by
  rw [callee?, hindex, Option.bind_some, hmember]
  rfl

theorem made?_eq_some {index : UInt16} {owner : String} (hop : i.opcode = Opcode.newObject)
    (hindex : i.word? = some index) (hname : pool.getClassName index = .ok owner) :
    made? pool i = some owner := by
  rw [made?, if_pos hop, hindex, Option.bind_some, hname]
  rfl

/-- A constructor call is an `invokespecial` of a method with the name of constructors. -/
theorem constructor?_eq_some {target : MemberRef} (hop : i.opcode = Opcode.invokeSpecial)
    (htarget : callee? pool i = some target) (hname : target.name = Typing.constructorName) :
    constructor? pool i = some target := by
  rw [constructor?, if_pos hop, htarget, Option.filter_some, if_pos (decide_eq_true hname)]

/-- A constructor call calls one method. -/
theorem callee?_of_constructor? {target target' : MemberRef} (h : constructor? pool i = some target)
    (hcallee : callee? pool i = some target') : target = target' := by
  have hop := opcode_of_constructor? (by rw [h]; rfl)
  rw [constructor?, if_pos hop, hcallee] at h
  exact (Option.some.inj (Option.filter_eq_some_iff.1 h).1).symm

theorem callee?_grown (hgrown : Grown pool pool') {target : MemberRef}
    (h : callee? pool i = some target) : callee? pool' i = some target := by
  obtain ⟨index, hindex, hmember⟩ := exists_word_of_callee? h
  exact callee?_eq_some hindex (hgrown.getMember hmember)

theorem made?_grown (hgrown : Grown pool pool') {owner : String}
    (h : made? pool i = some owner) : made? pool' i = some owner := by
  have hop := opcode_of_made? h
  rw [made?, if_pos hop] at h
  obtain ⟨index, hindex, hname⟩ := Option.bind_eq_some_iff.1 h
  cases hread : pool.getClassName index with
  | error e =>
    rw [hread] at hname
    cases hname
  | ok found =>
    rw [hread] at hname
    cases hname
    exact made?_eq_some hop hindex (hgrown.getClassName hread)

namespace Regular

/-- The converse needs a body whose indices can all be read: what is read from a later pool has been
read before. In such a body no instruction gets a meaning when the pool grows. -/
theorem made?_eq (h : Regular conventions pool body) (hgrown : Grown pool pool') (he : e ∈ body) :
    made? pool' e.2 = made? pool e.2 := by
  by_cases hop : e.2.opcode = Opcode.newObject
  · obtain ⟨owner, hmade⟩ := Option.isSome_iff_exists.1 (h.made e he hop)
    rw [hmade, made?_grown hgrown hmade]
  · rw [made?_of_ne hop, made?_of_ne hop]

/-- Every call of a regular body can be read, and so can its descriptor. -/
theorem exists_callee (h : Regular conventions pool body) (he : e ∈ body)
    (hop : isInvoke e.2.opcode = true) :
    ∃ target d, callee? pool e.2 = some target
      ∧ MethodDescriptor.parse target.descriptor = .ok d := by
  obtain ⟨target, htarget, hparse⟩ := (Option.any_eq_true _ _).1 (h.named e he hop)
  cases hd : MethodDescriptor.parse target.descriptor with
  | error e =>
    rw [hd] at hparse
    cases hparse
  | ok d => exact ⟨target, d, htarget, hd⟩

theorem callee?_eq (h : Regular conventions pool body) (hgrown : Grown pool pool') (he : e ∈ body)
    (hop : isInvoke e.2.opcode = true) : callee? pool' e.2 = callee? pool e.2 := by
  obtain ⟨target, _, htarget, _⟩ := h.exists_callee he hop
  rw [htarget, callee?_grown hgrown htarget]

/-- A constructor call is the same one in a later pool, or none in both. -/
theorem constructor?_eq (h : Regular conventions pool body) (hgrown : Grown pool pool')
    (he : e ∈ body) : constructor? pool' e.2 = constructor? pool e.2 := by
  by_cases hop : e.2.opcode = Opcode.invokeSpecial
  · rw [constructor?, constructor?, if_pos hop, if_pos hop,
      h.callee?_eq hgrown he (by rw [hop]; rfl)]
  · rw [constructor?_of_ne hop, constructor?_of_ne hop]

/-- What waits in front of an instruction is the same, then, since all in front of it reads the
same. -/
theorem waitingBehind_eq (h : Regular conventions pool body) (hgrown : Grown pool pool')
    (hfront : ∀ e ∈ front, e ∈ body) : waitingBehind pool' front = waitingBehind pool front := by
  unfold waitingBehind
  refine List.foldl_ext _ _ _ fun waiting e he => ?_
  have he := hfront e he
  unfold waitOn
  rw [h.made?_eq hgrown he, h.constructor?_eq hgrown he]

/-- Regular code stays so when its pool grows. Nothing can be read that could not be read before. -/
theorem grown (h : Regular conventions pool body) (hgrown : Grown pool pool') :
    Regular conventions pool' body where
  made e he hop := by
    rw [h.made?_eq hgrown he]
    exact h.made e he hop
  named e he hop := by
    rw [h.callee?_eq hgrown he hop]
    exact h.named e he hop
  carriers e he hop := by
    rw [h.callee?_eq hgrown he (by rw [isInvoke, hop, Bool.true_or])]
    exact h.carriers e he hop
  turns k hk := by
    rw [h.constructor?_eq hgrown (List.getElem_mem hk),
      h.waitingBehind_eq hgrown fun e => List.mem_of_mem_take]
    exact h.turns k hk

/-- A constructor call of a polyfill takes its own `new`, wherever it stands in a regular body: the
object that waits on top is one of its class. -/
theorem turn_at_split (h : Regular conventions pool body) {back : List (Nat × Instruction)}
    (hbody : body = front ++ e :: back) {target : MemberRef}
    (htarget : constructor? pool e.2 = some target)
    (hpolyfill : conventions.isPolyfill target.owner = true) {object : Nat × String}
    {rest : List (Nat × String)} (hwaiting : waitingBehind pool front = object :: rest) :
    object.2 = target.owner := by
  subst hbody
  have hlength : front.length < (front ++ e :: back).length := by simp
  refine h.turns front.length hlength target ?_ hpolyfill object ?_
  · rw [List.getElem_append_right (Nat.le_refl _)]
    simpa using htarget
  · rw [List.take_left, hwaiting]
    rfl

end Regular

end Grown

/-! ## Instructions without a rule

An instruction that names no member is never rewritten, wherever it stands. -/

/-- The classes of the `new` instructions that wait behind an instruction, latest first. -/
def openOn (pool : ConstantPool) (names : List String) (i : Instruction) : List String :=
  match made? pool i, constructor? pool i, names with
  | some name, _, _ => name :: names
  | none, some target, name :: rest => if name = target.owner then rest else names
  | none, _, _ => names

/-- An instruction that is neither a `new` nor a constructor call leaves what waits as it is. -/
theorem openOn_of_none {pool : ConstantPool} {i : Instruction} (hmade : made? pool i = none)
    (hconstructor : constructor? pool i = none) (names : List String) :
    openOn pool names i = names := by
  simp only [openOn, hmade, hconstructor]

/-- Whether no rule is one for an instruction in front of which objects of the given classes wait
for their constructors. -/
structure NoRule (s : Surroundings) (pool : ConstantPool) (names : List String) (i : Instruction) :
    Prop where
  call : isCall i.opcode = true → ∀ target callee, callee? pool i = some target →
    ¬ GoesTo s i.opcode target callee
  constructor : ∀ target, constructor? pool i = some target → names.head? = some target.owner →
    ∀ polyfill, s.polyfill? target.owner = some polyfill → polyfill.kind ≠ .replacement

/-- Whether there is no rule for any of some instructions; what waits is told in front of them and
behind them. -/
inductive Quiet (s : Surroundings) (pool : ConstantPool) :
    List String → List Instruction → List String → Prop where
  | nil (names : List String) : Quiet s pool names [] names
  | cons {names names' : List String} {i : Instruction} {is : List Instruction}
    (h : NoRule s pool names i) (hrest : Quiet s pool (openOn pool names i) is names') :
    Quiet s pool names (i :: is) names'

section Quiet

variable {s : Surroundings} {pool : ConstantPool} {names names' names'' : List String}
  {i : Instruction} {is js : List Instruction}

/-- Parts of a body without rules make a whole without rules, if the second part starts with what
waits behind the first. -/
theorem Quiet.append (h : Quiet s pool names is names') (h' : Quiet s pool names' js names'') :
    Quiet s pool names (is ++ js) names'' := by
  induction h with
  | nil => exact h'
  | cons hfirst _ ih => exact .cons hfirst (ih h')

theorem Quiet.single (h : NoRule s pool names i) (hopen : openOn pool names i = names') :
    Quiet s pool names [i] names' :=
  .cons h (hopen ▸ .nil _)

theorem made?_of_word? (h : i.word? = none) : made? pool i = none := by
  rw [made?, h]
  split <;> rfl

theorem callee?_of_word? (h : i.word? = none) : callee? pool i = none := by
  rw [callee?, h]
  rfl

theorem constructor?_of_word? (h : i.word? = none) : constructor? pool i = none := by
  rw [constructor?, callee?_of_word? h]
  split <;> rfl

/-- Whether an instruction neither makes an object nor names a method that it calls. -/
structure NamesNothing (pool : ConstantPool) (i : Instruction) : Prop where
  made : made? pool i = none
  constructor : constructor? pool i = none
  callee : isCall i.opcode = true → callee? pool i = none

theorem NamesNothing.of_word? (h : i.word? = none) : NamesNothing pool i :=
  ⟨made?_of_word? h, constructor?_of_word? h, fun _ => callee?_of_word? h⟩

/-- Rules ask for what an instruction names, so there is none for one that names nothing. -/
theorem NamesNothing.noRule (h : NamesNothing pool i) : NoRule s pool names i := by
  refine ⟨fun hop target callee htarget => ?_, fun target htarget => ?_⟩
  · rw [h.callee hop] at htarget
    cases htarget
  · rw [h.constructor] at htarget
    cases htarget

theorem NamesNothing.openOn_eq (h : NamesNothing pool i) (names : List String) :
    openOn pool names i = names :=
  openOn_of_none h.made h.constructor names

/-- Instructions that name nothing have no rule, and nothing waits for them. The moves around a call
are such instructions. -/
theorem Quiet.of_namesNothing (h : ∀ i ∈ is, NamesNothing pool i) :
    Quiet s pool names is names := by
  induction is with
  | nil => exact .nil names
  | cons i is ih =>
    obtain ⟨hfirst, hrest⟩ := List.forall_mem_cons.1 h
    refine .cons hfirst.noRule ?_
    rw [hfirst.openOn_eq]
    exact ih hrest

/-- Moving instructions changes nothing that they name: only the targets of branches are others. -/
theorem named_of_relocated {f : Nat → Nat} {j : Instruction} (h : Instruction.Relocated f i j) :
    i = j ∨ i.word? = none ∧ j.word? = none := by
  cases h with
  | same =>
    cases i with
    | plain bytes => exact .inl rfl
    | branch op target => exact .inr ⟨rfl, rfl⟩
    | tableSwitch default low targets => exact .inr ⟨rfl, rfl⟩
    | lookupSwitch default cases => exact .inr ⟨rfl, rfl⟩
  | widened op target hop => exact .inr ⟨rfl, rfl⟩

/-- So a row without rules is one when it has been moved. Moving changes targets of branches only,
and no rule looks at those. -/
theorem Quiet.relocated {f : Nat → Nat} (h : Quiet s pool names is names')
    (hmoved : List.Forall₂ (Instruction.Relocated f) is js) : Quiet s pool names js names' := by
  induction hmoved generalizing names with
  | nil => exact h
  | @cons i j is js hfirst _ ih =>
    cases h with
    | cons hnone hrest =>
      rcases named_of_relocated hfirst with rfl | ⟨hi, hj⟩
      · exact .cons hnone (ih hrest)
      · rw [NamesNothing.openOn_eq (.of_word? hi)] at hrest
        refine .cons (NamesNothing.noRule (.of_word? hj)) ?_
        rw [NamesNothing.openOn_eq (.of_word? hj)]
        exact ih hrest

/-- Of what waits, the class names alone develop by the names alone. The offsets differ between the
old body and the new one, so the two are compared by names. -/
theorem map_waitOn (waiting : List (Nat × String)) (e : Nat × Instruction) :
    (waitOn pool waiting e).map (·.2) = openOn pool (waiting.map (·.2)) e.2 := by
  unfold waitOn openOn
  cases made? pool e.2 with
  | some name => rfl
  | none =>
    cases constructor? pool e.2 with
    | none => rfl
    | some target =>
      cases waiting with
      | nil => rfl
      | cons object rest =>
        simp only [List.map_cons]
        split <;> rfl

/-- Wherever a row without rules is split, the instruction there has none, in front of which just
those wait that the planner would have found. -/
theorem Quiet.noRule_at_split {front back : List (Nat × Instruction)} {e : Nat × Instruction}
    {waiting : List (Nat × String)}
    (h : Quiet s pool (waiting.map (·.2)) ((front ++ e :: back).map (·.2)) names') :
    NoRule s pool ((front.foldl (waitOn pool) waiting).map (·.2)) e.2 := by
  induction front generalizing waiting with
  | nil =>
    cases h with
    | cons hnone _ => exact hnone
  | cons first front ih =>
    cases h with
    | cons _ hrest =>
      rw [← map_waitOn] at hrest
      exact ih hrest

/-- **Nothing has a rule** in a body in which no instruction has one. A `new` has a rule by its
constructor call, so it is found at another place of the body. -/
theorem Quiet.not_rewrite {body : List (Nat × Instruction)}
    (h : Quiet s pool [] (body.map (·.2)) names') (e : Nat × Instruction) (he : e ∈ body)
    (r : Rewriting) : ¬ Rewrite s pool body e r := by
  -- Both rules with an object come down to a constructor call, at the place where that stands.
  have hconstructs {front back : List (Nat × Instruction)} {e : Nat × Instruction} {newPc : Nat}
      {name : String} {callee : Invocation} (hbody : body = front ++ e :: back)
      (hconstructs : Constructs s pool (waitingBehind pool front) e.2 newPc name callee) :
      False := by
    rw [hbody] at h
    have hnone : NoRule s pool ((waitingBehind pool front).map (·.2)) e.2 := h.noRule_at_split
    cases hconstructs with
    | intro target rest polyfill d htarget hwaiting hpolyfill hkind hd =>
      refine hnone.constructor target htarget ?_ polyfill hpolyfill hkind
      rw [hwaiting]
      rfl
  intro hrewrite
  cases hrewrite with
  | call target callee hcall htarget hgoes =>
    obtain ⟨front, back, hbody⟩ := List.append_of_mem he
    rw [hbody] at h
    have hnone : NoRule s pool ((waitingBehind pool front).map (·.2)) e.2 := h.noRule_at_split
    exact hnone.call hcall target callee htarget hgoes
  | construct front back newPc name callee hbody h => exact hconstructs hbody h
  | make front back e' name callee hbody h => exact hconstructs hbody h

end Quiet

/-! ## What is emitted

Moves name no member, and a new call names the polyfill. -/

section Emitted

variable {pool : ConstantPool} {i : Instruction}

/-- Instructions of other opcodes than those of `new` and of calls name nothing. -/
theorem NamesNothing.of_opcode (op : UInt8) (hop : i.opcode = op) (hmade : op ≠ Opcode.newObject)
    (hinvoke : isInvoke op = false) : NamesNothing pool i := by
  obtain ⟨hcall, hspecial⟩ := Bool.or_eq_false_iff.1 hinvoke
  refine ⟨made?_of_ne (hop ▸ hmade), constructor?_of_ne ?_, fun htrue => ?_⟩
  · rw [hop]
    exact of_decide_eq_false hspecial
  · rw [hop, hcall] at htrue
    cases htrue

/-- Moves of operands name no methods and make no objects. A `checkcast` names a class, but no rule
asks for that. -/
theorem namesNothing_of_isMove (pool : ConstantPool) (h : i.IsMove) : NamesNothing pool i := by
  have haccess (opcode short : UInt8) (slot : UInt16) :
      NamesNothing pool (Instruction.localAccess opcode short slot) := by
    unfold Instruction.localAccess
    split
    · exact .of_word? rfl
    · split
      · exact .of_word? rfl
      · -- A wide access has bytes where others have the index of a name; its opcode tells.
        exact .of_opcode Opcode.wide rfl (by decide) (by decide)
  cases h with
  | load type slot => exact haccess _ _ _
  | store type slot => exact haccess _ _ _
  | cast index => exact .of_opcode Opcode.checkCast rfl (by decide) (by decide)

/-- An instruction that makes a call names what it calls, in the pool into which that has been
interned. -/
theorem callee?_of_invokes {callee : Invocation} (h : CallSite.Invokes pool i callee) :
    i.opcode = callee.opcode ∧ ∃ target, callee? pool i = some target
      ∧ target.owner = callee.owner ∧ target.name = callee.name
      ∧ target.descriptor = callee.descriptor := by
  obtain ⟨index, hmember, hother, hinterface⟩ := h
  have hword (op : UInt8) (rest : Bytes) : (Instruction.plain
      (op :: (Bytes.word16 index ++ rest))).word? = some index :=
    congrArg some (Bytes.toWord16_word16 index)
  by_cases hcalled : callee.opcode = Opcode.invokeInterface
  · obtain ⟨d, _, _, rfl⟩ := hinterface hcalled
    exact ⟨hcalled.symm, _, callee?_eq_some (hword _ _) hmember, rfl, rfl, rfl⟩
  · obtain rfl := hother hcalled
    exact ⟨rfl, _, callee?_eq_some (hword _ []) hmember, rfl, rfl, rfl⟩

end Emitted

/-! ## Old bodies and new ones

The rows that come from the instructions of the old body, one after the other. None of them has a
rule, whatever waits in front of it. -/

section Bodies

variable {s s' : Surroundings} {pool last : ConstantPool} {body front back : List (Nat × Instruction)}
  {e : Nat × Instruction} {names : List String}

/-- Whether a name is that of the class of an object that waits in a body: its own, if its `new`
stays as it is, or that of the replacement. -/
inductive Renamed (s : Surroundings) (pool : ConstantPool) (body : List (Nat × Instruction))
    (object : Nat × String) : String → Prop where
  | same (h : ∀ i name, (object.1, i) ∈ body → ¬ Rewrite s pool body (object.1, i) (.make name)) :
    Renamed s pool body object object.2
  | replaced (polyfill : Polyfill) (hpolyfill : s.polyfill? object.2 = some polyfill)
    (hkind : polyfill.kind = .replacement) : Renamed s pool body object polyfill.name

/-- A new `new` waits for the replacement of the class for which the old one has waited. It is made
in the same place, so it comes in the same turn. -/
theorem renamed_of_rewrite_make {name : String} (hpcs : (body.map (·.1)).Pairwise (· < ·))
    (he : e ∈ body) (h : Rewrite s pool body e (.make name)) :
    ∃ owner, made? pool e.2 = some owner ∧ Renamed s pool body (e.1, owner) name := by
  cases h with
  | make front back e' name callee hbody hconstructs =>
    cases hconstructs with
    | intro target rest polyfill d htarget hwaiting hpolyfill hkind hd =>
      obtain ⟨i, hi, hmade⟩ := made?_of_mem_waitingBehind (hwaiting ▸ List.mem_cons_self ..)
      have hsame : e = (e.1, i) :=
        eq_of_pc_eq hpcs he (hbody ▸ List.mem_append_left _ hi) rfl
      refine ⟨target.owner, ?_, .replaced polyfill hpolyfill hkind⟩
      rw [hsame]
      exact hmade

/-- A call that is emitted for one without an object stays as it is: this is what the later
surroundings have to agree to. It is no constructor call either, so that nothing waits for it. -/
theorem noRule_of_goesTo {i : Instruction} {opcode : UInt8} {target : MemberRef}
    {callee : Invocation} (hagrees : Agrees s s') (hgoes : GoesTo s opcode target callee)
    (hinvokes : CallSite.Invokes last i callee) :
    NoRule s' last names i ∧ openOn last names i = names := by
  obtain ⟨hop, target', htarget', howner, hname, hdescriptor⟩ := callee?_of_invokes hinvokes
  -- The instruction calls what the old one was sent to, so it is a call and no constructor call.
  have hcall := hgoes.isCall
  have hnew : i.opcode ≠ Opcode.newObject := by
    intro hnew
    rw [← hop, hnew] at hcall
    cases hcall
  have hspecial : i.opcode ≠ Opcode.invokeSpecial := by
    intro hspecial
    rw [← hop, hspecial] at hcall
    cases hcall
  refine ⟨⟨fun _ target callee' htarget => ?_, fun target htarget => ?_⟩,
    openOn_of_none (made?_of_ne hnew) (constructor?_of_ne hspecial) names⟩
  · rw [htarget'] at htarget
    cases htarget
    rw [hop]
    exact hagrees.gone opcode _ callee hgoes target' howner hname hdescriptor callee'
  · rw [constructor?_of_ne hspecial] at htarget
    cases htarget

/-- A `new` has no rule of its own. -/
theorem noRule_new {i : Instruction} (hop : i.opcode = Opcode.newObject) :
    NoRule s' last names i := by
  refine ⟨fun hcall => ?_, fun target htarget => ?_⟩
  · rw [isCall_eq_false (.inl hop)] at hcall
    cases hcall
  · rw [constructor?_of_ne (by rw [hop]; decide)] at htarget
    cases htarget

/-- What a constructor call with a rule has become takes the `new` that has been renamed with it.
The new call is one of a polyfill, which has none in turn, so there is no rule for it. -/
theorem quiet_of_constructs {newPc : Nat} {name : String} {callee : Invocation} {i : Instruction}
    (hagrees : Agrees s s')
    (hconstructs : Constructs s pool (waitingBehind pool front) e.2 newPc name callee)
    (hmake : ∃ i, (newPc, i) ∈ body ∧ Rewrite s pool body (newPc, i) (.make name))
    (hinvokes : CallSite.Invokes last i callee)
    (hnames : List.Forall₂ (Renamed s pool body) (waitingBehind pool front) names) :
    ∃ names', Quiet s' last names [i] names'
      ∧ List.Forall₂ (Renamed s pool body) (waitOn pool (waitingBehind pool front) e) names' := by
  cases hconstructs with
  | intro target rest polyfill d htarget hwaiting hpolyfill hkind hd =>
    rw [hwaiting] at hnames ⊢
    obtain ⟨n, rest', hfirst, hrest, rfl⟩ := List.forall₂_cons_left_iff.1 hnames
    -- The `new` that waits has been renamed, because the call that takes it has a rule.
    have hn : n = polyfill.name := by
      cases hfirst with
      | same hstays =>
        obtain ⟨i, hi, hrewrite⟩ := hmake
        exact absurd hrewrite (hstays i _ hi)
      | replaced polyfill' hpolyfill' =>
        rw [hpolyfill] at hpolyfill'
        rw [Option.some.inj hpolyfill']
    subst hn
    obtain ⟨hop, target', htarget', howner, hname, _⟩ := callee?_of_invokes hinvokes
    have hop : i.opcode = Opcode.invokeSpecial := hop
    have hmade : made? last i = none := made?_of_ne (by rw [hop]; decide)
    have hconstructor := constructor?_eq_some hop htarget' hname
    refine ⟨rest', .single ⟨fun hcall => ?_, fun target htarget _ => ?_⟩ ?_, ?_⟩
    · rw [isCall_eq_false (.inr hop)] at hcall
      cases hcall
    · -- Polyfills have no polyfills.
      rw [hconstructor] at htarget
      cases htarget
      intro polyfill' hpolyfill'
      rw [hagrees.polyfill?, howner] at hpolyfill'
      have hnone := Surroundings.isPolyfill_of_polyfill? hpolyfill'
      change s.conventions.isPolyfill polyfill.name = false at hnone
      rw [Surroundings.isPolyfill_name hpolyfill] at hnone
      cases hnone
    · simp only [openOn, hmade, hconstructor]
      exact if_pos howner.symm
    · have hop := opcode_of_constructor? (by rw [htarget]; rfl)
      have hmade : made? pool e.2 = none := made?_of_ne (by rw [hop]; decide)
      simp only [waitOn, hmade, htarget, if_true]
      exact hrest

/-- What an instruction with a rule has become: no rule is one for it, and it takes the `new` that
its own takes. It is a `new` of another class, or some moves with a call behind them. -/
theorem quiet_of_rewrite {r : Rewriting} {is : List Instruction}
    (hpcs : (body.map (·.1)).Pairwise (· < ·)) (hagrees : Agrees s s')
    (hbody : body = front ++ e :: back) (h : Rewrite s pool body e r) (hemits : Emits last r is)
    (hnames : List.Forall₂ (Renamed s pool body) (waitingBehind pool front) names) :
    ∃ names', Quiet s' last names is names'
      ∧ List.Forall₂ (Renamed s pool body) (waitOn pool (waitingBehind pool front) e) names' := by
  cases hemits with
  | make name index hname =>
    have he : e ∈ body := hbody ▸ List.mem_append_right _ (List.mem_cons_self ..)
    obtain ⟨owner, hmade, hrenamed⟩ := renamed_of_rewrite_make hpcs he h
    have hmade' : made? last (.withWord Opcode.newObject index) = some name :=
      made?_eq_some rfl (congrArg some (Bytes.toWord16_word16 index)) hname
    refine ⟨name :: names, .single (noRule_new rfl) (by simp only [openOn, hmade']), ?_⟩
    simp only [waitOn, hmade]
    exact .cons hrenamed hnames
  -- The moves in front are silent, so it is all about the call.
  | call callee moves i hmoves hinvokes =>
    have hquiet : Quiet s' last names moves names :=
      .of_namesNothing fun j hj => namesNothing_of_isMove last (hmoves j hj)
    cases h with
    | call target _ hcall htarget hgoes =>
      obtain ⟨hnone, hopen⟩ :
          NoRule s' last names i ∧ openOn last names i = names :=
        noRule_of_goesTo hagrees hgoes hinvokes
      have hmade : made? pool e.2 = none := made?_of_ne fun hop => by
        rw [isCall_eq_false (.inl hop)] at hcall
        cases hcall
      have hconstructor : constructor? pool e.2 = none := constructor?_of_ne fun hop => by
        rw [isCall_eq_false (.inr hop)] at hcall
        cases hcall
      refine ⟨names, hquiet.append (.single hnone hopen), ?_⟩
      simp only [waitOn, hmade, hconstructor]
      exact hnames
    | construct front' back' newPc name _ hbody' hconstructs =>
      -- The rule speaks of the place where the call stands, which is this one.
      obtain rfl := front_eq_of_split hpcs hbody hbody'
      obtain ⟨owner, hwaiting⟩ := hconstructs.waiting_eq
      obtain ⟨new, hnew, _⟩ := made?_of_mem_waitingBehind (hwaiting ▸ List.mem_cons_self ..)
      obtain ⟨names', hcalled, hrenamed⟩ := quiet_of_constructs hagrees hconstructs
        ⟨new, hbody ▸ List.mem_append_left _ hnew, .make front back e name callee hbody
          hconstructs⟩ hinvokes hnames
      exact ⟨names', hquiet.append hcalled, hrenamed⟩

/-- A constructor call without a rule takes the `new` that it has taken, if any. In the old body
this was decided by class names, and some of these have changed. A name that has changed is that of
a polyfill, and only in a regular body the call of a polyfill's constructor cannot come to it by
chance. -/
theorem quiet_of_constructor {target : MemberRef} (hagrees : Agrees s s')
    (hregular : Regular s.conventions pool body) (hbody : body = front ++ e :: back)
    (hconstructor : constructor? pool e.2 = some target)
    (hconstructor' : constructor? last e.2 = some target) (h : ∀ r, ¬ Rewrite s pool body e r)
    (hnames : List.Forall₂ (Renamed s pool body) (waitingBehind pool front) names) :
    ∃ names', Quiet s' last names [e.2] names'
      ∧ List.Forall₂ (Renamed s pool body) (waitOn pool (waitingBehind pool front) e) names' := by
  have he : e ∈ body := hbody ▸ List.mem_append_right _ (List.mem_cons_self ..)
  have hop := opcode_of_constructor? (by rw [hconstructor]; rfl)
  have hmade : made? pool e.2 = none := made?_of_ne (by rw [hop]; decide)
  have hmade' : made? last e.2 = none := made?_of_ne (by rw [hop]; decide)
  have hnone (hhead : names.head? = some target.owner → ∀ polyfill,
      s.polyfill? target.owner = some polyfill → polyfill.kind ≠ .replacement) :
      NoRule s' last names e.2 := by
    refine ⟨fun hcall => ?_, fun target' htarget hnamed polyfill hpolyfill => ?_⟩
    · rw [isCall_eq_false (.inr hop)] at hcall
      cases hcall
    · rw [hconstructor'] at htarget
      cases htarget
      rw [hagrees.polyfill?] at hpolyfill
      exact hhead hnamed polyfill hpolyfill
  -- If the class of the object had a replacement, there would be a rule.
  have hstays {newPc : Nat} {rest : List (Nat × String)}
      (hwaiting : waitingBehind pool front = (newPc, target.owner) :: rest)
      (polyfill : Polyfill) (hpolyfill : s.polyfill? target.owner = some polyfill) :
      polyfill.kind ≠ .replacement := by
    intro hkind
    obtain ⟨target', d, htarget', hd⟩ := hregular.exists_callee he (by rw [hop]; rfl)
    obtain rfl := callee?_of_constructor? hconstructor htarget'
    exact h _ (.construct front back newPc _ _ hbody
      (.intro target rest polyfill d hconstructor hwaiting hpolyfill hkind hd))
  cases hwaiting : waitingBehind pool front with
  | nil =>
    -- Nothing waits in the new body either.
    rw [hwaiting, List.forall₂_nil_left_iff] at hnames
    subst hnames
    refine ⟨[], .single (hnone nofun) (by simp only [openOn, hmade', hconstructor']), ?_⟩
    simp only [waitOn, hmade, hconstructor]
    exact .nil
  | cons object rest =>
    rw [hwaiting] at hnames
    obtain ⟨n, rest', hfirst, hrest, rfl⟩ := List.forall₂_cons_left_iff.1 hnames
    by_cases howner : object.2 = target.owner
    · -- The call takes the latest object, whose `new` has stayed as it is.
      have hobject : object = (object.1, target.owner) := Prod.ext rfl howner
      have hn : n = target.owner := by
        cases hfirst with
        | same => exact howner
        | replaced polyfill hpolyfill hkind =>
          rw [howner] at hpolyfill
          exact absurd hkind (hstays (hobject ▸ hwaiting) polyfill hpolyfill)
      refine ⟨rest', .single (hnone fun _ => hstays (hobject ▸ hwaiting)) ?_, ?_⟩
      · simp only [openOn, hmade', hconstructor']
        exact if_pos hn
      · simp only [waitOn, hmade, hconstructor, if_pos howner]
        exact hrest
    · -- The new class is not the one that is called either, since then it would be a polyfill,
      -- and have its turn.
      have hn : n ≠ target.owner := by
        cases hfirst with
        | same => exact howner
        | replaced polyfill hpolyfill hkind =>
          intro hsame
          have hturn : s.conventions.isPolyfill target.owner = true := by
            rw [← hsame]
            exact Surroundings.isPolyfill_name hpolyfill
          exact howner (hregular.turn_at_split hbody hconstructor hturn hwaiting)
      refine ⟨n :: rest', .single (hnone fun hhead => absurd (Option.some.inj hhead) hn) ?_, ?_⟩
      · simp only [openOn, hmade', hconstructor', if_neg hn]
      · simp only [waitOn, hmade, hconstructor, if_neg howner]
        exact hnames

/-- An instruction without a rule stays without one, and what waits behind it in the new body is
what waits behind it in the old one. -/
theorem quiet_of_not_rewrite (hpcs : (body.map (·.1)).Pairwise (· < ·)) (hagrees : Agrees s s')
    (hregular : Regular s.conventions pool body) (hgrown : Grown pool last)
    (hbody : body = front ++ e :: back) (h : ∀ r, ¬ Rewrite s pool body e r)
    (hnames : List.Forall₂ (Renamed s pool body) (waitingBehind pool front) names) :
    ∃ names', Quiet s' last names [e.2] names'
      ∧ List.Forall₂ (Renamed s pool body) (waitOn pool (waitingBehind pool front) e) names' := by
  have he : e ∈ body := hbody ▸ List.mem_append_right _ (List.mem_cons_self ..)
  have hmadeLast := hregular.made?_eq hgrown he
  have hconstructorLast := hregular.constructor?_eq hgrown he
  cases hmade : made? pool e.2 with
  | some owner =>
    rw [hmade] at hmadeLast
    refine ⟨owner :: names, .single (noRule_new (opcode_of_made? hmade)) (by
      simp only [openOn, hmadeLast]), ?_⟩
    simp only [waitOn, hmade]
    -- This `new` has kept its class, since it would have a rule otherwise.
    refine .cons (.same fun i name hi => ?_) hnames
    rw [← eq_of_pc_eq hpcs he hi rfl]
    exact h (.make name)
  | none =>
    rw [hmade] at hmadeLast
    cases hconstructor : constructor? pool e.2 with
    | none =>
      rw [hconstructor] at hconstructorLast
      refine ⟨names, .single ⟨fun hcall target callee htarget hgoes => ?_, fun target htarget => ?_⟩
        (openOn_of_none hmadeLast hconstructorLast names), ?_⟩
      · rw [hregular.callee?_eq hgrown he (by rw [isInvoke, hcall, Bool.true_or])] at htarget
        obtain ⟨callee, hgoes⟩ := hagrees.kept _ target callee (fun hcarrier => by
          obtain ⟨hop, hname⟩ := hregular.carriers e he hcall target htarget hcarrier
          simp [isFactoryCall, hop, hname]) hgoes
        exact h _ (.call target callee hcall htarget hgoes)
      · rw [hconstructorLast] at htarget
        cases htarget
      · simp only [waitOn, hmade, hconstructor]
        exact hnames
    | some target =>
      rw [hconstructor] at hconstructorLast
      exact quiet_of_constructor hagrees hregular hbody hconstructor hconstructorLast h hnames

/-- **What waits in the new body**: the `new` instructions that wait in the old one, for their own
classes or for the replacements of those. No instruction of the new body has a rule. -/
theorem renamed_of_becomes {became : Nat × Instruction → List Instruction}
    (hpcs : (body.map (·.1)).Pairwise (· < ·)) (hagrees : Agrees s s')
    (hregular : Regular s.conventions pool body) (hgrown : Grown pool last)
    (hbecomes : ∀ e ∈ body, Becomes s pool last body e (became e)) (hbody : body = front ++ back) :
    ∃ names, Quiet s' last [] (front.flatMap became) names
      ∧ List.Forall₂ (Renamed s pool body) (waitingBehind pool front) names := by
  -- Both scans go forward, so the induction takes the last instruction off the front.
  induction front using List.reverseRecOn generalizing back with
  | nil => exact ⟨[], .nil [], .nil⟩
  | append_singleton front e ih =>
    have hsplit : body = front ++ e :: back := by
      rw [hbody, List.append_assoc]
      rfl
    have he : e ∈ body := hsplit ▸ List.mem_append_right _ (List.mem_cons_self ..)
    obtain ⟨names, hquiet, hnames⟩ := ih hsplit
    have hone : ∃ names', Quiet s' last names (became e) names'
        ∧ List.Forall₂ (Renamed s pool body) (waitOn pool (waitingBehind pool front) e) names' := by
      by_cases hrewrite : ∃ r, Rewrite s pool body e r
      · obtain ⟨r, hrewrite⟩ := hrewrite
        exact quiet_of_rewrite hpcs hagrees hsplit hrewrite ((hbecomes e he).rewritten r hrewrite)
          hnames
      · have hnone := not_exists.1 hrewrite
        rw [(hbecomes e he).kept hnone]
        exact quiet_of_not_rewrite hpcs hagrees hregular hgrown hsplit hnone hnames
    obtain ⟨names', hmore, hnames'⟩ := hone
    refine ⟨names', ?_, ?_⟩
    · rw [List.flatMap_append, List.flatMap_singleton]
      exact hquiet.append hmore
    · rw [waitingBehind_concat]
      exact hnames'

/-- **Nothing in a redirected body has a rule.** So planning it once more gives no site. -/
theorem not_rewrite_of_becomes {became : Nat × Instruction → List Instruction}
    {moved : List (Nat × Instruction)} {f : Nat → Nat}
    (hpcs : (body.map (·.1)).Pairwise (· < ·)) (hagrees : Agrees s s')
    (hregular : Regular s.conventions pool body) (hgrown : Grown pool last)
    (hbecomes : ∀ e ∈ body, Becomes s pool last body e (became e))
    (hmoved : List.Forall₂ (Instruction.Relocated f) (body.flatMap became) (moved.map (·.2))) :
    ∀ e ∈ moved, ∀ r, ¬ Rewrite s' last moved e r := by
  obtain ⟨names, hquiet, _⟩ := renamed_of_becomes hpcs hagrees hregular hgrown hbecomes
    (List.append_nil body).symm
  exact (hquiet.relocated hmoved).not_rewrite

end Bodies

end ClassLoom.Redirection
