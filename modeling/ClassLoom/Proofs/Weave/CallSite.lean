import ClassLoom.Proofs.ConstantPool.Consistency
import ClassLoom.Proofs.Weave.CalleeNames
import ClassLoom.Proofs.Weave.Emission

/-!
# What a redirected call gets

The instructions that are emitted for a planned site hand the receiver and the arguments of the
old call over to the new one (`Delivers`): in the old order, cast to what the new call takes
them as, with what lies under them left alone. No local variable of the method is touched, and
the stack gets no deeper than it was.

Those operands are of the types that the new call takes. Whether its descriptor also says so
(`Consumes`) depends on the class names in it. A name with a semicolon ends early when the
descriptor is read, and what stands behind the semicolon is read as more parameters;
`planned_of_semicolon` is such a call.

* `emit_delivers`: what is emitted for one site;
* `planned_handedOver`: the same of all sites of a body, with the room that the body has.
-/

namespace ClassLoom

open ConstantPool CallPlan Machine

/-- Whether a call with an opcode, written with the given owner and descriptor, takes just the
operands, in order: the descriptor can be read, and they are values of the types in it. -/
def Machine.Consumes {V : Type} (opcode : UInt8) (owner descriptor : String)
    (ops : List (Operand V)) : Prop :=
  ∃ callee, MethodDescriptor.parse descriptor = .ok callee ∧ AreOf (takes opcode owner callee) ops

namespace CallSite

/-- Whether a receiver and arguments are those of a call with the descriptor `d`. -/
structure Arrives {V : Type} (opcode : UInt8) (d : MethodDescriptor)
    (receiver : Option (Operand V)) (ops : List (Operand V)) : Prop where
  args : AreOf d.params ops
  receiver : if opcode = Opcode.invokeStatic then receiver = none
    else ∃ r, receiver = some r ∧ r.family = referenceFamily

/-- Whether what is emitted for a site ends with the site's call and has in front of it what
hands the operands of the old call over to it. The stack is as deep as it was at most, and of
the local variables only those `width` from `base` on are used. -/
def Delivers (site : CallSite) (opcode : UInt8) (d callee : MethodDescriptor)
    (base width : UInt16) (emitted : List Instruction) (pool : ConstantPool) : Prop :=
  ∃ moves call, emitted = moves ++ [call] ∧ Invokes pool call site.call
    ∧ ∀ (V : Type) (receiver : Option (Operand V)) (ops stack : List (Operand V))
      (locals : Nat → Cell V), Arrives opcode d receiver ops →
      ∃ locals',
        run pool
            { slots := base.toNat + width.toNat
              depth := depth (ops.reverse ++ (receiver.toList ++ stack)) } moves
            { stack := ops.reverse ++ (receiver.toList ++ stack), locals }
          = some { stack := (castOperands site receiver ops).reverse ++ stack, locals := locals' }
        ∧ (∀ n, n < base.toNat ∨ base.toNat + width.toNat ≤ n → locals' n = locals n)
        ∧ AreOf (takes site.call.opcode site.call.owner callee) (castOperands site receiver ops)

section Carries

variable {V : Type} {s : Surroundings} {opcode : UInt8} {target : MemberRef}
  {d callee : MethodDescriptor} {site : CallSite} {receiver : Option (Operand V)}
  {ops : List (Operand V)}

/-- Only references are cast. -/
theorem isReference_of_isSome (hcarries : Carries s opcode target d site callee) :
    ∀ a ∈ site.args, a.2.isSome → a.1.isReference := by
  intro a ha hcast
  rw [hcarries.args] at ha
  obtain ⟨type, _, rfl⟩ := List.mem_map.1 ha
  cases type with
  | base type =>
    simp only [Surroundings.substitute, FieldType.classEntryName?, ite_self] at hcast
    cases hcast
  | object name => rfl
  | array component => rfl

/-- The operands of the old call are those that the site moves. The receiver is one of them if it is
cast. -/
theorem operands_of_arrives (hcarries : Carries s opcode target d site callee)
    (harrives : Arrives opcode d receiver ops) : Operands site receiver ops where
  args := by
    unfold Fits
    rw [hcarries.args, List.forall₂_map_left_iff]
    exact harrives.args
  receiver := by
    intro hcast
    obtain ⟨owner, _, hreceiver⟩ := hcarries.operands
    have harrived := harrives.receiver
    by_cases hstatic : opcode = Opcode.invokeStatic
    · rw [hreceiver, if_pos (.inl hstatic)] at hcast
      cases hcast
    · rwa [if_neg hstatic] at harrived

theorem family_castTo (o : Operand V) (cast : Option String) :
    (o.castTo cast).family = o.family := by
  cases cast <;> rfl

/-- **What the new call takes** is what the site hands over. Casts change what an operand is known
to be, and not of which family it is. -/
theorem takes_castOperands (hcarries : Carries s opcode target d site callee)
    (harrives : Arrives opcode d receiver ops) :
    AreOf (takes site.call.opcode site.call.owner callee) (castOperands site receiver ops) := by
  obtain ⟨owner, htakes, _⟩ := hcarries.operands
  have hreceiver : AreOf
      (if opcode = Opcode.invokeStatic then [] else [FieldType.object owner])
      (receiver.map (·.castTo site.receiverCast)).toList := by
    have harrived := harrives.receiver
    split at harrived
    · next hstatic =>
      rw [if_pos hstatic, harrived]
      exact .nil
    · next hinstance =>
      obtain ⟨r, rfl, hfamily⟩ := harrived
      rw [if_neg hinstance]
      exact .cons ((family_castTo r _).trans hfamily) .nil
  -- A factory takes the arguments as they are, and other callees under the names of polyfills;
  -- neither changes how wide an operand is.
  have hargs : ∀ (params : List FieldType) (ops : List (Operand V)), AreOf params ops →
      AreOf
        (params.map fun type => if isFactoryCall s opcode target then type else s.substitute type)
        (List.zipWith (fun a o => o.castTo a.2) (params.map fun type => (type,
          if isFactoryCall s opcode target then none else (s.substitute type).classEntryName?))
          ops) := by
    intro params ops h
    induction h with
    | nil => exact .nil
    | @cons type o _ _ hfamily _ ih =>
      refine .cons ?_ ih
      rw [family_castTo, hfamily]
      split
      · rfl
      · exact (family_substitute s type).symm
  rw [htakes]
  unfold castOperands
  rw [hcarries.args]
  exact List.rel_append hreceiver (hargs _ _ harrives.args)

end Carries

/-! ## Emission

What is emitted for a site moves the operands as the site says, and ends in the new call. -/

/-- A site that moves nothing casts nothing. It takes its operands from where they are. So it is
enough to make the new call in its place. -/
theorem castOperands_of_not_needsSpill {V : Type} {site : CallSite}
    (h : site.needsSpill = false) {receiver : Option (Operand V)} {ops : List (Operand V)}
    (hfits : Fits site.args ops) : castOperands site receiver ops = receiver.toList ++ ops := by
  simp only [needsSpill, Bool.or_eq_false_iff, Option.isSome_eq_false_iff, Option.isNone_iff_eq_none,
    List.any_eq_false] at h
  obtain ⟨hreceiver, hargs⟩ := h
  -- No argument has a cast, so each is handed over as it is.
  have hsame : List.zipWith (fun (a : FieldType × Option String) o => Operand.castTo o a.2)
      site.args ops = ops := by
    generalize site.args = args at hfits hargs
    induction hfits with
    | nil => rfl
    | @cons a o args ops _ _ ih =>
      have hcast : a.2 = none := by
        have hnone := hargs a (List.mem_cons_self ..)
        simpa using hnone
      rw [List.zipWith_cons_cons, hcast, ih fun a ha => hargs a (List.mem_cons_of_mem _ ha)]
      rfl
  unfold castOperands
  rw [hsame, hreceiver]
  cases receiver <;> rfl

/-- **What is emitted for a site** hands the operands over. They are on the stack when the call is
made, in order, with whatever was under them. -/
theorem emit_delivers {s : Surroundings} {opcode : UInt8} {target : MemberRef}
    {d callee : MethodDescriptor} {site : CallSite} {base width : UInt16}
    {emitted : List Instruction} {start last pool : ConstantPool}
    (hcarries : Carries s opcode target d site callee) (hstart : Reachable start)
    (h : emit site base start = .ok (emitted, width) last) (hgrown : Grown last pool) :
    Delivers site opcode d callee base width emitted pool := by
  obtain ⟨moves, slots, mid, call, hmoves, hcall, rfl, hwidth⟩ := emit_eq_ok h
  have hmid := (appends_moves site base).reachable_of_ok hstart hmoves
  have hcallGrown := (appends_invoke site.call).grown_of_ok hcall
  refine ⟨moves, call, rfl, (invoke_spec hmid hcall).grown hgrown, ?_⟩
  intro V receiver ops stack locals harrives
  -- The operands that arrive are those that the moves are made for.
  have hops := operands_of_arrives hcarries harrives
  have htakes := takes_castOperands hcarries harrives
  cases hspill : site.needsSpill with
  | false =>
    -- Nothing is cast, so the operands are where they have to be.
    rw [hspill, if_neg (by decide)] at hmoves
    obtain ⟨hpair, rfl⟩ := Interning.pure_eq_ok.1 hmoves
    cases hpair
    refine ⟨locals, ?_, fun _ _ => rfl, htakes⟩
    rw [castOperands_of_not_needsSpill hspill hops.args, run_nil]
    cases receiver <;> simp
  | true =>
    rw [hspill, if_pos rfl] at hmoves
    have hdepth : depth ops + depth receiver.toList + depth stack
        ≤ depth (ops.reverse ++ (receiver.toList ++ stack)) := by
      rw [depth_append, depth_append, depth_reverse]
      omega
    have hbound : base.toNat + slots ≤ base.toNat + width.toNat := by omega
    obtain ⟨hrun, hslots⟩ := run_spill
      (b := ⟨base.toNat + width.toNat, depth (ops.reverse ++ (receiver.toList ++ stack))⟩)
      hmoves hstart (hcallGrown.trans hgrown) (isReference_of_isSome hcarries) hops hbound hdepth
      locals
    refine ⟨_, hrun, fun n hn => ?_, htakes⟩
    exact writeAll_of_outside locals (by omega)

/-! ## Whole bodies

Planning and emission together, for all sites of a body. -/

/-- Whether a site that is planned for a body is handed over what it needs. The site stands for
a call of the body and takes what that call takes. Its descriptor is read back as what it was
written for exactly if the names in it can stand there, which they do if the names that go into it
fit; the call then takes just what it is handed over. Whatever is emitted for it, with whatever
local variables in front, delivers the operands of the call; and the body that is made with all
sites has room for the local variables that it takes. -/
def HandedOver (s : Surroundings) (pool : ConstantPool) (code : Code) (sites : List CallSite)
    (site : CallSite) : Prop :=
  ∃ instructions i index target d callee,
    Instruction.decode code.bytecode = .ok instructions ∧ (site.pc, i) ∈ instructions
      ∧ i.word? = some index ∧ pool.getMember index = .ok target
      ∧ MethodDescriptor.parse target.descriptor = .ok d
      ∧ Carries s i.opcode target d site callee
      ∧ (MethodDescriptor.parse site.call.descriptor = .ok callee ↔ callee.IsNamed)
      ∧ (Weave.SeesDescribed s.scope → NamesFit s i.opcode target → callee.IsNamed
        ∧ ∀ (V : Type) (receiver : Option (Operand V)) (ops : List (Operand V)),
          Arrives i.opcode d receiver ops →
          Consumes site.call.opcode site.call.owner site.call.descriptor
            (castOperands site receiver ops))
      ∧ (∀ base emitted width start last pool', Reachable start →
        emit site base start = .ok (emitted, width) last → Grown last pool' →
        Delivers site i.opcode d callee base width emitted pool')
      ∧ ∀ className m start redirected last, Reachable start →
        Weave.redirectCode s className m code sites start = .ok redirected last →
        ∃ emitted width, EmittedBetween site code.maxLocals emitted width start last
          ∧ Delivers site i.opcode d callee code.maxLocals width emitted last
          ∧ code.maxLocals.toNat + width.toNat ≤ redirected.maxLocals.toNat

/-- **Every planned site** is handed over what it needs. Whether that is what the written descriptor
takes depends on the names in it. -/
theorem planned_handedOver {s : Surroundings} {pool : ConstantPool} {location : Location}
    {code : Code} {sites : List CallSite} {diagnostics : List Diagnostic}
    (h : planAll s pool location code = .ok (sites, diagnostics)) :
    ∀ site ∈ sites, HandedOver s pool code sites site := by
  intro site hsite
  obtain ⟨instructions, hdecode, hplanned⟩ := planned_of_planAll h
  obtain ⟨i, index, target, hmem, hindex, htarget, hrule⟩ := hplanned site hsite
  obtain ⟨d, callee, hd, hnew, hcarries⟩ := hrule.exists_carries
  have hread : MethodDescriptor.parse site.call.descriptor = .ok callee ↔ callee.IsNamed := by
    rw [MethodDescriptor.parse_eq_ok_iff, hcarries.descriptor]
    exact and_iff_right rfl
  refine ⟨instructions, i, index, target, d, callee, hdecode, hmem, hindex, htarget, hd, hcarries,
    hread, ?_, ?_, ?_⟩
  · intro hscope hfit
    -- The names in the old descriptor were read, so they can stand in the new one.
    have hnamed := hnew.isNamed (MethodDescriptor.parse_eq_ok_iff.1 hd).2 hscope hfit
    exact ⟨hnamed, fun V receiver ops harrives =>
      ⟨callee, hread.2 hnamed, takes_castOperands hcarries harrives⟩⟩
  · intro base emitted width start last pool' hstart hemit hgrown
    exact emit_delivers hcarries hstart hemit hgrown
  · intro className m start redirected last hstart hredirect
    obtain ⟨emitted, width, ⟨before, after, hfirst, hbefore, hemit, hafter⟩, hfits⟩ :=
      Weave.redirectCode_fits hstart hredirect site hsite
    exact ⟨emitted, width, ⟨before, after, hfirst, hbefore, hemit, hafter⟩,
      emit_delivers hcarries hbefore hemit hafter, hfits⟩

/-- The conventions of the calls below: polyfills are in the package `p`, behind an underscore. -/
def underscored : Conventions where
  polyfillNamespace := "p"
  mixinMarker := "M"
  companionSuffix := "$"
  lambdaClass := .oneOf .empty
  lambdaFactory := "make"
  replacementFactory := "_make"
  replacementPrefix := "_"
  lambdaInstanceField := "instance"
  localVariableType := "O"

/-- A call on an instance, with a wide argument and one that is cast like the receiver. The operands
are moved to local variables and back, and two of them are cast on the way. -/
theorem planned_handedOver_instance :
    let stub : ClassStub :=
      { name := "p/_A", access := 0, superName := none, interfaces := [], annotations := []
        fields := [], methods := [] }
    let s : Surroundings :=
      { scope := { batch := .empty, classpath := ClassIndex.empty.insert stub }
        conventions := underscored }
    let pool := ConstantPool.after
      (internMember { kind := .method, owner := "A", name := "f", descriptor := "(JLA;)V" }) empty
    let code : Code := { maxStack := 4, maxLocals := 1, bytecode := [0xb6, 0, 6, 0xb1] }
    let site : CallSite :=
      { pc := 0, receiverCast := some "p/_A"
        args := [(.base .long, none), (.object "A", some "p/_A")]
        call :=
          { opcode := Opcode.invokeVirtual, owner := "p/_A", name := "f"
            descriptor := "(JLp/_A;)V", ofInterface := false } }
    planAll s pool { className := "B" } code = .ok ([site], [])
      ∧ ∀ x ∈ [site], HandedOver s pool code [site] x :=
  have h := by decide +kernel
  ⟨h, planned_handedOver h⟩

/-- **A class name with a semicolon** makes two parameters of one. The call of `f` on an `A;LB` goes
to the mixin of that class, and the instructions that are emitted for it hand over the receiver;
the mixin's method takes an `A` and a `B`. -/
theorem planned_of_semicolon :
    let stub : ClassStub :=
      { name := "p/_A;LB", access := 0, superName := none, interfaces := []
        annotations := ["M"], fields := []
        methods := [
          { access := Access.staticFlag, name := "f", descriptor := "(LA;LB;)V"
            parsed := { params := [.object "A", .object "B"], result := .void } }] }
    let s : Surroundings :=
      { scope := { batch := .empty, classpath := ClassIndex.empty.insert stub }
        conventions := underscored }
    let pool := ConstantPool.after
      (internMember { kind := .method, owner := "A;LB", name := "f", descriptor := "()V" }) empty
    let code : Code := { maxStack := 1, maxLocals := 1, bytecode := [0xb6, 0, 6, 0xb1] }
    let site : CallSite :=
      { pc := 0, receiverCast := some "A;LB", args := []
        call :=
          { opcode := Opcode.invokeStatic, owner := "p/_A;LB", name := "f"
            descriptor := "(LA;LB;)V", ofInterface := false } }
    let receiver : Operand Nat := { family := referenceFamily, value := 0 }
    planAll s pool { className := "X" } code = .ok ([site], [])
      ∧ ((emit site code.maxLocals).on pool).toOption.isSome
      ∧ Arrives Opcode.invokeVirtual { params := [], result := .void } (some receiver) []
      ∧ castOperands site (some receiver) [] = [receiver.castTo (some "A;LB")]
      ∧ ¬ Consumes site.call.opcode site.call.owner site.call.descriptor
        (castOperands site (some receiver) []) := by
  intro stub s pool code site receiver
  have hread : MethodDescriptor.parse site.call.descriptor
      = .ok { params := [.object "A", .object "B"], result := .void } := by
    decide +kernel
  refine ⟨by decide +kernel, by decide +kernel, ⟨.nil, receiver, rfl, rfl⟩, rfl, ?_⟩
  rintro ⟨callee, hcallee, hops⟩
  rw [hread] at hcallee
  cases hcallee
  -- There are two types, and one operand.
  exact absurd hops.length_eq (by decide)

end CallSite
end ClassLoom
