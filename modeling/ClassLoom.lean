import ClassLoom.ClassFile.Format
import ClassLoom.Descriptor.Parser
import ClassLoom.Annotation
import ClassLoom.CodePatch
import ClassLoom.ClassStub
import ClassLoom.Typing.Hierarchy
import ClassLoom.Typing.MachineState
import ClassLoom.Typing.Step
import ClassLoom.Typing.FrameTable
import ClassLoom.Typing.Pass
import ClassLoom.Typing.Retype
import ClassLoom.Pattern
import ClassLoom.Pattern.Parser
import ClassLoom.Conventions
import ClassLoom.Diagnostic
import ClassLoom.Settings
import ClassLoom.ClassIndex
import ClassLoom.Polyfill
import ClassLoom.Weave.CallRedirection
import ClassLoom.Weave.LocalRetyping
import ClassLoom.Weave.DefaultForwarder
import ClassLoom.Weave.LambdaCarrier
import ClassLoom.Weave.Weaver
import ClassLoom.Archive.Checksum
import ClassLoom.Archive.Directory
import ClassLoom.Jar
import ClassLoom.Classpath
import ClassLoom.Files.FileTree
import ClassLoom.Program.Options
import ClassLoom.Program.Run
import ClassLoom.Main
import ClassLoom.Proofs.Computation
import ClassLoom.Proofs.Instruction.WrittenForm
import ClassLoom.Proofs.Instruction.Decoded
import ClassLoom.Proofs.Instruction.Reassembled
import ClassLoom.Proofs.Listing.Layout
import ClassLoom.Proofs.Listing.Decoded
import ClassLoom.Proofs.Instruction.Assembled
import ClassLoom.Proofs.CodePatch.Changes
import ClassLoom.Proofs.CodePatch.Body
import ClassLoom.Proofs.CodePatch.Pieces
import ClassLoom.Proofs.CodePatch.Ranges
import ClassLoom.Proofs.CodePatch.Lines
import ClassLoom.Proofs.ConstantPool.Consistency
import ClassLoom.Proofs.ConstantPool.Interning
import ClassLoom.Proofs.ConstantPool.Symbols
import ClassLoom.Proofs.Weave.OperandMachine
import ClassLoom.Proofs.Weave.Spill
import ClassLoom.Proofs.Weave.CallPlan
import ClassLoom.Proofs.Descriptor.Printed
import ClassLoom.Proofs.Descriptor.Accepted
import ClassLoom.Proofs.Typing.Retype
import ClassLoom.Proofs.Weave.CalleeNames
import ClassLoom.Proofs.Weave.CallSite
import ClassLoom.Proofs.StackMap.RoundTrip
import ClassLoom.Proofs.Typing.SlotValues
import ClassLoom.Proofs.Typing.TableRoundTrip
import ClassLoom.Proofs.Typing.Widening
import ClassLoom.Proofs.Typing.FrameOrder
import ClassLoom.Proofs.Typing.Moves
import ClassLoom.Proofs.Typing.Passes
import ClassLoom.Proofs.Typing.Checked
import ClassLoom.Proofs.Typing.Growth
import ClassLoom.Proofs.Typing.Settled
import ClassLoom.Proofs.Typing.Ending
import ClassLoom.Proofs.Typing.Upward
import ClassLoom.Proofs.Typing.CommonSuperclass
import ClassLoom.Proofs.Typing.LocalSlots
import ClassLoom.Proofs.Typing.ReachedStates
import ClassLoom.Proofs.Written
import ClassLoom.Proofs.Code.RoundTrip
import ClassLoom.Proofs.ConstantPool.Requests
import ClassLoom.Proofs.Code.ReadLater
import ClassLoom.Proofs.Weave.Attempts
import ClassLoom.Proofs.Weave.LegacyLocals
import ClassLoom.Proofs.Weave.Preparation
import ClassLoom.Proofs.Weave.SubstitutedTypes
import ClassLoom.Proofs.Weave.Settled
import ClassLoom.Proofs.ModifiedUtf8
import ClassLoom.Proofs.ConstantPool.Order
import ClassLoom.Proofs.ConstantPool.Growth
import ClassLoom.Proofs.ReadsBack
import ClassLoom.Proofs.ConstantPool.Spelling
import ClassLoom.Proofs.ConstantPool.Texts
import ClassLoom.Proofs.ConstantPool.RoundTrip
import ClassLoom.Proofs.ClassFile.Indexed
import ClassLoom.Proofs.ClassFile.FirstSlots
import ClassLoom.Proofs.ClassFile.Overflow
import ClassLoom.Proofs.ClassFile.RoundTrip
import ClassLoom.Proofs.ClassFile.Fits
import ClassLoom.Proofs.Weave.Emission
import ClassLoom.Proofs.Weave.Redirection
import ClassLoom.Proofs.Weave.Rewriting
import ClassLoom.Proofs.Typing.Receivers
import ClassLoom.Proofs.Weave.EmittedForm
import ClassLoom.Proofs.Weave.RedirectedBody
import ClassLoom.Proofs.Weave.RedirectedClass
import ClassLoom.Proofs.Weave.VariableTables
import ClassLoom.Proofs.Weave.RenumberedLocals
import ClassLoom.Proofs.Code.Rebodied
import ClassLoom.Proofs.Weave.FactoryPlans
import ClassLoom.Proofs.Weave.Kept
import ClassLoom.Proofs.Weave.PassedOver
import ClassLoom.Proofs.Weave.Declared
import ClassLoom.Proofs.Weave.FactoryCalls
import ClassLoom.Proofs.Weave.ConstructedObjects
import ClassLoom.Proofs.Weave.Forwarders
import ClassLoom.Proofs.Weave.WovenStub
import ClassLoom.Proofs.Weave.WovenScope
import ClassLoom.Proofs.Weave.DefaultMethods
import ClassLoom.Proofs.Weave.Room
import ClassLoom.Proofs.Weave.MemberTables
import ClassLoom.Proofs.Weave.Migration
import ClassLoom.Proofs.Weave.Untouched
import ClassLoom.Proofs.Weave.BatchOrder
import ClassLoom.Proofs.Weave.Asking
import ClassLoom.Proofs.Weave.Workers
import ClassLoom.Proofs.StackMap.Forms
import ClassLoom.Proofs.StackMap.Moved
import ClassLoom.Proofs.Listing.Reread
import ClassLoom.Proofs.CodePatch.Unmoved
import ClassLoom.Proofs.CodePatch.EmptyPatch
import ClassLoom.Proofs.Scope.InterfaceOrder
import ClassLoom.Proofs.Weave.OfferedMethods
import ClassLoom.Proofs.Weave.NearestForwarder
import ClassLoom.Proofs.Weave.ForwarderBody
import ClassLoom.Proofs.Weave.BodyMachine
import ClassLoom.Proofs.Weave.SynthesizedBodies
import ClassLoom.Proofs.Weave.GainedMethods
import ClassLoom.Proofs.Weave.AddedForwarders
import ClassLoom.Proofs.Scope.Superclasses
import ClassLoom.Proofs.Scope.InterfaceClosure
import ClassLoom.Proofs.Scope.DeclaringClass
import ClassLoom.Proofs.Annotation
import ClassLoom.Proofs.Jar
import ClassLoom.Proofs.Classpath
import ClassLoom.Proofs.Listing.Positions
import ClassLoom.Proofs.Listing.Relaxed
import ClassLoom.Proofs.Listing.Labelled
import ClassLoom.Proofs.Weave.PhaseScopes
import ClassLoom.Proofs.Weave.RedirectedAgain
import ClassLoom.Proofs.Weave.RetypedAgain
import ClassLoom.Proofs.Weave.Steady
import ClassLoom.Proofs.Weave.PreparedAgain
import ClassLoom.Proofs.Weave.Rewoven
