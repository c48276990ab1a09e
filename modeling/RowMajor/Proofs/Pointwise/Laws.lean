import Mathlib
import RowMajor.Algebra.Residue
import RowMajor.Proofs.Pointwise.Assign

/-! The operations of an element algebra on structures of one shape. They act on the elements
at each multi-index, so that whatever equation holds of elements holds of structures. -/
namespace RowMajor
open Layout (InBounds rowOffset)
variable {α β : Type} {layout : Layout}

/-! Single operations -/

/-- The work combines two structures of one shape element by element. Before it looks at their
shapes it stores them, and it refuses different ones. -/
structure CombinesElements (f : α → α → Except Fault α)
    (work : Structure α → Structure α → Attempt (Except Fault) (Tensor α)) : Prop where
  gathers : ∀ {layout : Layout} {left right : Structure α}, left.IsOperand layout →
    right.IsOperand layout → Gathers .stored layout
      (fun index => do f (← left.read index) (← right.read index)) (work left right).run
  refuses : ∀ {left right : Structure α} {a b : Tensor α}, left.flat = .ok a → right.flat = .ok b →
    left.shape ≠ right.shape →
      (work left right).run = .ok (.error (.shapeMismatch left.shape right.shape))
  noRoom : ∀ {left right : Structure α} {fault : Fault},
    left.flat = .error fault ∨ right.flat = .error fault → (work left right).run = .error .noRoom

theorem Structure.zip_combines (f : α → α → Except Fault α) :
    CombinesElements f fun left right => left.zip right f where
  gathers hl hr := zip_gathers hl hr f
  refuses foundLeft foundRight different := zip_refuses foundLeft foundRight different f
  noRoom missing := zip_faults missing f

structure MapsElements (f : α → Except Fault α)
    (work : Structure α → Attempt (Except Fault) (Tensor α)) : Prop where
  gathers : ∀ {layout : Layout} {s : Structure α}, s.IsOperand layout →
    Gathers .stored layout (fun index => do f (← s.read index)) (work s).run
  noRoom : ∀ {s : Structure α} {fault : Fault}, s.flat = .error fault →
    (work s).run = .error .noRoom

theorem Structure.map_maps (f : α → Except Fault α) :
    MapsElements f fun s => s.map f where
  gathers h := map_gathers h f
  noRoom missing := map_faults missing f

/-! Terms -/

namespace Gathers

variable {v w : List Nat → Except Fault α}

theorem stored {work : Attempt (Except Fault) (Tensor α)} (h : Gathers .stored layout v work.run) :
    Gathers id layout v
      (do return .stored (← work) : Attempt (Except Fault) (Structure α)).run := by
  rw [ExceptT.run_bind]
  generalize work.run = ran at h ⊢
  cases h with
  | returns operand reads => exact .returns operand reads
  | faults hi fails => exact .faults hi fails

variable {first second : Attempt (Except Fault) (Structure α)}

theorem apply {f : α → Except Fault α} {work : Structure α → Attempt (Except Fault) (Tensor α)}
    (maps : MapsElements f work) (h : Gathers id layout v first.run) :
    Gathers id layout (fun index => do f (← v index))
      (do return .stored (← work (← first)) : Attempt (Except Fault) (Structure α)).run := by
  rw [ExceptT.run_bind]
  generalize first.run = ran at h ⊢
  cases h with
  | returns operand reads =>
      refine (maps.gathers operand).stored.congr fun index hi => ?_
      exact congrArg (· >>= f) (reads index hi)
  | faults hi fails => exact .faults hi (congrArg (· >>= f) fails)

theorem combine {f : α → α → Except Fault α}
    {work : Structure α → Structure α → Attempt (Except Fault) (Tensor α)}
    (combines : CombinesElements f work) (hv : Gathers id layout v first.run)
    (hw : Gathers id layout w second.run) :
    Gathers id layout (fun index => do f (← v index) (← w index))
      (do return .stored (← work (← first) (← second)) :
        Attempt (Except Fault) (Structure α)).run := by
  rw [ExceptT.run_bind]
  generalize first.run = ran at hv ⊢
  cases hv with
  | faults hi fails => exact .faults hi (congrArg (· >>= fun x => w _ >>= f x) fails)
  | @returns left operandLeft readsLeft =>
      change Gathers _ _ _ (second >>= fun right => work left right >>= fun made =>
        pure (Structure.stored made)).run
      rw [ExceptT.run_bind]
      generalize second.run = ran at hw ⊢
      cases hw with
      | @faults index stop hi fails =>
          obtain ⟨x, _, read⟩ := operandLeft.read_eq hi
          refine .faults hi ?_
          rw [← readsLeft index hi, read, fails]
          rfl
      | returns operandRight readsRight =>
          refine (combines.gathers operandLeft operandRight).stored.congr fun index hi => ?_
          rw [← readsLeft index hi, ← readsRight index hi]

end Gathers

/-- Terms in the operations of a field. Those of a ring or a group are among them. -/
inductive Term where
  | unknown (number : Nat)
  | zero
  | one
  | add (left right : Term)
  | sub (left right : Term)
  | neg (arg : Term)
  | multiply (left right : Term)
  | divide (left right : Term)
  | scale (arg : Term) (value : Float)

namespace Term

/-- The value of a term of elements. -/
def value (ops : FieldOps (Except Fault) α) (x : Nat → Except Fault α) : Term → Except Fault α
  | unknown number => x number
  | zero => .ok ops.zero
  | one => .ok ops.one
  | add left right => do ops.add (← left.value ops x) (← right.value ops x)
  | sub left right => do ops.sub (← left.value ops x) (← right.value ops x)
  | neg arg => do ops.neg (← arg.value ops x)
  | multiply left right => do ops.multiply (← left.value ops x) (← right.value ops x)
  | divide left right => do ops.divide (← left.value ops x) (← right.value ops x)
  | scale arg value => do ops.scale (← arg.value ops x) value

/-- The same term of structures of one shape. -/
def valueAll (ops : FieldOps (Except Fault) α) (shape : List Nat) (s : Nat → Structure α) :
    Term → Attempt (Except Fault) (Structure α)
  | unknown number => return s number
  | zero => return .stored (← ExceptT.lift (ops.zeros shape))
  | one => return .stored (← ExceptT.lift (ops.ones shape))
  | add left right => do
    return .stored (← ops.addAll (← left.valueAll ops shape s) (← right.valueAll ops shape s))
  | sub left right => do
    return .stored (← ops.subAll (← left.valueAll ops shape s) (← right.valueAll ops shape s))
  | neg arg => do return .stored (← ops.negAll (← arg.valueAll ops shape s))
  | multiply left right => do
    return .stored (← ops.multiplyAll (← left.valueAll ops shape s) (← right.valueAll ops shape s))
  | divide left right => do
    return .stored (← ops.divideAll (← left.valueAll ops shape s) (← right.valueAll ops shape s))
  | scale arg value => do return .stored (← ops.scaleAll (← arg.valueAll ops shape s) value)

/-- At each multi-index the term of structures is the term of their elements there. -/
theorem gathers (ops : FieldOps (Except Fault) α) {s : Nat → Structure α}
    (room : layout.size < Word.room) (operands : ∀ number, (s number).IsOperand layout)
    (t : Term) : Gathers id layout (fun index => t.value ops fun number => (s number).read index)
      (t.valueAll ops layout.shape s).run := by
  induction t with
  | unknown number => exact .returns (operands number) fun _ _ => rfl
  | zero => exact (Tensor.filled_gathers room ops.zero).stored
  | one => exact (Tensor.filled_gathers room ops.one).stored
  | add left right ihl ihr => exact ihl.combine (Structure.zip_combines ops.add) ihr
  | sub left right ihl ihr => exact ihl.combine (Structure.zip_combines ops.sub) ihr
  | neg arg ih => exact ih.apply (Structure.map_maps ops.neg)
  | multiply left right ihl ihr => exact ihl.combine (Structure.zip_combines ops.multiply) ihr
  | divide left right ihl ihr => exact ihl.combine (Structure.zip_combines ops.divide) ihr
  | scale arg value ih => exact ih.apply (Structure.map_maps (ops.scale · value))

end Term

/-! Laws -/

/-- Both terms have the same value or none. -/
def Term.Agree (ops : FieldOps (Except Fault) α) (left right : Term) (x : Nat → Except Fault α) :
    Prop :=
  ∀ z, left.value ops x = .ok z ↔ right.value ops x = .ok z

/-- Both results are structures of one shape with the same elements, or there is none. -/
inductive SameResult (shape : List Nat) :
    Except Fault (Except Error (Structure α)) → Except Fault (Except Error (Structure α)) → Prop
  | structures {s s' : Structure α} : s.shape = shape → s'.shape = shape →
      (∀ index, InBounds shape index → ∃ x, s.read index = .ok x ∧ s'.read index = .ok x) →
      SameResult shape (.ok (.ok s)) (.ok (.ok s'))
  | faults {stop stop' : Fault} : SameResult shape (.error stop) (.error stop')

theorem Gathers.sameResult {v w : List Nat → Except Fault α}
    {first second : Except Fault (Except Error (Structure α))} (hv : Gathers id layout v first)
    (hw : Gathers id layout w second)
    (agree : ∀ index, InBounds layout.shape index → ∀ z, v index = .ok z ↔ w index = .ok z) :
    SameResult layout.shape first second := by
  cases hv with
  | @returns s operand reads =>
      cases hw with
      | @returns s' operand' reads' =>
          refine .structures (congrArg Layout.shape operand.layout_eq)
            (congrArg Layout.shape operand'.layout_eq) fun index hi => ?_
          obtain ⟨x, _, read⟩ := operand.read_eq hi
          have known := (agree index hi x).mp ((reads index hi).symm.trans read)
          exact ⟨x, read, (reads' index hi).trans known⟩
      | @faults index stop hi fails =>
          obtain ⟨x, _, read⟩ := operand.read_eq hi
          have known := (agree index hi x).mp ((reads index hi).symm.trans read)
          cases known.symm.trans fails
  | @faults index stop hi fails =>
      cases hw with
      | @returns s' operand' reads' =>
          obtain ⟨x, _, read⟩ := operand'.read_eq hi
          have known := (agree index hi x).mpr ((reads' index hi).symm.trans read)
          cases known.symm.trans fails
      | faults => exact .faults

/-- A law of elements is one of structures. Where it has a condition, the elements at each
multi-index must meet it. -/
theorem Term.law {ops : FieldOps (Except Fault) α} {left right : Term}
    {condition : (Nat → α) → Prop}
    (holds : ∀ x, condition x → Agree ops left right fun number => .ok (x number))
    {s : Nat → Structure α} (room : layout.size < Word.room)
    (operands : ∀ number, (s number).IsOperand layout)
    (meets : ∀ index x, InBounds layout.shape index →
      (∀ number, (s number).read index = .ok (x number)) → condition x) :
    SameResult layout.shape (left.valueAll ops layout.shape s).run
      (right.valueAll ops layout.shape s).run := by
  refine (left.gathers ops room operands).sameResult (right.gathers ops room operands) ?_
  intro index hi
  choose x _ reads using fun number => (operands number).read_eq hi
  have elements : (fun number => (s number).read index) = fun number => .ok (x number) :=
    funext reads
  rw [elements]
  exact holds x (meets index x hi reads)

/-- The operations of an algebra on structures are its operations on their elements. What a
group or a ring lacks may be anything here. -/
structure ActsElementwise (ops : FieldOps (Except Fault) α) : Prop where
  add : CombinesElements ops.add ops.addAll
  sub : CombinesElements ops.sub ops.subAll
  neg : MapsElements ops.neg ops.negAll
  multiply : CombinesElements ops.multiply ops.multiplyAll
  divide : CombinesElements ops.divide ops.divideAll
  scale : ∀ value, MapsElements (ops.scale · value) (ops.scaleAll · value)
  zeros : ∀ {shape layout}, Layout.ofShape shape = .ok layout → layout.size < Word.room →
    Gathers .stored layout (fun _ => .ok ops.zero)
      (ExceptT.lift (ops.zeros shape) : Attempt (Except Fault) (Tensor α)).run
  ones : ∀ {shape layout}, Layout.ofShape shape = .ok layout → layout.size < Word.room →
    Gathers .stored layout (fun _ => .ok ops.one)
      (ExceptT.lift (ops.ones shape) : Attempt (Except Fault) (Tensor α)).run
  /-- Any other operation on pairs of elements. -/
  zip : ∀ f : α → α → Except Fault α, CombinesElements f fun left right => left.zip right f
  /-- Operations that are found by name. -/
  named : ∀ {algebra : ElementAlgebra Run α} {name : String} {f : α → α → Except Fault α},
    algebra.binaryFunction name = .ok (fun x y => liftM (f x y)) → ∀ left right log,
      (algebra.binaryAll name left right).run.run.run log =
        ((left.zip right f : Attempt (Except Fault) _).run,
          log.push (.structureOperation algebra.name name left.shape))
  namedUnary : ∀ {algebra : ElementAlgebra Run α} {name : String} {f : α → Except Fault α},
    algebra.unaryFunction name = .ok (fun x => liftM (f x)) → ∀ arg log,
      (algebra.unaryAll name arg).run.run.run log =
        ((arg.map f : Attempt (Except Fault) _).run, log)
  addAssign : ∀ other target,
    AssignsLike (ops.addAssign other) target (ops.addAll (.stored target) other).run
  scaleAssign : ∀ value target,
    AssignsLike (ops.scaleAssign value) target (ops.scaleAll (.stored target) value).run
  logged : DoesAlike ops ops.logged
  laws : ∀ {left right : Term} {condition : (Nat → α) → Prop},
    (∀ x, condition x → Term.Agree ops left right fun number => .ok (x number)) →
      ∀ {layout : Layout} {s : Nat → Structure α}, layout.size < Word.room →
        (∀ number, (s number).IsOperand layout) →
        (∀ index x, InBounds layout.shape index →
          (∀ number, (s number).read index = .ok (x number)) → condition x) →
        SameResult layout.shape (left.valueAll ops layout.shape s).run
          (right.valueAll ops layout.shape s).run

theorem operations_actElementwise (ops : FieldOps (Except Fault) α) : ActsElementwise ops where
  add := Structure.zip_combines ops.add
  sub := Structure.zip_combines ops.sub
  neg := Structure.map_maps ops.neg
  multiply := Structure.zip_combines ops.multiply
  divide := Structure.zip_combines ops.divide
  scale value := Structure.map_maps (ops.scale · value)
  zeros made room := by
    obtain rfl := Layout.shape_of_ofShape made
    exact Tensor.filled_gathers room ops.zero
  ones made room := by
    obtain rfl := Layout.shape_of_ofShape made
    exact Tensor.filled_gathers room ops.one
  zip := Structure.zip_combines
  named known := ElementAlgebra.binaryAll_run _ known
  namedUnary known := ElementAlgebra.unaryAll_run _ known
  addAssign := ops.addAssign_assignsLike
  scaleAssign := ops.scaleAssign_assignsLike
  logged := ops.logged_doesAlike
  laws holds _ _ room operands meets := Term.law holds room operands meets

/-- Operands are stored before their shapes are looked at. -/
theorem addAll_hugeOperand : hugeOperand.shape = [2 ^ 62] ∧ oneElement.shape = [1] ∧ ∀ log,
    (floatGroup.addAll hugeOperand (.stored oneElement)).run.run.run log = (.error .noRoom, log) ∧
      (floatGroup.addAll hugeOperand (.stored oneElement)).run.run.run log ≠
        (.ok (.error (.shapeMismatch [2 ^ 62] [1])), log) := by
  refine ⟨rfl, rfl, fun log => ?_⟩
  have unstored : hugeOperand.flat = .error .noRoom :=
    Structure.flat_lazy_noRoom _ _ (by decide)
  have faults : (floatGroup.addAll hugeOperand (.stored oneElement)).run.run.run log =
      (.error .noRoom, log) := by
    rw [GroupOps.addAll, Structure.zip_run, unstored]
    rfl
  refine ⟨faults, fun refused => ?_⟩
  cases faults.symm.trans refused

/-- Residues of two by two structures, one computed and one stored amid others. -/
def residueTables : Nat → Structure Int
  | 0 => .lazy ⟨[2, 2], [2, 1], 4, by decide, by decide⟩ fun index => index.sum
  | _ => .stored ⟨⟨[2, 2], [2, 1], 4, by decide, by decide⟩, #[9, 3, 1, 4, 1, 9], 1, by decide⟩

/-- The law that products distribute over sums. -/
def distributed : Term × Term :=
  (.multiply (.unknown 0) (.add (.unknown 1) (.unknown 2)),
    .add (.multiply (.unknown 0) (.unknown 1)) (.multiply (.unknown 0) (.unknown 2)))

theorem operations_actElementwise_residueTables :
    SameResult [2, 2] (distributed.1.valueAll (Residue.fieldOps 17) [2, 2] residueTables).run
      (distributed.2.valueAll (Residue.fieldOps 17) [2, 2] residueTables).run := by
  have law : ∀ x : Nat → Int, True → Term.Agree (Residue.fieldOps 17) distributed.1 distributed.2
      fun number => .ok (x number) := by
    intro x _ z
    have equal : x 0 * ((x 1 + x 2) % 17) % 17 = (x 0 * x 1 % 17 + x 0 * x 2 % 17) % 17 := by
      rw [← Int.add_emod, ← Int.mul_add, Int.mul_emod, Int.emod_emod, ← Int.mul_emod]
    exact iff_of_eq (congrArg (fun y => (.ok y : Except Fault Int) = .ok z) equal)
  have bounded : (residueTables 1).Bounded := by
    show 6 < Word.bound
    decide
  have operand (number : Nat) :
      (residueTables number).IsOperand ⟨[2, 2], [2, 1], 4, by decide, by decide⟩ := by
    cases number with
    | zero => exact ⟨rfl, trivial, Structure.exists_flat (by decide)⟩
    | succ number => exact ⟨rfl, bounded, _, rfl⟩
  exact (operations_actElementwise (Residue.fieldOps 17)).laws law (by decide) operand
    fun _ _ _ _ => trivial

end RowMajor
