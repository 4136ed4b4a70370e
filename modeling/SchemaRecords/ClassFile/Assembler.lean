import SchemaRecords.ClassFile.Operation

/-!
# Assembling method bodies

The assembler takes the operations of a body one after the other
(`Assembler.step`). It places their instructions, keeps the depth of the operand
stack, its greatest value and the number of locals, and records where labels are
bound and which frames are declared there. What goes wrong on the way is
remembered, the first fault only, and assembly goes on.

`Assembler.finish` gives the code: it measures the branches, which needs all
labels, and joins frames that are declared twice at one offset. Offsets never
decrease, so frames are recorded in the order in which the table lists them.
-/

namespace SchemaRecords.ClassFile

/-- The code of a method. -/
structure Code where
  maxStack : UInt16
  maxLocals : UInt16
  bytes : Bytes
  /-- The declared frames with their offsets, in increasing order. -/
  frames : List (Nat × Frame)
deriving DecidableEq, Repr

/-- A placed instruction; a branch still names its target. -/
inductive Placed where
  | fixed (instruction : Instruction)
  | jump (condition : Condition) (target : Label)
deriving DecidableEq, Repr

namespace Placed

/-- The bytes the instruction takes. -/
def size : Placed → Nat
  | fixed i => i.encode.length
  | jump _ _ => 3

end Placed

/-- A body under assembly. -/
structure Assembler where
  pool : Pool
  /-- The instructions so far, each with its offset. -/
  code : Array (Nat × Placed) := #[]
  /-- The offset of the next instruction. -/
  position : Nat := 0
  /-- The bound labels, the latest first. -/
  labels : List (Label × Nat) := []
  /-- The declared frames with their offsets. -/
  frames : Array (Nat × Frame) := #[]
  /-- The slots on the operand stack. -/
  depth : UInt16 := 0
  maxStack : UInt16 := 0
  maxLocals : UInt16
  /-- The first thing that went wrong. -/
  fault : Option Error := none

namespace Assembler

/-- Nothing assembled yet, with room for `locals` locals. -/
def start (pool : Pool) (locals : UInt16) : Assembler :=
  { pool, maxLocals := locals }

/-- Remembers a fault, unless there is an earlier one. -/
def noteFault (s : Assembler) (e : Error) : Assembler :=
  match s.fault with
  | none => { s with fault := some e }
  | some _ => s

/-- The index of a constant, or 0 with a fault if the pool refuses it. -/
def intern (s : Assembler) (request : Intern UInt16) : UInt16 × Assembler :=
  match s with
  | ⟨pool, code, position, labels, frames, depth, maxStack, maxLocals, fault⟩ =>
    match request pool with
    | .ok i pool => (i, ⟨pool, code, position, labels, frames, depth, maxStack, maxLocals, fault⟩)
    | .error e pool =>
      (0, noteFault ⟨pool, code, position, labels, frames, depth, maxStack, maxLocals, fault⟩ e)

/-- Places an instruction after all others. -/
def place (s : Assembler) (p : Placed) : Assembler :=
  { s with code := s.code.push (s.position, p), position := s.position + p.size }

/-- Places what was selected, or remembers why nothing could be. -/
def placeSelected (s : Assembler) : Except Error Operation.Selected → Assembler
  | .ok (.instruction i) => s.place (.fixed i)
  | .ok (.jump condition target) => s.place (.jump condition target)
  | .ok .nothing => s
  | .error e => s.noteFault e

/-- Makes room for locals. -/
def reserve (s : Assembler) (locals : UInt16) : Assembler :=
  { s with maxLocals := max s.maxLocals locals }

/-- Sets the depth of the stack. -/
def setDepth (s : Assembler) (depth : UInt16) : Assembler :=
  { s with depth, maxStack := max s.maxStack depth }

/-- Takes `pops` slots from the stack and puts `pushes` on it. If there are not enough, that is a
fault, and the stack counts as empty before the pushes. -/
def adjust (s : Assembler) (pops pushes : UInt16) : Assembler :=
  if s.depth < pops then
    (s.noteFault (.stackUnderflow s.position)).setDepth pushes
  else s.setDepth (s.depth - pops + pushes)

/-- Binds a label here and declares the frame here. The stack becomes what the frame says. -/
def bind (s : Assembler) (label : Label) (frame : Frame) : Assembler :=
  { s with
    labels := (label, s.position) :: s.labels
    frames := s.frames.push (s.position, frame) }.setDepth frame.stackSlots

/-- Assembles one operation. -/
def step (s : Assembler) (op : Operation) : Assembler :=
  match op with
  | .bind label frame => s.bind label frame
  | op =>
    let (index, s) := match op.constant with
      | some request => s.intern request
      | none => (0, s)
    ((s.placeSelected (op.select index)).reserve op.touches).adjust op.pops op.pushes

/-- Assembles operations in order. -/
def steps (s : Assembler) (ops : List Operation) : Assembler :=
  ops.foldl step s

/-- The instruction at offset `here`, with a branch measured by where its label was last bound. -/
def link (labels : List (Label × Nat)) (here : Nat) : Placed → Except Error Instruction
  | .fixed i => .ok i
  | .jump condition target =>
    match labels.lookup target with
    | none => .error (.unboundLabel target)
    | some there =>
      let offset : Int := there - here
      if -32768 ≤ offset ∧ offset ≤ 32767 then .ok (.branch condition (Int16.ofInt offset))
      else .error (.branchTooFar offset)

/-- Links all instructions, after those in `done`. -/
def linkFrom (labels : List (Label × Nat)) (done : Array Instruction) :
    List (Nat × Placed) → Except Error (Array Instruction)
  | [] => .ok done
  | (here, p) :: rest =>
    match link labels here p with
    | .ok i => linkFrom labels (done.push i) rest
    | .error e => .error e

/-- Joins equal frames at one offset, after the frames in `done`; different ones conflict. -/
def joinFrom (done : Array (Nat × Frame)) :
    List (Nat × Frame) → Except Error (Array (Nat × Frame))
  | [] => .ok done
  | (offset, frame) :: rest =>
    match done.back? with
    | some (last, other) =>
      if last = offset then
        if other = frame then joinFrom done rest else .error (.conflictingFrames offset)
      else joinFrom (done.push (offset, frame)) rest
    | none => joinFrom (done.push (offset, frame)) rest

/-- The finished code, or the first fault: one met while assembling, then one of the branches,
then the size of the code, then the frames. -/
def finish (s : Assembler) : Except Error Code :=
  match s.fault with
  | some e => .error e
  | none =>
    match linkFrom s.labels #[] s.code.toList with
    | .error e => .error e
    | .ok instructions =>
      if 65535 < s.position then .error (.codeTooLarge s.position)
      else
        match joinFrom #[] s.frames.toList with
        | .error e => .error e
        | .ok frames =>
          .ok {
            maxStack := s.maxStack
            maxLocals := s.maxLocals
            bytes := instructions.toList.flatMap Instruction.encode
            frames := frames.toList }

end Assembler

/-- A method body: its operations, and whether whoever wrote them gave up at the end. -/
structure Body where
  operations : List Operation
  refusal : Option Error := none

namespace Body

/-- Assembles a body. The constants it uses are in the pool afterwards, also if it fails. -/
def assemble (b : Body) (locals : UInt16) : Intern Code := fun pool =>
  let s := (Assembler.start pool locals).steps b.operations
  match b.refusal with
  | some e => .error e s.pool
  | none =>
    match s.finish with
    | .ok code => .ok code s.pool
    | .error e => .error e s.pool

end Body

end SchemaRecords.ClassFile
