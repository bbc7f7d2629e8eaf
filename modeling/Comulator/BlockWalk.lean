import Comulator.IrMap
import Comulator.TakeOut

namespace Comulator.BlockWalk

open Types Ir TypeHash Symtbl HostIr TakeOut

/-- An `llvm::Instruction*` of the function that is copied into: one that was cloned or
inserted, by its name, or what was made to replace the call `n`. -/
inductive Ptr
  | host (x : HostId)
  | made (n : Nat)
  deriving DecidableEq

def Ptr.name : Ptr → HostId
  | .host x => x
  | .made n => bodyId n

inductive HNode (ι : Type)
  | phi (p : Phi HostSym ι HostBlock)
  | inst (i : Inst HostSym ι)
  | term (id : ι) (t : Term HostSym ι HostBlock)

section HNode

variable {ι κ : Type}

def HNode.map (d u : ι → κ) : HNode ι → HNode κ
  | .phi p => .phi ⟨d p.id, p.ty, p.incoming.map (fun e => (e.1.mapInst u, e.2))⟩
  | .inst i => .inst ⟨d i.id, i.op.mapInst u⟩
  | .term x t => .term (d x) (t.mapInst u)

def HNode.uses : HNode ι → List ι
  | .phi p => p.incoming.flatMap (fun e => e.1.insts)
  | .inst i => i.op.insts
  | .term _ t => t.insts

def HNode.relabel (r : HostBlock → HostBlock) : HNode ι → HNode ι
  | .phi p => .phi p
  | .inst i => .inst i
  | .term x t => .term x (t.mapLabel r)

end HNode

/-- An instruction of the function in the course of the walk: cloned and not visited
yet, finished, or a call that is to be replaced at the end. A store of a returned value
is among those not visited. -/
inductive Node
  | phi (p : Phi Nat Nat HostBlock)
  | inst (i : GInst)
  | store (n : Nat) (ty : Ty) (v : GValue)
  | term (n : Nat) (t : Term Nat Nat HostBlock)
  | new (x : HNode Ptr)
  | old (n : Nat)

def Node.labels : Node → List HostBlock
  | .term _ t => t.labels
  | .new (.term _ t) => t.labels
  | _ => []

def Node.relabel (r : HostBlock → HostBlock) : Node → Node
  | .term n t => .term n (t.mapLabel r)
  | .new x => .new (x.relabel r)
  | x => x

/-- `BasicBlock::replacePhiUsesWith`, for all of the blocks. -/
def Node.setIncoming (preds : List HostBlock) (new : HostBlock) : Node → Node
  | .phi p => .phi { p with incoming := p.incoming.map (fun e => (e.1, if e.2 ∈ preds then new else e.2)) }
  | .new (.phi p) => .new (.phi { p with incoming := p.incoming.map (fun e => (e.1, if e.2 ∈ preds then new else e.2)) })
  | x => x

abbrev NodeBlock := HostBlock × List Node

def relabelBlock (r : HostBlock → HostBlock) (b : NodeBlock) : NodeBlock := (b.1, b.2.map (Node.relabel r))

def redirect (l new x : HostBlock) : HostBlock := if x = l then new else x

inductive Visit
  | cloned (n : Nat)
  | store (n : Nat)
  | join (x : Ptr)
  | generated (x : Ptr)
  | again (n : Nat)
  deriving DecidableEq

def Node.visit : Node → Visit
  | .phi p => .cloned p.id
  | .inst i => .cloned i.id
  | .store n _ _ => .store n
  | .term n _ => .cloned n
  | .new (.phi p) => .join p.id
  | .new (.inst i) => .generated i.id
  | .new (.term x _) => .generated x
  | .old n => .again n

/-- The walk of `do_function`: the entry block up to and with `mEntryTerminator`, the
blocks before the iterator `it`, its block with the instructions before `ins` and from it
on, the blocks after, and `mToReplace`, where a call without a value has no replacement. -/
structure Walk where
  entry : List Node
  entryTerm : Node
  before : List NodeBlock
  label : HostBlock
  done : List Node
  rest : List Node
  after : List NodeBlock
  toReplace : List (Nat × Bool)
  visits : List Visit

def Walk.blocks (w : Walk) : List NodeBlock :=
  (.entry, w.entry ++ [w.entryTerm]) :: w.before ++ (w.label, w.done ++ w.rest) :: w.after

def Walk.predecessors (w : Walk) (l : HostBlock) : List HostBlock :=
  (w.blocks.filter (fun b => b.2.any (fun x => l ∈ x.labels))).map Prod.fst

def kept (i : HInst) : Node := .new ((HNode.inst i).map .host .host)

def defPtr (n : Nat) (x : HostId) : Ptr := if x = bodyId n then .made n else .host x

def madeFor (n : Nat) (i : HInst) : Node := .new ((HNode.inst i).map (defPtr n) .host)

def joined (n : Nat) (p : HPhi) : Node := .new ((HNode.phi p).map (defPtr n) .host)

def branch (x : HostId) (t : HTerm) : Node := .new ((HNode.term x t).map .host .host)

/-- `BasicBlock::splitBasicBlockBefore` of the block of the iterator at the instruction
of the walk: all that is before goes to a new block before it, which the predecessors
branch to and which branches to the old one. -/
def Walk.splitBasicBlockBefore (w : Walk) (new : HostBlock) (x : HostId) : Walk :=
  let r := redirect w.label new
  { w with
    entryTerm := w.entryTerm.relabel r
    before := w.before.map (relabelBlock r) ++ [(new, w.done ++ [branch x (.br w.label)])]
    done := []
    rest := w.rest.map (fun y => (y.relabel r).setIncoming (w.predecessors w.label) new)
    after := w.after.map (relabelBlock r) }

def editBlock (l : HostBlock) (f : List Node → List Node) (b : NodeBlock) : NodeBlock :=
  if b.1 = l then (b.1, f b.2) else b

def Walk.edit (w : Walk) (l : HostBlock) (f : List Node → List Node) : Walk :=
  { w with before := w.before.map (editBlock l f) }

def Walk.doFcpCm (w : Walk) (n : Nat) (pre : List HInst) (s : Split) : Walk :=
  let x : HostId := ⟨some n, 0⟩
  let w := { w with done := w.done ++ pre.map kept }
  let w := w.splitBasicBlockBefore (.top n) x
  let w := { w with before := w.before ++ [(HostBlock.left n, [])] }
  -- the iterator of the second split is that of the instruction after the call
  let w := { w with done := [.old n], rest := w.rest.tail }
  let w := w.splitBasicBlockBefore (.right n) x
  let w := w.edit (.top n) (fun l =>
    l.dropLast ++ s.check.map kept ++ [branch x (.condBr s.cond (.left n) (.right n))])
  let w := w.edit (.left n) (fun l => l ++ s.left.map kept ++ [branch x (.br w.label)])
  let w := w.edit (.right n) (fun l => s.right.map kept ++ l)
  { w with
    rest := s.phi.toList.map (joined n) ++ w.rest
    toReplace := w.toReplace ++ [(n, s.phi.isSome)] }

section Run

variable (P : Input) (X : Copy)

def replaces (i : GInst) : Bool :=
  match i.op with
  | .call c =>
      match P.route c with
      | .intrinsic _ | .callback => true
      | _ => false
  | _ => false

def hasValue (i : GInst) : Bool :=
  match i.op with
  | .call c => c.functionType.ret ≠ .void
  | _ => true

def placed (i : GInst) (l : List HInst) : List Node :=
  if replaces P i then l.map (madeFor i.id) ++ [.old i.id] else l.map kept

def visitTerm (n : Nat) (t : Term Nat Nat HostBlock) : Except Error (List HInst × HTerm) :=
  let operand := doOperand (site P X n false) X.args 1
  match t with
  | .ret none => .ok ([], .ret none)
  | .ret (some (ty, v)) => do
      let (code, v) ← operand v
      return (code, .ret (some (ty, v)))
  | .br d => .ok ([], .br d)
  | .condBr v a b => do
      let (code, v) ← operand v
      return (code, .condBr v a b)
  | .switch v d cases => do
      let (code, v) ← operand v
      return (code, .switch v d cases)
  | .unreachable => .ok ([], .unreachable)
  | _ => .error .rejected

/-- `do_instruction` on the instruction of the walk, which goes on to the one it
returns. The operands of a phi that `do_fcp_cm` made are no constants and stay. -/
def Walk.doInstruction (w : Walk) : Except Error Walk :=
  match w.rest with
  | [] => .ok w
  | x :: rest =>
      let w := { w with visits := w.visits ++ [x.visit] }
      match x with
      | .phi p => do
          let (code, vs) ← doOperands (site P X p.id false) X.args 1 (p.incoming.map Prod.fst)
          let q : HPhi := ⟨bodyId p.id, p.ty, vs.zip (p.incoming.map Prod.snd)⟩
          return { w with
            entry := w.entry ++ code.map kept
            done := w.done ++ [.new ((HNode.phi q).map .host .host)]
            rest }
      | .inst i => do
          let piece ← TakeOut.doInstruction P X i
          match piece with
          | .code l => return { w with
              done := w.done ++ placed P i l
              rest
              toReplace := if replaces P i then w.toReplace ++ [(i.id, hasValue i)] else w.toReplace }
          | .split pre s => return w.doFcpCm i.id pre s
      | .store n ty v => do
          let (code, v) ← doOperand (site P X n false) X.args 1 v
          return { w with
            done := w.done ++ (code ++ [(⟨⟨some n, 1 + code.length⟩, .store ty v (.arg 0)⟩ : HInst)]).map kept
            rest }
      | .term n t => do
          let (code, t) ← visitTerm P X n t
          return { w with done := w.done ++ code.map kept ++ [branch (bodyId n) t], rest }
      | .new y => return { w with done := w.done ++ [.new y], rest }
      | .old n => return { w with done := w.done ++ [.old n], rest }

/-- The two loops of `do_function` within a number of turns. -/
def run : Nat → Walk → Option (Except Error Walk)
  | 0, _ => none
  | n + 1, w =>
      match w.rest, w.after with
      | [], [] => some (.ok w)
      | [], b :: after =>
          run n { w with before := w.before ++ [(w.label, w.done)], label := b.1, done := [], rest := b.2, after }
      | _ :: _, _ =>
          match w.doInstruction P X with
          | .error e => some (.error e)
          | .ok w => run n w

/-- What `do_function` leaves of a terminator for the walk: outside the fast call path
a value is stored into `retPad`. -/
def clonedTerm (n : Nat) : Term Nat Nat Nat → List Node
  | .ret (some (ty, v)) =>
      if P.config.useFCP then [.term n (.ret (some (ty, v)))] else [.store n ty v, .term n (.ret none)]
  | t => [.term n (t.mapLabel .body)]

def cloned (b : Nat × GBlock) : NodeBlock :=
  (.body b.1, b.2.phis.map (fun p => .phi ⟨p.id, p.ty, p.incoming.map (fun e => (e.1, .body e.2))⟩) ++
    b.2.insts.map .inst ++ clonedTerm P b.2.termId b.2.term)

def start (entry : List HInst) (b : Nat × GBlock) (bs : List (Nat × GBlock)) : Walk :=
  ⟨entry.map kept, branch ⟨none, 0⟩ (.br (.body b.1)), [], .body b.1, [], (cloned P b).2, bs.map (cloned P), [], []⟩

end Run

def Node.replaceAllUsesWith (n : Nat) (value : Bool) : Node → Node
  | .new x => .new (x.map id (fun p => if value ∧ p = .host (bodyId n) then .made n else p))
  | x => x

def Node.isOld (n : Nat) : Node → Bool
  | .old k => k = n
  | _ => false

def replaceOld (blocks : List NodeBlock) (e : Nat × Bool) : List NodeBlock :=
  blocks.map (fun b => (b.1, (b.2.filter (fun x => !x.isOld e.1)).map (Node.replaceAllUsesWith e.1 e.2)))

/-- The loop over `mToReplace` at the end of `do_function`. -/
def Walk.finish (w : Walk) : List NodeBlock := w.toReplace.foldl replaceOld w.blocks

end Comulator.BlockWalk
