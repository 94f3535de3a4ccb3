import Recognizers.Tree.Visitor

/-!
Trees as they lie in memory: an array of nodes and the number of the root, with nothing known of
either. A traversal takes one round for each thing on its list, and `none` says that the rounds were
not enough.
-/
namespace Recognizers

/-- What an access relied on in vain. -/
inductive Fault where
  | emptyStack
  | negative (size taken : Nat)
  | outside (index size : Nat)
deriving DecidableEq

namespace Checked

def minus (size taken : Nat) : Except Fault Nat :=
  if taken ≤ size then .ok (size - taken) else .error (.negative size taken)

def read {α : Type} (xs : Array α) (i : Nat) : Except Fault α :=
  match xs[i]? with
  | some x => .ok x
  | none => .error (.outside i xs.size)

def write {α : Type} (xs : Array α) (i : Nat) (x : α) : Except Fault (Array α) :=
  if i < xs.size then .ok (xs.setIfInBounds i x) else .error (.outside i xs.size)

def top {α : Type} (stack : List α) : Except Fault α :=
  match stack.getLast? with
  | some x => .ok x
  | none => .error .emptyStack

end Checked

structure BareTree where
  nodes : Array Node
  root : Nat

def ParseTree.bare (t : ParseTree) : BareTree := { nodes := t.arena.nodes, root := t.root }

namespace Checked

def outlineFrom (nodes : Array Node) : Nat → List (Nat × Nat) → Except Fault (Option (List Placed))
  | _, [] => .ok (some [])
  | 0, _ :: _ => .ok none
  | rounds + 1, (depth, i) :: rest => do
    let node ← read nodes i
    let below ← outlineFrom nodes rounds (node.children.map (depth + 1, ·) ++ rest)
    pure (below.map ({ depth, index := i, node } :: ·))

/-- The pairs of children are compared from the last one to the first. -/
def isomorphicFrom (nodes others : Array Node) : Nat → List (Nat × Nat) → Except Fault (Option Bool)
  | _, [] => .ok (some true)
  | 0, _ :: _ => .ok none
  | rounds + 1, (i, j) :: rest => do
    let m ← read nodes i
    let n ← read others j
    if m.symbol = n.symbol ∧ m.isLeaf = n.isLeaf ∧ m.children.length = n.children.length then
      isomorphicFrom nodes others rounds ((m.children.zip n.children).reverse ++ rest)
    else pure (some false)

def nonterminals (nodes : Array Node) : List Nat → Except Fault (List Nat)
  | [] => .ok []
  | c :: cs => do
    let n ← read nodes c
    let later ← nonterminals nodes cs
    pure (if n.symbol.kind = .nonterminal then c :: later else later)

/-- Answers whether the rounds were enough. -/
def walkFrom {m : Type → Type u} [Monad m] (nodes : Array Node) (v : Visitor m) :
    Nat → List Visit → m (Except Fault Bool)
  | _, [] => pure (.ok true)
  | 0, _ :: _ => pure (.ok false)
  | rounds + 1, .leave i :: rest => do
    v.leave i
    walkFrom nodes v rounds rest
  | rounds + 1, .enter i :: rest =>
    match read nodes i with
    | .error e => pure (.error e)
    | .ok n =>
      if n.isLeaf then walkFrom nodes v rounds rest
      else do
        v.enter i
        match nonterminals nodes n.children with
        | .error e => pure (.error e)
        | .ok inner => walkFrom nodes v rounds (inner.map .enter ++ .leave i :: rest)

end Checked

namespace BareTree
open Checked

def outline (t : BareTree) (rounds : Nat) : Except Fault (Option (List Placed)) :=
  outlineFrom t.nodes rounds [(0, t.root)]

def leaves (t : BareTree) (rounds : Nat) : Except Fault (Option (List Symbol)) :=
  (t.outline rounds).map (Option.map fun placed =>
    (placed.filter (·.node.isLeaf)).map (·.node.symbol))

def drawing (t : BareTree) (v : Vocabulary) (rounds : Nat) : Except Fault (Option String) :=
  (t.outline rounds).map (Option.map fun placed =>
    String.join (placed.map fun p => ParseTree.line p.depth (v.name p.node.symbol)))

def isomorphic (t u : BareTree) (rounds : Nat) : Except Fault (Option Bool) :=
  isomorphicFrom t.nodes u.nodes rounds [(t.root, u.root)]

def walk {m : Type → Type u} [Monad m] (t : BareTree) (v : Visitor m) (rounds : Nat) :
    m (Except Fault Bool) :=
  walkFrom t.nodes v rounds [.enter t.root]

end BareTree
end Recognizers
