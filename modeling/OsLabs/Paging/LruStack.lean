import OsLabs.Foundation.Links

/-!
# LRU with a stack

`LRU_stack` of `page_replacement.c`: the frames in order of their last use, in
a doubly linked list with the least recently used one at the head.

The nodes are made once, one for each frame, and a node's address is its
position in the order of the allocations.  A null pointer is `none`.  The
functions return `none` where the program would follow a null pointer, or walk
the list for ever.
-/

namespace OsLabs
namespace Paging

open Foundation

structure PageNodeLru where
  pageNum : Int
  pageIndex : Nat
  pre : Option Nat
  next : Option Nat

structure PageStack where
  nodes : Nat -> PageNodeLru
  head : Option Nat
  tail : Option Nat

def creatPageNodeLru (pageNum : Int) (pageIndex : Nat) : PageNodeLru :=
  PageNodeLru.mk pageNum pageIndex none none

namespace PageStack

def modifyNode (stk : PageStack) (a : Nat) (f : PageNodeLru -> PageNodeLru) : PageStack :=
  { stk with nodes := Function.update stk.nodes a (f (stk.nodes a)) }

def setPre (stk : PageStack) (a : Nat) (ptr : Option Nat) : PageStack :=
  stk.modifyNode a fun node => { node with pre := ptr }

def setNext (stk : PageStack) (a : Nat) (ptr : Option Nat) : PageStack :=
  stk.modifyNode a fun node => { node with next := ptr }

def setPageNum (stk : PageStack) (a : Nat) (pageNum : Int) : PageStack :=
  stk.modifyNode a fun node => { node with pageNum := pageNum }

def setHead (stk : PageStack) (ptr : Option Nat) : PageStack := { stk with head := ptr }

def setTail (stk : PageStack) (ptr : Option Nat) : PageStack := { stk with tail := ptr }

end PageStack

open PageStack

/-- The loop of `init_PageStack` over the `k` frames from `i` on. -/
def initPageStackLoop : Nat -> Nat -> Nat -> PageStack -> PageStack
  | 0, _, curNode, stk => stk.setTail (some curNode)
  | k + 1, i, curNode, stk =>
      let stk := stk.modifyNode i fun _ => creatPageNodeLru (-1) i
      let stk := stk.setNext curNode (some i)
      let stk := stk.setPre i (some curNode)
      initPageStackLoop k (i + 1) i stk

/-- A stack for `n` frames, the first of them at the head. -/
def initPageStack (n : Nat) : PageStack :=
  initPageStackLoop (n - 1) 1 0
    (PageStack.mk (fun _ => creatPageNodeLru (-1) 0) (some 0) none)

/-- The node that holds a page, from `curNode` on; `some none` at the end of the
list. -/
def findNode (stk : PageStack) (pageNum : Int) : Nat -> Option Nat -> Option (Option Nat)
  | 0, _ => none
  | _ + 1, none => some none
  | fuel + 1, some curNode =>
      if (stk.nodes curNode).pageNum = pageNum then
        some (some curNode)
      else
        findNode stk pageNum fuel (stk.nodes curNode).next

/-- A hit puts the node at the tail, unless it is there already. -/
def stackHit (stk : PageStack) (curNode : Nat) : Option PageStack :=
  if stk.tail = some curNode then
    some stk
  else
    let stk :=
      match (stk.nodes curNode).pre with
      | none => stk
      | some pre => stk.setNext pre (stk.nodes curNode).next
    let stk :=
      match (stk.nodes curNode).next with
      | none => stk
      | some next => stk.setPre next (stk.nodes curNode).pre
    match stk.tail with
    | none => none
    | some tail =>
        let stk := stk.setNext tail (some curNode)
        let stk := stk.setPre curNode (some tail)
        let stk := if stk.head = some curNode then stk.setHead (stk.nodes curNode).next else stk
        let stk := stk.setNext curNode none
        some (stk.setTail (some curNode))

/-- A fault takes the node at the head for the new page and puts it at the
tail.  The frame of that node is returned as well. -/
def stackFault (stk : PageStack) (pageNum : Int) : Option (PageStack × Nat) :=
  match stk.head with
  | none => none
  | some oldHead =>
      let stk := stk.setHead (stk.nodes oldHead).next
      match stk.head with
      | none => none
      | some head =>
          let stk := stk.setPre head none
          let stk := stk.setPageNum oldHead pageNum
          let frame := (stk.nodes oldHead).pageIndex
          match stk.tail with
          | none => none
          | some tail =>
              let stk := stk.setNext tail (some oldHead)
              let stk := stk.setPre oldHead (some tail)
              let stk := stk.setNext oldHead none
              some (stk.setTail (some oldHead), frame)

structure LruStackState where
  pageFrame : Nat -> Int
  stack : PageStack

/-- One iteration of the main loop with `n` frames: whether the page faulted,
and the new state. -/
def lruStackRefer (n : Nat) (s : LruStackState) (pageNum : Int) :
    Option (Bool × LruStackState) :=
  match findNode s.stack pageNum (n + 1) s.stack.head with
  | none => none
  | some (some curNode) =>
      match stackHit s.stack curNode with
      | none => none
      | some stack => some (false, { s with stack := stack })
  | some none =>
      match stackFault s.stack pageNum with
      | none => none
      | some (stack, frame) =>
          some (true, LruStackState.mk (Function.update s.pageFrame frame pageNum) stack)

def frameList (n : Nat) (pageFrame : Nat -> Int) : List Int := (List.range n).map pageFrame

/-- What is printed at each reference: the fault and the frames. -/
def lruStackFrom (n : Nat) : LruStackState -> List Int -> Option (List (Bool × List Int))
  | _, [] => some []
  | s, pageNum :: refs =>
      match lruStackRefer n s pageNum with
      | none => none
      | some (fault, s) =>
          match lruStackFrom n s refs with
          | none => none
          | some out => some ((fault, frameList n s.pageFrame) :: out)

def lruStack (n : Nat) (refs : List Int) : Option (List (Bool × List Int)) :=
  lruStackFrom n (LruStackState.mk (fun _ => -1) (initPageStack n)) refs

end Paging
end OsLabs
